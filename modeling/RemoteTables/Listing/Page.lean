import RemoteTables.Json.Record

/-!
# Pages

A listing comes in pages. A page carries the items that stand on it and, if the server counts, how
many items the whole listing has. A server that has nothing to list may send no list at all, which
is not the same as an empty one: the items are then absent.

Two layouts are read. A bare list of items declares no total. A counted page is a record, in which
the list goes under the name of what is listed.
-/

set_option autoImplicit false

namespace RemoteTables

/-- One page of a listing. -/
structure Page (α : Type) where
  /-- How many items all pages have together, if the server says so. -/
  total : Option UInt64
  /-- The items of this page; absent if the server sends no list. -/
  items : Option (List α)

namespace Page

variable {α : Type}

/-- A page that is a list and nothing else. -/
def bare (items : List α) : Page α := ⟨none, some items⟩

/-- Reads a page that is a list and nothing else. -/
def bareDecoder (item : Decoder α) : Decoder (Page α) := (Decoder.list item).map bare

/-- The names under which the list of a counted page may stand, besides `items`. -/
def listNames : List String := ["workflows", "workflow_runs", "jobs", "artifacts"]

/-- Reads a page with a total; both its fields may be missing or `null`. -/
def countedDecoder (item : Decoder α) : Decoder (Page α) :=
  Record.decoder (Page.mk <$> .optional "total_count" Decoder.uint64
    <*> .field "items" listNames (some none) none (Decoder.list item).optional)

end Page
end RemoteTables
