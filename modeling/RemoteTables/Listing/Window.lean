import RemoteTables.Handle

/-!
# Page windows

A reader of a listing does not have to visit every page. Its window says at which page it starts and
how far apart its pages are, so that several readers with windows of the same stride share a listing
without meeting. Pages are numbered from one.

Page numbers are 32-bit and the count of items is 64-bit, as on the wire, and sums are checked: a
number that does not fit is no number at all. So a window ends where its page numbers leave 32 bits.
-/

set_option autoImplicit false

namespace RemoteTables

/-- Which pages of a listing a reader visits. -/
structure PageWindow where
  /-- The pages passed over before the first one. -/
  offset : UInt32
  /-- The distance from one page to the next. -/
  increment : UInt32
  /-- How many items a full page has. -/
  pageSize : UInt32
  deriving DecidableEq, Inhabited

namespace PageWindow

/-- The items asked for per page. -/
def standardSize : UInt32 := 100

/-- The window of a reader that has the listing for itself. -/
def whole : PageWindow := ⟨0, 1, standardSize⟩

/-- The page of a number, if the number fits. -/
def page? (number : Nat) : Option UInt32 :=
  if number < UInt32.size then some (.ofNat number) else none

/-- The first page of a window. -/
def firstPage? (w : PageWindow) : Option UInt32 := page? (w.offset.toNat + 1)

/-- The page after another one. -/
def nextPage? (w : PageWindow) (page : UInt32) : Option UInt32 :=
  page? (page.toNat + w.increment.toNat)

/-- How many items there are up to one of a page, if that can be counted. There is no page zero. -/
def reached? (w : PageWindow) (page : UInt32) (count : Nat) : Option UInt64 :=
  let reached := (page.toNat - 1) * w.pageSize.toNat + count
  if 0 < page.toNat ∧ reached < UInt64.size then some (.ofNat reached) else none

/-- Whether a page ends the listing: the declared total is reached, or, if none is declared, the
page is not full. -/
def isLast? (w : PageWindow) (page : UInt32) (count : Nat) (total : Option UInt64) : Option Bool :=
  match total with
  | some total => (w.reached? page count).map (total ≤ ·)
  | none => some (count < w.pageSize.toNat)

end PageWindow

/-- The window of a handle. Pages are at least one apart, even if the handle came from the wire. -/
def TableHandle.window (h : TableHandle) : PageWindow :=
  ⟨h.offset, max h.pageIncrement 1, PageWindow.standardSize⟩

end RemoteTables
