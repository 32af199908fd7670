import RemoteTables.Dialogue
import RemoteTables.Listing.Page
import RemoteTables.Listing.Window

/-!
# Going through a listing

Goes through the pages of a window, in order, and gathers what is made of their items. It stops at
the first page that is not found, has no items, fills the limit, or is the last; a page that fails
ends the whole dialogue, and so does a page number that does not fit. One item may give any number of outputs, none included, so the limit is
counted in outputs and the end of the listing in items.

What is made of the items of a page may itself take questions (`walk`), as when every item is the
head of a listing of its own. In the plain case it takes none (`collect`).

Nothing here bounds the number of pages, so the loop takes a bound from outside, its patience. The
one that it is given is enough for every plain listing that ends: page numbers either move on, and
there are fewer than `2^32` of them, or stay, and then each round adds as much as the last one, and
a limit below `2^64` is met by then or never.
-/

set_option autoImplicit false

namespace RemoteTables
namespace PageWindow

open Dialogue

variable {ρ β α γ : Type}

/-- Goes on from a page, after `got` was gathered, with patience for so many pages. `gather` adds to
what was gathered what it makes of the items of a page. -/
def walkFrom (w : PageWindow) (limit : UInt64)
    (fetch : UInt32 → Dialogue ρ β (Option (Page α)))
    (gather : List γ → List α → Dialogue ρ β (List γ)) :
    (patience : Nat) → (page : UInt32) → (got : List γ) → Dialogue ρ β (List γ)
  | 0, _, _ => .broken .endless
  | patience + 1, page, got => do
    match ← fetch page with
    | none => return got
    | some found =>
      match found.items.getD [] with
      | [] => return got
      | items =>
        let all ← gather got items
        if limit.toNat ≤ all.length then return all
        else if ← fitting (w.isLast? page items.length found.total) then return all
        else walkFrom w limit fetch gather patience (← fitting (w.nextPage? page)) all

/-- The pages after which a listing that has not ended never will. -/
def patience : Nat := UInt64.size

/-- Goes through the pages of the window until `limit` outputs are gathered. -/
def walk (w : PageWindow) (limit : UInt64) (fetch : UInt32 → Dialogue ρ β (Option (Page α)))
    (gather : List γ → List α → Dialogue ρ β (List γ)) : Dialogue ρ β (List γ) := do
  walkFrom w limit fetch gather patience (← fitting w.firstPage?) []

/-- Adds the outputs of a page's items to what was gathered, up to the limit. -/
def gatherPlain (limit : UInt64) (outputs : α → List γ) (got : List γ) (items : List α) :
    Dialogue ρ β (List γ) :=
  .done ((got ++ items.flatMap outputs).take limit.toNat)

/-- Collects up to `limit` outputs of the items on the window's pages. -/
def collect (w : PageWindow) (limit : UInt64) (fetch : UInt32 → Dialogue ρ β (Option (Page α)))
    (outputs : α → List γ) : Dialogue ρ β (List γ) :=
  if limit = 0 then .done [] else w.walk limit fetch (gatherPlain limit outputs)

end PageWindow
end RemoteTables
