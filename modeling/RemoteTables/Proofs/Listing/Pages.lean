import RemoteTables.Listing.Window

/-!
# The pages of a window

Which pages a window has is fixed before the first answer: the numbers start behind the offset and
are one stride apart (`number`). In whole numbers they go on for ever, but only the first of them have
32 bits. As long as they do, the next page is the one whose turn it is (`nextPage?_pageAt`), and a
number that does not fit comes from nowhere but the end of this row.

Whether a page is the last one is a comparison of whole numbers too (`EndsOn`), and the test computes
it wherever the items can be counted (`isLast?_eq`).
-/

set_option autoImplicit false

namespace RemoteTables
namespace PageWindow

/-- The number of the page that is visited after so many others. -/
def number (w : PageWindow) (passed : Nat) : Nat :=
  w.offset.toNat + 1 + passed * w.increment.toNat

/-- The page that is visited after so many others. -/
def pageAt (w : PageWindow) (passed : Nat) : UInt32 := .ofNat (w.number passed)

variable {w : PageWindow} {passed : Nat}

/-! ## One page after the other -/

theorem number_zero : w.number 0 = w.offset.toNat + 1 := by
  rw [number, Nat.zero_mul, Nat.add_zero]

theorem number_succ : w.number (passed + 1) = w.number passed + w.increment.toNat := by
  rw [number, number, Nat.succ_mul]
  omega

theorem number_pos : 0 < w.number passed := by
  rw [number]
  omega

theorem toNat_pageAt (h : w.number passed < UInt32.size) :
    (w.pageAt passed).toNat = w.number passed :=
  UInt32.toNat_ofNat_of_lt' h

theorem page?_eq_some_iff {number : Nat} {page : UInt32} :
    page? number = some page ↔ number < UInt32.size ∧ page = .ofNat number := by
  rw [page?]
  split
  · rename_i hfits
    exact ⟨fun h => ⟨hfits, (Option.some.inj h).symm⟩, fun h => congrArg some h.2.symm⟩
  · rename_i hlarge
    exact ⟨fun h => absurd h (by simp), fun h => absurd h.1 hlarge⟩

theorem page?_eq_none_iff {number : Nat} : page? number = none ↔ UInt32.size ≤ number := by
  rw [page?]
  split
  · rename_i hfits
    exact ⟨fun h => absurd h (by simp), fun h => absurd hfits (Nat.not_lt.mpr h)⟩
  · rename_i hlarge
    exact ⟨fun _ => Nat.not_lt.mp hlarge, fun _ => rfl⟩

theorem firstPage?_eq : w.firstPage? = page? (w.number 0) := by
  rw [firstPage?, number_zero]

/-- **The next page is the one whose turn it is**, if its number fits. -/
theorem nextPage?_pageAt (h : w.number passed < UInt32.size) :
    w.nextPage? (w.pageAt passed) = page? (w.number (passed + 1)) := by
  rw [nextPage?, toNat_pageAt h, number_succ]

/-! ## The last page -/

/-- Whether the items of a listing end on a page, in whole numbers: the total is reached, or, if
there is none, the page is not full. -/
def EndsOn (size number count : Nat) : (total : Option UInt64) → Prop
  | some total => total.toNat ≤ (number - 1) * size + count
  | none => count < size

instance (size number count : Nat) (total : Option UInt64) :
    Decidable (EndsOn size number count total) :=
  match total with
  | some total => inferInstanceAs (Decidable (total.toNat ≤ (number - 1) * size + count))
  | none => inferInstanceAs (Decidable (count < size))

/-- Where the items can be counted, the test for the last page is right. -/
theorem isLast?_eq {page : UInt32} {count : Nat} {total : Option UInt64} (hpage : 0 < page.toNat)
    (hrange : total.isSome = true →
      (page.toNat - 1) * w.pageSize.toNat + count < UInt64.size) :
    w.isLast? page count total = some (decide (EndsOn w.pageSize.toNat page.toNat count total)) := by
  cases total with
  | none => rfl
  | some total =>
    have hfits := hrange rfl
    rw [isLast?, reached?, if_pos ⟨hpage, hfits⟩]
    refine congrArg some (decide_eq_decide.mpr ?_)
    rw [UInt64.le_iff_toNat_le, UInt64.toNat_ofNat_of_lt' hfits]
    rfl

end PageWindow
end RemoteTables
