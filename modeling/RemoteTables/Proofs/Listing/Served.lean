import RemoteTables.Proofs.Dialogue.Answered
import RemoteTables.Proofs.Listing.Pages
import RemoteTables.Proofs.Listing.Strides
import RemoteTables.Listing.Collect

/-!
# Walks through an honest listing

A listing is served honestly if its pages are the slices of one list, full pages of the standard size
up to the last one, and a total, where one is declared, is the length of the list (`Serves`). A walk
through such a listing ends by itself, and comes to the rows of the pages that its window visits, up
to the limit (`answered_walkFrom`).

Each way of ending is at the right place. A page that is not full is the last one, an empty page lies
behind the end, and a total that is reached means that no item is left. Whenever the walk goes on,
the page was full, so the number of the next page is not far behind the end, and 32 bits are enough
for it if they are enough for the listing and one stride.
-/

set_option autoImplicit false

namespace RemoteTables
namespace PageWindow

open Dialogue

variable {ρ β α γ : Type}

/-- The items on a page, counted from zero. -/
def itemsOn (items : List α) (j : Nat) : List α :=
  (items.drop (j * standardSize.toNat)).take standardSize.toNat

/-- Whether a listing is served honestly: every page has its items, and a declared total is true.
Where no items stand, the page may also not be found. -/
def Serves (fetch : UInt32 → Dialogue ρ β (Option (Page α))) (answer : ρ → β) (items : List α) :
    Prop :=
  ∀ number : UInt32, 0 < number → ∃ found : Option (Page α),
    (fetch number).answered answer = .done found ∧
      (found.bind Page.items).getD [] = itemsOn items (number.toNat - 1) ∧
      ∀ total, found.bind Page.total = some total → total = UInt64.ofNat items.length

/-! ## Pages of a list -/

theorem length_itemsOn (items : List α) (j : Nat) :
    (itemsOn items j).length = min 100 (items.length - j * 100) := by
  rw [itemsOn, List.length_take, List.length_drop]
  rfl

theorem itemsOn_eq_nil {items : List α} {j : Nat} (h : items.length ≤ j * 100) :
    itemsOn items j = [] := by
  rw [← List.length_eq_zero_iff, length_itemsOn]
  omega

/-- Where nothing is left, no page has any rows. -/
theorem strided_itemsOn_eq_nil {items : List α} (outputs : α → List γ) (f n : Nat) {j : Nat}
    (h : items.length ≤ j * 100) :
    strided (fun j => (itemsOn items j).flatMap outputs) f n j = [] := by
  refine strided_eq_nil (s := j) (fun i hi => ?_) f n (Nat.le_refl j)
  have hlater := Nat.mul_le_mul_right 100 hi
  rw [itemsOn_eq_nil (by omega), List.flatMap_nil]

theorem flatMap_itemsOn (items : List α) {f : Nat} (hf : items.length ≤ f * 100) :
    (List.range f).flatMap (itemsOn items) = items := by
  have htake : ∀ f : Nat, (List.range f).flatMap (itemsOn items) = items.take (f * 100) := by
    intro f
    induction f with
    | zero => rw [Nat.zero_mul, List.take_zero]; rfl
    | succ f ih =>
      rw [List.range_succ, List.flatMap_append, ih, List.flatMap_singleton, Nat.succ_mul,
        List.take_add]
      rfl
  rw [htake, List.take_of_length_le hf]

/-! ## The end of a listing -/

/-- Of a page of a list all items are counted, however large the total is. -/
theorem isLast?_itemsOn {w : PageWindow} (hsize : w.pageSize = standardSize) (items : List α)
    {page : UInt32} {j : Nat} (hpage : page.toNat = j + 1) (total : Option UInt64) :
    w.isLast? page (itemsOn items j).length total =
      some (decide (EndsOn 100 (j + 1) (itemsOn items j).length total)) := by
  have hcount := length_itemsOn items j
  have hj : page.toNat < 4294967296 := page.toNat_lt
  have hhundred : w.pageSize.toNat = 100 := by rw [hsize]; rfl
  rw [isLast?_eq (by omega) (fun _ => by
    rw [hpage, hhundred]
    show _ < 18446744073709551616
    omega), hpage, hhundred]

section End

variable {items : List α} {j : Nat} (hlength : items.length < UInt64.size) {total : Option UInt64}
  (htotal : ∀ declared, total = some declared → declared = UInt64.ofNat items.length)
include hlength htotal

/-- A page is taken for the last one if a declared total is reached with it, and without a total if
it is not full. -/
theorem endsOn_itemsOn_iff : EndsOn 100 (j + 1) (itemsOn items j).length total ↔
    if total.isSome then items.length ≤ j * 100 + (itemsOn items j).length
    else (itemsOn items j).length < 100 := by
  cases total with
  | none => exact Iff.rfl
  | some declared =>
    rw [EndsOn, htotal declared rfl, UInt64.toNat_ofNat_of_lt' hlength]
    exact Iff.rfl

/-- A page that is taken for the last one has no items behind it. -/
theorem of_endsOn (h : EndsOn 100 (j + 1) (itemsOn items j).length total) :
    items.length ≤ (j + 1) * 100 := by
  have hcount := length_itemsOn items j
  have hends := (endsOn_itemsOn_iff hlength htotal).mp h
  split at hends <;> omega

/-- A page that is not taken for the last one is full. -/
theorem of_not_endsOn (h : ¬EndsOn 100 (j + 1) (itemsOn items j).length total) :
    (j + 1) * 100 ≤ items.length := by
  have hcount := length_itemsOn items j
  have hgoes := mt (endsOn_itemsOn_iff hlength htotal).mpr h
  split at hgoes <;> omega

end End

/-! ## The walk -/

variable {w : PageWindow} {fetch : UInt32 → Dialogue ρ β (Option (Page α))} {answer : ρ → β}
  {items : List α} {limit : UInt64} {gather : List γ → List α → Dialogue ρ β (List γ)}
  {outputs : α → List γ}

/-- What is asked of a window, a listing and a way of gathering. -/
structure Walkable (w : PageWindow) (fetch : UInt32 → Dialogue ρ β (Option (Page α)))
    (answer : ρ → β) (items : List α) (limit : UInt64)
    (gather : List γ → List α → Dialogue ρ β (List γ)) (outputs : α → List γ) : Prop where
  size : w.pageSize = standardSize
  stride : 0 < w.increment
  /-- Page numbers stay below `2 ^ 32`. -/
  bound : items.length / 100 + w.increment.toNat < UInt32.size
  served : Serves fetch answer items
  /-- Gathering the items of a page adds their rows, up to the limit. -/
  gathers : ∀ got found, got.length < limit.toNat → (∀ item ∈ found, item ∈ items) →
    (gather got found).answered answer = .done ((got ++ found.flatMap outputs).take limit.toNat)

/-- Behind the end a walk stops, with what it has. -/
theorem answered_walkFrom_behind (hserved : Serves fetch answer items) {j : Nat} {page : UInt32}
    (hpage : page.toNat = j + 1) (hend : items.length ≤ j * 100) {patience : Nat}
    (hpatience : 0 < patience) (got : List γ) :
    (w.walkFrom limit fetch gather patience page got).answered answer = .done got := by
  obtain ⟨patience, rfl⟩ := Nat.exists_eq_succ_of_ne_zero (Nat.ne_of_gt hpatience)
  obtain ⟨found, hfound, hitems, -⟩ := hserved page (by
    rw [UInt32.lt_iff_toNat_lt, hpage]
    exact Nat.succ_pos j)
  rw [hpage, Nat.add_sub_cancel, itemsOn_eq_nil hend] at hitems
  rw [walkFrom, answered_bind hfound]
  cases found with
  | none => rfl
  | some found =>
    simp only [show found.items.getD [] = [] from hitems]
    rfl

/-- On a page that has items a walk gathers them, and then it stops or goes on to the next page. -/
theorem answered_walkFrom_page (h : Walkable w fetch answer items limit gather outputs) {j : Nat}
    {page : UInt32} {got : List γ} (hpage : page.toNat = j + 1) (hgot : got.length < limit.toNat)
    (hitems : j * 100 < items.length) (patience : Nat) :
    ∃ total : Option UInt64,
      (∀ declared, total = some declared → declared = UInt64.ofNat items.length) ∧
      (w.walkFrom limit fetch gather (patience + 1) page got).answered answer =
        if limit.toNat ≤ (got ++ (itemsOn items j).flatMap outputs).length then
          .done ((got ++ (itemsOn items j).flatMap outputs).take limit.toNat)
        else if EndsOn 100 (j + 1) (itemsOn items j).length total then
          .done (got ++ (itemsOn items j).flatMap outputs)
        else (fitting (w.nextPage? page) >>= fun next => w.walkFrom limit fetch gather patience next
          (got ++ (itemsOn items j).flatMap outputs)).answered answer := by
  obtain ⟨found, hfound, hon, htotal⟩ := h.served page (by
    rw [UInt32.lt_iff_toNat_lt, hpage]
    exact Nat.succ_pos j)
  rw [hpage, Nat.add_sub_cancel] at hon
  have hcount := length_itemsOn items j
  cases found with
  | none =>
    -- a page that is not found has no items
    rw [← hon] at hcount
    have hnothing : 0 = min 100 (items.length - j * 100) := hcount
    omega
  | some found =>
    refine ⟨found.total, htotal, ?_⟩
    have hon' : found.items.getD [] = itemsOn items j := hon
    have hgathered := h.gathers got (itemsOn items j) hgot fun item hitem =>
      List.mem_of_mem_drop (List.mem_of_mem_take hitem)
    rw [walkFrom, answered_bind hfound]
    dsimp only
    rw [hon']
    split
    · rename_i hnone
      rw [hnone, List.length_nil] at hcount
      omega
    · -- what was gathered is cut at the limit, which shows only if the limit is met
      rw [answered_bind hgathered]
      generalize got ++ (itemsOn items j).flatMap outputs = all
      by_cases hmet : limit.toNat ≤ all.length
      · rw [if_pos hmet, if_pos (by rw [List.length_take]; omega)]
        rfl
      · rw [if_neg hmet, List.take_of_length_le (by omega), if_neg hmet,
          isLast?_itemsOn h.size items hpage, fitting, done_bind]
        simp only [decide_eq_true_eq]
        split <;> rfl

/-- **A walk through an honest listing comes to the rows of the pages that it visits, up to the
limit.** -/
theorem answered_walkFrom (h : Walkable w fetch answer items limit gather outputs)
    {f j : Nat} {page : UInt32} {got : List γ} {patience : Nat} (hpage : page.toNat = j + 1)
    (hgot : got.length < limit.toNat) (hf : items.length ≤ (j + f * w.increment.toNat) * 100)
    (hpatience : f < patience) :
    (w.walkFrom limit fetch gather patience page got).answered answer =
      .done ((got ++ strided (fun j => (itemsOn items j).flatMap outputs) f w.increment.toNat j).take
        limit.toNat) := by
  -- on a number of pages that is enough to get behind the end
  induction f generalizing j page got patience with
  | zero =>
    rw [answered_walkFrom_behind h.served hpage (by omega) hpatience, strided_zero,
      List.append_nil, List.take_of_length_le (Nat.le_of_lt hgot)]
  | succ f ih =>
    by_cases hend : items.length ≤ j * 100
    · -- nothing stands on this page, so nothing stands on any later one
      rw [answered_walkFrom_behind h.served hpage hend (Nat.zero_lt_of_lt hpatience),
        strided_itemsOn_eq_nil outputs _ _ hend, List.append_nil,
        List.take_of_length_le (Nat.le_of_lt hgot)]
    · obtain ⟨patience, rfl⟩ :=
        Nat.exists_eq_succ_of_ne_zero (Nat.ne_of_gt (Nat.zero_lt_of_lt hpatience))
      obtain ⟨total, htotal, hstep⟩ :=
        answered_walkFrom_page h hpage hgot (Nat.lt_of_not_le hend) patience
      rw [hstep, strided_succ_left, ← List.append_assoc]
      generalize got ++ (itemsOn items j).flatMap outputs = all
      have hbound : items.length / 100 + w.increment.toNat < 4294967296 := h.bound
      have hlength : items.length < UInt64.size :=
        show items.length < 18446744073709551616 by omega
      by_cases hmet : limit.toNat ≤ all.length
      · -- the limit is met, so what comes later does not count
        rw [if_pos hmet, List.take_append_of_le_length hmet]
      rw [if_neg hmet]
      by_cases hlast : EndsOn 100 (j + 1) (itemsOn items j).length total
      · -- the walk ends here, and there is nothing behind this page
        have hbehind := of_endsOn hlength htotal hlast
        have hstride : 0 < w.increment.toNat := UInt32.lt_iff_toNat_lt.mp h.stride
        rw [if_pos hlast, strided_itemsOn_eq_nil outputs _ _
            (show items.length ≤ (j + w.increment.toNat) * 100 by omega),
          List.append_nil, List.take_of_length_le (show all.length ≤ limit.toNat by omega)]
      · -- the page was full, so the next one has a number of 32 bits
        have hfull := of_not_endsOn hlength htotal hlast
        have hfits : page.toNat + w.increment.toNat < UInt32.size :=
          show page.toNat + w.increment.toNat < 4294967296 by omega
        rw [if_neg hlast, nextPage?, page?_eq_some_iff.mpr ⟨hfits, rfl⟩, fitting, done_bind]
        refine ih ?_ (by omega) ?_ (Nat.lt_of_succ_lt_succ hpatience)
        · rw [UInt32.toNat_ofNat_of_lt' hfits, hpage]
          omega
        · rw [Nat.succ_mul] at hf
          omega

/-- **All of a window.** A walk from the first page of a window ends by itself. -/
theorem answered_walk (h : Walkable w fetch answer items limit gather outputs) (hlimit : limit ≠ 0)
    (hoffset : w.offset.toNat < w.increment.toNat) {f : Nat} (hf : items.length ≤ f * 100)
    (hpatience : f < UInt64.size) :
    (w.walk limit fetch gather).answered answer =
      .done ((strided (fun j => (itemsOn items j).flatMap outputs) f w.increment.toNat
        w.offset.toNat).take limit.toNat) := by
  have hstride : 0 < w.increment.toNat := UInt32.lt_iff_toNat_lt.mp h.stride
  have hfits : w.offset.toNat + 1 < UInt32.size := by
    have hbound : items.length / 100 + w.increment.toNat < 4294967296 := h.bound
    show w.offset.toNat + 1 < 4294967296
    omega
  have henough : f ≤ f * w.increment.toNat := Nat.le_mul_of_pos_right f hstride
  rw [walk, firstPage?, page?_eq_some_iff.mpr ⟨hfits, rfl⟩, fitting, done_bind]
  refine (answered_walkFrom h (UInt32.toNat_ofNat_of_lt' hfits) ?_ ?_ hpatience).trans ?_
  · exact UInt64.lt_iff_toNat_lt.mp (UInt64.pos_iff_ne_zero.mpr hlimit)
  · omega
  · rw [List.nil_append]

theorem answered_collect (hsize : w.pageSize = standardSize)
    (hstride : 0 < w.increment) (hbound : items.length / 100 + w.increment.toNat < UInt32.size)
    (hserved : Serves fetch answer items) (hoffset : w.offset.toNat < w.increment.toNat) {f : Nat}
    (hf : items.length ≤ f * 100) (hpatience : f < UInt64.size) :
    (w.collect limit fetch outputs).answered answer =
      .done ((strided (fun j => (itemsOn items j).flatMap outputs) f w.increment.toNat
        w.offset.toNat).take limit.toNat) := by
  unfold collect
  split
  · rename_i hzero
    rw [hzero]
    rfl
  · rename_i hlimit
    exact answered_walk ⟨hsize, hstride, hbound, hserved, fun _ _ _ _ => rfl⟩ hlimit hoffset hf
      hpatience

/-- Collecting through the whole window comes to the rows of all items, up to the limit. -/
theorem answered_collect_whole (hbound : items.length / 100 + 1 < UInt32.size)
    (hserved : Serves fetch answer items) :
    (whole.collect limit fetch outputs).answered answer =
      .done ((items.flatMap outputs).take limit.toNat) := by
  have hf : items.length ≤ (items.length / 100 + 1) * 100 := by omega
  have hpages : strided (fun j => (itemsOn items j).flatMap outputs) (items.length / 100 + 1) 1 0 =
      items.flatMap outputs := by
    rw [strided_one, ← List.flatMap_assoc, flatMap_itemsOn items hf]
  rw [answered_collect rfl (by decide) hbound hserved (by decide) hf
    (Nat.lt_trans hbound (by decide))]
  exact congrArg (fun rows => Outcome.done (rows.take limit.toNat)) hpages

end PageWindow
end RemoteTables
