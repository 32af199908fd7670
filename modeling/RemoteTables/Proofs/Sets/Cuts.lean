import Mathlib.Algebra.BigOperators.Group.List.Basic
import RemoteTables.Proofs.Sets.Domains

/-!
# Cuts of ranges as they are written

Two domains may have the same literals and be written differently, and some steps look at how a domain
is written: whether it is points, whether it is empty, whether it is the one that was there before. So
here the intersection is taken by its form and not by its meaning.

Of two ranges the cut is written with the tighter of each two ends, and choosing the tighter end is as
good as taking a maximum: the order does not matter (`intersect?_comm`, `intersect?_right_comm`), and
cutting with the same range once more changes nothing (`intersect?_again`). A cut that is dropped
because nothing is left of it would have been dropped at any later cut as well (`isEmpty_common`),
which is why dropping it early does no harm.

Of two lists of ranges every range is cut with every other. That is where the form gives way: cut with
the same list once more, the ranges stay as they are only if each of them meets just one of that list
(`cut_again_iff`). Ranges that overlap are written more and more often.
-/

set_option autoImplicit false

namespace RemoteTables

/-! ## The tighter end -/

namespace Bound

theorem tighterLow_comm (a b : Bound) : a.tighterLow b = b.tighterLow a := by
  cases a <;> cases b <;> simp only [tighterLow] <;>
    grind [stricter, Std.LawfulEqOrd.eq_of_compare]

theorem tighterHigh_comm (a b : Bound) : a.tighterHigh b = b.tighterHigh a := by
  cases a <;> cases b <;> simp only [tighterHigh] <;>
    grind [stricter, Std.LawfulEqOrd.eq_of_compare]

theorem tighterLow_right_comm (a b c : Bound) :
    (a.tighterLow b).tighterLow c = (a.tighterLow c).tighterLow b := by
  cases a <;> cases b <;> cases c <;> simp only [tighterLow] <;>
    grind [stricter, Std.LawfulEqOrd.eq_of_compare]

theorem tighterHigh_right_comm (a b c : Bound) :
    (a.tighterHigh b).tighterHigh c = (a.tighterHigh c).tighterHigh b := by
  cases a <;> cases b <;> cases c <;> simp only [tighterHigh] <;>
    grind [stricter, Std.LawfulEqOrd.eq_of_compare]

theorem tighterLow_again (a b : Bound) : (a.tighterLow b).tighterLow b = a.tighterLow b := by
  cases a <;> cases b <;> simp only [tighterLow] <;>
    grind [stricter, Std.LawfulEqOrd.eq_of_compare]

theorem tighterHigh_again (a b : Bound) : (a.tighterHigh b).tighterHigh b = a.tighterHigh b := by
  cases a <;> cases b <;> simp only [tighterHigh] <;>
    grind [stricter, Std.LawfulEqOrd.eq_of_compare]

end Bound

/-! ## Cuts of ranges -/

namespace Range

/-- The range with the tighter of each two ends, whether or not there is anything in it. -/
def common (r s : Range) : Range := ⟨r.low.tighterLow s.low, r.high.tighterHigh s.high⟩

theorem intersect?_eq (r s : Range) :
    r.intersect? s = if (r.common s).isEmpty then none else some (r.common s) := rfl

theorem common_comm (r s : Range) : r.common s = s.common r := by
  rw [common, Bound.tighterLow_comm, Bound.tighterHigh_comm, ← common]

theorem common_right_comm (r s t : Range) : (r.common s).common t = (r.common t).common s := by
  simp only [common]
  rw [Bound.tighterLow_right_comm, Bound.tighterHigh_right_comm]

theorem common_again (r s : Range) : (r.common s).common s = r.common s := by
  simp only [common]
  rw [Bound.tighterLow_again, Bound.tighterHigh_again]

theorem common_self (r : Range) : r.common r = r := by
  have heverything : everything.common r = r := rfl
  rw [← heverything]
  exact common_again everything r

/-- **What is empty stays empty**, whatever it is cut with. -/
theorem isEmpty_common {r : Range} (h : r.isEmpty = true) (s : Range) :
    (r.common s).isEmpty = true := by
  obtain ⟨low, high⟩ := r
  obtain ⟨low', high'⟩ := s
  cases low <;> cases high <;> simp only [isEmpty, Bool.false_eq_true, decide_eq_true_eq] at h <;>
    cases low' <;> cases high' <;>
    simp only [common, Bound.tighterLow, Bound.tighterHigh] <;>
    grind [isEmpty, Bound.stricter]

theorem intersect?_comm (r s : Range) : r.intersect? s = s.intersect? r := by
  rw [intersect?_eq, intersect?_eq, common_comm]

/-- A cut that is cut again is the cut of all three, unless that is empty. -/
theorem intersect?_bind (r s t : Range) : ((r.intersect? s).bind fun u => u.intersect? t) =
    if ((r.common s).common t).isEmpty then none else some ((r.common s).common t) := by
  rw [intersect?_eq]
  by_cases hempty : (r.common s).isEmpty = true
  · rw [if_pos hempty, if_pos (isEmpty_common hempty t), Option.bind_none]
  · rw [if_neg hempty, Option.bind_some, intersect?_eq]

/-- **Of two further cuts the order does not matter**, also where nothing is left of one of them. -/
theorem intersect?_right_comm (r s t : Range) :
    ((r.intersect? s).bind fun u => u.intersect? t) =
      (r.intersect? t).bind fun u => u.intersect? s := by
  rw [intersect?_bind, intersect?_bind, common_right_comm]

theorem intersect?_eq_some_iff {r s t : Range} :
    r.intersect? s = some t ↔ t = r.common s ∧ t.isEmpty = false := by
  rw [intersect?_eq]
  constructor
  · intro h
    split at h
    · cases h
    · rename_i hsome
      obtain rfl := Option.some.inj h
      exact ⟨rfl, Bool.eq_false_iff.mpr hsome⟩
  · rintro ⟨rfl, hsome⟩
    rw [if_neg (by simp [hsome])]

/-- **A cut is not cut again** by what it was cut with. -/
theorem intersect?_again {r s t : Range} (h : r.intersect? s = some t) :
    t.intersect? s = some t := by
  obtain ⟨rfl, hsome⟩ := intersect?_eq_some_iff.mp h
  exact intersect?_eq_some_iff.mpr ⟨(common_again r s).symm, hsome⟩

theorem intersect?_self {r : Range} (h : r.isEmpty = false) : r.intersect? r = some r :=
  intersect?_eq_some_iff.mpr ⟨(common_self r).symm, h⟩

/-- Whether there is a cut of two ranges. -/
def meets (r s : Range) : Bool := (r.intersect? s).isSome

theorem meets_iff {r s : Range} : r.meets s = true ↔ (r.common s).isEmpty = false := by
  rw [meets, intersect?_eq]
  split
  · rename_i hempty
    simp [hempty]
  · rename_i hsome
    simpa using hsome

theorem meets_comm (r s : Range) : r.meets s = s.meets r := by
  rw [meets, meets, intersect?_comm]

/-- What meets something is not empty. -/
theorem isEmpty_of_meets {r s : Range} (h : r.meets s = true) : r.isEmpty = false := by
  rw [← Bool.not_eq_true]
  intro hempty
  rw [meets_iff, isEmpty_common hempty] at h
  cases h

/-- What a cut meets, the range that it was cut with meets as well. -/
theorem meets_of_cut {r s t u : Range} (hcut : r.intersect? s = some t) (h : t.meets u = true) :
    s.meets u = true := by
  obtain ⟨rfl, -⟩ := intersect?_eq_some_iff.mp hcut
  rw [meets_iff] at h ⊢
  rw [common_comm r s, common_right_comm] at h
  rw [← Bool.not_eq_true] at h ⊢
  intro hempty
  exact h (isEmpty_common hempty r)

end Range

/-! ## Lists of ranges -/

namespace Domain

/-- Whether every range of one domain meets just one of another, where both are written as ranges. -/
def MeetsOnce (d e : Domain) : Prop :=
  match d, e with
  | ranges rs, ranges ss => ∀ r ∈ rs, ss.countP r.meets = 1
  | _, _ => True

/-- Whether a domain is not written as ranges that overlap or have nothing between their ends. -/
def Apart : Domain → Prop
  | ranges rs => (∀ r ∈ rs, r.isEmpty = false) ∧ rs.Pairwise fun r s => r.meets s = false
  | _ => True

instance (d e : Domain) : Decidable (d.MeetsOnce e) := by
  unfold MeetsOnce
  split <;> infer_instance

instance : (d : Domain) → Decidable d.Apart
  | all => .isTrue trivial
  | values _ => .isTrue trivial
  | ranges _ => inferInstanceAs (Decidable (_ ∧ _))

/-- Of lists that are not empty there are no more than their items. -/
theorem length_le_length_flatMap_of_ne_nil {α β : Type} {f : α → List β} {items : List α}
    (h : ∀ item ∈ items, f item ≠ []) : items.length ≤ (items.flatMap f).length := by
  have hlengths : ∀ n ∈ items.map fun item => (f item).length, 1 ≤ n := by
    intro n hn
    obtain ⟨item, hitem, rfl⟩ := List.mem_map.mp hn
    exact List.length_pos_iff.mpr (h item hitem)
  have hle := List.length_le_sum_of_one_le _ hlengths
  rw [List.length_map] at hle
  rw [List.length_flatMap]
  exact hle

/-- If they have no more items than there are lists, each of them has one. -/
theorem length_eq_one_of_length_flatMap_le {α β : Type} {f : α → List β} {items : List α}
    (h : ∀ item ∈ items, f item ≠ []) (hlength : (items.flatMap f).length ≤ items.length) :
    ∀ item ∈ items, (f item).length = 1 := by
  induction items with
  | nil => exact fun _ hnone => absurd hnone List.not_mem_nil
  | cons first rest ih =>
    obtain ⟨hfirst, hrest⟩ := List.forall_mem_cons.mp h
    have hpositive : 0 < (f first).length := List.length_pos_iff.mpr hfirst
    have hothers : rest.length ≤ (rest.flatMap f).length := length_le_length_flatMap_of_ne_nil hrest
    rw [List.flatMap_cons, List.length_append, List.length_cons] at hlength
    exact List.forall_mem_cons.mpr ⟨by omega, ih hrest (by omega)⟩

theorem length_cuts (r : Range) (ss : List Range) :
    (ss.filterMap r.intersect?).length = ss.countP r.meets :=
  List.length_filterMap_eq_countP

/-- **When a list of ranges is not cut any further.** Each range is empty or inside one of the list
that it is cut with. Then all of them stay as they are, in their order, if and only if each meets
just one of that list. -/
theorem cut_again_iff {rs ss : List Range}
    (hinside : ∀ r ∈ rs, r.isEmpty = false → ∃ s ∈ ss, r.intersect? s = some r) :
    (rs.flatMap fun r => ss.filterMap r.intersect?) = rs ↔ ∀ r ∈ rs, ss.countP r.meets = 1 := by
  constructor
  · intro hsame
    -- every range is a cut, so none is empty, and each is cut with the one that it is inside of
    have hcut : ∀ r ∈ rs, ss.filterMap r.intersect? ≠ [] := by
      intro r hr
      rw [← hsame] at hr
      obtain ⟨t, ht, hr⟩ := List.mem_flatMap.mp hr
      obtain ⟨s, hs, hcut⟩ := List.mem_filterMap.mp hr
      have hagain : r.intersect? s = some r := Range.intersect?_again hcut
      exact List.ne_nil_of_mem (List.mem_filterMap.mpr ⟨s, hs, hagain⟩)
    intro r hr
    rw [← length_cuts]
    exact length_eq_one_of_length_flatMap_le hcut (Nat.le_of_eq (congrArg List.length hsame)) r hr
  · intro honce
    have hsame : ∀ r ∈ rs, ss.filterMap r.intersect? = [r] := by
      intro r hr
      obtain ⟨t, ht⟩ := List.length_eq_one_iff.mp ((length_cuts r ss).trans (honce r hr))
      have hpositive : 0 < ss.countP r.meets := by
        rw [honce r hr]
        exact Nat.zero_lt_one
      obtain ⟨u, -, hu⟩ := List.countP_pos_iff.mp hpositive
      obtain ⟨s, hs, hcut⟩ := hinside r hr (Range.isEmpty_of_meets hu)
      have hmem : r ∈ ss.filterMap r.intersect? := List.mem_filterMap.mpr ⟨s, hs, hcut⟩
      rw [ht, List.mem_singleton] at hmem
      rw [ht, hmem]
    rw [List.flatMap_congr hsame, List.flatMap_singleton']

/-- Ranges that are apart: whatever was cut with them meets just the one that it was cut with. -/
theorem countP_meets_of_apart {ss : List Range} (hapart : ss.Pairwise fun r s => r.meets s = false)
    {r s t : Range} (hs : s ∈ ss) (hcut : r.intersect? s = some t) : ss.countP t.meets = 1 := by
  obtain ⟨before, after, rfl⟩ := List.append_of_mem hs
  obtain ⟨-, hafter, hbefore⟩ := List.pairwise_append.mp hapart
  have hmeets : t.meets s = true := by
    rw [Range.meets, Range.intersect?_again hcut, Option.isSome_some]
  have hothers : ∀ u, s.meets u = false → t.meets u = false := by
    intro u hu
    rw [← Bool.not_eq_true] at hu ⊢
    intro htu
    exact hu (Range.meets_of_cut hcut htu)
  rw [List.countP_append, List.countP_cons_of_pos hmeets, List.countP_eq_zero.mpr,
    List.countP_eq_zero.mpr]
  · intro u hu
    simpa using hothers u ((List.pairwise_cons.mp hafter).1 u hu)
  · intro u hu
    simpa using hothers u (Range.meets_comm u s ▸ hbefore u hu s List.mem_cons_self)

/-! ## Domains -/

theorem all_intersect (d : Domain) : all.intersect d = d := by
  cases d <;> rfl

theorem intersect_all (d : Domain) : d.intersect all = d := by
  cases d <;> rfl

/-- Nothing said before is as good as everything allowed. -/
theorem getD_map_intersect (present : Option Domain) (d : Domain) :
    (present.map (·.intersect d)).getD d = (present.getD all).intersect d := by
  cases present with
  | none => exact (all_intersect d).symm
  | some p => rfl

/-- The literals of a domain that are among some values. -/
theorem exists_values_of_intersect (e : Domain) (vs : List Literal) :
    ∃ ws, e.intersect (values vs) = values ws ∧ ∀ w ∈ ws, w ∈ vs := by
  cases e with
  | all => exact ⟨vs, rfl, fun w hw => hw⟩
  | values us =>
    refine ⟨us.filter vs.contains, rfl, ?_⟩
    intro w hw
    simpa using (List.mem_filter.mp hw).2
  | ranges rs =>
    refine ⟨vs.filter (ranges rs).includes, rfl, ?_⟩
    intro w hw
    exact (List.mem_filter.mp hw).1

/-- Ranges that were cut with others are inside of them. -/
theorem exists_cut_of_mem {rs ss : List Range} {t : Range}
    (ht : t ∈ rs.flatMap fun r => ss.filterMap r.intersect?) :
    ∃ s ∈ ss, t.intersect? s = some t := by
  obtain ⟨r, -, ht⟩ := List.mem_flatMap.mp ht
  obtain ⟨s, hs, hcut⟩ := List.mem_filterMap.mp ht
  exact ⟨s, hs, Range.intersect?_again hcut⟩

/-- **When a further intersection with the same domain changes nothing.** Only ranges can be written
anew, and they stay as they are if each of them meets just one. -/
theorem intersect_again_iff (e d : Domain) :
    (e.intersect d).intersect d = e.intersect d ↔ (e.intersect d).MeetsOnce d := by
  cases d with
  | all =>
    rw [intersect_all, intersect_all]
    refine iff_of_true rfl ?_
    cases e <;> trivial
  | values vs =>
    obtain ⟨ws, hws, hamong⟩ := exists_values_of_intersect e vs
    rw [hws]
    refine iff_of_true ?_ trivial
    have hkept : ws.filter vs.contains = ws := by
      apply List.filter_eq_self.mpr
      intro w hw
      simpa using hamong w hw
    rw [intersect, hkept]
  | ranges ss =>
    cases e with
    | all =>
      rw [all_intersect, intersect, ranges.injEq]
      apply cut_again_iff
      intro r hr hsome
      exact ⟨r, hr, Range.intersect?_self hsome⟩
    | values us =>
      refine iff_of_true ?_ trivial
      simp [intersect]
    | ranges rs =>
      simp only [intersect, ranges.injEq]
      apply cut_again_iff
      intro t ht _
      exact exists_cut_of_mem ht

/-- Ranges that are apart are met once, by whatever was cut with them. -/
theorem meetsOnce_of_apart {d : Domain} (h : d.Apart) (e : Domain) : (e.intersect d).MeetsOnce d := by
  cases d with
  | all =>
    rw [intersect_all]
    cases e <;> trivial
  | values vs =>
    obtain ⟨ws, hws, -⟩ := exists_values_of_intersect e vs
    rw [hws]
    trivial
  | ranges ss =>
    obtain ⟨hsome, hapart⟩ := h
    cases e with
    | all =>
      rw [all_intersect]
      intro r hr
      exact countP_meets_of_apart hapart hr (Range.intersect?_self (hsome r hr))
    | values us => trivial
    | ranges rs =>
      intro t ht
      obtain ⟨s, hs, hcut⟩ := exists_cut_of_mem ht
      exact countP_meets_of_apart hapart hs hcut

end Domain
end RemoteTables
