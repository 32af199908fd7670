import RemoteTables.Proofs.Sets.Literals
import RemoteTables.Range

/-!
# Ranges as sets of literals

What a range means is `Range.includes`. Cutting two ranges means to have both conditions at once
(`includes_intersect?`), and two ranges that cannot be cut have no literal in common
(`not_includes_of_intersect?_eq_none`).

A point is a range of one literal. It is the shape that matters for pushing down equalities, and it
survives being cut: whatever a point is cut with, either nothing is left or the same point
(`intersect?_single`).
-/

set_option autoImplicit false

namespace RemoteTables

namespace Bound

theorem admitsAbove_tighterLow (a b : Bound) (v : Literal) :
    (a.tighterLow b).admitsAbove v = true ↔ a.admitsAbove v = true ∧ b.admitsAbove v = true := by
  cases a with
  | unbounded => simp [tighterLow, admitsAbove]
  | inclusive l | exclusive l =>
    cases b with
    | unbounded => simp [tighterLow, admitsAbove]
    | inclusive m | exclusive m =>
      simp only [tighterLow]
      split <;> simp only [stricter, admitsAbove, decide_eq_true_eq] <;> grind

theorem admitsBelow_tighterHigh (a b : Bound) (v : Literal) :
    (a.tighterHigh b).admitsBelow v = true ↔ a.admitsBelow v = true ∧ b.admitsBelow v = true := by
  cases a with
  | unbounded => simp [tighterHigh, admitsBelow]
  | inclusive l | exclusive l =>
    cases b with
    | unbounded => simp [tighterHigh, admitsBelow]
    | inclusive m | exclusive m =>
      simp only [tighterHigh]
      split <;> simp only [stricter, admitsBelow, decide_eq_true_eq] <;> grind

end Bound

namespace Range

theorem includes_iff (r : Range) (v : Literal) :
    r.includes v = true ↔ r.low.admitsAbove v = true ∧ r.high.admitsBelow v = true := by
  rw [includes, Bool.and_eq_true]

/-- A range has nothing below its lower end. -/
theorem low_le_of_includes {r : Range} {low v : Literal} (hlow : r.low.literal? = some low)
    (hv : r.includes v = true) : low ≤ v := by
  have habove := ((includes_iff r v).mp hv).1
  cases hend : r.low with
  | unbounded =>
    rw [hend] at hlow
    cases hlow
  | inclusive l =>
    rw [hend] at hlow habove
    obtain rfl := Option.some.inj hlow
    exact of_decide_eq_true habove
  | exclusive l =>
    rw [hend] at hlow habove
    obtain rfl := Option.some.inj hlow
    exact Std.le_of_lt (of_decide_eq_true habove)

theorem not_includes_of_isEmpty {r : Range} (h : r.isEmpty = true) (v : Literal) :
    r.includes v = false := by
  obtain ⟨low, high⟩ := r
  cases low <;> cases high <;>
    simp only [isEmpty, Bool.false_eq_true, decide_eq_true_eq] at h <;>
    simp only [includes, Bound.admitsAbove, Bound.admitsBelow] <;> grind

/-- **Cutting two ranges is having both.** -/
theorem includes_intersect? {r s t : Range} (h : r.intersect? s = some t) (v : Literal) :
    t.includes v = true ↔ r.includes v = true ∧ s.includes v = true := by
  simp only [intersect?] at h
  split at h
  · exact absurd h (by simp)
  · obtain rfl := Option.some.inj h
    simp only [includes_iff, Bound.admitsAbove_tighterLow, Bound.admitsBelow_tighterHigh]
    exact and_and_and_comm

theorem not_includes_of_intersect?_eq_none {r s : Range} (h : r.intersect? s = none)
    (v : Literal) : ¬(r.includes v = true ∧ s.includes v = true) := by
  simp only [intersect?] at h
  split at h
  · rename_i hempty
    intro hboth
    have hnone := not_includes_of_isEmpty hempty v
    rw [← Bool.not_eq_true, includes_iff, Bound.admitsAbove_tighterLow,
      Bound.admitsBelow_tighterHigh] at hnone
    exact hnone (and_and_and_comm.mp ⟨(includes_iff r v).mp hboth.1, (includes_iff s v).mp hboth.2⟩)
  · exact absurd h (by simp)

/-! ## Points -/

theorem includes_single (v w : Literal) : (single v).includes w = true ↔ w = v := by
  simp only [single, includes, Bound.admitsAbove, Bound.admitsBelow]
  grind

/-- A range that is written as a point is the range of one literal. -/
theorem singleValue?_eq_some_iff {r : Range} {v : Literal} :
    r.singleValue? = some v ↔ r = single v := by
  obtain ⟨low, high⟩ := r
  cases low <;> cases high <;> simp [singleValue?, single]
  grind

/-- **A point stays a point**: cut with any range, it is still there if the range includes it. -/
theorem intersect?_single (v : Literal) (s : Range) :
    (single v).intersect? s = (if s.includes v then some (single v) else none) ∧
      s.intersect? (single v) = (if s.includes v then some (single v) else none) := by
  obtain ⟨low, high⟩ := s
  cases low <;> cases high <;>
    simp only [intersect?, single, Bound.tighterLow, Bound.tighterHigh, includes,
      Bound.admitsAbove, Bound.admitsBelow] <;>
    grind [isEmpty, Bound.stricter]

end Range
end RemoteTables
