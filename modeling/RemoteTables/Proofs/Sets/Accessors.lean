import RemoteTables.Proofs.Sets.Domains

/-!
# What is asked of a domain, and what it has

A request is not built from a domain but from what can be asked of it: its one value, its points, a
bound below all of it. Each question is answered from the way the domain is written, and a domain may
be written in many ways, with points that are repeated or out of order, with ranges that overlap or
have nothing between their ends. `accessors_describe` says that the answers do not depend on it: the
points and the one value are exactly the literals of the domain, nothing lies below the lower bound,
and there is no lower bound only where the domain is everything, is written as nothing, or has a range
that goes down without end.

Of the order of a list only listed values have to be known; points come in order however they are
written (`WellFormed.increasing_points`).
-/

set_option autoImplicit false

namespace RemoteTables

theorem Bound.literal?_eq_none_iff {b : Bound} : b.literal? = none ↔ b = .unbounded := by
  cases b <;> simp [literal?]

namespace Domain

/-! ## Without a lower bound -/

theorem mapM_eq_none_iff {α β : Type} {f : α → Option β} {items : List α} :
    items.mapM f = none ↔ ∃ item ∈ items, f item = none := by
  induction items with
  | nil => simp
  | cons first rest ih =>
    rw [List.mapM_cons]
    cases hfirst : f first with
    | none => simp [hfirst]
    | some value => cases hrest : rest.mapM f <;> simp [hfirst, hrest, ← ih]

/-- Ranges have a least lower end unless there are none, or one of them has no such end. -/
theorem lowerBound?_ranges_eq_none_iff {rs : List Range} :
    (ranges rs).lowerBound? = none ↔ rs = [] ∨ ∃ r ∈ rs, r.low = .unbounded := by
  cases hlows : rs.mapM fun (r : Range) => r.low.literal? with
  | none =>
    obtain ⟨r, hr, hlow⟩ := mapM_eq_none_iff.mp hlows
    refine iff_of_true ?_ (Or.inr ⟨r, hr, Bound.literal?_eq_none_iff.mp hlow⟩)
    rw [lowerBound?, hlows, Option.bind_none]
  | some lows =>
    have hbounded := exists_mem_of_mapM_eq_some hlows
    rw [lowerBound?, hlows, Option.bind_some, least?_eq_none_iff]
    constructor
    · rintro rfl
      refine Or.inl (List.eq_nil_iff_forall_not_mem.mpr fun r hr => ?_)
      obtain ⟨low, hlow, -⟩ := hbounded r hr
      exact List.not_mem_nil hlow
    · rintro (rfl | ⟨r, hr, hopen⟩)
      · exact (Option.some.inj hlows).symm
      · obtain ⟨low, -, hlow⟩ := hbounded r hr
        rw [hopen] at hlow
        cases hlow

/-- **Which domains have no lower bound**: everything, nothing where it is written as such, and what
goes down without end. -/
theorem lowerBound?_eq_none_iff {d : Domain} :
    d.lowerBound? = none ↔ d.isAll = true ∨ d.isNone = true ∨
      ∃ rs, d = ranges rs ∧ ∃ r ∈ rs, r.low = .unbounded := by
  cases d with
  | all => exact iff_of_true rfl (Or.inl rfl)
  | values vs => simp [lowerBound?, isAll, isNone]
  | ranges rs => simp [lowerBound?_ranges_eq_none_iff, isAll, isNone]

/-! ## All answers -/

/-- **What is asked of a domain describes it exactly.** The points, where it is written as points, are
in order and are its literals; the one value, where there is one, is its only literal; nothing lies
below its lower bound; and a domain without a lower bound is everything, is written as nothing, or has
a range that goes down without end. -/
theorem accessors_describe {d : Domain} (hd : d.WellFormed) :
    (∀ points, d.discreteValues? = some points →
      Literal.StrictlyIncreasing points ∧ ∀ v, v ∈ points ↔ d.includes v = true) ∧
    (∀ value, d.singleValue? = some value → ∀ v, d.includes v = true ↔ v = value) ∧
    (∀ bound, d.lowerBound? = some bound → ∀ v, d.includes v = true → bound ≤ v) ∧
    (d.lowerBound? = none → d.isAll = true ∨ d.isNone = true ∨
      ∃ rs, d = ranges rs ∧ ∃ r ∈ rs, r.low = .unbounded) := by
  refine ⟨?_, ?_, ?_, lowerBound?_eq_none_iff.mp⟩
  · intro points hpoints
    obtain ⟨-, hmem⟩ := hd.faithful points hpoints
    exact ⟨hd.increasing_points hpoints, fun v => (hmem v).symm⟩
  · intro value hvalue v
    exact includes_of_singleValue? hvalue v
  · intro bound hbound v hv
    exact lowerBound?_le hd hbound hv

/-- Two listed values; three points of which two are the same, the larger one first; and a range whose
ends are the wrong way round beside one that has no lower end, of which nothing but the latter
counts. -/
theorem accessors_describe_points :
    (∀ v, (Domain.values [.bigInt 3, .varchar "a"]).includes v = true → .bigInt 3 ≤ v) ∧
    (∀ v, v ∈ [Literal.bigInt 3, .bigInt 5] ↔ (Domain.ranges
      [.single (.bigInt 5), .single (.bigInt 3), .single (.bigInt 5)]).includes v = true) ∧
    (∀ v, (Domain.ranges
      [.single (.bigInt 5), .single (.bigInt 3), .single (.bigInt 5)]).includes v = true →
        .bigInt 3 ≤ v) ∧
    (Domain.ranges [.between (.bigInt 7) (.bigInt 5), .lessThan (.bigInt 3)]).lowerBound? = none ∧
    ∃ r ∈ [Range.between (.bigInt 7) (.bigInt 5), .lessThan (.bigInt 3)], r.low = .unbounded := by
  obtain ⟨-, -, hfirst, -⟩ := accessors_describe (d := .values [.bigInt 3, .varchar "a"]) (by decide)
  obtain ⟨hpoints, -, hbound, -⟩ := accessors_describe
    (d := .ranges [.single (.bigInt 5), .single (.bigInt 3), .single (.bigInt 5)]) trivial
  obtain ⟨-, -, -, hopen⟩ := accessors_describe
    (d := .ranges [.between (.bigInt 7) (.bigInt 5), .lessThan (.bigInt 3)]) trivial
  refine ⟨hfirst _ rfl, (hpoints _ (by decide)).2, hbound _ (by decide), by decide, ?_⟩
  rcases hopen (by decide) with hall | hnone | ⟨rs, hrs, hopen⟩
  · cases hall
  · cases hnone
  · exact ranges.inj hrs ▸ hopen

end Domain
end RemoteTables
