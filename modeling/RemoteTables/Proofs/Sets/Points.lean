import RemoteTables.Proofs.Sets.Alike

/-!
# Points of intersections and unions

A domain that is written as points is split into one request for each of them, and it does not come
alone: what one condition says of a column is intersected with what others say, and the branches of a
disjunction are united. `points_survive` says that this does no harm. Cut with any domain, on either
side, points stay points, and those are left that the other domain has, in their order; points united
with points are all of both.

Which points are left need not be read off the cuts, where a point meets ranges that include it, leave
it out at an open end, or include it several times over. It is enough that the result is written as
points at all, which `discreteValues?_intersect` and `discreteValues?_isSome_union` say. Its literals
are known from the algebra of sets, and points in order are known from their literals
(`WellFormed.discreteValues?_eq_some`). On which side of an intersection the points stand does not
matter, since its two orders are written alike (`intersect_comm`).
-/

set_option autoImplicit false

namespace RemoteTables
namespace Domain

theorem discreteValues?_isSome_toRanges (d : Domain) :
    (ranges d.toRanges).discreteValues?.isSome = d.discreteValues?.isSome := by
  cases d with
  | all => rfl
  | values vs =>
    refine discreteValues?_isSome_ranges.mpr fun r hr => ?_
    obtain ⟨v, -, rfl⟩ := List.mem_map.mp hr
    exact ⟨v, rfl⟩
  | ranges rs => rfl

/-- A union is written as points exactly if both sides are. -/
theorem discreteValues?_isSome_union (a b : Domain) :
    (a.union b).discreteValues?.isSome = (a.discreteValues?.isSome && b.discreteValues?.isSome) := by
  have happend : (ranges (a.toRanges ++ b.toRanges)).discreteValues?.isSome =
      (a.discreteValues?.isSome && b.discreteValues?.isSome) := by
    rw [← discreteValues?_isSome_toRanges a, ← discreteValues?_isSome_toRanges b, Bool.eq_iff_iff,
      Bool.and_eq_true]
    simp only [discreteValues?_isSome_ranges, List.forall_mem_append]
  cases a with
  | all => rfl
  | values vs =>
    cases b with
    | all => rfl
    | values ws => rfl
    | ranges ss => exact happend
  | ranges rs =>
    cases b with
    | all => exact (Bool.and_false _).symm
    | values ws => exact happend
    | ranges ss => exact happend

section Points

variable {a b : Domain} (ha : a.WellFormed) (hb : b.WellFormed) {points : List Literal}
  (hpoints : a.discreteValues? = some points)
include ha hb hpoints

theorem discreteValues?_intersect_right :
    (a.intersect b).discreteValues? = some (points.filter b.includes) := by
  apply (wellFormed_intersect ha hb).discreteValues?_eq_some
  · exact discreteValues?_intersect (Or.inl (Option.isSome_of_eq_some hpoints))
  · exact (ha.increasing_points hpoints).filter b.includes
  · intro v
    rw [includes_intersect ha hb, (ha.faithful points hpoints).2, List.mem_filter]

theorem discreteValues?_intersect_left :
    (b.intersect a).discreteValues? = some (points.filter b.includes) := by
  rw [(intersect_comm hb ha).discreteValues?_eq, discreteValues?_intersect_right ha hb hpoints]

theorem discreteValues?_union {others : List Literal} (hothers : b.discreteValues? = some others) :
    (a.union b).discreteValues? = some (Literal.sortedSet (points ++ others)) := by
  apply (wellFormed_union a b).discreteValues?_eq_some
  · rw [discreteValues?_isSome_union, hpoints, hothers, Option.isSome_some, Option.isSome_some,
      Bool.and_self]
  · exact Literal.strictlyIncreasing_sortedSet _
  · intro v
    rw [includes_union ha hb, (ha.faithful points hpoints).2, (hb.faithful others hothers).2,
      Literal.mem_sortedSet, List.mem_append]

end Points

/-- **Points survive being combined, and just the right ones are left.** Intersected with any domain,
on either side, a domain that is written as points has those of them that the other domain includes,
in their order. United with points it has the points of both, in order and each once. -/
theorem points_survive {a b : Domain} (ha : a.WellFormed) (hb : b.WellFormed) {points : List Literal}
    (hpoints : a.discreteValues? = some points) :
    (a.intersect b).discreteValues? = some (points.filter b.includes) ∧
    (b.intersect a).discreteValues? = some (points.filter b.includes) ∧
    ∀ others, b.discreteValues? = some others →
      ∃ gathered, (a.union b).discreteValues? = some gathered ∧
        Literal.StrictlyIncreasing gathered ∧ ∀ v, v ∈ gathered ↔ v ∈ points ∨ v ∈ others := by
  refine ⟨discreteValues?_intersect_right ha hb hpoints,
    discreteValues?_intersect_left ha hb hpoints, ?_⟩
  intro others hothers
  refine ⟨_, discreteValues?_union ha hb hpoints hothers,
    Literal.strictlyIncreasing_sortedSet _, fun v => ?_⟩
  rw [Literal.mem_sortedSet, List.mem_append]

/-- Points out of order and repeated, against two ranges: the smaller point is left out at an open end,
and the larger one is in both ranges, so that it is cut out four times and is one point in the end. The
same points united with listed values. -/
theorem points_survive_openEnd :
    ((Domain.ranges [.single (.bigInt 5), .single (.bigInt 3), .single (.bigInt 5)]).intersect
      (.ranges [.greaterThan (.bigInt 3), .single (.bigInt 5)])).discreteValues? =
        some [.bigInt 5] ∧
    ((Domain.ranges [.greaterThan (.bigInt 3), .single (.bigInt 5)]).intersect (.ranges
      [.single (.bigInt 5), .single (.bigInt 3), .single (.bigInt 5)])).discreteValues? =
        some [.bigInt 5] ∧
    ∃ gathered, ((Domain.ranges [.single (.bigInt 5), .single (.bigInt 3),
      .single (.bigInt 5)]).union (.values [.bigInt 3, .varchar "a"])).discreteValues? =
        some gathered ∧ Literal.StrictlyIncreasing gathered ∧
      ∀ v, v ∈ gathered ↔ v ∈ [Literal.bigInt 3, .bigInt 5] ∨
        v ∈ [Literal.bigInt 3, .varchar "a"] := by
  have hwell : (Domain.ranges [.single (.bigInt 5), .single (.bigInt 3),
      .single (.bigInt 5)]).WellFormed := trivial
  have hpoints : (Domain.ranges [.single (.bigInt 5), .single (.bigInt 3),
      .single (.bigInt 5)]).discreteValues? = some [.bigInt 3, .bigInt 5] := by decide
  obtain ⟨hright, hleft, -⟩ := points_survive hwell
    (b := .ranges [.greaterThan (.bigInt 3), .single (.bigInt 5)]) trivial hpoints
  obtain ⟨-, -, hunion⟩ := points_survive hwell
    (b := .values [.bigInt 3, .varchar "a"]) (by decide) hpoints
  have hkept : [Literal.bigInt 3, .bigInt 5].filter
      (Domain.ranges [.greaterThan (.bigInt 3), .single (.bigInt 5)]).includes = [.bigInt 5] := by
    decide
  rw [hkept] at hright hleft
  exact ⟨hright, hleft, hunion _ rfl⟩

end Domain
end RemoteTables
