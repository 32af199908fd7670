import Mathlib.Data.List.Sort
import RemoteTables.Proofs.Sets.Ranges
import RemoteTables.Domain

/-!
# Domains as sets of literals

The operations on domains, by their meaning: `includes_intersect` and `includes_union` say that they
are intersection and union, for domains whose lists are in order, and that order is kept. Gathered
in `algebra_of_sets` they say that domains can be reckoned with as the sets they stand for. Of such a
set it is known that nothing lies below its lower bound (`lowerBound?_le`).

The second half is about points. A domain that is written as points can be split into one request
per point, so two things are asked of the way it is written: that its points are exactly its
literals and each is written once (`Faithful`, which `WellFormed.faithful` derives from the order of
the list), and that being written as points survives an intersection (`discreteValues?_intersect`),
whatever the other side looks like. The latter is why a condition that could be pushed alone can
still be pushed together with any other on the same column. Which points those are need not be read
off the way they are written: they come in order, so their literals settle it
(`WellFormed.discreteValues?_eq_some`).
-/

set_option autoImplicit false

namespace RemoteTables
namespace Domain

/-! ## Membership -/

theorem includes_single (v w : Literal) : (single v).includes w = true ↔ w = v := by
  rw [single, includes, Literal.searchedIn, beq_iff_eq, eq_comm]

theorem includes_values {values : List Literal} (h : Literal.StrictlyIncreasing values)
    (v : Literal) : (Domain.values values).includes v = true ↔ v ∈ values :=
  Literal.searchedIn_iff h

theorem includes_ranges (ranges : List Range) (v : Literal) :
    (Domain.ranges ranges).includes v = true ↔ ∃ r ∈ ranges, r.includes v = true := by
  rw [includes, List.any_eq_true]

theorem includes_points (points : List Literal) (v : Literal) :
    (Domain.ranges (points.map Range.single)).includes v = true ↔ v ∈ points := by
  rw [includes_ranges]
  constructor
  · rintro ⟨r, hr, hv⟩
    obtain ⟨w, hw, rfl⟩ := List.mem_map.mp hr
    exact (Range.includes_single w v).mp hv ▸ hw
  · intro hv
    exact ⟨.single v, List.mem_map_of_mem hv, (Range.includes_single v v).mpr rfl⟩

theorem includes_ofList (literals : List Literal) (v : Literal) :
    (ofList literals).includes v = true ↔ v ∈ literals := by
  rw [ofList, includes_values (Literal.strictlyIncreasing_sortedSet literals),
    Literal.mem_sortedSet]

theorem not_includes_of_isNone {d : Domain} (h : d.isNone = true) (v : Literal) :
    d.includes v = false := by
  cases d with
  | all => exact absurd h (by simp [isNone])
  | values vs =>
    rw [isNone, List.isEmpty_iff] at h
    rw [h, includes, Literal.searchedIn]
  | ranges rs =>
    rw [isNone, List.isEmpty_iff] at h
    rw [h, includes, List.any_nil]

/-! ## Intersection and union -/

theorem wellFormed_single (v : Literal) : (single v).WellFormed := List.pairwise_singleton _ v

theorem wellFormed_ofList (literals : List Literal) : (ofList literals).WellFormed :=
  Literal.strictlyIncreasing_sortedSet literals

theorem isAll_intersect (a b : Domain) : (a.intersect b).isAll = (a.isAll && b.isAll) := by
  cases a <;> cases b <;> rfl

theorem wellFormed_intersect {a b : Domain} (ha : a.WellFormed) (hb : b.WellFormed) :
    (a.intersect b).WellFormed := by
  cases a with
  | all => cases b <;> exact hb
  | values vs =>
    cases b with
    | all => exact ha
    | values ws => exact Literal.StrictlyIncreasing.filter ha _
    | ranges rs => exact Literal.StrictlyIncreasing.filter ha _
  | ranges rs =>
    cases b with
    | all => trivial
    | values ws => exact Literal.StrictlyIncreasing.filter hb _
    | ranges ss => trivial

theorem includes_cut (rs ss : List Range) (v : Literal) :
    (ranges (rs.flatMap fun r => ss.filterMap r.intersect?)).includes v = true ↔
      (ranges rs).includes v = true ∧ (ranges ss).includes v = true := by
  simp only [includes_ranges, List.mem_flatMap, List.mem_filterMap]
  constructor
  · rintro ⟨t, ⟨r, hr, s, hs, ht⟩, hv⟩
    obtain ⟨hrv, hsv⟩ := (Range.includes_intersect? ht v).mp hv
    exact ⟨⟨r, hr, hrv⟩, ⟨s, hs, hsv⟩⟩
  · rintro ⟨⟨r, hr, hrv⟩, ⟨s, hs, hsv⟩⟩
    cases ht : r.intersect? s with
    | none => exact absurd ⟨hrv, hsv⟩ (Range.not_includes_of_intersect?_eq_none ht v)
    | some t => exact ⟨t, ⟨r, hr, s, hs, ht⟩, (Range.includes_intersect? ht v).mpr ⟨hrv, hsv⟩⟩

/-- **The intersection of domains has the literals of both.** -/
theorem includes_intersect {a b : Domain} (ha : a.WellFormed) (hb : b.WellFormed) (v : Literal) :
    (a.intersect b).includes v = true ↔ a.includes v = true ∧ b.includes v = true := by
  have hab := wellFormed_intersect ha hb
  cases a with
  | all => cases b <;> simp [intersect, includes]
  | values vs =>
    cases b with
    | all => simp [intersect, includes]
    | values ws =>
      rw [includes_values ha, includes_values hb]
      simp only [intersect] at hab ⊢
      rw [includes_values hab, List.mem_filter, List.contains_iff_mem]
    | ranges rs =>
      rw [includes_values ha]
      simp only [intersect] at hab ⊢
      rw [includes_values hab, List.mem_filter]
  | ranges rs =>
    cases b with
    | all => simp [intersect, includes]
    | values ws =>
      rw [includes_values hb, and_comm]
      simp only [intersect] at hab ⊢
      rw [includes_values hab, List.mem_filter]
    | ranges ss => exact includes_cut rs ss v

theorem wellFormed_union (a b : Domain) : (a.union b).WellFormed := by
  cases a <;> cases b <;> first | trivial | exact wellFormed_ofList _

theorem includes_toRanges {d : Domain} (h : d.WellFormed) (v : Literal) :
    (ranges d.toRanges).includes v = true ↔ d.includes v = true := by
  cases d with
  | all => simp [toRanges, includes, Range.includes, Range.everything, Bound.admitsAbove,
      Bound.admitsBelow]
  | values vs => rw [includes_values h, toRanges, includes_points]
  | ranges rs => rfl

/-- **The union of domains has the literals of either.** -/
theorem includes_union {a b : Domain} (ha : a.WellFormed) (hb : b.WellFormed) (v : Literal) :
    (a.union b).includes v = true ↔ a.includes v = true ∨ b.includes v = true := by
  have happend : (ranges (a.toRanges ++ b.toRanges)).includes v = true ↔
      a.includes v = true ∨ b.includes v = true := by
    rw [← includes_toRanges ha, ← includes_toRanges hb]
    simp only [includes, List.any_append, Bool.or_eq_true]
  cases a with
  | all => simp [union, includes]
  | values vs =>
    cases b with
    | all => simp [union, includes]
    | values ws =>
      rw [includes_values ha, includes_values hb, union, includes_ofList, List.mem_append]
    | ranges rs => exact happend
  | ranges rs => cases b <;> first | exact happend | simp [union, includes]

/-- **Domains are an algebra of sets of literals.** Intersection and union have the literals of both
and of either, and a list that is in order is put in order again, so that they can be applied to
their own results. Ranges are cut exactly: a cut that is left has the literals of both ranges, and
where none is left there is no such literal. -/
theorem algebra_of_sets {a b : Domain} (ha : a.WellFormed) (hb : b.WellFormed) :
    (∀ v, (a.intersect b).includes v = true ↔ a.includes v = true ∧ b.includes v = true) ∧
    (∀ v, (a.union b).includes v = true ↔ a.includes v = true ∨ b.includes v = true) ∧
    (a.intersect b).WellFormed ∧ (a.union b).WellFormed ∧
    ∀ r s : Range,
      (∀ t, r.intersect? s = some t →
        ∀ v, t.includes v = true ↔ r.includes v = true ∧ s.includes v = true) ∧
      (r.intersect? s = none → ∀ v, ¬(r.includes v = true ∧ s.includes v = true)) :=
  ⟨includes_intersect ha hb, includes_union ha hb, wellFormed_intersect ha hb,
    wellFormed_union a b, fun _ _ =>
      ⟨fun _ => Range.includes_intersect?, Range.not_includes_of_intersect?_eq_none⟩⟩

/-- Listed numbers against a range of numbers that leaves its lower end out, and two ranges that meet
in a number that only one of them has: the number is in neither intersection. -/
theorem algebra_of_sets_openEnd :
    ((Domain.ofList [.bigInt 3, .bigInt 5]).intersect
      (.ranges [.greaterThan (.bigInt 3)])).includes (.bigInt 3) = false ∧
    ((Domain.ofList [.bigInt 3, .bigInt 5]).union
      (.ranges [.greaterThan (.bigInt 3)])).includes (.bigInt 3) = true ∧
    ∀ v, ¬((Range.lessThan (.bigInt 3)).includes v = true ∧
      (Range.greaterOrEqual (.bigInt 3)).includes v = true) := by
  obtain ⟨hboth, heither, -, -, hcut⟩ := algebra_of_sets
    (a := .ofList [.bigInt 3, .bigInt 5]) (b := .ranges [.greaterThan (.bigInt 3)])
    (by decide) (by decide)
  refine ⟨?_, ?_, (hcut _ _).2 (by decide)⟩
  · rw [← Bool.not_eq_true, hboth]
    exact fun h => absurd h.2 (by decide)
  · exact (heither _).mpr (Or.inl ((includes_ofList _ _).mpr (by decide)))

/-! ## Lower bounds -/

theorem exists_mem_of_mapM_eq_some {α β : Type} {f : α → Option β} {items : List α}
    {values : List β} (h : items.mapM f = some values) :
    ∀ item ∈ items, ∃ value ∈ values, f item = some value := by
  induction items generalizing values with
  | nil => exact fun _ hnone => absurd hnone List.not_mem_nil
  | cons item rest ih =>
    rw [List.mapM_cons] at h
    obtain ⟨first, hfirst, h⟩ := Option.bind_eq_some_iff.mp h
    obtain ⟨others, hothers, h⟩ := Option.bind_eq_some_iff.mp h
    obtain rfl := Option.some.inj h
    refine List.forall_mem_cons.mpr ⟨⟨first, List.mem_cons_self, hfirst⟩, fun other ho => ?_⟩
    obtain ⟨value, hvalue, hgives⟩ := ih hothers other ho
    exact ⟨value, List.mem_cons_of_mem _ hvalue, hgives⟩

theorem least?_eq_none_iff {values : List Literal} : least? values = none ↔ values = [] := by
  cases values with
  | nil => exact iff_of_true rfl rfl
  | cons first rest =>
    refine iff_of_false ?_ (List.cons_ne_nil first rest)
    rw [least?]
    split
    · exact Option.some_ne_none first
    · split <;> exact Option.some_ne_none _

theorem le_of_least?_eq_some {values : List Literal} {least : Literal}
    (h : least? values = some least) : ∀ v ∈ values, least ≤ v := by
  induction values generalizing least with
  | nil => cases h
  | cons first rest ih =>
    rw [least?] at h
    refine List.forall_mem_cons.mpr ?_
    split at h
    · rename_i hnone
      obtain rfl := Option.some.inj h
      obtain rfl := least?_eq_none_iff.mp hnone
      exact ⟨Std.le_refl _, fun _ hv => absurd hv List.not_mem_nil⟩
    · rename_i w hw
      have hrest := ih hw
      split at h
      · rename_i hlt
        obtain rfl := Option.some.inj h
        exact ⟨Std.le_of_lt hlt, hrest⟩
      · rename_i hnot
        obtain rfl := Option.some.inj h
        exact ⟨Std.le_refl _, fun v hv => Std.le_trans (Std.not_lt.mp hnot) (hrest v hv)⟩

/-- **Nothing of a domain is below its lower bound.** -/
theorem lowerBound?_le {d : Domain} (hd : d.WellFormed) {bound : Literal}
    (hbound : d.lowerBound? = some bound) {v : Literal} (hv : d.includes v = true) : bound ≤ v := by
  cases d with
  | all => cases hbound
  | values vs =>
    rw [includes_values hd] at hv
    cases vs with
    | nil => cases hbound
    | cons first rest =>
      obtain rfl := Option.some.inj hbound
      rcases List.mem_cons.mp hv with rfl | hv
      · exact Std.le_refl _
      · exact Std.le_of_lt ((List.pairwise_cons.mp hd).1 v hv)
  | ranges rs =>
    obtain ⟨lows, hlows, hleast⟩ := Option.bind_eq_some_iff.mp hbound
    obtain ⟨r, hr, hincludes⟩ := (includes_ranges rs v).mp hv
    obtain ⟨low, hmem, hlow⟩ := exists_mem_of_mapM_eq_some hlows r hr
    exact Std.le_trans (le_of_least?_eq_some hleast low hmem)
      (Range.low_le_of_includes hlow hincludes)

/-! ## Points -/

/-- The points of a domain, if it is written as points, are its literals, each written once. -/
def Faithful (d : Domain) : Prop :=
  ∀ points, d.discreteValues? = some points →
    points.Nodup ∧ ∀ v, d.includes v = true ↔ v ∈ points

theorem mapM_singleValue?_eq_some {rs : List Range} {points : List Literal} :
    rs.mapM Range.singleValue? = some points ↔ rs = points.map Range.single := by
  induction rs generalizing points with
  | nil => cases points <;> simp
  | cons r rest ih =>
    rw [List.mapM_cons]
    cases hr : r.singleValue? with
    | none =>
      have hpoint : ∀ v, r ≠ Range.single v := fun v hv =>
        absurd (Range.singleValue?_eq_some_iff.mpr hv) (by simp [hr])
      cases points <;> simp [hpoint]
    | some v =>
      obtain rfl := Range.singleValue?_eq_some_iff.mp hr
      cases points with
      | nil => cases rest.mapM Range.singleValue? <;> simp
      | cons w points =>
        have hsingle : Range.single v = Range.single w ↔ v = w := by simp [Range.single]
        rw [List.map_cons, List.cons.injEq, hsingle, ← ih]
        cases rest.mapM Range.singleValue? <;> simp

theorem exists_points {rs : List Range} (h : ∀ r ∈ rs, ∃ v, r = Range.single v) :
    ∃ points : List Literal, rs = points.map Range.single := by
  induction rs with
  | nil => exact ⟨[], rfl⟩
  | cons r rest ih =>
    obtain ⟨v, rfl⟩ := h r List.mem_cons_self
    obtain ⟨points, rfl⟩ := ih fun s hs => h s (List.mem_cons_of_mem _ hs)
    exact ⟨v :: points, rfl⟩

theorem discreteValues?_isSome_ranges {rs : List Range} :
    (ranges rs).discreteValues?.isSome = true ↔ ∀ r ∈ rs, ∃ v, r = Range.single v := by
  rw [discreteValues?, Option.isSome_map, Option.isSome_iff_exists]
  constructor
  · rintro ⟨points, hpoints⟩ r hr
    rw [mapM_singleValue?_eq_some.mp hpoints] at hr
    obtain ⟨v, _, rfl⟩ := List.mem_map.mp hr
    exact ⟨v, rfl⟩
  · intro h
    obtain ⟨points, hpoints⟩ := exists_points h
    exact ⟨points, mapM_singleValue?_eq_some.mpr hpoints⟩

/-- The points of a domain come in order. -/
theorem WellFormed.increasing_points {d : Domain} (h : d.WellFormed) {points : List Literal}
    (hpoints : d.discreteValues? = some points) : Literal.StrictlyIncreasing points := by
  cases d with
  | all => cases hpoints
  | values vs =>
    obtain rfl := Option.some.inj hpoints
    exact h
  | ranges rs =>
    obtain ⟨written, -, rfl⟩ := Option.map_eq_some_iff.mp hpoints
    exact Literal.strictlyIncreasing_sortedSet written

/-- A list in order, and any list of ranges, is written as exactly its points. -/
theorem WellFormed.faithful {d : Domain} (h : d.WellFormed) : d.Faithful := by
  intro points hpoints
  refine ⟨(h.increasing_points hpoints).nodup, fun v => ?_⟩
  cases d with
  | all => cases hpoints
  | values vs =>
    obtain rfl := Option.some.inj hpoints
    exact includes_values h v
  | ranges rs =>
    obtain ⟨written, hwritten, rfl⟩ := Option.map_eq_some_iff.mp hpoints
    obtain rfl := mapM_singleValue?_eq_some.mp hwritten
    rw [includes_points, Literal.mem_sortedSet]

/-- **The points of a domain are known from its literals**, once it is known to be written as
points. -/
theorem WellFormed.discreteValues?_eq_some {d : Domain} (hd : d.WellFormed)
    (hsome : d.discreteValues?.isSome = true) {points : List Literal}
    (hpoints : Literal.StrictlyIncreasing points) (h : ∀ v, d.includes v = true ↔ v ∈ points) :
    d.discreteValues? = some points := by
  obtain ⟨written, hwritten⟩ := Option.isSome_iff_exists.mp hsome
  rw [hwritten, Option.some.injEq]
  apply List.Pairwise.eq_of_mem_iff (hd.increasing_points hwritten) hpoints
  intro v
  rw [← (hd.faithful written hwritten).2, h]

theorem discreteValues?_of_singleValue? {d : Domain} {v : Literal} (h : d.singleValue? = some v) :
    d.discreteValues? = some [v] := by
  unfold singleValue? at h
  split at h
  · obtain rfl := Option.some.inj h
    rfl
  · obtain rfl := Range.singleValue?_eq_some_iff.mp h
    rw [discreteValues?, (mapM_singleValue?_eq_some.mpr rfl : [Range.single v].mapM _ = some [v])]
    rfl
  · cases h

theorem includes_of_singleValue? {d : Domain} {v : Literal} (h : d.singleValue? = some v)
    (w : Literal) : d.includes w = true ↔ w = v := by
  unfold singleValue? at h
  split at h
  · obtain rfl := Option.some.inj h
    exact includes_single _ w
  · obtain rfl := Range.singleValue?_eq_some_iff.mp h
    rw [includes_ranges]
    simp only [List.mem_singleton, exists_eq_left]
    exact Range.includes_single v w
  · cases h

/-- Whether a domain is a single point that is written several times over. It has one literal and,
as it is written, no single value. -/
def RepeatsPoint (d : Domain) : Prop :=
  ∃ v n, d = ranges (List.replicate (n + 2) (Range.single v))

theorem RepeatsPoint.exists_point {d : Domain} (h : d.RepeatsPoint) :
    ∃ v, d.discreteValues? = some [v] := by
  obtain ⟨v, n, rfl⟩ := h
  refine ⟨v, ?_⟩
  rw [← List.map_replicate, discreteValues?, mapM_singleValue?_eq_some.mpr rfl, Option.map_some,
    Literal.sortedSet_replicate]

theorem not_repeatsPoint_single (v : Literal) : ¬(single v).RepeatsPoint := by
  rintro ⟨w, n, hrepeats⟩
  cases hrepeats

/-- A domain of one point at most has a single value, if it has any literal, unless it repeats the
point. -/
theorem singleValue?_isSome_iff {d : Domain} {points : List Literal}
    (hpoints : d.discreteValues? = some points) (hfew : points.length ≤ 1)
    (hnone : d.isNone = false) : d.singleValue?.isSome = true ↔ ¬d.RepeatsPoint := by
  cases d with
  | all => cases hpoints
  | values vs =>
    obtain rfl := Option.some.inj hpoints
    have hone : vs.length = 1 := by
      cases vs with
      | nil => cases hnone
      | cons v rest => simpa using hfew
    obtain ⟨v, rfl⟩ := List.length_eq_one_iff.mp hone
    refine iff_of_true rfl fun ⟨w, n, hrepeats⟩ => ?_
    cases hrepeats
  | ranges rs =>
    obtain ⟨written, hwritten, rfl⟩ := Option.map_eq_some_iff.mp hpoints
    obtain rfl := mapM_singleValue?_eq_some.mp hwritten
    cases written with
    | nil => cases hnone
    | cons v rest =>
      -- putting the points in order leaves one, so all that are written are the same
      obtain ⟨n, rfl⟩ : ∃ n, rest = List.replicate n v :=
        ⟨rest.length, Literal.eq_replicate_of_length_sortedSet_le_one hfew⟩
      cases n with
      | zero =>
        refine iff_of_true ?_ fun ⟨w, n, hrepeats⟩ => ?_
        · exact Option.isSome_iff_exists.mpr ⟨v, Range.singleValue?_eq_some_iff.mpr rfl⟩
        · simpa using congrArg List.length (ranges.inj hrepeats)
      | succ n =>
        refine iff_of_false (by simp [singleValue?, List.replicate_succ]) ?_
        exact not_not_intro ⟨v, n, by simp [List.replicate_succ]⟩

theorem discreteValues?_cut {rs ss : List Range}
    (h : (∀ r ∈ rs, ∃ v, r = Range.single v) ∨ ∀ s ∈ ss, ∃ v, s = Range.single v) :
    ∀ t ∈ rs.flatMap fun r => ss.filterMap r.intersect?, ∃ v, t = Range.single v := by
  intro t ht
  obtain ⟨r, hr, ht⟩ := List.mem_flatMap.mp ht
  obtain ⟨s, hs, ht⟩ := List.mem_filterMap.mp ht
  rcases h with hpoints | hpoints
  · obtain ⟨v, rfl⟩ := hpoints r hr
    rw [(Range.intersect?_single v s).1] at ht
    split at ht
    · exact ⟨v, (Option.some.inj ht).symm⟩
    · exact absurd ht (by simp)
  · obtain ⟨v, rfl⟩ := hpoints s hs
    rw [(Range.intersect?_single v r).2] at ht
    split at ht
    · exact ⟨v, (Option.some.inj ht).symm⟩
    · exact absurd ht (by simp)

/-- **What is written as points stays so**, whatever it is intersected with. -/
theorem discreteValues?_intersect {a b : Domain}
    (h : a.discreteValues?.isSome = true ∨ b.discreteValues?.isSome = true) :
    (a.intersect b).discreteValues?.isSome = true := by
  cases a with
  | all =>
    rcases h with h | h
    · exact absurd h (by simp [discreteValues?])
    · cases b <;> exact h
  | values vs => cases b <;> rfl
  | ranges rs =>
    cases b with
    | all => simpa [intersect, discreteValues?] using h
    | values ws => rfl
    | ranges ss =>
      rw [discreteValues?_isSome_ranges, discreteValues?_isSome_ranges] at h
      exact discreteValues?_isSome_ranges.mpr (discreteValues?_cut h)

end Domain
end RemoteTables
