import Mathlib.Data.List.Nodup
import RemoteTables.Literal

/-!
# Literals in order

A set of literals is kept as a strictly increasing list, and two facts make such a list a set:

* `mem_sortedSet` and `strictlyIncreasing_sortedSet`: putting literals in order loses none, adds
  none and repeats none;
* `searchedIn_iff`: on a list that is in order, halving finds a literal exactly when it is there.

The second is the one that everything about domains spends. The search looks at one half only, so it
needs that the middle literal tells on which side the other one can stand, and that is what the two
lemmas before it say.
-/

set_option autoImplicit false

namespace RemoteTables
namespace Literal

/-- The order of literals is linear, so that facts about `<` and `≤` are found by the library. -/
instance : Std.IsLinearOrder Literal := Std.IsLinearOrder.of_ord

/-- Instants stand above all literals of other kinds. -/
theorem exists_timestamp_of_le {t : Int64} {v : Literal} (h : timestamp t ≤ v) :
    ∃ u, v = timestamp u ∧ t ≤ u := by
  have hle : (compare (timestamp t) v).isLE := Std.isLE_compare.mpr h
  cases v with
  | timestamp u => exact ⟨u, rfl, Std.isLE_compare.mp hle⟩
  | _ => cases hle

/-! ## Putting literals in order -/

theorem mem_insertInto {v w : Literal} {values : List Literal} :
    w ∈ insertInto v values ↔ w = v ∨ w ∈ values := by
  induction values with
  | nil => simp [insertInto]
  | cons first rest ih =>
    rw [insertInto]
    split
    · simp
    · rename_i heq
      have hv : v = first := Std.LawfulEqOrd.eq_of_compare heq
      subst hv
      simp
    · rw [List.mem_cons, ih, List.mem_cons]
      exact or_left_comm

theorem strictlyIncreasing_insertInto {v : Literal} {values : List Literal}
    (h : StrictlyIncreasing values) : StrictlyIncreasing (insertInto v values) := by
  induction values with
  | nil => exact List.pairwise_singleton _ v
  | cons first rest ih =>
    obtain ⟨hfirst, hrest⟩ := List.pairwise_cons.mp h
    rw [insertInto]
    split
    · rename_i hlt
      have hv : v < first := Std.compare_eq_lt.mp hlt
      refine List.pairwise_cons.mpr ⟨fun w hw => ?_, h⟩
      rcases List.mem_cons.mp hw with rfl | hw
      · exact hv
      · exact Std.lt_trans hv (hfirst w hw)
    · exact h
    · rename_i hgt
      have hv : first < v := Std.compare_eq_gt.mp hgt
      refine List.pairwise_cons.mpr ⟨fun w hw => ?_, ih hrest⟩
      rcases mem_insertInto.mp hw with rfl | hw
      · exact hv
      · exact hfirst w hw

theorem mem_sortedSet {v : Literal} {values : List Literal} :
    v ∈ sortedSet values ↔ v ∈ values := by
  induction values with
  | nil => simp [sortedSet]
  | cons first rest ih =>
    rw [sortedSet, List.foldr_cons, mem_insertInto, List.mem_cons]
    exact or_congr_right ih

theorem strictlyIncreasing_sortedSet (values : List Literal) :
    StrictlyIncreasing (sortedSet values) := by
  induction values with
  | nil => exact List.Pairwise.nil
  | cons first rest ih => exact strictlyIncreasing_insertInto ih

/-- A literal that stands there several times is put in order once. -/
theorem sortedSet_replicate (v : Literal) (n : Nat) :
    sortedSet (List.replicate (n + 1) v) = [v] := by
  induction n with
  | zero => rfl
  | succ n ih =>
    rw [List.replicate_succ, sortedSet, List.foldr_cons, ← sortedSet, ih]
    simp [insertInto]

/-- What is put in order as one literal at most is that literal several times. -/
theorem eq_replicate_of_length_sortedSet_le_one {v : Literal} {rest : List Literal}
    (h : (sortedSet (v :: rest)).length ≤ 1) : rest = List.replicate rest.length v := by
  refine List.eq_replicate_iff.mpr ⟨rfl, fun w hw => ?_⟩
  have hv : v ∈ sortedSet (v :: rest) := mem_sortedSet.mpr List.mem_cons_self
  have hw : w ∈ sortedSet (v :: rest) := mem_sortedSet.mpr (List.mem_cons_of_mem v hw)
  obtain ⟨u, hu⟩ : ∃ u, sortedSet (v :: rest) = [u] :=
    List.length_eq_one_iff.mp (Nat.le_antisymm h (List.length_pos_of_mem hv))
  rw [hu, List.mem_singleton] at hv hw
  rw [hv, hw]

theorem StrictlyIncreasing.nodup {values : List Literal} (h : StrictlyIncreasing values) :
    values.Nodup :=
  List.Pairwise.nodup h

theorem StrictlyIncreasing.filter {values : List Literal} (h : StrictlyIncreasing values)
    (keep : Literal → Bool) : StrictlyIncreasing (values.filter keep) :=
  List.Pairwise.sublist List.filter_sublist h

/-! ## Searching by halving -/

/-- What is smaller than the literal at a position stands before that position. -/
theorem mem_take_iff_of_lt {values : List Literal} (h : StrictlyIncreasing values) {i n : Nat}
    {v w : Literal} (hw : values[i]? = some w) (hin : i ≤ n) (hv : v < w) :
    v ∈ values.take n ↔ v ∈ values := by
  refine ⟨List.mem_of_mem_take, fun hmem => ?_⟩
  obtain ⟨j, hj, rfl⟩ := List.getElem_of_mem hmem
  obtain ⟨hi, rfl⟩ := List.getElem?_eq_some_iff.mp hw
  have hji : j < i := by
    rcases Nat.lt_trichotomy j i with hlt | rfl | hgt
    · exact hlt
    · exact absurd hv Std.lt_irrefl
    · exact absurd (Std.lt_trans hv (List.pairwise_iff_getElem.mp h i j hi hj hgt)) Std.lt_irrefl
  exact List.mem_take_iff_getElem.mpr ⟨j, by omega, rfl⟩

/-- What is not smaller than the literal at a position does not stand before that position. -/
theorem mem_drop_iff_of_le {values : List Literal} (h : StrictlyIncreasing values) {i : Nat}
    {v w : Literal} (hw : values[i]? = some w) (hv : w ≤ v) :
    v ∈ values.drop i ↔ v ∈ values := by
  refine ⟨List.mem_of_mem_drop, fun hmem => ?_⟩
  obtain ⟨j, hj, rfl⟩ := List.getElem_of_mem hmem
  obtain ⟨hi, rfl⟩ := List.getElem?_eq_some_iff.mp hw
  have hij : i ≤ j := by
    rcases Nat.lt_or_ge j i with hlt | hge
    · exact absurd (List.pairwise_iff_getElem.mp h j i hj hi hlt) (Std.not_lt.mpr hv)
    · exact hge
  exact List.mem_drop_iff_getElem.mpr ⟨j - i, by omega, by simp [Nat.add_sub_cancel' hij]⟩

/-- **On a list in order, the search finds exactly what stands there.** -/
theorem searchedIn_iff {v : Literal} {values : List Literal} (h : StrictlyIncreasing values) :
    v.searchedIn values = true ↔ v ∈ values := by
  fun_induction searchedIn v values with
  | case1 => simp
  | case2 w => rw [beq_iff_eq, List.mem_singleton, eq_comm]
  | case3 first second rest all half middle hmiddle hgt ih =>
    have hgt : v < middle := Std.compare_eq_gt.mp (by simpa using hgt)
    rw [ih (h.sublist (List.take_sublist _ _)),
      mem_take_iff_of_lt h hmiddle (by omega) hgt]
  | case4 first second rest all half middle hmiddle hle ih =>
    have hle : middle ≤ v := by
      rw [← Std.not_lt]
      intro hlt
      exact hle (by simpa using Std.compare_eq_gt.mpr hlt)
    rw [ih (h.sublist (List.drop_sublist _ _)), mem_drop_iff_of_le h hmiddle hle]
  | case5 first second rest all half hnone =>
    have hlen : all.length ≤ half := List.getElem?_eq_none_iff.mp hnone
    simp only [all, half, List.length_cons] at hlen
    omega

end Literal
end RemoteTables
