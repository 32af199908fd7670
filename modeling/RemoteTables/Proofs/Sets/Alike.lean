import RemoteTables.Proofs.Sets.Entries

/-!
# Conjunctions in another order

The domains of a column can be intersected in any order. What comes out has the same literals, and it
is almost written the same: values are put in order, but ranges come in the order in which they were
cut. `Domain.Alike` allows for that and for nothing else, because the steps that follow look at how a
domain is written.

The law is that two further intersections can be exchanged (`Domain.intersect_right_comm`). If there
are values among the three domains, both sides are values in order and are known from what they
include. If all are ranges, then the same triples of ranges are cut on both sides, and a triple whose
cut is empty is missing on both, whichever pair of it was cut first (`Range.intersect?_right_comm`).

From one column it goes to conjunctions of entries: in another order they are `Constraint.Alike`
(`conjoin_of_perm`), provided that entries of one name are of one column.
-/

set_option autoImplicit false

namespace RemoteTables

/-! ## Ranges in another order -/

section Cuts

variable {α β γ : Type}

/-- Pairs are gathered along either of two lists. -/
theorem perm_flatMap_filterMap (f : α → β → Option γ) (as : List α) (bs : List β) :
    (as.flatMap fun a => bs.filterMap (f a)).Perm
      (bs.flatMap fun b => as.filterMap fun a => f a b) := by
  induction as with
  | nil =>
    rw [List.flatMap_nil, List.flatMap_eq_nil_iff.mpr fun b _ => List.filterMap_nil]
  | cons a as ih =>
    have hfirst : (fun b => (a :: as).filterMap fun a => f a b) =
        fun b => (f a b).toList ++ as.filterMap fun a => f a b := by
      funext b
      rw [List.filterMap_cons]
      cases f a b <;> rfl
    rw [List.flatMap_cons, hfirst, List.filterMap_eq_flatMap_toList]
    exact (ih.append_left _).trans (List.flatMap_append_perm bs _ _)

/-- What is cut twice is gathered pair by pair. -/
theorem cut_cut (r : Range) (ss ts : List Range) :
    ((ss.filterMap r.intersect?).flatMap fun u => ts.filterMap u.intersect?) =
      ss.flatMap fun s => ts.filterMap fun t => (r.intersect? s).bind fun u => u.intersect? t := by
  induction ss with
  | nil => rfl
  | cons s ss ih =>
    rw [List.flatMap_cons, ← ih]
    cases hcut : r.intersect? s with
    | none => simp [hcut]
    | some u => simp [hcut]

theorem perm_cut_right_comm (rs ss ts : List Range) :
    ((rs.flatMap fun r => ss.filterMap r.intersect?).flatMap fun u => ts.filterMap u.intersect?).Perm
      ((rs.flatMap fun r => ts.filterMap r.intersect?).flatMap
        fun u => ss.filterMap u.intersect?) := by
  rw [List.flatMap_assoc, List.flatMap_assoc]
  apply List.Perm.flatMap_left
  intro r _
  rw [cut_cut, cut_cut]
  apply (perm_flatMap_filterMap _ ss ts).trans
  apply List.Perm.of_eq
  apply List.flatMap_congr
  intro t _
  apply List.filterMap_congr
  intro s _
  exact Range.intersect?_right_comm r s t

theorem perm_cut_comm (rs ss : List Range) :
    (rs.flatMap fun r => ss.filterMap r.intersect?).Perm
      (ss.flatMap fun s => rs.filterMap s.intersect?) := by
  apply (perm_flatMap_filterMap _ rs ss).trans
  apply List.Perm.of_eq
  apply List.flatMap_congr
  intro s _
  apply List.filterMap_congr
  intro r _
  exact Range.intersect?_comm r s

end Cuts

/-! ## Domains -/

namespace Domain

/-- Domains that are written the same way, up to the order of their ranges. -/
inductive Alike : Domain → Domain → Prop where
  | refl (d : Domain) : Alike d d
  | ranges {rs ss : List Range} : rs.Perm ss → Alike (.ranges rs) (.ranges ss)

theorem Alike.symm {d e : Domain} (h : d.Alike e) : e.Alike d := by
  cases h with
  | refl => exact .refl d
  | ranges hperm => exact .ranges hperm.symm

theorem Alike.trans {d e f : Domain} (h : d.Alike e) (h' : e.Alike f) : d.Alike f := by
  cases h with
  | refl => exact h'
  | ranges hperm =>
    cases h' with
    | refl => exact .ranges hperm
    | ranges hperm' => exact .ranges (hperm.trans hperm')

section Alike

variable {d e : Domain} (h : d.Alike e)
include h

theorem Alike.includes_eq (v : Literal) : d.includes v = e.includes v := by
  cases h with
  | refl => rfl
  | ranges hperm => exact hperm.any_eq

theorem Alike.isNone_eq : d.isNone = e.isNone := by
  cases h with
  | refl => rfl
  | ranges hperm => exact hperm.isEmpty_eq

theorem Alike.wellFormed (hd : d.WellFormed) : e.WellFormed := by
  cases h with
  | refl => exact hd
  | ranges hperm => trivial

/-- The points are read off in order, so they are the same. -/
theorem Alike.discreteValues?_eq : d.discreteValues? = e.discreteValues? := by
  cases h with
  | refl => rfl
  | @ranges rs ss hperm =>
    have hsome : (Domain.ranges rs).discreteValues?.isSome =
        (Domain.ranges ss).discreteValues?.isSome := by
      rw [Bool.eq_iff_iff, discreteValues?_isSome_ranges, discreteValues?_isSome_ranges]
      simp only [hperm.mem_iff]
    cases hp : (Domain.ranges rs).discreteValues? with
    | none =>
      rw [hp, Option.isSome_none, eq_comm, Option.isSome_eq_false_iff,
        Option.isNone_iff_eq_none] at hsome
      exact hsome.symm
    | some points =>
      have hranges : ∀ ts : List Range, (Domain.ranges ts).WellFormed := fun _ => trivial
      rw [hp, Option.isSome_some] at hsome
      symm
      apply (hranges ss).discreteValues?_eq_some hsome.symm ((hranges rs).increasing_points hp)
      intro v
      rw [← (Alike.ranges hperm).includes_eq, ((hranges rs).faithful points hp).2]

theorem Alike.intersect (f : Domain) : (d.intersect f).Alike (e.intersect f) := by
  cases h with
  | refl => exact .refl _
  | @ranges rs ss hperm =>
    cases f with
    | all => exact .ranges hperm
    | values vs =>
      have hincludes : (Domain.ranges rs).includes = (Domain.ranges ss).includes := by
        funext v
        exact (Alike.ranges hperm).includes_eq v
      rw [Domain.intersect, Domain.intersect, hincludes]
      exact .refl _
    | ranges ts => exact .ranges (hperm.flatMap_right _)

end Alike

/-- Whether a domain is written as values. -/
def isValues : Domain → Bool
  | values _ => true
  | _ => false

theorem isValues_intersect (d e : Domain) : (d.intersect e).isValues = (d.isValues || e.isValues) := by
  cases d <;> cases e <;> rfl

/-- Values in order are known from what they include. -/
theorem alike_of_isValues {d e : Domain} (hd : d.WellFormed) (he : e.WellFormed)
    (hdv : d.isValues = true) (hev : e.isValues = true)
    (h : ∀ v, d.includes v = true ↔ e.includes v = true) : d.Alike e := by
  cases d with
  | all => cases hdv
  | ranges rs => cases hdv
  | values vs =>
    cases e with
    | all => cases hev
    | ranges ss => cases hev
    | values ws =>
      have hsame : vs = ws := by
        apply List.Pairwise.eq_of_mem_iff hd he
        intro v
        rw [← includes_values hd, ← includes_values he, h]
      rw [hsame]
      exact .refl _

section Order

variable {d e f : Domain} (hd : d.WellFormed) (he : e.WellFormed) (hf : f.WellFormed)
include hd he

theorem intersect_comm : (d.intersect e).Alike (e.intersect d) := by
  have hvalues : (d.isValues || e.isValues) = true → (d.intersect e).Alike (e.intersect d) := by
    intro hany
    apply alike_of_isValues (wellFormed_intersect hd he) (wellFormed_intersect he hd)
    · rw [isValues_intersect, hany]
    · rw [isValues_intersect, Bool.or_comm, hany]
    · intro v
      rw [includes_intersect hd he, includes_intersect he hd, and_comm]
  cases d with
  | all =>
    rw [all_intersect, intersect_all]
    exact .refl e
  | values vs => exact hvalues rfl
  | ranges rs =>
    cases e with
    | all => exact .refl _
    | values ws => exact hvalues rfl
    | ranges ss => exact .ranges (perm_cut_comm rs ss)

include hf

/-- **Two further intersections can be exchanged.** -/
theorem intersect_right_comm :
    ((d.intersect e).intersect f).Alike ((d.intersect f).intersect e) := by
  have hde : (d.intersect e).WellFormed := wellFormed_intersect hd he
  have hdf : (d.intersect f).WellFormed := wellFormed_intersect hd hf
  have hvalues : (d.isValues || e.isValues || f.isValues) = true →
      ((d.intersect e).intersect f).Alike ((d.intersect f).intersect e) := by
    intro hany
    apply alike_of_isValues (wellFormed_intersect hde hf) (wellFormed_intersect hdf he)
    · rw [isValues_intersect, isValues_intersect, hany]
    · rw [isValues_intersect, isValues_intersect, Bool.or_right_comm, hany]
    · intro v
      rw [includes_intersect hde hf, includes_intersect hd he, includes_intersect hdf he,
        includes_intersect hd hf, and_right_comm]
  cases d with
  | all =>
    rw [all_intersect, all_intersect]
    exact intersect_comm he hf
  | values vs => exact hvalues rfl
  | ranges rs =>
    cases e with
    | all =>
      rw [intersect_all, intersect_all]
      exact .refl _
    | values ws => exact hvalues rfl
    | ranges ss =>
      cases f with
      | all =>
        rw [intersect_all, intersect_all]
        exact .refl _
      | values us => exact hvalues rfl
      | ranges ts => exact .ranges (perm_cut_right_comm rs ss ts)

end Order
end Domain

/-! ## Entries -/

/-- Entries of one column with domains written alike, the first of them in order. -/
structure ColumnDomain.Alike (x y : ColumnDomain) : Prop where
  column : x.column = y.column
  domain : x.domain.Alike y.domain
  wellFormed : x.domain.WellFormed

theorem ColumnDomain.Alike.symm {x y : ColumnDomain} (h : x.Alike y) : y.Alike x :=
  ⟨h.column.symm, h.domain.symm, h.domain.wellFormed h.wellFormed⟩

theorem ColumnDomain.Alike.trans {x y z : ColumnDomain} (h : x.Alike y) (h' : y.Alike z) :
    x.Alike z :=
  ⟨h.column.trans h'.column, h.domain.trans h'.domain, h.wellFormed⟩

namespace Constraint

/-- What is said of a column, alike on two sides, or nothing on both. -/
abbrev SaysAlike : Option ColumnDomain → Option ColumnDomain → Prop :=
  Option.Rel ColumnDomain.Alike

theorem SaysAlike.symm {x y : Option ColumnDomain} (h : SaysAlike x y) : SaysAlike y x := by
  cases h with
  | none => exact .none
  | some h => exact .some h.symm

theorem SaysAlike.trans {x y z : Option ColumnDomain} (h : SaysAlike x y) (h' : SaysAlike y z) :
    SaysAlike x z := by
  cases h with
  | none => exact h'
  | some h =>
    cases h' with
    | some h' => exact .some (h.trans h')

theorem SaysAlike.getD_domain {x y : Option ColumnDomain} (h : SaysAlike x y) :
    ((x.map ColumnDomain.domain).getD .all).Alike ((y.map ColumnDomain.domain).getD .all) ∧
      ((x.map ColumnDomain.domain).getD .all).WellFormed := by
  cases h with
  | none => exact ⟨.refl _, trivial⟩
  | some h => exact ⟨h.domain, h.wellFormed⟩

/-- One more entry keeps what is said alike. -/
theorem SaysAlike.after {entry : ColumnDomain} (hentry : entry.domain.WellFormed) {name : String}
    {x y : Option ColumnDomain} (h : SaysAlike x y) :
    SaysAlike (entry.after name x) (entry.after name y) := by
  rw [ColumnDomain.after, ColumnDomain.after]
  split
  · obtain ⟨hdomain, hwell⟩ := h.getD_domain
    exact .some ⟨rfl, hdomain.intersect _, Domain.wellFormed_intersect hwell hentry⟩
  · exact h

/-- Two more entries can be exchanged, if they are of one column or of different names. -/
theorem SaysAlike.after_right_comm {a b : ColumnDomain} (ha : a.domain.WellFormed)
    (hb : b.domain.WellFormed) (hcolumn : a.column.name = b.column.name → a.column = b.column)
    {name : String} {x : Option ColumnDomain} (h : SaysAlike x x) :
    SaysAlike (b.after name (a.after name x)) (a.after name (b.after name x)) := by
  by_cases haname : a.column.name = name
  · by_cases hbname : b.column.name = name
    · obtain ⟨-, hwell⟩ := h.getD_domain
      have hwella := Domain.wellFormed_intersect hwell ha
      simp only [ColumnDomain.after, if_pos haname, if_pos hbname, Option.map_some, Option.getD_some]
      exact .some ⟨(hcolumn (haname.trans hbname.symm)).symm,
        Domain.intersect_right_comm hwell ha hb, Domain.wellFormed_intersect hwella hb⟩
    · simp only [ColumnDomain.after, if_neg hbname]
      exact h.after ha
  · simp only [ColumnDomain.after, if_neg haname]
    exact h.after hb

theorem SaysAlike.foldl_after {entries : List ColumnDomain} (hentries : EntriesWellFormed entries)
    {name : String} {x y : Option ColumnDomain} (h : SaysAlike x y) :
    SaysAlike (entries.foldl (fun present entry => entry.after name present) x)
      (entries.foldl (fun present entry => entry.after name present) y) := by
  induction entries generalizing x y with
  | nil => exact h
  | cons first rest ih =>
    obtain ⟨hfirst, hrest⟩ := List.forall_mem_cons.mp hentries
    exact ih hrest (h.after hfirst.2)

/-- **What is said of a column after some entries**, up to the order of the entries. -/
theorem SaysAlike.foldl_after_of_perm {entries others : List ColumnDomain} (hperm : entries.Perm others)
    (hentries : EntriesWellFormed entries)
    (hcolumns : ∀ a ∈ entries, ∀ b ∈ entries, a.column.name = b.column.name → a.column = b.column)
    {name : String} {x y : Option ColumnDomain} (h : SaysAlike x y) :
    SaysAlike (entries.foldl (fun present entry => entry.after name present) x)
      (others.foldl (fun present entry => entry.after name present) y) := by
  induction hperm generalizing x y with
  | nil => exact h
  | cons a _ ih =>
    obtain ⟨ha, hrest⟩ := List.forall_mem_cons.mp hentries
    apply ih hrest
    · intro b hb c hc
      exact hcolumns b (List.mem_cons_of_mem _ hb) c (List.mem_cons_of_mem _ hc)
    · exact h.after ha.2
  | swap a b rest =>
    obtain ⟨hb, ha, hrest⟩ : b.domain.WellFormed ∧ a.domain.WellFormed ∧ EntriesWellFormed rest := by
      simp only [EntriesWellFormed, List.forall_mem_cons] at hentries
      exact ⟨hentries.1.2, hentries.2.1.2, hentries.2.2⟩
    have hcolumn := hcolumns b List.mem_cons_self a (List.mem_cons_of_mem _ List.mem_cons_self)
    have hboth : SaysAlike (a.after name (b.after name x)) (b.after name (a.after name y)) :=
      (SaysAlike.after_right_comm hb ha hcolumn (h.trans h.symm)).trans ((h.after ha).after hb)
    exact hboth.foldl_after hrest
  | trans hfirst _ ih ih' =>
    have hmiddle := ih hentries hcolumns (h.trans h.symm)
    apply hmiddle.trans
    apply ih'
    · intro entry he
      exact hentries entry (hfirst.mem_iff.mpr he)
    · intro a ha b hb
      exact hcolumns a (hfirst.mem_iff.mpr ha) b (hfirst.mem_iff.mpr hb)
    · exact h

/-! ## Constraints -/

/-- Constraints in order, of the same columns, with domains that are written alike. -/
structure Alike (a b : Constraint) : Prop where
  left : a.WellFormed
  right : b.WellFormed
  entries : List.Forall₂ ColumnDomain.Alike a.entries b.entries

/-- Constraints in order that say alike of each name are alike. -/
theorem alike_of_saysAlike {a b : Constraint} (ha : a.WellFormed) (hb : b.WellFormed)
    (h : ∀ name, SaysAlike (a.entryFor? name) (b.entryFor? name)) : a.Alike b :=
  ⟨ha, hb, forall₂_of_entryFor? ha hb h⟩

theorem saysAlike_refl {c : Constraint} (h : c.WellFormed) (name : String) :
    SaysAlike (c.entryFor? name) (c.entryFor? name) := by
  cases hentry : c.entryFor? name with
  | none => exact .none
  | some entry =>
    exact .some ⟨rfl, .refl _, (h.2 entry (name_of_entryFor? hentry).1).2⟩

/-- **A conjunction does not depend on the order of its entries**, except for the order of ranges. -/
theorem conjoin_of_perm {c : Constraint} (hc : c.WellFormed) {entries others : List ColumnDomain}
    (hperm : entries.Perm others) (hentries : EntriesWellFormed entries)
    (hcolumns : ∀ a ∈ entries, ∀ b ∈ entries, a.column.name = b.column.name → a.column = b.column) :
    (c.conjoin entries).Alike (c.conjoin others) := by
  have hothers : EntriesWellFormed others := by
    intro entry he
    exact hentries entry (hperm.mem_iff.mpr he)
  apply alike_of_saysAlike (wellFormed_conjoin hc fun entry he => (hentries entry he).2)
    (wellFormed_conjoin hc fun entry he => (hothers entry he).2)
  intro name
  rw [entryFor?_conjoin hc.nodup hentries, entryFor?_conjoin hc.nodup hothers]
  exact (saysAlike_refl hc name).foldl_after_of_perm hperm hentries hcolumns

section Alike

variable {a b : Constraint} (h : a.Alike b)
include h

theorem Alike.saysAlike (name : String) : SaysAlike (a.entryFor? name) (b.entryFor? name) := by
  obtain ⟨as⟩ := a
  obtain ⟨bs⟩ := b
  obtain ⟨-, -, hentries : List.Forall₂ _ as bs⟩ := h
  unfold entryFor?
  induction hentries with
  | nil => exact .none
  | @cons x y xs ys hxy _ ih =>
    by_cases hname : x.column.name = name
    · rw [List.find?_cons_of_pos (by simpa using hname),
        List.find?_cons_of_pos (by simpa [← hxy.column] using hname)]
      exact .some hxy
    · rw [List.find?_cons_of_neg (by simpa using hname),
        List.find?_cons_of_neg (by simpa [← hxy.column] using hname)]
      exact ih

theorem Alike.columns_eq : a.entries.map ColumnDomain.column = b.entries.map ColumnDomain.column := by
  rw [← List.forall₂_eq_eq_eq, List.forall₂_map_left_iff, List.forall₂_map_right_iff]
  apply h.entries.imp
  intro x y hxy
  exact hxy.column

theorem Alike.allows_eq (name : String) (v : Literal) : a.allows name v = b.allows name v := by
  have hsays := h.saysAlike name
  rw [allows, allows, domain?_eq, domain?_eq]
  generalize a.entryFor? name = x at hsays ⊢
  generalize b.entryFor? name = y at hsays ⊢
  cases hsays with
  | none => rfl
  | some hxy => exact hxy.domain.includes_eq v

theorem Alike.isNone_eq : a.isNone = b.isNone := by
  obtain ⟨as⟩ := a
  obtain ⟨bs⟩ := b
  obtain ⟨-, -, hentries : List.Forall₂ _ as bs⟩ := h
  unfold isNone
  induction hentries with
  | nil => rfl
  | cons hxy _ ih => rw [List.any_cons, List.any_cons, hxy.domain.isNone_eq, ih]

/-- Entries can be left out, if entries alike are left out together. -/
theorem Alike.filter {keep : ColumnDomain → Bool} (hkeep : ∀ x y, x.Alike y → keep x = keep y) :
    (a.filter keep).Alike (b.filter keep) := by
  obtain ⟨ha, hb, hentries⟩ := h
  refine ⟨wellFormed_filter ha keep, wellFormed_filter hb keep, ?_⟩
  apply List.rel_filter _ hentries
  intro x y hxy
  exact iff_of_eq (congrArg (· = true) (hkeep x y hxy))

theorem Alike.withDomain (column : ColumnRef) {d : Domain} (hall : d.isAll = false)
    (hd : d.WellFormed) : (a.withDomain column d).Alike (b.withDomain column d) := by
  apply alike_of_saysAlike (wellFormed_withDomain h.left column hd)
    (wellFormed_withDomain h.right column hd)
  intro name
  rw [entryFor?_withDomain h.left.nodup column hall, entryFor?_withDomain h.right.nodup column hall]
  split
  · exact .some ⟨rfl, .refl d, hd⟩
  · exact h.saysAlike name

end Alike
end Constraint
end RemoteTables
