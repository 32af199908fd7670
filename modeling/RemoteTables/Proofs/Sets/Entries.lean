import Mathlib.Data.List.Forall2
import RemoteTables.Proofs.Sets.Constraints
import RemoteTables.Proofs.Sets.Cuts

/-!
# What a constraint says of one column

A constraint in order has one entry for each of its columns, so it is known when it is known name by
name (`entryFor?`). A conjunction is then reckoned for one name at a time: an entry of that name is
intersected with what was there before, and entries of other names pass by (`entryFor?_conjoin`,
`entryFor?_intersect`).

To go back from names to the whole constraint it takes the order of the entries. Two constraints in
order whose entries are related name by name have related entries in the same places
(`forall₂_of_entryFor?`), and are equal if the relation is equality (`eq_of_entryFor?`).
-/

set_option autoImplicit false

namespace RemoteTables

/-- What is said of a column after one more entry, with what was said of it before. -/
def ColumnDomain.after (entry : ColumnDomain) (name : String) (present : Option ColumnDomain) :
    Option ColumnDomain :=
  if entry.column.name = name then
    some ⟨entry.column, ((present.map ColumnDomain.domain).getD Domain.all).intersect entry.domain⟩
  else present

namespace Constraint

/-- The entry of a column. -/
def entryFor? (c : Constraint) (name : String) : Option ColumnDomain :=
  c.entries.find? fun entry => entry.column.name == name

theorem domain?_eq (c : Constraint) (name : String) :
    c.domain? name = (c.entryFor? name).map (·.domain) := rfl

theorem name_of_entryFor? {c : Constraint} {name : String} {entry : ColumnDomain}
    (h : c.entryFor? name = some entry) : entry ∈ c.entries ∧ entry.column.name = name :=
  ⟨List.mem_of_find?_eq_some h, by simpa using List.find?_some h⟩

theorem entryFor?_eq_some_iff {c : Constraint} (h : c.columnNames.Nodup) {name : String}
    {entry : ColumnDomain} :
    c.entryFor? name = some entry ↔ entry ∈ c.entries ∧ entry.column.name = name := by
  constructor
  · intro hentry
    exact name_of_entryFor? hentry
  · rintro ⟨he, rfl⟩
    cases hfound : c.entryFor? entry.column.name with
    | none =>
      have hno := List.find?_eq_none.mp hfound entry he
      simp at hno
    | some other =>
      obtain ⟨ho, hname⟩ := name_of_entryFor? hfound
      rw [entry_eq_of_name_eq h ho he hname]

theorem entryFor?_of_mem {c : Constraint} (h : c.columnNames.Nodup) {entry : ColumnDomain}
    (he : entry ∈ c.entries) : c.entryFor? entry.column.name = some entry :=
  (entryFor?_eq_some_iff h).mpr ⟨he, rfl⟩

/-! ## Entry by entry -/

/-- A new domain is what is said of its column, and what is said of the others stays. -/
theorem entryFor?_withDomain {c : Constraint} (h : c.columnNames.Nodup) (column : ColumnRef)
    {d : Domain} (hall : d.isAll = false) (name : String) :
    (c.withDomain column d).entryFor? name =
      if column.name = name then some ⟨column, d⟩ else c.entryFor? name := by
  apply Option.ext
  intro entry
  rw [entryFor?_eq_some_iff (nodup_withDomain h _ _), mem_withDomain hall]
  by_cases hname : column.name = name
  · rw [if_pos hname, Option.some.injEq]
    constructor
    · rintro ⟨⟨-, hother⟩ | rfl, hsame⟩
      · exact absurd (hsame.trans hname.symm) hother
      · rfl
    · rintro rfl
      exact ⟨Or.inr rfl, hname⟩
  · rw [if_neg hname, entryFor?_eq_some_iff h]
    constructor
    · rintro ⟨⟨he, -⟩ | rfl, hsame⟩
      · exact ⟨he, hsame⟩
      · exact absurd hsame hname
    · rintro ⟨he, hsame⟩
      refine ⟨Or.inl ⟨he, ?_⟩, hsame⟩
      intro hother
      exact hname (hother.symm.trans hsame)

theorem restrict_eq (c : Constraint) (column : ColumnRef) (d : Domain) :
    c.restrict column d = c.withDomain column (((c.domain? column.name).getD .all).intersect d) := by
  rw [restrict, ← Domain.getD_map_intersect]
  cases c.domain? column.name <;> rfl

theorem nodup_restrict {c : Constraint} (h : c.columnNames.Nodup) (column : ColumnRef) (d : Domain) :
    (c.restrict column d).columnNames.Nodup := by
  rw [restrict_eq]
  exact nodup_withDomain h column _

theorem entryFor?_restrict {c : Constraint} (h : c.columnNames.Nodup) {added : ColumnDomain}
    (hall : added.domain.isAll = false) (name : String) :
    (c.restrict added.column added.domain).entryFor? name =
      added.after name (c.entryFor? name) := by
  have hmerged : (((c.domain? added.column.name).getD .all).intersect added.domain).isAll = false := by
    rw [Domain.isAll_intersect, hall, Bool.and_false]
  rw [restrict_eq, entryFor?_withDomain h added.column hmerged, ColumnDomain.after]
  by_cases hname : added.column.name = name
  · rw [if_pos hname, if_pos hname, domain?_eq, hname]
  · rw [if_neg hname, if_neg hname]

/-- **A column of a conjunction** is restricted by the entries of its name, one after another. -/
theorem entryFor?_conjoin {c : Constraint} (h : c.columnNames.Nodup) {entries : List ColumnDomain}
    (hentries : EntriesWellFormed entries) (name : String) :
    (c.conjoin entries).entryFor? name =
      entries.foldl (fun present entry => entry.after name present) (c.entryFor? name) := by
  induction entries generalizing c with
  | nil => rfl
  | cons first rest ih =>
    obtain ⟨hfirst, hrest⟩ := List.forall_mem_cons.mp hentries
    rw [conjoin, List.foldl_cons, ← conjoin, ih (nodup_restrict h _ _) hrest,
      entryFor?_restrict h hfirst.1, List.foldl_cons]

/-- Entries of other names pass by. -/
theorem foldl_after_of_not_mem {entries : List ColumnDomain} {name : String}
    (h : name ∉ entries.map (·.column.name)) (present : Option ColumnDomain) :
    entries.foldl (fun present entry => entry.after name present) present = present := by
  induction entries with
  | nil => rfl
  | cons first rest ih =>
    rw [List.map_cons, List.mem_cons, not_or] at h
    rw [List.foldl_cons, ColumnDomain.after, if_neg (Ne.symm h.1)]
    exact ih h.2

/-- Of entries with distinct names, at most one concerns a column. -/
theorem foldl_after_of_nodup {c : Constraint} (h : c.columnNames.Nodup) (name : String)
    (present : Option ColumnDomain) :
    c.entries.foldl (fun present entry => entry.after name present) present =
      ((c.entryFor? name).map fun entry => entry.after name present).getD present := by
  obtain ⟨entries⟩ := c
  cases hentry : entryFor? ⟨entries⟩ name with
  | none =>
    apply foldl_after_of_not_mem
    intro hmem
    obtain ⟨entry, he, hname⟩ := List.mem_map.mp hmem
    rw [(entryFor?_eq_some_iff h).mpr ⟨he, hname⟩] at hentry
    cases hentry
  | some entry =>
    obtain ⟨he, hname⟩ := name_of_entryFor? hentry
    obtain ⟨before, later, hsplit⟩ := List.append_of_mem he
    simp only at hsplit
    subst hsplit
    simp only [columnNames, List.map_append, List.map_cons] at h
    obtain ⟨-, hlater, hbefore⟩ := List.nodup_append.mp h
    have hnotBefore : name ∉ before.map (·.column.name) := by
      intro hmem
      exact hbefore name hmem name (hname ▸ List.mem_cons_self) rfl
    have hnotLater : name ∉ later.map (·.column.name) := by
      rw [← hname]
      exact (List.nodup_cons.mp hlater).1
    rw [List.foldl_append, List.foldl_cons, foldl_after_of_not_mem hnotBefore,
      foldl_after_of_not_mem hnotLater]
    rfl

theorem conjoin_append (c : Constraint) (first later : List ColumnDomain) :
    c.conjoin (first ++ later) = (c.conjoin first).conjoin later := List.foldl_append

theorem intersect_eq_conjoin_entries {a : Constraint} (ha : a.WellFormed) (b : Constraint) :
    a.intersect b = a.conjoin b.entries := by
  have hself : all.conjoin a.entries = a := conjoin_of_pairwise ha.2 ha.1
  rw [intersect_eq_conjoin, conjoin_append, hself]

/-- **What an intersection says of a column**: what the first constraint says, with the second one's
entry after it if there is one. -/
theorem entryFor?_intersect {a b : Constraint} (ha : a.WellFormed) (hb : b.WellFormed) (name : String) :
    (a.intersect b).entryFor? name =
      ((b.entryFor? name).map fun entry => entry.after name (a.entryFor? name)).getD
        (a.entryFor? name) := by
  rw [intersect_eq_conjoin_entries ha, entryFor?_conjoin ha.nodup hb.2, foldl_after_of_nodup hb.nodup]

/-- Of a column that the second constraint restricts, an intersection has the second one's entry. -/
theorem entryFor?_intersect_of_mem {a b : Constraint} (ha : a.WellFormed) (hb : b.WellFormed)
    {entry : ColumnDomain} (he : entry ∈ b.entries) :
    (a.intersect b).entryFor? entry.column.name = some ⟨entry.column,
      ((a.domain? entry.column.name).getD Domain.all).intersect entry.domain⟩ := by
  rw [entryFor?_intersect ha hb, entryFor?_of_mem hb.nodup he, Option.map_some, Option.getD_some,
    ColumnDomain.after, if_pos rfl, domain?_eq]

/-! ## From names to the whole -/

theorem mem_columnNames_iff {c : Constraint} {name : String} :
    name ∈ c.columnNames ↔ (c.entryFor? name).isSome = true := by
  rw [columnNames, List.mem_map, entryFor?, List.find?_isSome]
  simp

/-- Lists with the same names in the same places are related in all places if they are wherever names
agree. -/
theorem forall₂_of_map_eq {R : ColumnDomain → ColumnDomain → Prop} {as bs : List ColumnDomain}
    (hnames : as.map (·.column.name) = bs.map (·.column.name))
    (h : ∀ a ∈ as, ∀ b ∈ bs, a.column.name = b.column.name → R a b) : List.Forall₂ R as bs := by
  induction as generalizing bs with
  | nil =>
    obtain rfl : bs = [] := List.map_eq_nil_iff.mp hnames.symm
    exact .nil
  | cons a as ih =>
    cases bs with
    | nil => cases hnames
    | cons b bs =>
      obtain ⟨hname, hnames⟩ := List.cons.inj hnames
      refine .cons (h a List.mem_cons_self b List.mem_cons_self hname) (ih hnames ?_)
      intro x hx y hy
      exact h x (List.mem_cons_of_mem _ hx) y (List.mem_cons_of_mem _ hy)

section Whole

variable {a b : Constraint} (ha : a.WellFormed) (hb : b.WellFormed)
include ha hb

/-- **Constraints in order that are related name by name are related place by place.** -/
theorem forall₂_of_entryFor? {R : ColumnDomain → ColumnDomain → Prop}
    (h : ∀ name, Option.Rel R (a.entryFor? name) (b.entryFor? name)) :
    List.Forall₂ R a.entries b.entries := by
  have hsome : ∀ name, (a.entryFor? name).isSome = (b.entryFor? name).isSome := by
    intro name
    cases hrel : a.entryFor? name <;> cases hrel' : b.entryFor? name <;> have hname := h name <;>
      rw [hrel, hrel'] at hname <;> first | rfl | cases hname
  -- names in strict order are known from which of them there are
  have hnames : a.columnNames = b.columnNames := by
    apply ha.1.eq_of_mem_iff hb.1
    intro name
    rw [mem_columnNames_iff, mem_columnNames_iff, hsome]
  apply forall₂_of_map_eq hnames
  intro x hx y hy hname
  have hrel := h x.column.name
  rw [entryFor?_of_mem ha.nodup hx, hname, entryFor?_of_mem hb.nodup hy] at hrel
  cases hrel with
  | some hxy => exact hxy

theorem eq_of_entryFor? (h : ∀ name, a.entryFor? name = b.entryFor? name) : a = b := by
  have hentries : List.Forall₂ (fun x y => x = y) a.entries b.entries := by
    apply forall₂_of_entryFor? ha hb
    intro name
    rw [h name]
    cases b.entryFor? name with
    | none => exact .none
    | some entry => exact .some rfl
  rw [List.forall₂_eq_eq_eq] at hentries
  obtain ⟨entries⟩ := a
  exact congrArg Constraint.mk hentries

end Whole

/-- **When a further intersection with the same constraint changes nothing**: when it changes the
domain of no column. -/
theorem intersect_again_iff {a b : Constraint} (ha : a.WellFormed) (hb : b.WellFormed) :
    (a.intersect b).intersect b = a.intersect b ↔
      ∀ entry ∈ b.entries, ∀ d, (a.intersect b).domain? entry.column.name = some d →
        d.intersect entry.domain = d := by
  have hab : (a.intersect b).WellFormed := wellFormed_intersect ha hb
  constructor
  · intro hsame entry he d hd
    have hagain := entryFor?_intersect_of_mem hab hb he
    rw [hsame, hd, Option.getD_some] at hagain
    rw [domain?_eq, hagain, Option.map_some] at hd
    exact Option.some.inj hd
  · intro hkept
    apply eq_of_entryFor? (wellFormed_intersect hab hb) hab
    intro name
    cases hentry : b.entryFor? name with
    | none => rw [entryFor?_intersect hab hb, hentry, Option.map_none, Option.getD_none]
    | some entry =>
      obtain ⟨he, rfl⟩ := name_of_entryFor? hentry
      have hfirst := entryFor?_intersect_of_mem ha hb he
      have hdomain : (a.intersect b).domain? entry.column.name =
          some (((a.domain? entry.column.name).getD Domain.all).intersect entry.domain) := by
        rw [domain?_eq, hfirst, Option.map_some]
      rw [entryFor?_intersect_of_mem hab hb he, hfirst, hdomain, Option.getD_some,
        hkept entry he _ hdomain]

end Constraint
end RemoteTables
