import RemoteTables.Proofs.Sets.Alike
import RemoteTables.Proofs.Pushdown.Reached
import RemoteTables.Proofs.Pushdown.Scan

/-!
# The order of the filters does not matter

A query engine may hand its filters over in any order. The plans differ at most in the order in which
the ranges of a column are written; they are made for the same table, with the same limit, and their
splits are the same one by one (`plan_of_perm`).

The filters of a plan are one conjunction of entries, so this is `Constraint.conjoin_of_perm`, carried
through the steps of planning. Each of them looks at an entry only for its column and its points
(`takes?_eq_of_alike`, `choices?_eq_of_alike`), which entries alike have in common. That entries of one
name are of one column needs a look at the filters: a filter finds its column by the name, and always
the first of that name.
-/

set_option autoImplicit false

namespace RemoteTables

/-! ## The conjunction of filters -/

namespace Expression

variable {columns : List ColumnRef}

theorem wellFormed_constraint? {e : Expression} {c : Constraint} (h : e.constraint? columns = some c) :
    c.WellFormed := by
  -- well-formedness has nothing to do with rows, so an empty one will do
  have hrow : Row.Suits [] columns := by
    intro position column cell _ hcell
    cases hcell
  exact (expresses_constraint? ⟨fun _ _ => .null, fun _ _ _ => none⟩ hrow h).wellFormed

theorem column_of_mem_single {column : ColumnRef} {d : Domain} {entry : ColumnDomain}
    (he : entry ∈ (Constraint.single column d).entries) : entry.column = column := by
  cases hall : d.isAll with
  | true =>
    rw [Constraint.single, Constraint.mem_withDomain_of_isAll hall] at he
    exact absurd he.1 List.not_mem_nil
  | false =>
    rw [entries_single hall, List.mem_singleton] at he
    rw [he]

/-- **A filter is about the first columns of their names.** -/
theorem column?_of_constraint? {e : Expression} {c : Constraint}
    (h : e.constraint? columns = some c) :
    ∀ entry ∈ c.entries, column? columns entry.column.name = some entry.column := by
  have hsingle : ∀ {name : String} {column : ColumnRef} {d : Domain},
      column? columns name = some column → ∀ entry ∈ (Constraint.single column d).entries,
        column? columns entry.column.name = some entry.column := by
    intro name column d hcolumn entry he
    have hname : column.name = name := by simpa using List.find?_some hcolumn
    rw [column_of_mem_single he, hname, hcolumn]
  fun_induction constraint? columns e generalizing c with
  | case1 e name ih => exact ih h
  | case2 l r ihl ihr =>
    obtain ⟨a, ha, h⟩ := Option.bind_eq_some_iff.mp h
    obtain ⟨b, hb, h⟩ := Option.bind_eq_some_iff.mp h
    obtain rfl := Option.some.inj h
    exact Constraint.forall_column_intersect (wellFormed_constraint? ha) (wellFormed_constraint? hb)
      (p := fun column => column? columns column.name = some column) (ihl ha) (ihr hb)
  | case3 l r ihl ihr =>
    obtain ⟨a, ha, h⟩ := Option.bind_eq_some_iff.mp h
    obtain ⟨b, hb, h⟩ := Option.bind_eq_some_iff.mp h
    unfold eitherOf? at h
    split at h
    · rename_i x y hx hy
      split at h
      · obtain rfl := Option.some.inj h
        exact hsingle (ihl ha x (hx ▸ List.mem_cons_self))
      · cases h
    · cases h
  | case4 op l r _ _ s relation name hr hl =>
    obtain ⟨column, v, d, hcolumn, -, -, rfl⟩ := compared?_eq_some h
    exact hsingle hcolumn
  | case5 op l r _ _ s relation name hr hl =>
    obtain ⟨other, -, h⟩ := Option.bind_eq_some_iff.mp h
    obtain ⟨column, v, d, hcolumn, -, -, rfl⟩ := compared?_eq_some h
    exact hsingle hcolumn
  | case7 e items relation name he =>
    obtain ⟨column, hcolumn, h⟩ := Option.bind_eq_some_iff.mp h
    obtain ⟨literals, -, h⟩ := Option.bind_eq_some_iff.mp h
    obtain rfl := Option.some.inj h
    exact hsingle hcolumn
  | case9 e low high relation name he =>
    obtain ⟨column, hcolumn, h⟩ := Option.bind_eq_some_iff.mp h
    obtain ⟨lowest, -, h⟩ := Option.bind_eq_some_iff.mp h
    obtain ⟨highest, -, h⟩ := Option.bind_eq_some_iff.mp h
    obtain rfl := Option.some.inj h
    exact hsingle hcolumn
  | _ => cases h

end Expression

/-- Constraints intersected one after another are the conjunction of all their entries. -/
theorem Constraint.foldl_intersect_eq_conjoin {c : Constraint} (hc : c.WellFormed)
    {parts : List Constraint} (hparts : ∀ part ∈ parts, part.WellFormed) :
    parts.foldl intersect c = c.conjoin (parts.flatMap Constraint.entries) := by
  induction parts generalizing c with
  | nil => rfl
  | cons first rest ih =>
    obtain ⟨hfirst, hrest⟩ := List.forall_mem_cons.mp hparts
    rw [List.foldl_cons, ih (wellFormed_intersect hc hfirst) hrest, List.flatMap_cons,
      intersect_eq_conjoin_entries hc, conjoin_append]

namespace PlannedTable

variable {t : PlannedTable}

theorem wellFormed_of_mem_parts {filters : List Expression} {part : Constraint}
    (hpart : part ∈ filters.filterMap (Expression.constraint? t.references)) : part.WellFormed := by
  obtain ⟨filter, -, hfilter⟩ := List.mem_filterMap.mp hpart
  exact Expression.wellFormed_constraint? hfilter

theorem conjunction_eq_conjoin (filters : List Expression) :
    t.conjunction filters = Constraint.all.conjoin
      ((filters.filterMap (Expression.constraint? t.references)).flatMap Constraint.entries) :=
  Constraint.foldl_intersect_eq_conjoin Constraint.wellFormed_all fun _ => wellFormed_of_mem_parts

/-- **The conjunction of filters does not depend on their order.** -/
theorem conjunction_of_perm {filters others : List Expression} (hperm : filters.Perm others) :
    (t.conjunction filters).Alike (t.conjunction others) := by
  rw [conjunction_eq_conjoin, conjunction_eq_conjoin]
  apply Constraint.conjoin_of_perm Constraint.wellFormed_all
  · exact (hperm.filterMap _).flatMap_right _
  · intro entry he
    obtain ⟨part, hpart, he⟩ := List.mem_flatMap.mp he
    exact (wellFormed_of_mem_parts hpart).2 entry he
  · have hfirst : ∀ entry ∈
        (filters.filterMap (Expression.constraint? t.references)).flatMap Constraint.entries,
        Expression.column? t.references entry.column.name = some entry.column := by
      intro entry he
      obtain ⟨part, hpart, he⟩ := List.mem_flatMap.mp he
      obtain ⟨filter, -, hfilter⟩ := List.mem_filterMap.mp hpart
      exact Expression.column?_of_constraint? hfilter entry he
    intro a ha b hb hname
    have hsame := hfirst a ha
    rw [hname, hfirst b hb] at hsame
    exact (Option.some.inj hsame).symm

end PlannedTable

/-! ## What is taken, and the parts -/

/-- Handles that are the same but for their constraints, which are alike. -/
structure TableHandle.Alike (h h' : TableHandle) : Prop where
  rest : h' = h.withConstraint h'.constraint
  constraint : h.constraint.Alike h'.constraint

theorem TableHandle.alike_withConstraint (h : TableHandle) {a b : Constraint} (hab : a.Alike b) :
    (h.withConstraint a).Alike (h.withConstraint b) :=
  ⟨rfl, hab⟩

namespace FilterRules

variable {rules : FilterRules}

theorem takes?_eq_of_alike (columns : List ColumnRef) {x y : ColumnDomain} (h : x.Alike y) :
    rules.takes? columns x = rules.takes? columns y := by
  rw [takes?, takes?, h.column, h.domain.discreteValues?_eq]

variable (rules) in
theorem alike_taken (columns : List ColumnRef) {a b : Constraint} (h : a.Alike b) :
    (rules.taken columns a).Alike (rules.taken columns b) := by
  apply h.filter
  intro x y hxy
  rw [takes?_eq_of_alike columns hxy]

theorem choices?_eq_of_alike {x y : ColumnDomain} (h : x.Alike y) :
    rules.choices? x = rules.choices? y := by
  rw [choices?, choices?, h.column, h.domain.discreteValues?_eq]

theorem filterMap_choices?_eq {xs ys : List ColumnDomain}
    (h : List.Forall₂ ColumnDomain.Alike xs ys) :
    xs.filterMap rules.choices? = ys.filterMap rules.choices? := by
  induction h with
  | nil => rfl
  | cons hxy _ ih => rw [List.filterMap_cons, List.filterMap_cons, choices?_eq_of_alike hxy, ih]

/-- Fixing a column keeps constraints alike. -/
theorem forall₂_fixColumn_of_alike (choice : ColumnRef × List Literal) {as bs : List Constraint}
    (h : List.Forall₂ Constraint.Alike as bs) :
    List.Forall₂ Constraint.Alike (fixColumn as choice) (fixColumn bs choice) := by
  apply List.rel_flatMap h
  intro a b hab
  rw [List.forall₂_map_left_iff, List.forall₂_map_right_iff, List.forall₂_same]
  intro point _
  exact hab.withDomain choice.1 rfl (Domain.wellFormed_single point)

theorem forall₂_foldl_fixColumn_of_alike (choices : List (ColumnRef × List Literal))
    {as bs : List Constraint} (h : List.Forall₂ Constraint.Alike as bs) :
    List.Forall₂ Constraint.Alike (choices.foldl fixColumn as) (choices.foldl fixColumn bs) := by
  induction choices generalizing as bs with
  | nil => exact h
  | cons choice rest ih => exact ih (forall₂_fixColumn_of_alike choice h)

/-- **Handles alike explode into as many parts**, which are alike one by one. -/
theorem forall₂_explode_of_alike {h h' : TableHandle} (halike : h.Alike h') :
    List.Forall₂ TableHandle.Alike (rules.explode h) (rules.explode h') := by
  rw [explode, explode, halike.constraint.isNone_eq,
    filterMap_choices?_eq halike.constraint.entries]
  split
  · exact .nil
  · rw [List.forall₂_map_left_iff, List.forall₂_map_right_iff]
    have hparts := forall₂_foldl_fixColumn_of_alike
      (h'.constraint.entries.filterMap rules.choices?) (.cons halike.constraint .nil)
    apply hparts.imp
    intro a b hab
    refine ⟨?_, hab⟩
    rw [halike.rest]
    rfl

end FilterRules

namespace Connector

theorem forall₂_shares_of_alike (windows : UInt32) {h h' : TableHandle} (halike : h.Alike h') :
    List.Forall₂ TableHandle.Alike (shares windows h) (shares windows h') := by
  unfold shares
  split
  · exact .cons halike .nil
  · rw [cut, cut, List.forall₂_map_left_iff, List.forall₂_map_right_iff, List.forall₂_same]
    intro k _
    refine ⟨?_, halike.constraint⟩
    rw [halike.rest]
    rfl

/-- Handles alike have as many splits, which are alike one by one. -/
theorem exists_splits_of_alike {ρ β : Type} {c : Connector ρ β} {t : TableDefinition ρ β}
    {h h' : TableHandle} (ht : c.tableFor h.table = .ok t) (halike : h.Alike h') :
    ∃ splits splits', c.splits h none = .ok splits ∧ c.splits h' none = .ok splits' ∧
      List.Forall₂ (fun split split' => split.handle.Alike split'.handle) splits splits' := by
  have ht' : c.tableFor h'.table = .ok t := by
    rw [halike.rest]
    exact ht
  refine ⟨_, _, splits_eq_shares ht, splits_eq_shares ht', ?_⟩
  rw [List.forall₂_map_left_iff, List.forall₂_map_right_iff, TableDefinition.explode_eq,
    TableDefinition.explode_eq]
  apply List.rel_flatMap (FilterRules.forall₂_explode_of_alike halike)
  intro part part' hpart
  exact forall₂_shares_of_alike _ hpart

end Connector

/-! ## Planning -/

/-- Handles for the same table, limit, sort order and page window, whose constraints bind the same
columns and allow each of them the same literals. -/
structure TableHandle.ReadsAlike (h h' : TableHandle) : Prop where
  rest : h' = h.withConstraint h'.constraint
  columns : h.constraint.entries.map ColumnDomain.column =
    h'.constraint.entries.map ColumnDomain.column
  allows : ∀ name v, h.constraint.allows name v = h'.constraint.allows name v

theorem TableHandle.Alike.readsAlike {h h' : TableHandle} (halike : h.Alike h') : h.ReadsAlike h' :=
  ⟨halike.rest, halike.constraint.columns_eq, halike.constraint.allows_eq⟩

namespace PlannedTable

variable {ρ β : Type} {c : Connector ρ β}

/-- The handle of a plan: the limit is lowered, and what the table takes of the filters is pushed; a
table without rules takes nothing. -/
theorem planHandle_eq_taken {t : TableDefinition ρ β} {h : TableHandle}
    (ht : c.tableFor h.table = .ok t) (hall : h.constraint = .all) {filters : List Expression}
    (hwell : (conjunction ⟨h, t.columns⟩ filters).WellFormed) (limit : Option UInt64) :
    planHandle c ⟨h, t.columns⟩ filters limit =
      .ok (((limit.bind h.lowerLimit?).getD h).withConstraint
        (t.narrowing.taken t.references (conjunction ⟨h, t.columns⟩ filters))) := by
  obtain ⟨pushed, happly, hpushed⟩ := TableDefinition.exists_applyFilter ht
    (hall ▸ Constraint.wellFormed_all) (conjunction ⟨h, t.columns⟩ filters)
  rw [hall, Constraint.all_intersect (FilterRules.wellFormed_taken hwell)] at hpushed
  exact planHandle_eq_withConstraint happly hpushed limit

/-- **The order of the filters does not matter.** From a handle without constraint, filters in one
order and in another are planned for handles that read alike: table, limit, sort order and page window
are the same, and so are the columns that are bound and the literals that each of them is allowed. The
handles have equally many splits, and those in the same places read alike as well. -/
theorem plan_of_perm {h : TableHandle} {t : PlannedTable} (hmake : make c h = .ok t)
    (hall : h.constraint = .all) {filters others : List Expression} (hperm : filters.Perm others)
    (limit : Option UInt64) :
    ∃ handle handle' splits splits',
      t.planHandle c filters limit = .ok handle ∧ t.planHandle c others limit = .ok handle' ∧
      handle.ReadsAlike handle' ∧
      c.splits handle none = .ok splits ∧ c.splits handle' none = .ok splits' ∧
      List.Forall₂ (fun split split' => split.handle.ReadsAlike split'.handle) splits splits' := by
  cases ht : c.tableFor h.table with
  | error failure =>
    rw [make, Connector.columnsOf, ht] at hmake
    cases hmake
  | ok definition =>
    obtain rfl : ⟨h, definition.columns⟩ = t := Except.ok.inj ((make_eq ht).symm.trans hmake)
    have hconjunction := conjunction_of_perm (t := ⟨h, definition.columns⟩) hperm
    have hplan := planHandle_eq_taken ht hall hconjunction.left limit
    have hplan' := planHandle_eq_taken ht hall hconjunction.right limit
    have halike := ((limit.bind h.lowerLimit?).getD h).alike_withConstraint
      (FilterRules.alike_taken definition.narrowing definition.references hconjunction)
    have htable := h.table_getD_lowerLimit? limit
    obtain ⟨splits, splits', hsplits, hsplits', hparts⟩ :=
      Connector.exists_splits_of_alike (htable ▸ ht) halike
    refine ⟨_, _, splits, splits', hplan, hplan', halike.readsAlike, hsplits, hsplits', ?_⟩
    apply hparts.imp
    intro split split' hsplit
    exact hsplit.readsAlike

/-- What is said of the time of the last change. -/
def changed (op : Operator) (time : Int64) : Expression :=
  .binary op (.column none "updated_at") (.literal (.instant .millisecond (some time)))

/-- The filter that is handed over first decides which period comes first in the handle. The handles
read alike nevertheless, and so do their splits. -/
theorem plan_of_perm_periods :
    ∃ (t : PlannedTable) (handle handle' : TableHandle) (splits splits' : List Split),
      make (Github.connector .standard) (.ofTable ⟨"github", "issues"⟩) = .ok t ∧
      t.planHandle (Github.connector .standard)
        [.binary .or (changed .gt 9) (changed .lt 5), .binary .or (changed .lt 3) (changed .gt 7)]
        (some 10) = .ok handle ∧
      t.planHandle (Github.connector .standard)
        [.binary .or (changed .lt 3) (changed .gt 7), .binary .or (changed .gt 9) (changed .lt 5)]
        (some 10) = .ok handle' ∧
      handle.constraint.domain? "updated_at" =
        some (.ranges [.greaterThan (.timestamp 9), .lessThan (.timestamp 3)]) ∧
      handle'.constraint.domain? "updated_at" =
        some (.ranges [.lessThan (.timestamp 3), .greaterThan (.timestamp 9)]) ∧
      handle.ReadsAlike handle' ∧
      (Github.connector .standard).splits handle none = .ok splits ∧
      (Github.connector .standard).splits handle' none = .ok splits' ∧
      List.Forall₂ (fun split split' => split.handle.ReadsAlike split'.handle) splits splits' := by
  have hmake : make (Github.connector .standard) (.ofTable ⟨"github", "issues"⟩) =
    .ok ⟨.ofTable ⟨"github", "issues"⟩, Github.Issue.columns⟩ := rfl
  obtain ⟨handle, handle', splits, splits', hplan, hplan', hreads, hsplits, hsplits', hparts⟩ :=
    plan_of_perm hmake rfl (List.Perm.swap (.binary .or (changed .lt 3) (changed .gt 7))
      (.binary .or (changed .gt 9) (changed .lt 5)) []) (some 10)
  refine ⟨_, handle, handle', splits, splits', hmake, hplan, hplan', ?_, ?_, hreads, hsplits,
    hsplits', hparts⟩
  · have hdomain : ((planHandle (Github.connector .standard) _ _ (some 10)).toOption.bind
        fun handle => handle.constraint.domain? "updated_at") = _ :=
      congrArg (fun plan => plan.toOption.bind fun h => h.constraint.domain? "updated_at") hplan
    exact hdomain.symm.trans (by decide +kernel)
  · have hdomain : ((planHandle (Github.connector .standard) _ _ (some 10)).toOption.bind
        fun handle => handle.constraint.domain? "updated_at") = _ :=
      congrArg (fun plan => plan.toOption.bind fun h => h.constraint.domain? "updated_at") hplan'
    exact hdomain.symm.trans (by decide +kernel)

end PlannedTable
end RemoteTables
