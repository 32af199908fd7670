import RemoteTables.Proofs.Pushdown.Checks
import RemoteTables.Proofs.Pushdown.Taken
import RemoteTables.PlannedTable
import RemoteTables.Github.Tables

/-!
# Pushing filters into a scan

A filter is judged alone (`PlannedTable.classify`) and pushed together with all others
(`PlannedTable.planHandle`). What is pushed is split and enforced row by row. The main result,
`pushdown_sound_and_lossless`, is about all of these steps at once: a row on which every filter is
true is accepted by exactly one split, and a row that some split accepts satisfies every filter that
was judged exact.

For the second half the judgement has to survive the company of the other filters. It does, because
an exact filter restricts equality columns to points, a column that is restricted to points stays so
under any further condition, and so the conjunction is enforced on all the columns of the filter
(`holds_of_exact`).
-/

set_option autoImplicit false

namespace RemoteTables

/-! ## What a conjunction of filters enforces -/

namespace FilterRules

variable {rules : FilterRules} {columns : List ColumnRef}

/-- **What is enforced of a conjunction gives every part that could be enforced alone**: if the
table takes all entries of one constraint as enforced, then a row that satisfies what is enforced of
the whole satisfies that constraint. -/
theorem holds_of_exact {parts : List Constraint} (hparts : ∀ part ∈ parts, part.WellFormed)
    (hdeclared : ∀ part ∈ parts, ∀ entry ∈ part.entries, entry.column ∈ columns)
    {part : Constraint} (hpart : part ∈ parts)
    (hexact : ∀ entry ∈ part.entries, rules.takes? columns entry = some .equal) {a : Assignment}
    (h : (rules.enforced (rules.taken columns (parts.foldl Constraint.intersect .all))).holds a =
      true) : part.holds a = true := by
  have hwhole := Constraint.wellFormed_foldl_intersect Constraint.wellFormed_all hparts
  rw [Constraint.holds_iff]
  intro entry he
  obtain ⟨-, hkind, hdiscrete⟩ := takes?_eq_equal.mp (hexact entry he)
  -- the conjunction has an entry of the same column, which is enforced as well
  obtain ⟨merged, hmerged, hname, hpoints⟩ :=
    Constraint.pinpoints_foldl_intersect Constraint.wellFormed_all hparts
      (Or.inr ⟨part, hpart, entry, he, rfl, hdiscrete⟩)
  have hcolumn : merged.column ∈ columns :=
    Constraint.forall_column_foldl_intersect Constraint.wellFormed_all hparts
      (p := fun column => column ∈ columns) (fun _ hnone => absurd hnone List.not_mem_nil)
      hdeclared merged hmerged
  have htaken : rules.takes? columns merged = some .equal :=
    takes?_eq_equal.mpr ⟨hcolumn, hname ▸ hkind, hpoints⟩
  have hheld : merged.holds a = true := by
    refine holds_enforced.mp h merged (List.mem_filter.mpr ⟨hmerged, ?_⟩) (hname ▸ hkind)
    rw [htaken, Option.isSome_some]
  -- so it allows the literal, and then every part does
  obtain ⟨v, hv, hincludes⟩ := (merged.holds_iff a).mp hheld
  have hallowed : (parts.foldl Constraint.intersect .all).allows entry.column.name v = true := by
    rw [Constraint.allows, ← hname, Constraint.domain?_of_mem hwhole.nodup hmerged]
    exact hincludes
  rw [Constraint.allows_foldl_intersect Constraint.wellFormed_all hparts] at hallowed
  exact (entry.holds_iff a).mpr ⟨v, hname ▸ hv,
    (Constraint.allows_iff (hparts part hpart).nodup).mp (hallowed.2 part hpart) entry he rfl⟩

end FilterRules

/-! ## Planning -/

namespace Connector

variable {ρ β : Type} {c : Connector ρ β} {t : TableDefinition ρ β} {h : TableHandle}

theorem applyFilter_eq (ht : c.tableFor h.table = .ok t) {rules : FilterRules}
    (hrules : t.rules = some rules) (constraint : Constraint) :
    c.applyFilter h constraint = .ok (rules.push t.references h constraint) := by
  rw [applyFilter, ht]
  dsimp only [bind, Except.bind]
  rw [hrules]
  rfl

end Connector

theorem TableHandle.table_getD_lowerLimit? (h : TableHandle) (limit : Option UInt64) :
    ((limit.bind h.lowerLimit?).getD h).table = h.table := by
  cases limit with
  | none => rfl
  | some limit =>
    simp only [Option.bind_some, lowerLimit?]
    split <;> rfl

theorem TableHandle.getD_lowerLimit?_withConstraint (h : TableHandle) (c : Constraint)
    (limit : Option UInt64) :
    (limit.bind (h.withConstraint c).lowerLimit?).getD (h.withConstraint c) =
      ((limit.bind h.lowerLimit?).getD h).withConstraint c := by
  cases limit with
  | none => rfl
  | some limit =>
    simp only [Option.bind_some, lowerLimit?, withConstraint]
    split <;> rfl

namespace PlannedTable

variable {ρ β : Type} {c : Connector ρ β} {t : TableDefinition ρ β} {h : TableHandle}

theorem make_eq (ht : c.tableFor h.table = .ok t) : make c h = .ok ⟨h, t.columns⟩ := by
  rw [make, Connector.columnsOf, ht]
  rfl

/-- **The handle of a plan**: the constraint is what the push leaves, and the limit is lowered. -/
theorem planHandle_eq_withConstraint {filters : List Expression} {pushed : Option Pushed}
    {merged : Constraint}
    (happly : c.applyFilter h (conjunction ⟨h, t.columns⟩ filters) = .ok pushed)
    (hpushed : (pushed.map Pushed.handle).getD h = h.withConstraint merged) (limit : Option UInt64) :
    planHandle c ⟨h, t.columns⟩ filters limit =
      .ok (((limit.bind h.lowerLimit?).getD h).withConstraint merged) := by
  rw [planHandle, happly, ← TableHandle.getD_lowerLimit?_withConstraint, ← hpushed]
  rfl

variable {rules : FilterRules} (hrules : t.rules = some rules)
include hrules

/-- A filter is exact only if the table enforces every entry of its constraint. -/
theorem takes_of_classify_exact (engine : Engine) (ht : c.tableFor h.table = .ok t)
    {filter : Expression} (hexact : classify c ⟨h, t.columns⟩ filter = .ok .exact)
    {row : Row} (hrow : row.Suits t.references) :
    ∃ constraint, filter.constraint? t.references = some constraint ∧
      ∀ entry ∈ constraint.entries, rules.takes? t.references entry = some .equal := by
  unfold classify at hexact
  split at hexact
  · cases hexact
  · rename_i constraint hconstraint
    have hexpresses := Expression.expresses_constraint? engine hrow hconstraint
    refine ⟨constraint, hconstraint, fun entry he => ?_⟩
    rw [Connector.applyFilter_eq ht hrules] at hexact
    cases hpush : rules.push t.references h constraint with
    | none =>
      rw [hpush] at hexact
      cases hexact
    | some pushed =>
      rw [hpush] at hexact
      have hleaves : filter.referencedColumns.any pushed.leaves = false := by
        cases hany : filter.referencedColumns.any pushed.leaves with
        | false => rfl
        | true =>
          simp only [bind, Except.bind, hany] at hexact
          cases hexact
      have hname : entry.column.name ∈ filter.referencedColumns :=
        Expression.mem_referencedColumns.mpr
          ((hexpresses.mentioned _).mp (List.mem_map_of_mem he))
      have hleft := List.any_eq_false.mp hleaves _ hname
      -- an entry that was not enforced would be left
      exact (FilterRules.not_leaves_iff hexpresses.wellFormed hpush he).mp
        (Bool.not_eq_true _ ▸ hleft)

/-- What a plan without limits to start from pushes: all that the table takes of the filters. -/
theorem planHandle_eq (ht : c.tableFor h.table = .ok t) (hall : h.constraint = .all)
    {filters : List Expression} (hwell : (conjunction ⟨h, t.columns⟩ filters).WellFormed)
    (limit : Option UInt64) :
    ∃ handle, planHandle c ⟨h, t.columns⟩ filters limit = .ok handle ∧ handle.table = h.table ∧
      handle.constraint = rules.taken t.references (conjunction ⟨h, t.columns⟩ filters) :=
  ⟨_, planHandle_eq_withConstraint (Connector.applyFilter_eq ht hrules _)
    (FilterRules.push_onto_all hall hwell) limit, h.table_getD_lowerLimit? limit, rfl⟩

end PlannedTable

/-! ## The guarantee of a scan -/

section Guarantee

variable {ρ β : Type} {t : TableDefinition ρ β} {row : Row} (engine : Engine)
  (hrow : row.Suits t.references) {filters : List Expression}
include hrow

theorem expressed_parts :
    ∀ part ∈ filters.filterMap (Expression.constraint? t.references),
      ∃ filter ∈ filters, Expression.Expresses engine t.references row filter part := by
  intro part hpart
  obtain ⟨filter, hfilter, hpart⟩ := List.mem_filterMap.mp hpart
  exact ⟨filter, hfilter, Expression.expresses_constraint? engine hrow hpart⟩

include engine in
theorem wellFormed_parts :
    ∀ part ∈ filters.filterMap (Expression.constraint? t.references), part.WellFormed := by
  intro part hpart
  obtain ⟨filter, -, hexpresses⟩ := expressed_parts engine hrow part hpart
  exact hexpresses.wellFormed

include engine in
theorem declared_parts :
    ∀ part ∈ filters.filterMap (Expression.constraint? t.references),
      ∀ entry ∈ part.entries, entry.column ∈ t.references := by
  intro part hpart
  obtain ⟨filter, -, hexpresses⟩ := expressed_parts engine hrow part hpart
  exact hexpresses.declared

variable {rules : FilterRules} {handle : TableHandle}
  (hconstraint : handle.constraint = rules.taken t.references
    ((filters.filterMap (Expression.constraint? t.references)).foldl Constraint.intersect .all))
include hconstraint

include engine in
theorem wellFormed_pushed : handle.constraint.WellFormed :=
  hconstraint ▸ Constraint.wellFormed_filter (Constraint.wellFormed_foldl_intersect
    Constraint.wellFormed_all (wellFormed_parts engine hrow)) _

/-- If every filter is true on the row, then one part of what was pushed accepts it. -/
theorem countP_of_true
    (htrue : ∀ filter ∈ filters, filter.truth engine t.references row = some true) :
    (rules.explode handle).countP (fun part => t.passes rules part.constraint row) = 1 := by
  have hpushed := wellFormed_pushed engine hrow hconstraint
  -- the row satisfies all that was pushed, so it satisfies what the table took of it
  have hheld : handle.constraint.holds (row.assignment t.references) = true := by
    rw [hconstraint, FilterRules.taken, Constraint.holds_filter]
    refine fun entry he _ => Constraint.holds_iff.mp ?_ entry he
    refine (Constraint.holds_foldl_intersect Constraint.wellFormed_all
      (wellFormed_parts engine hrow) _).mpr ⟨rfl, fun part hpart => ?_⟩
    obtain ⟨filter, hfilter, hexpresses⟩ := expressed_parts engine hrow part hpart
    exact hexpresses.exact.mp (htrue filter hfilter)
  have hnone : handle.constraint.isNone = false := by
    cases hnone : handle.constraint.isNone with
    | false => rfl
    | true =>
      rw [Constraint.not_holds_of_isNone hnone] at hheld
      cases hheld
  have henforced : (rules.enforced handle.constraint).holds (row.assignment t.references) = true :=
    FilterRules.holds_enforced.mpr fun entry he _ => Constraint.holds_iff.mp hheld entry he
  refine (FilterRules.countP_explode hpushed.nodup
    (fun entry he _ => (hpushed.2 entry he).2.faithful) hnone _).trans ?_
  exact if_pos henforced

/-- If a part accepts the row, then a filter is true that the table enforces. -/
theorem truth_of_passes {part : TableHandle} (hpart : part ∈ rules.explode handle)
    (hpass : t.passes rules part.constraint row = true) {filter : Expression}
    (hfilter : filter ∈ filters) {c : Constraint} (hc : filter.constraint? t.references = some c)
    (htakes : ∀ entry ∈ c.entries, rules.takes? t.references entry = some .equal) :
    filter.truth engine t.references row = some true := by
  have hpushed := wellFormed_pushed engine hrow hconstraint
  have hwhole : (rules.enforced handle.constraint).holds (row.assignment t.references) = true :=
    FilterRules.holds_of_mem_explode hpushed.nodup
      (fun entry he _ => (hpushed.2 entry he).2.faithful) hpart hpass
  rw [hconstraint] at hwhole
  refine (Expression.expresses_constraint? engine hrow hc).exact.mpr ?_
  exact FilterRules.holds_of_exact (wellFormed_parts engine hrow) (declared_parts engine hrow)
    (List.mem_filterMap.mpr ⟨filter, hfilter, hc⟩) htakes hwhole

end Guarantee

open PlannedTable

/-- **Pushing filters into a scan is sound and loses nothing.** The filters are pushed onto a handle
of the table that has no constraint yet, and the handle is split without page windows. Every split
can check a row. If all filters are true on the row, exactly one split accepts it; and on a row that
some split accepts, every filter is true that was judged exact. -/
theorem pushdown_sound_and_lossless {ρ β : Type} {c : Connector ρ β} {t : TableDefinition ρ β}
    {h : TableHandle} (ht : c.tableFor h.table = .ok t) {rules : FilterRules}
    (hrules : t.rules = some rules) (hwindows : c.settings.splitsFor t.name ≤ 1)
    (hall : h.constraint = .all) (filters : List Expression) (limit : Option UInt64)
    (engine : Engine) (row : Row) (hrow : Row.fits row t.columns = true) :
    ∃ planned handle splits verdicts, make c h = .ok planned ∧
      planned.planHandle c filters limit = .ok handle ∧ c.splits handle none = .ok splits ∧
      (splits.mapM fun split => t.admits split.handle row) = .ok verdicts ∧
      ((∀ filter ∈ filters, filter.truth engine t.references row = some true) →
        verdicts.count true = 1) ∧
      (true ∈ verdicts → ∀ filter ∈ filters, planned.classify c filter = .ok .exact →
        filter.truth engine t.references row = some true) := by
  have hsuits : row.Suits t.references := Row.suits_of_fits hrow
  obtain ⟨handle, hplan, htable, hconstraint⟩ := planHandle_eq hrules ht hall
    (Constraint.wellFormed_foldl_intersect Constraint.wellFormed_all
      (wellFormed_parts engine hsuits)) limit
  have hpushed : handle.constraint.WellFormed := wellFormed_pushed engine hsuits hconstraint
  have hdeclared : ∀ entry ∈ handle.constraint.entries, entry.column ∈ t.references := by
    intro entry he
    rw [hconstraint] at he
    exact Constraint.forall_column_foldl_intersect Constraint.wellFormed_all
      (wellFormed_parts engine hsuits) (p := fun column => column ∈ t.references)
      (fun _ hnone => absurd hnone List.not_mem_nil) (declared_parts engine hsuits) entry
      (List.mem_filter.mp he).1
  refine ⟨_, handle, _, _, make_eq ht, hplan,
    Connector.splits_eq_explode (htable ▸ ht) hrules hwindows,
    TableDefinition.mapM_admits hrules hpushed.nodup hdeclared row, fun htrue => ?_, ?_⟩
  · rw [List.count, List.countP_map]
    simp only [Function.comp_def, beq_true]
    exact countP_of_true engine hsuits hconstraint htrue
  · intro hsome filter hfilter hexact
    obtain ⟨c, hc, htakes⟩ := takes_of_classify_exact hrules engine ht hexact hsuits
    obtain ⟨part, hpart, hpass⟩ := List.mem_map.mp hsome
    exact truth_of_passes engine hsuits hconstraint hpart hpass hfilter hc htakes

/-- Steps of one run that ended in either of two ways: the conclusions are read in two splits, and a
row with the second conclusion is accepted by one of them. -/
theorem pushdown_sound_and_lossless_steps :
    ∃ planned handle splits verdicts,
      make (Github.connector .standard) (.ofTable ⟨"github", "steps"⟩) = .ok planned ∧
      planned.planHandle (Github.connector .standard)
        [.inList (.column none "conclusion") [.literal (.text (some "failure")),
          .literal (.text (some "cancelled"))] false,
         .binary .eq (.column none "run_id") (.literal (.integer .int64 (some 7)))] (some 10) =
        .ok handle ∧
      (Github.connector .standard).splits handle none = .ok splits ∧
      (splits.mapM fun split => TableDefinition.admits
        ⟨"steps", Github.Step.columns, some Github.stepRules, [], Github.fetchSteps⟩ split.handle
        [.varchar "o", .varchar "r", .bigInt 7, .bigInt 70, .varchar "build", .bigInt 1,
         .varchar "compile", .varchar "completed", .varchar "cancelled", .null, .null]) =
        .ok verdicts ∧
      verdicts.count true = 1 := by
  obtain ⟨planned, handle, splits, verdicts, hmake, hplan, hsplits, hverdicts, hone, -⟩ :=
    pushdown_sound_and_lossless (c := Github.connector .standard)
      (h := .ofTable ⟨"github", "steps"⟩)
      (t := ⟨"steps", Github.Step.columns, some Github.stepRules, [], Github.fetchSteps⟩) rfl rfl
      (by decide) rfl
      [.inList (.column none "conclusion") [.literal (.text (some "failure")),
        .literal (.text (some "cancelled"))] false,
       .binary .eq (.column none "run_id") (.literal (.integer .int64 (some 7)))] (some 10)
      ⟨fun _ _ => .null, fun _ _ _ => none⟩
      [.varchar "o", .varchar "r", .bigInt 7, .bigInt 70, .varchar "build", .bigInt 1,
        .varchar "compile", .varchar "completed", .varchar "cancelled", .null, .null] (by decide)
  refine ⟨planned, handle, splits, verdicts, hmake, hplan, hsplits, hverdicts, hone ?_⟩
  intro filter hfilter
  rcases List.mem_cons.mp hfilter with rfl | hfilter
  · rfl
  · obtain rfl := List.mem_singleton.mp hfilter
    rfl

end RemoteTables
