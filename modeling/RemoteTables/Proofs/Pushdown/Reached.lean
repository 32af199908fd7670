import RemoteTables.Proofs.Pushdown.Resolved

/-!
# The handles that planning reaches

Planning starts from the handle of a table and takes steps: it pushes constraints, lowers the limit,
and asks for the first rows in a sort. A step that changes nothing, or fails, leaves the handle as
it is. At the end the handle is split, perhaps after a late filter has narrowed it once more.

What is read later relies on the shape of the handle: membership on lists in order, requests on
columns with points, the row checks on columns that the table has. `TableDefinition.Planned` gathers
all of it, together with what the limit, the order and the page window have become. It holds at the
start, every step keeps it (`planned_take`), and so does splitting (`planned_of_mem_splits`); the
main result, `reached_planned`, adds the request that is made for a split.
-/

set_option autoImplicit false

namespace RemoteTables

/-! ## Constraints made of what a table takes -/

namespace FilterRules

/-- A constraint in order, on columns that a table has and narrows, with points at the equality
columns. -/
structure Takes (rules : FilterRules) (columns : List ColumnRef) (c : Constraint) : Prop where
  wellFormed : c.WellFormed
  declared : ∀ entry ∈ c.entries, entry.column ∈ columns
  supported : ∀ entry ∈ c.entries,
    rules.kindOf entry.column.name = .equal ∨ rules.kindOf entry.column.name = .range
  pointwise : rules.Pointwise c

variable {rules : FilterRules} {columns : List ColumnRef}

theorem Takes.all : Takes rules columns .all :=
  ⟨Constraint.wellFormed_all, fun _ he => absurd he List.not_mem_nil,
    fun _ he => absurd he List.not_mem_nil, fun _ he => absurd he List.not_mem_nil⟩

theorem takes_taken {c : Constraint} (h : c.WellFormed) :
    Takes rules columns (rules.taken columns c) := by
  refine ⟨wellFormed_taken h, fun entry he => ?_, fun entry he => ?_, pointwise_taken columns c⟩
  · exact (takes?_isSome_iff.mp (List.mem_filter.mp he).2).1
  · obtain ⟨-, hbound | ⟨henforced, -⟩⟩ := takes?_isSome_iff.mp (List.mem_filter.mp he).2
    · exact Or.inr hbound
    · exact Or.inl henforced

/-- A column of an intersection that both sides restrict to points, if they restrict it, is
restricted to points. -/
theorem Pointwise.intersect {a b : Constraint} (ha : a.WellFormed) (hb : b.WellFormed)
    (hpa : rules.Pointwise a) (hpb : rules.Pointwise b) : rules.Pointwise (a.intersect b) := by
  intro entry he hkind
  have hnodup := (Constraint.wellFormed_intersect ha hb).nodup
  have hpoints : (a.intersect b).Pinpoints entry.column.name := by
    refine Constraint.pinpoints_intersect ha hb ?_
    rcases (Constraint.mem_columnNames_intersect ha hb).mp (List.mem_map_of_mem he) with h | h
    · obtain ⟨old, hold, hname⟩ := List.mem_map.mp h
      exact Or.inl ⟨old, hold, hname, hpa old hold (hname ▸ hkind)⟩
    · obtain ⟨old, hold, hname⟩ := List.mem_map.mp h
      exact Or.inr ⟨old, hold, hname, hpb old hold (hname ▸ hkind)⟩
  obtain ⟨other, ho, hname, hdiscrete⟩ := hpoints
  exact Constraint.entry_eq_of_name_eq hnodup ho he hname ▸ hdiscrete

theorem Takes.intersect {a b : Constraint} (ha : Takes rules columns a)
    (hb : Takes rules columns b) : Takes rules columns (a.intersect b) where
  wellFormed := Constraint.wellFormed_intersect ha.wellFormed hb.wellFormed
  declared := Constraint.forall_column_intersect ha.wellFormed hb.wellFormed
    (p := (· ∈ columns)) ha.declared hb.declared
  supported := Constraint.forall_column_intersect ha.wellFormed hb.wellFormed
    (p := fun column => rules.kindOf column.name = .equal ∨ rules.kindOf column.name = .range)
    ha.supported hb.supported
  pointwise := ha.pointwise.intersect ha.wellFormed hb.wellFormed hb.pointwise

theorem wellFormed_foldl_fixColumn {choices : List (ColumnRef × List Literal)}
    {constraints : List Constraint} (h : ∀ c ∈ constraints, c.WellFormed) :
    ∀ c ∈ choices.foldl fixColumn constraints, c.WellFormed := by
  induction choices generalizing constraints with
  | nil => exact h
  | cons choice rest ih =>
    refine ih fun c hc => ?_
    obtain ⟨part, hpart, hc⟩ := List.mem_flatMap.mp hc
    obtain ⟨v, -, rfl⟩ := List.mem_map.mp hc
    exact Constraint.wellFormed_withDomain (h part hpart) choice.1 (Domain.wellFormed_single v)

/-- **What a handle explodes into is made of what the table takes**, if the handle is. -/
theorem Takes.explode {h part : TableHandle} (hh : Takes rules columns h.constraint)
    (hpart : part ∈ rules.explode h) : Takes rules columns part.constraint := by
  have hcolumn : ∀ entry ∈ part.constraint.entries,
      ∃ old ∈ h.constraint.entries, entry.column = old.column := by
    intro entry he
    rcases entries_of_mem_explode hh.wellFormed.nodup hpart he with
      ⟨hold, -⟩ | ⟨old, hold, points, v, -, -, rfl⟩
    · exact ⟨entry, hold, rfl⟩
    · exact ⟨old, hold, rfl⟩
  refine ⟨?_, fun entry he => ?_, fun entry he => ?_, fun entry he hkind => ?_⟩
  · unfold FilterRules.explode at hpart
    split at hpart
    · exact absurd hpart List.not_mem_nil
    · obtain ⟨c, hc, rfl⟩ := List.mem_map.mp hpart
      exact wellFormed_foldl_fixColumn
        (fun d hd => List.mem_singleton.mp hd ▸ hh.wellFormed) c hc
  · obtain ⟨old, hold, hsame⟩ := hcolumn entry he
    exact hsame ▸ hh.declared old hold
  · obtain ⟨old, hold, hsame⟩ := hcolumn entry he
    exact hsame ▸ hh.supported old hold
  · rcases entries_of_mem_explode hh.wellFormed.nodup hpart he with
      ⟨hold, -⟩ | ⟨old, hold, points, v, -, -, rfl⟩
    · exact hh.pointwise entry hold hkind
    · rfl

end FilterRules

/-! ## Steps -/

/-- A step of planning. -/
inductive PlanningStep where
  /-- Pushes a conjunction of domains for columns. -/
  | filter (entries : List ColumnDomain)
  | limit (limit : UInt64)
  /-- Asks for the first rows in a sort. -/
  | topN (n : UInt64) (items : List SortItem)

namespace Connector

variable {ρ β : Type} (c : Connector ρ β)

/-- The handle after a step. A step that changes nothing, or fails, leaves it. -/
def take (h : TableHandle) : PlanningStep → TableHandle
  | .filter entries =>
    match c.applyFilter h (.ofEntries entries) with
    | .ok (some pushed) => pushed.handle
    | _ => h
  | .limit limit => (h.lowerLimit? limit).getD h
  | .topN n items =>
    match c.applyTopN h n items with
    | .ok (some updated) => updated
    | _ => h

/-- The handle after several steps. -/
def reach (start : TableHandle) (steps : List PlanningStep) : TableHandle :=
  steps.foldl c.take start

end Connector

namespace TableDefinition

variable {ρ β : Type} (t : TableDefinition ρ β)

/-- What a table narrows, which is nothing if it takes no constraint. -/
def narrowing : FilterRules := t.rules.getD []

/-- The sort among sort items that the table does: the first, if it can do it at all. -/
def sortAmong? (items : List SortItem) : Option SortItem :=
  items.head?.filter fun first => (t.remoteSort? first).isSome

/-- The order that a step asks for, if the table can do it. -/
def stepSort? : PlanningStep → Option SortItem
  | .topN _ items => t.sortAmong? items
  | .filter _ | .limit _ => none

/-- The limit that a step sets; asking for first rows sets one if the table can do the sort. -/
def stepLimit? : PlanningStep → Option UInt64
  | .filter _ => none
  | .limit limit => some limit
  | .topN n items => (t.sortAmong? items).map fun _ => n

/-- The sort that the steps have asked for last. -/
def lastSort? (steps : List PlanningStep) : Option SortItem :=
  (steps.filterMap t.stepSort?).getLast?

/-- What is known of a handle after some steps, which reads one of so many page windows. -/
structure Planned (name : TableName) (steps : List PlanningStep) (windows : UInt32)
    (h : TableHandle) : Prop where
  table : h.table = name
  constraint : t.narrowing.Takes t.references h.constraint
  limit : h.limit = (steps.filterMap t.stepLimit?).foldl min noLimit
  sortOrder : h.sortOrder = (t.lastSort? steps).map fun item => [item]
  offset : h.offset < h.pageIncrement
  pageIncrement : h.pageIncrement = max windows 1

/-! ## What a step keeps -/

variable {t} {c : Connector ρ β} {name : TableName} {steps : List PlanningStep} {h : TableHandle}

theorem planned_start : t.Planned name [] 1 (.ofTable name) where
  table := rfl
  constraint := .all
  limit := rfl
  sortOrder := rfl
  offset := show (0 : UInt32) < 1 by decide
  pageIncrement := rfl

/-- A step leaves a planned handle if it sets constraint, limit and order as it should. -/
theorem Planned.append (hplanned : t.Planned name steps 1 h) (step : PlanningStep)
    {constraint : Constraint} (hconstraint : t.narrowing.Takes t.references constraint) :
    t.Planned name (steps ++ [step]) 1
      { h with
        constraint
        limit := (t.stepLimit? step).elim h.limit (min h.limit)
        sortOrder := (t.stepSort? step).elim h.sortOrder fun item => some [item] } where
  table := hplanned.table
  constraint := hconstraint
  limit := by
    rw [List.filterMap_append, List.foldl_append, ← hplanned.limit]
    cases hlimit : t.stepLimit? step <;> simp [hlimit]
  sortOrder := by
    rw [lastSort?, List.filterMap_append, List.getLast?_append, hplanned.sortOrder, lastSort?]
    cases hsort : t.stepSort? step <;> simp [hsort]
  offset := hplanned.offset
  pageIncrement := hplanned.pageIncrement

theorem take_topN (hht : c.tableFor h.table = .ok t) (n : UInt64) (items : List SortItem) :
    c.take h (.topN n items) = match t.sortAmong? items with
      | some first => (h.withSortOrder [first]).withLimit (min h.limit n)
      | none => h := by
  cases items with
  | nil => rfl
  | cons first rest =>
    rw [Connector.take, Connector.applyTopN, hht, sortAmong?, List.head?_cons, Option.filter_some]
    simp only [bind, Except.bind]
    cases t.remoteSort? first with
    | none => rfl
    | some sort =>
      have hmin : min h.limit n = min n h.limit := Std.Commutative.comm h.limit n
      rw [hmin]
      by_cases hsame : (h.withSortOrder [first]).withLimit (min n h.limit) = h
      · simp [hsame, pure, Except.pure]
      · simp [hsame, pure, Except.pure]

/-- **What pushing onto a handle comes to**, also if the table has no rules: the conjunction of what
was there and what the table takes. -/
theorem exists_applyFilter (ht : c.tableFor h.table = .ok t) (hwell : h.constraint.WellFormed)
    (constraint : Constraint) :
    ∃ pushed, c.applyFilter h constraint = .ok pushed ∧
      (pushed.map Pushed.handle).getD h =
        h.withConstraint (h.constraint.intersect (t.narrowing.taken t.references constraint)) := by
  cases hrules : t.rules with
  | none =>
    have hnarrowing : t.narrowing = [] := by rw [narrowing, hrules, Option.getD_none]
    refine ⟨none, ?_, ?_⟩
    · rw [Connector.applyFilter, ht]
      simp only [bind, Except.bind, hrules]
      rfl
    · rw [hnarrowing, FilterRules.taken_nil, Constraint.intersect_all hwell]
      rfl
  | some rules =>
    have hnarrowing : t.narrowing = rules := by rw [narrowing, hrules, Option.getD_some]
    rw [hnarrowing]
    exact ⟨_, Connector.applyFilter_eq ht hrules constraint, FilterRules.push_getD hwell constraint⟩

/-- Whatever is pushed onto a planned handle, its constraint stays made of what the table takes. -/
theorem exists_takes_applyFilter (ht : c.tableFor name = .ok t) {windows : UInt32}
    (hplanned : t.Planned name steps windows h) {constraint : Constraint}
    (hwell : constraint.WellFormed) :
    ∃ pushed merged, c.applyFilter h constraint = .ok pushed ∧
      (pushed.map Pushed.handle).getD h = h.withConstraint merged ∧
      t.narrowing.Takes t.references merged := by
  obtain ⟨pushed, hpushed, hhandle⟩ :=
    exists_applyFilter (hplanned.table ▸ ht) hplanned.constraint.wellFormed constraint
  exact ⟨pushed, _, hpushed, hhandle,
    hplanned.constraint.intersect (FilterRules.takes_taken hwell)⟩

/-- **Every step keeps what is known**, if the domains that it pushes are in order. -/
theorem planned_take (ht : c.tableFor name = .ok t) (hplanned : t.Planned name steps 1 h)
    (step : PlanningStep)
    (hstep : ∀ entries, step = .filter entries → ∀ entry ∈ entries, entry.domain.WellFormed) :
    t.Planned name (steps ++ [step]) 1 (c.take h step) := by
  cases step with
  | filter entries =>
    obtain ⟨pushed, merged, hpushed, hhandle, htakes⟩ := exists_takes_applyFilter ht hplanned
      (Constraint.wellFormed_ofEntries (hstep entries rfl))
    have htaken : c.take h (.filter entries) = h.withConstraint merged := by
      rw [Connector.take, hpushed, ← hhandle]
      cases pushed <;> rfl
    rw [htaken]
    exact hplanned.append (.filter entries) htakes
  | limit limit =>
    have htaken : c.take h (.limit limit) = h.withLimit (min h.limit limit) := by
      rw [Connector.take, TableHandle.lowerLimit?, Std.min_eq_if]
      split <;> rfl
    rw [htaken]
    exact hplanned.append (.limit limit) hplanned.constraint
  | topN n items =>
    have hkept := hplanned.append (.topN n items) hplanned.constraint
    rw [stepLimit?, stepSort?] at hkept
    rw [take_topN (hplanned.table ▸ ht)]
    cases hsort : t.sortAmong? items with
    | some first =>
      rw [hsort] at hkept
      exact hkept
    | none =>
      rw [hsort] at hkept
      exact hkept

theorem planned_reach (ht : c.tableFor name = .ok t) (hplanned : t.Planned name steps 1 h)
    (more : List PlanningStep)
    (hmore : ∀ entries, .filter entries ∈ more → ∀ entry ∈ entries, entry.domain.WellFormed) :
    t.Planned name (steps ++ more) 1 (c.reach h more) := by
  induction more generalizing steps h with
  | nil => rwa [List.append_nil]
  | cons step rest ih =>
    have hnext := planned_take ht hplanned step fun entries hstep =>
      hmore entries (hstep ▸ List.mem_cons_self)
    have hend := ih hnext fun entries hin => hmore entries (List.mem_cons_of_mem _ hin)
    rwa [List.append_assoc] at hend

/-! ## What splitting keeps -/

/-- A table without rules explodes a handle as one that narrows nothing. -/
theorem explode_eq : t.explode h = t.narrowing.explode h := by
  rw [TableDefinition.explode, narrowing]
  cases t.rules with
  | some rules => rfl
  | none =>
    have hchoices : h.constraint.entries.filterMap (FilterRules.choices? []) = [] :=
      List.filterMap_eq_nil_iff.mpr fun entry _ => rfl
    rw [Option.getD_none, FilterRules.explode, hchoices]
    rfl

theorem Planned.withPageWindow {windows : UInt32} (hplanned : t.Planned name steps 1 h)
    (hmany : ¬windows ≤ 1) {k : Nat} (hk : k < windows.toNat) :
    t.Planned name steps windows (h.withPageWindow (.ofNat k) windows) where
  table := hplanned.table
  constraint := hplanned.constraint
  limit := hplanned.limit
  sortOrder := hplanned.sortOrder
  offset := by
    have hoffset : UInt32.ofNat k < windows := by
      rw [UInt32.lt_iff_toNat_lt, UInt32.toNat_ofNat_of_lt' (Nat.lt_trans hk windows.toNat_lt)]
      exact hk
    have hmax : max windows 1 = windows := if_neg hmany
    show UInt32.ofNat k < max windows 1
    rwa [hmax]
  pageIncrement := rfl

/-- The shares of a planned handle are planned, each with a page window of its own. -/
theorem Planned.of_mem_shares {windows : UInt32} (hplanned : t.Planned name steps 1 h)
    {share : TableHandle} (hshare : share ∈ Connector.shares windows h) :
    t.Planned name steps windows share ∧ share.constraint = h.constraint := by
  unfold Connector.shares at hshare
  split at hshare
  · rename_i hone
    obtain rfl := List.mem_singleton.mp hshare
    have hmax : max windows 1 = 1 := if_pos hone
    exact ⟨{ hplanned with pageIncrement := hplanned.pageIncrement.trans hmax.symm }, rfl⟩
  · rename_i hmany
    obtain ⟨k, hk, rfl⟩ := List.mem_map.mp hshare
    exact ⟨hplanned.withPageWindow hmany (List.mem_range.mp hk), rfl⟩

/-- **Splitting keeps what is known**, also when a late filter in order narrows the handle first,
and no split is of a handle that plainly has no rows. -/
theorem planned_of_mem_splits (ht : c.tableFor name = .ok t)
    (hplanned : t.Planned name steps 1 h) {late : Option LateFilter}
    (hlate : ∀ filter ∈ late, filter.current.WellFormed) :
    ∃ splits, c.splits h late = .ok splits ∧ ∀ split ∈ splits,
      t.Planned name steps (c.settings.splitsFor t.name) split.handle ∧
        split.handle.constraint.isNone = false := by
  obtain ⟨merged, hnarrow, htakes⟩ : ∃ merged, c.narrow h late = .ok (h.withConstraint merged) ∧
      t.narrowing.Takes t.references merged := by
    cases late with
    | none => exact ⟨h.constraint, rfl, hplanned.constraint⟩
    | some filter =>
      obtain ⟨pushed, merged, hpushed, hhandle, htakes⟩ :=
        exists_takes_applyFilter ht hplanned (hlate filter rfl)
      refine ⟨merged, ?_, htakes⟩
      rw [Connector.narrow, LateFilter.awaited_eq, hpushed, ← hhandle]
      rfl
  have hsplits : c.splits h late = c.splits (h.withConstraint merged) none := by
    rw [Connector.splits, hnarrow]
    rfl
  have hshares := Connector.splits_eq_shares (h := h.withConstraint merged) (hplanned.table ▸ ht)
  refine ⟨_, hsplits.trans hshares, fun split hsplit => ?_⟩
  obtain ⟨share, hshare, rfl⟩ := List.mem_map.mp hsplit
  obtain ⟨part, hpart, hshare⟩ := List.mem_flatMap.mp hshare
  rw [explode_eq] at hpart
  obtain ⟨hsame, hnarrows⟩ := FilterRules.narrows_of_mem_explode htakes.wellFormed.nodup hpart
  have hplannedPart : t.Planned name steps 1 part := by
    have htaken := FilterRules.Takes.explode htakes hpart
    rw [hsame]
    exact { hplanned with constraint := htaken }
  obtain ⟨hplannedShare, hconstraint⟩ := hplannedPart.of_mem_shares hshare
  refine ⟨hplannedShare, ?_⟩
  rw [Split.ofHandle, hconstraint]
  exact hnarrows.isNone_eq_false (FilterRules.isNone_of_mem_explode hpart)

/-! ## What is asked for -/

/-- The sort that the steps lead to: the first that is registered for the item asked for last, or
else the table's own. -/
def SortedBy (t : TableDefinition ρ β) (steps : List PlanningStep) (sort : Option RemoteSort) :
    Prop :=
  match t.lastSort? steps with
  | some item => ∃ s, t.sorts.find? (fun s => s.item == item) = some s ∧
      sort = some ⟨s.key, item.direction⟩
  | none => sort = t.defaultSort?

/-- The sort asked for last is one that the table does. -/
theorem remoteSort?_lastSort? {item : SortItem} (hlast : t.lastSort? steps = some item) :
    (t.remoteSort? item).isSome = true := by
  obtain ⟨step, -, hstep⟩ := List.mem_filterMap.mp (List.mem_of_getLast? hlast)
  cases step with
  | filter entries => cases hstep
  | limit limit => cases hstep
  | topN n items => exact (Option.filter_eq_some_iff.mp hstep).2

theorem Planned.sortedBy {windows : UInt32} (hplanned : t.Planned name steps windows h) :
    t.SortedBy steps (t.sortOf h) := by
  rw [SortedBy, sortOf, hplanned.sortOrder]
  split
  · rename_i item hlast
    have hsome := remoteSort?_lastSort? hlast
    rw [remoteSort?, Option.isSome_map] at hsome
    obtain ⟨s, hs⟩ := Option.isSome_iff_exists.mp hsome
    have hitem := List.find?_some hs
    refine ⟨s, hs, ?_⟩
    rw [← eq_of_beq hitem]
    simp [hlast, remoteSort?, hs]
  · rename_i hlast
    rw [hlast]
    rfl

/-- The checks of a planned handle can be made. -/
theorem Planned.checks_isOk {windows : UInt32} (hplanned : t.Planned name steps windows h) :
    ∃ enforced, t.checks h.constraint = .ok enforced := by
  cases hrules : t.rules with
  | none => exact ⟨[], by rw [checks, hrules]⟩
  | some rules =>
    refine TableDefinition.checks_isOk hrules fun entry he _ => ?_
    obtain ⟨column, hcolumn, hsame⟩ := List.mem_map.mp (hplanned.constraint.declared entry he)
    exact ⟨column, hcolumn, by rw [← hsame]; rfl⟩

end TableDefinition

/-- **Everything that planning reaches is in order.** From the handle of a table, steps are taken
that push constraints of well-formed domains, lower the limit, or ask for first rows; what they lead
to is planned, and it can be split. Every split is planned as well, and it is read, unless its limit
is zero, by fetching with the sort that the steps asked for last and with the checks of its
constraint. -/
theorem reached_planned {ρ β : Type} {c : Connector ρ β} {name : TableName} {start : TableHandle}
    (hstart : c.handleFor? name = some start) {steps : List PlanningStep}
    (hsteps : ∀ entries, .filter entries ∈ steps → ∀ entry ∈ entries, entry.domain.WellFormed)
    {late : Option LateFilter} (hlate : ∀ filter ∈ late, filter.current.WellFormed) :
    ∃ t splits, c.tableFor name = .ok t ∧
      t.Planned name steps 1 (c.reach start steps) ∧
      c.splits (c.reach start steps) late = .ok splits ∧
      ∀ split ∈ splits, t.Planned name steps (c.settings.splitsFor t.name) split.handle ∧
        ∃ sort enforced, t.SortedBy steps sort ∧ t.checks split.handle.constraint = .ok enforced ∧
          c.rows split =
            if split.handle.limit = 0 then .done []
            else do
              let rows ← t.fetch ⟨split.handle, sort, enforced⟩
              return rows.filter (FetchRequest.mk split.handle sort enforced).accepts := by
  rw [Connector.handleFor?] at hstart
  split at hstart
  · rename_i t ht
    obtain rfl := Option.some.inj hstart
    have hreached : t.Planned name steps 1 (c.reach (.ofTable name) steps) :=
      TableDefinition.planned_reach ht TableDefinition.planned_start steps hsteps
    obtain ⟨splits, hsplits, hall⟩ := TableDefinition.planned_of_mem_splits ht hreached hlate
    refine ⟨t, splits, ht, hreached, hsplits, fun split hsplit => ?_⟩
    obtain ⟨hplanned, hnone⟩ := hall split hsplit
    obtain ⟨enforced, henforced⟩ := hplanned.checks_isOk
    refine ⟨hplanned, _, enforced, hplanned.sortedBy, henforced, ?_⟩
    rw [Connector.rows, hplanned.table, ht]
    show t.read split.handle = _
    rw [TableDefinition.read, hnone, henforced]
    by_cases hzero : split.handle.limit = 0
    · simp only [hzero]
      rfl
    · simp only [hzero]
      rfl
  · cases hstart

/-- Issues of two states, at most 50 and then the 10 changed last. The title cannot be sorted by, so
the last step is not taken. -/
def Github.lateIssues : List PlanningStep :=
  [.filter [⟨⟨"owner", .varchar⟩, .single (.varchar "o")⟩,
      ⟨⟨"repo", .varchar⟩, .single (.varchar "r")⟩,
      ⟨⟨"state", .varchar⟩, .ofList [.varchar "open", .varchar "closed"]⟩],
    .limit 50, .topN 10 [⟨"updated_at", .descending⟩, ⟨"title", .ascending⟩],
    .topN 5 [⟨"title", .ascending⟩]]

/-- Each split of these issues reads at most 10, those changed last first. -/
theorem reached_planned_issues :
    (Github.connector .standard).handleFor? ⟨"github", "issues"⟩ =
      some (.ofTable ⟨"github", "issues"⟩) ∧
    ∃ splits, (Github.connector .standard).splits ((Github.connector .standard).reach
        (.ofTable ⟨"github", "issues"⟩) Github.lateIssues) none = .ok splits ∧
      ∀ split ∈ splits, split.handle.limit = 10 ∧
        split.handle.sortOrder = some [⟨"updated_at", .descending⟩] ∧
        ∃ enforced, (Github.connector .standard).rows split = do
          let rows ← Github.fetchIssues ⟨split.handle, some ⟨"updated", .descending⟩, enforced⟩
          return rows.filter (FetchRequest.mk split.handle (some ⟨"updated", .descending⟩)
            enforced).accepts := by
  refine ⟨rfl, ?_⟩
  have hstart : (Github.connector .standard).handleFor? ⟨"github", "issues"⟩ =
      some (.ofTable ⟨"github", "issues"⟩) := rfl
  have hsteps : ∀ entries, .filter entries ∈ Github.lateIssues →
      ∀ entry ∈ entries, entry.domain.WellFormed := by
    intro entries hentries
    obtain rfl : entries = _ := by simpa [Github.lateIssues] using hentries
    decide
  have hlate : ∀ filter ∈ (none : Option LateFilter), filter.current.WellFormed := by simp
  obtain ⟨t, splits, ht, -, hsplits, hall⟩ := reached_planned hstart hsteps hlate
  obtain rfl := Except.ok.inj ht
  refine ⟨splits, hsplits, fun split hsplit => ?_⟩
  obtain ⟨hplanned, sort, enforced, hsort, -, hrows⟩ := hall split hsplit
  have hlimit : split.handle.limit = 10 := hplanned.limit
  obtain ⟨s, hs, rfl⟩ : ∃ s, _ ∧ sort = some _ := hsort
  obtain rfl := Option.some.inj hs
  refine ⟨hlimit, hplanned.sortOrder, enforced, ?_⟩
  rw [hrows, hlimit]
  rfl

end RemoteTables
