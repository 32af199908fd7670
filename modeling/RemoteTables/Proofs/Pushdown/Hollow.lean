import RemoteTables.Proofs.Pushdown.Order
import RemoteTables.Proofs.Pushdown.Partition
import RemoteTables.Proofs.Pushdown.Reached
import RemoteTables.Proofs.Sets.Vacant

/-!
# What nothing can satisfy is not read

A handle on which filters were pushed may be one that no row can satisfy. It then gives no splits,
and the rows of a split are known without a question, provided that it shows: `Constraint.isNone`
looks for a domain that is written as an empty list. Cutting domains writes them so, since disjoint
ranges are dropped. A filter may say a range with nothing in it itself, however, and neighbouring
ends leave nothing between them either; such a domain is hollow (`Domain.isHollow`), and a hollow
domain is treated as any other.

`unread_unless_hollow` draws the line for every handle that filters lead to. A column without any
literal ends the reading unless its domain is hollow; hollow domains are only found on columns that
the table bounds, never on its equality columns; and a handle all of whose empty domains are hollow is
split and read. That there are such handles is `hollow_is_read`.
-/

set_option autoImplicit false

namespace RemoteTables

/-! ## Handles without parts -/

namespace FilterRules

variable {rules : FilterRules}

theorem fixColumn_ne_nil {constraints : List Constraint} (h : constraints ≠ [])
    {choice : ColumnRef × List Literal} (hpoints : choice.2 ≠ []) :
    fixColumn constraints choice ≠ [] := by
  obtain ⟨c, others, rfl⟩ := List.exists_cons_of_ne_nil h
  obtain ⟨v, more, hmore⟩ := List.exists_cons_of_ne_nil hpoints
  simp [fixColumn, hmore]

theorem foldl_fixColumn_ne_nil {choices : List (ColumnRef × List Literal)}
    (hpoints : ∀ choice ∈ choices, choice.2 ≠ []) {constraints : List Constraint}
    (h : constraints ≠ []) : choices.foldl fixColumn constraints ≠ [] := by
  induction choices generalizing constraints with
  | nil => exact h
  | cons choice rest ih =>
    obtain ⟨hchoice, hrest⟩ := List.forall_mem_cons.mp hpoints
    exact ih hrest (fixColumn_ne_nil h hchoice)

/-- What a handle without constraint becomes if the table takes something. -/
theorem push_onto_all_eq_some {columns : List ColumnRef} {h : TableHandle}
    (hall : h.constraint = .all) {c : Constraint} (hc : c.WellFormed)
    (htaken : rules.taken columns c ≠ .all) :
    rules.push columns h c =
      some ⟨h.withConstraint (rules.taken columns c), rules.left columns c⟩ := by
  have hmerged : h.constraint.intersect (rules.taken columns c) = rules.taken columns c := by
    rw [hall]
    exact Constraint.all_intersect (wellFormed_taken hc)
  have hsome : ¬c.isAll = true := by
    intro hnothing
    obtain ⟨entries⟩ := c
    obtain rfl := List.isEmpty_iff.mp hnothing
    exact htaken rfl
  simp only [push, hmerged]
  rw [if_neg hsome, if_neg (hall ▸ htaken)]

/-- **A handle has no parts exactly if some domain is written as nothing.** -/
theorem explode_eq_nil_iff {h : TableHandle} :
    rules.explode h = [] ↔ h.constraint.isNone = true := by
  unfold explode
  split
  · rename_i hnone
    exact iff_of_true rfl hnone
  · rename_i hsome
    refine iff_of_false (fun hnil => ?_) hsome
    refine foldl_fixColumn_ne_nil (fun choice hchoice => ?_) (List.cons_ne_nil _ _)
      (List.map_eq_nil_iff.mp hnil)
    obtain ⟨entry, -, hentry⟩ := List.mem_filterMap.mp hchoice
    obtain ⟨-, -, -, hmany⟩ := choices?_eq_some hentry
    exact List.ne_nil_of_length_pos (Nat.zero_lt_of_lt hmany)

/-- A hollow domain is only found where the table bounds a column. -/
theorem Takes.range_of_isHollow {columns : List ColumnRef} {c : Constraint}
    (h : rules.Takes columns c) {entry : ColumnDomain} (he : entry ∈ c.entries)
    (hhollow : entry.domain.isHollow = true) : rules.kindOf entry.column.name = .range := by
  rcases h.supported entry he with hequal | hrange
  · rw [Domain.isHollow_of_points (h.pointwise entry he hequal)] at hhollow
    cases hhollow
  · exact hrange

end FilterRules

/-! ## Pushing filters -/

namespace Connector

variable {ρ β : Type} {c : Connector ρ β} {start h : TableHandle}

/-- The handles that come of a handle by pushing filters onto it, one after another. -/
inductive Filtered (c : Connector ρ β) (start : TableHandle) : TableHandle → Prop where
  | start : Filtered c start start
  | push {h : TableHandle} {columns : List ColumnRef} {filter : Expression}
      {constraint : Constraint} {pushed : Pushed} : Filtered c start h →
      filter.constraint? columns = some constraint →
      c.applyFilter h constraint = .ok (some pushed) → Filtered c start pushed.handle

theorem exists_tableFor_of_applyFilter {constraint : Constraint} {result : Option Pushed}
    (h : c.applyFilter start constraint = .ok result) : ∃ t, c.tableFor start.table = .ok t := by
  obtain ⟨t, ht, -⟩ := bind_eq_ok_iff.mp h
  exact ⟨t, ht⟩

/-- A pushed filter leaves a handle of the same table, made of what the table takes. -/
theorem takes_applyFilter {t : TableDefinition ρ β} (ht : c.tableFor h.table = .ok t)
    (htakes : t.narrowing.Takes t.references h.constraint) {constraint : Constraint}
    (hwell : constraint.WellFormed) {pushed : Pushed}
    (hpushed : c.applyFilter h constraint = .ok (some pushed)) :
    pushed.handle.table = h.table ∧ t.narrowing.Takes t.references pushed.handle.constraint := by
  obtain ⟨result, hresult, hhandle⟩ :=
    TableDefinition.exists_applyFilter ht htakes.wellFormed constraint
  obtain rfl := Except.ok.inj (hresult.symm.trans hpushed)
  have hmerged : pushed.handle = _ := hhandle
  rw [hmerged]
  exact ⟨rfl, htakes.intersect (FilterRules.takes_taken hwell)⟩

/-- What filters make of a handle without constraint has none either, or is of a table of the
connector and made of what the table takes. -/
theorem Filtered.takes (hreached : c.Filtered start h) (hstart : start.constraint = .all) :
    h.constraint = .all ∨ ∃ t, c.tableFor h.table = .ok t ∧
      t.narrowing.Takes t.references h.constraint := by
  induction hreached with
  | start => exact Or.inl hstart
  | @push h' _ _ _ _ _ hfilter hpushed ih =>
    obtain ⟨t, ht⟩ := exists_tableFor_of_applyFilter hpushed
    have htakes : t.narrowing.Takes t.references h'.constraint := by
      rcases ih with hall | ⟨u, hu, hkept⟩
      · exact hall ▸ .all
      · obtain rfl := Except.ok.inj (ht.symm.trans hu)
        exact hkept
    obtain ⟨htable, hmerged⟩ :=
      takes_applyFilter ht htakes (Expression.wellFormed_constraint? hfilter) hpushed
    exact Or.inr ⟨t, htable ▸ ht, hmerged⟩

/-- A column that filters have bound is one of a known table, and bound by what the table takes. -/
theorem Filtered.exists_entry (hreached : c.Filtered start h) (hstart : start.constraint = .all)
    {column : String} {d : Domain} (hd : h.constraint.domain? column = some d) :
    ∃ t, c.tableFor h.table = .ok t ∧ t.narrowing.Takes t.references h.constraint ∧
      ∃ entry ∈ h.constraint.entries, entry.column.name = column ∧ entry.domain = d := by
  obtain ⟨entry, he, hentry⟩ := Constraint.mem_of_domain? hd
  rcases hreached.takes hstart with hall | ⟨t, ht, htakes⟩
  · rw [hall] at he
    exact absurd he List.not_mem_nil
  · exact ⟨t, ht, htakes, entry, he, hentry⟩

theorem rows_eq_done {t : TableDefinition ρ β} {split : Split}
    (ht : c.tableFor split.handle.table = .ok t)
    (hnone : split.handle.constraint.isNone = true) : c.rows split = .done [] := by
  rw [rows, ht]
  show t.read split.handle = .done []
  rw [TableDefinition.read, if_pos (Or.inr hnone)]

/-- **What nothing can satisfy is not read, unless it is hollow.** Let filters be pushed onto a handle
without constraint, as many as one likes. If a column is then left without any literal, the handle
has no parts, whatever the rules, and the rows of any split that carries its constraint are none and
known without a question; the only exception are hollow domains, and only columns that the table
bounds have them. A handle without any other empty domain has parts. -/
theorem unread_unless_hollow (hreached : c.Filtered start h) (hstart : start.constraint = .all) :
    (∀ column d, h.constraint.domain? column = some d → (∀ v, d.includes v = false) →
      d.isHollow = false →
        (∀ rules : FilterRules, rules.explode h = []) ∧
        ∀ split : Split, split.handle.table = h.table →
          split.handle.constraint = h.constraint → c.rows split = .done []) ∧
    (∀ column d, h.constraint.domain? column = some d → d.isHollow = true →
      ∃ t, c.tableFor h.table = .ok t ∧ t.narrowing.kindOf column = .range) ∧
    ((∀ column d, h.constraint.domain? column = some d → (∀ v, d.includes v = false) →
      d.isHollow = true) → ∀ rules : FilterRules, rules.explode h ≠ []) := by
  refine ⟨fun column d hd hempty hfull => ?_, fun column d hd hhollow => ?_,
    fun hhollow rules => ?_⟩
  · obtain ⟨t, ht, htakes, entry, he, -, rfl⟩ := hreached.exists_entry hstart hd
    have hnone : entry.domain.isNone = true := by
      have hwell := (htakes.wellFormed.2 entry he).2
      rcases (Domain.vacant_iff hwell).mp hempty with hnone | hhollow
      · exact hnone
      · cases hfull.symm.trans hhollow
    have hunsatisfied : h.constraint.isNone = true := List.any_eq_true.mpr ⟨entry, he, hnone⟩
    refine ⟨fun rules => FilterRules.explode_eq_nil_iff.mpr hunsatisfied, ?_⟩
    intro split htable hconstraint
    exact rows_eq_done (htable ▸ ht) (hconstraint ▸ hunsatisfied)
  · obtain ⟨t, ht, htakes, entry, he, rfl, rfl⟩ := hreached.exists_entry hstart hd
    exact ⟨t, ht, htakes.range_of_isHollow he hhollow⟩
  · rw [Ne, FilterRules.explode_eq_nil_iff, Constraint.isNone, List.any_eq_true]
    rintro ⟨entry, he, hnone⟩
    rcases hreached.takes hstart with hall | ⟨t, -, htakes⟩
    · rw [hall] at he
      exact List.not_mem_nil he
    · have hd := Constraint.domain?_of_mem htakes.wellFormed.nodup he
      have hshown := hhollow _ _ hd (Domain.not_includes_of_isNone hnone)
      cases hshown.symm.trans (Domain.isHollow_of_isNone hnone)

end Connector

/-! ## Issues of an empty period -/

/-- Constraints whose columns come one after the other are written one after the other. -/
theorem Constraint.intersect_eq_append {a b : Constraint}
    (h : (Constraint.mk (a.entries ++ b.entries)).WellFormed) :
    a.intersect b = ⟨a.entries ++ b.entries⟩ :=
  all_intersect h

namespace Github

def allIssues : TableHandle := .ofTable ⟨schemaName, "issues"⟩

/-- The handle that a filter makes, if the table takes all of it. -/
theorem filtered_allIssues {filter : Expression} {c : Constraint}
    (hfilter : filter.constraint? (Issue.columns.map Column.ref) = some c)
    (htaken : issueRules.taken (Issue.columns.map Column.ref) c = c) (hsome : c ≠ .all) :
    (connector .standard).Filtered allIssues (allIssues.withConstraint c) := by
  have hpush : issueRules.push (Issue.columns.map Column.ref) allIssues c =
      some ⟨allIssues.withConstraint c, issueRules.left (Issue.columns.map Column.ref) c⟩ := by
    rw [FilterRules.push_onto_all_eq_some rfl (Expression.wellFormed_constraint? hfilter)
      (htaken.symm ▸ hsome), htaken]
  have happly : (connector .standard).applyFilter allIssues c = _ := Connector.applyFilter_eq
    (t := ⟨"issues", Issue.columns, some issueRules, timeSorts, fetchIssues⟩) rfl rfl c
  exact .push .start hfilter (happly.trans (congrArg Except.ok hpush))

/-- A time in an expression, in milliseconds. -/
def instant (time : Int64) : Expression := .literal (.instant .millisecond (some time))

/-- The time of the last change is after 5 and before 3. -/
def crossedPeriod : Expression :=
  .binary .and (.binary .gt (.column none "updated_at") (instant 5))
    (.binary .lt (.column none "updated_at") (instant 3))

/-- The two ranges are disjoint, so nothing of them is left. -/
theorem unread_unless_hollow_crossedPeriod :
    ∃ h, (connector .standard).Filtered allIssues h ∧
      (∀ rules : FilterRules, rules.explode h = []) ∧
      (connector .standard).rows (.ofHandle h) = .done [] := by
  have hfilter : crossedPeriod.constraint? (Issue.columns.map Column.ref) =
      some ⟨[⟨⟨"updated_at", .timestamp⟩, .ranges []⟩]⟩ := by decide +kernel
  have hreached := filtered_allIssues hfilter (by decide +kernel) (by decide)
  obtain ⟨hunread, -, -⟩ := Connector.unread_unless_hollow hreached rfl
  obtain ⟨hparts, hrows⟩ := hunread "updated_at" (.ranges []) rfl (fun _ => rfl) rfl
  exact ⟨_, hreached, hparts, hrows (.ofHandle _) rfl rfl⟩

def inRepository : Constraint :=
  ⟨[⟨⟨"owner", .varchar⟩, .single (.varchar "o")⟩, ⟨⟨"repo", .varchar⟩, .single (.varchar "r")⟩]⟩

/-- A period that ends before it starts. -/
def inReversedPeriod : Constraint :=
  ⟨[⟨⟨"updated_at", .timestamp⟩, .ranges [.between (.timestamp 5) (.timestamp 3)]⟩]⟩

/-- The issues of a repository of which the last change was between 5 and 3. -/
def reversedPeriod : Expression :=
  .binary .and
    (.binary .and (.binary .eq (.column none "owner") (.literal (.text (some "o"))))
      (.binary .eq (.column none "repo") (.literal (.text (some "r")))))
    (.between (.column none "updated_at") (instant 5) (instant 3) false)

theorem constraint?_reversedPeriod :
    reversedPeriod.constraint? (Issue.columns.map Column.ref) =
      some ⟨inRepository.entries ++ inReversedPeriod.entries⟩ := by
  have hparts : reversedPeriod.constraint? (Issue.columns.map Column.ref) =
      some ((Constraint.intersect (.single ⟨"owner", .varchar⟩ (.single (.varchar "o")))
        (.single ⟨"repo", .varchar⟩ (.single (.varchar "r")))).intersect
          (.single ⟨"updated_at", .timestamp⟩
            (.ranges [.between (.timestamp 5) (.timestamp 3)]))) := rfl
  have hscope : Constraint.intersect (.single ⟨"owner", .varchar⟩ (.single (.varchar "o")))
      (.single ⟨"repo", .varchar⟩ (.single (.varchar "r"))) = inRepository :=
    (Constraint.intersect_eq_append (by decide +kernel)).trans (by decide +kernel)
  have hperiod : Constraint.single ⟨"updated_at", .timestamp⟩
      (.ranges [.between (.timestamp 5) (.timestamp 3)]) = inReversedPeriod := by decide +kernel
  have hall : inRepository.intersect inReversedPeriod =
      ⟨inRepository.entries ++ inReversedPeriod.entries⟩ :=
    Constraint.intersect_eq_append (by decide +kernel)
  rw [hparts, hscope, hperiod, hall]

/-- **A period with its ends the wrong way round is read**: no literal is in it, yet the handle has a
part, and reading it puts a question. -/
theorem hollow_is_read :
    ∃ h, (connector .standard).Filtered allIssues h ∧
      (∃ d, h.constraint.domain? "updated_at" = some d ∧ ∀ v, d.includes v = false) ∧
      issueRules.explode h = [h] ∧
      ∃ request next, (connector .standard).rows (.ofHandle h) = .ask request next := by
  refine ⟨_, filtered_allIssues constraint?_reversedPeriod (by decide +kernel) (by decide),
    ⟨.ranges [.between (.timestamp 5) (.timestamp 3)], rfl, ?_⟩, by decide +kernel, _, _, rfl⟩
  intro v
  rw [Domain.includes, List.any_cons, List.any_nil, Bool.or_false]
  exact Range.not_includes_of_isEmpty (by decide) v

end Github
end RemoteTables
