import RemoteTables.Proofs.Sets.Entries
import RemoteTables.Proofs.Pushdown.Taken

/-!
# Pushing the same constraint again

A handle says after a push all that the table takes of the constraint. To push the same constraint once
more should change nothing, and the handle does say the same afterwards (`push_again`). But whether a
push changes the handle is judged by the form of the constraint, and ranges are written anew whenever
they are intersected: every range is cut with every other. A range that meets two of those that are
pushed is then written twice, one that is empty is dropped, and so the second push counts as a change.
It does not if the ranges that are pushed are apart from each other and have something in them.
-/

set_option autoImplicit false

namespace RemoteTables.FilterRules

variable {rules : FilterRules} {columns : List ColumnRef}

theorem push_eq_none_iff {h : TableHandle} {c : Constraint} :
    rules.push columns h c = none ↔
      c.isAll = true ∨ h.constraint.intersect (rules.taken columns c) = h.constraint := by
  simp only [push]
  by_cases hnothing : c.isAll = true
  · simp [hnothing]
  · by_cases hsame : h.constraint.intersect (rules.taken columns c) = h.constraint
    · simp [hsame]
    · simp [hnothing, hsame]

theorem isAll_of_push_eq_some {h : TableHandle} {c : Constraint} {pushed : Pushed}
    (hpush : rules.push columns h c = some pushed) : c.isAll = false := by
  rw [← Bool.not_eq_true]
  intro hnothing
  rw [push_eq_none_iff.mpr (Or.inl hnothing)] at hpush
  cases hpush

section Again

variable {h : TableHandle} (hh : h.constraint.WellFormed) {c : Constraint} (hc : c.WellFormed)
  {pushed : Pushed} (hpush : rules.push columns h c = some pushed)
include hh hc hpush

/-- What the handle says of a column that is taken was cut with what is pushed of it. -/
theorem exists_domain?_of_push {entry : ColumnDomain} (he : entry ∈ c.entries)
    (htakes : (rules.takes? columns entry).isSome = true) :
    ∃ e : Domain, pushed.handle.constraint.domain? entry.column.name =
      some (e.intersect entry.domain) := by
  have hmem : entry ∈ (rules.taken columns c).entries := List.mem_filter.mpr ⟨he, htakes⟩
  rw [push_eq_some hpush]
  refine ⟨(h.constraint.domain? entry.column.name).getD .all, ?_⟩
  show (h.constraint.intersect (rules.taken columns c)).domain? _ = _
  rw [Constraint.domain?_eq, Constraint.entryFor?_intersect_of_mem hh (wellFormed_taken hc) hmem,
    Option.map_some]

/-- The second push changes nothing if no domain is written anew. -/
theorem push_again_eq_none_iff :
    rules.push columns pushed.handle c = none ↔
      ∀ entry ∈ c.entries, (rules.takes? columns entry).isSome = true →
        ∃ d, pushed.handle.constraint.domain? entry.column.name = some d ∧
          d.MeetsOnce entry.domain := by
  have hmerged : pushed.handle.constraint = h.constraint.intersect (rules.taken columns c) :=
    congrArg (fun p : Pushed => p.handle.constraint) (push_eq_some hpush)
  have hkept : rules.push columns pushed.handle c = none ↔
      ∀ entry ∈ (rules.taken columns c).entries, ∀ d,
        pushed.handle.constraint.domain? entry.column.name = some d →
        d.intersect entry.domain = d := by
    rw [push_eq_none_iff, isAll_of_push_eq_some hpush, hmerged,
      ← Constraint.intersect_again_iff hh (wellFormed_taken hc)]
    simp
  rw [hkept]
  constructor
  · intro hsame entry he htakes
    obtain ⟨e, hdomain⟩ := exists_domain?_of_push hh hc hpush he htakes
    refine ⟨e.intersect entry.domain, hdomain, ?_⟩
    rw [← Domain.intersect_again_iff]
    exact hsame entry (List.mem_filter.mpr ⟨he, htakes⟩) _ hdomain
  · intro honce entry he d hd
    obtain ⟨he, htakes⟩ := List.mem_filter.mp he
    obtain ⟨e, hdomain⟩ := exists_domain?_of_push hh hc hpush he htakes
    obtain ⟨d', hd', honce⟩ := honce entry he htakes
    obtain rfl : d' = d := Option.some.inj (hd'.symm.trans hd)
    obtain rfl : e.intersect entry.domain = d' := Option.some.inj (hdomain.symm.trans hd)
    exact (Domain.intersect_again_iff e entry.domain).mpr honce

/-- **The same constraint pushed again.** The second push finds no change exactly if every range that
the handle has for a column that is taken meets just one of the ranges that are pushed for it; it is
so in particular if the domains that are taken are not written as ranges that overlap or are empty.
If it does find a change, then only in how domains are written: the new handle is satisfied by the
same assignments, it is the old one beside its constraint, and the same is left to be checked. -/
theorem push_again :
    (rules.push columns pushed.handle c = none ↔
      ∀ entry ∈ c.entries, (rules.takes? columns entry).isSome = true →
        ∃ d, pushed.handle.constraint.domain? entry.column.name = some d ∧
          d.MeetsOnce entry.domain) ∧
    ((∀ entry ∈ c.entries, (rules.takes? columns entry).isSome = true → entry.domain.Apart) →
      rules.push columns pushed.handle c = none) ∧
    ∀ again, rules.push columns pushed.handle c = some again →
      (∀ a : Assignment, again.handle.constraint.holds a = true ↔
        pushed.handle.constraint.holds a = true) ∧
      again.handle = pushed.handle.withConstraint again.handle.constraint ∧
      again.remaining = pushed.remaining := by
  refine ⟨push_again_eq_none_iff hh hc hpush, ?_, ?_⟩
  · intro hapart
    rw [push_again_eq_none_iff hh hc hpush]
    intro entry he htakes
    obtain ⟨e, hdomain⟩ := exists_domain?_of_push hh hc hpush he htakes
    exact ⟨_, hdomain, Domain.meetsOnce_of_apart (hapart entry he htakes) e⟩
  · intro again hagain
    have htaken : (rules.taken columns c).WellFormed := wellFormed_taken hc
    have hmerged : pushed.handle.constraint = h.constraint.intersect (rules.taken columns c) :=
      congrArg (fun p : Pushed => p.handle.constraint) (push_eq_some hpush)
    have hwell : pushed.handle.constraint.WellFormed :=
      hmerged ▸ Constraint.wellFormed_intersect hh htaken
    rw [push_eq_some hagain]
    refine ⟨?_, rfl, (congrArg Pushed.remaining (push_eq_some hpush)).symm⟩
    intro a
    show (pushed.handle.constraint.intersect (rules.taken columns c)).holds a = true ↔ _
    rw [Constraint.holds_intersect hwell htaken, hmerged, Constraint.holds_intersect hh htaken,
      and_assoc, and_self]

end Again

/-- The issues of one owner that changed in some period. -/
def recentIssues : Constraint :=
  ⟨[⟨⟨"owner", .varchar⟩, .single (.varchar "o")⟩,
    ⟨⟨"updated_at", .timestamp⟩,
      .ranges [⟨.inclusive (.timestamp 3), .exclusive (.timestamp 5)⟩,
        .greaterThan (.timestamp 8)]⟩]⟩

/-- The two periods are apart, so to want them once more of the open issues changes nothing. -/
theorem push_again_recentIssues :
    ∃ pushed,
      Github.issueRules.push (Github.Issue.columns.map Column.ref) openIssues recentIssues =
        some pushed ∧
      Github.issueRules.push (Github.Issue.columns.map Column.ref) pushed.handle recentIssues =
        none := by
  have hopen : openIssues.constraint.WellFormed := by decide +kernel
  have hrecent : recentIssues.WellFormed := by decide +kernel
  cases hpush : Github.issueRules.push (Github.Issue.columns.map Column.ref) openIssues
      recentIssues with
  | none =>
    -- then the handle would say something about the owner
    have howner : (⟨⟨"owner", .varchar⟩, .single (.varchar "o")⟩ : ColumnDomain) ∈
      recentIssues.entries := List.mem_cons_self
    have htakes : (Github.issueRules.takes? (Github.Issue.columns.map Column.ref)
      ⟨⟨"owner", .varchar⟩, .single (.varchar "o")⟩).isSome = true := by decide +kernel
    obtain ⟨d, hd, -⟩ := exists_domain?_of_takes hopen hrecent howner htakes
    rw [intersect_eq_of_push_eq_none hopen hpush] at hd
    cases hd
  | some pushed =>
    obtain ⟨-, hapart, -⟩ := push_again hopen hrecent hpush
    exact ⟨pushed, rfl, hapart (by decide +kernel)⟩

/-- The issues that changed after one of some times. -/
def changedIssues (times : List Int64) : Constraint :=
  ⟨[⟨⟨"updated_at", .timestamp⟩, .ranges (times.map fun time => .greaterThan (.timestamp time))⟩]⟩

/-- **Ranges that overlap are written more often with every push**: two of them after the first, four
after the second. -/
theorem push_again_of_overlap :
    (changedIssues [3, 5]).WellFormed ∧
    ∃ pushed again : Pushed,
      Github.issueRules.push (Github.Issue.columns.map Column.ref)
        (.ofTable ⟨"github", "issues"⟩) (changedIssues [3, 5]) = some pushed ∧
      pushed.handle.constraint = changedIssues [3, 5] ∧
      Github.issueRules.push (Github.Issue.columns.map Column.ref) pushed.handle
        (changedIssues [3, 5]) = some again ∧
      again.handle.constraint = changedIssues [3, 5, 5, 5] ∧ again.handle ≠ pushed.handle := by
  refine ⟨by decide +kernel,
    ⟨(TableHandle.ofTable ⟨"github", "issues"⟩).withConstraint (changedIssues [3, 5]),
      changedIssues [3, 5]⟩,
    ⟨(TableHandle.ofTable ⟨"github", "issues"⟩).withConstraint (changedIssues [3, 5, 5, 5]),
      changedIssues [3, 5]⟩, ?_, rfl, ?_, rfl, ?_⟩ <;> decide +kernel

end RemoteTables.FilterRules
