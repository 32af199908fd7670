import RemoteTables.Proofs.Sets.Constraints
import RemoteTables.Github.Entity.Issue
import RemoteTables.Github.Filter

/-!
# A push conserves the predicate

A constraint that is pushed onto a handle goes two ways: into what the table takes and into what the
engine still has to check. The two overlap where the table only bounds a column, and what is taken
is merged with what the handle carries already. Nothing is lost on the way, and nothing is made up:
the handle and the constraint say together what the new handle and the rest say together
(`push_conserves`).

Where the push counts as no change there is no new handle. Then the old one says all that would have
been taken, which is read off the equation for both cases, `push_getD`.
-/

set_option autoImplicit false

namespace RemoteTables

/-- Of an intersection, a column that one side restricts has a domain within that side's. -/
theorem Constraint.exists_domain?_intersect {a b : Constraint} (ha : a.WellFormed)
    (hb : b.WellFormed) {entry : ColumnDomain} (he : entry ∈ b.entries) :
    ∃ d, (a.intersect b).domain? entry.column.name = some d ∧
      ∀ v, d.includes v = true → entry.domain.includes v = true := by
  have hname : entry.column.name ∈ (a.intersect b).columnNames :=
    (mem_columnNames_intersect ha hb).mpr (Or.inr (List.mem_map_of_mem he))
  obtain ⟨merged, hmerged, hsame⟩ := List.mem_map.mp hname
  have hdomain : (a.intersect b).domain? entry.column.name = some merged.domain :=
    hsame ▸ domain?_of_mem (wellFormed_intersect ha hb).nodup hmerged
  refine ⟨merged.domain, hdomain, fun v hv => ?_⟩
  have hallowed : (a.intersect b).allows entry.column.name v = true := by
    rw [allows, hdomain]
    exact hv
  exact (allows_iff hb.nodup).mp ((allows_intersect ha hb _ v).mp hallowed).2 entry he rfl

namespace FilterRules

variable {rules : FilterRules} {columns : List ColumnRef}

/-! ## What a table takes -/

/-- An entry is taken as its column is declared, if the column is one of the table's and one that it
narrows, and only as points if it is to be enforced. -/
theorem takes?_eq_some_iff {entry : ColumnDomain} {kind : FilterKind} :
    rules.takes? columns entry = some kind ↔ entry.column ∈ columns ∧
      rules.kindOf entry.column.name = kind ∧
      (kind = .range ∨ kind = .equal ∧ entry.domain.discreteValues?.isSome = true) := by
  unfold takes?
  by_cases hcolumn : entry.column ∈ columns
  · rw [if_pos (List.contains_iff_mem.mpr hcolumn)]
    cases rules.kindOf entry.column.name <;> cases kind <;>
      simp [hcolumn, Option.isSome_iff_ne_none]
  · rw [if_neg (by simpa using hcolumn)]
    simp [hcolumn]

/-- An entry is enforced if its column is an equality column of the table and its domain is written
as points. -/
theorem takes?_eq_equal {entry : ColumnDomain} :
    rules.takes? columns entry = some .equal ↔ entry.column ∈ columns ∧
      rules.kindOf entry.column.name = .equal ∧
      entry.domain.discreteValues?.isSome = true := by
  simp [takes?_eq_some_iff]

/-- An entry is taken if its column is one of the table's, and one that the table bounds or can
enforce. -/
theorem takes?_isSome_iff {entry : ColumnDomain} :
    (rules.takes? columns entry).isSome = true ↔ entry.column ∈ columns ∧
      (rules.kindOf entry.column.name = .range ∨ rules.kindOf entry.column.name = .equal ∧
        entry.domain.discreteValues?.isSome = true) := by
  simp [Option.isSome_iff_exists (x := rules.takes? columns entry), takes?_eq_some_iff]

/-- **What is taken and what is left are together the whole**, though a column that is only bounded
is in both. -/
theorem holds_taken_and_left {c : Constraint} {a : Assignment} :
    (rules.taken columns c).holds a = true ∧ (rules.left columns c).holds a = true ↔
      c.holds a = true := by
  rw [taken, left, Constraint.holds_filter, Constraint.holds_filter, Constraint.holds_iff]
  constructor
  · rintro ⟨htaken, hleft⟩ entry he
    by_cases henforced : rules.takes? columns entry = some .equal
    · exact htaken entry he (by rw [henforced, Option.isSome_some])
    · exact hleft entry he (by simpa using henforced)
  · intro hheld
    exact ⟨fun entry he _ => hheld entry he, fun entry he _ => hheld entry he⟩

theorem wellFormed_taken {c : Constraint} (hc : c.WellFormed) :
    (rules.taken columns c).WellFormed :=
  Constraint.wellFormed_filter hc _

/-- Without rules nothing is taken. -/
theorem taken_nil (c : Constraint) : FilterRules.taken [] columns c = .all := by
  have hnothing : ∀ entry ∈ c.entries, ¬(FilterRules.takes? [] columns entry).isSome = true := by
    intro entry _
    simp [takes?, kindOf]
  rw [taken, Constraint.filter, List.filter_eq_nil_iff.mpr hnothing]
  rfl

/-! ## What a push leaves -/

theorem push_eq_some {h : TableHandle} {c : Constraint} {pushed : Pushed}
    (hpush : rules.push columns h c = some pushed) :
    pushed = ⟨h.withConstraint (h.constraint.intersect (rules.taken columns c)),
      rules.left columns c⟩ := by
  simp only [push] at hpush
  split at hpush
  · cases hpush
  · split at hpush
    · cases hpush
    · exact (Option.some.inj hpush).symm

/-- **A push leaves the conjunction of what was there and what the table takes**, also where it
counts as no change. -/
theorem push_getD {h : TableHandle} (hwell : h.constraint.WellFormed) (c : Constraint) :
    ((rules.push columns h c).map Pushed.handle).getD h =
      h.withConstraint (h.constraint.intersect (rules.taken columns c)) := by
  simp only [push]
  by_cases hnothing : c.isAll = true
  · obtain ⟨entries⟩ := c
    obtain rfl : entries = [] := List.isEmpty_iff.mp hnothing
    have hsame : h.constraint.intersect (rules.taken columns ⟨[]⟩) = h.constraint :=
      Constraint.intersect_all hwell
    rw [if_pos hnothing, hsame]
    rfl
  · rw [if_neg hnothing]
    by_cases hsame : h.constraint.intersect (rules.taken columns c) = h.constraint
    · rw [if_pos hsame, hsame]
      rfl
    · rw [if_neg hsame]
      rfl

/-- A push that changes nothing finds all that it would take in the handle. -/
theorem intersect_eq_of_push_eq_none {h : TableHandle} (hwell : h.constraint.WellFormed)
    {c : Constraint} (hpush : rules.push columns h c = none) :
    h.constraint.intersect (rules.taken columns c) = h.constraint := by
  have hsame : ((rules.push columns h c).map Pushed.handle).getD h =
      h.withConstraint (h.constraint.intersect (rules.taken columns c)) := push_getD hwell c
  rw [hpush, Option.map_none, Option.getD_none] at hsame
  exact (congrArg TableHandle.constraint hsame).symm

/-- A handle without constraint ends up with what the table takes, also where that is nothing. -/
theorem push_onto_all {h : TableHandle} (hall : h.constraint = .all) {c : Constraint}
    (hc : c.WellFormed) :
    ((rules.push columns h c).map Pushed.handle).getD h =
      h.withConstraint (rules.taken columns c) := by
  have hmerged : Constraint.all.intersect (rules.taken columns c) = rules.taken columns c :=
    Constraint.all_intersect (wellFormed_taken hc)
  rw [push_getD (hall ▸ Constraint.wellFormed_all), hall, hmerged]

/-- Of a pushed entry nothing is left exactly if the table enforces it. -/
theorem not_leaves_iff {h : TableHandle} {c : Constraint} (hc : c.WellFormed) {pushed : Pushed}
    (hpush : rules.push columns h c = some pushed) {entry : ColumnDomain} (he : entry ∈ c.entries) :
    pushed.leaves entry.column.name = false ↔ rules.takes? columns entry = some .equal := by
  rw [push_eq_some hpush, Pushed.leaves, Option.isSome_eq_false_iff, Option.isNone_iff_eq_none,
    Constraint.domain?_eq_none_iff]
  constructor
  · intro hnone
    by_cases henforced : rules.takes? columns entry = some .equal
    · exact henforced
    · exact absurd rfl (hnone entry (List.mem_filter.mpr ⟨he, by simpa using henforced⟩))
  · intro henforced other ho hname
    obtain ⟨ho, hleft⟩ := List.mem_filter.mp ho
    rw [Constraint.entry_eq_of_name_eq hc.nodup ho he hname, henforced] at hleft
    exact absurd hleft (by decide)

/-- What is taken of a column restricts it in the intersection with a handle's constraint. -/
theorem exists_domain?_of_takes {c other : Constraint} (hother : other.WellFormed)
    (hc : c.WellFormed) {entry : ColumnDomain} (he : entry ∈ c.entries)
    (htakes : (rules.takes? columns entry).isSome = true) :
    ∃ d, (other.intersect (rules.taken columns c)).domain? entry.column.name = some d ∧
      ∀ v, d.includes v = true → entry.domain.includes v = true :=
  Constraint.exists_domain?_intersect hother (wellFormed_taken hc)
    (List.mem_filter.mpr ⟨he, htakes⟩)

variable (rules columns) in
/-- **A push conserves the predicate.** If it changes the handle, then the handle and the constraint
are satisfied by the same assignments as the new handle and the rest. The rest lacks a column of the
constraint exactly if it is declared, in name and type, as an equality column, and its domain is
written as points; the new handle then gives that column no literal that the constraint does not.
Beside its constraint the new handle is the old one.

If a push does not change the handle, then whatever the table would take, as an equality or as a
bound, the handle says already: it gives the column no literal that the constraint does not. -/
theorem push_conserves {h : TableHandle} (hh : h.constraint.WellFormed) {c : Constraint}
    (hc : c.WellFormed) :
    (∀ pushed, rules.push columns h c = some pushed →
      (∀ a : Assignment, h.constraint.holds a = true ∧ c.holds a = true ↔
        pushed.handle.constraint.holds a = true ∧ pushed.remaining.holds a = true) ∧
      (∀ entry ∈ c.entries, pushed.remaining.domain? entry.column.name = none ↔
        entry.column ∈ columns ∧ rules.kindOf entry.column.name = .equal ∧
          entry.domain.discreteValues?.isSome = true) ∧
      (∀ entry ∈ c.entries, pushed.remaining.domain? entry.column.name = none →
        ∃ d, pushed.handle.constraint.domain? entry.column.name = some d ∧
          ∀ v, d.includes v = true → entry.domain.includes v = true) ∧
      pushed.handle = h.withConstraint pushed.handle.constraint) ∧
    (rules.push columns h c = none → ∀ entry ∈ c.entries, entry.column ∈ columns →
      (rules.kindOf entry.column.name = .range ∨ rules.kindOf entry.column.name = .equal ∧
        entry.domain.discreteValues?.isSome = true) →
      ∃ d, h.constraint.domain? entry.column.name = some d ∧
        ∀ v, d.includes v = true → entry.domain.includes v = true) := by
  constructor
  · intro pushed hpush
    have habsent : ∀ entry ∈ c.entries, pushed.remaining.domain? entry.column.name = none ↔
        rules.takes? columns entry = some .equal := by
      intro entry he
      rw [← not_leaves_iff hc hpush he, Pushed.leaves, Option.isSome_eq_false_iff,
        Option.isNone_iff_eq_none]
    refine ⟨fun a => ?_, fun entry he => (habsent entry he).trans takes?_eq_equal,
      fun entry he hnone => ?_, ?_⟩
    · rw [push_eq_some hpush]
      show _ ↔ (h.constraint.intersect (rules.taken columns c)).holds a = true ∧
        (rules.left columns c).holds a = true
      rw [Constraint.holds_intersect hh (wellFormed_taken hc), and_assoc,
        holds_taken_and_left]
    · have htakes : (rules.takes? columns entry).isSome = true := by
        rw [(habsent entry he).mp hnone, Option.isSome_some]
      rw [push_eq_some hpush]
      exact exists_domain?_of_takes hh hc he htakes
    · rw [push_eq_some hpush]
      rfl
  · intro hpush entry he hcolumn hkind
    have htaken := exists_domain?_of_takes hh hc he (takes?_isSome_iff.mpr ⟨hcolumn, hkind⟩)
    rwa [intersect_eq_of_push_eq_none hh hpush] at htaken

/-- The open issues. -/
def openIssues : TableHandle :=
  (TableHandle.ofTable ⟨"github", "issues"⟩).withConstraint
    ⟨[⟨⟨"state", .varchar⟩, .single (.varchar "open")⟩]⟩

/-- What is wanted of the issues: either of two owners, a title, and a change in some period. -/
def wantedIssues : Constraint :=
  ⟨[⟨⟨"owner", .varchar⟩, .ofList [.varchar "o", .varchar "p"]⟩,
    ⟨⟨"title", .varchar⟩, .single (.varchar "t")⟩,
    ⟨⟨"updated_at", .timestamp⟩, .ranges [.greaterThan (.timestamp 5)]⟩]⟩

/-- Of what is wanted the owner is enforced, the title is left, and the time of the last change is
taken and left. To want of an open issue that it is open or closed changes nothing. -/
theorem push_conserves_openIssues :
    (∃ pushed,
      Github.issueRules.push (Github.Issue.columns.map Column.ref) openIssues wantedIssues =
        some pushed ∧
      pushed.remaining.columnNames = ["title", "updated_at"] ∧
      pushed.remaining.domain? "owner" = none ∧
      ∀ a : Assignment, openIssues.constraint.holds a = true ∧ wantedIssues.holds a = true ↔
        pushed.handle.constraint.holds a = true ∧ pushed.remaining.holds a = true) ∧
    ∃ d, openIssues.constraint.domain? "state" = some d ∧
      ∀ v, d.includes v = true →
        (Domain.ofList [.varchar "closed", .varchar "open"]).includes v = true := by
  have hhandle : openIssues.constraint.WellFormed := by decide +kernel
  constructor
  · obtain ⟨hchanged, hunchanged⟩ := push_conserves Github.issueRules
      (Github.Issue.columns.map Column.ref) hhandle (c := wantedIssues) (by decide +kernel)
    cases hpush : Github.issueRules.push (Github.Issue.columns.map Column.ref) openIssues
        wantedIssues with
    | none =>
      -- then the handle would say something about the owner
      obtain ⟨d, hd, -⟩ := hunchanged hpush
        ⟨⟨"owner", .varchar⟩, .ofList [.varchar "o", .varchar "p"]⟩ (by decide +kernel)
        (by decide +kernel) (Or.inr (by decide +kernel))
      cases hd
    | some pushed =>
      obtain ⟨hboth, habsent, -, -⟩ := hchanged pushed hpush
      refine ⟨pushed, rfl, ?_, ?_, hboth⟩
      · rw [push_eq_some hpush]
        decide +kernel
      · exact (habsent ⟨⟨"owner", .varchar⟩, .ofList [.varchar "o", .varchar "p"]⟩
          (by decide +kernel)).mpr (by decide +kernel)
  · obtain ⟨-, hunchanged⟩ := push_conserves Github.issueRules
      (Github.Issue.columns.map Column.ref) hhandle
      (c := ⟨[⟨⟨"state", .varchar⟩, .ofList [.varchar "closed", .varchar "open"]⟩]⟩)
      (by decide +kernel)
    exact hunchanged (by decide +kernel)
      ⟨⟨"state", .varchar⟩, .ofList [.varchar "closed", .varchar "open"]⟩
      (by decide +kernel) (by decide +kernel) (Or.inr (by decide +kernel))

end FilterRules
end RemoteTables
