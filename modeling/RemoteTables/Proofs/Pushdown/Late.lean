import RemoteTables.Proofs.Pushdown.Reached

/-!
# Late filters narrow exactly

A late filter reaches the splits by way of several steps: its sender publishes constraints, the last
of them is pushed onto a handle that planning has reached, and the result is exploded. Here the steps
are taken together. `late_filter_narrows_exactly` says what becomes of an assignment of literals to
columns: one that satisfies the handle and the filter is in exactly one split, and one that is in a
split satisfies the handle and all of the filter that the table enforces. Nothing else of a handle
changes.

Two facts carry this. The parts of an explosion divide the assignments of the whole constraint, not
only of what is enforced of it, since a column that is merely bounded is the same in every part
(`countP_holds_explode`). And a push, whether it changes the handle or not, leaves the conjunction of
what was there and what the table takes (`push_getD`).
-/

set_option autoImplicit false

namespace RemoteTables

/-! ## What the sender leaves behind -/

namespace LateFilter

/-- The filter after steps of its sender, if the sender was there to take them. -/
def after? (f : LateFilter) (sent : List Step) : Option LateFilter := sent.foldlM step? f

/-- What a step publishes. -/
def Step.published? : Step → Option Constraint
  | .update c | .complete c => some c
  | .leave => none

/-- The constraint published last; nothing is restricted before the first one. -/
def lastPublished (sent : List Step) : Constraint :=
  (sent.filterMap Step.published?).getLast?.getD .all

theorem current_step? {f g : LateFilter} {step : Step} (h : f.step? step = some g) :
    g.current = step.published?.getD f.current := by
  cases step with
  | update c =>
    simp only [step?] at h
    split at h
    · obtain rfl := Option.some.inj h
      rfl
    · cases h
  | complete c =>
    simp only [step?] at h
    split at h
    · obtain rfl := Option.some.inj h
      rfl
    · cases h
  | leave =>
    obtain rfl := Option.some.inj h
    rfl

/-- **What was published last stays**, be it final or not, and also when the sender is gone. -/
theorem current_after? {f g : LateFilter} {sent : List Step} (h : f.after? sent = some g) :
    g.current = (sent.filterMap Step.published?).getLast?.getD f.current := by
  induction sent generalizing f with
  | nil =>
    obtain rfl := Option.some.inj h
    rfl
  | cons first rest ih =>
    rw [after?, List.foldlM_cons] at h
    obtain ⟨next, hnext, hrest⟩ := Option.bind_eq_some_iff.mp h
    rw [ih hrest, current_step? hnext]
    cases hpublished : first.published? with
    | none => rw [List.filterMap_cons_none hpublished, Option.getD_none]
    | some c =>
      rw [List.filterMap_cons_some hpublished, List.getLast?_cons, Option.getD_some,
        Option.getD_some]

theorem wellFormed_lastPublished {sent : List Step}
    (h : ∀ step ∈ sent, ∀ published ∈ step.published?, published.WellFormed) :
    (lastPublished sent).WellFormed := by
  rw [lastPublished]
  cases hlast : (sent.filterMap Step.published?).getLast? with
  | none => exact Constraint.wellFormed_all
  | some d =>
    obtain ⟨step, hstep, hd⟩ := List.mem_filterMap.mp (List.mem_of_getLast? hlast)
    exact h step hstep d hd

end LateFilter

/-! ## The parts of a handle divide its assignments -/

namespace FilterRules

variable {rules : FilterRules} {columns : List ColumnRef}

/-- **An assignment that satisfies a handle satisfies exactly one of the handles that it explodes
into, and any other assignment none.** -/
theorem countP_holds_explode {h : TableHandle} (hwell : h.constraint.WellFormed) (a : Assignment) :
    (rules.explode h).countP (fun part => part.constraint.holds a) =
      if h.constraint.holds a then 1 else 0 :=
  countP_holds_parts hwell.nodup (fun entry he => (hwell.2 entry he).2) a

theorem holds_of_holds_part {h part : TableHandle} (hwell : h.constraint.WellFormed)
    (hpart : part ∈ rules.explode h) {a : Assignment} (hheld : part.constraint.holds a = true) :
    h.constraint.holds a = true := by
  exact eq_true_of_countP (countP_holds_explode hwell a) hpart hheld

end FilterRules

/-! ## The splits under a late filter -/

namespace TableDefinition

variable {ρ β : Type} {c : Connector ρ β} {t : TableDefinition ρ β} {h : TableHandle}

/-- A late filter is pushed like any other constraint. -/
theorem narrow_eq (ht : c.tableFor h.table = .ok t) (hwell : h.constraint.WellFormed)
    (late : LateFilter) : c.narrow h (some late) =
      .ok (h.withConstraint
        (h.constraint.intersect (t.narrowing.taken t.references late.current))) := by
  obtain ⟨pushed, hpushed, hhandle⟩ := exists_applyFilter ht hwell late.current
  rw [Connector.narrow, LateFilter.awaited_eq, hpushed, ← hhandle]
  rfl

/-- Without page windows the splits are the parts that the narrowed handle explodes into. -/
theorem splits_late (ht : c.tableFor h.table = .ok t) (hwell : h.constraint.WellFormed)
    (hwindows : c.settings.splitsFor t.name ≤ 1) (late : LateFilter) :
    c.splits h (some late) = .ok ((t.narrowing.explode (h.withConstraint
      (h.constraint.intersect (t.narrowing.taken t.references late.current)))).map
        Split.ofHandle) := by
  have hnarrow := narrow_eq ht hwell late
  generalize h.constraint.intersect (t.narrowing.taken t.references late.current) = merged
    at hnarrow ⊢
  have hsplits : c.splits h (some late) = c.splits (h.withConstraint merged) none := by
    rw [Connector.splits, hnarrow]
    rfl
  have hshares : Connector.shares (c.settings.splitsFor t.name) = fun h => [h] :=
    funext fun h => if_pos hwindows
  rw [hsplits, Connector.splits_eq_shares (h := h.withConstraint merged) ht, explode_eq, hshares,
    List.flatMap_singleton']

end TableDefinition

/-- **Splits under a late filter narrow a handle exactly.** Planning has reached a handle, the sender
of a late filter has taken its steps, and the handle is split without page windows. An assignment
that satisfies the handle and the constraint published last satisfies exactly one split. One that
satisfies a split satisfies the handle, and every published entry on an equality column of the table
that is written as points. The splits differ from the handle in the constraint alone. Whether that
constraint was final, and whether the sender is still there, makes no difference. -/
theorem late_filter_narrows_exactly {ρ β : Type} {c : Connector ρ β} {name : TableName}
    {t : TableDefinition ρ β} (ht : c.tableFor name = .ok t)
    (hwindows : c.settings.splitsFor t.name ≤ 1) {steps : List PlanningStep}
    (hsteps : ∀ entries, .filter entries ∈ steps → ∀ entry ∈ entries, entry.domain.WellFormed)
    {h : TableHandle} (hreached : c.reach (.ofTable name) steps = h)
    {sent : List LateFilter.Step}
    (hsent : ∀ step ∈ sent, ∀ published ∈ step.published?, published.WellFormed)
    {late : LateFilter} (hlate : LateFilter.fresh.after? sent = some late)
    {d : Constraint} (hlast : LateFilter.lastPublished sent = d) :
    ∃ splits, c.splits h (some late) = .ok splits ∧
      (∀ a : Assignment, h.constraint.holds a = true → d.holds a = true →
        splits.countP (fun split => split.handle.constraint.holds a) = 1) ∧
      (∀ split ∈ splits, ∀ a : Assignment, split.handle.constraint.holds a = true →
        h.constraint.holds a = true ∧
        ∀ entry ∈ d.entries, entry.column ∈ t.references →
          t.narrowing.kindOf entry.column.name = .equal →
          entry.domain.discreteValues?.isSome = true → entry.holds a = true) ∧
      (∀ split ∈ splits, ∃ constraint, split = .ofHandle (h.withConstraint constraint)) ∧
      ∀ others other, LateFilter.fresh.after? others = some other →
        LateFilter.lastPublished others = d → c.splits h (some other) = .ok splits := by
  have hplanned : t.Planned name steps 1 h :=
    hreached ▸ TableDefinition.planned_reach ht TableDefinition.planned_start steps hsteps
  have hht : c.tableFor h.table = .ok t := hplanned.table ▸ ht
  have hwell : h.constraint.WellFormed := hplanned.constraint.wellFormed
  have hcurrent : late.current = d := (LateFilter.current_after? hlate).trans hlast
  have hpublished : d.WellFormed := hlast ▸ LateFilter.wellFormed_lastPublished hsent
  have htaken : (t.narrowing.taken t.references d).WellFormed :=
    Constraint.wellFormed_filter hpublished _
  have hmerged := Constraint.wellFormed_intersect hwell htaken
  refine ⟨_, hcurrent ▸ TableDefinition.splits_late hht hwell hwindows late, ?_, ?_, ?_, ?_⟩
  · intro a hheld hd
    -- what the table takes of the filter is a part of it
    have htakenHeld : (t.narrowing.taken t.references d).holds a = true := by
      rw [FilterRules.taken, Constraint.holds_filter]
      exact fun entry he _ => Constraint.holds_iff.mp hd entry he
    rw [List.countP_map]
    refine (FilterRules.countP_holds_explode (h := h.withConstraint _) hmerged a).trans (if_pos ?_)
    exact (Constraint.holds_intersect hwell htaken a).mpr ⟨hheld, htakenHeld⟩
  · intro split hsplit a hheld
    obtain ⟨part, hpart, rfl⟩ := List.mem_map.mp hsplit
    have hwhole := FilterRules.holds_of_holds_part (h := h.withConstraint _) hmerged hpart hheld
    obtain ⟨hold, hnew⟩ := (Constraint.holds_intersect hwell htaken a).mp hwhole
    refine ⟨hold, fun entry he hcolumn hkind hdiscrete => ?_⟩
    rw [FilterRules.taken, Constraint.holds_filter] at hnew
    refine hnew entry he ?_
    rw [FilterRules.takes?_eq_equal.mpr ⟨hcolumn, hkind, hdiscrete⟩, Option.isSome_some]
  · intro split hsplit
    obtain ⟨part, hpart, rfl⟩ := List.mem_map.mp hsplit
    have hrest := FilterRules.narrows_of_mem_explode (h := h.withConstraint _) hmerged.nodup hpart
    exact ⟨part.constraint, congrArg Split.ofHandle hrest.1⟩
  · intro others other hother hsame
    have hcurrentOther : other.current = d := (LateFilter.current_after? hother).trans hsame
    rw [TableDefinition.splits_late hht hwell hwindows, hcurrentOther]

/-- What the sender finds out about the owners of repositories, also in a column that is not theirs,
before it goes away. -/
def Github.ownersFound : List LateFilter.Step :=
  [.update ⟨[⟨⟨"owner", .varchar⟩, .single (.varchar "o")⟩]⟩,
    .complete ⟨[⟨⟨"owner", .varchar⟩, .ofList [.varchar "q", .varchar "p", .varchar "x"]⟩,
      ⟨⟨"team", .varchar⟩, .ranges [.greaterThan (.varchar "c")]⟩]⟩,
    .leave]

/-- The repositories of three owners, not more than 50. -/
def Github.threeOwners : TableHandle :=
  ⟨⟨"github", "repos"⟩, ⟨[⟨⟨"owner", .varchar⟩,
    .ofList [.varchar "o", .varchar "p", .varchar "q"]⟩]⟩, 0, 50, 1, none⟩

/-- A repository of an owner in a team. -/
def Github.ownedIn (owner team : String) : Assignment := fun column =>
  [("owner", .varchar owner), ("team", .varchar team)].lookup column

/-- A repository of an owner who was planned and found is in one of the splits, all of which read at
most 50. -/
theorem late_filter_narrows_exactly_repos :
    ∃ late splits, LateFilter.fresh.after? Github.ownersFound = some late ∧
      (Github.connector .standard).splits Github.threeOwners (some late) = .ok splits ∧
      splits.countP (fun split => split.handle.constraint.holds (Github.ownedIn "q" "d")) = 1 ∧
      ∀ split ∈ splits, split.handle.limit = 50 := by
  have hpushed : (Github.connector .standard).applyFilter (.ofTable ⟨"github", "repos"⟩)
      (.ofEntries Github.threeOwners.constraint.entries) =
        .ok (some ⟨Github.threeOwners.withLimit noLimit, .all⟩) :=
    (Connector.applyFilter_eq rfl rfl _).trans (congrArg Except.ok (by decide +kernel))
  have hreached : (Github.connector .standard).reach (.ofTable ⟨"github", "repos"⟩)
      [.filter Github.threeOwners.constraint.entries, .limit 50] = Github.threeOwners := by
    rw [Connector.reach, List.foldl_cons, Connector.take, hpushed]
    rfl
  have hsteps : ∀ entries, .filter entries ∈
      [PlanningStep.filter Github.threeOwners.constraint.entries, .limit 50] →
      ∀ entry ∈ entries, entry.domain.WellFormed := by
    intro entries hentries
    obtain rfl : entries = _ := by simpa using hentries
    exact List.forall_mem_singleton.mpr (Domain.wellFormed_ofList _)
  have hsent : ∀ step ∈ Github.ownersFound, ∀ published ∈ step.published?,
      published.WellFormed := by
    decide +kernel
  obtain ⟨splits, hsplits, hone, -, hsame, -⟩ :=
    late_filter_narrows_exactly rfl (by decide) hsteps hreached hsent rfl rfl
  refine ⟨_, splits, rfl, hsplits, hone (Github.ownedIn "q" "d") ?_ ?_, fun split hsplit => ?_⟩
  · decide +kernel
  · decide +kernel
  · obtain ⟨constraint, rfl⟩ := hsame split hsplit
    rfl

end RemoteTables
