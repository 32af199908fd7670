import RemoteTables.Proofs.Github.Consistent

/-!
# Splitting is transparent

A handle whose columns are bound to several values is read in one wide call, or in many narrow ones
after it was split. On a consistent server the splits together have the rows of the handle, in some
order (`splitting_transparent`).

Both sides are compared with the repository. A part comes to the rows of the repository that pass its
check, whatever its call is (`Consistent.agrees`), and so does the whole handle. So nothing
has to be said of calls any more, only of checks: each row that passes that of the handle passes that
of exactly one part (`FilterRules.countP_explode`). What page windows, parts and the windows of all
parts come to is said in one form, `TogetherHave`, which can be gathered over parts.
-/

set_option autoImplicit false

namespace RemoteTables

/-! ## Rows told apart by checks -/

section Rows

variable {ι γ : Type}

/-- One row, by the checks of all parts: it is there once for every check that it passes. -/
theorem flatMap_filter_singleton (parts : List ι) (p : ι → γ → Bool) (row : γ) :
    (parts.flatMap fun part => [row].filter (p part)) =
      List.replicate (parts.countP fun part => p part row) row := by
  induction parts with
  | nil => rfl
  | cons part rest ih =>
    rw [List.flatMap_cons, ih, List.countP_cons]
    by_cases hpass : p part row = true
    · rw [List.filter_cons_of_pos hpass, if_pos hpass, List.replicate_succ]
      rfl
    · rw [List.filter_cons_of_neg hpass, if_neg hpass]
      rfl

/-- If each row that passes a check passes that of one part, and any other row that of none, then
the parts have the rows that pass. -/
theorem perm_flatMap_filter {parts : List ι} {p : ι → γ → Bool} {q : γ → Bool}
    (h : ∀ row, (parts.countP fun part => p part row) = if q row then 1 else 0) (rows : List γ) :
    (parts.flatMap fun part => rows.filter (p part)).Perm (rows.filter q) := by
  -- row by row, because the parts have the rows in another order
  induction rows with
  | nil => exact .of_eq (List.flatMap_eq_nil_iff.mpr fun _ _ => rfl)
  | cons row rest ih =>
    have hfirst : (parts.flatMap fun part => [row].filter (p part)) = [row].filter q := by
      rw [flatMap_filter_singleton, h row]
      by_cases hq : q row = true
      · rw [if_pos hq, List.filter_cons_of_pos hq]
        rfl
      · rw [if_neg hq, List.filter_cons_of_neg hq]
        rfl
    have hparts : (fun part => (row :: rest).filter (p part)) =
        fun part => [row].filter (p part) ++ rest.filter (p part) :=
      funext fun part => List.filter_append (p := p part) [row] rest
    have hwhole : (row :: rest).filter q = [row].filter q ++ rest.filter q :=
      List.filter_append [row] rest
    rw [hparts, hwhole, ← hfirst]
    exact (List.flatMap_append_perm _ _ _).symm.trans (ih.append_left _)

end Rows

namespace Github

open Dialogue PageWindow

/-! ## The parts of a handle -/

/-- A repository is named by one value for the owner and one for the name. -/
theorem singleValue?_of_ofConstraint {c : Constraint} {scope : RepoScope}
    (h : RepoScope.ofConstraint repoRules c = .ok scope) :
    ∀ rule ∈ repoRules, ∃ v, (c.domain? rule.1).bind Domain.singleValue? = some v := by
  have hbound : ∀ rule ∈ repoRules, ∃ text, repoRules.boundString? c rule.1 = some text := by
    intro rule hrule
    have hrule' : rule.1 = "owner" ∨ rule.1 = "repo" := by
      rcases List.mem_cons.mp hrule with rfl | hrule
      · exact Or.inl rfl
      · exact Or.inr (congrArg Prod.fst (List.mem_singleton.mp hrule))
    unfold RepoScope.ofConstraint FilterRules.requireString at h
    cases howner : repoRules.boundString? c "owner" with
    | none =>
      rw [howner] at h
      cases h
    | some owner =>
      cases hrepo : repoRules.boundString? c "repo" with
      | none =>
        rw [howner, hrepo] at h
        cases h
      | some repo =>
        rcases hrule' with hname | hname
        · exact ⟨owner, hname ▸ howner⟩
        · exact ⟨repo, hname ▸ hrepo⟩
  intro rule hrule
  obtain ⟨text, htext⟩ := hbound rule hrule
  obtain ⟨v, hv, -⟩ := Option.bind_eq_some_iff.mp htext
  unfold FilterRules.boundValue? at hv
  split at hv
  · cases hv
  · exact ⟨v, hv⟩

section Parts

variable {rules : FilterRules} {whole part : Constraint} (h : FilterRules.Narrows rules whole part)
  (hwhole : whole.columnNames.Nodup)
include h hwhole

/-- A part is about the same repository. -/
theorem ofConstraint_of_narrows {scope : RepoScope}
    (hscope : RepoScope.ofConstraint repoRules whole = .ok scope) :
    RepoScope.ofConstraint repoRules part = .ok scope := by
  have hdomain : ∀ rule ∈ repoRules, part.domain? rule.1 = whole.domain? rule.1 := by
    intro rule hrule
    obtain ⟨v, hv⟩ := singleValue?_of_ofConstraint hscope rule hrule
    refine h.domain?_eq hwhole fun entry he hname => FilterRules.choices?_eq_none (Or.inl ?_)
    rw [← hname, Constraint.domain?_of_mem hwhole he] at hv
    exact Option.isSome_iff_exists.mpr ⟨v, hv⟩
  have howner := hdomain ("owner", .equal) List.mem_cons_self
  have hrepo := hdomain ("repo", .equal) (List.mem_cons_of_mem _ List.mem_cons_self)
  rw [← hscope]
  unfold RepoScope.ofConstraint FilterRules.requireString FilterRules.boundString?
    FilterRules.boundValue?
  rw [howner, hrepo]

/-- And about the same times, for times are no points to be split. -/
theorem updatedSince_of_narrows (hkind : rules.kindOf "updated_at" ≠ .equal) :
    updatedSince part = updatedSince whole := by
  unfold updatedSince
  rw [h.domain?_eq hwhole fun entry _ hname =>
    FilterRules.choices?_eq_none (Or.inr (hname.symm ▸ hkind))]

end Parts

theorem kindOf_updated_at {t : TableDefinition Request Reply} (ht : t ∈ tables)
    {rules : FilterRules} (hrules : t.rules = some rules) : rules.kindOf "updated_at" ≠ .equal := by
  simp only [tables, List.mem_cons, List.not_mem_nil, or_false] at ht
  rcases ht with rfl | rfl | rfl | rfl | rfl | rfl | rfl | rfl | rfl | rfl | rfl
  all_goals
    obtain rfl := Option.some.inj hrules
    decide

theorem splitsFor_pos (settings : Settings) (table : String) : 0 < settings.splitsFor table := by
  have hpositive : ∀ n : UInt32, 0 < max n 1 := by
    intro n
    show 0 < if n ≤ 1 then 1 else n
    split
    · decide
    · rename_i habove
      rw [UInt32.le_iff_toNat_le] at habove
      rw [UInt32.lt_iff_toNat_lt]
      exact Nat.lt_trans Nat.zero_lt_one (Nat.lt_of_not_le habove)
  unfold Settings.splitsFor
  split
  · exact hpositive _
  · decide

/-! ## Handles that are read together -/

/-- Whether handles are all read to an end and together have some rows, in some order, if these are
not more than a handle without limit can give. -/
def TogetherHave (t : TableDefinition Request Reply) (answer : Request → Reply)
    (handles : List TableHandle) (rows : List Row) : Prop :=
  ∃ parts : List (List Row),
    (handles.map fun h => (t.read h).answered answer) = parts.map Outcome.done ∧
      (rows.length ≤ noLimit.toNat → parts.flatten.Perm rows)

section TogetherHave

variable {t : TableDefinition Request Reply} {answer : Request → Reply}

theorem TogetherHave.perm {handles : List TableHandle} {rows others : List Row}
    (h : TogetherHave t answer handles rows) (hperm : rows.Perm others) :
    TogetherHave t answer handles others := by
  obtain ⟨parts, hparts, hrows⟩ := h
  refine ⟨parts, hparts, fun hshort => ?_⟩
  rw [← hperm.length_eq] at hshort
  exact (hrows hshort).trans hperm

/-- What is known of every part is known of all of them. -/
theorem TogetherHave.flatMap {ι : Type} {parts : List ι} {handles : ι → List TableHandle}
    {rows : ι → List Row} (h : ∀ part ∈ parts, TogetherHave t answer (handles part) (rows part)) :
    TogetherHave t answer (parts.flatMap handles) (parts.flatMap rows) := by
  induction parts with
  | nil => exact ⟨[], rfl, fun _ => .refl _⟩
  | cons part rest ih =>
    obtain ⟨hfirst, hrest⟩ := List.forall_mem_cons.mp h
    obtain ⟨shares, hshares, hperm⟩ := hfirst
    obtain ⟨others, hothers, hperms⟩ := ih hrest
    refine ⟨shares ++ others, ?_, fun hshort => ?_⟩
    · rw [List.flatMap_cons, List.map_append, hshares, hothers, List.map_append]
    · rw [List.flatMap_cons, List.length_append] at hshort
      rw [List.flatMap_cons, List.flatten_append]
      exact (hperm (by omega)).append (hperms (by omega))

end TogetherHave

/-! ## A part and the repository -/

/-- The rows of a repository that a handle is about, before any check. -/
def Contents.rowsFor (contents : Contents) (scope : RepoScope) (t : TableDefinition Request Reply)
    (h : TableHandle) : List Row :=
  contents.rows scope (updatedSince h.constraint) (t.sortOf h) t.name

section Repository

variable {scope : RepoScope} {contents : Contents} {windows : UInt32} {answer : Request → Reply}
  (hconsistent : Consistent scope contents windows.toNat answer) (hwindows : 0 < windows)
  {t : TableDefinition Request Reply} (ht : t ∈ tables) (hname : t.name ∈ splitTables)
  {rules : FilterRules} (hrules : t.rules = some rules) {h : TableHandle}
  (hlimit : h.limit = noLimit) (hwindow : h.window = .whole)
  (hscope : RepoScope.ofConstraint repoRules h.constraint = .ok scope)
  (hnone : h.constraint.isNone = false)
include hconsistent hwindows ht hname hrules hlimit hwindow hscope hnone

/-- **A handle comes to the rows of the repository that pass its check.** -/
theorem answered_repository :
    (t.read h).answered answer =
      .done (((contents.rowsFor scope t h).filter (t.passes rules h.constraint)).take
        noLimit.toNat) := by
  have hstride := UInt32.lt_iff_toNat_lt.mp hwindows
  obtain ⟨reading, hreading, found, hserved, hfound⟩ :=
    hconsistent.agrees hscope (t.sortOf h) hstride ht hname hrules
  rw [answered_whole ht hrules hnone hreading hserved hwindow (by rw [hlimit]; decide) hstride,
    hfound, hlimit]
  rfl

/-- And so it does in page windows. -/
theorem answered_shares :
    TogetherHave t answer (Connector.shares windows h)
      ((contents.rowsFor scope t h).filter (t.passes rules h.constraint)) := by
  unfold Connector.shares
  split
  · refine ⟨[_], congrArg (fun outcome => [outcome]) (answered_repository hconsistent hwindows ht
      hname hrules hlimit hwindow hscope hnone), fun hshort => ?_⟩
    rw [List.flatten_singleton, List.take_of_length_le hshort]
  · obtain ⟨reading, hreading, found, hserved, hfound⟩ := hconsistent.agrees hscope (t.sortOf h)
      (UInt32.lt_iff_toNat_lt.mp hwindows) ht hname hrules
    obtain ⟨parts, hparts, hall, -⟩ := answered_cut ht hrules hnone hreading hserved
      (by rw [hlimit]; decide) hwindows rfl
    rw [hfound, hlimit] at hall
    exact ⟨parts, hparts, hall⟩

/-- A part of a handle comes to those rows, of the ones that the handle is about, that pass the check
of the part. -/
theorem answered_part (hnodup : h.constraint.columnNames.Nodup) {part : TableHandle}
    (hpart : part ∈ rules.explode h) :
    TogetherHave t answer (Connector.shares windows part)
      ((contents.rowsFor scope t h).filter (t.passes rules part.constraint)) := by
  obtain ⟨hsame, hnarrows⟩ := FilterRules.narrows_of_mem_explode hnodup hpart
  generalize part.constraint = c at hsame hnarrows ⊢
  subst hsame
  have hrows : contents.rowsFor scope t (h.withConstraint c) = contents.rowsFor scope t h := by
    unfold Contents.rowsFor
    rw [← updatedSince_of_narrows hnarrows hnodup (kindOf_updated_at ht hrules)]
    rfl
  rw [← hrows]
  exact answered_shares (h := h.withConstraint c) hconsistent hwindows ht hname hrules hlimit
    hwindow (ofConstraint_of_narrows hnarrows hnodup hscope) (hnarrows.isNone_eq_false hnone)

/-- **The parts of a handle together come to the same rows of the repository as the handle.** -/
theorem answered_explode (hnodup : h.constraint.columnNames.Nodup)
    (hfaithful : ∀ entry ∈ h.constraint.entries, entry.domain.Faithful) :
    TogetherHave t answer ((rules.explode h).flatMap (Connector.shares windows))
      ((contents.rowsFor scope t h).filter (t.passes rules h.constraint)) := by
  -- a row passes the check of one part if it passes that of the whole
  have hperm : ((rules.explode h).flatMap fun part =>
      (contents.rowsFor scope t h).filter (t.passes rules part.constraint)).Perm
      ((contents.rowsFor scope t h).filter (t.passes rules h.constraint)) :=
    perm_flatMap_filter (fun row => FilterRules.countP_explode hnodup
      (fun entry he _ => hfaithful entry he) hnone (row.assignment t.references)) _
  have hparts : ∀ part ∈ rules.explode h, TogetherHave t answer (Connector.shares windows part)
      ((contents.rowsFor scope t h).filter (t.passes rules part.constraint)) := by
    intro part hpart
    exact answered_part hconsistent hwindows ht hname hrules hlimit hwindow hscope hnone hnodup hpart
  exact (TogetherHave.flatMap hparts).perm hperm

end Repository

/-- **Splitting is transparent.** A handle of a repository, without limit and page window, is split
with any settings: into one part for every choice of points, and every part into page windows. All
splits are read from a consistent server. They come to an end, and together they have the rows of the
handle, in some order, if these are fewer than the number that stands for no limit, as those of every
list in memory are.

Of the constraint only what every operation keeps is asked: one entry a column, and points written
each once, in order. -/
theorem splitting_transparent (settings : Settings) {h : TableHandle}
    {t : TableDefinition Request Reply} (ht : (connector settings).tableFor h.table = .ok t)
    (hname : t.name ∈ splitTables) (hlimit : h.limit = noLimit) (hwindow : h.window = .whole)
    (hnodup : h.constraint.columnNames.Nodup)
    (hfaithful : ∀ entry ∈ h.constraint.entries, entry.domain.Faithful) {scope : RepoScope}
    (hscope : RepoScope.ofConstraint repoRules h.constraint = .ok scope) {contents : Contents}
    {answer : Request → Reply}
    (hconsistent : Consistent scope contents (settings.splitsFor t.name).toNat answer) :
    ∃ (splits : List Split) (parts : List (List Row)) (rows : List Row),
      (connector settings).splits h none = .ok splits ∧
      (splits.map fun split => ((connector settings).rows split).outcome (.static answer)) =
        parts.map Outcome.done ∧
      ((connector settings).rows (.ofHandle h)).outcome (.static answer) = .done rows ∧
      (rows.length < noLimit.toNat → rows.Perm parts.flatten) := by
  have hmem := mem_tables_of_tableFor ht
  obtain ⟨rules, hrules, -⟩ := rules_of_mem_tables hmem
  have hsplits := Connector.splits_eq (c := connector settings) ht hrules
  have hwindows := splitsFor_pos settings t.name
  cases hnone : h.constraint.isNone with
  | true =>
    -- nothing can satisfy the constraint, so there is nothing to be read
    refine ⟨_, [], [], hsplits, ?_, ?_, fun _ => .refl _⟩
    · rw [FilterRules.explode, if_pos hnone]
      rfl
    · rw [outcome_rows ht, read_eq_done (Or.inr hnone)]
      rfl
  | false =>
    have hall := answered_repository hconsistent hwindows hmem hname hrules hlimit hwindow hscope
      hnone
    obtain ⟨parts, hparts, hrows⟩ := answered_explode hconsistent hwindows hmem hname hrules hlimit
      hwindow hscope hnone hnodup hfaithful
    refine ⟨_, parts, _, hsplits, ?_, (outcome_rows ht answer).trans hall, fun hshort => ?_⟩
    · rw [← hparts, List.map_map]
      refine List.map_congr_left fun share hshare => outcome_rows ?_ answer
      rw [Connector.table_of_mem_shares hshare]
      exact ht
    · have hbelow := hshort
      rw [List.length_take] at hbelow
      rw [List.take_of_length_le (by omega)]
      exact (hrows (by omega)).symm

/-- The steps of two runs that ended in either of two ways, with two windows for every split. There is
one such step. -/
theorem splitting_transparent_steps :
    ∃ (settings : Settings) (h : TableHandle) (splits : List Split) (parts : List (List Row))
      (rows : List Row),
      (connector settings).splits h none = .ok splits ∧
      (splits.map fun split => ((connector settings).rows split).outcome (.static smallServer)) =
        parts.map Outcome.done ∧
      ((connector settings).rows (.ofHandle h)).outcome (.static smallServer) = .done rows ∧
      rows.length = 1 ∧ rows.Perm parts.flatten := by
  let h : TableHandle := ⟨⟨"github", "steps"⟩, ⟨[
    ⟨⟨"conclusion", .varchar⟩, .values [.varchar "failure", .varchar "success"]⟩,
    ⟨⟨"owner", .varchar⟩, .single (.varchar "o")⟩,
    ⟨⟨"repo", .varchar⟩, .single (.varchar "r")⟩,
    ⟨⟨"run_id", .bigInt⟩, .values [.bigInt 7, .bigInt 8]⟩]⟩, 0, noLimit, 1, none⟩
  have hfaithful : ∀ entry ∈ h.constraint.entries, entry.domain.Faithful :=
    fun entry he => Domain.WellFormed.faithful
      ((show ∀ entry ∈ h.constraint.entries, entry.domain.WellFormed by decide) entry he)
  obtain ⟨splits, parts, rows, hsplits, hparts, hrows, hperm⟩ :=
    splitting_transparent ⟨2, ["steps"], 10, 60⟩ (h := h)
      (t := ⟨"steps", Step.columns, some stepRules, [], fetchSteps⟩) rfl (by decide) rfl rfl
      (by decide) hfaithful rfl
      (show Consistent ⟨"o", "r"⟩ smallContents _ smallServer from consistent_small)
  have hone : (match ((connector ⟨2, ["steps"], 10, 60⟩).rows (.ofHandle h)).outcome
      (.static smallServer) with
    | .done rows => decide (rows.length = 1)
    | _ => false) = true := by decide +kernel
  rw [hrows] at hone
  have hlength := of_decide_eq_true hone
  refine ⟨_, h, splits, parts, rows, hsplits, hparts, hrows, hlength, hperm ?_⟩
  rw [hlength]
  decide

end Github
end RemoteTables
