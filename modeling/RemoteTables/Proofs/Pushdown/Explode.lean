import Mathlib.Data.List.Forall2
import RemoteTables.Proofs.Sets.Constraints
import RemoteTables.Connector

/-!
# Exploding a handle divides its rows

A handle explodes into one handle for every choice of points of its equality columns. Said without
the steps in which it is done: each entry of the constraint has alternatives (`alternatives`), which
are its points if there are several and else the entry as it is, and the parts are the handle under
every selection of one alternative of each entry, once each (`forall₂_explode`). The entries of a
constraint need not be in order, and fixing a column puts them in order, so a part has the entries
of its selection up to their order.

Everything else is read off the selections. A row that the equality columns admit is admitted by
exactly one of the parts, and any other row by none (`countP_explode`), because that is so for the
alternatives of one entry and counts multiply. What the parts look like is `narrows_of_mem_explode`
and `entries_of_mem_explode`: they are about the same columns, and at most have a point where the
whole has several.
-/

set_option autoImplicit false

namespace RemoteTables

/-! ## Lists side by side -/

section SideBySide

variable {α β : Type} {r : α → β → Prop} {as : List α} {bs : List β}

theorem countP_eq_of_forall₂ (h : List.Forall₂ r as bs) {p : α → Bool} {q : β → Bool}
    (hpq : ∀ a b, r a b → p a = q b) : as.countP p = bs.countP q := by
  induction h with
  | nil => rfl
  | cons hab _ ih => rw [List.countP_cons, List.countP_cons, ih, hpq _ _ hab]

theorem exists_of_forall₂ (h : List.Forall₂ r as bs) {a : α} (ha : a ∈ as) :
    ∃ b ∈ bs, r a b := by
  induction h with
  | nil => exact absurd ha List.not_mem_nil
  | cons hab _ ih =>
    rcases List.mem_cons.mp ha with rfl | ha
    · exact ⟨_, List.mem_cons_self, hab⟩
    · obtain ⟨b, hb, hr⟩ := ih ha
      exact ⟨b, List.mem_cons_of_mem _ hb, hr⟩

/-- What is counted once where something is true, and not at all elsewhere, shows that it is. -/
theorem eq_true_of_countP {p : α → Bool} {q : Bool} (hcount : as.countP p = if q then 1 else 0)
    {a : α} (ha : a ∈ as) (hp : p a = true) : q = true := by
  have hpositive : 0 < as.countP p := List.countP_pos_iff.mpr ⟨a, ha, hp⟩
  rw [hcount] at hpositive
  cases q with
  | true => rfl
  | false => exact absurd hpositive (Nat.lt_irrefl 0)

end SideBySide

/-- Replacing the domain of an entry puts the new one in its place, up to the order of the entries. -/
theorem Constraint.perm_withDomain {c : Constraint} (hnames : c.columnNames.Nodup)
    {before after : List ColumnDomain} {entry : ColumnDomain}
    (hentries : c.entries.Perm (before ++ entry :: after)) {d : Domain} (hd : d.isAll = false) :
    (c.withDomain entry.column d).entries.Perm (before ++ ⟨entry.column, d⟩ :: after) := by
  have hdistinct : ((before ++ entry :: after).map (·.column.name)).Nodup :=
    (hentries.map _).nodup_iff.mp hnames
  rw [(List.perm_middle.map _).nodup_iff, List.map_cons, List.nodup_cons] at hdistinct
  -- no other entry has the name, so that one entry goes
  have hothers : (c.entries.filter fun other => other.column.name != entry.column.name).Perm
      (before ++ after) := by
    refine (hentries.filter _).trans ((List.perm_middle.filter _).trans ?_)
    rw [List.filter_cons_of_neg (by simp), List.filter_eq_self.mpr]
    intro other ho
    have hne : other.column.name ≠ entry.column.name := fun hname =>
      hdistinct.1 (hname ▸ List.mem_map_of_mem ho)
    simpa using hne
  rw [withDomain, if_neg (by simp [hd])]
  refine (List.mergeSort_perm _ _).trans ((hothers.append_right _).trans ?_)
  rw [List.append_assoc]
  exact List.perm_append_comm.append_left before

namespace FilterRules

variable {rules : FilterRules}

/-! ## What is enforced -/

/-- The part of a constraint that a table enforces: that on its equality columns. -/
def enforced (rules : FilterRules) (c : Constraint) : Constraint :=
  c.filter fun entry => rules.kindOf entry.column.name = .equal

theorem holds_enforced {c : Constraint} {a : Assignment} :
    (rules.enforced c).holds a = true ↔ ∀ entry ∈ c.entries,
      rules.kindOf entry.column.name = .equal → entry.holds a = true := by
  rw [enforced, Constraint.holds_filter]
  simp only [decide_eq_true_eq]

/-- A column that is bound to a value has that value wherever the rest of what is enforced holds. -/
theorem eq_of_boundValue? {c : Constraint} {column : String} {v : Literal}
    (h : rules.boundValue? c column = some v) (hkind : rules.kindOf column = .equal)
    {a : Assignment} (ha : (rules.enforced c).holds a = true) : a column = some v := by
  rw [boundValue?, if_neg (by rw [hkind]; decide)] at h
  obtain ⟨d, hdomain, hsingle⟩ := Option.bind_eq_some_iff.mp h
  obtain ⟨entry, he, rfl, rfl⟩ := Constraint.mem_of_domain? hdomain
  obtain ⟨w, hw, hincluded⟩ := entry.holds_iff a |>.mp (holds_enforced.mp ha entry he hkind)
  rw [hw, (Domain.includes_of_singleValue? hsingle w).mp hincluded]

/-! ## The alternatives of an entry -/

/-- The points of an equality column, if its domain is written as points. -/
def points (rules : FilterRules) (entry : ColumnDomain) : List Literal :=
  if rules.kindOf entry.column.name = .equal then entry.domain.discreteValues?.getD [] else []

/-- What an entry may become: one of its points if there are several, or else what it is. -/
def alternatives (rules : FilterRules) (entry : ColumnDomain) : List ColumnDomain :=
  if 1 < (rules.points entry).length then
    (rules.points entry).map fun v => ⟨entry.column, .single v⟩
  else [entry]

/-- Where there are points, they are those of an equality column. -/
theorem of_mem_points {entry : ColumnDomain} {v : Literal} (h : v ∈ rules.points entry) :
    rules.kindOf entry.column.name = .equal ∧
      entry.domain.discreteValues? = some (rules.points entry) := by
  rw [points] at h ⊢
  split at h
  · rename_i hkind
    rw [if_pos hkind]
    refine ⟨hkind, ?_⟩
    cases hpoints : entry.domain.discreteValues? with
    | none =>
      rw [hpoints] at h
      exact absurd h List.not_mem_nil
    | some points => rfl
  · exact absurd h List.not_mem_nil

theorem choices?_eq (entry : ColumnDomain) :
    rules.choices? entry =
      if 1 < (rules.points entry).length then some (entry.column, rules.points entry)
      else none := by
  rw [choices?, points]
  split
  · cases entry.domain.discreteValues? with
    | none => rfl
    | some points => rfl
  · rfl

theorem choices?_eq_some {entry : ColumnDomain} {choice : ColumnRef × List Literal}
    (h : rules.choices? entry = some choice) :
    choice.1 = entry.column ∧ rules.kindOf entry.column.name = .equal ∧
      entry.domain.discreteValues? = some choice.2 ∧ 1 < choice.2.length := by
  rw [choices?_eq] at h
  split at h
  · rename_i hmany
    obtain rfl := Option.some.inj h
    obtain ⟨hkind, hpoints⟩ :=
      of_mem_points (List.getElem_mem (Nat.lt_of_succ_lt hmany) : (rules.points entry)[0] ∈ _)
    exact ⟨rfl, hkind, hpoints, hmany⟩
  · cases h

theorem choices?_eq_none {entry : ColumnDomain}
    (h : entry.domain.singleValue?.isSome = true ∨ rules.kindOf entry.column.name ≠ .equal) :
    rules.choices? entry = none := by
  cases hchoice : rules.choices? entry with
  | none => rfl
  | some choice =>
    obtain ⟨-, hkind, hpoints, hmany⟩ := choices?_eq_some hchoice
    rcases h with h | h
    · obtain ⟨v, hv⟩ := Option.isSome_iff_exists.mp h
      rw [Domain.discreteValues?_of_singleValue? hv] at hpoints
      rw [← Option.some.inj hpoints] at hmany
      exact absurd hmany (Nat.lt_irrefl 1)
    · exact absurd hkind h

/-- Without a choice of points the entry is its only alternative, and with one its points are. -/
theorem alternatives_eq (entry : ColumnDomain) :
    rules.alternatives entry = match rules.choices? entry with
      | none => [entry]
      | some choice => choice.2.map fun v => ⟨entry.column, .single v⟩ := by
  rw [alternatives, choices?_eq]
  split <;> rfl

theorem mem_alternatives {entry one : ColumnDomain} (h : one ∈ rules.alternatives entry) :
    (one = entry ∧ rules.choices? entry = none) ∨
      ∃ points, ∃ v ∈ points, rules.choices? entry = some (entry.column, points) ∧
        one = ⟨entry.column, .single v⟩ := by
  rw [alternatives_eq] at h
  cases hchoice : rules.choices? entry with
  | none =>
    rw [hchoice] at h
    exact Or.inl ⟨List.mem_singleton.mp h, rfl⟩
  | some choice =>
    rw [hchoice] at h
    obtain ⟨v, hv, rfl⟩ := List.mem_map.mp h
    refine Or.inr ⟨choice.2, v, hv, ?_, rfl⟩
    rw [← (choices?_eq_some hchoice).1]

/-- **The points of an entry divide what its domain admits**: of the alternatives of an entry that
holds, exactly one does. -/
theorem countP_alternatives {entry : ColumnDomain} {a : Assignment} {p : ColumnDomain → Bool}
    (hp : rules.kindOf entry.column.name = .equal →
      ∀ d, p ⟨entry.column, d⟩ = (ColumnDomain.mk entry.column d).holds a)
    (hd : rules.kindOf entry.column.name = .equal → entry.domain.Faithful) :
    (rules.alternatives entry).countP p = if p entry then 1 else 0 := by
  rw [alternatives_eq]
  cases hchoice : rules.choices? entry with
  | none => exact List.countP_singleton
  | some choice =>
    obtain ⟨-, hkind, hpoints, -⟩ := choices?_eq_some hchoice
    obtain ⟨hnodup, hincludes⟩ := hd hkind choice.2 hpoints
    have hpoint : ∀ v, p ⟨entry.column, .single v⟩ = (a entry.column.name == some v) := by
      intro v
      rw [hp hkind, Bool.eq_iff_iff, ColumnDomain.holds_iff]
      simp only [Domain.includes_single, exists_eq_right, beq_iff_eq]
    have hwhole : p entry = (a entry.column.name).any choice.2.contains := by
      rw [show p entry = entry.holds a from hp hkind entry.domain, Bool.eq_iff_iff,
        ColumnDomain.holds_iff]
      simp only [hincludes, Option.any_eq_true, List.contains_iff_mem]
    dsimp only
    rw [List.countP_map, hwhole]
    simp only [Function.comp_def, hpoint]
    cases a entry.column.name with
    | none => simp
    | some w =>
      have hcount : choice.2.countP (fun v => some w == some v) = choice.2.count w :=
        List.countP_congr fun v _ => by rw [beq_iff_eq, beq_iff_eq, Option.some.injEq, eq_comm]
      -- the points are distinct, so a literal is among them once or not at all
      simp only [Option.any_some, List.contains_iff_mem]
      rw [hcount, hnodup.count]

/-! ## Selections -/

/-- Every way to take one alternative of each entry. -/
def selections (rules : FilterRules) : List ColumnDomain → List (List ColumnDomain)
  | [] => [[]]
  | entry :: rest =>
    (rules.alternatives entry).flatMap fun one => (selections rules rest).map (one :: ·)

theorem mem_selections {entries taken : List ColumnDomain} :
    taken ∈ rules.selections entries ↔
      List.Forall₂ (fun entry one => one ∈ rules.alternatives entry) entries taken := by
  induction entries generalizing taken with
  | nil => simp [selections]
  | cons entry rest ih =>
    simp only [selections, List.mem_flatMap, List.mem_map, ih, List.forall₂_cons_left_iff]
    constructor
    · rintro ⟨one, hone, others, hothers, rfl⟩
      exact ⟨one, others, hone, hothers, rfl⟩
    · rintro ⟨one, others, hone, hothers, rfl⟩
      exact ⟨one, hone, others, hothers, rfl⟩

/-- What holds of one alternative of each entry, if it holds of the entry, holds of one selection. -/
theorem countP_selections {p : ColumnDomain → Bool} {entries : List ColumnDomain}
    (h : ∀ entry ∈ entries, (rules.alternatives entry).countP p = if p entry then 1 else 0) :
    (rules.selections entries).countP (·.all p) = if entries.all p then 1 else 0 := by
  induction entries with
  | nil => rfl
  | cons entry rest ih =>
    have hproduct : ∀ ones : List ColumnDomain,
        (ones.flatMap fun one => (rules.selections rest).map (one :: ·)).countP (·.all p) =
          ones.countP p * (rules.selections rest).countP (·.all p) := by
      intro ones
      induction ones with
      | nil => rw [List.flatMap_nil, List.countP_nil, List.countP_nil, Nat.zero_mul]
      | cons one others ihothers =>
        rw [List.flatMap_cons, List.countP_append, ihothers, List.countP_map, List.countP_cons,
          Nat.add_mul, Nat.add_comm]
        cases hone : p one <;> simp [Function.comp_def, hone]
    obtain ⟨hentry, hrest⟩ := List.forall_mem_cons.mp h
    rw [selections, hproduct, hentry, ih hrest, List.all_cons]
    cases p entry <;> simp

/-! ## Fixing columns -/

/-- Fixing a column takes every alternative of its entry. -/
theorem forall₂_fixColumn {entry : ColumnDomain} {choice : ColumnRef × List Literal}
    (hchoice : rules.choices? entry = some choice) {constraints : List Constraint}
    {settled : List (List ColumnDomain)} {later : List ColumnDomain}
    (h : List.Forall₂
      (fun c before => c.columnNames.Nodup ∧ c.entries.Perm (before ++ entry :: later))
      constraints settled) :
    List.Forall₂ (fun c before => c.columnNames.Nodup ∧ c.entries.Perm (before ++ later))
      (fixColumn constraints choice)
      (settled.flatMap fun before => (rules.alternatives entry).map fun one => before ++ [one]) := by
  have hcolumn := (choices?_eq_some hchoice).1
  rw [alternatives_eq, hchoice]
  refine List.rel_flatMap h fun c before hc => ?_
  rw [List.map_map, List.forall₂_map_left_iff, List.forall₂_map_right_iff, List.forall₂_same]
  intro v _
  refine ⟨Constraint.nodup_withDomain hc.1 _ _, ?_⟩
  rw [Function.comp_apply, List.append_assoc, hcolumn]
  exact Constraint.perm_withDomain hc.1 hc.2 rfl

variable (rules) in
/-- **Fixing columns one after another takes every selection once.** On the way, some entries are
settled and the later ones are as they were. -/
theorem forall₂_foldl_fixColumn {later : List ColumnDomain} {constraints : List Constraint}
    {settled : List (List ColumnDomain)}
    (h : List.Forall₂ (fun c before => c.columnNames.Nodup ∧ c.entries.Perm (before ++ later))
      constraints settled) :
    List.Forall₂ (fun c taken => c.columnNames.Nodup ∧ c.entries.Perm taken)
      ((later.filterMap rules.choices?).foldl fixColumn constraints)
      (settled.flatMap fun before => (rules.selections later).map (before ++ ·)) := by
  induction later generalizing constraints settled with
  | nil => simpa [selections, List.flatMap_singleton'] using h
  | cons entry rest ih =>
    have hsettled : (settled.flatMap fun before =>
          (rules.selections (entry :: rest)).map (before ++ ·)) =
        (settled.flatMap fun before =>
          (rules.alternatives entry).map fun one => before ++ [one]).flatMap
            fun before => (rules.selections rest).map (before ++ ·) := by
      simp [selections, List.flatMap_assoc, List.flatMap_map, List.map_flatMap, Function.comp_def]
    rw [hsettled]
    cases hchoice : rules.choices? entry with
    | none =>
      have hkept : rules.alternatives entry = [entry] := by rw [alternatives_eq, hchoice]
      rw [List.filterMap_cons_none hchoice, hkept]
      refine ih ?_
      simp only [List.map_cons, List.map_nil]
      rw [← List.map_eq_flatMap, List.forall₂_map_right_iff]
      exact h.imp fun c before hc => by simpa using hc
    | some choice =>
      rw [List.filterMap_cons_some hchoice, List.foldl_cons]
      exact ih (forall₂_fixColumn hchoice h)

/-! ## The parts -/

/-- **What a handle explodes into**: the handle under every selection, each of them once. -/
theorem forall₂_explode {h : TableHandle} (hnames : h.constraint.columnNames.Nodup)
    (hnone : h.constraint.isNone = false) :
    List.Forall₂ (fun part taken => part = h.withConstraint part.constraint ∧
        part.constraint.columnNames.Nodup ∧ part.constraint.entries.Perm taken)
      (rules.explode h) (rules.selections h.constraint.entries) := by
  -- nothing is settled yet, and all entries are as they were
  have hstart : List.Forall₂ (fun c before => c.columnNames.Nodup ∧
      c.entries.Perm (before ++ h.constraint.entries)) [h.constraint] [[]] :=
    List.forall₂_cons.mpr ⟨⟨hnames, .refl _⟩, .nil⟩
  have hfold := forall₂_foldl_fixColumn rules hstart
  rw [List.flatMap_singleton] at hfold
  simp only [List.nil_append, List.map_id'] at hfold
  rw [explode, if_neg (by simp [hnone]), List.forall₂_map_left_iff]
  exact hfold.imp fun c taken hc => ⟨rfl, hc⟩

theorem isNone_of_mem_explode {h part : TableHandle} (hpart : part ∈ rules.explode h) :
    h.constraint.isNone = false := by
  cases hnone : h.constraint.isNone with
  | false => rfl
  | true =>
    rw [explode, if_pos hnone] at hpart
    exact absurd hpart List.not_mem_nil

theorem exists_selection {h part : TableHandle} (hnames : h.constraint.columnNames.Nodup)
    (hpart : part ∈ rules.explode h) :
    part = h.withConstraint part.constraint ∧ part.constraint.columnNames.Nodup ∧
      ∃ taken, part.constraint.entries.Perm taken ∧
        List.Forall₂ (fun entry one => one ∈ rules.alternatives entry) h.constraint.entries taken := by
  obtain ⟨taken, htaken, hsame, hnodup, hentries⟩ :=
    exists_of_forall₂ (forall₂_explode hnames (isNone_of_mem_explode hpart)) hpart
  exact ⟨hsame, hnodup, taken, hentries, mem_selections.mp htaken⟩

/-- What is asked of a constraint entry by entry divides a handle as its points do. -/
theorem countP_all_explode {h : TableHandle} (hnames : h.constraint.columnNames.Nodup)
    (hnone : h.constraint.isNone = false) {p : ColumnDomain → Bool}
    (hp : ∀ entry ∈ h.constraint.entries,
      (rules.alternatives entry).countP p = if p entry then 1 else 0) :
    (rules.explode h).countP (fun part => part.constraint.entries.all p) =
      if h.constraint.entries.all p then 1 else 0 := by
  rw [← countP_selections hp]
  refine countP_eq_of_forall₂ (forall₂_explode hnames hnone) fun part taken hpart => ?_
  exact hpart.2.2.all_eq

/-- **A row that the equality columns of a handle admit is admitted by exactly one of the handles
that it explodes into, and any other row by none.** -/
theorem countP_explode {h : TableHandle} (hnodup : h.constraint.columnNames.Nodup)
    (hfaithful : ∀ entry ∈ h.constraint.entries, rules.kindOf entry.column.name = .equal →
      entry.domain.Faithful) (hnone : h.constraint.isNone = false) (a : Assignment) :
    (rules.explode h).countP (fun part => (rules.enforced part.constraint).holds a) =
      if (rules.enforced h.constraint).holds a then 1 else 0 := by
  simp only [Constraint.holds, enforced, Constraint.filter, List.all_filter]
  refine countP_all_explode hnodup hnone fun entry he => countP_alternatives (a := a) ?_
    (hfaithful entry he)
  intro hkind d
  simp [hkind]

theorem holds_of_mem_explode {h part : TableHandle} (hnodup : h.constraint.columnNames.Nodup)
    (hfaithful : ∀ entry ∈ h.constraint.entries, rules.kindOf entry.column.name = .equal →
      entry.domain.Faithful) {a : Assignment} (hpart : part ∈ rules.explode h)
    (haccepts : (rules.enforced part.constraint).holds a = true) :
    (rules.enforced h.constraint).holds a = true := by
  exact eq_true_of_countP (countP_explode hnodup hfaithful (isNone_of_mem_explode hpart) a) hpart
    haccepts

/-- **An assignment that satisfies a handle satisfies exactly one of its parts, and any other
assignment none.** The constraint need not be in order. -/
theorem countP_holds_parts {h : TableHandle} (hnames : h.constraint.columnNames.Nodup)
    (hdomains : ∀ entry ∈ h.constraint.entries, entry.domain.WellFormed) (a : Assignment) :
    (rules.explode h).countP (fun part => part.constraint.holds a) =
      if h.constraint.holds a then 1 else 0 := by
  cases hnone : h.constraint.isNone with
  | true =>
    rw [explode, if_pos hnone, Constraint.not_holds_of_isNone hnone]
    rfl
  | false =>
    refine countP_all_explode hnames hnone fun entry he => ?_
    exact countP_alternatives (a := a) (fun _ _ => rfl) fun _ => (hdomains entry he).faithful

/-- What a part has of the whole. -/
structure Narrows (rules : FilterRules) (whole part : Constraint) : Prop where
  nodup : part.columnNames.Nodup
  /-- Every entry is an old one, or one of the points that an old one had. -/
  entries : ∀ entry ∈ part.entries, entry ∈ whole.entries ∨
    ∃ old choice v, old ∈ whole.entries ∧ rules.choices? old = some choice ∧
      entry = ⟨old.column, .single v⟩
  /-- No column is lost. -/
  columns : ∀ entry ∈ whole.entries, ∃ kept ∈ part.entries, kept.column = entry.column

/-- The handles that a handle explodes into are the handle under narrower constraints. -/
theorem narrows_of_mem_explode {h part : TableHandle} (hnodup : h.constraint.columnNames.Nodup)
    (hpart : part ∈ rules.explode h) :
    part = h.withConstraint part.constraint ∧ Narrows rules h.constraint part.constraint := by
  obtain ⟨hsame, hnames, taken, hentries, htaken⟩ := exists_selection hnodup hpart
  refine ⟨hsame, hnames, fun entry he => ?_, fun entry he => ?_⟩
  · obtain ⟨old, hold, hone⟩ := exists_of_forall₂ htaken.flip (hentries.mem_iff.mp he)
    rcases mem_alternatives hone with ⟨rfl, -⟩ | ⟨points, v, -, hchoice, hentry⟩
    · exact Or.inl hold
    · exact Or.inr ⟨old, _, v, hold, hchoice, hentry⟩
  · obtain ⟨one, hone, halternative⟩ := exists_of_forall₂ htaken he
    refine ⟨one, hentries.mem_iff.mpr hone, ?_⟩
    rcases mem_alternatives halternative with ⟨rfl, -⟩ | ⟨points, v, -, -, rfl⟩
    · rfl
    · rfl

/-- **The entries of a part**: those of the whole that leave no choice, and a point of each other
one. -/
theorem entries_of_mem_explode {h part : TableHandle} (hnodup : h.constraint.columnNames.Nodup)
    (hpart : part ∈ rules.explode h) {entry : ColumnDomain} (he : entry ∈ part.constraint.entries) :
    (entry ∈ h.constraint.entries ∧ rules.choices? entry = none) ∨
      ∃ old ∈ h.constraint.entries, ∃ points, ∃ v ∈ points,
        rules.choices? old = some (old.column, points) ∧ entry = ⟨old.column, .single v⟩ := by
  obtain ⟨-, -, taken, hentries, htaken⟩ := exists_selection hnodup hpart
  obtain ⟨old, hold, hone⟩ := exists_of_forall₂ htaken.flip (hentries.mem_iff.mp he)
  rcases mem_alternatives hone with ⟨rfl, hchoice⟩ | ⟨points, v, hv, hchoice, hentry⟩
  · exact Or.inl ⟨hold, hchoice⟩
  · exact Or.inr ⟨old, hold, points, v, hv, hchoice, hentry⟩

section Narrows

variable {whole part : Constraint} (h : Narrows rules whole part)
include h

/-- A column without a choice of points keeps its domain. -/
theorem Narrows.domain?_eq (hwhole : whole.columnNames.Nodup) {column : String}
    (hchoice : ∀ entry ∈ whole.entries, entry.column.name = column → rules.choices? entry = none) :
    part.domain? column = whole.domain? column := by
  cases hdomain : whole.domain? column with
  | none =>
    rw [Constraint.domain?_eq_none_iff] at hdomain ⊢
    intro entry he
    rcases h.entries entry he with hold | ⟨old, choice, v, hold, -, rfl⟩
    · exact hdomain entry hold
    · exact hdomain old hold
  | some d =>
    obtain ⟨entry, he, hname, rfl⟩ := Constraint.mem_of_domain? hdomain
    obtain ⟨kept, hkept, hcolumn⟩ := h.columns entry he
    rcases h.entries kept hkept with hold | ⟨old, choice, v, hold, hchosen, rfl⟩
    · have hsame := Constraint.entry_eq_of_name_eq hwhole hold he (congrArg ColumnRef.name hcolumn)
      subst hsame
      exact hname ▸ Constraint.domain?_of_mem h.nodup hkept
    · rw [hchoice old hold ((congrArg ColumnRef.name hcolumn).trans hname)] at hchosen
      cases hchosen

theorem Narrows.isNone_eq_false (hwhole : whole.isNone = false) : part.isNone = false := by
  rw [Constraint.isNone, List.any_eq_false] at hwhole ⊢
  intro entry he
  rcases h.entries entry he with hold | ⟨old, choice, v, -, -, rfl⟩
  · exact hwhole entry hold
  · exact Bool.false_ne_true

end Narrows

end FilterRules

/-! ## The splits of a connector -/

namespace Connector

/-- A handle in so many page windows; it is not cut for a single one. -/
def shares (windows : UInt32) (h : TableHandle) : List TableHandle :=
  if windows ≤ 1 then [h] else cut windows h

theorem table_of_mem_shares {rules : FilterRules} {windows : UInt32} {h share : TableHandle}
    (hshare : share ∈ (rules.explode h).flatMap (shares windows)) : share.table = h.table := by
  obtain ⟨part, hpart, hshare⟩ := List.mem_flatMap.mp hshare
  have htable : part.table = h.table := by
    unfold FilterRules.explode at hpart
    split at hpart
    · exact absurd hpart List.not_mem_nil
    · obtain ⟨c, -, rfl⟩ := List.mem_map.mp hpart
      rfl
  unfold shares at hshare
  split at hshare
  · rw [List.mem_singleton.mp hshare, htable]
  · obtain ⟨k, -, rfl⟩ := List.mem_map.mp hshare
    exact htable

variable {ρ β : Type} {c : Connector ρ β} {t : TableDefinition ρ β} {h : TableHandle}
  (ht : c.tableFor h.table = .ok t)
include ht

/-- The splits of a handle are the handles that it explodes into, each in page windows. -/
theorem splits_eq_shares : c.splits h none =
    .ok (((t.explode h).flatMap (shares (c.settings.splitsFor t.name))).map Split.ofHandle) := by
  have hsplit : c.splitHandles h =
      .ok ((t.explode h).flatMap (shares (c.settings.splitsFor t.name))) := by
    rw [splitHandles, ht]
    show Except.ok (if c.settings.splitsFor t.name ≤ 1 then t.explode h else
      (t.explode h).flatMap (cut (c.settings.splitsFor t.name))) = _
    unfold shares
    split
    · exact congrArg Except.ok (List.flatMap_singleton' _).symm
    · rfl
  show (do return (← c.splitHandles h).map Split.ofHandle : Except Failure (List Split)) = _
  rw [hsplit]
  rfl

variable {rules : FilterRules} (hrules : t.rules = some rules)
include hrules

/-- The splits of a handle are the parts that it explodes into, each in page windows. -/
theorem splits_eq : c.splits h none =
    .ok (((rules.explode h).flatMap (shares (c.settings.splitsFor t.name))).map
      Split.ofHandle) := by
  rw [splits_eq_shares ht, TableDefinition.explode, hrules]

/-- Without page windows the splits are the parts. -/
theorem splits_eq_explode (hwindows : c.settings.splitsFor t.name ≤ 1) :
    c.splits h none = .ok ((rules.explode h).map Split.ofHandle) := by
  have hshares : shares (c.settings.splitsFor t.name) = fun h => [h] :=
    funext fun h => if_pos hwindows
  rw [splits_eq ht hrules, hshares, List.flatMap_singleton']

end Connector
end RemoteTables
