import RemoteTables.Proofs.Pushdown.Scan

/-!
# What is bound to points can be asked for

A request carries one value per column, so a part that a handle explodes into is of use only if each
of its equality columns has a single value. Three readings of a domain meet here, and they do not
agree everywhere: the explosion counts the points of a domain without repetitions, leaves a domain
of one point as it is written, and a request then takes the single value of what is written.

They part ways on one shape only, the domain that is a single point written several times over
(`Domain.RepeatsPoint`). `resolved_unless_repeated` says so exactly: every equality column of every
part has a single value unless its domain repeats a point, and a column that has to be a text is
found under the same condition. Domains of that shape are made by uniting a point with itself, so
the condition is a real one (`unresolved_when_repeated`).
-/

set_option autoImplicit false

namespace RemoteTables

/-! ## Domains as they are made -/

/-- A domain that was put together from the constructors by uniting and intersecting. -/
inductive Domain.Made : Domain → Prop where
  | all : Made .all
  | single (v : Literal) : Made (.single v)
  | ofList (literals : List Literal) : Made (.ofList literals)
  | ranges (rs : List Range) : Made (.ranges rs)
  | union {a b : Domain} : Made a → Made b → Made (a.union b)
  | intersect {a b : Domain} : Made a → Made b → Made (a.intersect b)

theorem Domain.Made.wellFormed {d : Domain} (h : d.Made) : d.WellFormed := by
  induction h with
  | all => trivial
  | single v => exact wellFormed_single v
  | ofList literals => exact wellFormed_ofList literals
  | ranges rs => trivial
  | union _ _ _ _ => exact wellFormed_union _ _
  | intersect _ _ iha ihb => exact wellFormed_intersect iha ihb

theorem Constraint.wellFormed_ofEntries {entries : List ColumnDomain}
    (h : ∀ entry ∈ entries, entry.domain.WellFormed) : (ofEntries entries).WellFormed :=
  wellFormed_conjoin wellFormed_all h

namespace FilterRules

variable {rules : FilterRules}

/-! ## The single values of a part -/

/-- Whether the equality columns of a constraint are restricted to points. -/
def Pointwise (rules : FilterRules) (c : Constraint) : Prop :=
  ∀ entry ∈ c.entries, rules.kindOf entry.column.name = .equal →
    entry.domain.discreteValues?.isSome = true

/-- What a table takes has points at the equality columns. -/
theorem pointwise_taken (columns : List ColumnRef) (c : Constraint) :
    rules.Pointwise (rules.taken columns c) := by
  intro entry he hkind
  obtain ⟨-, hbound | ⟨-, hdiscrete⟩⟩ := takes?_isSome_iff.mp (List.mem_filter.mp he).2
  · cases hkind.symm.trans hbound
  · exact hdiscrete

section Part

variable {h part : TableHandle} (hwell : h.constraint.WellFormed)
  (hpoints : rules.Pointwise h.constraint) (hpart : part ∈ rules.explode h)
include hpart hwell

/-- What a part has in a column of the whole: it repeats a point if the whole does, and a single
value is one of the points of the whole. -/
theorem exists_entry_of_mem_explode {entry : ColumnDomain} (he : entry ∈ h.constraint.entries) :
    ∃ kept ∈ part.constraint.entries, kept.column = entry.column ∧
      (kept.domain.RepeatsPoint ↔ entry.domain.RepeatsPoint) ∧
      ∀ points, entry.domain.discreteValues? = some points →
        ∀ v, kept.domain.singleValue? = some v → v ∈ points := by
  obtain ⟨kept, hkept, hcolumn⟩ := (narrows_of_mem_explode hwell.nodup hpart).2.columns entry he
  refine ⟨kept, hkept, hcolumn, ?_⟩
  rcases entries_of_mem_explode hwell.nodup hpart hkept with
    ⟨hold, -⟩ | ⟨old, hold, points, v, hv, hchoice, rfl⟩
  · obtain rfl :=
      Constraint.entry_eq_of_name_eq hwell.nodup hold he (congrArg ColumnRef.name hcolumn)
    refine ⟨Iff.rfl, fun points hvalues v hv => ?_⟩
    rw [Domain.discreteValues?_of_singleValue? hv] at hvalues
    exact Option.some.inj hvalues ▸ List.mem_cons_self
  · obtain rfl :=
      Constraint.entry_eq_of_name_eq hwell.nodup hold he (congrArg ColumnRef.name hcolumn)
    obtain ⟨-, -, hvalues, hmany⟩ := choices?_eq_some hchoice
    refine ⟨iff_of_false (Domain.not_repeatsPoint_single v) fun hrepeats => ?_,
      fun others hothers w hw => ?_⟩
    · -- a repeated point is one point, and where there is a choice there are several
      obtain ⟨w, hw⟩ := hrepeats.exists_point
      obtain rfl := Option.some.inj (hvalues.symm.trans hw)
      exact absurd hmany (Nat.lt_irrefl 1)
    · obtain rfl := Option.some.inj (hvalues.symm.trans hothers)
      obtain rfl := Option.some.inj hw
      exact hv

include hpoints

/-- **An equality column of a part has a single value unless its domain repeats a point.** -/
theorem singleValue?_of_mem_explode {entry : ColumnDomain} (he : entry ∈ part.constraint.entries)
    (hkind : rules.kindOf entry.column.name = .equal) :
    entry.domain.singleValue?.isSome = true ↔ ¬entry.domain.RepeatsPoint := by
  rcases entries_of_mem_explode hwell.nodup hpart he with
    ⟨hold, hchoice⟩ | ⟨old, hold, points, v, -, -, rfl⟩
  · -- an entry that leaves no choice has one point at most, and some literal
    obtain ⟨points, hvalues⟩ := Option.isSome_iff_exists.mp (hpoints entry hold hkind)
    have hfew : points.length ≤ 1 := by
      simp only [choices?, hkind, if_true, hvalues] at hchoice
      split at hchoice
      · cases hchoice
      · omega
    exact Domain.singleValue?_isSome_iff hvalues hfew
      (by simpa using List.any_eq_false.mp (isNone_of_mem_explode hpart) entry hold)
  · exact iff_of_true rfl (Domain.not_repeatsPoint_single v)

/-- **A text that a request needs is found in every part** if the column is restricted to texts and
its domain does not repeat a point; if it does, the column counts as missing. -/
theorem requireString_of_mem_explode {entry : ColumnDomain} (he : entry ∈ h.constraint.entries)
    (hkind : rules.kindOf entry.column.name = .equal) {texts : List String}
    (htexts : entry.domain.discreteValues? = some (texts.map .varchar)) :
    (entry.domain.RepeatsPoint → rules.requireString part.constraint entry.column.name =
      .error (.missingConstraint entry.column.name)) ∧
    (¬entry.domain.RepeatsPoint →
      ∃ text ∈ texts, rules.requireString part.constraint entry.column.name = .ok text) := by
  obtain ⟨kept, hkept, hcolumn, hrepeats, hvalue⟩ :=
    exists_entry_of_mem_explode hwell hpart he
  have hsingle := singleValue?_of_mem_explode hwell hpoints hpart hkept (hcolumn ▸ hkind)
  have hbound : rules.boundValue? part.constraint entry.column.name = kept.domain.singleValue? := by
    rw [boundValue?, if_neg (by rw [hkind]; decide), ← hcolumn,
      Constraint.domain?_of_mem (narrows_of_mem_explode hwell.nodup hpart).2.nodup hkept,
      Option.bind_some]
  rw [requireString, boundString?, hbound]
  refine ⟨fun hrepeated => ?_, fun honce => ?_⟩
  · have hnone : kept.domain.singleValue? = none := by
      rw [← Option.not_isSome_iff_eq_none, hsingle]
      exact not_not_intro (hrepeats.mpr hrepeated)
    rw [hnone]
    rfl
  · have hkept : ¬kept.domain.RepeatsPoint := fun hkept => honce (hrepeats.mp hkept)
    obtain ⟨v, hv⟩ := Option.isSome_iff_exists.mp (hsingle.mpr hkept)
    obtain ⟨text, htext, rfl⟩ := List.mem_map.mp (hvalue _ htexts v hv)
    exact ⟨text, htext, by rw [hv]; rfl⟩

end Part

end FilterRules

/-! ## The parts of a pushed constraint -/

/-- **Every part is resolved, unless a domain repeats a point.** A constraint is put together from
domains as they are made, and pushed onto the handle of a table that has no constraint yet. In every
handle that the result explodes into, an equality column has a single value unless its domain is one
point that is written several times. A column that is restricted to texts is found by whatever needs
it for a request, and it counts as missing in that case alone. -/
theorem resolved_unless_repeated {ρ β : Type} {c : Connector ρ β} {name : TableName}
    {t : TableDefinition ρ β} (ht : c.tableFor name = .ok t) {rules : FilterRules}
    (hrules : t.rules = some rules) {entries : List ColumnDomain}
    (hmade : ∀ entry ∈ entries, entry.domain.Made) {pushed : Pushed}
    (hpushed : c.applyFilter (.ofTable name) (.ofEntries entries) = .ok (some pushed))
    {part : TableHandle} (hpart : part ∈ rules.explode pushed.handle) :
    (∀ entry ∈ part.constraint.entries, rules.kindOf entry.column.name = .equal →
      (entry.domain.singleValue?.isSome = true ↔ ¬entry.domain.RepeatsPoint)) ∧
    ∀ entry ∈ pushed.handle.constraint.entries, rules.kindOf entry.column.name = .equal →
      ∀ texts : List String, entry.domain.discreteValues? = some (texts.map .varchar) →
        (entry.domain.RepeatsPoint → rules.requireString part.constraint entry.column.name =
          .error (.missingConstraint entry.column.name)) ∧
        (¬entry.domain.RepeatsPoint →
          ∃ text ∈ texts, rules.requireString part.constraint entry.column.name = .ok text) := by
  have hwell : (Constraint.ofEntries entries).WellFormed :=
    Constraint.wellFormed_ofEntries fun entry he => (hmade entry he).wellFormed
  have hconstraint : pushed.handle.constraint =
      rules.taken t.references (.ofEntries entries) := by
    rw [Connector.applyFilter_eq (h := .ofTable name) ht hrules] at hpushed
    rw [FilterRules.push_eq_some (Except.ok.inj hpushed)]
    exact Constraint.all_intersect (Constraint.wellFormed_filter hwell _)
  have htaken : pushed.handle.constraint.WellFormed :=
    hconstraint ▸ Constraint.wellFormed_filter hwell _
  have hpoints : rules.Pointwise pushed.handle.constraint :=
    hconstraint ▸ FilterRules.pointwise_taken t.references _
  exact ⟨fun entry he hkind =>
      FilterRules.singleValue?_of_mem_explode htaken hpoints hpart he hkind,
    fun entry he hkind texts htexts =>
      FilterRules.requireString_of_mem_explode htaken hpoints hpart he hkind htexts⟩

/-- Two owners, one written as a range and one as a value: in the part of the second the owner is
found. -/
theorem resolved_unless_repeated_repos :
    (Github.connector .standard).applyFilter (.ofTable ⟨"github", "repos"⟩)
        (.ofEntries [⟨⟨"owner", .varchar⟩,
          (Domain.ranges [.single (.varchar "o")]).union (.single (.varchar "p"))⟩]) =
      .ok (some ⟨⟨⟨"github", "repos"⟩, ⟨[⟨⟨"owner", .varchar⟩,
        .ranges [.single (.varchar "o"), .single (.varchar "p")]⟩]⟩, 0, noLimit, 1, none⟩, .all⟩) ∧
    ∃ text ∈ ["o", "p"], Github.ownerRules.requireString
      ⟨[⟨⟨"owner", .varchar⟩, .single (.varchar "p")⟩]⟩ "owner" = .ok text := by
  have hpushed : (Github.connector .standard).applyFilter (.ofTable ⟨"github", "repos"⟩)
      (.ofEntries [⟨⟨"owner", .varchar⟩,
        (Domain.ranges [.single (.varchar "o")]).union (.single (.varchar "p"))⟩]) =
    .ok (some ⟨⟨⟨"github", "repos"⟩, ⟨[⟨⟨"owner", .varchar⟩,
      .ranges [.single (.varchar "o"), .single (.varchar "p")]⟩]⟩, 0, noLimit, 1, none⟩, .all⟩) :=
    (Connector.applyFilter_eq rfl rfl _).trans (congrArg Except.ok (by decide +kernel))
  have hmade : ∀ entry ∈ [ColumnDomain.mk ⟨"owner", .varchar⟩
      ((Domain.ranges [.single (.varchar "o")]).union (.single (.varchar "p")))],
      entry.domain.Made :=
    List.forall_mem_singleton.mpr (.union (.ranges _) (.single _))
  have hpart : ⟨⟨"github", "repos"⟩, ⟨[⟨⟨"owner", .varchar⟩, .single (.varchar "p")⟩]⟩, 0, noLimit,
      1, none⟩ ∈ Github.ownerRules.explode ⟨⟨"github", "repos"⟩, ⟨[⟨⟨"owner", .varchar⟩,
        .ranges [.single (.varchar "o"), .single (.varchar "p")]⟩]⟩, 0, noLimit, 1, none⟩ := by
    decide +kernel
  have hresolved := resolved_unless_repeated rfl rfl hmade hpushed hpart
  refine ⟨hpushed, (hresolved.2 _ List.mem_cons_self rfl ["o", "p"] rfl).2 fun hrepeats => ?_⟩
  obtain ⟨v, hv⟩ := hrepeats.exists_point
  cases hv

/-- The repositories of an owner who is written twice. -/
def Github.ownerTwice : TableHandle :=
  ⟨⟨"github", "repos"⟩, ⟨[⟨⟨"owner", .varchar⟩,
    .ranges [.single (.varchar "o"), .single (.varchar "o")]⟩]⟩, 0, noLimit, 1, none⟩

/-- A point united with itself: the only part keeps it twice, so the owner counts as missing, and
reading fails before anything is asked. -/
theorem unresolved_when_repeated :
    Domain.Made ((Domain.single (.varchar "o")).union (.ranges [.single (.varchar "o")])) ∧
    (Github.connector .standard).applyFilter (.ofTable ⟨"github", "repos"⟩)
      (.ofEntries [⟨⟨"owner", .varchar⟩,
        (Domain.single (.varchar "o")).union (.ranges [.single (.varchar "o")])⟩]) =
      .ok (some ⟨Github.ownerTwice, .all⟩) ∧
    (Github.connector .standard).splits Github.ownerTwice none =
      .ok [.ofHandle Github.ownerTwice] ∧
    (∃ entry ∈ Github.ownerTwice.constraint.entries,
      Github.ownerRules.kindOf entry.column.name = .equal ∧
      entry.domain.discreteValues? = some [.varchar "o"] ∧ entry.domain.singleValue? = none) ∧
    ∀ server : Server Request Reply,
      ((Github.connector .standard).rows (.ofHandle Github.ownerTwice)).run server [] =
        (.failed (.missingConstraint "owner"), []) := by
  refine ⟨.union (.single _) (.ranges _), ?_, rfl, ?_, fun server => rfl⟩
  · exact (Connector.applyFilter_eq rfl rfl _).trans (congrArg Except.ok (by decide +kernel))
  · exact ⟨_, List.mem_cons_self, rfl, rfl, rfl⟩

end RemoteTables
