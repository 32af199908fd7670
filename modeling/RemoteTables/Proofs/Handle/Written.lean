import RemoteTables.Proofs.Handle.Wire
import RemoteTables.Proofs.Json.Parts
import RemoteTables.Proofs.Sets.Constraints

/-!
# The order of decoded constraints

Everything here that makes a constraint keeps it in order, except for reading it from the wire: the
entries and the values of a handle's text are taken as they are listed. What the text lists can be
read off its fragment (`Json.Fragment.listedEntries`), and `TableHandle.reads` says that the decoded
constraint lists the same, name by name and value by value. So a decoded constraint is in order exactly
if its text is (`decoded_in_order_iff`), and then a list of values has the literals that occur in it
and a column's domain is that of its only entry. A text that is not in order is accepted all the same,
and what is behind the disorder is not found (`disorder_hides`).
-/

set_option autoImplicit false

namespace RemoteTables

open Json (Fragment)

/-! ## What is listed -/

/-- What the order of a constraint depends on in one of its entries. -/
structure Listed where
  column : String
  /-- Whether the domain is written as everything. -/
  isAll : Bool
  /-- The values of a domain that is written as a list of them. -/
  values : List Literal
  deriving DecidableEq

/-- Whether columns and values stand in strict order, and no domain is everything. -/
def Listed.InOrder (entries : List Listed) : Prop :=
  (entries.map column).Pairwise (· < ·) ∧
    ∀ entry ∈ entries, entry.isAll = false ∧ Literal.StrictlyIncreasing entry.values

instance (entries : List Listed) : Decidable (Listed.InOrder entries) :=
  inferInstanceAs (Decidable (_ ∧ _))

/-- The values of a domain that is written as values. -/
def Domain.listedValues : Domain → List Literal
  | values vs => vs
  | _ => []

def ColumnDomain.listed (entry : ColumnDomain) : Listed :=
  ⟨entry.column.name, entry.domain.isAll, entry.domain.listedValues⟩

def Constraint.listed (c : Constraint) : List Listed := c.entries.map ColumnDomain.listed

theorem Domain.wellFormed_iff {d : Domain} :
    d.WellFormed ↔ Literal.StrictlyIncreasing d.listedValues := by
  cases d with
  | values vs => exact Iff.rfl
  | all => exact iff_of_true trivial List.Pairwise.nil
  | ranges rs => exact iff_of_true trivial List.Pairwise.nil

theorem Constraint.wellFormed_iff {c : Constraint} : c.WellFormed ↔ Listed.InOrder c.listed := by
  rw [WellFormed, Listed.InOrder, listed, List.map_map, List.forall_mem_map]
  exact and_congr_right fun _ => forall₂_congr fun entry _ =>
    and_congr_right fun _ => Domain.wellFormed_iff

/-! ## What is listed in a fragment -/

/-- The literal of a kind, by its number, that a fragment stands for. -/
def Literal.ofKind? : Nat → Fragment → Option Literal
  | 0, .bool b => some (.boolean b)
  | 1, .number (.integer n) => some (.bigInt (.ofInt n))
  | 2, .string (some s) => some (.varchar s)
  | 3, .number (.integer n) => some (.timestamp (.ofInt n))
  | _, _ => none

namespace Json.Fragment

/-- The literal that a fragment stands for. -/
def literal? (fragment : Fragment) : Option Literal := do
  let name ← (← fragment.part? "type" 0).variant?
  Literal.ofKind? (← Literal.kindNames.lookup name) (← fragment.part? "value" 1)

/-- Whether a fragment is the domain of all literals. -/
def isEverything (fragment : Fragment) : Bool := fragment.variant? == some "all"

/-- The values that the fragment of a domain lists. -/
def listedValues (fragment : Fragment) : List Literal :=
  if fragment.variant? = some "values" then
    fragment.content?.elim [] fun listed => listed.items.filterMap literal?
  else []

/-- What an entry lists, read off its fragment. -/
def listedEntry (fragment : Fragment) : Listed where
  column := ((fragment.part? "column" 0).bind fun column =>
    (column.part? "name" 0).bind characters?).getD ""
  isAll := (fragment.part? "domain" 1).any isEverything
  values := (fragment.part? "domain" 1).elim [] listedValues

/-- The entries that the fragment of a handle lists. -/
def listedEntries (fragment : Fragment) : List Listed :=
  ((fragment.part? "constraint" 1).bind fun constraint =>
    constraint.part? "columnDomains" 0).elim [] fun listed => listed.items.map listedEntry

end Json.Fragment

/-! ## What is listed is what is decoded -/

open Decoder

theorem Literal.kind_lt {name : String} {kind : Nat} (h : kindNames.lookup name = some kind) :
    kind < 4 := by
  obtain ⟨before, behind, hnames, -⟩ := List.lookup_eq_some_iff.mp h
  have hall : ∀ entry ∈ kindNames, entry.2 < 4 := by decide
  exact hall (name, kind) (hnames ▸ List.mem_append_cons_self)

theorem Literal.reads : Literal.decoder.Reads fun fragment v => fragment.literal? = some v := by
  have hnumber (make : Int64 → Literal) : (Decoder.int64.map make).Reads fun part v =>
      ∃ n, part = .number (.integer n) ∧ v = make (.ofInt n) := by
    refine reads_int64.map fun part i h => ?_
    obtain ⟨n, hpart, rfl⟩ := h
    exact ⟨n, hpart, rfl⟩
  refine Reads.mono (reads_tagged reads_names
    (r := fun kind part v => kind < 4 → ofKind? kind part = some v) fun kind => ?_) ?_
  · rcases kind with _ | _ | _ | _ | kind
    · exact reads_bool.map fun part b hpart _ => hpart ▸ rfl
    · refine (hnumber bigInt).mono fun part v h _ => ?_
      obtain ⟨n, rfl, rfl⟩ := h
      rfl
    · exact reads_string.map fun part s hpart _ => hpart ▸ rfl
    · refine (hnumber timestamp).mono fun part v h _ => ?_
      obtain ⟨n, rfl, rfl⟩ := h
      rfl
    · exact (hnumber timestamp).mono fun part v _ hkind => absurd hkind (by omega)
  · intro fragment v h
    obtain ⟨first, second, kind, hfirst, ⟨name, hname, hkind⟩, hsecond, hv⟩ := h
    rw [Fragment.literal?, hfirst]
    simp only [bind, Option.bind, hname, hkind, hsecond]
    exact hv (kind_lt hkind)

theorem Domain.reads : Domain.decoder.Reads fun fragment d =>
    fragment.isEverything = d.isAll ∧ fragment.listedValues = d.listedValues := by
  have hlisted : (Decoder.list Literal.decoder).Reads fun part vs =>
      part.items.filterMap Fragment.literal? = vs := by
    refine (Reads.list Literal.reads).mono fun part vs h => ?_
    have hagain : part.items.filterMap Fragment.literal? =
        (part.items.map Fragment.literal?).filterMap id := by simp [List.filterMap_map]
    rw [hagain, h, List.filterMap_map]
    exact List.filterMap_some
  refine reads_variant (fun name d h => ?_) fun name hname rest closed => ?_
  · split at h
    next hall =>
      obtain rfl := Except.ok.inj h
      subst hall
      exact ⟨rfl, rfl⟩
    next => cases h
  · simp only [List.mem_cons, List.not_mem_nil, or_false] at hname
    rcases hname with rfl | rfl | rfl
    · exact (reads_any Decoder.unit).map fun part _ _ => ⟨rfl, rfl⟩
    · exact hlisted.map fun part vs h => ⟨rfl, h⟩
    · exact (reads_any (Decoder.list Range.decoder)).map fun part rs _ => ⟨rfl, rfl⟩

theorem ColumnRef.reads : ColumnRef.decoder.Reads fun fragment c =>
    (fragment.part? "name" 0).bind Fragment.characters? = some c.name := by
  have hname : (ColumnRef.mk <$> Record.required "name" Decoder.string).Reads 0 fun fragment make =>
      ∀ type, (fragment.part? "name" 0).bind Fragment.characters? = some (make type).name := by
    refine (Record.reads_required reads_string).map fun fragment name h type => ?_
    obtain ⟨part, hpart, rfl⟩ := h
    rw [hpart]
    rfl
  exact hname.seq_any.decoder

theorem Constraint.reads_entry : entryDecoder.Reads fun fragment entry =>
    fragment.listedEntry = entry.listed := by
  have hcolumn : (ColumnDomain.mk <$> Record.required "column" ColumnRef.decoder).Reads 0
      fun fragment make => ∀ d, (make d).domain = d ∧
        ((fragment.part? "column" 0).bind fun column =>
          (column.part? "name" 0).bind Fragment.characters?) = some (make d).column.name := by
    refine (Record.reads_required ColumnRef.reads).map fun fragment column h d => ?_
    obtain ⟨part, hpart, hname⟩ := h
    rw [hpart]
    exact ⟨rfl, hname⟩
  refine Record.Reads.decoder (hcolumn.seq (Record.reads_required Domain.reads) ?_)
  intro fragment make d hmake hd
  obtain ⟨hdomain, hname⟩ := hmake d
  obtain ⟨part, hpart, hall, hvalues⟩ := hd
  change fragment.part? "domain" 1 = some part at hpart
  rw [Fragment.listedEntry, hname, hpart, ColumnDomain.listed, hdomain, Option.getD_some,
    Option.any_some, Option.elim_some, hall, hvalues]

theorem Constraint.reads : Constraint.decoder.Reads fun fragment c =>
    (fragment.part? "columnDomains" 0).elim []
      (fun entries => entries.items.map Fragment.listedEntry) = c.listed := by
  refine Record.Reads.decoder ((Record.reads_required (Reads.list reads_entry)).map ?_)
  intro fragment entries h
  obtain ⟨part, hpart, hentries⟩ := h
  rw [hpart]
  exact hentries

/-- **A handle is decoded with the entries that its fragment lists**, in the order in which they are
listed there. -/
theorem TableHandle.reads : TableHandle.decoder.Reads fun fragment h =>
    fragment.listedEntries = h.constraint.listed := by
  -- the constraint is the second field, and the others do not matter
  have htable : (TableHandle.mk <$> Record.required "schemaTableName" TableName.decoder).Reads 0
      fun _ make => ∀ c offset limit stride order,
        (make c offset limit stride order).constraint = c :=
    (Record.reads_required (reads_any _)).map fun _ _ _ _ _ _ _ _ => rfl
  have hconstraint : (TableHandle.mk <$> Record.required "schemaTableName" TableName.decoder
      <*> Record.required "constraint" Constraint.decoder).Reads 0 fun fragment make =>
        ∀ offset limit stride order,
          fragment.listedEntries = (make offset limit stride order).constraint.listed := by
    refine htable.seq (Record.reads_required Constraint.reads) ?_
    intro fragment make c hmake hc offset limit stride order
    obtain ⟨part, hpart, hentries⟩ := hc
    change fragment.part? "constraint" 1 = some part at hpart
    rw [Fragment.listedEntries, hpart, hmake]
    exact hentries
  exact hconstraint.seq_any.seq_any.seq_any.seq_any.decoder

/-! ## Accepted texts -/

/-- The entries that the text of a handle lists. -/
def listedIn (text : String) : List Listed := (Json.read text).value.listedEntries

theorem listedIn_eq {text : String} {h : TableHandle}
    (hdecoded : TableHandle.decoder.text text = .ok h) : listedIn text = h.constraint.listed := by
  obtain ⟨found, hfound, hends⟩ := bind_eq_ok_iff.mp hdecoded
  split at hends
  next =>
    obtain rfl := Except.ok.inj hends
    exact TableHandle.reads _ _ _ hfound
  next => cases hends

/-- **A decoded constraint is in order exactly if the text is.** The columns, the domains that are
everything and the values are those that the text lists, as it lists them; so the columns increase, no
domain is everything and the values increase if and only if this is so in the text. The literals of
listed values are then those that occur in the list, and every entry is the domain of its column. -/
theorem decoded_in_order_iff {text : String} {h : TableHandle}
    (hdecoded : TableHandle.decoder.text text = .ok h) :
    listedIn text = h.constraint.entries.map ColumnDomain.listed ∧
    (h.constraint.WellFormed ↔ Listed.InOrder (listedIn text)) ∧
    (Listed.InOrder (listedIn text) → ∀ entry ∈ h.constraint.entries,
      h.constraint.domain? entry.column.name = some entry.domain ∧
        ∀ values, entry.domain = .values values →
          ∀ v, entry.domain.includes v = true ↔ v ∈ values) := by
  have hlisted := listedIn_eq hdecoded
  have hwell : h.constraint.WellFormed ↔ Listed.InOrder (listedIn text) := by
    rw [hlisted, Constraint.wellFormed_iff]
  refine ⟨hlisted, hwell, fun horder entry he => ⟨?_, fun values hvalues v => ?_⟩⟩
  · exact Constraint.domain?_of_mem (hwell.mpr horder).nodup he
  · have hentry := ((hwell.mpr horder).2 entry he).2
    rw [hvalues] at hentry ⊢
    exact Domain.includes_values hentry v

/-! ## Issues by their state -/

/-- A handle of issues under domains for their state. -/
def issuesOfState (domains : List Domain) : TableHandle :=
  (TableHandle.ofTable ⟨"github", "issues"⟩).withConstraint
    ⟨domains.map fun d => ⟨⟨"state", .varchar⟩, d⟩⟩

theorem issuesOfState_accepted (domains : List Domain) :
    TableHandle.decoder.text (issuesOfState domains).toJson.render = .ok (issuesOfState domains) := by
  have hdepth : ∀ entry ∈ (issuesOfState domains).constraint.entries,
      entry.column.type.depth ≤ 0 := by
    intro entry he
    obtain ⟨d, -, rfl⟩ := List.mem_map.mp he
    exact Nat.le_refl 0
  exact (TableHandle.restores hdepth).text (by decide)

/-- Both states in their order. -/
theorem decoded_in_order_iff_bothStates :
    ∃ text h, TableHandle.decoder.text text = .ok h ∧ Listed.InOrder (listedIn text) ∧
      ∃ d, h.constraint.domain? "state" = some d ∧
        ∀ v, d.includes v = true ↔ v ∈ [.varchar "closed", .varchar "open"] := by
  have haccepted := issuesOfState_accepted [.values [.varchar "closed", .varchar "open"]]
  obtain ⟨-, hwell, hfound⟩ := decoded_in_order_iff haccepted
  have horder := hwell.mp (by decide +kernel)
  obtain ⟨hdomain, hincludes⟩ := hfound horder _ List.mem_cons_self
  exact ⟨_, _, haccepted, horder, _, hdomain, hincludes _ rfl⟩

/-- **Disorder is accepted and hides what is behind it**: of two states in the wrong order one is not
found, and of two domains for the state the second is not seen. -/
theorem disorder_hides :
    (∃ text h, TableHandle.decoder.text text = .ok h ∧ ¬h.constraint.WellFormed ∧
      ∃ values, h.constraint.domain? "state" = some (.values values) ∧
        .varchar "open" ∈ values ∧ (Domain.values values).includes (.varchar "open") = false) ∧
    ∃ text h, TableHandle.decoder.text text = .ok h ∧
      ∃ entry ∈ h.constraint.entries, entry.domain = .single (.varchar "closed") ∧
        h.constraint.domain? entry.column.name = some (.single (.varchar "open")) := by
  constructor
  · refine ⟨_, _, issuesOfState_accepted [.values [.varchar "open", .varchar "closed"]],
      by decide +kernel, _, rfl, List.mem_cons_self, by decide +kernel⟩
  · refine ⟨_, _, issuesOfState_accepted [.single (.varchar "open"), .single (.varchar "closed")],
      ⟨⟨"state", .varchar⟩, .single (.varchar "closed")⟩, ?_, rfl, rfl⟩
    exact List.mem_cons_of_mem _ List.mem_cons_self

end RemoteTables
