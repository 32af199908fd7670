import RemoteTables.Proofs.Attempts
import RemoteTables.Json.Record

/-!
# What decoders yield

A text from outside may be anything, but what a decoder makes of it is not. `Decoder.Yields` says
what is known of every value that comes out, given the room for nesting that there was. It is the
other side of writing values and restoring them: there a value is given and the room has to be
found; here the room is given and bounds the value, because whatever nests has taken some of it.

One lemma for each way of putting decoders together. Where a fragment is taken apart, what was found
in it is said first (`exists_of_list_eq_ok` and the like), for this and for what is said of the
fragment elsewhere.
-/

set_option autoImplicit false

namespace RemoteTables

open Json (Fragment Members)

/-! ## Values with places -/

namespace Placed

variable {α β : Type}

theorem exists_of_apply_eq_ok {f : Placed (α → β)} {x : Placed α} {value : β}
    (h : apply f x = .ok value) : ∃ g y, f = .ok g ∧ x = .ok y ∧ value = g y := by
  cases f with
  | error fault => cases x <;> cases h
  | ok g =>
    cases x with
    | error fault => cases h
    | ok y => exact ⟨g, y, rfl, rfl, (Except.ok.inj h).symm⟩

theorem eq_ok_of_also {x : Placed α} {check : Placed Unit} {value : α}
    (h : x.also check = .ok value) : x = .ok value := by
  obtain ⟨g, _, hg, -, rfl⟩ := exists_of_apply_eq_ok h
  cases x with
  | error fault => cases hg
  | ok y =>
    obtain rfl := Except.ok.inj hg
    rfl

theorem eq_ok_of_atPlace {place : Nat} {x : Except DecodeFault α} {value : α}
    (h : atPlace place x = .ok value) : x = .ok value := by
  cases x with
  | error fault => cases h
  | ok y => exact congrArg Except.ok (Except.ok.inj h)

theorem eq_ok_of_forget {x : Placed α} {value : α} (h : forget x = .ok value) : x = .ok value := by
  cases x with
  | error fault => cases h
  | ok y => exact congrArg Except.ok (Except.ok.inj h)

end Placed

/-! ## Decoders -/

namespace Decoder

variable {α : Type} {decode : Decoder α} {p q : Nat → α → Prop}

/-- Whether every value that a decoder makes with so much room has a property. -/
def Yields (decode : Decoder α) (p : Nat → α → Prop) : Prop :=
  ∀ room fragment value, decode room fragment = .ok value → p room value

theorem Yields.mono (h : decode.Yields p) (hpq : ∀ room value, p room value → q room value) :
    decode.Yields q :=
  fun room fragment value hvalue => hpq room value (h room fragment value hvalue)

theorem yields_true (decode : Decoder α) : decode.Yields fun _ _ => True :=
  fun _ _ _ _ => trivial

theorem yields_natBelow (bound : Nat) : (natBelow bound).Yields fun _ n => n < bound := by
  intro room fragment value h
  unfold natBelow at h
  split at h
  · split at h
    next hbound =>
      obtain rfl := Except.ok.inj h
      exact hbound
    next => cases h
  · cases h

theorem Yields.optional (h : decode.Yields p) :
    decode.optional.Yields fun room value => ∀ v ∈ value, p room v := by
  intro room fragment value hvalue v hv
  unfold Decoder.optional at hvalue
  split at hvalue
  next =>
    obtain rfl := Except.ok.inj hvalue
    cases hv
  next =>
    obtain ⟨found, hfound, hvalue⟩ := bind_eq_ok_iff.mp hvalue
    obtain rfl := Except.ok.inj hvalue
    obtain rfl := Option.some.inj hv
    exact h room fragment found hfound

/-- A list is made of the items of an array, one container further in. -/
theorem exists_of_list_eq_ok {room : Nat} {fragment : Fragment} {values : List α}
    (h : list decode room fragment = .ok values) : ∃ inner items closed,
      room = inner + 1 ∧ fragment = .array items closed ∧
        items.mapM (decode inner) = .ok values := by
  unfold Decoder.list at h
  split at h
  next inner items closed =>
    obtain ⟨found, hfound, h⟩ := bind_eq_ok_iff.mp h
    split at h
    next =>
      obtain rfl := Except.ok.inj h
      exact ⟨inner, items, _, rfl, rfl, hfound⟩
    next => cases h
  next => cases h

/-- The items of a list had less room by one container. -/
theorem Yields.list (h : decode.Yields fun room value => p (room + 1) value) :
    (list decode).Yields fun room values => ∀ v ∈ values, p room v := by
  intro room fragment values hvalues v hv
  obtain ⟨inner, items, _, rfl, -, hitems⟩ := exists_of_list_eq_ok hvalues
  obtain ⟨item, -, hitem⟩ := (exists_of_mapM_eq_ok hitems).2 v hv
  exact h inner item v hitem

/-- A variant is made of a name alone, or of a name and of content one container further in. -/
theorem exists_of_variant_eq_ok {names : List String} {plain : String → Except DecodeFault α}
    {content : String → Decoder α} {room : Nat} {fragment : Fragment} {value : α}
    (h : variant names plain content room fragment = .ok value) :
    (∃ name, fragment = .string (some name) ∧ plain name = .ok value) ∨
      ∃ inner name part rest closed, room = inner + 1 ∧ name ∈ names ∧
        fragment = .object ((some name, part) :: rest) closed ∧
          content name inner part = .ok value := by
  unfold variant at h
  split at h
  next name =>
    split at h
    next => exact Or.inl ⟨name, rfl, h⟩
    next => cases h
  next inner name part rest closed =>
    split at h
    next hname =>
      obtain ⟨found, hfound, h⟩ := bind_eq_ok_iff.mp h
      split at h
      next =>
        obtain rfl := Except.ok.inj h
        exact Or.inr ⟨inner, name, part, rest, closed, rfl, List.contains_iff_mem.mp hname, rfl,
          hfound⟩
      next => cases h
    next => cases h
  next => cases h

theorem yields_variant {names : List String} {plain : String → Except DecodeFault α}
    {content : String → Decoder α}
    (hplain : ∀ room name value, plain name = .ok value → p room value)
    (hcontent : ∀ inner name fragment value, content name inner fragment = .ok value →
      p (inner + 1) value) : (variant names plain content).Yields p := by
  intro room fragment value hvalue
  obtain ⟨name, -, hname⟩ | ⟨inner, name, part, _, _, rfl, -, -, hpart⟩ :=
    exists_of_variant_eq_ok hvalue
  · exact hplain room name value hname
  · exact hcontent inner name part value hpart

/-- What a decoder makes of all that was read had the full room. -/
theorem Yields.document (h : decode.Yields p) {read : Json.Document} {value : α}
    (hvalue : decode.document read = .ok value) : p fullRoom value := by
  obtain ⟨found, hfound, hvalue⟩ := bind_eq_ok_iff.mp hvalue
  split at hvalue
  next =>
    obtain rfl := Except.ok.inj hvalue
    exact h fullRoom _ found hfound
  next => cases hvalue

end Decoder

/-! ## Records -/

namespace Record

variable {α β : Type} {record : Record α} {p q : Nat → α → Prop}

/-- Whether every value that the fields of a record make with so much room has a property. -/
structure Yields (record : Record α) (p : Nat → α → Prop) : Prop where
  members : ∀ room members value, record.ofMembers room members = .ok value → p room value
  items : ∀ room place items value, record.ofItems room place items = .ok value → p room value

theorem yields_pure (value : α) : (Record.pure value).Yields fun _ v => v = value :=
  ⟨fun _ _ _ h => (Except.ok.inj h).symm, fun _ _ _ _ h => (Except.ok.inj h).symm⟩

theorem Yields.seq {f : Record (α → β)} {x : Record α} {pf : Nat → (α → β) → Prop}
    {q : Nat → β → Prop} (hf : f.Yields pf) (hx : x.Yields p)
    (h : ∀ room g y, pf room g → p room y → q room (g y)) : (f <*> x).Yields q := by
  constructor
  · intro room members value hvalue
    obtain ⟨g, y, hg, hy, rfl⟩ := Placed.exists_of_apply_eq_ok hvalue
    exact h room g y (hf.members room _ _ hg) (hx.members room _ _ hy)
  · intro room place items value hvalue
    obtain ⟨g, y, hg, hy, rfl⟩ := Placed.exists_of_apply_eq_ok hvalue
    exact h room g y (hf.items room _ _ _ hg) (hx.items room _ _ _ hy)

theorem Yields.map {f : α → β} {q : Nat → β → Prop} (hx : record.Yields p)
    (h : ∀ room y, p room y → q room (f y)) : (f <$> record).Yields q :=
  (yields_pure f).seq hx fun room _ y hg hy => hg ▸ h room y hy

/-- What holds whatever the last field is needs to know nothing about that field. -/
theorem Yields.seq_any {f : Record (α → β)} {x : Record α} {q : Nat → β → Prop}
    (h : f.Yields fun room g => ∀ y, q room (g y)) : (f <*> x).Yields q :=
  h.seq (p := fun _ _ => True) ⟨fun _ _ _ _ => trivial, fun _ _ _ _ _ => trivial⟩
    fun _ _ y hg _ => hg y

/-- A field yields what its decoder yields, and besides what is given instead of it. -/
theorem yields_field {name : String} {others : List String} {absent short : Option α}
    {decode : Decoder α} (h : decode.Yields p)
    (habsent : ∀ room, ∀ value ∈ absent, p room value)
    (hshort : ∀ room, ∀ value ∈ short, p room value) :
    (field name others absent short decode).Yields p := by
  constructor
  · intro room members value hvalue
    unfold field at hvalue
    dsimp only at hvalue
    split at hvalue
    next =>
      split at hvalue
      next given => exact habsent room value (congrArg some (Except.ok.inj hvalue))
      next => cases hvalue
    next place found _ _ =>
      exact h room found value (Placed.eq_ok_of_atPlace (Placed.eq_ok_of_also hvalue))
  · intro room place items value hvalue
    unfold field at hvalue
    dsimp only at hvalue
    split at hvalue
    next found _ => exact h room found value (Placed.eq_ok_of_atPlace hvalue)
    next =>
      split at hvalue
      next given => exact hshort room value (congrArg some (Except.ok.inj hvalue))
      next => cases hvalue

theorem yields_required {name : String} {decode : Decoder α} (h : decode.Yields p) :
    (required name decode).Yields p :=
  yields_field h (fun _ _ hnone => by cases hnone) fun _ _ hnone => by cases hnone

/-- A record is made of the members of an object or of the items of an array, one container further
in. -/
theorem exists_of_decoder_eq_ok {room : Nat} {fragment : Fragment} {value : α}
    (h : record.decoder room fragment = .ok value) : ∃ inner closed, room = inner + 1 ∧
      ((∃ members, fragment = .object members closed ∧
          record.ofMembers inner members = .ok value) ∨
        ∃ items, fragment = .array items closed ∧ record.ofItems inner 0 items = .ok value) := by
  unfold Record.decoder at h
  split at h
  next inner members closed =>
    have hfields := Placed.eq_ok_of_also (Placed.eq_ok_of_also (Placed.eq_ok_of_forget h))
    exact ⟨inner, closed, rfl, Or.inl ⟨members, rfl, hfields⟩⟩
  next inner items closed =>
    have hfields := Placed.eq_ok_of_also (Placed.eq_ok_of_also (Placed.eq_ok_of_forget h))
    exact ⟨inner, closed, rfl, Or.inr ⟨items, rfl, hfields⟩⟩
  next => cases h

/-- The fields of a record had less room by one container. -/
theorem Yields.decoder (h : record.Yields fun room value => p (room + 1) value) :
    record.decoder.Yields p := by
  intro room fragment value hvalue
  obtain ⟨inner, _, rfl, ⟨members, -, hmembers⟩ | ⟨items, -, hitems⟩⟩ :=
    exists_of_decoder_eq_ok hvalue
  · exact h.members inner members value hmembers
  · exact h.items inner 0 items value hitems

/-- A record of two fields yields what follows from what they yield. -/
theorem yields_pair {γ : Type} {make : α → β → γ} {first second : String} {decodeFirst : Decoder α}
    {decodeSecond : Decoder β} {absent short : Option β} {q : Nat → β → Prop} {r : Nat → γ → Prop}
    (hx : decodeFirst.Yields p) (hy : decodeSecond.Yields q)
    (habsent : ∀ room, ∀ value ∈ absent, q room value)
    (hshort : ∀ room, ∀ value ∈ short, q room value)
    (h : ∀ room x y, p room x → q room y → r (room + 1) (make x y)) :
    (Record.decoder (make <$> required first decodeFirst
      <*> field second [] absent short decodeSecond)).Yields r := by
  have hmake : (make <$> required first decodeFirst).Yields
      fun room f => ∀ y, q room y → r (room + 1) (f y) :=
    (yields_required hx).map fun room x hx y hy => h room x y hx hy
  exact Yields.decoder (hmake.seq (yields_field hy habsent hshort) fun room f y hf hy => hf y hy)

end Record
end RemoteTables
