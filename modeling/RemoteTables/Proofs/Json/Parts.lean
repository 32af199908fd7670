import RemoteTables.Proofs.Json.Yielding

/-!
# What decoders read from a fragment

`Yields` says what is known of the values that a decoder makes whatever it was given. Here a value is
related to the fragment that it was made of. A record may be written as an object or as an array, a
variant with or without content, and a kind before or behind its content, so the parts of a fragment
are named first, by what they are parts of. `Decoder.Reads` then says of a decoder in which relation
its values stand to its fragments, with one lemma for each way of putting decoders together.
-/

set_option autoImplicit false

namespace RemoteTables

/-- What looks alike before and after a step does so, item by item, after steps that succeeded
together. -/
theorem map_eq_map_of_mapM_eq_ok {α β γ ε : Type} {step : α → Except ε β} {items : List α}
    {values : List β} (h : items.mapM step = .ok values) {before : α → γ} {after : β → γ}
    (hlook : ∀ item value, step item = .ok value → before item = after value) :
    items.map before = values.map after := by
  rw [mapM_eq_ok_iff] at h
  induction items generalizing values with
  | nil =>
    obtain rfl := List.map_eq_nil_iff.mp h.symm
    rfl
  | cons item rest ih =>
    cases values with
    | nil => cases h
    | cons value others =>
      obtain ⟨hitem, hrest⟩ := List.cons.inj h
      rw [List.map_cons, List.map_cons, hlook item value hitem, ih hrest]

/-! ## The parts of a fragment -/

namespace Json.Fragment

/-- What stands for a field of a record: the first member of its name, or the item at its place. -/
def part? (name : String) (place : Nat) : Fragment → Option Fragment
  | .object members _ => (places [name] members).head?.map (·.2)
  | .array items _ => items[place]?
  | _ => none

/-- The items of a list. -/
def items : Fragment → List Fragment
  | .array items _ => items
  | _ => []

/-- The characters of a text. -/
def characters? : Fragment → Option String
  | .string text => text
  | _ => none

/-- The name of a variant, which stands alone or in front of the content. -/
def variant? : Fragment → Option String
  | .string text => text
  | .object ((name, _) :: _) _ => name
  | _ => none

/-- The value of the first member. -/
def content? : Fragment → Option Fragment
  | .object ((_, value) :: _) _ => some value
  | _ => none

end Json.Fragment

open Json (Fragment Members)

/-! ## Decoders -/

namespace Decoder

variable {α β : Type} {decode : Decoder α} {p r : Fragment → α → Prop}

/-- Whether every value that a decoder makes is in a relation with the fragment it is made of. -/
def Reads (decode : Decoder α) (r : Fragment → α → Prop) : Prop :=
  ∀ room fragment value, decode room fragment = .ok value → r fragment value

theorem reads_any (decode : Decoder α) : decode.Reads fun _ _ => True :=
  fun _ _ _ _ => trivial

theorem Reads.mono (h : decode.Reads p) (hpr : ∀ fragment value, p fragment value → r fragment value) :
    decode.Reads r :=
  fun room fragment value hvalue => hpr fragment value (h room fragment value hvalue)

theorem Reads.map {f : α → β} {q : Fragment → β → Prop} (h : decode.Reads p)
    (hf : ∀ fragment value, p fragment value → q fragment (f value)) : (decode.map f).Reads q := by
  intro room fragment value hvalue
  obtain ⟨found, hfound, hvalue⟩ := bind_eq_ok_iff.mp hvalue
  obtain rfl := Except.ok.inj hvalue
  exact hf fragment found (h room fragment found hfound)

theorem reads_bool : bool.Reads fun fragment b => fragment = .bool b := by
  intro room fragment b h
  unfold Decoder.bool at h
  split at h
  next => exact congrArg _ (Except.ok.inj h)
  next => cases h

theorem reads_string : string.Reads fun fragment text => fragment = .string (some text) := by
  intro room fragment text h
  unfold Decoder.string at h
  split at h
  next => exact congrArg (Fragment.string ∘ some) (Except.ok.inj h)
  next => cases h

theorem reads_int64 : int64.Reads fun fragment i =>
    ∃ n, fragment = .number (.integer n) ∧ i = .ofInt n := by
  have hbetween (low high : Int) : (intBetween low high).Reads fun fragment n =>
      fragment = .number (.integer n) := by
    intro room fragment n h
    unfold intBetween at h
    split at h
    next =>
      split at h
      next => exact congrArg (Fragment.number ∘ .integer) (Except.ok.inj h)
      next => cases h
    next => cases h
  exact (hbetween _ _).map fun fragment n h => ⟨n, h, rfl⟩

/-- If values look as their fragments do, then those of a list look as its items do, in order. -/
theorem Reads.list {γ : Type} {look : Fragment → γ} {f : α → γ}
    (h : decode.Reads fun fragment value => look fragment = f value) :
    (list decode).Reads fun fragment values => fragment.items.map look = values.map f := by
  intro room fragment values hvalues
  obtain ⟨inner, items, _, -, rfl, hitems⟩ := exists_of_list_eq_ok hvalues
  exact map_eq_map_of_mapM_eq_ok hitems (h inner)

theorem reads_variant {names : List String} {plain : String → Except DecodeFault α}
    {content : String → Decoder α}
    (hplain : ∀ name value, plain name = .ok value → r (.string (some name)) value)
    (hcontent : ∀ name ∈ names, ∀ rest closed, (content name).Reads fun part =>
      r (.object ((some name, part) :: rest) closed)) : (variant names plain content).Reads r := by
  intro room fragment value hvalue
  obtain ⟨name, rfl, hname⟩ | ⟨inner, name, part, rest, closed, -, hmem, rfl, hpart⟩ :=
    exists_of_variant_eq_ok hvalue
  · exact hplain name value hname
  · exact hcontent name hmem rest closed inner part value hpart

theorem reads_names {variants : List (String × α)} : (names variants).Reads fun fragment value =>
    ∃ name, fragment.variant? = some name ∧ variants.lookup name = some value := by
  refine reads_variant (fun name value h => ⟨name, rfl, ?_⟩) ?_
  · split at h
    next hfound => exact hfound.trans (congrArg some (Except.ok.inj h))
    next => cases h
  · intro name _ rest closed room part value h
    obtain ⟨_, -, h⟩ := bind_eq_ok_iff.mp h
    refine ⟨name, rfl, ?_⟩
    dsimp only at h
    split at h
    next hfound => exact hfound.trans (congrArg some (Except.ok.inj h))
    next => cases h

/-- A kind and its content are the two parts of a fragment, whichever of them stands first. -/
theorem reads_tagged {κ : Type} {tag content : String} {kind : Decoder κ} {body : κ → Decoder α}
    {q : Fragment → κ → Prop} (hkind : kind.Reads q) {r : κ → Fragment → α → Prop}
    (hbody : ∀ k, (body k).Reads (r k)) :
    (tagged tag content kind body).Reads fun fragment value => ∃ first second k,
      fragment.part? tag 0 = some first ∧ q first k ∧
        fragment.part? content 1 = some second ∧ r k second value := by
  intro room fragment value hvalue
  unfold tagged at hvalue
  split at hvalue
  next inner members closed =>
    dsimp only at hvalue
    have hresult := Placed.eq_ok_of_also (Placed.eq_ok_of_also (Placed.eq_ok_of_also
      (Placed.eq_ok_of_also (Placed.eq_ok_of_also (Placed.eq_ok_of_forget hvalue)))))
    split at hresult
    next k at_ second rest hkindRead hcontents =>
      split at hkindRead
      next => cases hkindRead
      next first _ htags =>
        refine ⟨first, second, k, ?_, hkind _ _ _ (Placed.eq_ok_of_atPlace hkindRead), ?_,
          hbody k _ _ _ (Placed.eq_ok_of_atPlace hresult)⟩
        · rw [Fragment.part?, htags]
          rfl
        · rw [Fragment.part?, hcontents]
          rfl
    next => cases hresult
    next => cases hresult
  next inner first second =>
    obtain ⟨k, hk, hvalue⟩ := bind_eq_ok_iff.mp hvalue
    exact ⟨first, second, k, rfl, hkind _ _ _ hk, rfl, hbody k _ _ _ hvalue⟩
  next =>
    obtain ⟨k, -, hvalue⟩ := bind_eq_ok_iff.mp hvalue
    split at hvalue
    next => cases hvalue
    next =>
      obtain ⟨_, -, hvalue⟩ := bind_eq_ok_iff.mp hvalue
      cases hvalue
  next => cases hvalue

end Decoder

/-! ## Records -/

namespace Record

variable {α β : Type} {record : Record α} {place : Nat} {p r : Fragment → α → Prop}

/-- Whether every value that the fields of a record make, the first of them at the given place, is in
a relation with the fragment that the fields are parts of. -/
structure Reads (record : Record α) (place : Nat) (r : Fragment → α → Prop) : Prop where
  members : ∀ room members closed value, record.ofMembers room members = .ok value →
    r (.object members closed) value
  items : ∀ room items closed value, record.ofItems room place (items.drop place) = .ok value →
    r (.array items closed) value

theorem reads_pure (value : α) : (Record.pure value).Reads place fun _ v => v = value :=
  ⟨fun _ _ _ _ h => (Except.ok.inj h).symm, fun _ _ _ _ h => (Except.ok.inj h).symm⟩

theorem Reads.seq {f : Record (α → β)} {x : Record α} {pf : Fragment → (α → β) → Prop}
    {q : Fragment → β → Prop} (hf : f.Reads place pf) (hx : x.Reads (place + f.fields.length) p)
    (h : ∀ fragment g y, pf fragment g → p fragment y → q fragment (g y)) :
    (f <*> x).Reads place q := by
  constructor
  · intro room members closed value hvalue
    obtain ⟨g, y, hg, hy, rfl⟩ := Placed.exists_of_apply_eq_ok hvalue
    exact h _ g y (hf.members room _ _ _ hg) (hx.members room _ _ _ hy)
  · intro room items closed value hvalue
    obtain ⟨g, y, hg, hy, rfl⟩ := Placed.exists_of_apply_eq_ok hvalue
    rw [List.drop_drop] at hy
    exact h _ g y (hf.items room _ _ _ hg) (hx.items room _ _ _ hy)

theorem Reads.map {f : α → β} {q : Fragment → β → Prop} (hx : record.Reads place p)
    (h : ∀ fragment y, p fragment y → q fragment (f y)) : (f <$> record).Reads place q :=
  (reads_pure f).seq hx fun fragment _ y hg hy => hg ▸ h fragment y hy

/-- What holds whatever the last field is needs to know nothing about that field. -/
theorem Reads.seq_any {f : Record (α → β)} {x : Record α} {q : Fragment → β → Prop}
    (h : f.Reads place fun fragment g => ∀ y, q fragment (g y)) : (f <*> x).Reads place q :=
  h.seq (p := fun _ _ => True) ⟨fun _ _ _ _ _ => trivial, fun _ _ _ _ _ => trivial⟩
    fun _ _ y hg _ => hg y

/-- A required field is decoded from its part of the fragment. -/
theorem reads_required {name : String} {decode : Decoder α} (h : decode.Reads r) :
    (required name decode).Reads place fun fragment value =>
      ∃ part, fragment.part? name place = some part ∧ r part value := by
  constructor
  · intro room members closed value hvalue
    unfold required field at hvalue
    dsimp only at hvalue
    split at hvalue
    next => cases hvalue
    next at_ part rest hplaces =>
      have hpart := Placed.eq_ok_of_atPlace (Placed.eq_ok_of_also hvalue)
      refine ⟨part, ?_, h _ _ _ hpart⟩
      rw [Fragment.part?, hplaces]
      rfl
  · intro room items closed value hvalue
    unfold required field at hvalue
    dsimp only at hvalue
    split at hvalue
    next part rest hitems =>
      refine ⟨part, ?_, h _ _ _ (Placed.eq_ok_of_atPlace hvalue)⟩
      rw [Fragment.part?, ← List.head?_drop, hitems]
      rfl
    next => cases hvalue

theorem Reads.decoder (h : record.Reads 0 r) : record.decoder.Reads r := by
  intro room fragment value hvalue
  obtain ⟨inner, closed, -, ⟨members, rfl, hmembers⟩ | ⟨items, rfl, hitems⟩⟩ :=
    exists_of_decoder_eq_ok hvalue
  · exact h.members inner members closed value hmembers
  · exact h.items inner items closed value hitems

end Record
end RemoteTables
