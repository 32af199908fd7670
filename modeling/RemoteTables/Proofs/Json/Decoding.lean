import RemoteTables.Proofs.Attempts
import RemoteTables.Proofs.Json.Reading
import RemoteTables.Proofs.Text.Utf8
import RemoteTables.Json.Record

/-!
# Decoding what was written

For every way of putting a JSON value together there is a decoder that takes it apart, and one lemma
here says that the decoder gets back what was put in. `Decoder.Restores` is the statement they
share. It names the room for nesting that is enough, since every container that is opened takes some
of it.
-/

set_option autoImplicit false

namespace RemoteTables

open Json (Fragment)

namespace Json

@[simp]
theorem Fragment.ofItems_eq_map (items : List Json) :
    Fragment.ofItems items = items.map Fragment.ofJson := by
  induction items with
  | nil => rfl
  | cons item rest ih => rw [Fragment.ofItems, ih, List.map_cons]

@[simp]
theorem Fragment.ofMembers_eq_map (members : List (String × Json)) :
    Fragment.ofMembers members = members.map fun m => (some m.1, Fragment.ofJson m.2) := by
  induction members with
  | nil => rfl
  | cons member rest ih => rw [Fragment.ofMembers, ih, List.map_cons]

theorem Fragment.intact_ofJson (value : Json) : (Fragment.ofJson value).intact = true := by
  cases value <;> rfl

/-- A name that is given once has one place. -/
theorem places_ofMembers {name : String} {value : Json} {members : List (String × Json)}
    (hnodup : (members.map Prod.fst).Nodup) (hmember : (name, value) ∈ members) :
    ∃ place, places [name] (Fragment.ofMembers members) = [(place, Fragment.ofJson value)] := by
  obtain ⟨before, behind, rfl⟩ := List.append_of_mem hmember
  rw [List.map_append, List.map_cons, List.nodup_append] at hnodup
  obtain ⟨-, hbehind, hapart⟩ := hnodup
  have hgiven : ∀ {others : List (String × Json)} {start : Nat} {given : Option String × Fragment}
      {place : Nat}, (given, place) ∈ (Fragment.ofMembers others).zipIdx start →
      ∃ m ∈ others, (some m.1, Fragment.ofJson m.2) = given := by
    intro others start given place hplace
    rw [Fragment.ofMembers_eq_map] at hplace
    exact List.mem_map.mp (List.fst_mem_of_mem_zipIdx hplace)
  have hmembers : Fragment.ofMembers (before ++ (name, value) :: behind) =
      Fragment.ofMembers before ++
        (some name, Fragment.ofJson value) :: Fragment.ofMembers behind := by
    simp
  refine ⟨0 + (Fragment.ofMembers before).length, ?_⟩
  rw [places, hmembers, List.zipIdx_append, List.filterMap_append, List.zipIdx_cons,
    List.filterMap_cons, List.filterMap_eq_nil_iff.mpr, List.filterMap_eq_nil_iff.mpr]
  · simp
  · rintro ⟨given, place⟩ hplace
    obtain ⟨m, hm, rfl⟩ := hgiven hplace
    have hne : m.1 ≠ name := by
      intro hsame
      exact (List.nodup_cons.mp hbehind).1 (List.mem_map.mpr ⟨m, hm, hsame⟩)
    simp [hne]
  · rintro ⟨given, place⟩ hplace
    obtain ⟨m, hm, rfl⟩ := hgiven hplace
    have hne : m.1 ≠ name := hapart m.1 (List.mem_map_of_mem hm) name List.mem_cons_self
    simp [hne]

end Json

/-- A complete object has no stranger that is not complete. -/
theorem Record.strangers_ofMembers (known : List String) (members : List (String × Json)) :
    strangers known (Fragment.ofMembers members) = .ok () := by
  rw [strangers, List.find?_eq_none.mpr]
  rintro ⟨given, place⟩ hplace
  rw [Json.Fragment.ofMembers_eq_map] at hplace
  obtain ⟨m, -, rfl⟩ := List.mem_map.mp (List.fst_mem_of_mem_zipIdx hplace)
  simp [Json.Fragment.intact_ofJson]

namespace Decoder

variable {α β : Type} {decode : Decoder α} {room : Nat} {value : α} {json : Json}

/-- Whether a decoder makes a value of what an exact JSON value is read as, if it has so much room
or more. -/
structure Restores (decode : Decoder α) (room : Nat) (value : α) (json : Json) : Prop where
  exact : json.Exact
  decodes : ∀ {larger : Nat}, room ≤ larger → decode larger (.ofJson json) = .ok value

/-- Room around a container leaves its room for what is in it. -/
theorem exists_inner {larger : Nat} (hroom : room + 1 ≤ larger) :
    ∃ inner, larger = inner + 1 ∧ room ≤ inner :=
  ⟨larger - 1, by omega, by omega⟩

theorem Restores.mono (h : decode.Restores room value json) {larger : Nat} (hroom : room ≤ larger) :
    decode.Restores larger value json :=
  ⟨h.exact, fun hlarger => h.decodes (Nat.le_trans hroom hlarger)⟩

/-- A value that is written and restored survives as a text. -/
theorem Restores.text (h : decode.Restores room value json) (hroom : room ≤ fullRoom) :
    decode.text json.render = .ok value := by
  rw [Decoder.text, h.exact.read_render, Decoder.document]
  simp only [h.decodes hroom, bind, Except.bind]
  rfl

/-- Bytes that are a text are decoded as the text. -/
theorem bytes_utf8 (decode : Decoder α) (source : String) :
    decode.bytes (Text.utf8 source.toList) = decode.text source := by
  unfold Decoder.bytes Json.readBytes
  rw [Text.pieces_utf8, List.foldl_map]
  rfl

theorem Restores.map (h : decode.Restores room value json) (f : α → β) :
    (decode.map f).Restores room (f value) json where
  exact := h.exact
  decodes hroom := by
    rw [Decoder.map, h.decodes hroom]
    rfl

/-! ## Plain values -/

theorem restores_bool (b : Bool) : bool.Restores 0 b (.bool b) := ⟨.bool b, fun _ => rfl⟩

theorem restores_string (s : String) : string.Restores 0 s (.string s) := ⟨.string s, fun _ => rfl⟩

theorem restores_int64 (i : Int64) : int64.Restores 0 i (.int i.toInt) where
  exact := .int _
  decodes _ := by
    have hrange : Int64.minValue.toInt ≤ i.toInt ∧ i.toInt ≤ Int64.maxValue.toInt :=
      ⟨Int64.minValue_le_toInt i, Int64.toInt_le i⟩
    simp only [int64, Decoder.map, Fragment.ofJson, intBetween, if_pos hrange]
    exact congrArg Except.ok (Int64.ofInt_toInt i)

theorem restores_natBelow {bound n : Nat} (h : n < bound) :
    (natBelow bound).Restores 0 n (.int n) where
  exact := .int _
  decodes _ := if_pos h

theorem restores_uint64 (n : UInt64) : uint64.Restores 0 n (.int n.toNat) := by
  have h := (restores_natBelow n.toNat_lt).map UInt64.ofNat
  rwa [UInt64.ofNat_toNat] at h

theorem restores_uint32 (n : UInt32) : uint32.Restores 0 n (.int n.toNat) := by
  have h := (restores_natBelow n.toNat_lt).map UInt32.ofNat
  rwa [UInt32.ofNat_toNat] at h

/-! ## Lists and missing values -/

theorem restores_list {toJson : α → Json} {values : List α}
    (h : ∀ v ∈ values, decode.Restores room v (toJson v)) :
    (list decode).Restores (room + 1) values (.array (values.map toJson)) where
  exact := by
    refine .array fun item hitem => ?_
    obtain ⟨v, hv, rfl⟩ := List.mem_map.mp hitem
    exact (h v hv).exact
  decodes {larger} hroom := by
    obtain ⟨inner, rfl, hinner⟩ := exists_inner hroom
    have hitems : (Fragment.ofItems (values.map toJson)).mapM (decode inner) = .ok values := by
      rw [Fragment.ofItems_eq_map, List.map_map, List.mapM_map]
      have hall := mapM_eq_ok fun v hv => (h v hv).decodes hinner
      rwa [List.map_id'] at hall
    rw [Fragment.ofJson, list]
    simp only [hitems]
    rfl

theorem restores_none : decode.optional.Restores 0 none .null := ⟨.null, fun _ => rfl⟩

theorem Restores.some (h : decode.Restores room value json) (hnull : json ≠ .null) :
    decode.optional.Restores room (some value) json where
  exact := h.exact
  decodes hroom := by
    have hdecodes := congrArg (Except.map Option.some) (h.decodes hroom)
    cases json with
    | null => exact absurd rfl hnull
    | _ => exact hdecodes

/-! ## Variants -/

section Variants

variable {names : List String} {plain : String → Except DecodeFault α}
  {content : String → Decoder α} {name : String} (hname : names.contains name = true)
include hname

theorem restores_plain (h : plain name = .ok value) :
    (variant names plain content).Restores 0 value (.string name) where
  exact := .string name
  decodes _ := by
    rw [Fragment.ofJson, variant, if_pos hname, h]

theorem restores_content (h : (content name).Restores room value json) :
    (variant names plain content).Restores (room + 1) value (.object [(name, json)]) where
  exact := .object fun member hmember => List.mem_singleton.mp hmember ▸ h.exact
  decodes {larger} hroom := by
    obtain ⟨inner, rfl, hinner⟩ := exists_inner hroom
    rw [Fragment.ofJson, Fragment.ofMembers_eq_map, List.map_singleton, variant, if_pos hname,
      h.decodes hinner]
    rfl

end Variants

theorem restores_names {variants : List (String × α)} {name : String}
    (h : variants.lookup name = some value) :
    (names variants).Restores 0 value (.string name) := by
  have hname : (variants.map Prod.fst).contains name = true := by
    rw [List.contains_iff_mem]
    obtain ⟨before, behind, rfl, -⟩ := List.lookup_eq_some_iff.mp h
    exact List.mem_map.mpr ⟨(name, value), by simp, rfl⟩
  refine restores_plain hname ?_
  simp only [h]

/-- A kind is read before its content, and says how the content is to be read. -/
theorem restores_tagged {κ : Type} {tag content : String} (hnames : tag ≠ content)
    {kind : Decoder κ} {body : κ → Decoder α} {k : κ} {tagJson contentJson : Json}
    (hkind : kind.Restores room k tagJson) (hbody : (body k).Restores room value contentJson) :
    (tagged tag content kind body).Restores (room + 1) value
      (.object [(tag, tagJson), (content, contentJson)]) where
  exact := by
    refine .object fun member hmember => ?_
    rcases List.mem_cons.mp hmember with rfl | hmember
    · exact hkind.exact
    · exact List.mem_singleton.mp hmember ▸ hbody.exact
  decodes {larger} hroom := by
    obtain ⟨inner, rfl, hinner⟩ := exists_inner hroom
    have htag : Json.places [tag] (Fragment.ofMembers [(tag, tagJson), (content, contentJson)]) =
        [(0, .ofJson tagJson)] := by
      simp [Json.places, hnames.symm]
    have hcontent :
        Json.places [content] (Fragment.ofMembers [(tag, tagJson), (content, contentJson)]) =
          [(1, .ofJson contentJson)] := by
      simp [Json.places, hnames]
    rw [Fragment.ofJson, tagged]
    simp only [htag, hcontent, hkind.decodes hinner, Placed.atPlace, hbody.decodes hinner,
      Record.strangers_ofMembers]
    rfl

end Decoder

/-! ## Records -/

namespace Record

variable {α β : Type} {room : Nat} {value : α} {members : List (String × Json)}

/-- Whether the fields of a record are restored from the members of an object. -/
def Restores (record : Record α) (room : Nat) (members : List (String × Json)) (value : α) : Prop :=
  ∀ larger, room ≤ larger → record.ofMembers larger (Fragment.ofMembers members) = .ok value

theorem restores_map {record : Record α} (h : record.Restores room members value) (f : α → β) :
    (f <$> record).Restores room members (f value) := by
  intro larger hroom
  show Placed.apply (.ok f) (record.ofMembers larger (Fragment.ofMembers members)) = _
  rw [h larger hroom]
  rfl

theorem restores_seq {f : Record (α → β)} {x : Record α} {g : α → β}
    (hf : f.Restores room members g) (hx : x.Restores room members value) :
    (f <*> x).Restores room members (g value) := by
  intro larger hroom
  show Placed.apply (f.ofMembers larger (Fragment.ofMembers members))
    (x.ofMembers larger (Fragment.ofMembers members)) = _
  rw [hf larger hroom, hx larger hroom]
  rfl

variable {decode : Decoder α} {fieldRoom : Nat} {name : String} {json : Json}
  (hnodup : (members.map Prod.fst).Nodup) (hmember : (name, json) ∈ members)
  (hroom : fieldRoom ≤ room)
include hnodup hmember hroom

/-- A field that the object mentions once is restored, whatever it would be otherwise. -/
theorem restores_field {absent short : Option α} (h : decode.Restores fieldRoom value json) :
    (field name [] absent short decode).Restores room members value := by
  intro larger hlarger
  obtain ⟨place, hplace⟩ := Json.places_ofMembers hnodup hmember
  simp only [field, hplace, h.decodes (Nat.le_trans hroom hlarger)]
  rfl

omit hmember hroom in
/-- A field that may be missing is none if it is `null`. -/
theorem restores_null {decode : Decoder α} (hnull : (name, Json.null) ∈ members) :
    (optional name decode).Restores room members none :=
  restores_field hnodup hnull (Nat.zero_le room) Decoder.restores_none

end Record

/-- A record is restored from an object of its fields. -/
theorem Record.Restores.decoder {α : Type} {record : Record α} {room : Nat}
    {members : List (String × Json)} {value : α} (h : record.Restores room members value)
    (hexact : ∀ member ∈ members, member.2.Exact) :
    record.decoder.Restores (room + 1) value (.object members) where
  exact := .object hexact
  decodes {larger} hroom := by
    obtain ⟨inner, rfl, hinner⟩ := Decoder.exists_inner hroom
    rw [Fragment.ofJson, Record.decoder, h inner hinner,
      Record.strangers_ofMembers]
    rfl

theorem Record.restores_pair {α β γ : Type} {make : α → β → γ} {first second : String}
    (hapart : first ≠ second) {room : Nat} {decodeFirst : Decoder α} {x : α} {firstJson : Json}
    (hx : decodeFirst.Restores room x firstJson) {decodeSecond : Decoder β}
    {absent short : Option β} {y : β} {secondJson : Json}
    (hy : decodeSecond.Restores room y secondJson) :
    (Record.decoder (make <$> required first decodeFirst
      <*> field second [] absent short decodeSecond)).Restores (room + 1) (make x y)
      (.object [(first, firstJson), (second, secondJson)]) := by
  have hnodup : ([(first, firstJson), (second, secondJson)].map Prod.fst).Nodup := by
    simpa using hapart
  refine Record.Restores.decoder ?_ (by simp [hx.exact, hy.exact])
  refine Record.restores_seq (Record.restores_map ?_ _) ?_
  · exact Record.restores_field hnodup (by simp) (Nat.le_refl _) hx
  · exact Record.restores_field hnodup (by simp) (Nat.le_refl _) hy

end RemoteTables
