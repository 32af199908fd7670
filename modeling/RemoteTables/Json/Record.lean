import RemoteTables.Json.Decode

/-!
# Records

A record is written as an object of its fields, or as an array of them in order. A reader that
goes through the text once meets faults in the order of the text: the value of a field that does
not decode, a field given a second time, a stranger that is not complete JSON, the end that does
not come; and only when the end has come are the fields looked at that were never given, in the
order of their declaration.

That order is the rule implemented here, without going through the text once. Every field is read
on its own, and a fault is kept together with the place it was met (`Placed`): the place of a member
is its number, the end comes after all members, and what is missing comes after the end. Two
readings are combined by keeping the fault with the smaller place. So a record is described by its
fields, in order, joined applicatively, and each field is decoded exactly once.
-/

set_option autoImplicit false

namespace RemoteTables

/-- A value, or the fault with the place where a reader of the text meets it. -/
abbrev Placed (α : Type) := Except (Nat × DecodeFault) α

namespace Placed

variable {α β : Type}

/-- What was read at a place. -/
def atPlace (place : Nat) : Except DecodeFault α → Placed α
  | .ok value => .ok value
  | .error fault => .error (place, fault)

/-- Applies one reading to another; of two faults the one met first stays. -/
def apply (f : Placed (α → β)) (x : Placed α) : Placed β :=
  match f, x with
  | .ok f, .ok x => .ok (f x)
  | .error fault, .ok _ => .error fault
  | .ok _, .error fault => .error fault
  | .error first, .error second => .error (if second.1 < first.1 then second else first)

/-- Keeps a value only if nothing else is wrong. -/
def also (x : Placed α) (check : Placed Unit) : Placed α :=
  apply (x.map fun value _ => value) check

/-- What was read, without the place. -/
def forget : Placed α → Except DecodeFault α
  | .ok value => .ok value
  | .error (_, fault) => .error fault

end Placed

namespace Json

/-- The members of an object, as the reader found them. -/
abbrev Members := List (Option String × Fragment)

/-- The places at which a field with one of the given names stands, with what stands there. -/
def places (names : List String) (members : Members) : List (Nat × Fragment) :=
  members.zipIdx.filterMap fun ((name, value), place) =>
    match name with
    | some name => if names.contains name then some (place, value) else none
    | none => none

end Json

/-- The fault of a field that stands at a second place. -/
def Json.secondTime (name : String) : List (Nat × Json.Fragment) → Placed Unit
  | _ :: (place, _) :: _ => .error (place, .duplicateField name)
  | _ => .ok ()

open Json (Fragment Members)

/-- How a record is read. -/
structure Record (α : Type) where
  /-- The names of each field, its own name first. -/
  fields : List (List String)
  /-- Reads the fields from the members of an object. -/
  ofMembers : (room : Nat) → Members → Placed α
  /-- Reads the fields from the items of an array, the first of them at the given place. -/
  ofItems : (room : Nat) → (place : Nat) → List Fragment → Placed α

namespace Record

variable {α β : Type}

/-- The record without fields. -/
protected def pure (value : α) : Record α :=
  ⟨[], fun _ _ => .ok value, fun _ _ _ => .ok value⟩

/-- A record with the fields of one and then those of another. -/
def join (f : Record (α → β)) (x : Record α) : Record β where
  fields := f.fields ++ x.fields
  ofMembers room members := (f.ofMembers room members).apply (x.ofMembers room members)
  ofItems room place items :=
    (f.ofItems room place items).apply
      (x.ofItems room (place + f.fields.length) (items.drop f.fields.length))

instance : Functor Record where
  map f x := join (Record.pure f) x

instance : Seq Record where
  seq f x := join f (x ())

instance : Pure Record where
  pure := Record.pure

/-- One field. `absent` is its value when an object does not mention it and `short` when an array
ends before it; without one the field is missing, or the array too short. -/
def field (name : String) (others : List String) (absent short : Option α) (decode : Decoder α) :
    Record α where
  fields := [name :: others]
  ofMembers room members :=
    let found := Json.places (name :: others) members
    match found with
    | [] =>
      match absent with
      | some value => .ok value
      | none => .error (members.length + 1, .missingField name)
    | (place, value) :: _ =>
      (Placed.atPlace place (decode room value)).also (Json.secondTime name found)
  ofItems room place items :=
    match items with
    | value :: _ => .atPlace place (decode room value)
    | [] =>
      match short with
      | some value => .ok value
      | none => .error (place, .malformed)

/-- A field that must be there. -/
def required (name : String) (decode : Decoder α) : Record α :=
  field name [] none none decode

/-- A field that may be missing or `null`. -/
def optional (name : String) (decode : Decoder α) : Record (Option α) :=
  field name [] (some none) none decode.optional

/-- A field that has a value of its own when it is missing. -/
def withDefault (name : String) (default : α) (decode : Decoder α) : Record α :=
  field name [] (some default) (some default) decode

/-- The first member that belongs to no field and is not complete, or whose name is no text. -/
def strangers (known : List String) (members : Members) : Placed Unit :=
  let bad := members.zipIdx.find? fun ((name, value), _) =>
    match name with
    | some name => !known.contains name && !value.intact
    | none => true
  match bad with
  | some (_, place) => .error (place, .malformed)
  | none => .ok ()

/-- The end of a container with so many parts. -/
def ending (closed : Bool) (parts : Nat) : Placed Unit :=
  if closed then .ok () else .error (parts, .malformed)

/-- Reads a record, as an object or as an array of its fields. -/
def decoder (record : Record α) : Decoder α
  | room + 1, .object members closed =>
    (((record.ofMembers room members).also (strangers record.fields.flatten members)).also
      (ending closed members.length)).forget
  | room + 1, .array items closed =>
    let extra : Placed Unit :=
      if record.fields.length < items.length then .error (record.fields.length, .malformed)
      else .ok ()
    (((record.ofItems room 0 items).also extra).also (ending closed items.length)).forget
  | _, _ => .error .malformed

end Record

/-! ## A kind and its content

A value of several kinds can be written as a record of two fields, the kind and the content, in
either order. A reader that meets the content first has to set it aside until the kind is known, so
it must be readable as it stands, and what is wrong with it for its kind shows only at the kind. -/

/-- Reads the kind and then the content, by the decoder of that kind. -/
def Decoder.tagged {κ α : Type} (tag content : String) (kind : Decoder κ) (body : κ → Decoder α) :
    Decoder α
  | room + 1, .object members closed =>
    let tags := Json.places [tag] members
    let contents := Json.places [content] members
    let kindRead : Placed κ := match tags with
      | [] => .error (members.length + 1, .missingField tag)
      | (place, value) :: _ => .atPlace place (kind room value)
    let tagPlace := match tags with
      | [] => members.length
      | (place, _) :: _ => place
    let setAside : Placed Unit := match contents with
      | [] => .error (members.length + 1, .missingField content)
      | (place, value) :: _ =>
        if place < tagPlace && !Decoder.readable room value then .error (place, .malformed)
        else .ok ()
    let result : Placed α := match kindRead, contents with
      | .ok kind, (place, value) :: _ => .atPlace (max place tagPlace) (body kind room value)
      | .ok _, [] => .error (members.length + 1, .missingField content)
      | .error fault, _ => .error fault
    (((((result.also setAside).also (Json.secondTime tag tags)).also
      (Json.secondTime content contents)).also (Record.strangers [tag, content] members)).also
      (Record.ending closed members.length)).forget
  | room + 1, .array [first, second] true => do
    let kind ← kind room first
    body kind room second
  | room + 1, .array (first :: rest) _ => do
    let kind ← kind room first
    match rest with
    | [] => .error .malformed
    | second :: _ =>
      let _ ← body kind room second
      .error .malformed
  | _, _ => .error .malformed

end RemoteTables
