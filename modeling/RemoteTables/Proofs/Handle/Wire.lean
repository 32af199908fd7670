import RemoteTables.Proofs.Json.Decoding
import RemoteTables.Handle

/-!
# Handles on the wire

A handle is written as JSON and read back by another process. Every part of it is restored, whether
or not it is in order: literals by their kind, ends of ranges and domains as variants, columns and
handles as records. The room for nesting that this needs is counted from the inside out. All parts
but one nest to a fixed depth. The exception is the type of a column, so a split survives the wire
if the types of its columns do not nest too deep (`survives_wire`).
-/

set_option autoImplicit false

namespace RemoteTables

open Decoder

/-! ## Literals and domains -/

theorem Literal.restores (v : Literal) : Literal.decoder.Restores 1 v v.toJson := by
  have hapart : "type" ≠ "value" := by decide
  have hkind : ∀ name kind, kindNames.lookup name = some kind →
      (names kindNames).Restores 0 kind (.string name) := fun _ _ => restores_names
  cases v with
  | boolean b => exact restores_tagged hapart (hkind _ 0 rfl) ((restores_bool b).map boolean)
  | bigInt i => exact restores_tagged hapart (hkind _ 1 rfl) ((restores_int64 i).map bigInt)
  | varchar s => exact restores_tagged hapart (hkind _ 2 rfl) ((restores_string s).map varchar)
  | timestamp t => exact restores_tagged hapart (hkind _ 3 rfl) ((restores_int64 t).map timestamp)

theorem Bound.restores (b : Bound) : Bound.decoder.Restores 2 b b.toJson := by
  cases b with
  | unbounded =>
    have hplain : Bound.decoder.Restores 0 .unbounded (.string "unbounded") :=
      restores_plain rfl rfl
    exact hplain.mono (by decide)
  | inclusive l => exact restores_content rfl (l.restores.map inclusive)
  | exclusive l => exact restores_content rfl (l.restores.map exclusive)

theorem Range.restores (r : Range) : Range.decoder.Restores 3 r r.toJson :=
  Record.restores_pair (by decide) r.low.restores r.high.restores

theorem Domain.restores (d : Domain) : Domain.decoder.Restores 5 d d.toJson := by
  cases d with
  | all =>
    have hplain : Domain.decoder.Restores 0 .all (.string "all") := restores_plain rfl rfl
    exact hplain.mono (by decide)
  | values vs =>
    have hvalues : Domain.decoder.Restores 3 (.values vs)
        (.object [("values", .array (vs.map Literal.toJson))]) :=
      restores_content rfl ((restores_list fun v _ => v.restores).map values)
    exact hvalues.mono (by decide)
  | ranges rs =>
    exact restores_content rfl ((restores_list fun r _ => r.restores).map ranges)

/-! ## Columns and constraints -/

/-- How many arrays a type has around its innermost element. -/
def ColumnType.depth : ColumnType → Nat
  | array element => element.depth + 1
  | _ => 0

theorem ColumnType.restores (type : ColumnType) :
    ColumnType.decoder.Restores type.depth type type.toJson := by
  have hplain : ∀ (name : String) (type : ColumnType), names.contains name = true →
      plain name = .ok type → ColumnType.decoder.Restores 0 type (.string name) := by
    intro name type hname htype
    refine ⟨.string name, fun {larger} _ => ?_⟩
    cases larger with
    | zero => exact (restores_plain hname htype).decodes (Nat.zero_le _)
    | succ inner => exact (restores_plain hname htype).decodes (Nat.zero_le _)
  induction type with
  | boolean => exact hplain _ _ rfl rfl
  | bigInt => exact hplain _ _ rfl rfl
  | double => exact hplain _ _ rfl rfl
  | varchar => exact hplain _ _ rfl rfl
  | timestamp => exact hplain _ _ rfl rfl
  | array element ih =>
    refine ⟨.object (List.forall_mem_singleton.mpr ih.exact), fun {larger} hroom => ?_⟩
    obtain ⟨inner, rfl, hinner⟩ := exists_inner hroom
    have helement := ih.decodes hinner
    -- the room of the element is fixed by the recursion, so the content reads alike in any room
    have hcontent : Restores (fun _ fragment => (ColumnType.decoder inner fragment).map array) 0
        (array element) element.toJson :=
      ⟨ih.exact, fun _ => by rw [helement]; rfl⟩
    exact (restores_content rfl hcontent).decodes (Nat.le_add_left _ _)

theorem ColumnRef.restores (c : ColumnRef) :
    ColumnRef.decoder.Restores (c.type.depth + 1) c c.toJson :=
  Record.restores_pair (by decide) ((restores_string c.name).mono (Nat.zero_le _)) c.type.restores

section Room

variable {room : Nat} (hroom : 5 ≤ room)
include hroom

theorem Constraint.restores_entry {entry : ColumnDomain} (h : entry.column.type.depth < room) :
    entryDecoder.Restores (room + 1) entry
      (.object [("column", entry.column.toJson), ("domain", entry.domain.toJson)]) :=
  Record.restores_pair (by decide) (entry.column.restores.mono h) (entry.domain.restores.mono hroom)

theorem Constraint.restores {c : Constraint}
    (h : ∀ entry ∈ c.entries, entry.column.type.depth < room) :
    Constraint.decoder.Restores (room + 3) c c.toJson := by
  have hentries := restores_list fun entry he => restores_entry hroom (h entry he)
  refine Record.Restores.decoder ?_ (List.forall_mem_singleton.mpr hentries.exact)
  apply Record.restores_map
  apply Record.restores_field
  · simp
  · exact List.mem_cons_self
  · exact Nat.le_refl _
  · exact hentries

end Room

/-! ## Handles and splits -/

theorem TableName.restores (name : TableName) : TableName.decoder.Restores 1 name name.toJson :=
  Record.restores_pair (by decide) (restores_string name.schema) (restores_string name.table)

theorem SortDirection.restores (d : SortDirection) :
    SortDirection.decoder.Restores 0 d (.string d.display) := by
  cases d with
  | ascending => exact restores_names rfl
  | descending => exact restores_names rfl

theorem SortItem.restores (item : SortItem) : SortItem.decoder.Restores 1 item item.toJson :=
  Record.restores_pair (by decide) (restores_string item.name) item.direction.restores

theorem TableHandle.restores_sortOrder (items : Option (List SortItem)) :
    (Decoder.list SortItem.decoder).optional.Restores 2 items
      (.ofOption (fun items => .array (items.map SortItem.toJson)) items) := by
  cases items with
  | none => exact restores_none.mono (by decide)
  | some items =>
    exact (restores_list fun item _ => item.restores).some (by simp)

/-- A handle is restored in room for the types of its columns and for what is around them. -/
theorem TableHandle.restores_in {h : TableHandle} {room : Nat} (hroom : 5 ≤ room)
    (hdepth : ∀ entry ∈ h.constraint.entries, entry.column.type.depth < room) :
    TableHandle.decoder.Restores (room + 4) h h.toJson := by
  have htable := h.table.restores
  have hconstraint := Constraint.restores hroom hdepth
  have hoffset := restores_uint32 h.offset
  have hlimit := restores_uint64 h.limit
  have hincrement := restores_uint32 h.pageIncrement
  have hsort := restores_sortOrder h.sortOrder
  have hnodup : ([("schemaTableName", h.table.toJson), ("constraint", h.constraint.toJson),
      ("offset", Json.int h.offset.toNat), ("limit", .int h.limit.toNat),
      ("pageIncrement", .int h.pageIncrement.toNat),
      ("sortOrder", .ofOption (fun items => .array (items.map SortItem.toJson)) h.sortOrder)].map
      Prod.fst).Nodup := by simp
  refine Record.Restores.decoder ?_ (by simp [htable.exact, hconstraint.exact, hoffset.exact,
    hlimit.exact, hincrement.exact, hsort.exact])
  refine Record.restores_seq (Record.restores_seq (Record.restores_seq (Record.restores_seq
    (Record.restores_seq (Record.restores_map ?_ _) ?_) ?_) ?_) ?_) ?_
  · exact Record.restores_field hnodup (by simp) (by omega) htable
  · exact Record.restores_field hnodup (by simp) (by omega) hconstraint
  · exact Record.restores_field hnodup (by simp) (by omega) hoffset
  · exact Record.restores_field hnodup (by simp) (by omega) hlimit
  · exact Record.restores_field hnodup (by simp) (by omega) hincrement
  · exact Record.restores_field hnodup (by simp) (by omega) hsort

theorem Split.restores_in {split : Split} {room : Nat} (hroom : 5 ≤ room)
    (hdepth : ∀ entry ∈ split.handle.constraint.entries, entry.column.type.depth < room) :
    Split.decoder.Restores (room + 5) split split.toJson := by
  have haddresses := restores_list fun address (_ : address ∈ split.addresses) =>
    restores_string address
  exact Record.restores_pair (by decide) (TableHandle.restores_in hroom hdepth)
    (haddresses.mono (Nat.le_add_left 1 _))

theorem TableHandle.restores {h : TableHandle} {depth : Nat}
    (hdepth : ∀ entry ∈ h.constraint.entries, entry.column.type.depth ≤ depth) :
    TableHandle.decoder.Restores (depth + 9) h h.toJson :=
  restores_in (Nat.le_add_left 5 depth) fun entry he =>
    Nat.lt_of_le_of_lt (hdepth entry he) (Nat.lt_add_of_pos_right (by decide))

theorem Split.restores {split : Split} {depth : Nat}
    (hdepth : ∀ entry ∈ split.handle.constraint.entries, entry.column.type.depth ≤ depth) :
    Split.decoder.Restores (depth + 10) split split.toJson :=
  restores_in (Nat.le_add_left 5 depth) fun entry he =>
    Nat.lt_of_le_of_lt (hdepth entry he) (Nat.lt_add_of_pos_right (by decide))

/-- **Splits and handles survive the wire**, in order or not, as long as the types of their columns
nest fewer than a hundred arrays. -/
theorem survives_wire (split : Split)
    (hdepth : ∀ entry ∈ split.handle.constraint.entries, entry.column.type.depth < 100) :
    Split.decoder.text split.toJson.render = .ok split ∧
      TableHandle.decoder.text split.handle.toJson.render = .ok split.handle := by
  have hdepth' : ∀ entry ∈ split.handle.constraint.entries, entry.column.type.depth ≤ 99 :=
    fun entry he => Nat.le_of_lt_succ (hdepth entry he)
  exact ⟨(Split.restores hdepth').text (by decide), (TableHandle.restores hdepth').text (by decide)⟩

/-- A split that nothing here would make: columns and values out of order, an end below nothing, a
stride of zero, and names with characters that have to be escaped. -/
def Split.disordered : Split :=
  ⟨⟨⟨"a\"b", "ä\\\n"⟩,
    ⟨[⟨⟨"z\x01", .array (.array .double)⟩,
        .ranges [⟨.exclusive (.varchar "\t"), .unbounded⟩,
          ⟨.inclusive (.timestamp (-1)), .exclusive (.bigInt 5)⟩]⟩,
      ⟨⟨"a", .varchar⟩, .values [.varchar "é", .boolean true, .varchar ""]⟩]⟩,
    3, noLimit, 0, some []⟩, ["host:80"]⟩

theorem survives_wire_disordered :
    Split.decoder.text Split.disordered.toJson.render = .ok Split.disordered ∧
      TableHandle.decoder.text Split.disordered.handle.toJson.render =
        .ok Split.disordered.handle :=
  survives_wire Split.disordered (by decide)

end RemoteTables
