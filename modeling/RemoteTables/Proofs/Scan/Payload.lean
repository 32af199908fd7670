import RemoteTables.Proofs.Handle.Nesting
import RemoteTables.Scan.Payload
import RemoteTables.Github.Tables

/-!
# Scans between processes

A scan is shipped as a tag and a payload, and what is received is taken apart in the same steps: the
tag, the payload with the split and the projection, the connector, and last the scan that the
connector makes of them. Each step has one lemma that says exactly when it succeeds, and together
they say which bytes are a scan (`shipped_scans`).

A scan that was made here comes back as it was, if the types of its columns do not nest too deep. A
scan that was received needs no such proviso: its types came through the wire once, so there is room
for them a second time (`yields_partsDecoder`).
-/

set_option autoImplicit false

namespace RemoteTables

open Decoder

namespace Scan

variable {ρ β : Type} {connectors : List (Connector ρ β)}

/-! ## Bytes -/

theorem decode_eq_ok_iff {bytes : ByteArray} {scan : Scan} :
    decode connectors bytes = .ok scan ↔
      ∃ payload, bytes.data.toList = tag :: payload ∧ ofPayload connectors payload = .ok scan := by
  unfold decode
  cases hbytes : bytes.data.toList with
  | nil => simp
  | cons first payload =>
    dsimp only
    split
    next hfirst =>
      rw [hfirst]
      exact ⟨fun h => ⟨payload, rfl, h⟩, fun ⟨_, hsame, h⟩ => (List.cons.inj hsame).2 ▸ h⟩
    next hfirst =>
      refine ⟨fun h => (by cases h), fun ⟨_, hsame, _⟩ => absurd (List.cons.inj hsame).1 hfirst⟩

theorem ofPayload_eq_ok_iff {payload : List UInt8} {scan : Scan} :
    ofPayload connectors payload = .ok scan ↔ ∃ split projection,
      partsDecoder.bytes payload = .ok (split, projection) ∧
      resolve connectors split projection = .ok scan := by
  simp only [ofPayload, bind_eq_ok_iff, mapError_eq_ok_iff, Prod.exists]

/-! ## Connectors -/

theorem resolve_eq_ok_iff {split : Split} {projection : Option (List Nat)} {scan : Scan} :
    resolve connectors split projection = .ok scan ↔ ∃ c,
      connectorFor? connectors split.handle.table.schema = some c ∧
      make c split projection = .ok scan := by
  simp only [resolve]
  cases connectorFor? connectors split.handle.table.schema <;> simp

theorem make_eq_ok_iff {c : Connector ρ β} {split : Split} {projection : Option (List Nat)}
    {scan : Scan} :
    make c split projection = .ok scan ↔ ∃ columns schema,
      c.columnsOf split.handle.table = .ok columns ∧
      Batch.project columns projection = .ok schema ∧
      scan = ⟨split, columns, projection, schema⟩ := by
  simp only [make, bind_eq_ok_iff, mapError_eq_ok_iff, pure, Except.pure, Except.ok.injEq]
  constructor
  · rintro ⟨columns, hcolumns, schema, hschema, rfl⟩
    exact ⟨columns, schema, hcolumns, hschema, rfl⟩
  · rintro ⟨columns, schema, hcolumns, hschema, rfl⟩
    exact ⟨columns, hcolumns, schema, hschema, rfl⟩

/-- A projection can be made just if all its positions are those of columns. -/
theorem exists_project_iff {columns : List Column} {projection : Option (List Nat)} :
    (∃ schema, Batch.project columns projection = .ok schema) ↔
      ∀ positions ∈ projection, ∀ p ∈ positions, p < columns.length := by
  constructor
  · rintro ⟨schema, h⟩ positions rfl p hp
    obtain ⟨column, hcolumn⟩ := (exists_of_mapM_eq_ok h).1 p hp
    split at hcolumn
    next hfound => exact (List.getElem?_eq_some_iff.mp hfound).1
    next => cases hcolumn
  · intro h
    cases projection with
    | none => exact ⟨columns, rfl⟩
    | some positions =>
      refine ⟨positions.map fun p => columns[p]?.getD default, mapM_eq_ok fun p hp => ?_⟩
      rw [List.getElem?_eq_getElem (h positions rfl p hp)]
      rfl

/-! ## Parts -/

theorem restores_parts {s : Scan} {room : Nat} (hroom : 5 ≤ room)
    (hdepth : ∀ entry ∈ s.split.handle.constraint.entries, entry.column.type.depth < room)
    (hpositions : ∀ positions ∈ s.projection, ∀ p ∈ positions, p < UInt64.size) :
    partsDecoder.Restores (room + 6) (s.split, s.projection) s.toJson := by
  refine Record.restores_pair (by decide) (Split.restores_in hroom hdepth) ?_
  cases hprojection : s.projection with
  | none => exact restores_none.mono (Nat.zero_le _)
  | some positions =>
    have hlist := restores_list fun p hp =>
      restores_natBelow (hpositions positions hprojection p hp)
    exact (hlist.some (by simp)).mono (Nat.le_add_left 1 _)

theorem yields_partsDecoder : partsDecoder.Yields fun room parts =>
    (∀ entry ∈ parts.1.handle.constraint.entries, entry.column.type.depth + 6 < room) ∧
      ∀ positions ∈ parts.2, ∀ p ∈ positions, p < UInt64.size := by
  have hpositions : (Decoder.list position).optional.Yields fun _ projection =>
      ∀ positions ∈ projection, ∀ p ∈ positions, p < UInt64.size :=
    (yields_natBelow UInt64.size).list.optional
  refine Record.yields_pair Split.yields_decoder hpositions (fun _ _ h => ?_) (fun _ _ h => ?_) ?_
  · obtain rfl := Option.some.inj h
    exact fun _ hnone => by cases hnone
  · cases h
  · exact fun room split projection hsplit hprojection =>
      ⟨fun entry he => Nat.succ_lt_succ (hsplit entry he), hprojection⟩

/-! ## Whole scans -/

/-- A scan that a registered connector has made comes back, if there is room for it. -/
theorem exists_decode_eq {c : Connector ρ β} {scan : Scan}
    (hc : connectorFor? connectors scan.split.handle.table.schema = some c)
    (hmake : make c scan.split scan.projection = .ok scan)
    (hdepth : ∀ entry ∈ scan.split.handle.constraint.entries, entry.column.type.depth < 121)
    (hpositions : ∀ positions ∈ scan.projection, ∀ p ∈ positions, p < UInt64.size) :
    ∃ bytes, encode (.scan scan) = .ok bytes ∧ decode connectors bytes = .ok scan := by
  have hparts := (restores_parts (by decide) hdepth hpositions).text (by decide)
  rw [← bytes_utf8] at hparts
  have hpayload := ofPayload_eq_ok_iff.mpr ⟨_, _, hparts, resolve_eq_ok_iff.mpr ⟨c, hc, hmake⟩⟩
  refine ⟨_, rfl, decode_eq_ok_iff.mpr ⟨Text.utf8 scan.toJson.render.toList, ?_, hpayload⟩⟩
  rw [Text.utf8_toList, ByteArray.toList_data_append]
  rfl

/-- What bytes that are a scan consist of. -/
theorem exists_of_decode_eq {bytes : ByteArray} {scan : Scan}
    (h : decode connectors bytes = .ok scan) :
    ∃ payload c, bytes.data.toList = tag :: payload ∧
      partsDecoder.bytes payload = .ok (scan.split, scan.projection) ∧
      connectorFor? connectors scan.split.handle.table.schema = some c ∧
      make c scan.split scan.projection = .ok scan := by
  obtain ⟨payload, hbytes, hpayload⟩ := decode_eq_ok_iff.mp h
  obtain ⟨split, projection, hparts, hresolve⟩ := ofPayload_eq_ok_iff.mp hpayload
  obtain ⟨c, hc, hmake⟩ := resolve_eq_ok_iff.mp hresolve
  obtain ⟨columns, schema, -, -, rfl⟩ := make_eq_ok_iff.mp hmake
  exact ⟨payload, c, hbytes, hparts, hc, hmake⟩

theorem schema_of_make {c : Connector ρ β} {split : Split} {projection : Option (List Nat)}
    {scan : Scan} (h : make c split projection = .ok scan) :
    split.handle.table.schema = c.schema := by
  obtain ⟨columns, schema, hcolumns, -, -⟩ := make_eq_ok_iff.mp h
  unfold Connector.columnsOf Connector.tableFor at hcolumns
  split at hcolumns
  next hschema => exact hschema
  next => cases hcolumns

/-- **Scans are shipped as they are, and nothing else passes for one.** A scan that was made by a
registered connector comes back as it was, as long as the types of its columns nest fewer than a
hundred arrays and its positions are words. Bytes are a scan just if they are the tag and a payload
that decodes to a split and a projection, the connector of the split's schema is registered and has
the table, and every position is that of a column. The scan is then the one that the connector
makes, and it comes back when it is shipped again. -/
theorem shipped_scans (connectors : List (Connector ρ β)) :
    (∀ c split projection scan, connectorFor? connectors c.schema = some c →
      make c split projection = .ok scan →
      (∀ entry ∈ split.handle.constraint.entries, entry.column.type.depth < 100) →
      (∀ positions ∈ projection, ∀ p ∈ positions, p < UInt64.size) →
      ∃ bytes, encode (.scan scan) = .ok bytes ∧ decode connectors bytes = .ok scan) ∧
    (∀ bytes, (∃ scan, decode connectors bytes = .ok scan) ↔
      ∃ payload split projection c columns, bytes.data.toList = tag :: payload ∧
        partsDecoder.bytes payload = .ok (split, projection) ∧
        connectorFor? connectors split.handle.table.schema = some c ∧
        c.columnsOf split.handle.table = .ok columns ∧
        ∀ positions ∈ projection, ∀ p ∈ positions, p < columns.length) ∧
    (∀ bytes scan, decode connectors bytes = .ok scan →
      (∃ c, connectorFor? connectors scan.split.handle.table.schema = some c ∧
        make c scan.split scan.projection = .ok scan) ∧
      ∃ again, encode (.scan scan) = .ok again ∧ decode connectors again = .ok scan) := by
  refine ⟨?_, fun bytes => ⟨?_, ?_⟩, ?_⟩
  · intro c split projection scan hc hmake hdepth hpositions
    rw [← schema_of_make hmake] at hc
    obtain ⟨columns, schema, -, -, rfl⟩ := make_eq_ok_iff.mp hmake
    exact exists_decode_eq hc hmake (fun entry he => Nat.lt_trans (hdepth entry he) (by decide))
      hpositions
  · rintro ⟨scan, h⟩
    obtain ⟨payload, c, hbytes, hparts, hc, hmake⟩ := exists_of_decode_eq h
    obtain ⟨columns, schema, hcolumns, hschema, -⟩ := make_eq_ok_iff.mp hmake
    exact ⟨payload, _, _, c, columns, hbytes, hparts, hc, hcolumns,
      exists_project_iff.mp ⟨schema, hschema⟩⟩
  · rintro ⟨payload, split, projection, c, columns, hbytes, hparts, hc, hcolumns, hbelow⟩
    obtain ⟨schema, hschema⟩ := exists_project_iff.mpr hbelow
    have hmake := make_eq_ok_iff.mpr ⟨columns, schema, hcolumns, hschema, rfl⟩
    have hresolve := resolve_eq_ok_iff.mpr ⟨c, hc, hmake⟩
    have hpayload := ofPayload_eq_ok_iff.mpr ⟨_, _, hparts, hresolve⟩
    exact ⟨_, decode_eq_ok_iff.mpr ⟨payload, hbytes, hpayload⟩⟩
  · intro bytes scan h
    obtain ⟨payload, c, -, hparts, hc, hmake⟩ := exists_of_decode_eq h
    obtain ⟨hdepth, hpositions⟩ := yields_partsDecoder.document hparts
    refine ⟨⟨c, hc, hmake⟩, exists_decode_eq hc hmake (fun entry he => ?_) hpositions⟩
    -- six containers around a type were opened before its own
    have hroom : entry.column.type.depth + 6 < 127 := hdepth entry he
    omega

/-- A split of the issues, with a column that nests. -/
def nestedSplit : Split :=
  ⟨⟨⟨Github.schemaName, "issues"⟩,
    ⟨[⟨⟨"labels", .array .varchar⟩, .ranges [⟨.inclusive (.bigInt 5), .unbounded⟩]⟩]⟩,
    0, 100, 1, some []⟩, ["host:80"]⟩

theorem shipped_scans_issues :
    ∃ scan bytes, make (Github.connector .standard) nestedSplit (some [1, 0]) = .ok scan ∧
      encode (.scan scan) = .ok bytes ∧ decode [Github.connector .standard] bytes = .ok scan ∧
      ∃ payload, bytes.data.toList = tag :: payload := by
  obtain ⟨shipped, accepted, -⟩ := shipped_scans [Github.connector .standard]
  have hmake : ∃ scan, make (Github.connector .standard) nestedSplit (some [1, 0]) = .ok scan :=
    ⟨_, rfl⟩
  obtain ⟨scan, hscan⟩ := hmake
  obtain ⟨bytes, hencode, hdecode⟩ := shipped _ _ _ _ rfl hscan (by decide) (by decide)
  obtain ⟨payload, _, _, _, _, hbytes, -⟩ := (accepted bytes).mp ⟨scan, hdecode⟩
  exact ⟨scan, bytes, hscan, hencode, hdecode, payload, hbytes⟩

end Scan
end RemoteTables
