import RemoteTables.Scan.Basic
import RemoteTables.Json.Writer

/-!
# Scans between processes

A scan is shipped as a tag byte and, behind it, its split and its projection as JSON. The table's
columns are not shipped: whoever receives a scan looks them up in a connector of its own, found by
the schema of the split, and so refuses a scan that its tables cannot answer.
-/

set_option autoImplicit false

namespace RemoteTables
namespace Scan

variable {ρ β : Type}

/-- The byte in front of a shipped scan. -/
def tag : UInt8 := 0x52

/-- A node of a plan, as far as shipping is concerned. -/
inductive Node where
  | scan (s : Scan)
  /-- Another kind of node, by its name. -/
  | other (name : String)

/-- What is written of a scan: its split and its projection. Columns and schema are found again. -/
def toJson (s : Scan) : Json :=
  .object [("split", s.split.toJson),
    ("projection", .ofOption (fun positions => .array (positions.map fun p => .int (Int.ofNat p)))
      s.projection)]

/-- Reads the split and the projection of a shipped scan; the projection may be missing. -/
def partsDecoder : Decoder (Split × Option (List Nat)) :=
  Record.decoder (Prod.mk <$> .required "split" Split.decoder
    <*> .optional "projection" (Decoder.list Decoder.position))

/-- The bytes of a node, if it is a scan: the tag, and the scan as a text. -/
def encode : Node → Except ScanFault ByteArray
  | .scan s => .ok (ByteArray.mk #[tag] ++ s.toJson.render.toUTF8)
  | .other name => .error (.notAScan name)

/-- The connector for a schema; of two the later counts. -/
def connectorFor? (connectors : List (Connector ρ β)) (schema : String) : Option (Connector ρ β) :=
  connectors.reverse.find? fun c => c.schema == schema

/-- Makes the scan of a split and a projection with the connector of the split's schema. -/
def resolve (connectors : List (Connector ρ β)) (split : Split) (projection : Option (List Nat)) :
    Except ScanFault Scan :=
  let schema := split.handle.table.schema
  match connectorFor? connectors schema with
  | some c => make c split projection
  | none => .error (.noConnector schema)

/-- The scan of a payload. Its connector is found by the schema of the split. -/
def ofPayload (connectors : List (Connector ρ β)) (payload : List UInt8) :
    Except ScanFault Scan := do
  let (split, projection) ← (partsDecoder.bytes payload).mapError .payload
  resolve connectors split projection

/-- The scan of some bytes, which begin with the tag. -/
def decode (connectors : List (Connector ρ β)) (bytes : ByteArray) : Except ScanFault Scan :=
  match bytes.data.toList with
  | [] => .error .emptyPayload
  | first :: rest =>
    if first = tag then ofPayload connectors rest else .error (.unknownTag first)

/-- The schemas that scans can be received for, in messages. -/
def describe (connectors : List (Connector ρ β)) : String :=
  let schemas := ((connectors.map Connector.schema).eraseDups).mergeSort fun a b => decide (a ≤ b)
  Text.record "RestPhysicalCodec" [("schemas", Text.bracketed (schemas.map Text.quoted))]

end Scan
end RemoteTables
