import RemoteTables.Column
import RemoteTables.Value
import RemoteTables.Failure

/-!
# Faults of planning and scanning

Beside the failures of a connector, which pass through unchanged, a scan can go wrong in ways of its
own: a projection that names no column, a row that does not fit the columns, a payload that is not
one. Some of these are found by the layer that stores columns and some are the scan's own; the
wording tells them apart.
-/

set_option autoImplicit false

namespace RemoteTables

/-- Why a scan cannot be planned, shipped or run. -/
inductive ScanFault where
  /-- A failure of the connector. -/
  | connector (failure : Failure)
  /-- A payload that does not decode. -/
  | payload (fault : DecodeFault)
  /-- A projection of a schema names a position past its end. -/
  | noSuchField (position fields : Nat)
  /-- A projection of rows names a position past the columns. -/
  | noSuchColumn (position : Nat)
  | rowTooShort (cells : Nat) (column : String) (position : Nat)
  | mismatch (column : String) (expected : ColumnType) (found : Value)
  | nullInRequired (column : String)
  | noSuchPartition (partition : Nat)
  | hasChildren
  | emptyPayload
  | unknownTag (tag : UInt8)
  | notAScan (node : String)
  | noConnector (schema : String)

namespace ScanFault

/-- A byte in two hexadecimal digits. -/
def hexByte (b : UInt8) : String :=
  String.ofList [Nat.digitChar (b.toNat / 16), Nat.digitChar (b.toNat % 16)]

/-- The wording of a fault. One that comes from elsewhere has the wording it has there. -/
def message : ScanFault → Option String
  | connector failure => failure.message
  | payload fault => fault.message
  | noSuchField position fields =>
    some ("Schema error: project index " ++ toString position ++ " out of bounds, max field " ++
      toString fields)
  | noSuchColumn position =>
    some ("projection index " ++ toString position ++ " out of range")
  | rowTooShort cells column position =>
    some ("row has " ++ toString cells ++ " values, column '" ++ column ++ "' is at " ++
      toString position)
  | mismatch column expected found =>
    some ("column '" ++ column ++ "' expects " ++ expected.display ++ ", got " ++ found.display)
  | nullInRequired column =>
    some ("Invalid argument error: Column '" ++ column ++
      "' is declared as non-nullable but contains null values")
  | noSuchPartition partition =>
    some ("RestScanExec only supports partition 0, got " ++ toString partition)
  | hasChildren => some "RestScanExec is a leaf node and cannot have children"
  | emptyPayload => some "RestPhysicalCodec: empty buffer"
  | unknownTag tag => some ("RestPhysicalCodec: unknown tag 0x" ++ hexByte tag)
  | notAScan node => some ("RestPhysicalCodec cannot encode " ++ node)
  | noConnector schema =>
    some ("no REST connector registered for schema '" ++ schema ++ "'")

end ScanFault
end RemoteTables
