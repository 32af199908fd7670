import RemoteTables.Json.Decode

/-!
# Failures

Everything that can go wrong when a table is planned or fetched, as causes with the data they are
about. Nothing is tried a second time: a failure ends the call in which it arises. The wording of
all of them is in one place, `Failure.message`.
-/

set_option autoImplicit false

namespace RemoteTables

/-- Why a call on a table fails. -/
inductive Failure where
  /-- A column that the request is built from has no single value. -/
  | missingConstraint (column : String)
  /-- A sort that the table cannot do. -/
  | invalidOrderBy (requested : String) (supported : List String)
  /-- The server answers with a status that is neither success nor "not found". -/
  | backend (status : Nat) (url : String) (body : Option String)
  /-- The server is not reached. -/
  | transport
  /-- The server's answer does not decode. -/
  | decode (fault : DecodeFault)
  | unsupportedWrite (table : String)
  /-- A value that cannot be one segment of a path. -/
  | invalidPathSegment (segment : String)
  | unknownTable (table : String)
  | unknownColumn (column : String)
  | config (detail : String)
  deriving DecidableEq

/-- The wording of a failure. A broken connection has none of its own, and an undecodable answer
only the one of the fault. -/
def Failure.message : Failure → Option String
  | missingConstraint column => some ("Missing required constraint for " ++ column)
  | invalidOrderBy requested supported =>
    some ("Invalid order by " ++ requested ++ ", must be one of: " ++
      String.intercalate ", " supported)
  | backend status url body =>
    let detail := match body with
      | some text => ": " ++ text
      | none => ""
    some ("Backend request to " ++ url ++ " failed with status " ++ toString status ++ detail)
  | transport => none
  | decode fault => fault.message
  | unsupportedWrite table =>
    some ("This connector does not support writes (table " ++ table ++ ")")
  | invalidPathSegment segment => some ("invalid path segment '" ++ segment ++ "'")
  | unknownTable table => some ("unknown table: " ++ table)
  | unknownColumn column => some ("unknown column: " ++ column)
  | config detail => some ("config error: " ++ detail)

end RemoteTables
