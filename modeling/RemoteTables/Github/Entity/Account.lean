import RemoteTables.Value
import RemoteTables.Calendar.Instant

/-!
# Accounts and labels

Two small payloads that others carry, and the cells that are made of them: a login where an account
may be absent, and arrays of numbers or names for a list.
-/

set_option autoImplicit false

namespace RemoteTables
namespace Github

/-- An account, as far as rows show it. -/
structure User where
  id : Int64
  login : String
  deriving DecidableEq

def User.decoder : Decoder User :=
  Record.decoder (User.mk <$> .required "id" Decoder.int64 <*> .required "login" Decoder.string)

/-- A label of an issue or a pull request. -/
structure Label where
  id : Int64
  name : String
  deriving DecidableEq

def Label.decoder : Decoder Label :=
  Record.decoder (Label.mk <$> .required "id" Decoder.int64 <*> .required "name" Decoder.string)

/-- The login of an account that may be absent. -/
def loginCell (user : Option User) : Value := .optVarchar (user.map User.login)

/-- The logins of accounts, in the order of the payload. -/
def loginsCell (users : List User) : Value := .array (users.map fun u => .varchar u.login)

def accountIdsCell (users : List User) : Value := .array (users.map fun u => .bigInt u.id)

def labelIdsCell (labels : List Label) : Value := .array (labels.map fun l => .bigInt l.id)

def labelNamesCell (labels : List Label) : Value := .array (labels.map fun l => .varchar l.name)

end Github

namespace Record

/-- An instant that may be missing or `null`. -/
def instant (name : String) : Record (Option Int64) := optional name Calendar.instantDecoder

end Record
end RemoteTables
