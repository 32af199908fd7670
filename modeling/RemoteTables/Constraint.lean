import RemoteTables.Domain
import RemoteTables.Column

/-!
# Constraints

A constraint gives some columns a domain; a column it does not mention may take any literal. It
means the conjunction of its entries, which `Constraint.allows` states for one column at a time.

What is made here keeps its entries in the order of the column names, one entry a column, and none
with the domain of all literals (`Constraint.WellFormed`). A constraint that comes from the wire is
taken as it stands, so these are properties and not part of the type, and every operation says what
it does also without them: a column's domain is that of its first entry.
-/

set_option autoImplicit false

namespace RemoteTables

/-- One entry of a constraint. -/
structure ColumnDomain where
  column : ColumnRef
  domain : Domain
  deriving DecidableEq, Inhabited

/-- A conjunction of domains for columns. -/
structure Constraint where
  entries : List ColumnDomain
  deriving DecidableEq, Inhabited

namespace Constraint

/-! ## Making constraints -/

/-- The constraint that restricts nothing. -/
def all : Constraint := ⟨[]⟩

/-- The domain of a column, if the constraint restricts it. -/
def domain? (c : Constraint) (column : String) : Option Domain :=
  (c.entries.find? fun entry => entry.column.name == column).map (·.domain)

/-- The constraint with the domain of one column replaced. The domain of all literals removes the
column; otherwise the new entry goes where its name belongs. -/
def withDomain (c : Constraint) (column : ColumnRef) (domain : Domain) : Constraint :=
  let others := c.entries.filter fun entry => entry.column.name != column.name
  if domain.isAll then ⟨others⟩
  else
    ⟨(others ++ [ColumnDomain.mk column domain]).mergeSort fun a b =>
      decide (a.column.name ≤ b.column.name)⟩

/-- Restricts a column further: to what is in its domain and in another one. -/
def restrict (c : Constraint) (column : ColumnRef) (domain : Domain) : Constraint :=
  match c.domain? column.name with
  | some present => c.withDomain column (present.intersect domain)
  | none => c.withDomain column domain

/-- The conjunction of entries; the domains of a repeated column are intersected. -/
def ofEntries (entries : List ColumnDomain) : Constraint :=
  entries.foldl (fun c entry => c.restrict entry.column entry.domain) all

/-- The constraint that restricts one column. -/
def single (column : ColumnRef) (domain : Domain) : Constraint := all.withDomain column domain

/-- Both constraints at once. Where both restrict a column, its domains are intersected. -/
def intersect (a b : Constraint) : Constraint := ofEntries (a.entries ++ b.entries)

/-- The constraint without the entries that are not to be kept. -/
def filter (keep : ColumnDomain → Bool) (c : Constraint) : Constraint := ⟨c.entries.filter keep⟩

/-! ## Asking about constraints -/

def isAll (c : Constraint) : Bool := c.entries.isEmpty

/-- Whether some column is left without any literal, as far as its domain is written so. -/
def isNone (c : Constraint) : Bool := c.entries.any (·.domain.isNone)

/-- Whether a literal may stand in a column. -/
def allows (c : Constraint) (column : String) (v : Literal) : Bool :=
  match c.domain? column with
  | some domain => domain.includes v
  | none => true

/-- The names of the constrained columns, in the order of the entries. -/
def columnNames (c : Constraint) : List String := c.entries.map (·.column.name)

/-- The columns in strict order, each with a well-formed domain that is not all literals. -/
def WellFormed (c : Constraint) : Prop :=
  c.columnNames.Pairwise (· < ·) ∧
    ∀ entry ∈ c.entries, entry.domain.isAll = false ∧ entry.domain.WellFormed

instance (c : Constraint) : Decidable c.WellFormed :=
  inferInstanceAs (Decidable (_ ∧ _))

/-! ## Wire form -/

/-- A constraint on the wire: its entries, in order. -/
def toJson (c : Constraint) : Json :=
  .object [("columnDomains", .array (c.entries.map fun entry =>
    .object [("column", entry.column.toJson), ("domain", entry.domain.toJson)]))]

/-- One entry: a column and its domain. -/
def entryDecoder : Decoder ColumnDomain :=
  Record.decoder (ColumnDomain.mk <$> .required "column" ColumnRef.decoder
    <*> .required "domain" Domain.decoder)

/-- Entries are read as they are written. That they are in order is not looked at. -/
def decoder : Decoder Constraint :=
  Record.decoder (Constraint.mk <$> .required "columnDomains" (Decoder.list entryDecoder))

end Constraint
end RemoteTables
