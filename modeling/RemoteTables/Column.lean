import RemoteTables.Json.Record

/-!
# Columns

The declared type of a column, the column as a table declares it (with or without nulls), and the
reference to a column that a constraint carries, which is the name together with the type. Two
references are equal only if both agree, so a constraint made for a column of another type never
passes for one on the declared column.

The type a column is handed on with, in batches of columns, is fixed by the declared type
(`ColumnType.storage`): instants are milliseconds in UTC, and the items of an array may be null.
-/

set_option autoImplicit false

namespace RemoteTables

/-- The declared type of a column. -/
inductive ColumnType where
  | boolean
  | bigInt
  | double
  | varchar
  /-- An instant in UTC, in milliseconds. -/
  | timestamp
  | array (element : ColumnType)
  deriving DecidableEq, Inhabited

/-- The type of a column in a batch. -/
inductive StorageType where
  | boolean
  | int64
  | float64
  | utf8
  | timestampMillisUtc
  /-- A list whose items are of one type and may be null. -/
  | list (item : StorageType)
  deriving DecidableEq, Inhabited

namespace ColumnType

/-- The type a column is handed on with. -/
def storage : ColumnType → StorageType
  | boolean => .boolean
  | bigInt => .int64
  | double => .float64
  | varchar => .utf8
  | timestamp => .timestampMillisUtc
  | array element => .list element.storage

/-- A type as messages and listings show it. -/
def display : ColumnType → String
  | boolean => "Boolean"
  | bigInt => "BigInt"
  | double => "Double"
  | varchar => "Varchar"
  | timestamp => "Timestamp"
  | array element => "Array(" ++ element.display ++ ")"

def names : List String := ["boolean", "big_int", "double", "varchar", "timestamp", "array"]

/-- A plain type is written as its name, an array as an object of its element type. -/
def toJson : ColumnType → Json
  | boolean => .string "boolean"
  | bigInt => .string "big_int"
  | double => .string "double"
  | varchar => .string "varchar"
  | timestamp => .string "timestamp"
  | array element => .object [("array", element.toJson)]

/-- The type of a name, for all types that are nothing but a name. -/
def plain (name : String) : Except DecodeFault ColumnType :=
  if name = "boolean" then .ok boolean
  else if name = "big_int" then .ok bigInt
  else if name = "double" then .ok double
  else if name = "varchar" then .ok varchar
  else if name = "timestamp" then .ok timestamp
  else .error .malformed

/-- Reads a type from the wire. Each array takes one level of nesting. -/
def decoder : Decoder ColumnType
  | 0, fragment => Decoder.variant names plain (fun _ _ _ => .error .malformed) 0 fragment
  | room + 1, fragment =>
    Decoder.variant names plain
      (fun name _ value =>
        if name = "array" then (decoder room value).map array
        else do
          Decoder.unit room value
          plain name)
      (room + 1) fragment

end ColumnType

/-- A type as the description of a table shows it, on its own or as the type of a list's items. -/
def StorageType.describe : StorageType → String
  | boolean => "Boolean"
  | int64 => "Int64"
  | float64 => "Float64"
  | utf8 => "Utf8"
  | timestampMillisUtc => "Timestamp(Millisecond, Some(\"UTC\"))"
  | list item =>
    "List(Field \x7b name: \"item\", data_type: " ++ item.describe ++
      ", nullable: true, dict_id: 0, dict_is_ordered: false, metadata: \x7b\x7d \x7d)"

/-- A column of a table. -/
structure Column where
  name : String
  type : ColumnType
  nullable : Bool
  deriving DecidableEq, Inhabited

/-- A reference to a column, which agrees with the column in name and type. -/
structure ColumnRef where
  name : String
  type : ColumnType
  deriving DecidableEq, Inhabited

namespace ColumnRef

/-- A reference to a column on the wire of handles. -/
def toJson (c : ColumnRef) : Json :=
  .object [("name", .string c.name), ("columnType", c.type.toJson)]

def decoder : Decoder ColumnRef :=
  Record.decoder
    (ColumnRef.mk <$> .required "name" Decoder.string <*> .required "columnType" ColumnType.decoder)

end ColumnRef

namespace Column

/-- A column whose cells are never null. -/
def required (name : String) (type : ColumnType) : Column := ⟨name, type, false⟩

/-- A column whose cells may be null. -/
def optional (name : String) (type : ColumnType) : Column := ⟨name, type, true⟩

/-- The name and the type of a column. -/
def ref (c : Column) : ColumnRef := ⟨c.name, c.type⟩

/-- A column on the wire, with names of its own. -/
def toJson (c : Column) : Json :=
  .object [("name", .string c.name), ("column_type", c.type.toJson), ("nullable", .bool c.nullable)]

def decoder : Decoder Column :=
  Record.decoder
    (Column.mk <$> .required "name" Decoder.string <*> .required "column_type" ColumnType.decoder
      <*> .required "nullable" Decoder.bool)

end Column
end RemoteTables
