import RemoteTables.Constraint

/-!
# Handles and splits

A handle says what part of a table is to be read: under which constraint, at most how many rows, in
which order, and through which page window. Planning never changes a handle in place; every step
gives a new one. A split is a handle that is handed to a worker.

Both travel as JSON between processes, in the wire form at the end of the file. Nothing is checked
or put in order on arrival, so a handle from the wire may hold a constraint that is not well formed
and a stride of zero.
-/

set_option autoImplicit false

namespace RemoteTables

/-- The name of a table, with the schema it belongs to. -/
structure TableName where
  schema : String
  table : String
  deriving DecidableEq, Inhabited

/-- A name with its schema before it. -/
def TableName.display (name : TableName) : String := name.schema ++ "." ++ name.table

/-- The direction of a sort. -/
inductive SortDirection where
  | ascending
  | descending
  deriving DecidableEq, Inhabited

/-- A direction as calls give it. -/
def SortDirection.param : SortDirection → String
  | ascending => "asc"
  | descending => "desc"

/-- A direction as messages and handles give it. -/
def SortDirection.display : SortDirection → String
  | ascending => "ASC"
  | descending => "DESC"

/-- A column to sort by, and the direction. -/
structure SortItem where
  name : String
  direction : SortDirection
  deriving DecidableEq, Inhabited

def SortItem.display (item : SortItem) : String := item.name ++ " " ++ item.direction.display

/-- The limit that stands for none. -/
def noLimit : UInt64 := 0xFFFFFFFFFFFFFFFF

/-- What part of a table is to be read. -/
structure TableHandle where
  table : TableName
  constraint : Constraint
  /-- The pages passed over before the first one. -/
  offset : UInt32
  limit : UInt64
  /-- The distance from one page to the next. -/
  pageIncrement : UInt32
  sortOrder : Option (List SortItem)
  deriving DecidableEq, Inhabited

namespace TableHandle

/-- The handle to all rows of a table, in one window. -/
def ofTable (table : TableName) : TableHandle := ⟨table, .all, 0, noLimit, 1, none⟩

/-- Whether a handle has no limit, which is written as the greatest number. -/
def isUnlimited (h : TableHandle) : Bool := h.limit == noLimit

def withConstraint (h : TableHandle) (constraint : Constraint) : TableHandle :=
  { h with constraint }

def withLimit (h : TableHandle) (limit : UInt64) : TableHandle := { h with limit }

/-- The handle with a lower limit; `none` if the limit is no lower. -/
def lowerLimit? (h : TableHandle) (limit : UInt64) : Option TableHandle :=
  if h.limit ≤ limit then none else some (h.withLimit limit)

/-- The handle in another order; an empty list means no order. -/
def withSortOrder (h : TableHandle) (items : List SortItem) : TableHandle :=
  { h with sortOrder := if items.isEmpty then none else some items }

/-- The handle through another page window; pages are at least one apart. -/
def withPageWindow (h : TableHandle) (offset pageIncrement : UInt32) : TableHandle :=
  { h with offset, pageIncrement := max pageIncrement 1 }

/-- The handle as messages show it: the table, and what restricts it. Of a page window the number of
the first page is shown; a handle whose number does not fit cannot be shown. -/
def display? (h : TableHandle) : Option String :=
  let constraint :=
    if h.constraint.isAll then ""
    else " constraint=[" ++ String.intercalate "," h.constraint.columnNames ++ "]"
  let limit := if h.isUnlimited then "" else " limit=" ++ toString h.limit.toNat
  let sort := match h.sortOrder with
    | none => ""
    | some items => " sort=[" ++ String.intercalate "," (items.map SortItem.display) ++ "]"
  let shown := h.table.display ++ constraint ++ limit ++ sort
  let firstPage := h.offset.toNat + 1
  if h.pageIncrement ≤ 1 then some shown
  else if firstPage < UInt32.size then
    some (shown ++ " pages=" ++ toString firstPage ++ "+" ++ toString h.pageIncrement.toNat ++ "k")
  else none

end TableHandle

/-- One unit of reading, and the workers that should do it. -/
structure Split where
  handle : TableHandle
  addresses : List String
  deriving DecidableEq, Inhabited

/-- A split that any worker may read. -/
def Split.ofHandle (handle : TableHandle) : Split := ⟨handle, []⟩

/-! ## Wire form -/

def TableName.toJson (name : TableName) : Json :=
  .object [("schemaName", .string name.schema), ("tableName", .string name.table)]

def TableName.decoder : Decoder TableName :=
  Record.decoder (TableName.mk <$> .required "schemaName" Decoder.string
    <*> .required "tableName" Decoder.string)

def SortDirection.decoder : Decoder SortDirection :=
  Decoder.names [("ASC", ascending), ("DESC", descending)]

def SortItem.toJson (item : SortItem) : Json :=
  .object [("name", .string item.name), ("direction", .string item.direction.display)]

def SortItem.decoder : Decoder SortItem :=
  Record.decoder (SortItem.mk <$> .required "name" Decoder.string
    <*> .required "direction" SortDirection.decoder)

/-- A handle on the wire. A sort order that is missing is written as `null`. -/
def TableHandle.toJson (h : TableHandle) : Json :=
  .object [("schemaTableName", h.table.toJson), ("constraint", h.constraint.toJson),
    ("offset", .int h.offset.toNat), ("limit", .int h.limit.toNat),
    ("pageIncrement", .int h.pageIncrement.toNat),
    ("sortOrder", .ofOption (fun items => .array (items.map SortItem.toJson)) h.sortOrder)]

/-- Reads a handle from the wire; the order may be missing. -/
def TableHandle.decoder : Decoder TableHandle :=
  Record.decoder (TableHandle.mk <$> .required "schemaTableName" TableName.decoder
    <*> .required "constraint" Constraint.decoder
    <*> .required "offset" Decoder.uint32
    <*> .required "limit" Decoder.uint64
    <*> .required "pageIncrement" Decoder.uint32
    <*> .withDefault "sortOrder" none (Decoder.list SortItem.decoder).optional)

/-- A split on the wire. -/
def Split.toJson (split : Split) : Json :=
  .object [("tableHandle", split.handle.toJson), ("addresses", .strings split.addresses)]

/-- Reads a split from the wire; the addresses may be missing. -/
def Split.decoder : Decoder Split :=
  Record.decoder (Split.mk <$> .required "tableHandle" TableHandle.decoder
    <*> .withDefault "addresses" [] (Decoder.list Decoder.string))

end RemoteTables
