import RemoteTables.Proofs.Attempts
import RemoteTables.Batch.Basic

/-!
# Rows that fit are stored

A column of cells can be stored if each cell is null or of the column's type, whatever the type, and
the vector then has one place for each cell and a null exactly where a cell is null
(`CellVector.exists_ofValues`). Array cells have no places of their own, so what is said of them is
said of all their items together. Rows can be stored if they have what every wanted position asks for
(`Batch.exists_ofRows_of_suits`), and rows that line up with the columns of a table have that under
every projection (`Batch.exists_ofRows`).
-/

set_option autoImplicit false

namespace RemoteTables

/-! ## Cells that fit -/

theorem Value.allFit_iff {items : List Value} {type : ColumnType} :
    allFit items type = true ↔ ∀ item ∈ items, item.fits type = true := by
  induction items with
  | nil => simp [allFit]
  | cons item rest ih => simp [allFit, ih]

/-- The items of an array cell. -/
def Value.items? : Value → Option (List Value)
  | array items => some items
  | _ => none

/-- What a row that fits has in the place of a column. -/
theorem Row.exists_cell {row : Row} {columns : List Column} (h : Row.fits row columns = true)
    {position : Nat} {column : Column} (hcolumn : columns[position]? = some column) :
    ∃ cell, row[position]? = some cell ∧ cell.fits column.type = true ∧
      (column.nullable = true ∨ cell.isNull = false) := by
  induction columns generalizing row position with
  | nil => simp at hcolumn
  | cons first rest ih =>
    cases row with
    | nil => simp [Row.fits] at h
    | cons cell cells =>
      simp only [Row.fits, Bool.and_eq_true, Bool.or_eq_true, Bool.not_eq_true'] at h
      obtain ⟨⟨hfits, hnull⟩, hrest⟩ := h
      cases position with
      | zero =>
        obtain rfl := Option.some.inj hcolumn
        exact ⟨cell, rfl, hfits, hnull⟩
      | succ position => exact ih hrest hcolumn

/-! ## Storing cells -/

namespace CellVector

/-- How many cells a vector has. -/
def size : CellVector → Nat
  | booleans cells => cells.size
  | integers cells => cells.size
  | doubles cells => cells.size
  | texts cells => cells.size
  | instants cells => cells.size
  | arrays present _ _ => present.size

/-- A vector that has a place for each of the cells, and a null just where one of them is null. -/
structure Stores (vector : CellVector) (cells : List Value) : Prop where
  size : vector.size = cells.length
  hasNull : vector.hasNull = cells.any Value.isNull

/-- Scalar cells are stored one by one, and that succeeds if the reader of their kind takes all but
the null ones. -/
theorem scalars_eq_ok_iff {α : Type} {column : String} {type : ColumnType} {read : Value → Option α}
    (hnull : read .null = none) {cells : List Value} {stored : Array (Option α)} :
    scalars column type read cells = .ok stored ↔ stored = (cells.map read).toArray ∧
      ∀ cell ∈ cells, (read cell).isNone = cell.isNull := by
  rw [scalars, bind_eq_ok_iff]
  simp only [pure, Except.pure, Except.ok.injEq]
  rw [exists_congr fun found => and_congr_left fun _ =>
    mapM_eq_ok_iff_of_checks (g := read) (p := fun cell => (read cell).isNone = cell.isNull) ?_]
  · simp only [and_assoc, exists_eq_left]
    exact and_comm.trans (and_congr_left fun _ => eq_comm)
  · intro cell value
    split
    · simp [hnull, Value.isNull, eq_comm]
    · rename_i hpresent
      have hpresent : cell.isNull = false := by
        cases cell <;> first | rfl | exact absurd rfl hpresent
      cases hread : read cell <;> simp [hpresent, eq_comm]

theorem exists_scalars {α : Type} {store : Array (Option α) → CellVector}
    (hsize : ∀ stored, (store stored).size = stored.size)
    (hhasNull : ∀ stored, (store stored).hasNull = stored.any Option.isNone) {column : String}
    {type : ColumnType} {read : Value → Option α} (hnull : read .null = none) {cells : List Value}
    (hread : ∀ cell ∈ cells, (read cell).isNone = cell.isNull) :
    ∃ vector, store <$> scalars column type read cells = .ok vector ∧ vector.Stores cells := by
  have hstored : scalars column type read cells = .ok (cells.map read).toArray :=
    (scalars_eq_ok_iff hnull).mpr ⟨rfl, hread⟩
  refine ⟨store (cells.map read).toArray, by rw [hstored]; rfl, ?_, ?_⟩
  · rw [hsize]
    simp
  · rw [hhasNull, List.any_toArray, List.any_map, Bool.eq_iff_iff, List.any_eq_true,
      List.any_eq_true]
    refine exists_congr fun cell => and_congr_right fun hcell => ?_
    rw [Function.comp, hread cell hcell]

/-- Array cells are taken apart if none but the null ones are without items. -/
theorem arraysOf_eq_ok_iff {column : String} {type : ColumnType} {cells : List Value}
    {lists : List (Option (List Value))} :
    arraysOf column type cells = .ok lists ↔ lists = cells.map Value.items? ∧
      ∀ cell ∈ cells, cell.items?.isNone = cell.isNull := by
  refine mapM_eq_ok_iff_of_checks fun cell list => ?_
  cases cell <;> simp [Value.items?, Value.isNull, eq_comm]

theorem fits_of_mem_contents {element : ColumnType} {cells : List Value}
    (hfits : ∀ cell ∈ cells, cell.fits (.array element) = true) :
    ∀ item ∈ ((cells.map Value.items?).map fun list => list.getD []).flatten,
      item.fits element = true := by
  intro item hitem
  obtain ⟨list, hlist, hitem⟩ := List.mem_flatten.mp hitem
  rw [List.map_map] at hlist
  obtain ⟨cell, hcell, rfl⟩ := List.mem_map.mp hlist
  have hcell := hfits cell hcell
  cases cell with
  | array items =>
    rw [Value.fits] at hcell
    exact Value.allFit_iff.mp hcell item hitem
  | _ => exact absurd hitem List.not_mem_nil

/-- **Cells that fit are stored**, whatever their type. -/
theorem exists_ofValues (column : String) {type : ColumnType} {cells : List Value}
    (hfits : ∀ cell ∈ cells, cell.fits type = true) :
    ∃ vector, ofValues column type cells = .ok vector ∧ vector.Stores cells := by
  induction type generalizing cells with
  | array element ih =>
    obtain ⟨items, hitems, -⟩ := ih (fits_of_mem_contents hfits)
    have hpresent : ∀ cell ∈ cells, cell.items?.isNone = cell.isNull := by
      intro cell hcell
      have hcell := hfits cell hcell
      cases cell <;> first | rfl | simp [Value.fits] at hcell
    have hvector : ∃ offsets, ofValues column (.array element) cells =
        .ok (arrays ((cells.map Value.items?).map Option.isSome).toArray offsets items) := by
      rw [ofValues, arraysOf_eq_ok_iff.mpr ⟨rfl, hpresent⟩]
      simp only [bind, Except.bind, hitems]
      exact ⟨_, rfl⟩
    obtain ⟨offsets, hvector⟩ := hvector
    refine ⟨_, hvector, ?_, ?_⟩
    · simp [size]
    · rw [hasNull, List.any_toArray, List.map_map, List.any_map, Bool.eq_iff_iff, List.any_eq_true,
        List.any_eq_true]
      refine exists_congr fun cell => and_congr_right fun hcell => ?_
      rw [Function.comp, Function.comp, Option.not_isSome, hpresent cell hcell]
  | _ =>
    refine exists_scalars (fun _ => rfl) (fun _ => rfl) rfl fun cell hcell => ?_
    have hcell := hfits cell hcell
    cases cell <;> first | rfl | simp [Value.fits] at hcell

end CellVector

/-! ## Storing rows -/

namespace Batch

/-- Whether rows have what a position asks for: there is a column at the position, and each row has a
cell there, of the column's type and null only where the column allows it. -/
def Suits (rows : List Row) (columns : List Column) (position : Nat) : Prop :=
  ∃ column, columns[position]? = some column ∧ ∀ row ∈ rows, ∃ cell, row[position]? = some cell ∧
    cell.fits column.type = true ∧ (column.nullable = true ∨ cell.isNull = false)

variable {rows : List Row} {columns : List Column}

theorem suits_of_fits (hrows : ∀ row ∈ rows, row.fits columns = true) {position : Nat}
    (hposition : position < columns.length) : Suits rows columns position :=
  have hcolumn : columns[position]? = some columns[position] := List.getElem?_eq_getElem hposition
  ⟨columns[position], hcolumn, fun row hrow => Row.exists_cell (hrows row hrow) hcolumn⟩

/-- A column of cells that suit it can be stored, and it has no null if it allows none. -/
theorem Suits.exists_vector {position : Nat} (h : Suits rows columns position) :
    ∃ column vector, columns[position]? = some column ∧
      vectorAt rows columns position = .ok vector ∧ vector.size = rows.length ∧
      (column.nullable = true ∨ vector.hasNull = false) := by
  obtain ⟨column, hcolumn, hsuits⟩ := h
  have hcell : ∀ row ∈ rows, cellAt column position row = .ok (row[position]?.getD .null) ∧
      (row[position]?.getD .null).fits column.type = true ∧
      (column.nullable = true ∨ (row[position]?.getD .null).isNull = false) := by
    intro row hrow
    obtain ⟨cell, hcell, hfits, hnull⟩ := hsuits row hrow
    rw [cellAt, hcell]
    exact ⟨rfl, hfits, hnull⟩
  have hcells : rows.mapM (cellAt column position) =
      .ok (rows.map fun row => row[position]?.getD .null) :=
    mapM_eq_ok fun row hrow => (hcell row hrow).1
  obtain ⟨vector, hvector, hstores⟩ := CellVector.exists_ofValues column.name
    (List.forall_mem_map.mpr fun row hrow => (hcell row hrow).2.1)
  refine ⟨column, vector, hcolumn, ?_, ?_, ?_⟩
  · rw [vectorAt]
    simp only [hcolumn, hcells, bind, Except.bind]
    exact hvector
  · rw [hstores.size, List.length_map]
  · rcases Bool.eq_false_or_eq_true column.nullable with hnullable | hrequired
    · exact .inl hnullable
    · right
      rw [hstores.hasNull, List.any_map, List.any_eq_false]
      intro row hrow
      rcases (hcell row hrow).2.2 with hnullable | hnull
      · rw [hnullable] at hrequired
        cases hrequired
      · simp [hnull]

/-- What is wanted by a list of positions can be looked up and stored. -/
theorem exists_vectors {positions : List Nat} (hsuits : ∀ p ∈ positions, Suits rows columns p) :
    ∃ schema vectors, project columns (some positions) = .ok schema ∧
      positions.mapM (vectorAt rows columns) = .ok vectors ∧ checkNulls schema vectors = .ok () ∧
      ∀ vector ∈ vectors, vector.size = rows.length := by
  induction positions with
  | nil => exact ⟨[], [], rfl, rfl, rfl, fun _ hvector => absurd hvector List.not_mem_nil⟩
  | cons position rest ih =>
    obtain ⟨hfirst, hrest⟩ := List.forall_mem_cons.mp hsuits
    obtain ⟨schema, vectors, hschema, hvectors, hnulls, hsizes⟩ := ih hrest
    obtain ⟨column, vector, hcolumn, hvector, hsize, hnull⟩ := hfirst.exists_vector
    have hallowed : (!column.nullable && vector.hasNull) = false := by
      rcases hnull with hnull | hnull <;> simp [hnull]
    refine ⟨column :: schema, vector :: vectors, ?_, ?_, ?_,
      List.forall_mem_cons.mpr ⟨hsize, hsizes⟩⟩
    · rw [project] at hschema ⊢
      rw [List.mapM_cons, hschema]
      simp only [hcolumn]
      rfl
    · rw [List.mapM_cons, hvector, hvectors]
      rfl
    · simpa [checkNulls, hallowed] using hnulls

/-- Without a projection all columns are wanted, in their order. -/
theorem project_range : project columns (some (List.range columns.length)) = .ok columns := by
  rw [project, mapM_eq_ok (g := fun position => columns[position]?.getD default)]
  · refine congrArg Except.ok (List.ext_getElem (by simp) fun position hlt hlt' => ?_)
    simp [hlt']
  · intro position hposition
    rw [List.getElem?_eq_getElem (List.mem_range.mp hposition)]
    rfl

/-- A projection is looked up by the positions it wants. -/
theorem project_eq (projection : Option (List Nat)) :
    project columns projection = project columns (some (positions columns projection)) := by
  cases projection with
  | none => exact project_range.symm
  | some wanted => rfl

/-- Rows are stored if they have what every wanted position asks for. -/
theorem exists_ofRows_of_suits {projection : Option (List Nat)}
    (hsuits : ∀ p ∈ positions columns projection, Suits rows columns p) :
    ∃ schema batch, project columns projection = .ok schema ∧
      ofRows rows columns projection schema = .ok batch ∧ batch.rowCount = rows.length ∧
      batch.schema = schema ∧ batch.vectors.length = (positions columns projection).length ∧
      ∀ vector ∈ batch.vectors, vector.size = rows.length := by
  obtain ⟨schema, vectors, hschema, hvectors, hnulls, hsizes⟩ := exists_vectors hsuits
  refine ⟨schema, ⟨rows.length, schema, vectors⟩, (project_eq projection).trans hschema, ?_, rfl,
    rfl, length_of_mapM_eq_ok hvectors, hsizes⟩
  rw [ofRows, hvectors]
  simp only [hnulls, bind, Except.bind]
  rfl

/-- **Rows that fit are stored**, under every projection. -/
theorem exists_ofRows (hrows : ∀ row ∈ rows, row.fits columns = true)
    {projection : Option (List Nat)}
    (hprojection : ∀ positions ∈ projection, ∀ p ∈ positions, p < columns.length) :
    ∃ schema batch, project columns projection = .ok schema ∧
      ofRows rows columns projection schema = .ok batch ∧ batch.rowCount = rows.length ∧
      batch.schema = schema ∧ batch.vectors.length = (positions columns projection).length ∧
      ∀ vector ∈ batch.vectors, vector.size = rows.length := by
  refine exists_ofRows_of_suits fun p hp => suits_of_fits hrows ?_
  cases projection with
  | none => exact List.mem_range.mp hp
  | some positions => exact hprojection positions rfl p hp

end Batch
end RemoteTables
