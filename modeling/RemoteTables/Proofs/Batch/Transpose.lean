import Mathlib.Algebra.BigOperators.Group.List.Basic
import Mathlib.Algebra.GroupWithZero.Nat
import RemoteTables.Proofs.Batch.Stored

/-!
# A batch is its rows, column by column

What was stored can be read back. For one column this is `CellVector.holds_of_ofValues`: the cells
were all of the column's type, and each place of the vector has the cell that was put there. Array
cells are read back through the mask and the offsets, and the items of cell `i` begin where the
items of all cells before it end; that place is the same sum for the offsets (`getElem?_offsetsFrom`)
and for the items that stand one after another (`getElem?_flatten_drop`).

Offsets are numbers without a bound, so nothing is said of how many items a column has room for.

For rows it is the converse of what is said about storing: rows that were stored had what every
wanted position asks for. Together that makes a batch a transpose that loses nothing, and fails only
where there is something to lose (`Batch.ofRows_transposes`).
-/

set_option autoImplicit false

namespace RemoteTables

/-! ## Arrays one after another -/

namespace CellVector

theorem getElem?_offsetsFrom {lengths : List Nat} {i : Nat} (h : i ≤ lengths.length) (start : Nat) :
    (offsetsFrom start lengths)[i]? = some (start + (lengths.take i).sum) := by
  induction lengths generalizing start i with
  | nil =>
    obtain rfl := Nat.le_zero.mp h
    rfl
  | cons length rest ih =>
    cases i with
    | zero => rfl
    | succ i =>
      rw [offsetsFrom, List.getElem?_cons_succ, ih (Nat.le_of_succ_le_succ h), List.take_succ_cons,
        List.sum_cons, Nat.add_assoc]

theorem getElem?_flatten_drop {α : Type} {lists : List (List α)} {i : Nat} {list : List α}
    (hlist : lists[i]? = some list) {k : Nat} (hk : k < list.length) :
    lists.flatten[((lists.map List.length).take i).sum + k]? = list[k]? := by
  obtain ⟨hi, rfl⟩ := List.getElem?_eq_some_iff.mp hlist
  rw [← List.getElem?_drop, List.drop_sum_flatten, List.drop_eq_getElem_cons hi, List.flatten_cons,
    List.getElem?_append_left hk]

/-! ## Reading cells back -/

/-- A vector that has each of the cells at its place, all of them of one type. -/
structure Holds (vector : CellVector) (type : ColumnType) (cells : List Value) : Prop where
  fits : ∀ cell ∈ cells, cell.fits type = true
  cell : ∀ {i : Nat} {cell : Value}, cells[i]? = some cell → vector.cell i = cell

/-- Scalar cells are read back one by one, if a place is read for itself and shows the cell that was
read into it. -/
theorem holds_of_scalars {α : Type} {store : Array (Option α) → CellVector}
    (hplace : ∀ stored i, (store stored).cell i = (store #[stored[i]?.join]).cell 0)
    {column : String} {type : ColumnType} {read : Value → Option α} (hnull : read .null = none)
    (hread : ∀ cell, (read cell).isNone = cell.isNull →
      (store #[read cell]).cell 0 = cell ∧ cell.fits type = true)
    {cells : List Value} {vector : CellVector}
    (h : store <$> scalars column type read cells = .ok vector) : vector.Holds type cells := by
  obtain ⟨stored, hstored, h⟩ := bind_eq_ok_iff.mp ((bind_pure_comp store _).trans h)
  obtain rfl := Except.ok.inj h
  obtain ⟨rfl, hpresent⟩ := (scalars_eq_ok_iff hnull).mp hstored
  refine ⟨fun cell hcell => (hread cell (hpresent cell hcell)).2, fun {i cell} hcell => ?_⟩
  rw [hplace, List.getElem?_toArray, List.getElem?_map, hcell]
  exact (hread cell (hpresent cell (List.mem_of_getElem? hcell))).1

/-- An array is read back from the items that stand between its offsets. -/
theorem cell_arrays {present : List Bool} {lists : List (List Value)} {items : CellVector}
    {element : ColumnType} (hitems : items.Holds element lists.flatten) {i : Nat}
    {list : List Value} (hpresent : present[i]? = some true) (hlist : lists[i]? = some list) :
    (arrays present.toArray (offsetsFrom 0 (lists.map List.length)).toArray items).cell i =
      .array list := by
  have hi : i < (lists.map List.length).length := by
    rw [List.length_map]
    exact (List.getElem?_eq_some_iff.mp hlist).1
  have hstart := getElem?_offsetsFrom (Nat.le_of_lt hi) 0
  have hend := getElem?_offsetsFrom hi 0
  rw [List.take_add_one, List.getElem?_map, hlist, Option.map_some, Option.toList_some,
    List.sum_append, List.sum_singleton] at hend
  simp only [cell, Array.getD_eq_getD_getElem?, List.getElem?_toArray, hpresent, hstart, hend,
    Option.getD_some, if_true, Nat.zero_add, Nat.add_sub_cancel_left]
  refine congrArg Value.array (List.ext_getElem (by simp) fun k hk hk' => ?_)
  rw [List.getElem_map, List.getElem_range]
  exact hitems.cell ((getElem?_flatten_drop hlist hk').trans (List.getElem?_eq_getElem hk'))

/-- **Cells that were stored are held**, whatever their type. -/
theorem holds_of_ofValues {column : String} {type : ColumnType} {cells : List Value}
    {vector : CellVector} (h : ofValues column type cells = .ok vector) :
    vector.Holds type cells := by
  induction type generalizing cells vector with
  | array element ih =>
    rw [ofValues] at h
    obtain ⟨lists, hlists, h⟩ := bind_eq_ok_iff.mp h
    obtain ⟨items, hitems, h⟩ := bind_eq_ok_iff.mp h
    obtain rfl := Except.ok.inj h
    obtain ⟨rfl, hpresent⟩ := arraysOf_eq_ok_iff.mp hlists
    have hitems := ih hitems
    have hcontents : ∀ {i : Nat} {list : List Value}, cells[i]? = some (.array list) →
        ((cells.map Value.items?).map fun list => list.getD [])[i]? = some list := by
      intro i list hcell
      simp [hcell, Value.items?]
    refine ⟨fun cell hcell => ?_, fun {i cell} hcell => ?_⟩
    · have hkind := hpresent cell hcell
      cases cell with
      | null => rfl
      | array list =>
        rw [Value.fits, Value.allFit_iff]
        intro item hitem
        obtain ⟨i, hi⟩ := List.mem_iff_getElem?.mp hcell
        exact hitems.fits item
          (List.mem_flatten_of_mem (List.mem_of_getElem? (hcontents hi)) hitem)
      | _ => cases hkind
    · have hkind := hpresent cell (List.mem_of_getElem? hcell)
      cases cell with
      | null => simp [CellVector.cell, hcell, Value.items?]
      | array list => exact cell_arrays hitems (by simp [hcell, Value.items?]) (hcontents hcell)
      | _ => cases hkind
  | _ =>
    rw [ofValues] at h
    refine holds_of_scalars (fun _ _ => rfl) rfl (fun cell hkind => ?_) h
    cases cell <;> first | exact ⟨rfl, rfl⟩ | cases hkind

end CellVector

/-! ## Reading rows back -/

namespace Batch

variable {rows : List Row} {columns : List Column}

/-- A column that was stored exists, and it has the cells of its position, row by row. -/
theorem exists_of_vectorAt {position : Nat} {vector : CellVector}
    (h : vectorAt rows columns position = .ok vector) :
    ∃ column, columns[position]? = some column ∧ vector.size = rows.length ∧
      (∀ {r : Nat} {row : Row}, rows[r]? = some row →
        row[position]? = some (vector.cell r) ∧ (vector.cell r).fits column.type = true) ∧
      (vector.hasNull = false →
        ∀ row ∈ rows, ∀ cell, row[position]? = some cell → cell.isNull = false) := by
  unfold vectorAt at h
  split at h
  · cases h
  rename_i column hcolumn
  obtain ⟨cells, hcells, h⟩ := bind_eq_ok_iff.mp h
  have hholds := CellVector.holds_of_ofValues h
  obtain ⟨stored, hstored, hstores⟩ := CellVector.exists_ofValues column.name hholds.fits
  obtain rfl := Except.ok.inj (hstored.symm.trans h)
  have hcell : ∀ {r : Nat} {row : Row}, rows[r]? = some row →
      ∃ cell, cells[r]? = some cell ∧ row[position]? = some cell := by
    intro r row hrow
    obtain ⟨cell, hcell, hread⟩ := getElem?_of_mapM_eq_ok hcells hrow
    refine ⟨cell, hcell, ?_⟩
    unfold cellAt at hread
    split at hread
    · rename_i found hfound
      rw [hfound, Except.ok.inj hread]
    · cases hread
  refine ⟨column, hcolumn, ?_, fun {r row} hrow => ?_, fun hnull row hrow cell hrowCell => ?_⟩
  · rw [hstores.size, length_of_mapM_eq_ok hcells]
  · obtain ⟨cell, hcell, hread⟩ := hcell hrow
    rw [hholds.cell hcell]
    exact ⟨hread, hholds.fits cell (List.mem_of_getElem? hcell)⟩
  · obtain ⟨r, hr⟩ := List.mem_iff_getElem?.mp hrow
    obtain ⟨found, hfound, hread⟩ := hcell hr
    obtain rfl := Option.some.inj (hread.symm.trans hrowCell)
    rw [hstores.hasNull, List.any_eq_false] at hnull
    simpa using hnull found (List.mem_of_getElem? hfound)

/-- Columns that were stored exist, so they have a schema. If it finds no null that it does not
allow, the rows have what the positions ask for. -/
theorem suits_of_vectors {positions : List Nat} {vectors : List CellVector}
    (hvectors : positions.mapM (vectorAt rows columns) = .ok vectors) :
    ∃ schema, project columns (some positions) = .ok schema ∧
      (checkNulls schema vectors = .ok () → ∀ p ∈ positions, Suits rows columns p) := by
  induction positions generalizing vectors with
  | nil => exact ⟨[], rfl, fun _ _ hp => absurd hp List.not_mem_nil⟩
  | cons position rest ih =>
    rw [List.mapM_cons] at hvectors
    obtain ⟨vector, hvector, hvectors⟩ := bind_eq_ok_iff.mp hvectors
    obtain ⟨others, hothers, hvectors⟩ := bind_eq_ok_iff.mp hvectors
    obtain rfl := Except.ok.inj hvectors
    obtain ⟨schema, hschema, hrest⟩ := ih hothers
    obtain ⟨column, hcolumn, -, hcells, hpresent⟩ := exists_of_vectorAt hvector
    refine ⟨column :: schema, ?_, fun hnulls => ?_⟩
    · rw [project] at hschema ⊢
      rw [List.mapM_cons, hschema]
      simp only [hcolumn]
      rfl
    · rw [checkNulls] at hnulls
      split at hnulls
      · cases hnulls
      · rename_i hallowed
        refine List.forall_mem_cons.mpr ⟨⟨column, hcolumn, fun row hrow => ?_⟩, hrest hnulls⟩
        obtain ⟨r, hr⟩ := List.mem_iff_getElem?.mp hrow
        obtain ⟨hcell, hfits⟩ := hcells hr
        refine ⟨vector.cell r, hcell, hfits, ?_⟩
        cases hnullable : column.nullable with
        | true => exact Or.inl rfl
        | false =>
          rw [hnullable, Bool.not_false, Bool.true_and, Bool.not_eq_true] at hallowed
          exact Or.inr (hpresent hallowed row hrow _ hcell)

/-- **Batches are a transpose that loses nothing.** Let the schema be that of the wanted columns, if
there are such columns. Then rows are stored if and only if they have what every wanted position asks
for: a column at the position, and in every row a cell of its type that is null only where the column
allows it. A batch has as many rows as were given, also if no column is wanted, and one vector for
each wanted position, as long as the rows; and the cell of a row in the vector of a position is the
one that the row has there. -/
theorem ofRows_transposes (rows : List Row) {projection : Option (List Nat)} {schema : List Column}
    (hschema : ∀ wanted, project columns projection = .ok wanted → schema = wanted) :
    ((∃ batch, ofRows rows columns projection schema = .ok batch) ↔
      ∀ p ∈ positions columns projection, Suits rows columns p) ∧
    ∀ batch, ofRows rows columns projection schema = .ok batch →
      batch.rowCount = rows.length ∧ batch.schema = schema ∧
      batch.vectors.length = (positions columns projection).length ∧
      (∀ vector ∈ batch.vectors, vector.size = rows.length) ∧
      ∀ (r i : Nat) (row : Row) (position : Nat), rows[r]? = some row →
        (positions columns projection)[i]? = some position →
        ∃ vector, batch.vectors[i]? = some vector ∧ row[position]? = some (vector.cell r) := by
  have hstored : ∀ batch, ofRows rows columns projection schema = .ok batch →
      ∃ vectors, (positions columns projection).mapM (vectorAt rows columns) = .ok vectors ∧
        checkNulls schema vectors = .ok () ∧ batch = ⟨rows.length, schema, vectors⟩ := by
    intro batch hbatch
    obtain ⟨vectors, hvectors, hbatch⟩ := bind_eq_ok_iff.mp hbatch
    obtain ⟨_, hnulls, hbatch⟩ := bind_eq_ok_iff.mp hbatch
    exact ⟨vectors, hvectors, hnulls, (Except.ok.inj hbatch).symm⟩
  refine ⟨⟨?_, fun hsuits => ?_⟩, fun batch hbatch => ?_⟩
  · rintro ⟨batch, hbatch⟩
    obtain ⟨vectors, hvectors, hnulls, -⟩ := hstored batch hbatch
    obtain ⟨wanted, hwanted, hsuits⟩ := suits_of_vectors hvectors
    exact hsuits (hschema wanted ((project_eq projection).trans hwanted) ▸ hnulls)
  · obtain ⟨wanted, batch, hwanted, hbatch, -⟩ := exists_ofRows_of_suits hsuits
    exact ⟨batch, hschema wanted hwanted ▸ hbatch⟩
  · obtain ⟨vectors, hvectors, -, rfl⟩ := hstored batch hbatch
    refine ⟨rfl, rfl, length_of_mapM_eq_ok hvectors, fun vector hmem => ?_, ?_⟩
    · obtain ⟨position, -, hvector⟩ := (exists_of_mapM_eq_ok hvectors).2 vector hmem
      obtain ⟨_, -, hsize, -⟩ := exists_of_vectorAt hvector
      exact hsize
    · intro r i row position hrow hposition
      obtain ⟨vector, hplace, hvector⟩ := getElem?_of_mapM_eq_ok hvectors hposition
      obtain ⟨_, -, -, hcells, -⟩ := exists_of_vectorAt hvector
      exact ⟨vector, hplace, (hcells hrow).1⟩

/-- A number and a list of lists. -/
def taggedColumns : List Column :=
  [.required "id" .bigInt, .optional "tags" (.array (.array .varchar))]

/-- Three rows with lists of lists: one with a null in a list and a null among the lists, one without
any list, and one with none in it. -/
def taggedRows : List Row :=
  [[.bigInt 1, .array [.array [.varchar "a", .null], .null, .array []]],
    [.bigInt 2, .null],
    [.bigInt 3, .array []]]

/-- The lists are stored twice, before and behind the numbers, and the first of them is read back from
the second copy. A position that has no column is not stored. -/
theorem ofRows_transposes_taggedRows :
    (∃ batch, ofRows taggedRows taggedColumns (some [1, 0, 1])
        [taggedColumns[1], taggedColumns[0], taggedColumns[1]] = .ok batch ∧
      batch.rowCount = 3 ∧ ∃ vector, batch.vectors[2]? = some vector ∧
        vector.cell 0 = .array [.array [.varchar "a", .null], .null, .array []]) ∧
    ¬∃ batch, ofRows taggedRows taggedColumns (some [2]) [] = .ok batch := by
  constructor
  · have hschema : ∀ wanted, project taggedColumns (some [1, 0, 1]) = .ok wanted →
        [taggedColumns[1], taggedColumns[0], taggedColumns[1]] = wanted :=
      fun wanted hwanted => Except.ok.inj hwanted
    obtain ⟨hstored, hback⟩ := ofRows_transposes taggedRows hschema
    obtain ⟨batch, hbatch⟩ := hstored.mpr fun p hp =>
      suits_of_fits (by decide) ((by decide : ∀ p ∈ [1, 0, 1], p < taggedColumns.length) p hp)
    obtain ⟨hcount, -, -, -, hcells⟩ := hback batch hbatch
    obtain ⟨vector, hvector, hcell⟩ := hcells 0 2 _ 1 rfl rfl
    exact ⟨batch, hbatch, hcount, vector, hvector, (Option.some.inj hcell).symm⟩
  · have hschema : ∀ wanted, project taggedColumns (some [2]) = .ok wanted → [] = wanted :=
      fun wanted hwanted => nomatch hwanted
    rw [(ofRows_transposes taggedRows hschema).1]
    intro hsuits
    obtain ⟨column, hcolumn, -⟩ := hsuits 2 List.mem_cons_self
    cases hcolumn

end Batch
end RemoteTables
