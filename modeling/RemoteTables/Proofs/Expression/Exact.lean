import RemoteTables.Expression.Truth
import RemoteTables.Expression.Constraint
import RemoteTables.Proofs.Sets.Constraints

/-!
# A constraint says what its expression says

Where an expression becomes a constraint, the expression is true on a row exactly when the row's
literals satisfy the constraint (`expresses_constraint?`). Nulls fit in on both sides: a comparison
with null is not true, and a cell that is null has no literal. `constraint?_exact` spells out what
this comes to for a row.

The argument goes down to one comparison (`compared_iff`). There the engine compares values and the
domain compares literals, so it has to be seen that both orders are the same: whole numbers of any
width against 64-bit ones, instants in any unit against milliseconds. A constant becomes a literal
only if nothing of it is lost, and that is what makes the two orders agree.
-/

set_option autoImplicit false

namespace RemoteTables

/-! ## Three values -/

namespace Truth

theorem both_eq_true {a b : Truth} : both a b = some true ↔ a = some true ∧ b = some true := by
  rcases a with _ | _ | _ <;> rcases b with _ | _ | _ <;> simp [both]

theorem either_eq_true {a b : Truth} :
    either a b = some true ↔ a = some true ∨ b = some true := by
  rcases a with _ | _ | _ <;> rcases b with _ | _ | _ <;> simp [either]

theorem any_eq_true {conditions : List Truth} :
    any conditions = some true ↔ some true ∈ conditions := by
  induction conditions with
  | nil => simp [any]
  | cons first rest ih =>
    rw [any, List.foldr_cons, ← any, either_eq_true, ih, List.mem_cons, eq_comm]

@[simp] theorem signed_false (t : Truth) : signed false t = t := by
  rcases t with _ | _ | _ <;> rfl

end Truth

/-! ## One order for values and literals -/

theorem compare_toInt (a b : Int64) : compare a.toInt b.toInt = compare a b := by
  rcases h : compare a b with _ | _ | _
  · rw [Std.compare_eq_lt, Int64.lt_iff_toInt_lt] at h
    exact Std.compare_eq_lt.mpr h
  · rw [Std.compare_eq_iff_eq] at h
    rw [h, Std.compare_eq_iff_eq]
  · rw [Std.compare_eq_gt, Int64.lt_iff_toInt_lt] at h
    exact Std.compare_eq_gt.mpr h

theorem compare_mul {k : Int} (hk : 0 < k) (a b : Int) : compare (a * k) (b * k) = compare a b := by
  rcases h : compare a b with _ | _ | _
  · rw [Std.compare_eq_lt] at h ⊢
    exact Int.mul_lt_mul_of_pos_right h hk
  · rw [Std.compare_eq_iff_eq] at h
    rw [h, Std.compare_eq_iff_eq]
  · rw [Std.compare_eq_gt] at h ⊢
    exact Int.mul_lt_mul_of_pos_right h hk

theorem toInt_int64? {i : Int} {n : Int64} (h : int64? i = some n) : n.toInt = i := by
  rw [int64?] at h
  split at h
  · rename_i hfits
    obtain rfl := Option.some.inj h
    exact Int64.toInt_ofInt_of_le (by simpa using hfits.1) (by
      have hmax : Int64.maxValue.toInt = 2 ^ 63 - 1 := by decide
      omega)
  · exact absurd h (by simp)

theorem nanos_millis? {unit : TimeUnit} {ticks millis : Int64}
    (h : unit.millis? ticks = some millis) :
    ticks.toInt * unit.nanos = millis.toInt * TimeUnit.millisecond.nanos := by
  -- the finer units are read only where they divide into milliseconds
  have hparts : ∀ k : Int, (if ticks.toInt % k = 0 then int64? (ticks.toInt / k) else none)
      = some millis → ticks.toInt = millis.toInt * k := by
    intro k hk
    split at hk
    · rename_i hdiv
      rw [toInt_int64? hk, Int.ediv_mul_cancel (Int.dvd_of_emod_eq_zero hdiv)]
    · exact absurd hk (by simp)
  cases unit with
  | second =>
    have := toInt_int64? h
    simp only [TimeUnit.nanos]
    omega
  | millisecond =>
    obtain rfl := Option.some.inj h
    rfl
  | microsecond =>
    have := hparts 1000 h
    simp only [TimeUnit.nanos]
    omega
  | nanosecond =>
    have := hparts 1000000 h
    simp only [TimeUnit.nanos]
    omega

/-- **A cell and a constant compare as their literals do**, unless the cell is null. -/
theorem order?_datum {type : ColumnType} {s : Scalar} {v : Literal} {cell : Value}
    (hs : s.literal? type = some v) (hcell : cell.fits type = true) :
    cell = .null ∨ ∃ u, cell.literal? = some u ∧ cell.datum.isNull = false ∧
      s.datum.isNull = false ∧ cell.datum.order? s.datum = some (compare u v) := by
  -- a constant is read as a literal of the column's type, and a cell of that type is one or null
  unfold Scalar.literal? at hs
  split at hs
  · obtain rfl := Option.some.inj hs
    cases cell <;> first | exact Or.inl rfl | exact Or.inr ⟨_, rfl, rfl, rfl, rfl⟩ | cases hcell
  · obtain rfl := Option.some.inj hs
    cases cell <;> first | exact Or.inl rfl | exact Or.inr ⟨_, rfl, rfl, rfl, rfl⟩ | cases hcell
  · split at hs
    · obtain ⟨n, hn, rfl⟩ := Option.map_eq_some_iff.mp hs
      cases cell with
      | null => exact Or.inl rfl
      | bigInt i =>
        refine Or.inr ⟨_, rfl, rfl, rfl, ?_⟩
        rw [Value.datum, Scalar.datum, Datum.order?, ← toInt_int64? hn, compare_toInt]
        rfl
      | _ => cases hcell
    · exact absurd hs (by simp)
  · obtain ⟨millis, hmillis, rfl⟩ := Option.map_eq_some_iff.mp hs
    cases cell with
    | null => exact Or.inl rfl
    | timestamp t =>
      refine Or.inr ⟨_, rfl, rfl, rfl, ?_⟩
      rw [Value.datum, Scalar.datum, Datum.order?, nanos_millis? hmillis,
        compare_mul (by decide), compare_toInt]
      rfl
    | _ => cases hcell
  · exact absurd hs (by simp)

theorem order?_swap (a b : Datum) : b.order? a = (a.order? b).map Ordering.swap := by
  cases a <;> cases b <;> first | rfl | exact congrArg some Std.OrientedOrd.eq_swap

/-! ## One comparison -/

/-- A cell compares with a constant as an operator says: its literal does. -/
theorem compared_iff {engine : Engine} {op : Operator} {asks : Ordering → Bool}
    (hop : op.comparison? = some asks) {type : ColumnType} {s : Scalar} {v : Literal}
    (hs : s.literal? type = some v) {cell : Value} (hcell : cell.fits type = true) :
    engine.compared op cell.datum s.datum = some true ↔
      ∃ u, cell.literal? = some u ∧ asks (compare u v) = true := by
  rcases order?_datum hs hcell with rfl | ⟨u, hu, hcnull, hsnull, horder⟩
  · simp [Engine.compared, Value.datum, Datum.isNull, Value.literal?]
  · simp [Engine.compared, hcnull, hsnull, horder, hop, hu]

theorem compared_iff_exchanged {engine : Engine} {op other : Operator} {asks : Ordering → Bool}
    (hother : op.exchanged? = some other) (hop : other.comparison? = some asks)
    {type : ColumnType} {s : Scalar} {v : Literal} (hs : s.literal? type = some v) {cell : Value}
    (hcell : cell.fits type = true) :
    engine.compared op s.datum cell.datum = some true ↔
      ∃ u, cell.literal? = some u ∧ asks (compare u v) = true := by
  rcases order?_datum hs hcell with rfl | ⟨u, hu, hcnull, hsnull, horder⟩
  · simp [Engine.compared, Value.datum, Datum.isNull, Value.literal?]
  · have hswap : ∃ asked, op.comparison? = some asked ∧ ∀ o, asked o.swap = asks o := by
      cases op <;> simp only [Operator.exchanged?, Option.some.injEq, reduceCtorEq] at hother <;>
        subst hother <;> simp only [Operator.comparison?, Option.some.injEq] at hop <;>
        subst hop <;> exact ⟨_, rfl, fun o => by cases o <;> rfl⟩
    obtain ⟨asked, hasked, hsame⟩ := hswap
    simp [Engine.compared, hcnull, hsnull, order?_swap cell.datum, horder, hasked, hu, hsame]

theorem includes_operatorDomain {op : Operator} {v : Literal} {d : Domain}
    (h : op.domain? v = some d) :
    d.isAll = false ∧ d.WellFormed ∧ ∃ asks, op.comparison? = some asks ∧
      ∀ u, d.includes u = true ↔ asks (compare u v) = true := by
  cases op <;> simp only [Operator.domain?, Option.some.injEq, reduceCtorEq] at h <;> subst h
  · refine ⟨rfl, Domain.wellFormed_single v, _, rfl, fun u => ?_⟩
    rw [Domain.includes_single, Ordering.isEq_iff_eq_eq, Std.compare_eq_iff_eq]
  all_goals
    refine ⟨rfl, trivial, _, rfl, fun u => ?_⟩
    simp only [Domain.includes_ranges, List.mem_singleton, exists_eq_left, Range.includes,
      Range.lessThan, Range.lessOrEqual, Range.greaterThan, Range.greaterOrEqual,
      Bound.admitsAbove, Bound.admitsBelow, Bool.true_and, Bool.and_true, decide_eq_true_eq]
  · rw [Ordering.isLT_iff_eq_lt, Std.compare_eq_lt]
  · rw [Std.isLE_compare]
  · rw [Ordering.isGT_iff_eq_gt, Std.compare_eq_gt]
  · rw [Std.isGE_compare]

theorem includes_between (low high u : Literal) :
    (Domain.ranges [.between low high]).includes u = true ↔
      (compare u low).isGE = true ∧ (compare u high).isLE = true := by
  rw [Std.isGE_compare, Std.isLE_compare]
  simp [Domain.includes_ranges, Range.includes, Range.between, Bound.admitsAbove,
    Bound.admitsBelow]

/-! ## Rows and their literals -/

namespace Row

/-- What a row says of its columns; a cell that is no literal says nothing. -/
def assignment (row : Row) (columns : List ColumnRef) : Assignment :=
  fun name => (row.cell columns name).literal?

/-- Whether the cells of a row are of the columns' types, as far as there are cells. -/
def Suits (row : Row) (columns : List ColumnRef) : Prop :=
  ∀ (position : Nat) (column : ColumnRef) (cell : Value), columns[position]? = some column →
    row[position]? = some cell → cell.fits column.type = true

theorem suits_of_fits {row : Row} {columns : List Column} (h : Row.fits row columns = true) :
    row.Suits (columns.map Column.ref) := by
  induction columns generalizing row with
  | nil => intro position column cell hcolumn; simp at hcolumn
  | cons first rest ih =>
    cases row with
    | nil => simp [Row.fits] at h
    | cons cell cells =>
      simp only [Row.fits, Bool.and_eq_true] at h
      intro position column other hcolumn hcell
      cases position with
      | zero =>
        obtain rfl := Option.some.inj hcolumn
        obtain rfl := Option.some.inj hcell
        exact h.1.1
      | succ position => exact ih h.2 position column other hcolumn hcell

theorem fits_null (type : ColumnType) : Value.null.fits type = true := by
  rw [Value.fits]

theorem Suits.cell {row : Row} {columns : List ColumnRef} (h : row.Suits columns) {name : String}
    {column : ColumnRef} (hcolumn : Expression.column? columns name = some column) :
    (row.cell columns name).fits column.type = true := by
  simp only [Row.cell]
  split
  · cases hcell : row[columns.findIdx fun c => c.name == name]? with
    | none => exact fits_null column.type
    | some cell =>
      rw [Expression.column?, List.find?_eq_getElem?_findIdx] at hcolumn
      exact h _ column cell hcolumn hcell
  · exact fits_null column.type

end Row

/-! ## Expressions -/

namespace Expression

theorem mentions_unnamed (e : Expression) : e.unnamed.mentions = e.mentions := by
  fun_induction unnamed e with
  | case1 e name ih => rw [ih, mentions]
  | case2 => rfl

theorem value_unnamed (engine : Engine) (columns : List ColumnRef) (row : Row) (e : Expression) :
    value engine columns row e.unnamed = value engine columns row e := by
  fun_induction unnamed e with
  | case1 e name ih => rw [ih, value]
  | case2 => rfl

theorem mem_referencedColumns {e : Expression} {name : String} :
    name ∈ e.referencedColumns ↔ name ∈ e.mentions.map (·.2) := by
  rw [referencedColumns, List.mem_mergeSort, List.mem_map, List.mem_map]
  simp [List.mem_eraseDups]

/-- A constant mentions no column and has the value that its literal was read from. -/
theorem of_literal? {type : ColumnType} {e : Expression} {v : Literal}
    (h : e.literal? type = some v) :
    e.mentions = [] ∧ ∃ s : Scalar, s.literal? type = some v ∧
      ∀ (engine : Engine) (columns : List ColumnRef) (row : Row),
        value engine columns row e = s.datum := by
  unfold literal? at h
  split at h
  · rename_i s hs
    refine ⟨by rw [← mentions_unnamed, hs, mentions], s, h, fun engine columns row => ?_⟩
    rw [← value_unnamed, hs, value]
  · exact absurd h (by simp)

/-- What a constraint has in common with the expression it is made of. -/
structure Expresses (engine : Engine) (columns : List ColumnRef) (row : Row) (e : Expression)
    (c : Constraint) : Prop where
  wellFormed : c.WellFormed
  /-- The columns are declared ones. -/
  declared : ∀ entry ∈ c.entries, entry.column ∈ columns
  /-- The columns are those that the expression mentions. -/
  mentioned : ∀ name, name ∈ c.columnNames ↔ name ∈ e.mentions.map (·.2)
  /-- The expression is true where the constraint holds, and nowhere else. -/
  exact : truth engine columns row e = some true ↔ c.holds (row.assignment columns) = true

theorem entries_single {column : ColumnRef} {d : Domain} (h : d.isAll = false) :
    (Constraint.single column d).entries = [⟨column, d⟩] := by
  rw [Constraint.single, Constraint.withDomain, if_neg (by simp [h])]
  simp [Constraint.all]

variable {engine : Engine} {columns : List ColumnRef} {row : Row}

/-- A condition on one column is expressed by the domain of the literals it is true of. -/
theorem expresses_single {e : Expression} {name : String} {column : ColumnRef} {d : Domain}
    (hcolumn : column? columns name = some column) (hall : d.isAll = false) (hd : d.WellFormed)
    (hmentions : ∀ other, other ∈ e.mentions.map (·.2) ↔ other = name)
    (hexact : truth engine columns row e = some true ↔
      ∃ v, (row.cell columns name).literal? = some v ∧ d.includes v = true) :
    Expresses engine columns row e (Constraint.single column d) := by
  have hname : column.name = name := by simpa using List.find?_some hcolumn
  refine ⟨Constraint.wellFormed_withDomain Constraint.wellFormed_all column hd, ?_, ?_, ?_⟩
  · rw [entries_single hall]
    intro entry he
    obtain rfl := List.mem_singleton.mp he
    exact List.mem_of_find?_eq_some hcolumn
  · intro other
    rw [hmentions, Constraint.columnNames, entries_single hall, ← hname]
    simp
  · rw [hexact, Constraint.holds_iff, entries_single hall]
    simp [ColumnDomain.holds_iff, Row.assignment, hname]

theorem Expresses.and {l r : Expression} {a b : Constraint}
    (ha : Expresses engine columns row l a) (hb : Expresses engine columns row r b) :
    Expresses engine columns row (binary .and l r) (a.intersect b) where
  wellFormed := Constraint.wellFormed_intersect ha.wellFormed hb.wellFormed
  declared := Constraint.forall_column_intersect ha.wellFormed hb.wellFormed ha.declared hb.declared
  mentioned name := by
    rw [Constraint.mem_columnNames_intersect ha.wellFormed hb.wellFormed, ha.mentioned,
      hb.mentioned, mentions, List.map_append, List.mem_append]
  exact := by
    rw [truth, Truth.both_eq_true, ha.exact, hb.exact,
      Constraint.holds_intersect ha.wellFormed hb.wellFormed]

theorem Expresses.or {l r : Expression} {a b c : Constraint}
    (ha : Expresses engine columns row l a) (hb : Expresses engine columns row r b)
    (h : eitherOf? a b = some c) : Expresses engine columns row (binary .or l r) c := by
  obtain ⟨as⟩ := a
  obtain ⟨bs⟩ := b
  unfold eitherOf? at h
  split at h
  · rename_i x y hx hy
    obtain rfl : as = [x] := hx
    obtain rfl : bs = [y] := hy
    split at h
    · rename_i hsame
      obtain rfl := Option.some.inj h
      obtain ⟨hxall, hxd⟩ := ha.wellFormed.2 x List.mem_cons_self
      obtain ⟨hyall, hyd⟩ := hb.wellFormed.2 y List.mem_cons_self
      have hunion : (x.domain.union y.domain).isAll = false := by
        cases hx : x.domain <;> cases hy : y.domain <;> simp_all [Domain.isAll, Domain.union,
          Domain.ofList]
      refine ⟨Constraint.wellFormed_withDomain Constraint.wellFormed_all _
        (Domain.wellFormed_union _ _), ?_, fun name => ?_, ?_⟩
      · rw [entries_single hunion]
        intro entry he
        obtain rfl := List.mem_singleton.mp he
        exact ha.declared x List.mem_cons_self
      · rw [mentions, List.map_append, List.mem_append, ← ha.mentioned, ← hb.mentioned,
          Constraint.columnNames, entries_single hunion]
        simp [Constraint.columnNames, hsame]
      · rw [truth, Truth.either_eq_true, ha.exact, hb.exact, Constraint.holds_iff,
          Constraint.holds_iff, Constraint.holds_iff, entries_single hunion]
        simp only [List.forall_mem_singleton, ColumnDomain.holds_iff, ← hsame,
          Domain.includes_union hxd hyd, and_or_left, exists_or]
    · exact absurd h (by simp)
  · exact absurd h (by simp)

/-! ## From expressions to constraints -/

variable (engine columns row) in
theorem of_unnamed_column {e : Expression} {relation : Option String} {name : String}
    (h : e.unnamed = column relation name) :
    e.mentions = [(relation, name)] ∧
      value engine columns row e = (row.cell columns name).datum := by
  rw [← mentions_unnamed, ← value_unnamed, h, mentions, value]
  exact ⟨rfl, rfl⟩

theorem literal?_of_unnamed {e : Expression} {s : Scalar} (h : e.unnamed = literal s)
    (type : ColumnType) : e.literal? type = s.literal? type := by
  rw [literal?, h]

theorem truth_comparison {op : Operator} {asks : Ordering → Bool} (h : op.comparison? = some asks)
    (l r : Expression) : truth engine columns row (binary op l r) =
      engine.compared op (value engine columns row l) (value engine columns row r) := by
  rw [truth, if_pos (by rw [h]; rfl)]
  · rintro rfl
    cases h
  · rintro rfl
    cases h

theorem compared?_eq_some {name : String} {op : Operator} {s : Scalar} {c : Constraint}
    (h : compared? columns name op s = some c) : ∃ column v d, column? columns name = some column ∧
      s.literal? column.type = some v ∧ op.domain? v = some d ∧ c = .single column d := by
  obtain ⟨column, hcolumn, h⟩ := Option.bind_eq_some_iff.mp h
  obtain ⟨v, hv, h⟩ := Option.bind_eq_some_iff.mp h
  obtain ⟨d, hd, h⟩ := Option.bind_eq_some_iff.mp h
  exact ⟨column, v, d, hcolumn, hv, hd, (Option.some.inj h).symm⟩

variable (engine columns row) in
/-- Constants in a list mention no column, and a cell is one of them as its literal is. -/
theorem any_constants {type : ColumnType} {items : List Expression} {literals : List Literal}
    (h : items.mapM (literal? type) = some literals) {cell : Value}
    (hcell : cell.fits type = true) :
    mentionsOfAll items = [] ∧
      (Truth.any (items.map fun item =>
          engine.compared .eq cell.datum (value engine columns row item)) = some true ↔
        ∃ u, cell.literal? = some u ∧ u ∈ literals) := by
  rw [Truth.any_eq_true]
  induction items generalizing literals with
  | nil =>
    obtain rfl : literals = [] := by simpa using h.symm
    exact ⟨by rw [mentionsOfAll], by simp⟩
  | cons item rest ih =>
    rw [List.mapM_cons] at h
    obtain ⟨v, hv, h⟩ := Option.bind_eq_some_iff.mp h
    obtain ⟨others, hothers, h⟩ := Option.bind_eq_some_iff.mp h
    obtain rfl : v :: others = literals := Option.some.inj h
    obtain ⟨hmentions, s, hs, hvalue⟩ := of_literal? hv
    obtain ⟨hrest, hany⟩ := ih hothers
    refine ⟨by rw [mentionsOfAll, hmentions, hrest, List.nil_append], ?_⟩
    rw [List.map_cons, List.mem_cons, hany, hvalue, eq_comm,
      compared_iff (show Operator.eq.comparison? = _ from rfl) hs hcell]
    simp only [Ordering.isEq_iff_eq_eq, Std.compare_eq_iff_eq, List.mem_cons, and_or_left, exists_or]

variable (engine) in
/-- **A constraint that an expression becomes says what the expression says.** -/
theorem expresses_constraint? (hrow : row.Suits columns) {e : Expression} {c : Constraint}
    (h : e.constraint? columns = some c) : Expresses engine columns row e c := by
  fun_induction constraint? columns e generalizing c with
  | case1 e name ih =>
    have he := ih h
    exact ⟨he.wellFormed, he.declared, fun other => by rw [he.mentioned, mentions],
      by rw [truth, he.exact]⟩
  | case2 l r ihl ihr =>
    obtain ⟨a, ha, h⟩ := Option.bind_eq_some_iff.mp h
    obtain ⟨b, hb, h⟩ := Option.bind_eq_some_iff.mp h
    exact Option.some.inj h ▸ (ihl ha).and (ihr hb)
  | case3 l r ihl ihr =>
    obtain ⟨a, ha, h⟩ := Option.bind_eq_some_iff.mp h
    obtain ⟨b, hb, h⟩ := Option.bind_eq_some_iff.mp h
    exact (ihl ha).or (ihr hb) h
  | case4 op l r _ _ s relation name hr hl =>
    -- a column compared with a constant
    obtain ⟨column, v, d, hcolumn, hv, hd, rfl⟩ := compared?_eq_some h
    obtain ⟨hall, hwell, asks, hasks, hincludes⟩ := includes_operatorDomain hd
    obtain ⟨hlm, hlv⟩ := of_unnamed_column engine columns row hl
    obtain ⟨hrm, s', hs', hrv⟩ := of_literal? (literal?_of_unnamed hr column.type ▸ hv)
    refine expresses_single hcolumn hall hwell (fun other => by simp [mentions, hlm, hrm]) ?_
    rw [truth_comparison hasks, hlv, hrv, compared_iff hasks hs' (hrow.cell hcolumn)]
    simp only [hincludes]
  | case5 op l r _ _ s relation name hr hl =>
    -- a constant compared with a column: the operator that says the same the other way round
    obtain ⟨other, hother, h⟩ := Option.bind_eq_some_iff.mp h
    obtain ⟨column, v, d, hcolumn, hv, hd, rfl⟩ := compared?_eq_some h
    obtain ⟨hall, hwell, asks, hasks, hincludes⟩ := includes_operatorDomain hd
    obtain ⟨hrm, hrv⟩ := of_unnamed_column engine columns row hr
    obtain ⟨hlm, s', hs', hlv⟩ := of_literal? (literal?_of_unnamed hl column.type ▸ hv)
    obtain ⟨asked, hasked⟩ : ∃ asked, op.comparison? = some asked := by
      cases op <;> first | exact ⟨_, rfl⟩ | cases hother
    refine expresses_single hcolumn hall hwell (fun other => by simp [mentions, hlm, hrm]) ?_
    rw [truth_comparison hasked, hlv, hrv,
      compared_iff_exchanged hother hasks hs' (hrow.cell hcolumn)]
    simp only [hincludes]
  | case7 e items relation name he =>
    -- a column in a list of constants
    obtain ⟨column, hcolumn, h⟩ := Option.bind_eq_some_iff.mp h
    obtain ⟨literals, hliterals, h⟩ := Option.bind_eq_some_iff.mp h
    obtain rfl := Option.some.inj h
    obtain ⟨hem, hev⟩ := of_unnamed_column engine columns row he
    obtain ⟨hmentions, hany⟩ := any_constants engine columns row hliterals
      (hrow.cell hcolumn)
    refine expresses_single hcolumn rfl (Domain.wellFormed_ofList literals)
      (fun other => by simp [mentions, hem, hmentions]) ?_
    rw [truth, Truth.signed_false, hev, hany]
    simp only [Domain.includes_ofList]
  | case9 e low high relation name he =>
    -- a column between two constants
    obtain ⟨column, hcolumn, h⟩ := Option.bind_eq_some_iff.mp h
    obtain ⟨lowest, hlow, h⟩ := Option.bind_eq_some_iff.mp h
    obtain ⟨highest, hhigh, h⟩ := Option.bind_eq_some_iff.mp h
    obtain rfl := Option.some.inj h
    obtain ⟨hem, hev⟩ := of_unnamed_column engine columns row he
    obtain ⟨hlm, s, hs, hlv⟩ := of_literal? hlow
    obtain ⟨hhm, t, ht, hhv⟩ := of_literal? hhigh
    refine expresses_single hcolumn rfl trivial
      (fun other => by simp [mentions, hem, hlm, hhm]) ?_
    rw [truth, Truth.signed_false, Truth.both_eq_true, hev, hlv, hhv,
      compared_iff (show Operator.ge.comparison? = _ from rfl) hs (hrow.cell hcolumn),
      compared_iff (show Operator.le.comparison? = _ from rfl) ht (hrow.cell hcolumn)]
    constructor
    · rintro ⟨⟨u, hu, hul⟩, ⟨w, hw, hwh⟩⟩
      obtain rfl := Option.some.inj (hu.symm.trans hw)
      exact ⟨u, hu, (includes_between lowest highest u).mpr ⟨hul, hwh⟩⟩
    · rintro ⟨u, hu, hincludes⟩
      obtain ⟨hul, huh⟩ := (includes_between lowest highest u).mp hincludes
      exact ⟨⟨u, hu, hul⟩, ⟨u, hu, huh⟩⟩
  | _ => exact absurd h (by simp)

/-! ## Row by row -/

theorem isNull_of_literal? {cell : Value} {v : Literal} (h : cell.literal? = some v) :
    cell.isNull = false := by
  cases cell <;> first | rfl | cases h

/-- **An expression that becomes a constraint is decided by the literals of a row.** It is true on a
row exactly when every column of the constraint has a cell that is not null and whose literal the
column's domain includes. The constraint has one entry for each column that the expression refers
to, all of them declared, and its lists of values are in order. -/
theorem constraint?_exact (engine : Engine) {columns : List ColumnRef} {row : Row}
    (hrow : row.Suits columns) {e : Expression} {c : Constraint}
    (h : e.constraint? columns = some c) :
    (e.truth engine columns row = some true ↔
      ∀ entry ∈ c.entries, (row.cell columns entry.column.name).isNull = false ∧
        ∃ v, (row.cell columns entry.column.name).literal? = some v ∧
          entry.domain.includes v = true) ∧
    (∀ name, name ∈ c.columnNames ↔ name ∈ e.referencedColumns) ∧
    c.columnNames.Nodup ∧
    ∀ entry ∈ c.entries, entry.column ∈ columns ∧
      ∀ values, entry.domain = .values values → Literal.StrictlyIncreasing values := by
  have hexpresses : Expresses engine columns row e c := expresses_constraint? engine hrow h
  refine ⟨?_, fun name => ?_, hexpresses.wellFormed.nodup, fun entry he => ?_⟩
  · rw [hexpresses.exact, Constraint.holds_iff]
    refine forall₂_congr fun entry _ => ?_
    rw [entry.holds_iff, Row.assignment]
    constructor
    · rintro ⟨v, hv, hincludes⟩
      exact ⟨isNull_of_literal? hv, v, hv, hincludes⟩
    · rintro ⟨-, hincludes⟩
      exact hincludes
  · rw [hexpresses.mentioned, mem_referencedColumns]
  · refine ⟨hexpresses.declared entry he, fun values hvalues => ?_⟩
    have hdomain := (hexpresses.wellFormed.2 entry he).2
    rw [hvalues] at hdomain
    exact hdomain

/-- The changes of the second before the epoch, and those of one instant after it. One comparison has
the column on its right, and another has it under a name of its own. -/
def earlyChanges : Expression :=
  .binary .and
    (.binary .or
      (.binary .gt (.literal (.instant .nanosecond (some 0))) (.column none "updated_at"))
      (.binary .eq (.named (.column none "updated_at") "u")
        (.literal (.instant .microsecond (some 7000)))))
    (.binary .ge (.column none "updated_at") (.literal (.instant .second (some (-1)))))

/-- A change one millisecond before the epoch is an early one. -/
theorem constraint?_exact_earlyChanges :
    ∃ c, earlyChanges.constraint? [⟨"owner", .varchar⟩, ⟨"updated_at", .timestamp⟩] = some c ∧
      c.entries = [⟨⟨"updated_at", .timestamp⟩, .ranges
        [⟨.inclusive (.timestamp (-1000)), .exclusive (.timestamp 0)⟩, .single (.timestamp 7)]⟩] ∧
      earlyChanges.truth ⟨fun _ _ => .null, fun _ _ _ => none⟩
        [⟨"owner", .varchar⟩, ⟨"updated_at", .timestamp⟩] [.varchar "o", .timestamp (-1)] =
        some true := by
  have hrow : Row.Suits [.varchar "o", .timestamp (-1)]
      [⟨"owner", .varchar⟩, ⟨"updated_at", .timestamp⟩] :=
    @Row.suits_of_fits _ [.required "owner" .varchar, .optional "updated_at" .timestamp]
      (by decide)
  have hconstraint : earlyChanges.constraint?
      [⟨"owner", .varchar⟩, ⟨"updated_at", .timestamp⟩] =
      some ⟨[⟨⟨"updated_at", .timestamp⟩, .ranges [⟨.inclusive (.timestamp (-1000)),
        .exclusive (.timestamp 0)⟩, .single (.timestamp 7)]⟩]⟩ := by
    decide +kernel
  refine ⟨_, hconstraint, rfl, (constraint?_exact _ hrow hconstraint).1.mpr fun entry he => ?_⟩
  obtain rfl := List.mem_singleton.mp he
  exact ⟨rfl, .timestamp (-1), rfl, by decide +kernel⟩

end Expression
end RemoteTables
