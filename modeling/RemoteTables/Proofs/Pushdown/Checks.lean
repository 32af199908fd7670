import RemoteTables.Proofs.Attempts
import RemoteTables.Proofs.Expression.Exact
import RemoteTables.Proofs.Pushdown.Explode
import RemoteTables.Table.Definition

/-!
# What the checks of a table check

A table tests its rows cell by cell, against checks that it made of its constraint. The test comes
to this: the row's literals satisfy what is enforced of the constraint (`accepts_of_checks`). The
checks can be made of every constraint whose equality columns the table has (`checks_isOk`).
-/

set_option autoImplicit false

namespace RemoteTables

theorem FilterRules.mem_of_kindOf {rules : FilterRules} {column : String}
    (h : rules.kindOf column ≠ .unsupported) : (column, rules.kindOf column) ∈ rules := by
  rw [kindOf] at h ⊢
  induction rules with
  | nil => exact absurd rfl h
  | cons rule rest ih =>
    obtain ⟨name, kind⟩ := rule
    by_cases hname : column = name
    · subst hname
      rw [List.lookup_cons_self]
      exact List.mem_cons_self
    · rw [List.lookup_cons, beq_false_of_ne hname] at h ⊢
      exact List.mem_cons_of_mem _ (ih h)

namespace TableDefinition

variable {ρ β : Type} (t : TableDefinition ρ β)

/-- Whether a row has the literals that rules enforce of a constraint. -/
def passes (rules : FilterRules) (c : Constraint) (row : Row) : Bool :=
  (rules.enforced c).holds (row.assignment t.references)

/-- Whether a row passes the checks made of a handle's constraint. -/
def admits (h : TableHandle) (row : Row) : Except Failure Bool := do
  let enforced ← t.checks h.constraint
  return (FetchRequest.mk h (t.sortOf h) enforced).accepts row

variable {t}

theorem position?_eq {column : String} {position : Nat} (h : t.position? column = some position) :
    position = t.references.findIdx (fun c => c.name == column) ∧
      position < t.references.length := by
  simp only [position?] at h
  split at h
  · obtain rfl := Option.some.inj h
    rw [references, List.findIdx_map, List.length_map]
    exact ⟨rfl, ‹_›⟩
  · exact absurd h (by simp)

/-- A column is checked against the literal that the row has for it. -/
theorem cellIn_position {entry : ColumnDomain} {position : Nat}
    (h : t.position? entry.column.name = some position) (row : Row) :
    FetchRequest.cellIn entry.domain row[position]? = entry.holds (row.assignment t.references) := by
  obtain ⟨hindex, hlt⟩ := position?_eq h
  rw [FetchRequest.cellIn, ColumnDomain.holds, Row.assignment, Row.cell, ← hindex, if_pos hlt]
  cases row[position]? with
  | none => rfl
  | some cell =>
    rw [Option.bind_some, Option.getD_some]
    cases cell.literal? <;> rfl

theorem all_cellIn {entries : List ColumnDomain} {enforced : List (Nat × Domain)}
    (h : entries.mapM t.check = .ok enforced) (row : Row) :
    (enforced.all fun (position, domain) => FetchRequest.cellIn domain row[position]?) =
      entries.all (·.holds (row.assignment t.references)) := by
  induction entries generalizing enforced with
  | nil =>
    obtain rfl : [] = enforced := Except.ok.inj h
    rfl
  | cons entry rest ih =>
    rw [List.mapM_cons, check] at h
    split at h
    · rename_i position hposition
      cases hrest : rest.mapM t.check with
      | error failure =>
        rw [hrest] at h
        cases h
      | ok others =>
        rw [hrest] at h
        obtain rfl : (position, entry.domain) :: others = enforced := Except.ok.inj h
        rw [List.all_cons, List.all_cons, ih hrest, ← cellIn_position hposition]
    · cases h

variable {rules : FilterRules}

/-- A row that passes has the text that a column is bound to. -/
theorem assignment_of_boundString? {c : Constraint} {column text : String}
    (h : rules.boundString? c column = some text) (hkind : rules.kindOf column = .equal) {row : Row}
    (hrow : t.passes rules c row = true) :
    row.assignment t.references column = some (.varchar text) := by
  obtain ⟨v, hv, htext⟩ := Option.bind_eq_some_iff.mp h
  rw [FilterRules.eq_of_boundValue? hv hkind hrow]
  cases v <;> cases htext
  rfl

/-- A row that passes has the number that a column is bound to. -/
theorem assignment_of_boundInt? {c : Constraint} {column : String} {number : Int64}
    (h : rules.boundInt? c column = some number) (hkind : rules.kindOf column = .equal) {row : Row}
    (hrow : t.passes rules c row = true) :
    (row.assignment t.references column).bind Literal.asInt64? = some number := by
  obtain ⟨v, hv, hnumber⟩ := Option.bind_eq_some_iff.mp h
  rw [FilterRules.eq_of_boundValue? hv hkind hrow]
  exact hnumber

variable (hrules : t.rules = some rules)
include hrules

/-- **A row is accepted if its literals satisfy what is enforced**, and not otherwise. -/
theorem accepts_of_checks {c : Constraint} {enforced : List (Nat × Domain)}
    (h : t.checks c = .ok enforced) {request : FetchRequest} (hrequest : request.enforced = enforced)
    (row : Row) :
    request.accepts row = t.passes rules c row := by
  rw [checks, hrules] at h
  rw [FetchRequest.accepts, hrequest, all_cellIn h]
  rfl

/-- The checks can be made if the table has the equality columns of the constraint. -/
theorem checks_isOk {c : Constraint}
    (h : ∀ entry ∈ c.entries, rules.kindOf entry.column.name = .equal →
      ∃ column ∈ t.columns, column.name = entry.column.name) :
    ∃ enforced, t.checks c = .ok enforced := by
  rw [checks, hrules]
  show ∃ enforced, (c.entries.filter fun entry =>
    rules.kindOf entry.column.name = .equal).mapM t.check = .ok enforced
  have hentries : ∀ entry ∈ c.entries.filter fun entry => rules.kindOf entry.column.name = .equal,
      t.check entry = .ok (t.columns.findIdx (fun c => c.name == entry.column.name),
        entry.domain) := by
    intro entry he
    obtain ⟨he, hkind⟩ := List.mem_filter.mp he
    obtain ⟨column, hcolumn, hname⟩ := h entry he (of_decide_eq_true hkind)
    have hlt : t.columns.findIdx (fun c => c.name == entry.column.name) < t.columns.length :=
      List.findIdx_lt_length_of_exists ⟨column, hcolumn, by simpa using hname⟩
    simp only [check, position?, if_pos hlt]
  exact ⟨_, mapM_eq_ok hentries⟩

/-- A row is admitted by a handle if its literals satisfy what is enforced of the constraint. -/
theorem admits_eq {h : TableHandle}
    (hdeclared : ∀ entry ∈ h.constraint.entries, rules.kindOf entry.column.name = .equal →
      ∃ column ∈ t.columns, column.name = entry.column.name) (row : Row) :
    t.admits h row = .ok (t.passes rules h.constraint row) := by
  obtain ⟨enforced, henforced⟩ := checks_isOk hrules hdeclared
  rw [admits, henforced]
  exact congrArg Except.ok (accepts_of_checks hrules henforced rfl row)

theorem mapM_admits {h : TableHandle} (hnodup : h.constraint.columnNames.Nodup)
    (hdeclared : ∀ entry ∈ h.constraint.entries, entry.column ∈ t.references) (row : Row) :
    (((rules.explode h).map Split.ofHandle).mapM fun split => t.admits split.handle row) =
      .ok ((rules.explode h).map fun part => t.passes rules part.constraint row) := by
  rw [List.mapM_map]
  refine mapM_eq_ok fun part hpart => admits_eq hrules (fun entry he _ => ?_) row
  have hcolumn : entry.column ∈ t.references := by
    obtain ⟨-, hnarrows⟩ := FilterRules.narrows_of_mem_explode hnodup hpart
    rcases hnarrows.entries entry he with hold | ⟨old, choice, v, hold, -, rfl⟩
    · exact hdeclared entry hold
    · exact hdeclared old hold
  obtain ⟨column, hmem, hsame⟩ := List.mem_map.mp hcolumn
  exact ⟨column, hmem, by rw [← hsame]; rfl⟩

end TableDefinition
end RemoteTables
