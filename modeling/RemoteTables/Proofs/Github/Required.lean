import RemoteTables.Proofs.Github.Limit
import RemoteTables.Proofs.Github.Windows

/-!
# The columns that a table cannot be read without

A table is listed under an owner and mostly under a repository, and two tables under a pull request as
well. Each of these columns has to be bound to one value of its kind (`isBound`), and they are looked
at in this order; what comes of it is the first that is missing or the shape of the reading
(`needs_readingOf`).

Every table asks for its columns in its own way. So it is put together from the parts: a value that
needs some columns, and after it another that needs some more, together need both lists
(`Needs.needing`).

The other thing that could stand in the way of reading is a check that cannot be made, and for these
tables there is none: what is left is the reading itself (`exists_read_eq`).
-/

set_option autoImplicit false

namespace RemoteTables
namespace Github

/-- The columns that a table needs, in the order in which they are looked at. -/
def required (table : String) : List String :=
  match table with
  | "repos" => ["owner"]
  | "pull_commits" | "reviews" => ["owner", "repo", "pull_number"]
  | _ => ["owner", "repo"]

/-- Whether a column is bound to one value, which is a number for a pull request and else a text. -/
def isBound (c : Constraint) (column : String) : Bool :=
  match (c.domain? column).bind Domain.singleValue? with
  | some v => if column = "pull_number" then v.asInt64?.isSome else v.asString?.isSome
  | none => false

/-- The first of the columns that a table needs which is not bound. -/
def missing? (table : String) (c : Constraint) : Option String :=
  (required table).find? fun column => !isBound c column

/-! ## Values and the columns that they need -/

universe u v

/-- Whether a value is there if the columns are bound, and else the first that is not is missed. -/
def Needs {σ : Type u} (c : Constraint) (columns : List String) (value : Except Failure σ) : Prop :=
  match columns.find? fun column => !isBound c column with
  | some column => value = .error (.missingConstraint column)
  | none => ∃ found, value = .ok found

section Needs

variable {c : Constraint} {rules : FilterRules}

theorem Needs.eq_error {σ : Type u} {columns : List String} {value : Except Failure σ}
    (h : Needs c columns value) {column : String}
    (hmissing : (columns.find? fun column => !isBound c column) = some column) :
    value = .error (.missingConstraint column) := by
  unfold Needs at h
  rw [hmissing] at h
  exact h

theorem Needs.exists_eq_ok {σ : Type u} {columns : List String} {value : Except Failure σ}
    (h : Needs c columns value)
    (hmissing : (columns.find? fun column => !isBound c column) = none) :
    ∃ found, value = .ok found := by
  unfold Needs at h
  rw [hmissing] at h
  exact h

theorem needs_ok {σ : Type u} (found : σ) : Needs c [] (.ok found) := ⟨found, rfl⟩

/-- What fails with a value, and with it needs some more columns, needs those of the value first. -/
theorem Needs.append {σ : Type u} {τ : Type v} {first later : List String}
    {value : Except Failure σ} (h : Needs c first value) {result : Except Failure τ}
    (herror : ∀ failure, value = .error failure → result = .error failure)
    (hok : ∀ found, value = .ok found → Needs c later result) : Needs c (first ++ later) result := by
  unfold Needs at hok ⊢
  rw [List.find?_append]
  cases hfirst : first.find? fun column => !isBound c column with
  | some column => exact herror _ (h.eq_error hfirst)
  | none =>
    obtain ⟨found, hfound⟩ := h.exists_eq_ok hfirst
    exact hok found hfound

theorem Needs.bind {σ τ : Type} {first later : List String} {value : Except Failure σ}
    (h : Needs c first value) {read : σ → Except Failure τ}
    (hread : ∀ found, Needs c later (read found)) : Needs c (first ++ later) (value >>= read) := by
  apply h.append
  · rintro failure rfl
    rfl
  · rintro found rfl
    exact hread found

theorem Needs.needing {σ : Type} {first later : List String} {value : Except Failure σ}
    (h : Needs c first value) {read : σ → Except Failure Reading}
    (hread : ∀ found, Needs c later (read found)) :
    Needs c (first ++ later) (Github.needing value read) := by
  apply h.append
  · rintro failure rfl
    rfl
  · rintro found rfl
    exact hread found

/-- A value that is read from a column needs that column. -/
theorem needs_requireBound {σ : Type} {column : String} {value : Option σ}
    (h : value.isSome = isBound c column) :
    Needs c [column] (FilterRules.requireBound column value) := by
  unfold Needs
  cases value with
  | none =>
    rw [List.find?_cons_of_pos (by rw [← h]; rfl)]
    rfl
  | some found =>
    rw [List.find?_cons_of_neg (by rw [← h]; simp)]
    exact ⟨found, rfl⟩

theorem needs_requireString {column : String} (hkind : rules.kindOf column ≠ .unsupported)
    (hcolumn : column ≠ "pull_number") : Needs c [column] (rules.requireString c column) := by
  apply needs_requireBound
  rw [FilterRules.boundString?, FilterRules.boundValue?, if_neg hkind, isBound]
  cases (c.domain? column).bind Domain.singleValue? with
  | none => rfl
  | some v => exact (if_neg hcolumn).symm

theorem needs_requireInt (hkind : rules.kindOf "pull_number" ≠ .unsupported) :
    Needs c ["pull_number"] (rules.requireInt c "pull_number") := by
  apply needs_requireBound
  rw [FilterRules.boundInt?, FilterRules.boundValue?, if_neg hkind, isBound]
  cases (c.domain? "pull_number").bind Domain.singleValue? with
  | none => rfl
  | some v => rfl

theorem needs_ofConstraint (howner : rules.kindOf "owner" ≠ .unsupported)
    (hrepo : rules.kindOf "repo" ≠ .unsupported) :
    Needs c ["owner", "repo"] (RepoScope.ofConstraint rules c) := by
  apply (needs_requireString howner (by decide)).bind
  intro owner
  apply (needs_requireString hrepo (by decide)).bind
  intro repo
  exact needs_ok (RepoScope.mk owner repo)

end Needs

/-- **A table misses the first of its columns that is not bound**, and else is read in its shape. -/
theorem needs_readingOf {t : TableDefinition Request Reply} (ht : t ∈ tables) (c : Constraint)
    (sort : Option RemoteSort) : Needs c (required t.name) (readingOf t.name c sort) := by
  simp only [tables, List.mem_cons, List.not_mem_nil, or_false] at ht
  rcases ht with rfl | rfl | rfl | rfl | rfl | rfl | rfl | rfl | rfl | rfl | rfl
  · exact (needs_requireString (by decide) (by decide)).needing fun owner => needs_ok _
  iterate 3
    exact (needs_ofConstraint (by decide) (by decide)).needing fun scope => needs_ok _
  iterate 2
    refine (needs_ofConstraint (by decide) (by decide)).needing fun scope => ?_
    exact (needs_requireInt (by decide)).needing fun number => needs_ok _
  iterate 5
    exact (needs_ofConstraint (by decide) (by decide)).needing fun scope => needs_ok _

/-! ## Reading a table -/

section Read

variable {t : TableDefinition Request Reply} (ht : t ∈ tables)
include ht

/-- The connector finds each of the eleven tables under its name. -/
theorem rows_eq_read (settings : Settings) {split : Split}
    (htable : split.handle.table = ⟨schemaName, t.name⟩) :
    (connector settings).rows split = t.read split.handle := by
  have hfound : (connector settings).tableFor ⟨schemaName, t.name⟩ = .ok t := by
    simp only [tables, List.mem_cons, List.not_mem_nil, or_false] at ht
    rcases ht with rfl | rfl | rfl | rfl | rfl | rfl | rfl | rfl | rfl | rfl | rfl <;> rfl
  rw [Connector.rows, htable, hfound]
  rfl

/-- **Where a table has something to read, reading is all that there is to it.** -/
theorem exists_read_eq {h : TableHandle} (hlimit : h.limit ≠ 0) (hnone : h.constraint.isNone = false) :
    ∃ request : FetchRequest, t.read h =
      exchangeOf request (readingOf t.name h.constraint (t.sortOf h)) := by
  obtain ⟨enforced, henforced⟩ := checks_of_mem_tables ht h.constraint
  refine ⟨⟨h, t.sortOf h, enforced⟩, ?_⟩
  rw [read_eq hlimit hnone, henforced]
  show (do
    let rows ← t.fetch ⟨h, t.sortOf h, enforced⟩
    return rows.filter _ : Exchange (List Row)) = _
  rw [filter_fetch ⟨h, t.sortOf h, enforced⟩ ht hlimit, fetch_eq ht]
  rfl

end Read

end Github
end RemoteTables
