import RemoteTables.Json.Record

/-!
# Literals

A literal is a scalar that a column can be compared with: a truth value, a 64-bit integer, a text,
or an instant in milliseconds since the epoch. Literals of all four kinds stand in one total order,
kinds first and values within a kind, so that a set of literals can be kept as a list in which each
one is smaller than the next. Texts are ordered by code point.

Everything that follows about ranges and domains uses the order only through `Literal.cmp`, and
the laws an order needs are proved here once.
-/

set_option autoImplicit false

namespace RemoteTables

/-- A comparable scalar. -/
inductive Literal where
  | boolean (value : Bool)
  | bigInt (value : Int64)
  | varchar (value : String)
  /-- Milliseconds since the epoch. -/
  | timestamp (millis : Int64)
  deriving DecidableEq, Inhabited

namespace Literal

/-! ## Order -/

/-- The place of a kind among the kinds. -/
def rank : Literal → Nat
  | boolean _ => 0
  | bigInt _ => 1
  | varchar _ => 2
  | timestamp _ => 3

/-- The order of literals: within a kind that of their values, and else that of the kinds. -/
def cmp : Literal → Literal → Ordering
  | boolean a, boolean b => compare a b
  | bigInt a, bigInt b => compare a b
  | varchar a, varchar b => compare a b
  | timestamp a, timestamp b => compare a b
  | a, b => compare a.rank b.rank

instance : Ord Literal := ⟨cmp⟩
instance : LT Literal := ltOfOrd
instance : LE Literal := leOfOrd

instance : Std.LawfulEqOrd Literal where
  compare_self {a} := by
    cases a with
    | boolean v => exact Std.ReflOrd.compare_self (a := v)
    | bigInt v => exact Std.ReflOrd.compare_self (a := v)
    | varchar v => exact Std.ReflOrd.compare_self (a := v)
    | timestamp v => exact Std.ReflOrd.compare_self (a := v)
  eq_of_compare {a b} h := by
    cases a <;> cases b <;>
      first
        | exact congrArg _ (Std.LawfulEqOrd.eq_of_compare h)
        | exact Ordering.noConfusion h

theorem cmp_of_rank_lt {a b : Literal} (h : a.rank < b.rank) : compare a b = .lt := by
  cases a <;> cases b <;> first | rfl | exact absurd h (by simp [rank])

/-- A literal not above another is of a kind not above the other's. -/
theorem rank_le_of_isLE {a b : Literal} (h : (compare a b).isLE) : a.rank ≤ b.rank := by
  cases a <;> cases b <;> first | exact Bool.noConfusion h | simp [rank]

instance : Std.OrientedOrd Literal where
  eq_swap {a b} := by
    cases a <;> cases b <;>
      first
        | rfl
        | exact Std.OrientedOrd.eq_swap (α := Bool)
        | exact Std.OrientedOrd.eq_swap (α := Int64)
        | exact Std.OrientedOrd.eq_swap (α := String)

instance : Std.TransOrd Literal where
  isLE_trans {a b c} h₁ h₂ := by
    have hab := rank_le_of_isLE h₁
    have hbc := rank_le_of_isLE h₂
    by_cases hac : a.rank < c.rank
    · rw [cmp_of_rank_lt hac]; rfl
    · have hab : a.rank = b.rank := by omega
      have hbc : b.rank = c.rank := by omega
      cases a with
      | boolean x =>
        cases b <;> first | (simp [rank] at hab; done) | skip
        cases c <;> first | (simp [rank] at hbc; done) | skip
        exact Std.TransOrd.isLE_trans (α := Bool) h₁ h₂
      | bigInt x =>
        cases b <;> first | (simp [rank] at hab; done) | skip
        cases c <;> first | (simp [rank] at hbc; done) | skip
        exact Std.TransOrd.isLE_trans (α := Int64) h₁ h₂
      | varchar x =>
        cases b <;> first | (simp [rank] at hab; done) | skip
        cases c <;> first | (simp [rank] at hbc; done) | skip
        exact Std.TransOrd.isLE_trans (α := String) h₁ h₂
      | timestamp x =>
        cases b <;> first | (simp [rank] at hab; done) | skip
        cases c <;> first | (simp [rank] at hbc; done) | skip
        exact Std.TransOrd.isLE_trans (α := Int64) h₁ h₂

/-! ## What a literal holds -/

/-- The text of a literal that is one. -/
def asString? : Literal → Option String
  | varchar s => some s
  | _ => none

/-- The number of an integer, or the milliseconds of an instant. -/
def asInt64? : Literal → Option Int64
  | bigInt i | timestamp i => some i
  | _ => none

/-- A literal as it is shown in messages: texts between apostrophes, instants by their number. -/
def display : Literal → String
  | boolean b => if b then "true" else "false"
  | bigInt i => toString i.toInt
  | varchar s => "'" ++ s ++ "'"
  | timestamp t => "timestamp(" ++ toString t.toInt ++ ")"

/-! ## Sets of literals -/

/-- Puts a literal into a strictly increasing list, unless it is there already. -/
def insertInto (v : Literal) : List Literal → List Literal
  | [] => [v]
  | w :: rest =>
    match compare v w with
    | .lt => v :: w :: rest
    | .eq => w :: rest
    | .gt => w :: insertInto v rest

/-- The strictly increasing list of the literals that occur in a list. -/
def sortedSet (values : List Literal) : List Literal := values.foldr insertInto []

/-- Whether literals are in order, each there once. -/
def StrictlyIncreasing (values : List Literal) : Prop := values.Pairwise (· < ·)

instance (values : List Literal) : Decidable (StrictlyIncreasing values) :=
  inferInstanceAs (Decidable (values.Pairwise (· < ·)))

/-- Whether a literal is in a list that is believed to be strictly increasing. The list is halved:
the middle literal decides which half is looked at, and only the last literal left is compared for
equality. On a list that is not in order a literal may stand there unseen. -/
def searchedIn (v : Literal) (values : List Literal) : Bool :=
  match values with
  | [] => false
  | [w] => w == v
  | first :: second :: rest =>
    let all := first :: second :: rest
    let half := all.length / 2
    match all[half]? with
    | some middle =>
      if compare middle v == .gt then searchedIn v (all.take (all.length - half))
      else searchedIn v (all.drop half)
    | none => false
termination_by values.length
decreasing_by
  · simp only [List.length_take, List.length_cons]; omega
  · simp only [List.length_drop, List.length_cons]; omega

/-! ## Wire form -/

/-- The kinds by the names they have on the wire. -/
def kindNames : List (String × Nat) :=
  [("boolean", 0), ("big_int", 1), ("varchar", 2), ("timestamp", 3)]

/-- A literal on the wire: its kind and its value. -/
def toJson : Literal → Json
  | boolean b => .object [("type", .string "boolean"), ("value", .bool b)]
  | bigInt i => .object [("type", .string "big_int"), ("value", .int i.toInt)]
  | varchar s => .object [("type", .string "varchar"), ("value", .string s)]
  | timestamp t => .object [("type", .string "timestamp"), ("value", .int t.toInt)]

/-- Reads the kind first, and then a value of it. -/
def decoder : Decoder Literal :=
  Decoder.tagged "type" "value" (Decoder.names kindNames) fun kind =>
    match kind with
    | 0 => Decoder.bool.map boolean
    | 1 => Decoder.int64.map bigInt
    | 2 => Decoder.string.map varchar
    | _ => Decoder.int64.map timestamp

end Literal
end RemoteTables
