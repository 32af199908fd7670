import RemoteTables.Proofs.Sets.Domains

/-!
# Domains without a literal

A range that is written with ends may have nothing between them: the ends are the wrong way round,
they meet and one of them is left out, or they are neighbours, as above 3 and below 4 are among the
numbers. To see it from the ends one has to know which literal comes next (`Literal.next?`): among
all literals there is a least one, each one but the last of the instants has a next, and nothing
stands in between (`lt_iff_next_le`). A range has the literals from the first that its lower end
admits, so it has one exactly if its upper end admits that first one (`Range.isVacant_iff`).

A domain is emptied in two ways, then. It may be written as nothing, which is what `Domain.isNone`
looks at, or be written with ranges that are all vacant (`Domain.isHollow`); there is no third way
(`Domain.vacant_iff`).
-/

set_option autoImplicit false

namespace RemoteTables

namespace Literal

/-! ## The order within a kind -/

theorem lt_of_rank_lt {v w : Literal} (h : v.rank < w.rank) : v < w :=
  Std.compare_eq_lt.mp (cmp_of_rank_lt h)

theorem bigInt_lt_iff {i j : Int64} : bigInt i < bigInt j ↔ i < j := by
  rw [← Std.compare_eq_lt, ← Std.compare_eq_lt]
  rfl

theorem timestamp_lt_iff {i j : Int64} : timestamp i < timestamp j ↔ i < j := by
  rw [← Std.compare_eq_lt, ← Std.compare_eq_lt]
  rfl

theorem varchar_lt_iff {s t : String} : varchar s < varchar t ↔ s.toList < t.toList := by
  rw [← Std.compare_eq_lt]
  exact compareOfLessAndEq_eq_lt

/-! ### Numbers -/

theorem toInt_add_one {i : Int64} (h : i ≠ Int64.maxValue) : (i + 1).toInt = i.toInt + 1 := by
  have hne : i.toInt ≠ Int64.maxValue.toInt := fun heq => h (Int64.toInt_inj.mp heq)
  have hle := i.toInt_le
  have hge := i.minValue_le_toInt
  rw [Int64.toInt_maxValue] at hne hle
  rw [Int64.toInt_minValue] at hge
  rw [Int64.toInt_add]
  apply Int.bmod_eq_of_le <;> simp <;> omega

/-- Nothing stands between a number and the one after it, unless it is the greatest. -/
theorem int64_lt_iff {i j : Int64} (h : i ≠ Int64.maxValue) : i < j ↔ ¬j < i + 1 := by
  rw [Int64.lt_iff_toInt_lt, Int64.lt_iff_toInt_lt, toInt_add_one h]
  omega

theorem not_maxValue_lt (j : Int64) : ¬Int64.maxValue < j := by
  rw [Int64.lt_iff_toInt_lt]
  have hle := j.toInt_le
  omega

theorem not_lt_minValue (j : Int64) : ¬j < Int64.minValue := by
  rw [Int64.lt_iff_toInt_lt]
  have hge := j.minValue_le_toInt
  omega

/-! ### Texts -/

theorem not_lt_nul (c : Char) : ¬c < '\x00' := by
  rw [Char.lt_def]
  exact Nat.not_lt_zero _

/-- Nothing stands between a text and the same text with the least character after it. -/
theorem list_lt_iff {l m : List Char} : l < m ↔ ¬m < l ++ ['\x00'] := by
  induction l generalizing m with
  | nil =>
    cases m with
    | nil => simp
    | cons b m => simp [List.cons_lt_cons_iff, not_lt_nul]
  | cons a l ih =>
    cases m with
    | nil => simp
    | cons b m =>
      rw [List.cons_append, List.cons_lt_cons_iff, List.cons_lt_cons_iff, ih]
      have hasymm : a < b → ¬b < a := Char.lt_asymm
      have hsame : ¬a < b → ¬b < a → a = b := fun hab hba =>
        Char.le_antisymm (Char.not_lt.mp hba) (Char.not_lt.mp hab)
      have hirrefl : ¬a < a := Char.lt_irrefl a
      grind

/-! ## The next literal -/

/-- The least of all literals. -/
def least : Literal := .boolean false

/-- The literal after a literal. After the last of a kind comes the first of the next kind; texts
have no last, so no text is followed by an instant. -/
def next? : Literal → Option Literal
  | boolean false => some (boolean true)
  | boolean true => some (bigInt Int64.minValue)
  | bigInt i => some (if i = Int64.maxValue then varchar "" else bigInt (i + 1))
  | varchar s => some (varchar (s.push '\x00'))
  | timestamp t => if t = Int64.maxValue then none else some (timestamp (t + 1))

theorem least_le (v : Literal) : least ≤ v := by
  rw [← Std.not_lt]
  intro hlt
  rw [← Std.compare_eq_lt] at hlt
  cases v with
  | boolean b => cases b <;> exact absurd hlt (by decide)
  | _ => cases hlt

theorem lt_of_next? {v n : Literal} (h : v.next? = some n) : v < n := by
  cases v with
  | boolean b =>
    cases b <;> obtain rfl := Option.some.inj h
    · decide
    · exact lt_of_rank_lt Nat.zero_lt_one
  | bigInt i =>
    obtain rfl := Option.some.inj h
    split
    · exact lt_of_rank_lt (Nat.lt_succ_self 1)
    · rename_i hlast
      exact bigInt_lt_iff.mpr ((int64_lt_iff hlast).mpr Int64.lt_irrefl)
  | varchar s =>
    obtain rfl := Option.some.inj h
    rw [varchar_lt_iff, String.toList_push]
    exact list_lt_iff.mpr (List.lt_irrefl _)
  | timestamp t =>
    rw [next?] at h
    split at h
    · cases h
    · rename_i hlast
      obtain rfl := Option.some.inj h
      exact timestamp_lt_iff.mpr ((int64_lt_iff hlast).mpr Int64.lt_irrefl)

/-- The next of a literal is of its own kind, or the first of the kind after it. -/
theorem exists_next_le_of_rank_lt {v w : Literal} (h : v.rank < w.rank) :
    ∃ n, v.next? = some n ∧ n ≤ w := by
  cases v with
  | boolean b =>
    cases b with
    | false => exact ⟨_, rfl, Std.le_of_lt (lt_of_rank_lt h)⟩
    | true =>
      refine ⟨_, rfl, ?_⟩
      cases w with
      | boolean => cases h
      | bigInt j =>
        rw [← Std.not_lt, bigInt_lt_iff]
        exact not_lt_minValue j
      | _ => exact Std.le_of_lt (lt_of_rank_lt (by simp [rank]))
  | bigInt i =>
    refine ⟨_, rfl, ?_⟩
    split
    · cases w with
      | varchar s => 
        rw [← Std.not_lt, varchar_lt_iff]
        exact List.not_lt_nil _
      | timestamp t => exact Std.le_of_lt (lt_of_rank_lt (by simp [rank]))
      | _ => simp [rank] at h
    · exact Std.le_of_lt (lt_of_rank_lt h)
  | varchar s => exact ⟨_, rfl, Std.le_of_lt (lt_of_rank_lt h)⟩
  | timestamp t => cases w <;> simp [rank] at h

theorem exists_next_le_of_lt {v w : Literal} (h : v < w) : ∃ n, v.next? = some n ∧ n ≤ w := by
  by_cases hrank : v.rank < w.rank
  · exact exists_next_le_of_rank_lt hrank
  -- otherwise both are of one kind, and the next is found within the kind
  have hle : v.rank ≤ w.rank := rank_le_of_isLE (by rw [Std.compare_eq_lt.mpr h]; rfl)
  have hsame : v.rank = w.rank := by omega
  cases v with
  | boolean b =>
    cases w with
    | boolean c =>
      cases b <;> cases c <;> first | exact absurd h (by decide) | exact ⟨_, rfl, by decide⟩
    | _ => cases hsame
  | bigInt i => 
    cases w with
    | bigInt j =>
      have hij := bigInt_lt_iff.mp h
      have hlast : i ≠ Int64.maxValue := fun heq => not_maxValue_lt j (heq ▸ hij)
      refine ⟨bigInt (i + 1), congrArg some (if_neg hlast), ?_⟩
      rw [← Std.not_lt, bigInt_lt_iff]
      exact (int64_lt_iff hlast).mp hij
    | _ => cases hsame
  | varchar s => 
    cases w with
    | varchar t =>
      refine ⟨_, rfl, ?_⟩
      rw [← Std.not_lt, varchar_lt_iff, String.toList_push]
      exact list_lt_iff.mp (varchar_lt_iff.mp h)
    | _ => cases hsame
  | timestamp t =>
    cases w with
    | timestamp u =>
      have htu := timestamp_lt_iff.mp h
      have hlast : t ≠ Int64.maxValue := fun heq => not_maxValue_lt u (heq ▸ htu)
      refine ⟨timestamp (t + 1), if_neg hlast, ?_⟩
      rw [← Std.not_lt, timestamp_lt_iff]
      exact (int64_lt_iff hlast).mp htu
    | _ => cases hsame

/-- **Nothing stands between a literal and the next**, and behind the last there is nothing. -/
theorem lt_iff_next_le {v w : Literal} : v < w ↔ ∃ n, v.next? = some n ∧ n ≤ w := by
  refine ⟨exists_next_le_of_lt, ?_⟩
  rintro ⟨n, hnext, hn⟩
  exact Std.lt_of_lt_of_le (lt_of_next? hnext) hn

end Literal

/-! ## Ranges -/

/-- The first literal that a lower end admits. -/
def Bound.first? : Bound → Option Literal
  | unbounded => some .least
  | inclusive l => some l
  | exclusive l => l.next?

/-- A lower end admits what is not below the first literal that it admits. -/
theorem Bound.admitsAbove_iff {low : Bound} {v : Literal} :
    low.admitsAbove v = true ↔ ∃ first, low.first? = some first ∧ first ≤ v := by
  cases low with
  | unbounded => simp [admitsAbove, first?, Literal.least_le]
  | inclusive l => simp [admitsAbove, first?]
  | exclusive l => simp [admitsAbove, first?, Literal.lt_iff_next_le]

/-- An upper end admits all that is below what it admits. -/
theorem Bound.admitsBelow_of_le {high : Bound} {v w : Literal} (hle : v ≤ w)
    (hw : high.admitsBelow w = true) : high.admitsBelow v = true := by
  cases high with
  | unbounded => rfl
  | inclusive h => exact decide_eq_true (Std.le_trans hle (of_decide_eq_true hw))
  | exclusive h => exact decide_eq_true (Std.lt_of_le_of_lt hle (of_decide_eq_true hw))

namespace Range

/-- Whether the ends leave no literal between them, however they are written. -/
def isVacant (r : Range) : Bool := !r.low.first?.any r.high.admitsBelow

/-- **A range has a literal exactly if its upper end admits the first one that its lower end
admits.** -/
theorem isVacant_iff {r : Range} : r.isVacant = true ↔ ∀ v, r.includes v = false := by
  rw [isVacant, Bool.not_eq_true', Option.any_eq_false]
  constructor
  · intro hvacant v
    rw [← Bool.not_eq_true, includes_iff]
    rintro ⟨habove, hbelow⟩
    obtain ⟨first, hfirst, hle⟩ := Bound.admitsAbove_iff.mp habove
    exact absurd (Bound.admitsBelow_of_le hle hbelow) (by simp [hvacant first hfirst])
  · intro hnothing first hfirst
    have habove : r.low.admitsAbove first = true :=
      Bound.admitsAbove_iff.mpr ⟨first, hfirst, Std.le_refl first⟩
    rw [← hnothing first, includes, habove, Bool.true_and]

end Range

/-! ## Domains -/

namespace Domain

/-- Whether a domain is written with ranges none of which has a literal. -/
def isHollow : Domain → Bool
  | ranges rs => !rs.isEmpty && rs.all Range.isVacant
  | _ => false

/-- **A domain has no literal exactly if it is written as nothing or is hollow.** -/
theorem vacant_iff {d : Domain} (hd : d.WellFormed) :
    (∀ v, d.includes v = false) ↔ d.isNone = true ∨ d.isHollow = true := by
  cases d with
  | all => simp [includes, isNone, isHollow]
  | values vs =>
    simp only [isNone, isHollow, List.isEmpty_iff, Bool.false_eq_true, or_false,
      ← Bool.not_eq_true, includes_values hd]
    exact List.eq_nil_iff_forall_not_mem.symm
  | ranges rs =>
    have hall : (∀ v, (ranges rs).includes v = false) ↔ rs.all Range.isVacant = true := by
      simp only [← Bool.not_eq_true, includes_ranges, not_exists, not_and, List.all_eq_true,
        Range.isVacant_iff]
      exact ⟨fun h r hr v => h v r hr, fun h v r hr => h r hr v⟩
    rw [hall, isNone, isHollow]
    cases rs <;> simp

/-- Between neighbours there is nothing, though the ends do not show it. -/
example : (Range.mk (.exclusive (.bigInt 3)) (.exclusive (.bigInt 4))).isEmpty = false ∧
    (Domain.ranges [⟨.exclusive (.bigInt 3), .exclusive (.bigInt 4)⟩]).isHollow = true := by
  decide

theorem isHollow_of_isNone {d : Domain} (h : d.isNone = true) : d.isHollow = false := by
  cases d with
  | all => rfl
  | values vs => rfl
  | ranges rs =>
    obtain rfl := List.isEmpty_iff.mp h
    rfl

/-- A domain that is written as points is not hollow. -/
theorem isHollow_of_points {d : Domain} (h : d.discreteValues?.isSome = true) :
    d.isHollow = false := by
  cases d with
  | all => rfl
  | values vs => rfl
  | ranges rs =>
    cases rs with
    | nil => rfl
    | cons r rest =>
      obtain ⟨v, rfl⟩ := discreteValues?_isSome_ranges.mp h r List.mem_cons_self
      have hvacant : (Range.single v).isVacant = false := by
        rw [← Bool.not_eq_true, Range.isVacant_iff]
        intro hnothing
        exact Bool.false_ne_true ((hnothing v).symm.trans ((Range.includes_single v v).mpr rfl))
      rw [isHollow, List.all_cons, hvacant, Bool.false_and, Bool.and_false]

end Domain
end RemoteTables
