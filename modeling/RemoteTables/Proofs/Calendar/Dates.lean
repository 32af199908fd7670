import Mathlib.Algebra.GroupWithZero.Nat
import RemoteTables.Calendar.Date

/-!
# Days and their dates

A day has exactly one date, and the date leads back to the day (`Date.toDays_ofDays`). The year is
found by a guess, so what is shown first is that the guess is close: the days before a year stay
within two days of its mean share, and one year is longer than that (`yearOfDay_spec`). The month
then is a walk over the lengths of the months, which together are the length of the year.
-/

set_option autoImplicit false

namespace RemoteTables
namespace Calendar

/-! ## Years -/

theorem isLeap_iff (year : Int) :
    isLeap year = true ↔ year % 4 = 0 ∧ (year % 100 ≠ 0 ∨ year % 400 = 0) := by
  simp [isLeap]

/-- The days of a year. -/
def yearLength (year : Int) : Nat := if isLeap year then 366 else 365

theorem daysBeforeYear_add_one (year : Int) :
    daysBeforeYear (year + 1) = daysBeforeYear year + yearLength year := by
  simp only [daysBeforeYear, yearLength]
  split
  · rename_i hleap
    rw [isLeap_iff] at hleap
    omega
  · rename_i hcommon
    rw [isLeap_iff] at hcommon
    omega

/-- The first guess of the year is at most one year off. -/
theorem guess_close (days : Int) :
    daysBeforeYear (400 * days / 146097 - 1) ≤ days ∧
      days < daysBeforeYear (400 * days / 146097 + 2) := by
  simp only [daysBeforeYear]
  omega

/-- **The year of a day** has begun at that day, and the next one has not. -/
theorem yearOfDay_spec (days : Int) :
    daysBeforeYear (yearOfDay days) ≤ days ∧ days < daysBeforeYear (yearOfDay days + 1) := by
  obtain ⟨hlow, hhigh⟩ := guess_close days
  simp only [yearOfDay]
  split
  · rename_i hbefore
    rw [Int.sub_add_cancel]
    exact ⟨hlow, hbefore⟩
  · rename_i hbegun
    split
    · rename_i hnext
      rw [Int.add_assoc]
      exact ⟨hnext, hhigh⟩
    · rename_i hsame
      exact ⟨Int.not_lt.mp hbegun, Int.not_le.mp hsame⟩

/-! ## Months -/

theorem sum_monthLengths (year : Int) : (monthLengths year).sum = yearLength year := by
  simp only [monthLengths, yearLength]
  split <;> rfl

theorem length_le_of_mem_monthLengths {year : Int} {length : Nat}
    (h : length ∈ monthLengths year) : length ≤ 31 := by
  simp only [monthLengths, List.mem_cons, List.not_mem_nil, or_false] at h
  split at h <;> omega

/-- A day within the months is passed by some whole months and lies in the next one. -/
theorem exists_monthOfDay {lengths : List Nat} {day : Nat} (h : day < lengths.sum) (month : Nat) :
    ∃ passed length rest, lengths[passed]? = some length ∧ rest < length ∧
      (lengths.take passed).sum + rest = day ∧
      monthOfDay month lengths day = (month + passed, rest + 1) := by
  induction lengths generalizing month day with
  | nil => exact absurd h (Nat.not_lt_zero day)
  | cons first others ih =>
    rw [monthOfDay]
    split
    · rename_i hfirst
      exact ⟨0, first, day, rfl, hfirst, Nat.zero_add day, rfl⟩
    · rename_i hpassed
      rw [List.sum_cons] at h
      have hleft : day - first < others.sum := by omega
      obtain ⟨passed, length, rest, hlength, hrest, hsum, hmonth⟩ := ih hleft (month + 1)
      refine ⟨passed + 1, length, rest, hlength, hrest, ?_, ?_⟩
      · rw [List.take_succ_cons, List.sum_cons]
        omega
      · rw [hmonth, Nat.add_assoc, Nat.add_comm 1]

/-! ## Dates -/

namespace Date

theorem bounds_of_isValid {d : Date} (h : d.isValid = true) :
    (1 ≤ d.month ∧ d.month ≤ 12) ∧ 1 ≤ d.day ∧ d.day ≤ 31 := by
  simp only [isValid, Bool.and_eq_true, decide_eq_true_eq] at h
  obtain ⟨⟨hmonth, hday⟩, hlength⟩ := h
  split at hlength
  · rename_i length hfound
    have hplace : d.month - 1 < 12 := (List.getElem?_eq_some_iff.mp hfound).1
    have hlong := length_le_of_mem_monthLengths (List.mem_of_getElem? hfound)
    have hshort : d.day ≤ length := of_decide_eq_true hlength
    omega
  · cases hlength

/-- **Every day has a date** of the calendar, and the date is that of the day. -/
theorem toDays_ofDays (days : Int) : (ofDays days).isValid = true ∧ (ofDays days).toDays = days := by
  obtain ⟨hbegun, hends⟩ := yearOfDay_spec days
  rw [daysBeforeYear_add_one, ← sum_monthLengths] at hends
  have hwithin : (days - daysBeforeYear (yearOfDay days)).toNat <
      (monthLengths (yearOfDay days)).sum := by omega
  obtain ⟨passed, length, rest, hlength, hrest, hsum, hmonth⟩ := exists_monthOfDay hwithin 1
  have hdate : ofDays days = ⟨yearOfDay days, 1 + passed, rest + 1⟩ := by
    rw [ofDays]
    simp only [hmonth]
  rw [hdate]
  constructor
  · simp only [isValid, Nat.add_sub_cancel_left, hlength, Bool.and_eq_true, decide_eq_true_eq]
    omega
  · have hpassed : ((monthLengths (yearOfDay days)).take (1 + passed - 1)).foldr Nat.add 0 +
        (rest + 1 - 1) = (days - daysBeforeYear (yearOfDay days)).toNat := by
      rw [Nat.add_sub_cancel_left]
      exact hsum
    show daysBeforeYear (yearOfDay days) + ((_ : Nat) : Int) = days
    rw [hpassed]
    omega

end Date
end Calendar
end RemoteTables
