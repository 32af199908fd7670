import RemoteTables.Proofs.Calendar.Dates
import RemoteTables.Calendar.Instant
import RemoteTables.Text.Integer

/-!
# Instants are read back

What is written of an instant is its whole second, and the reader of instants comes to that second
again (`readInstant?_of_renderInstant?`). The writer pads numbers with zeros and the reader takes a
number of digits of its own choice, so the two are fitted together number by number: a part of fixed
width is taken whole whatever stands behind it, and only the year, which may be longer than its
width, is ended by what comes next.
-/

set_option autoImplicit false

namespace RemoteTables
namespace Calendar

/-! ## Numbers -/

theorem isBlank_of_isDigit {c : Char} (h : c.isDigit = true) : isBlank c = false := by
  have hrange := Char.isDigit_iff_toNat.mp h
  simp only [show '0'.toNat = 48 from rfl, show '9'.toNat = 57 from rfl] at hrange
  simp [isBlank, blankRanges]
  omega

theorem trimStart_cons {c : Char} (h : isBlank c = false) (rest : List Char) :
    Text.trimStart (c :: rest) = c :: rest :=
  Text.trimStart_eq_self fun _ hd => Option.some.inj hd ▸ h

/-- The digits of a padded number. -/
def paddedDigits (width n : Nat) : List Char := (padded width n).toList

theorem paddedDigits_eq (width n : Nat) :
    paddedDigits width n =
      List.replicate (width - (Nat.toDigits 10 n).length) '0' ++ Nat.toDigits 10 n := by
  simp [paddedDigits, padded]

theorem isDigit_of_mem_paddedDigits {width n : Nat} :
    ∀ c ∈ paddedDigits width n, c.isDigit = true := by
  intro c hc
  rw [paddedDigits_eq, List.mem_append] at hc
  rcases hc with hc | hc
  · rw [(List.mem_replicate.mp hc).2]
    decide
  · exact Nat.isDigit_of_mem_toDigits (by decide) (by decide) hc

theorem digitsValue_paddedDigits (width n : Nat) : digitsValue (paddedDigits width n) = n := by
  refine (Text.digitsValue_eq _).trans ?_
  rw [paddedDigits_eq, Nat.ofDigitChars_append, Nat.ofDigitChars_replicate_zero, Nat.mul_zero,
    Nat.ofDigitChars_ten_toDigits]

theorem length_paddedDigits {width n : Nat} (hwidth : 0 < width) (h : n < 10 ^ width) :
    (paddedDigits width n).length = width := by
  have hshort := (Nat.length_toDigits_le_iff (by decide) hwidth).mpr h
  rw [paddedDigits_eq, List.length_append, List.length_replicate]
  omega

/-- A padded number starts with a digit. -/
theorem exists_cons_paddedDigits (width n : Nat) :
    ∃ c rest, paddedDigits width n = c :: rest ∧ c.isDigit = true := by
  cases hdigits : paddedDigits width n with
  | nil =>
    rw [paddedDigits_eq, List.append_eq_nil_iff] at hdigits
    exact absurd hdigits.2 Nat.toDigits_ne_nil
  | cons c rest =>
    exact ⟨c, rest, rfl, isDigit_of_mem_paddedDigits c (hdigits ▸ List.mem_cons_self)⟩

theorem trimStart_paddedDigits (width n : Nat) (rest : List Char) :
    Text.trimStart (paddedDigits width n ++ rest) = paddedDigits width n ++ rest := by
  obtain ⟨c, others, hdigits, hc⟩ := exists_cons_paddedDigits width n
  rw [hdigits]
  exact trimStart_cons (isBlank_of_isDigit hc) _

/-- A number is read to the end of its digits, if there are as many as may be taken or no digit
follows. -/
theorem readNumber_paddedDigits {width n taken : Nat} {rest : List Char}
    (htaken : (paddedDigits width n).length ≤ taken)
    (hends : (paddedDigits width n).length = taken ∨ ∀ c ∈ rest.head?, c.isDigit = false) :
    readNumber taken (paddedDigits width n ++ rest) = some (n, rest) := by
  have hstops : (rest.take (taken - (paddedDigits width n).length)).takeWhile Char.isDigit = [] := by
    rcases hends with hfull | hnext
    · rw [hfull, Nat.sub_self]
      rfl
    · cases rest with
      | nil => simp
      | cons c others =>
        have hc := hnext c rfl
        cases taken - (paddedDigits width n).length <;> simp [hc]
  have hdigits : ((paddedDigits width n ++ rest).take taken).takeWhile Char.isDigit =
      paddedDigits width n := by
    rw [List.take_append, List.take_of_length_le htaken,
      List.takeWhile_append_of_pos isDigit_of_mem_paddedDigits, hstops, List.append_nil]
  obtain ⟨c, others, hcons, -⟩ := exists_cons_paddedDigits width n
  rw [readNumber]
  simp only [hdigits, List.drop_left, digitsValue_paddedDigits]
  simp [hcons]

/-- A part of two digits is read whole, whatever stands behind it. -/
theorem readPart_paddedDigits {low high n : Nat} (hlow : low ≤ n) (hhigh : n ≤ high)
    (hshort : n < 100) (rest : List Char) :
    readPart low high (paddedDigits 2 n ++ rest) = some (n, rest) := by
  have hlength : (paddedDigits 2 n).length = 2 := length_paddedDigits (by decide) hshort
  rw [readPart, trimStart_paddedDigits,
    readNumber_paddedDigits (Nat.le_of_eq hlength) (Or.inl hlength)]
  simp [hlow, hhigh]

theorem readMark_cons {mark : Char} (hmark : isBlank mark = false) (rest : List Char) :
    readMark mark (mark :: rest) = some rest := by
  rw [readMark, trimStart_cons hmark]
  exact if_pos rfl

/-! ## Dates and times -/

/-- The digits of a year without a sign are taken as they stand. -/
theorem readYear_of_isDigit {c : Char} (hc : c.isDigit = true) (rest : List Char) :
    readYear (c :: rest) =
      (readNumber 4 (c :: rest)).map fun (n, rest) => ((n : Int), rest) := by
  unfold readYear
  split
  · rename_i hminus
    obtain ⟨rfl, -⟩ := List.cons.inj hminus
    exact absurd hc (by decide)
  · rename_i hplus
    obtain ⟨rfl, -⟩ := List.cons.inj hplus
    exact absurd hc (by decide)
  · rfl

/-- A written year is read back up to the mark behind it. -/
theorem readYear_renderYear (year : Int) (rest : List Char) :
    readYear (Text.trimStart ((renderYear year).toList ++ '-' :: rest)) =
      some (year, '-' :: rest) := by
  have hnext : ∀ c ∈ ('-' :: rest).head?, c.isDigit = false := fun c hc =>
    Option.some.inj hc ▸ (by decide)
  -- behind a sign the number may have any length
  have hsigned : readNumber (paddedDigits 4 year.natAbs ++ '-' :: rest).length
      (paddedDigits 4 year.natAbs ++ '-' :: rest) = some (year.natAbs, '-' :: rest) :=
    readNumber_paddedDigits (by simp) (Or.inr hnext)
  rw [renderYear]
  split
  · rename_i hfour
    have hlength : (paddedDigits 4 year.toNat).length = 4 :=
      length_paddedDigits (by decide) (by omega)
    have hnumber : readNumber 4 (paddedDigits 4 year.toNat ++ '-' :: rest) =
        some (year.toNat, '-' :: rest) :=
      readNumber_paddedDigits (Nat.le_of_eq hlength) (Or.inl hlength)
    obtain ⟨c, others, hcons, hdigit⟩ := exists_cons_paddedDigits 4 year.toNat
    rw [← paddedDigits, trimStart_paddedDigits, hcons, List.cons_append,
      readYear_of_isDigit hdigit, ← List.cons_append, ← hcons, hnumber]
    show some ((year.toNat : Int), _) = some (year, _)
    rw [Int.toNat_of_nonneg hfour.1]
  · split
    · rename_i hnegative
      have htext : Text.trimStart (("-" ++ padded 4 year.natAbs).toList ++ '-' :: rest) =
          '-' :: (paddedDigits 4 year.natAbs ++ '-' :: rest) := by
        rw [String.toList_append]
        exact trimStart_cons (by decide) _
      have hvalue : -(year.natAbs : Int) = year := by omega
      rw [htext, readYear, hsigned]
      show some (-(year.natAbs : Int), _) = some (year, _)
      rw [hvalue]
    · rename_i hpositive
      have htext : Text.trimStart (("+" ++ padded 4 year.natAbs).toList ++ '-' :: rest) =
          '+' :: (paddedDigits 4 year.natAbs ++ '-' :: rest) := by
        rw [String.toList_append]
        exact trimStart_cons (by decide) _
      have hvalue : (year.natAbs : Int) = year := by omega
      rw [htext, readYear, hsigned]
      show some ((year.natAbs : Int), _) = some (year, _)
      rw [hvalue]

/-- The characters of a date. -/
def writtenDate (d : Date) : List Char :=
  (renderYear d.year).toList ++ '-' :: (paddedDigits 2 d.month ++ '-' :: paddedDigits 2 d.day)

/-- The characters of a time of day, given in seconds, and of the mark for UTC. -/
def writtenTime (time : Nat) : List Char :=
  paddedDigits 2 (time / 3600) ++ ':' :: (paddedDigits 2 (time / 60 % 60) ++ ':' ::
    (paddedDigits 2 (time % 60) ++ ['Z']))

/-- A date of the calendar is read back, whatever stands behind it. -/
theorem readDate_writtenDate {d : Date} (hd : d.isValid = true) (rest : List Char) :
    readDate (writtenDate d ++ rest) = some (d, rest) := by
  obtain ⟨⟨hmonth, hmonth'⟩, hday, hday'⟩ := Date.bounds_of_isValid hd
  have htext : writtenDate d ++ rest = (renderYear d.year).toList ++ '-' ::
      (paddedDigits 2 d.month ++ '-' :: (paddedDigits 2 d.day ++ rest)) := by
    simp [writtenDate]
  rw [htext, readDate]
  simp only [readYear_renderYear, Option.bind_eq_bind, Option.bind_some,
    readMark_cons (by decide : isBlank '-' = false),
    readPart_paddedDigits hmonth hmonth' (by omega), readPart_paddedDigits hday hday' (by omega)]
  exact if_pos hd

/-- A time of day is read back, with nothing on top of its seconds. -/
theorem readTime_writtenTime {time : Nat} (htime : time < 86400) :
    readTime (writtenTime time) = some ((time, 0), ['Z']) := by
  have hminute : time / 60 % 60 < 60 := Nat.mod_lt _ (by decide)
  have hsecond : time % 60 < 60 := Nat.mod_lt _ (by decide)
  have hfraction : readFraction ['Z'] = some (0, ['Z']) := rfl
  have hleap : time % 60 ≠ 60 := by omega
  have htotal : time / 3600 * 3600 + time / 60 % 60 * 60 + time % 60 = time := by omega
  rw [writtenTime, readTime]
  simp only [Option.bind_eq_bind, Option.bind_some, readMark_cons (by decide : isBlank ':' = false),
    readPart_paddedDigits (Nat.zero_le (time / 3600)) (by omega : time / 3600 ≤ 23) (by omega),
    readPart_paddedDigits (Nat.zero_le (time / 60 % 60)) (by omega : time / 60 % 60 ≤ 59) (by omega),
    readPart_paddedDigits (Nat.zero_le (time % 60)) (by omega : time % 60 ≤ 60) (by omega),
    hfraction, if_neg hleap, htotal, Nat.sub_zero, Nat.zero_mul, Nat.add_zero]

/-! ## Instants -/

/-- A date and a time of day in UTC are read as the instant they are. -/
theorem readInstant?_of_written {d : Date} (hd : d.isValid = true)
    (hcalendar : inCalendar d.toDays = true) {time : Nat} (htime : time < 86400) {text : String}
    (htext : text.toList = writtenDate d ++ 'T' :: writtenTime time) :
    readInstant? text = some (((d.toDays - epochDay) * daySeconds + time) * 1000) := by
  have hoffset : readOffset (Text.trimStart ['Z']) = some (0, []) := rfl
  have hday : (d.toDays * daySeconds + time - 0) / daySeconds = d.toDays := by
    rw [daySeconds]
    omega
  rw [readInstant?, htext]
  simp only [readDate_writtenDate hd, readTime_writtenTime htime, Option.bind_eq_bind,
    Option.bind_some, hoffset, hday]
  rw [if_pos ⟨rfl, by decide, hcalendar, hcalendar⟩]
  refine congrArg some ?_
  show (d.toDays * daySeconds + time - 0 - epochDay * daySeconds) * 1000 + 0 = _
  rw [Int.add_zero, Int.sub_zero, Int.sub_mul d.toDays]
  omega

/-- What is written of an instant is its date and its time of day. -/
theorem toList_renderInstant? {millis : Int} {text : String} (h : renderInstant? millis = some text) :
    inCalendar (millis / 1000 / daySeconds + epochDay) = true ∧
      text.toList = writtenDate (Date.ofDays (millis / 1000 / daySeconds + epochDay)) ++
        'T' :: writtenTime (millis / 1000 % daySeconds).toNat := by
  rw [renderInstant?] at h
  simp only at h
  split at h
  · rename_i hcalendar
    obtain rfl := Option.some.inj h
    refine ⟨hcalendar, ?_⟩
    simp [writtenDate, writtenTime, paddedDigits]
  · cases h

/-- **An instant that was written is read back as its whole second.** -/
theorem readInstant?_of_renderInstant? {millis : Int} {text : String}
    (h : renderInstant? millis = some text) : readInstant? text = some (millis / 1000 * 1000) := by
  obtain ⟨hcalendar, htext⟩ := toList_renderInstant? h
  obtain ⟨hvalid, hdays⟩ := Date.toDays_ofDays (millis / 1000 / daySeconds + epochDay)
  have htime : (millis / 1000 % daySeconds).toNat < 86400 := by
    rw [daySeconds]
    omega
  rw [readInstant?_of_written hvalid (hdays.symm ▸ hcalendar) htime htext, hdays, daySeconds]
  refine congrArg some ?_
  omega

/-- The first millisecond that has a date. -/
def firstMilli : Int := (firstDate.toDays - epochDay) * daySeconds * 1000

/-- The last millisecond that has a date. -/
def lastMilli : Int := (lastDate.toDays + 1 - epochDay) * daySeconds * 1000 - 1

theorem milli_bounds : firstMilli = -8334601228800000 ∧ lastMilli = 8210266876799999 := by decide

/-- An instant can be written if it has a date. -/
theorem renderInstant?_isSome_iff {millis : Int} :
    (renderInstant? millis).isSome = true ↔ firstMilli ≤ millis ∧ millis ≤ lastMilli := by
  have hcalendar : inCalendar (millis / 1000 / daySeconds + epochDay) = true ↔
      firstMilli ≤ millis ∧ millis ≤ lastMilli := by
    rw [inCalendar, Bool.and_eq_true, decide_eq_true_eq, decide_eq_true_eq, firstMilli, lastMilli,
      daySeconds]
    omega
  rw [← hcalendar, renderInstant?]
  simp only
  split <;> simp [*]

end Calendar
end RemoteTables
