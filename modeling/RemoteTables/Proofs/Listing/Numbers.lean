import Mathlib.Data.Nat.Find
import RemoteTables.Proofs.Handle.Wire
import RemoteTables.Proofs.Listing.Visits

/-!
# The numbers of visited pages

A walk asks for the pages of its window one after the other, and the server decides by its answers
how many. Page numbers have 32 bits, and a handle from the wire may have any offset and any stride, so
a walk can get to a page whose number does not fit, and there it is broken off. `page_numbers` says
when. The pages that are asked for have the numbers that they should have, so they are at least one
and increase, and the items in front of them can be counted. What is left is the next number: the walk
overflows exactly if no page that was asked for ends it and the number of the next one does not fit.
That there are handles for which this happens is `pages_overflow`.

The exact condition speaks of what the server has said of each page. As no page is asked for twice,
this is one answer for each page, whatever the server makes of its history (`Server.answersIn`), so
what is known of servers that answer each page by itself applies.
-/

set_option autoImplicit false

namespace RemoteTables

/-- The dialogue in which a listing is read through the window of a handle. -/
def TableHandle.collect {α γ : Type} (h : TableHandle) (limit : UInt64) (outputs : α → List γ) :
    Dialogue UInt32 (Option (Page α)) (List γ) :=
  h.window.collect limit Dialogue.question outputs

/-- What a server answers to a question at its first place among others. -/
def Server.answersIn {ρ β : Type} [DecidableEq ρ] (server : Server ρ β) (asked : List ρ)
    (question : ρ) : Except Failure β :=
  server (asked.takeWhile (· ≠ question)) question

/-! ## Runs against servers that agree -/

namespace Dialogue

variable {ρ β α : Type}

/-- A run depends on a server only through its answers to what is asked. -/
theorem run_congr {server other : Server ρ β} {d : Dialogue ρ β α} {asked : List ρ}
    (h : ∀ earlier question, asked.length ≤ earlier.length →
      earlier ++ [question] <+: (d.run server asked).2 →
      server earlier question = other earlier question) :
    d.run other asked = d.run server asked := by
  induction d generalizing asked with
  | done value => rfl
  | failed failure => rfl
  | broken why => rfl
  | ask question next ih =>
    have hsame : server asked question = other asked question := by
      refine h asked question (Nat.le_refl _) ?_
      rw [run]
      split
      · exact asked_prefix_run server _ _
      · exact List.prefix_refl _
    rw [run, run, ← hsame]
    cases hanswer : server asked question with
    | error failure => rfl
    | ok answer =>
      refine ih answer fun earlier later hold hfront => h earlier later ?_ ?_
      · rw [List.length_append] at hold
        omega
      · rwa [run, hanswer]

/-- If no question is asked twice, a server may as well give every question one answer. -/
theorem run_answersIn [DecidableEq ρ] {server : Server ρ β} {d : Dialogue ρ β α}
    (h : (d.questions server).Nodup) :
    d.run (fun _ question => server.answersIn (d.questions server) question) [] =
      d.run server [] := by
  refine run_congr fun earlier question _ hfront => ?_
  obtain ⟨rest, hrest⟩ := hfront
  change (earlier ++ [question]) ++ rest = d.questions server at hrest
  rw [← hrest] at h
  have hnew : ∀ other ∈ earlier, decide (other ≠ question) = true := fun other hother =>
    decide_eq_true ((List.nodup_append.mp (List.nodup_append.mp h).1).2.2 other hother question
      (List.mem_singleton.mpr rfl))
  rw [Server.answersIn, ← hrest, List.append_assoc, List.takeWhile_append_of_pos hnew]
  simp

end Dialogue

namespace PageWindow

open Dialogue

/-! ## One page after the other -/

section Turns

variable {α γ : Type} {w : PageWindow} {limit : UInt64} {outputs : α → List γ}
  {server : Server UInt32 (Option (Page α))}

/-- Every page that a walk asks for is the one whose turn it is, and has a number. -/
theorem turns_walkFrom {patience : Nat} (asked : List UInt32)
    (hnumber : w.number asked.length < UInt32.size) (got : List γ) :
    (w.walkFrom limit question (gatherPlain limit outputs) patience
      (w.pageAt asked.length) got).Keeps server
      (fun earlier page => page = w.pageAt earlier.length ∧
        w.number earlier.length < UInt32.size) (fun _ _ => True) asked := by
  -- the turn is the number of pages asked for so far, so every page asked for makes it the next one
  induction patience generalizing asked got with
  | zero => trivial
  | succ patience ih =>
    have hasks : (question (w.pageAt asked.length)).Keeps server
        (fun earlier page => page = w.pageAt earlier.length ∧
          w.number earlier.length < UInt32.size)
        (fun later _ => later = asked ++ [w.pageAt asked.length]) asked :=
      ⟨⟨rfl, hnumber⟩, fun _ _ => rfl⟩
    have hturn : asked.length + 1 = (asked ++ [w.pageAt asked.length]).length := by simp
    rw [walkFrom]
    refine hasks.bind fun later found _ hlater => ?_
    subst hlater
    cases found with
    | none => trivial
    | some found =>
      dsimp only
      split
      · trivial
      · rw [gatherPlain, done_bind]
        split
        · trivial
        · refine (keeps_fitting (v := fun later _ => later = _) fun _ _ => rfl).bind
            fun later last _ hlater => ?_
          subst hlater
          split
          · trivial
          · rw [nextPage?_pageAt hnumber, hturn]
            refine (keeps_fitting (v := fun later next => later = _ ∧ page? _ = some next)
              fun _ h => ⟨rfl, h⟩).bind fun later next _ hnext => ?_
            obtain ⟨rfl, hnext⟩ := hnext
            obtain ⟨hfits, rfl⟩ := page?_eq_some_iff.mp hnext
            exact ih _ hfits _

/-- A walk asks for the pages of its window in turn, and their numbers fit. -/
theorem questions_collect {asked : List UInt32}
    (hasked : (w.collect limit question outputs).questions server = asked) :
    asked = (List.range asked.length).map w.pageAt ∧
      ∀ passed < asked.length, w.number passed < UInt32.size := by
  have hturns : (w.collect limit question outputs).Keeps server
      (fun earlier page => page = w.pageAt earlier.length ∧
        w.number earlier.length < UInt32.size) (fun _ _ => True) [] := by
    unfold collect
    split
    · trivial
    · rw [walk, firstPage?_eq]
      refine (keeps_fitting (v := fun later first => later = [] ∧ page? _ = some first)
        fun _ h => ⟨rfl, h⟩).bind fun later first _ hfirst => ?_
      obtain ⟨rfl, hfirst⟩ := hfirst
      obtain ⟨hfits, rfl⟩ := page?_eq_some_iff.mp hfirst
      exact turns_walkFrom [] hfits []
  have hturn : ∀ passed, ∀ hpassed : passed < asked.length,
      asked[passed] = w.pageAt passed ∧ w.number passed < UInt32.size := by
    intro passed hpassed
    have hfront : asked.take passed ++ [asked[passed]] <+:
        (w.collect limit question outputs).questions server := by
      rw [hasked, List.take_append_getElem hpassed]
      exact List.take_prefix _ _
    have hpage := hturns.questions hfront
    rwa [List.length_take_of_le (Nat.le_of_lt hpassed)] at hpage
  refine ⟨List.ext_getElem (by simp) fun passed hpassed _ => ?_,
    fun passed hpassed => (hturn passed hpassed).2⟩
  rw [(hturn passed hpassed).1, List.getElem_map, List.getElem_range]

end Turns

/-! ## The last number that fits -/

section Numbers

variable {w : PageWindow}

theorem number_lt_number (hincrement : 0 < w.increment.toNat) {earlier later : Nat}
    (h : earlier < later) : w.number earlier < w.number later :=
  Nat.add_lt_add_left ((Nat.mul_lt_mul_right hincrement).mpr h) _

/-- Pages whose numbers fit are at least one and increase, if they are any distance apart. -/
theorem increasing_pages (hincrement : 0 < w.increment.toNat) {visits : Nat}
    (hnumber : ∀ passed < visits, w.number passed < UInt32.size) :
    (∀ page ∈ (List.range visits).map w.pageAt, 1 ≤ page) ∧
      ((List.range visits).map w.pageAt).Pairwise (· < ·) := by
  refine ⟨fun page hpage => ?_, List.pairwise_map.mpr ?_⟩
  · obtain ⟨passed, hpassed, rfl⟩ := List.mem_map.mp hpage
    rw [UInt32.le_iff_toNat_le, toNat_pageAt (hnumber passed (List.mem_range.mp hpassed))]
    exact number_pos
  · refine List.pairwise_lt_range.imp_of_mem fun {earlier later} hearlier hlater hlt => ?_
    rw [UInt32.lt_iff_toNat_lt, toNat_pageAt (hnumber _ (List.mem_range.mp hearlier)),
      toNat_pageAt (hnumber _ (List.mem_range.mp hlater))]
    exact number_lt_number hincrement hlt

/-- There are no more than `2 ^ 32` numbers that fit. -/
theorem number_overflows (hincrement : 0 < w.increment.toNat) :
    UInt32.size ≤ w.number UInt32.size := by
  have hstride : UInt32.size ≤ UInt32.size * w.increment.toNat :=
    Nat.le_mul_of_pos_right _ hincrement
  rw [number]
  omega

/-- With pages of the standard size all items can be counted, if each page is a list in memory. -/
theorem count_lt (hsize : w.pageSize = standardSize) {number count : Nat}
    (hnumber : number < UInt32.size) (hcount : count < UInt64.size / 2) :
    (number - 1) * w.pageSize.toNat + count < UInt64.size := by
  rw [hsize]
  change number < 4294967296 at hnumber
  change count < 9223372036854775808 at hcount
  show (number - 1) * 100 + count < 18446744073709551616
  omega

end Numbers

section Overflow

variable {α γ : Type} {w : PageWindow} {limit : UInt64} {outputs : α → List γ}
  {answer : UInt32 → Except Failure (Option (Page α))}

/-- There is a first visit that ends the walk or has no page, since there are only so many numbers. -/
theorem exists_first_stop (hincrement : 0 < w.increment.toNat) (limit : UInt64)
    (answer : UInt32 → Except Failure (Option (Page α))) (outputs : α → List γ) :
    ∃ visits < patience,
      (w.number visits < UInt32.size → w.EndsAt limit answer outputs visits) ∧
      ∀ passed < visits,
        w.number passed < UInt32.size ∧ ¬w.EndsAt limit answer outputs passed := by
  classical
  have hlarge := number_overflows hincrement
  have hstops : ∃ visits, w.number visits < UInt32.size → w.EndsAt limit answer outputs visits :=
    ⟨UInt32.size, fun hfits => absurd hfits (Nat.not_lt.mpr hlarge)⟩
  refine ⟨Nat.find hstops, ?_, Nat.find_spec hstops, fun passed hpassed =>
    Classical.not_imp.mp (Nat.find_min hstops hpassed)⟩
  exact Nat.lt_of_le_of_lt
    (Nat.find_min' hstops fun hfits => absurd hfits (Nat.not_lt.mpr hlarge)) (by decide)

/-- **When a walk overflows**, if the server answers each page by itself: if no page that was asked
for ends it, and the number of the next one does not fit. -/
theorem collect_overflows_iff (hsize : w.pageSize = standardSize)
    (hincrement : 0 < w.increment.toNat)
    (hcount : ∀ page found, answer page = .ok (some found) →
      (found.items.getD []).length < UInt64.size / 2) {asked : List UInt32}
    (hasked : (w.collect limit question outputs).questions (.ofPages answer) = asked) :
    (w.collect limit question outputs).outcome (.ofPages answer) = .broken .overflow ↔
      limit ≠ 0 ∧ (∀ passed < asked.length, ¬w.EndsAt limit answer outputs passed) ∧
        UInt32.size ≤ w.number asked.length := by
  subst hasked
  by_cases hlimit : limit = 0
  · rw [collect, if_pos hlimit]
    exact ⟨fun h => absurd h (by simp [outcome, run]), fun h => absurd hlimit h.1⟩
  have hrange : ∀ passed, w.number passed < UInt32.size → w.InRange answer passed := by
    refine fun passed hnumber => ⟨hnumber, fun found hfound _ => count_lt hsize hnumber ?_⟩
    rw [itemsAt_of_found hfound]
    exact hcount _ found hfound
  obtain ⟨visits, hpatient, hstop, hbefore⟩ :=
    exists_first_stop hincrement limit answer outputs
  have hopen := fun passed hpassed => (hbefore passed hpassed).2
  obtain ⟨rest, hvisits⟩ := exists_run_visits hlimit hpatient hopen fun passed hpassed =>
    hrange passed (hbefore passed hpassed).1
  rw [outcome, questions, hvisits]
  by_cases hfits : w.number visits < UInt32.size
  · -- the walk ends with this visit
    have hends := hstop hfits
    rw [run_visit (hrange visits hfits) (length_gathered_lt hlimit hopen), if_pos hends]
    refine ⟨fun h => absurd h ?_, fun h => absurd hends (h.2.1 visits ?_)⟩
    · rw [outcomeAt]
      split <;> simp
    · simp
  · -- there is no page to visit
    rw [goOn, page?_eq_none_iff.mpr (Nat.not_lt.mp hfits)]
    have hlength : ((List.range visits).map w.pageAt).length = visits := by simp
    refine ⟨fun _ => ⟨hlimit, ?_, ?_⟩, fun _ => rfl⟩
    · rintro passed hpassed
      exact hopen passed (hlength ▸ hpassed)
    · exact Nat.not_lt.mp (hlength.symm ▸ hfits)

end Overflow

end PageWindow

/-! ## The pages of a handle -/

section Handle

variable {α γ : Type}

theorem TableHandle.toNat_increment (h : TableHandle) :
    h.window.increment.toNat = max h.pageIncrement.toNat 1 := by
  show (if h.pageIncrement ≤ 1 then 1 else h.pageIncrement).toNat = _
  split
  · rename_i hsmall
    exact (Nat.max_eq_right (UInt32.le_iff_toNat_le.mp hsmall)).symm
  · rename_i hlarge
    exact (Nat.max_eq_left (Nat.le_of_not_le fun h => hlarge (UInt32.le_iff_toNat_le.mpr h))).symm

theorem TableHandle.number_window (h : TableHandle) (passed : Nat) :
    h.window.number passed = h.offset.toNat + 1 + passed * max h.pageIncrement.toNat 1 := by
  rw [PageWindow.number, h.toNat_increment]
  rfl

/-- **The numbers of the visited pages.** Whatever the server answers, a handle is read from the pages
of its window in turn. They have the numbers that they should have, so they are at least one and
increase, and on each of them the test for the last page can be made, for as many items as a page may
hold in memory. If no page holds more, the reading overflows just where no page that was asked for
ends it and the number of the next one is too large for 32 bits. -/
theorem page_numbers (h : TableHandle) (limit : UInt64) (outputs : α → List γ)
    (server : Server UInt32 (Option (Page α))) {asked : List UInt32}
    (hasked : (h.collect limit outputs).questions server = asked) :
    asked = (List.range asked.length).map h.window.pageAt ∧
    (∀ passed < asked.length, (h.window.pageAt passed).toNat =
      h.offset.toNat + 1 + passed * max h.pageIncrement.toNat 1) ∧
    (∀ page ∈ asked, 1 ≤ page) ∧ asked.Pairwise (· < ·) ∧
    (∀ page ∈ asked, ∀ count < UInt64.size / 2, ∀ total,
      h.window.isLast? page count total =
        some (decide (PageWindow.EndsOn h.window.pageSize.toNat page.toNat count total))) ∧
    ((∀ earlier page found, server earlier page = .ok (some found) →
        (found.items.getD []).length < UInt64.size / 2) →
      ((h.collect limit outputs).outcome server = .broken .overflow ↔
        limit ≠ 0 ∧ (∀ passed < asked.length,
          ¬h.window.EndsAt limit (server.answersIn asked) outputs passed) ∧
        UInt32.size ≤ h.offset.toNat + 1 + asked.length * max h.pageIncrement.toNat 1)) := by
  have happart : 0 < h.window.increment.toNat :=
    h.toNat_increment ▸ Nat.lt_of_lt_of_le Nat.one_pos (Nat.le_max_right _ _)
  obtain ⟨hturns, hnumber⟩ := PageWindow.questions_collect hasked
  obtain ⟨hpositive, hincreasing⟩ := PageWindow.increasing_pages happart hnumber
  rw [← hturns] at hpositive hincreasing
  have hdistinct : ((h.collect limit outputs).questions server).Nodup :=
    hasked ▸ hincreasing.imp fun hlt hsame => absurd (hsame ▸ hlt) (UInt32.lt_irrefl _)
  have hrun := Dialogue.run_answersIn hdistinct
  rw [hasked] at hrun
  refine ⟨hturns, fun passed hpassed => ?_, hpositive, hincreasing,
    fun page hpage count hitems total => ?_, fun hcount => ?_⟩
  · rw [PageWindow.toNat_pageAt (hnumber passed hpassed), h.number_window]
  · exact PageWindow.isLast?_eq (UInt32.le_iff_toNat_le.mp (hpositive page hpage))
      fun _ => PageWindow.count_lt rfl page.toNat_lt hitems
  · rw [← h.number_window, Dialogue.outcome, ← hrun]
    refine PageWindow.collect_overflows_iff rfl happart
      (fun page found hfound => hcount _ page found hfound) ?_
    exact (congrArg Prod.snd hrun).trans hasked

end Handle

/-! ## Pages that overflow -/

/-- A handle of all repositories with a window. -/
def TableHandle.reposFrom (offset increment : UInt32) : TableHandle :=
  ⟨⟨"github", "repos"⟩, .all, offset, noLimit, increment, none⟩

/-- The server that has a full page of one number, and no other page. -/
def Server.onePage (number : UInt32) : Server UInt32 (Option (Page Nat)) := fun _ page =>
  .ok (if page = number then some (.bare (List.range 100)) else none)

/-- A stride of zero counts as one, so the page after the second is the third. -/
theorem page_numbers_reposFrom :
    ((TableHandle.reposFrom 1 0).collect 500 fun item => [item]).questions (.onePage 2) = [2, 3] ∧
    ((TableHandle.reposFrom 1 0).window.pageAt 1).toNat = 1 + 1 + 1 * max 0 1 ∧
    ((TableHandle.reposFrom 1 0).collect 500 fun item => [item]).outcome (.onePage 2) ≠
      .broken .overflow := by
  have hasked : ((TableHandle.reposFrom 1 0).collect 500 fun item => [item]).questions
      (.onePage 2) = [2, 3] := by decide +kernel
  have hitems : ∀ earlier page found, Server.onePage 2 earlier page = .ok (some found) →
      (found.items.getD []).length < UInt64.size / 2 := by
    intro earlier page found hfound
    rw [Server.onePage] at hfound
    split at hfound
    · obtain rfl := Option.some.inj (Except.ok.inj hfound)
      decide
    · cases hfound
  obtain ⟨-, hnumber, -, -, -, hoverflow⟩ := page_numbers _ _ _ _ hasked
  exact ⟨hasked, hnumber 1 (by decide), fun h => absurd ((hoverflow hitems).mp h).2.2 (by decide)⟩

theorem TableHandle.reposFrom_accepted (offset increment : UInt32) :
    TableHandle.decoder.text (reposFrom offset increment).toJson.render =
      .ok (reposFrom offset increment) := by
  have hdepth : ∀ entry ∈ (reposFrom offset increment).constraint.entries,
      entry.column.type.depth ≤ 0 := fun _ he => absurd he List.not_mem_nil
  exact (TableHandle.restores hdepth).text (by decide)

/-- **Page numbers do overflow**, in handles that the wire gives: with the greatest offset there is no
first page, and with the greatest stride there is none after the second. -/
theorem pages_overflow :
    (∃ text, TableHandle.decoder.text text = .ok (.reposFrom 4294967295 1)) ∧
    ((TableHandle.reposFrom 4294967295 1).collect 500 fun item => [item]).run (.onePage 2) [] =
      (.broken .overflow, []) ∧
    (∃ text, TableHandle.decoder.text text = .ok (.reposFrom 1 4294967295)) ∧
    ((TableHandle.reposFrom 1 4294967295).collect 500 fun item => [item]).run (.onePage 2) [] =
      (.broken .overflow, [2]) :=
  ⟨⟨_, TableHandle.reposFrom_accepted _ _⟩, by decide +kernel,
    ⟨_, TableHandle.reposFrom_accepted _ _⟩, by decide +kernel⟩

end RemoteTables
