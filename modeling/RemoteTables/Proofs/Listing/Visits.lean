import RemoteTables.Proofs.Listing.Asked
import RemoteTables.Proofs.Listing.Served

/-!
# The visits of a walk

A walk that only collects is known by what each visit finds. It goes to the pages of its window in
turn, and the first visit that has a reason to end it (`EndsAt`) is the last: nothing is asked for
behind that page, and nothing in front of it is left out. What the walk comes to is then read off the
pages it has visited, either the failure that ended it or their outputs up to the limit
(`collect_visits`). A walk that finds no reason to end does not.

Reasons are stated in whole numbers and the walk counts in 32 and 64 bits, so what is said here is
said of walks whose numbers fit (`InRange`). The test of the total is made only where the server
declares one, and the next page is numbered only where the walk goes on (`goOn`), so only visited
pages matter.

The walk is given patience, and runs out of it only if there is no last visit. With different pages
there are fewer than `2 ^ 32` of them. A window of stride zero sees one page over and over, and then
each visit gathers as much as the first: it meets a limit below `2 ^ 64` in fewer visits than that, or
gathers nothing and goes on for ever (`lt_patience`).
-/

set_option autoImplicit false

namespace RemoteTables

/-- The server that answers for each page by itself, with a failure where there is one. -/
def Server.ofPages {α : Type} (answer : UInt32 → Except Failure (Option (Page α))) :
    Server UInt32 (Option (Page α)) := fun _ page => answer page

namespace PageWindow

open Dialogue

/-! ## Reasons to end -/

section Visit

variable {α γ : Type} (w : PageWindow) (limit : UInt64)
  (answer : UInt32 → Except Failure (Option (Page α))) (outputs : α → List γ)

/-- The items that a visit finds; none if the page fails, is not found or has no list. -/
def itemsAt (passed : Nat) : List α :=
  match answer (w.pageAt passed) with
  | .ok (some found) => found.items.getD []
  | _ => []

/-- The outputs of all items that so many visits find. -/
def gathered (visits : Nat) : List γ :=
  (List.range visits).flatMap fun passed => (w.itemsAt answer passed).flatMap outputs

/-- Whether a visit ends the walk: the page fails, is not found, has no items, fills the limit, or is
the last one of the listing. -/
def EndsAt (passed : Nat) : Prop :=
  match answer (w.pageAt passed) with
  | .error _ | .ok none => True
  | .ok (some found) =>
    (w.itemsAt answer passed).length = 0 ∨
      limit.toNat ≤ (w.gathered answer outputs (passed + 1)).length ∨
      EndsOn w.pageSize.toNat (w.number passed) (w.itemsAt answer passed).length found.total

instance (passed : Nat) : Decidable (w.EndsAt limit answer outputs passed) :=
  show Decidable (match answer (w.pageAt passed) with
    | .error _ | .ok none => True
    | .ok (some _) => _ ∨ _ ∨ _) from
  match answer (w.pageAt passed) with
  | .error _ | .ok none => inferInstanceAs (Decidable True)
  | .ok (some _) => inferInstanceAs (Decidable (_ ∨ _ ∨ _))

/-- Whether a visit can be counted: the number of its page has 32 bits, and the items up to the end
of the page, which are only counted against a declared total, have a number of 64 bits. -/
def InRange (passed : Nat) : Prop :=
  w.number passed < UInt32.size ∧
    ∀ found, answer (w.pageAt passed) = .ok (some found) → found.total.isSome = true →
      (w.number passed - 1) * w.pageSize.toNat + (w.itemsAt answer passed).length < UInt64.size

/-- What a walk comes to that ends with a visit. -/
def outcomeAt (passed : Nat) : Outcome (List γ) :=
  match answer (w.pageAt passed) with
  | .error failure => .failed failure
  | .ok _ => .done ((w.gathered answer outputs (passed + 1)).take limit.toNat)

/-- The walk from the page whose turn it is, if there is such a page. -/
def goOn (patience passed : Nat) (got : List γ) :
    Dialogue UInt32 (Option (Page α)) (List γ) := do
  walkFrom w limit question (gatherPlain limit outputs) patience
    (← fitting (page? (w.number passed))) got

end Visit

/-! ## One visit -/

section Visits

variable {α γ : Type} {w : PageWindow} {limit : UInt64}
  {answer : UInt32 → Except Failure (Option (Page α))} {outputs : α → List γ} {passed : Nat}

theorem goOn_of_fits (h : w.number passed < UInt32.size) (patience : Nat) (got : List γ) :
    (w.goOn limit outputs patience passed got : Dialogue UInt32 (Option (Page α)) (List γ)) =
      w.walkFrom limit question (gatherPlain limit outputs) patience (w.pageAt passed) got := by
  rw [goOn, page?_eq_some_iff.mpr ⟨h, rfl⟩]
  rfl

theorem walk_eq_goOn :
    (w.walk limit question (gatherPlain limit outputs) :
      Dialogue UInt32 (Option (Page α)) (List γ)) = w.goOn limit outputs patience 0 [] := by
  rw [walk, firstPage?_eq]
  rfl

theorem gathered_succ : w.gathered answer outputs (passed + 1) =
    w.gathered answer outputs passed ++ (w.itemsAt answer passed).flatMap outputs := by
  rw [gathered, gathered, List.range_succ, List.flatMap_append, List.flatMap_singleton]

theorem itemsAt_of_found {found : Page α} (h : answer (w.pageAt passed) = .ok (some found)) :
    w.itemsAt answer passed = found.items.getD [] := by
  rw [itemsAt, h]

theorem endsAt_iff_of_found {found : Page α}
    (h : answer (w.pageAt passed) = .ok (some found)) : w.EndsAt limit answer outputs passed ↔
      (w.itemsAt answer passed).length = 0 ∨
        limit.toNat ≤ (w.gathered answer outputs (passed + 1)).length ∨
        EndsOn w.pageSize.toNat (w.number passed) (w.itemsAt answer passed).length found.total := by
  rw [EndsAt, h]

/-- A visit that does not end the walk found a page. -/
theorem exists_found_of_not_endsAt (h : ¬w.EndsAt limit answer outputs passed) :
    ∃ found, answer (w.pageAt passed) = .ok (some found) := by
  rw [EndsAt] at h
  split at h
  · exact absurd trivial h
  · exact absurd trivial h
  · exact ⟨_, by assumption⟩

theorem isLast?_itemsAt (hrange : w.InRange answer passed) {found : Page α}
    (h : answer (w.pageAt passed) = .ok (some found)) :
    w.isLast? (w.pageAt passed) (w.itemsAt answer passed).length found.total =
      some (decide (EndsOn w.pageSize.toNat (w.number passed) (w.itemsAt answer passed).length
        found.total)) := by
  have hpage := toNat_pageAt hrange.1
  rw [isLast?_eq (hpage ▸ number_pos) (hpage ▸ hrange.2 found h), hpage]

/-- A visit that finds no items leaves what was gathered. -/
theorem outcomeAt_of_nothing {found : Option (Page α)}
    (hanswer : answer (w.pageAt passed) = .ok found) (hnothing : w.itemsAt answer passed = [])
    (hopen : (w.gathered answer outputs passed).length < limit.toNat) :
    w.outcomeAt limit answer outputs passed = .done (w.gathered answer outputs passed) := by
  rw [outcomeAt, hanswer, gathered_succ, hnothing, List.flatMap_nil, List.append_nil,
    List.take_of_length_le (Nat.le_of_lt hopen)]

/-- A page of no more than `2 ^ 32` items can be counted if it can be numbered. -/
theorem inRange_of_length_le (hnumber : w.number passed < UInt32.size)
    (hitems : (w.itemsAt answer passed).length ≤ UInt32.size) : w.InRange answer passed := by
  refine ⟨hnumber, fun _ _ _ => ?_⟩
  have hsize : w.pageSize.toNat < 4294967296 := w.pageSize.toNat_lt
  have hnumber' : w.number passed < 4294967296 := hnumber
  have hitems' : (w.itemsAt answer passed).length ≤ 4294967296 := hitems
  have hbefore : (w.number passed - 1) * w.pageSize.toNat ≤ 4294967294 * 4294967295 :=
    Nat.mul_le_mul (by omega) (by omega)
  show _ < 18446744073709551616
  omega

/-- A page that was found ends the walk, or the walk goes on with what the page adds. -/
theorem run_visit_found (hrange : w.InRange answer passed)
    (hopen : (w.gathered answer outputs passed).length < limit.toNat) {found : Page α}
    (hanswer : answer (w.pageAt passed) = .ok (some found)) (patience : Nat) (asked : List UInt32) :
    (w.goOn limit outputs (patience + 1) passed (w.gathered answer outputs passed)).run
        (.ofPages answer) asked =
      if w.EndsAt limit answer outputs passed then
        (w.outcomeAt limit answer outputs passed, asked ++ [w.pageAt passed])
      else
        (w.goOn limit outputs patience (passed + 1) (w.gathered answer outputs (passed + 1))).run
          (.ofPages answer) (asked ++ [w.pageAt passed]) := by
  have hends : w.EndsAt limit answer outputs passed ↔ _ := endsAt_iff_of_found hanswer
  have hlast := isLast?_itemsAt hrange hanswer
  rw [goOn_of_fits hrange.1, walkFrom, question, ask_bind, run, Server.ofPages, hanswer]
  dsimp only
  rw [done_bind]
  dsimp only
  rw [← itemsAt_of_found hanswer, nextPage?_pageAt hrange.1]
  split
  · rename_i hnothing
    rw [if_pos (hends.mpr (Or.inl (by rw [hnothing]; rfl))),
      outcomeAt_of_nothing hanswer hnothing hopen]
    rfl
  · rename_i hitems
    rw [gatherPlain, done_bind, ← gathered_succ, outcomeAt, hanswer]
    generalize w.gathered answer outputs (passed + 1) = all at hends ⊢
    by_cases hmet : limit.toNat ≤ all.length
    · rw [if_pos (by rw [List.length_take]; omega), if_pos (hends.mpr (Or.inr (Or.inl hmet)))]
      rfl
    · -- the limit cuts nothing off
      rw [List.take_of_length_le (by omega), if_neg hmet, hlast, fitting, done_bind]
      by_cases hfinal : EndsOn w.pageSize.toNat (w.number passed)
          (w.itemsAt answer passed).length found.total
      · rw [if_pos (decide_eq_true hfinal), if_pos (hends.mpr (Or.inr (Or.inr hfinal)))]
        rfl
      · have hgoes : ¬w.EndsAt limit answer outputs passed := by
          rw [hends]
          rintro (hnone | hfull | hover)
          · exact hitems (List.length_eq_zero_iff.mp hnone)
          · exact hmet hfull
          · exact hfinal hover
        rw [if_neg (mt of_decide_eq_true hfinal), if_neg hgoes]
        rfl

/-- **One visit.** While the limit is not met, a visit asks for its page, and the walk ends there or
goes on with what the page adds. -/
theorem run_visit (hrange : w.InRange answer passed)
    (hopen : (w.gathered answer outputs passed).length < limit.toNat) (patience : Nat)
    (asked : List UInt32) :
    (w.goOn limit outputs (patience + 1) passed (w.gathered answer outputs passed)).run
        (.ofPages answer) asked =
      if w.EndsAt limit answer outputs passed then
        (w.outcomeAt limit answer outputs passed, asked ++ [w.pageAt passed])
      else
        (w.goOn limit outputs patience (passed + 1) (w.gathered answer outputs (passed + 1))).run
          (.ofPages answer) (asked ++ [w.pageAt passed]) := by
  cases hanswer : answer (w.pageAt passed) with
  | error failure =>
    rw [goOn_of_fits hrange.1, walkFrom, question, ask_bind, run, Server.ofPages, hanswer,
      if_pos (by rw [EndsAt, hanswer]; trivial), outcomeAt, hanswer]
  | ok found =>
    cases found with
    | none =>
      have hnothing : w.itemsAt answer passed = [] := by rw [itemsAt, hanswer]
      rw [goOn_of_fits hrange.1, walkFrom, question, ask_bind, run, Server.ofPages, hanswer,
        if_pos (by rw [EndsAt, hanswer]; trivial), outcomeAt_of_nothing hanswer hnothing hopen]
      rfl
    | some found => exact run_visit_found hrange hopen hanswer patience asked

/-! ## All visits -/

/-- Until a visit ends the walk, the limit is not met. -/
theorem length_gathered_lt (hlimit : limit ≠ 0) {visits : Nat}
    (hopen : ∀ passed < visits, ¬w.EndsAt limit answer outputs passed) :
    (w.gathered answer outputs visits).length < limit.toNat := by
  cases visits with
  | zero => exact UInt64.lt_iff_toNat_lt.mp (UInt64.pos_iff_ne_zero.mpr hlimit)
  | succ visits =>
    have hlast := hopen visits (Nat.lt_succ_self visits)
    obtain ⟨found, hfound⟩ := exists_found_of_not_endsAt hlast
    rw [endsAt_iff_of_found hfound] at hlast
    omega

/-- **All visits up to one that is still to come.** The walk has asked for their pages in turn, and
has gathered all outputs of what it found. -/
theorem run_visits (hlimit : limit ≠ 0) {visits : Nat}
    (hopen : ∀ passed < visits, ¬w.EndsAt limit answer outputs passed)
    (hrange : ∀ passed < visits, w.InRange answer passed) (patience : Nat) :
    (w.goOn limit outputs (visits + patience) 0 []).run (.ofPages answer) [] =
      (w.goOn limit outputs patience visits (w.gathered answer outputs visits)).run
        (.ofPages answer) ((List.range visits).map w.pageAt) := by
  induction visits generalizing patience with
  | zero => rw [Nat.zero_add]; rfl
  | succ visits ih =>
    have hopen' : ∀ passed < visits, ¬w.EndsAt limit answer outputs passed :=
      fun passed h => hopen passed (Nat.lt_succ_of_lt h)
    rw [Nat.succ_add_eq_add_succ, ih hopen' fun passed h => hrange passed (Nat.lt_succ_of_lt h),
      run_visit (hrange visits (Nat.lt_succ_self _)) (length_gathered_lt hlimit hopen'),
      if_neg (hopen visits (Nat.lt_succ_self _)), List.range_succ, List.map_append]
    rfl

section Still

variable (hstill : w.increment = 0)
include hstill

theorem number_of_increment_eq_zero (passed : Nat) : w.number passed = w.number 0 := by
  rw [number, number, hstill]
  rfl

theorem pageAt_of_increment_eq_zero (passed : Nat) : w.pageAt passed = w.pageAt 0 :=
  congrArg UInt32.ofNat (number_of_increment_eq_zero hstill passed)

theorem itemsAt_of_increment_eq_zero (passed : Nat) :
    w.itemsAt answer passed = w.itemsAt answer 0 := by
  rw [itemsAt, itemsAt, pageAt_of_increment_eq_zero hstill]

/-- A window of stride zero gathers the same with every visit. -/
theorem length_gathered_of_increment_eq_zero (visits : Nat) :
    (w.gathered answer outputs visits).length =
      visits * ((w.itemsAt answer 0).flatMap outputs).length := by
  induction visits with
  | zero => rw [Nat.zero_mul]; rfl
  | succ visits ih =>
    rw [gathered_succ, List.length_append, ih, itemsAt_of_increment_eq_zero hstill visits,
      Nat.succ_mul]

/-- A window of stride zero can only end with its first visit, or by filling the limit. -/
theorem limit_le_of_increment_eq_zero {last : Nat}
    (hfirst : ¬w.EndsAt limit answer outputs 0) (hends : w.EndsAt limit answer outputs last) :
    limit.toNat ≤ (w.gathered answer outputs (last + 1)).length := by
  obtain ⟨found, hfound⟩ := exists_found_of_not_endsAt hfirst
  rw [endsAt_iff_of_found hfound] at hfirst
  rw [endsAt_iff_of_found (pageAt_of_increment_eq_zero hstill last ▸ hfound),
    itemsAt_of_increment_eq_zero hstill, number_of_increment_eq_zero hstill] at hends
  rcases hends with hnone | hfull | hover
  · exact absurd (Or.inl hnone) hfirst
  · exact hfull
  · exact absurd (Or.inr (Or.inr hover)) hfirst

end Still

/-- The last visit comes before patience ends. -/
theorem lt_patience (hlimit : limit ≠ 0) {last : Nat}
    (hends : w.EndsAt limit answer outputs last)
    (hopen : ∀ passed < last, ¬w.EndsAt limit answer outputs passed)
    (hrange : w.InRange answer last) : last < patience := by
  show last < 18446744073709551616
  have hnumber : w.offset.toNat + 1 + last * w.increment.toNat < 4294967296 := hrange.1
  have hbelow : (w.gathered answer outputs last).length < limit.toNat :=
    length_gathered_lt hlimit hopen
  have hlimit' : limit.toNat < 18446744073709551616 := limit.toNat_lt
  rcases Nat.eq_zero_or_pos last with rfl | hlater
  · decide
  by_cases hstill : w.increment = 0
  · -- each visit adds something, since the last one fills the limit
    have hfull := limit_le_of_increment_eq_zero hstill (hopen 0 hlater) hends
    rw [length_gathered_of_increment_eq_zero hstill] at hfull hbelow
    generalize ((w.itemsAt answer 0).flatMap outputs).length = added at hfull hbelow
    have hadded : 0 < added := by
      rcases Nat.eq_zero_or_pos added with rfl | hadded
      · omega
      · exact hadded
    have hvisits : last ≤ last * added := Nat.le_mul_of_pos_right last hadded
    omega
  · -- the pages are different, and their numbers have 32 bits
    have hstride : 0 < w.increment.toNat :=
      UInt32.lt_iff_toNat_lt.mp (UInt32.pos_iff_ne_zero.mpr hstill)
    have hvisits : last ≤ last * w.increment.toNat := Nat.le_mul_of_pos_right last hstride
    omega

/-- A walk gets to every visit in front of which it has no reason to end, if patience lasts. -/
theorem exists_run_visits (hlimit : limit ≠ 0) {visits : Nat} (hpatient : visits < patience)
    (hopen : ∀ passed < visits, ¬w.EndsAt limit answer outputs passed)
    (hrange : ∀ passed < visits, w.InRange answer passed) :
    ∃ rest, (w.collect limit question outputs).run (.ofPages answer) [] =
      (w.goOn limit outputs (rest + 1) visits (w.gathered answer outputs visits)).run
        (.ofPages answer) ((List.range visits).map w.pageAt) := by
  obtain ⟨rest, hrest⟩ := Nat.exists_eq_add_of_lt hpatient
  refine ⟨rest, ?_⟩
  rw [collect, if_neg hlimit, walk_eq_goOn, hrest, Nat.add_assoc]
  exact run_visits hlimit hopen hrange (rest + 1)

end Visits

variable {α γ : Type}

/-- **Collecting visits the pages of its window up to the first reason to end, and no others.** With
limit zero nothing is asked for and nothing comes of it. Otherwise, if all visited pages can be
counted, the pages that are asked for are those up to the first visit `last` that ends the walk, each
once and in their order. If the last page fails, so does the walk; if not, the walk comes to the
outputs of all items on these pages, cut at the limit. If no visit ends the walk, it asks for page
after page with whatever patience it is given, and does not end. -/
theorem collect_visits (w : PageWindow) (limit : UInt64)
    (answer : UInt32 → Except Failure (Option (Page α))) (outputs : α → List γ) :
    (limit = 0 →
      (w.collect limit question outputs).run (.ofPages answer) [] = (.done [], [])) ∧
    (limit ≠ 0 →
      (∀ passed, (∀ earlier < passed, ¬w.EndsAt limit answer outputs earlier) →
        w.InRange answer passed) →
      (∀ last, w.EndsAt limit answer outputs last →
        (∀ earlier < last, ¬w.EndsAt limit answer outputs earlier) →
        (w.collect limit question outputs).run (.ofPages answer) [] =
          (w.outcomeAt limit answer outputs last, (List.range (last + 1)).map w.pageAt) ∧
        ∀ passed ≤ last, (w.pageAt passed).toNat =
          w.offset.toNat + 1 + passed * w.increment.toNat) ∧
      ((∀ passed, ¬w.EndsAt limit answer outputs passed) →
        (w.collect limit question outputs).outcome (.ofPages answer) = .broken .endless ∧
        ∀ patience, (w.walkFrom limit question (gatherPlain limit outputs) patience (w.pageAt 0)
          []).run (.ofPages answer) [] =
            (.broken .endless, (List.range patience).map w.pageAt))) := by
  constructor
  · intro hzero
    rw [collect, if_pos hzero]
    rfl
  · intro hlimit hrange
    refine ⟨fun last hends hopen => ⟨?_, fun passed hpassed => ?_⟩, fun hnever => ?_⟩
    · obtain ⟨rest, hvisits⟩ := exists_run_visits hlimit
        (lt_patience hlimit hends hopen (hrange last hopen)) hopen fun passed hpassed =>
          hrange passed fun earlier h => hopen earlier (Nat.lt_trans h hpassed)
      rw [hvisits, run_visit (hrange last hopen) (length_gathered_lt hlimit hopen), if_pos hends,
        List.range_succ, List.map_append]
      rfl
    · exact toNat_pageAt (hrange passed fun earlier h =>
        hopen earlier (Nat.lt_of_lt_of_le h hpassed)).1
    · have hnumbers : ∀ passed, w.InRange answer passed :=
        fun passed => hrange passed fun earlier _ => hnever earlier
      have hendless : ∀ patience, (w.goOn limit outputs patience 0 []).run (.ofPages answer) [] =
          (.broken .endless, (List.range patience).map w.pageAt) := by
        intro patience
        rw [show patience = patience + 0 from rfl, run_visits hlimit (fun passed _ => hnever passed)
          (fun passed _ => hnumbers passed), goOn_of_fits (hnumbers patience).1]
        rfl
      rw [outcome, collect, if_neg hlimit, walk_eq_goOn]
      refine ⟨congrArg Prod.fst (hendless patience), fun patience => ?_⟩
      rw [← goOn_of_fits (hnumbers 0).1, hendless]

/-- Two pages of a listing of eight, the second of which says how many there are. -/
def evenPages (page : UInt32) : Except Failure (Option (Page Nat)) :=
  if page = 2 then .ok (some (.bare [3, 4]))
  else if page = 4 then .ok (some ⟨some 8, some [7, 8]⟩)
  else .ok none

/-- Every other page of the listing is visited until the total is reached, and the limit cuts through
the outputs of the last item. A window of stride zero, whose page is full and gives nothing, is
visited for ever. -/
theorem collect_visits_evenPages :
    (collect ⟨1, 2, 2⟩ 7 question fun item => [item, item]).run (.ofPages evenPages) [] =
      (.done [3, 3, 4, 4, 7, 7, 8], [2, 4]) ∧
    (collect ⟨1, 0, 2⟩ 7 question fun _ => ([] : List Nat)).outcome (.ofPages evenPages) =
      .broken .endless := by
  constructor
  · have hlast : EndsAt ⟨1, 2, 2⟩ 7 evenPages (fun item => [item, item]) 1 := by decide
    have hfirst : ¬EndsAt ⟨1, 2, 2⟩ 7 evenPages (fun item => [item, item]) 0 := by decide
    obtain ⟨-, hvisits⟩ := collect_visits ⟨1, 2, 2⟩ 7 evenPages fun item => [item, item]
    obtain ⟨hends, -⟩ := hvisits (by decide) fun passed hopen => by
      rcases passed with _ | _ | passed
      · exact inRange_of_length_le (by decide) (by decide)
      · exact inRange_of_length_le (by decide) (by decide)
      · exact absurd hlast (hopen 1 (by omega))
    refine (hends 1 hlast fun earlier hearlier => ?_).1
    obtain rfl := Nat.lt_one_iff.mp hearlier
    exact hfirst
  · have hnever : ∀ passed, ¬EndsAt ⟨1, 0, 2⟩ 7 evenPages (fun _ => ([] : List Nat)) passed := by
      intro passed hends
      have hfull : 7 ≤ (passed + 1) * 0 := Nat.le_trans
        (limit_le_of_increment_eq_zero rfl (by decide) hends)
        (Nat.le_of_eq (length_gathered_of_increment_eq_zero rfl (passed + 1)))
      omega
    obtain ⟨-, hvisits⟩ := collect_visits ⟨1, 0, 2⟩ 7 evenPages fun _ => ([] : List Nat)
    refine ((hvisits (by decide) fun passed _ => inRange_of_length_le ?_ ?_).2 hnever).1
    · show 1 + 1 + passed * 0 < 4294967296
      omega
    · rw [itemsAt_of_increment_eq_zero rfl]
      decide

end PageWindow
end RemoteTables
