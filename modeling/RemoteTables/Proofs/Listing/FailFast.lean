import RemoteTables.Proofs.Listing.Asked

/-!
# Failing at the first fault

Nothing in a dialogue makes it give up when an answer is at fault: a tree could go on, or come to a
value after all. `Dialogue.FailsFast` says that it does give up, at once and with the fault, and that
it has no other way to fail. It goes through a dialogue part by part (`FailsFast.bind`), so through a
walk if its pages are fetched and its items gathered in this way (`failsFast_walk`).

For a run this settles what came of it (`FailsFast.run`). If it came to a value, then nothing was the
matter with any answer, and if it failed, then with the last answer, in the way in which the run
failed, and with none before it. Whether something is the matter with an answer is `faultOf?`; a
server that gives none is at fault in its own way.
-/

set_option autoImplicit false

namespace RemoteTables

namespace Outcome

variable {α : Type}

/-- In which way a run failed, if it did. -/
def failure? : Outcome α → Option Failure
  | failed failure => some failure
  | done _ | broken _ => none

theorem failure?_eq_some_iff {outcome : Outcome α} {failure : Failure} :
    outcome.failure? = some failure ↔ outcome = .failed failure := by
  cases outcome <;> simp [failure?]

/-- Whether a run failed in a given way can be told without comparing values. -/
instance (outcome : Outcome α) (failure : Failure) : Decidable (outcome = .failed failure) :=
  decidable_of_iff (outcome.failure? = some failure) failure?_eq_some_iff

end Outcome

namespace Dialogue

variable {ρ β α γ : Type} {server : Server ρ β} {fault : ρ → β → Option Failure}

/-- Whether a dialogue fails at once on an answer that is at fault, and never in another way. -/
def FailsFast (fault : ρ → β → Option Failure) : Dialogue ρ β α → Prop
  | done _ | broken _ => True
  | failed _ => False
  | ask question next => ∀ answer,
    match fault question answer with
    | some failure => next answer = failed failure
    | none => (next answer).FailsFast fault

/-- What is the matter with a server's answer to a question, if anything. -/
def faultOf? (server : Server ρ β) (fault : ρ → β → Option Failure) (earlier : List ρ)
    (question : ρ) : Option Failure :=
  match server earlier question with
  | .ok answer => fault question answer
  | .error failure => some failure

/-! ## Part by part -/

theorem FailsFast.bind {d : Dialogue ρ β α} (h : d.FailsFast fault) {f : α → Dialogue ρ β γ}
    (hf : ∀ value, (f value).FailsFast fault) : (d >>= f).FailsFast fault := by
  induction d with
  | done value => exact hf value
  | failed failure => exact h.elim
  | broken why => trivial
  | ask question next ih =>
    intro answer
    have hanswer := h answer
    cases hfault : fault question answer with
    | some failure =>
      rw [hfault] at hanswer
      show next answer >>= f = failed failure
      rw [hanswer]
      rfl
    | none =>
      rw [hfault] at hanswer
      exact ih answer hanswer

theorem failsFast_fitting (number : Option α) :
    (fitting number : Dialogue ρ β α).FailsFast fault := by
  cases number with
  | none => trivial
  | some found => trivial

/-- A question whose answer is read, where reading fails for the fault of the answer. -/
theorem failsFast_question {q : ρ} {read : β → Except Failure α}
    (h : ∀ answer, fault q answer = match read answer with
      | .ok _ => none
      | .error failure => some failure) :
    (Dialogue.question q >>= fun answer => ofExcept (read answer)).FailsFast fault := by
  intro answer
  rw [h]
  cases hread : read answer with
  | ok value =>
    show (ofExcept (read answer) : Dialogue ρ β α).FailsFast fault
    rw [hread]
    trivial
  | error failure =>
    show (ofExcept (read answer) : Dialogue ρ β α) = .failed failure
    rw [hread]
    rfl

/-! ## Runs -/

/-- Whether nothing is the matter with the answers to questions that were asked after others. -/
def AllWell (server : Server ρ β) (fault : ρ → β → Option Failure) (asked all : List ρ) : Prop :=
  ∀ earlier question, asked.length ≤ earlier.length → earlier ++ [question] <+: all →
    faultOf? server fault earlier question = none

theorem allWell_self (asked : List ρ) : AllWell server fault asked asked := by
  intro earlier question hold hfront
  exact absurd hfront (not_prefix_append hold question)

/-- If nothing is the matter with the first answer and those after it, all is well. -/
theorem AllWell.cons {asked all : List ρ} {first : ρ}
    (hfirst : faultOf? server fault asked first = none) (hall : asked ++ [first] <+: all)
    (h : AllWell server fault (asked ++ [first]) all) : AllWell server fault asked all := by
  intro earlier question hold hfront
  by_cases hlater : (asked ++ [first]).length ≤ earlier.length
  · exact h earlier question hlater hfront
  · -- it is the first of them
    have hlength : (earlier ++ [question]).length = (asked ++ [first]).length := by
      simp only [List.length_append, List.length_singleton] at hlater ⊢
      omega
    have hsame : earlier ++ [question] = asked ++ [first] :=
      (List.prefix_of_prefix_length_le hfront hall (Nat.le_of_eq hlength)).eq_of_length hlength
    obtain ⟨rfl, hquestion⟩ := List.append_inj' hsame rfl
    obtain rfl := (List.cons.inj hquestion).1
    exact hfirst

/-- How a run ends that was going on after some questions: with all answers well, or with a failure
that is the matter with the last of them and with none before it. -/
def EndsAtFault (server : Server ρ β) (fault : ρ → β → Option Failure) (asked : List ρ) :
    Outcome α × List ρ → Prop
  | (.done _, all) => AllWell server fault asked all
  | (.failed failure, all) => ∃ earlier question, all = earlier ++ [question] ∧ asked <+: earlier ∧
    AllWell server fault asked earlier ∧ faultOf? server fault earlier question = some failure
  | (.broken _, _) => True

theorem endsAtFault_failed {asked : List ρ} {question : ρ} {failure : Failure}
    (h : faultOf? server fault asked question = some failure) :
    EndsAtFault server fault asked ((.failed failure : Outcome α), asked ++ [question]) :=
  ⟨asked, question, rfl, List.prefix_refl asked, allWell_self asked, h⟩

/-- A run may start with a question whose answer is well. -/
theorem EndsAtFault.cons {asked : List ρ} {first : ρ}
    (hfirst : faultOf? server fault asked first = none) {d : Dialogue ρ β α}
    (h : EndsAtFault server fault (asked ++ [first]) (d.run server (asked ++ [first]))) :
    EndsAtFault server fault asked (d.run server (asked ++ [first])) := by
  have hall := asked_prefix_run server d (asked ++ [first])
  generalize d.run server (asked ++ [first]) = ending at h hall ⊢
  obtain ⟨outcome, all⟩ := ending
  cases outcome with
  | done value => exact AllWell.cons hfirst hall h
  | broken why => trivial
  | failed failure =>
    obtain ⟨earlier, last, hlast, hasked, hearlier, hfault⟩ := h
    exact ⟨earlier, last, hlast, (List.prefix_append _ _).trans hasked,
      hearlier.cons hfirst hasked, hfault⟩

/-- **A run of a dialogue that fails fast ends at the first fault.** -/
theorem FailsFast.run {d : Dialogue ρ β α} (h : d.FailsFast fault) (server : Server ρ β)
    (asked : List ρ) : EndsAtFault server fault asked (d.run server asked) := by
  induction d generalizing asked with
  | done value => exact allWell_self asked
  | failed failure => exact h.elim
  | broken why => trivial
  | ask question next ih =>
    have hfaultOf : ∀ answer, server asked question = .ok answer →
        faultOf? server fault asked question = fault question answer := by
      intro answer hanswer
      rw [faultOf?, hanswer]
    rw [Dialogue.run]
    cases hserver : server asked question with
    | error failure =>
      apply endsAtFault_failed
      rw [faultOf?, hserver]
    | ok answer =>
      have hnext := h answer
      show EndsAtFault server fault asked ((next answer).run server (asked ++ [question]))
      cases hfault : fault question answer with
      | some failure =>
        rw [hfault] at hnext
        rw [hnext]
        exact endsAtFault_failed ((hfaultOf answer hserver).trans hfault)
      | none =>
        rw [hfault] at hnext
        exact (ih answer hnext _).cons ((hfaultOf answer hserver).trans hfault)

end Dialogue

/-! ## Walks -/

namespace PageWindow

open Dialogue

variable {ρ β α γ : Type} {w : PageWindow} {limit : UInt64} {fault : ρ → β → Option Failure}
  {fetch : UInt32 → Dialogue ρ β (Option (Page α))} {gather : List γ → List α → Dialogue ρ β (List γ)}
  (hfetch : ∀ page, (fetch page).FailsFast fault)

include hfetch

section Gathering

variable (hgather : ∀ got items, (gather got items).FailsFast fault)
include hgather

theorem failsFast_walkFrom {patience : Nat} {page : UInt32} {got : List γ} :
    (w.walkFrom limit fetch gather patience page got).FailsFast fault := by
  induction patience generalizing page got with
  | zero => trivial
  | succ patience ih =>
    rw [walkFrom]
    apply (hfetch page).bind
    intro found
    cases found with
    | none => trivial
    | some found =>
      dsimp only
      split
      · trivial
      · apply (hgather got _).bind
        intro all
        split
        · trivial
        · refine (failsFast_fitting _).bind fun last => ?_
          split
          · trivial
          · exact (failsFast_fitting _).bind fun next => ih

/-- **A walk fails at the first fault**, be it of a page or of what is gathered from one. -/
theorem failsFast_walk : (w.walk limit fetch gather).FailsFast fault :=
  (failsFast_fitting _).bind fun _ => failsFast_walkFrom hfetch hgather

end Gathering

theorem failsFast_collect {outputs : α → List γ} :
    (w.collect limit fetch outputs).FailsFast fault := by
  unfold collect
  split
  · trivial
  · have hgather : ∀ got items,
        (gatherPlain limit outputs got items : Dialogue ρ β (List γ)).FailsFast fault :=
      fun _ _ => trivial
    exact failsFast_walk hfetch hgather

end PageWindow
end RemoteTables
