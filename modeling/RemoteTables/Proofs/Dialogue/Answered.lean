import RemoteTables.Dialogue

/-!
# Dialogues with a server that always says the same

Such a server is a function from questions to answers, and nothing that was asked before matters. So
the ending of a dialogue with it is read off the tree (`answered`), and the ending of one dialogue
and then another is that of the second on the value of the first (`answered_bind`).
-/

set_option autoImplicit false

namespace RemoteTables

/-- The server that gives every question its answer, whatever was asked before. -/
def Server.static {ρ β : Type} (answer : ρ → β) : Server ρ β := fun _ question => .ok (answer question)

namespace Dialogue

variable {ρ β α γ : Type} (answer : ρ → β)

/-- How a dialogue ends when every question has its answer. -/
def answered : Dialogue ρ β α → Outcome α
  | done value => .done value
  | failed failure => .failed failure
  | broken why => .broken why
  | ask question next => (next (answer question)).answered

theorem run_static (d : Dialogue ρ β α) (asked : List ρ) :
    (d.run (.static answer) asked).1 = d.answered answer := by
  induction d generalizing asked with
  | done value => rfl
  | failed failure => rfl
  | broken why => rfl
  | ask question next ih => exact ih _ _

theorem outcome_static (d : Dialogue ρ β α) : d.outcome (.static answer) = d.answered answer :=
  run_static answer d []

variable {answer}

theorem answered_bind {d : Dialogue ρ β α} {value : α} (h : d.answered answer = .done value)
    (f : α → Dialogue ρ β γ) : (d >>= f).answered answer = (f value).answered answer := by
  induction d with
  | done value' =>
    obtain rfl := Outcome.done.inj h
    rfl
  | failed failure => cases h
  | broken why => cases h
  | ask question next ih => exact ih _ h

end Dialogue
end RemoteTables
