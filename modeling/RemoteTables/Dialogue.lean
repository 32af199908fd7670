import RemoteTables.Failure

/-!
# Dialogues

To read a table, questions are put to a server and what is asked next depends on the answers so far.
A `Dialogue` is that dependence and nothing else: a tree whose nodes are questions and whose
branches are the answers. It is plain data, so what a fetch may ask, and in which order, can be said
without a server, by induction on the tree.

A server is a function from the questions asked earlier and the present one to its answer, and
`Dialogue.run` goes down the one branch that the answers choose. A server that does not look at the
history is one that always says the same. Its failure ends the dialogue on the spot: nothing is
tried again, and nothing gathered so far is kept.

A dialogue may also be `broken` off, with neither a value nor a failure (`Break`). Trees are finite,
so a listing that never ends has to be cut off somewhere, and where it is cut off the tree says so.
And where a number does not fit its type, the calculation stops there, whatever is still to be asked.
-/

set_option autoImplicit false

namespace RemoteTables

/-- Why nothing comes of a dialogue. -/
inductive Break where
  /-- It goes on for longer than anyone waits. -/
  | endless
  /-- It needs a number that does not fit its type. -/
  | overflow
  deriving DecidableEq

/-- What to ask, given the answers so far, and what comes of it. -/
inductive Dialogue (ρ β α : Type) where
  | done (value : α)
  | failed (failure : Failure)
  | broken (why : Break)
  | ask (question : ρ) (next : β → Dialogue ρ β α)

/-- How a dialogue ends. -/
inductive Outcome (α : Type) where
  | done (value : α)
  | failed (failure : Failure)
  | broken (why : Break)
  deriving DecidableEq

/-- A server: its answer to a question, when the earlier questions are the listed ones. -/
abbrev Server (ρ β : Type) := List ρ → ρ → Except Failure β

namespace Dialogue

variable {ρ β α γ : Type}

/-! ## Putting dialogues together -/

/-- One dialogue, and then another that depends on what came of the first. -/
protected def bind (d : Dialogue ρ β α) (f : α → Dialogue ρ β γ) : Dialogue ρ β γ :=
  match d with
  | done value => f value
  | failed failure => failed failure
  | broken why => broken why
  | ask question next => ask question fun answer => (next answer).bind f

instance : Monad (Dialogue ρ β) where
  pure := done
  bind := Dialogue.bind

@[simp] theorem done_bind (value : α) (f : α → Dialogue ρ β γ) :
    (done value >>= f) = f value := rfl

@[simp] theorem failed_bind (failure : Failure) (f : α → Dialogue ρ β γ) :
    ((failed failure : Dialogue ρ β α) >>= f) = failed failure := rfl

@[simp] theorem broken_bind (why : Break) (f : α → Dialogue ρ β γ) :
    ((broken why : Dialogue ρ β α) >>= f) = broken why := rfl

@[simp] theorem ask_bind (question : ρ) (next : β → Dialogue ρ β α) (f : α → Dialogue ρ β γ) :
    (ask question next >>= f) = ask question fun answer => next answer >>= f := rfl

/-- One question, which comes to its answer. -/
def question (q : ρ) : Dialogue ρ β β := ask q done

/-- A result that needs no question. -/
def ofExcept : Except Failure α → Dialogue ρ β α
  | .ok value => done value
  | .error failure => failed failure

/-- A number that has been checked to fit; if it does not, the dialogue is broken off. -/
def fitting : Option α → Dialogue ρ β α
  | some number => done number
  | none => broken .overflow

/-! ## Holding a dialogue with a server -/

/-- The end of a dialogue with a server, and all the questions asked, with those asked before. -/
def run (server : Server ρ β) (asked : List ρ) : Dialogue ρ β α → Outcome α × List ρ
  | done value => (.done value, asked)
  | failed failure => (.failed failure, asked)
  | broken why => (.broken why, asked)
  | ask question next =>
    match server asked question with
    | .ok answer => (next answer).run server (asked ++ [question])
    | .error failure => (.failed failure, asked ++ [question])

/-- How a dialogue with a server ends. -/
def outcome (server : Server ρ β) (d : Dialogue ρ β α) : Outcome α := (d.run server []).1

/-- What a dialogue asks a server, in order. -/
def questions (server : Server ρ β) (d : Dialogue ρ β α) : List ρ := (d.run server []).2

end Dialogue
end RemoteTables
