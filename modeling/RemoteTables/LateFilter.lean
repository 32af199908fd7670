import RemoteTables.Constraint

/-!
# Late filters

While a query runs, one side of a join may find out what the other side has to match. It publishes
the constraint it knows, as often as it learns more, then the final one, and may also go away
without one. Whoever makes splits waits a short while for the final constraint. The waiting ends
with that constraint, or because the sender is gone, or because the time is over; and then whatever
was published last has to do. A filter says how things stand when the waiting ends, and in all three
endings the result is the last published constraint (`awaited_eq`).
-/

set_option autoImplicit false

namespace RemoteTables

/-- A constraint that is still being found out. -/
structure LateFilter where
  /-- The constraint published last. -/
  current : Constraint
  /-- Whether that is the final one. -/
  complete : Bool
  /-- Whether the sender is still there. -/
  live : Bool
  deriving DecidableEq

namespace LateFilter

/-- A step of the sender. -/
inductive Step where
  /-- Publishes what is known so far. -/
  | update (c : Constraint)
  /-- Publishes the final constraint. -/
  | complete (c : Constraint)
  /-- Goes away. -/
  | leave

/-- A filter of which nothing is known yet. -/
def fresh : LateFilter := ⟨.all, false, true⟩

/-- A filter that is final from the start and restricts nothing. -/
def empty : LateFilter := ⟨.all, true, false⟩

/-- The filter after a step of its sender; a sender that is gone takes no more steps. -/
def step? (f : LateFilter) : Step → Option LateFilter
  | .update c => if f.live then some { f with current := c, complete := false } else none
  | .complete c => if f.live then some { f with current := c, complete := true } else none
  | .leave => some { f with live := false }

/-- How waiting for the final constraint ends. -/
inductive Ending where
  /-- The final constraint is there. -/
  | complete (c : Constraint)
  /-- The sender has gone away without one. -/
  | senderGone
  /-- The sender is still there, but the time is over. -/
  | timeOver

/-- The final constraint comes first: it is looked for before the sender is missed, and nobody whose
time is over goes without it. -/
def ending (f : LateFilter) : Ending :=
  if f.complete then .complete f.current
  else if f.live then .timeOver
  else .senderGone

/-- Waits for the final constraint, and takes the last one if it does not come. -/
def awaited (f : LateFilter) : Constraint :=
  match f.ending with
  | .complete c => c
  | .senderGone => f.current
  | .timeOver => f.current

/-- **Waiting has one result in all of its endings.** -/
@[simp]
theorem awaited_eq (f : LateFilter) : f.awaited = f.current := by
  unfold awaited ending
  split
  · rename_i c hcomplete
    split at hcomplete
    · exact (Ending.complete.inj hcomplete).symm
    · split at hcomplete <;> cases hcomplete
  · rfl
  · rfl

end LateFilter
end RemoteTables
