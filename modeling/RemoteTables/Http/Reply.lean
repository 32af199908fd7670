import RemoteTables.Failure

/-!
# Replies

A reply has a status, the address it came from and a body. A status of the two hundreds means that
the body is what was asked for, and has to decode; "not found" means that there is nothing, which is
no failure; with any other status the request has failed, and the body says why.
-/

set_option autoImplicit false

namespace RemoteTables

/-- What a server sends back. -/
structure Reply where
  status : Nat
  url : String
  body : String
  deriving DecidableEq, Inhabited

/-- What a reply carries; `none` if there is no such resource. -/
def Reply.read {α : Type} (decode : Decoder α) (r : Reply) : Except Failure (Option α) :=
  if 200 ≤ r.status ∧ r.status < 300 then
    match decode.text r.body with
    | .ok value => .ok (some value)
    | .error fault => .error (.decode fault)
  else if r.status = 404 then .ok none
  else .error (.backend r.status r.url (if r.body.isEmpty then none else some r.body))

end RemoteTables
