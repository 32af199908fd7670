import RemoteTables.Dialogue

/-!
# Dialogues cut short

A dialogue that gathers rows may stop early because a limit is met. `Cut k` says when one dialogue is
another one cut short at `k` rows: it asks the same and comes to the first `k` rows of the other, or
it stops on the way, with `k` rows that every ending of the other has in front.

The relation is between trees, so it speaks of every server at once, also of one that answers
differently each time. What follows for a run with a server is `Cut.run`. Where the whole dialogue
is broken off, nothing is asked of the one cut short.

`Gives` is the property of every value that a dialogue may come to.
-/

set_option autoImplicit false

namespace RemoteTables
namespace Dialogue

variable {ρ β α γ : Type}

/-! ## What a dialogue may come to -/

/-- Whether every value that the dialogue may come to, whatever the answers, has a property. -/
def Gives (p : α → Prop) : Dialogue ρ β α → Prop
  | done value => p value
  | failed _ | broken _ => True
  | ask _ next => ∀ answer, (next answer).Gives p

theorem Gives.bind {d : Dialogue ρ β α} {f : α → Dialogue ρ β γ} {p : α → Prop} {q : γ → Prop}
    (h : d.Gives p) (hf : ∀ value, p value → (f value).Gives q) : (d >>= f).Gives q := by
  induction d with
  | done value => exact hf value h
  | failed failure => trivial
  | broken why => trivial
  | ask question next ih => exact fun answer => ih answer (h answer)

theorem gives_true (d : Dialogue ρ β α) : d.Gives fun _ => True := by
  induction d with
  | done value => trivial
  | failed failure => trivial
  | broken why => trivial
  | ask question next ih => exact ih

theorem Gives.mono {d : Dialogue ρ β α} {p q : α → Prop} (h : d.Gives p)
    (hpq : ∀ value, p value → q value) : d.Gives q := by
  induction d with
  | done value => exact hpq value h
  | failed failure => trivial
  | broken why => trivial
  | ask question next ih => exact fun answer => ih answer (h answer)

/-- A step that changes none of the values that it may get can be left out. -/
theorem Gives.bind_eq {d : Dialogue ρ β α} {f : α → Dialogue ρ β α}
    (h : d.Gives fun value => f value = done value) : d >>= f = d := by
  induction d with
  | done value => exact h
  | failed failure => rfl
  | broken why => rfl
  | ask question next ih => exact congrArg (ask question) (funext fun answer => ih answer (h answer))

/-- What a dialogue comes to with a server is one of the values that it may come to. -/
theorem Gives.run {d : Dialogue ρ β α} {p : α → Prop} (h : d.Gives p) {server : Server ρ β}
    {asked asked' : List ρ} {value : α} (hrun : d.run server asked = (.done value, asked')) :
    p value := by
  induction d generalizing asked with
  | done value' =>
    obtain rfl := Outcome.done.inj (congrArg Prod.fst hrun)
    exact h
  | failed failure => cases hrun
  | broken why => cases hrun
  | ask question next ih =>
    rw [Dialogue.run] at hrun
    split at hrun
    · exact ih _ (h _) hrun
    · cases hrun

/-- What was asked before is never taken back. -/
theorem asked_prefix_run (server : Server ρ β) (d : Dialogue ρ β α) (asked : List ρ) :
    asked <+: (d.run server asked).2 := by
  induction d generalizing asked with
  | done value => exact List.prefix_refl asked
  | failed failure => exact List.prefix_refl asked
  | broken why => exact List.prefix_refl asked
  | ask question next ih =>
    rw [Dialogue.run]
    split
    · exact (List.prefix_append asked [question]).trans (ih _ _)
    · exact List.prefix_append asked [question]

/-! ## Cutting short -/

/-- One dialogue is another one cut short at `k` rows. -/
inductive Cut (k : Nat) : Dialogue ρ β (List γ) → Dialogue ρ β (List γ) → Prop where
  | done (rows : List γ) : Cut k (done (rows.take k)) (done rows)
  | failed (failure : Failure) : Cut k (failed failure) (failed failure)
  | broken (d : Dialogue ρ β (List γ)) (why : Break) : Cut k d (broken why)
  | ask (question : ρ) {next whole : β → Dialogue ρ β (List γ)}
    (h : ∀ answer, Cut k (next answer) (whole answer)) : Cut k (ask question next) (ask question whole)
  /-- The limit is met, and the rows stand in front of whatever the whole comes to. -/
  | full {rows : List γ} {whole : Dialogue ρ β (List γ)} (hlength : rows.length = k)
    (hfront : whole.Gives (rows <+: ·)) : Cut k (done rows) whole

/-- How an ending with its questions compares with another one that was not cut short at `k` rows. -/
structure TruncatedAt (k : Nat) (part whole : Outcome (List γ) × List ρ) : Prop where
  /-- If the whole comes to rows, the part comes to the first `k` of them. -/
  done : ∀ rows, whole.1 = .done rows → part.1 = .done (rows.take k)
  /-- If the whole fails, the part fails alike, or has its `k` rows before. -/
  failed : ∀ failure, whole.1 = .failed failure →
    part.1 = .failed failure ∨ ∃ rows, rows.length = k ∧ part.1 = .done rows
  /-- What the part asks, the whole asks first. -/
  asks : (∀ why, whole.1 ≠ .broken why) → part.2 <+: whole.2

namespace Cut

variable {k : Nat}

/-- A dialogue that comes to the same rows on both sides, and too few to be cut. -/
theorem same {rows : List γ} (h : rows.length ≤ k) :
    Cut k (Dialogue.done rows : Dialogue ρ β (List γ)) (.done rows) := by
  have hcut : Cut k (Dialogue.done (rows.take k) : Dialogue ρ β (List γ)) (.done rows) := .done rows
  rwa [List.take_of_length_le h] at hcut

theorem bind_left (d : Dialogue ρ β α) {f whole : α → Dialogue ρ β (List γ)}
    (h : ∀ value, Cut k (f value) (whole value)) : Cut k (d >>= f) (d >>= whole) := by
  induction d with
  | done value => exact h value
  | failed failure => exact .failed failure
  | broken why => exact .broken _ why
  | ask question next ih => exact .ask question ih

/-- **Going on after a dialogue that was cut short.** The rows gathered before it stand in front. As
long as the limit is not met both sides go on alike; once it is met, the one side stops, and the
other only adds rows. -/
theorem bind_append {d whole : Dialogue ρ β (List γ)} {got : List γ} {m : Nat}
    (hm : got.length + m = k) (h : Cut m d whole) {f g : List γ → Dialogue ρ β (List γ)}
    (hgo : ∀ rows, rows.length < k → Cut k (f rows) (g rows))
    (hstop : ∀ rows, rows.length = k → f rows = .done rows)
    (hadd : ∀ rows, (g rows).Gives (rows <+: ·)) :
    Cut k (d >>= fun more => f (got ++ more)) (whole >>= fun more => g (got ++ more)) := by
  induction h with
  | done rows =>
    show Cut k (f (got ++ rows.take m)) (g (got ++ rows))
    rcases Nat.lt_or_ge rows.length m with hlt | hge
    · -- not cut yet, so both go on with the same rows
      rw [List.take_of_length_le (Nat.le_of_lt hlt)]
      exact hgo _ (by rw [List.length_append]; omega)
    · -- cut here: the one side stops with the rows that the other side starts with
      have hlength : (got ++ rows.take m).length = k := by
        rw [List.length_append, List.length_take]
        omega
      rw [hstop _ hlength]
      refine .full hlength ((hadd (got ++ rows)).mono fun all hall => ?_)
      exact ((List.prefix_append_right_inj got).mpr (List.take_prefix m rows)).trans hall
  | failed failure => exact .failed failure
  | broken d why => exact .broken _ why
  | ask question _ ih => exact .ask question ih
  | @full rows whole hlength hfront =>
    show Cut k (f (got ++ rows)) (whole >>= fun more => g (got ++ more))
    have hlength' : (got ++ rows).length = k := by
      rw [List.length_append]
      omega
    rw [hstop _ hlength']
    refine .full hlength' (hfront.bind fun more hmore => (hadd (got ++ more)).mono fun all hall => ?_)
    exact ((List.prefix_append_right_inj got).mpr hmore).trans hall

theorem bind {d whole : Dialogue ρ β (List γ)} (h : Cut k d whole)
    {f g : List γ → Dialogue ρ β (List γ)}
    (hgo : ∀ rows, rows.length < k → Cut k (f rows) (g rows))
    (hstop : ∀ rows, rows.length = k → f rows = .done rows)
    (hadd : ∀ rows, (g rows).Gives (rows <+: ·)) : Cut k (d >>= f) (whole >>= g) := by
  show Cut k (d >>= fun more => f ([] ++ more)) (whole >>= fun more => g ([] ++ more))
  exact bind_append (Nat.zero_add k) h hgo hstop hadd

/-- **What a server makes of a dialogue that was cut short** is what it makes of the whole, cut
short. -/
theorem run {d whole : Dialogue ρ β (List γ)} (h : Cut k d whole) (server : Server ρ β)
    (asked : List ρ) : TruncatedAt k (d.run server asked) (whole.run server asked) := by
  induction h generalizing asked with
  | done rows =>
    refine ⟨fun rows' hrows => ?_, fun failure hfailure => ?_, fun _ => List.prefix_refl asked⟩
    · obtain rfl := Outcome.done.inj hrows
      rfl
    · cases hfailure
  | failed failure =>
    refine ⟨fun rows hrows => ?_, fun failure' hfailure => Or.inl hfailure,
      fun _ => List.prefix_refl asked⟩
    cases hrows
  | broken d why =>
    refine ⟨fun rows hrows => ?_, fun failure hfailure => ?_, fun hends => absurd rfl (hends why)⟩
    · cases hrows
    · cases hfailure
  | ask question _ ih =>
    rw [Dialogue.run, Dialogue.run]
    cases server asked question with
    | ok answer => exact ih answer _
    | error failure =>
      refine ⟨fun rows hrows => ?_, fun failure' hfailure => Or.inl hfailure,
        fun _ => List.prefix_refl _⟩
      cases hrows
  | @full rows whole hlength hfront =>
    refine ⟨fun all hall => ?_, fun failure _ => Or.inr ⟨rows, hlength, rfl⟩,
      fun _ => asked_prefix_run server whole asked⟩
    have hprefix : rows <+: all := hfront.run (Prod.ext hall rfl)
    rw [← hlength, ← List.prefix_iff_eq_take.mp hprefix]
    rfl

end Cut
end Dialogue
end RemoteTables
