import RemoteTables.Listing.Collect
import RemoteTables.Proofs.Listing.Pages
import RemoteTables.Proofs.Dialogue.Truncation

/-!
# What is asked, and when

`Dialogue.Keeps` speaks of every question that a dialogue asks a server, and of the value that it
comes to, each time with the questions that were asked earlier. Since a server is a function of
these, they also say what it has answered so far, so it can be said of a question that a part of it
stood in an earlier answer. The property goes through a dialogue part by part (`Keeps.bind`), and in
a run every question has it at its turn (`Keeps.questions`).

A walk through a listing asks for the pages of its window and nothing else of its own. Which pages
these are is fixed before the first answer (`PageWindow.pageAt`); the answers only say how many of
them are asked for (`keeps_walkFrom`).
-/

set_option autoImplicit false

namespace RemoteTables
namespace Dialogue

variable {ρ β α γ : Type} {server : Server ρ β} {p q : List ρ → ρ → Prop}
  {v w : List ρ → α → Prop}

/-- Whether every question that a dialogue asks a server has the property `p`, and its value the
property `v`, given what was asked before. -/
def Keeps (server : Server ρ β) (p : List ρ → ρ → Prop) (v : List ρ → α → Prop) :
    Dialogue ρ β α → List ρ → Prop
  | done value, asked => v asked value
  | failed _, _ | broken _, _ => True
  | ask question next, asked => p asked question ∧
    ∀ answer, server asked question = .ok answer →
      (next answer).Keeps server p v (asked ++ [question])

theorem Keeps.bind {d : Dialogue ρ β α} {f : α → Dialogue ρ β γ} {u : List ρ → γ → Prop}
    {asked : List ρ} (h : d.Keeps server p v asked)
    (hf : ∀ later value, asked <+: later → v later value → (f value).Keeps server p u later) :
    (d >>= f).Keeps server p u asked := by
  induction d generalizing asked with
  | done value => exact hf asked value (List.prefix_refl _) h
  | failed failure => trivial
  | broken why => trivial
  | ask question next ih =>
    refine ⟨h.1, fun answer hanswer => ih answer (h.2 answer hanswer) fun later value hlater => ?_⟩
    exact hf later value ((List.prefix_append _ _).trans hlater)

theorem Keeps.mono {d : Dialogue ρ β α} {asked : List ρ} (h : d.Keeps server p v asked)
    (hpq : ∀ later question, p later question → q later question) :
    d.Keeps server q v asked := by
  induction d generalizing asked with
  | done value => exact h
  | failed failure => trivial
  | broken why => trivial
  | ask question next ih =>
    exact ⟨hpq asked question h.1, fun answer hanswer => ih answer (h.2 answer hanswer)⟩

theorem Keeps.value_mono {d : Dialogue ρ β α} {asked : List ρ} (h : d.Keeps server p v asked)
    (hvw : ∀ later value, v later value → w later value) : d.Keeps server p w asked := by
  induction d generalizing asked with
  | done value => exact hvw asked value h
  | failed failure => trivial
  | broken why => trivial
  | ask question next ih => exact ⟨h.1, fun answer hanswer => ih answer (h.2 answer hanswer)⟩

/-- While a dialogue goes on, what was asked at the start stays asked. -/
theorem Keeps.since {d : Dialogue ρ β α} {start asked : List ρ}
    (h : d.Keeps server (fun later question => start <+: later → p later question) v asked)
    (hstart : start <+: asked) : d.Keeps server p v asked := by
  induction d generalizing asked with
  | done value => exact h
  | failed failure => trivial
  | broken why => trivial
  | ask question next ih =>
    exact ⟨h.1 hstart, fun answer hanswer =>
      ih answer (h.2 answer hanswer) (hstart.trans (List.prefix_append _ _))⟩

theorem keeps_ofExcept {value : Except Failure α} {asked : List ρ}
    (h : ∀ found, value = .ok found → v asked found) :
    (ofExcept value : Dialogue ρ β α).Keeps server p v asked := by
  cases value with
  | error failure => trivial
  | ok found => exact h found rfl

theorem keeps_ofExcept_bind {value : Except Failure α} {f : α → Dialogue ρ β γ}
    {u : List ρ → γ → Prop} {asked : List ρ}
    (h : ∀ found, value = .ok found → (f found).Keeps server p u asked) :
    (ofExcept value >>= f).Keeps server p u asked := by
  cases value with
  | error failure => trivial
  | ok found => exact h found rfl

theorem keeps_fitting {number : Option α} {asked : List ρ}
    (h : ∀ found, number = some found → v asked found) :
    (fitting number : Dialogue ρ β α).Keeps server p v asked := by
  cases number with
  | none => trivial
  | some found => exact h found rfl

/-- A question that comes after everything in a list is not in front of it. -/
theorem not_prefix_append {asked earlier : List ρ} (h : asked.length ≤ earlier.length)
    (question : ρ) : ¬ earlier ++ [question] <+: asked := fun hfront => by
  have hlength := hfront.length_le
  rw [List.length_append, List.length_singleton] at hlength
  omega

/-- A question that a run adds has the property, given what was asked before it. -/
theorem Keeps.run {d : Dialogue ρ β α} {asked earlier : List ρ} {question : ρ}
    (h : d.Keeps server p v asked) (hold : asked.length ≤ earlier.length)
    (hfront : earlier ++ [question] <+: (d.run server asked).2) : p earlier question := by
  induction d generalizing asked with
  | done value => exact absurd hfront (not_prefix_append hold question)
  | failed failure => exact absurd hfront (not_prefix_append hold question)
  | broken why => exact absurd hfront (not_prefix_append hold question)
  | ask first next ih =>
    -- it is either the first question of the run or one of those that follow
    have hfirst (heq : earlier ++ [question] = asked ++ [first]) : p earlier question := by
      obtain ⟨rfl, hquestion⟩ := List.append_inj' heq rfl
      rw [List.cons.inj hquestion |>.1]
      exact h.1
    rw [Dialogue.run] at hfront
    split at hfront
    next answer hanswer =>
      by_cases hlater : (asked ++ [first]).length ≤ earlier.length
      · exact ih answer (h.2 answer hanswer) hlater hfront
      · have hlength : (earlier ++ [question]).length = (asked ++ [first]).length := by
          simp only [List.length_append, List.length_singleton] at hlater ⊢
          omega
        have hnext := asked_prefix_run server (next answer) (asked ++ [first])
        exact hfirst ((List.prefix_of_prefix_length_le hfront hnext
          (Nat.le_of_eq hlength)).eq_of_length hlength)
    next failure _ =>
      exact hfirst (hfront.eq_of_length_le (by simpa using hold))

/-- **Every question of a run has the property at its turn.** -/
theorem Keeps.questions {d : Dialogue ρ β α} {earlier : List ρ} {question : ρ}
    (h : d.Keeps server p v []) (hasked : earlier ++ [question] <+: d.questions server) :
    p earlier question :=
  h.run (Nat.zero_le _) hasked

end Dialogue

namespace PageWindow

open Dialogue

variable {ρ β α γ : Type} {w : PageWindow}

variable {fetch : UInt32 → Dialogue ρ β (Option (Page α))}
  {gather : List γ → List α → Dialogue ρ β (List γ)} {server : Server ρ β}
  {p : List ρ → ρ → Prop} {v : List ρ → α → Prop} {limit : UInt64}
  (hfetch : ∀ asked passed, (fetch (w.pageAt passed)).Keeps server p
    (fun later found => ∀ page ∈ found, ∀ item ∈ page.items.getD [], v later item) asked)

include hfetch

section Gathering

variable (hgather : ∀ asked got items, (∀ item ∈ items, v asked item) →
  (gather got items).Keeps server p (fun _ _ => True) asked)

include hgather

/-- A walk asks what fetching its pages asks, and gathering from what they hold. -/
theorem keeps_walkFrom {patience passed : Nat} (hnumber : w.number passed < UInt32.size)
    {got : List γ} {asked : List ρ} :
    (w.walkFrom limit fetch gather patience (w.pageAt passed) got).Keeps server p
      (fun _ _ => True) asked := by
  induction patience generalizing passed got asked with
  | zero => trivial
  | succ patience ih =>
    rw [walkFrom]
    refine (hfetch asked passed).bind fun later found _ hfound => ?_
    cases found with
    | none => trivial
    | some found =>
      dsimp only
      split
      · trivial
      · refine (hgather later got _ (hfound found rfl)).bind fun latest all _ _ => ?_
        split
        · trivial
        · refine (keeps_fitting (v := fun _ _ => True) fun _ _ => trivial).bind fun _ last _ _ => ?_
          split
          · trivial
          · rw [nextPage?_pageAt hnumber]
            refine (keeps_fitting (v := fun _ next => page? _ = some next) fun _ h => h).bind
              fun _ next _ hnext => ?_
            obtain ⟨hfits, rfl⟩ := page?_eq_some_iff.mp hnext
            exact ih hfits

theorem keeps_walk {asked : List ρ} :
    (w.walk limit fetch gather).Keeps server p (fun _ _ => True) asked := by
  rw [walk, firstPage?_eq]
  refine (keeps_fitting (v := fun _ first => page? _ = some first) fun _ h => h).bind
    fun _ first _ hfirst => ?_
  obtain ⟨hfits, rfl⟩ := page?_eq_some_iff.mp hfirst
  exact keeps_walkFrom hfetch hgather hfits

end Gathering

/-- Collecting asks for pages only. -/
theorem keeps_collect {outputs : α → List γ} {asked : List ρ} :
    (w.collect limit fetch outputs).Keeps server p (fun _ _ => True) asked := by
  unfold collect
  split
  · trivial
  · have hgather : ∀ asked got items, (∀ item ∈ items, v asked item) →
        (gatherPlain limit outputs got items).Keeps server p (fun _ _ => True) asked :=
      fun _ _ _ _ => trivial
    exact keeps_walk hfetch hgather

end PageWindow
end RemoteTables
