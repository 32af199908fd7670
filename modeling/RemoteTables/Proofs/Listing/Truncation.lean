import RemoteTables.Proofs.Dialogue.Truncation
import RemoteTables.Listing.Collect

/-!
# A limit cuts a listing short

A walk through a listing under a limit is the walk under any higher limit, cut short
(`cut_walkFrom`). This holds for every way of gathering rows that itself is only cut short by the
limit, and never takes back a row.

What is gathered before a page is below the limit, on both sides. That is the invariant of the walk:
a side that has met its limit has ended.
-/

set_option autoImplicit false

namespace RemoteTables
namespace PageWindow

open Dialogue

variable {ρ β α γ : Type} {w : PageWindow} {fetch : UInt32 → Dialogue ρ β (Option (Page α))}

/-! ## What a walk keeps -/

/-- **What every step of gathering keeps, a walk keeps.** Steps are only taken below the limit. -/
theorem gives_walkFrom {limit : UInt64} {gather : List γ → List α → Dialogue ρ β (List γ)}
    {p : List γ → Prop}
    (hgather : ∀ got items, got.length < limit.toNat → p got → (gather got items).Gives p)
    {patience : Nat} {page : UInt32} {got : List γ} (hgot : got.length < limit.toNat)
    (hp : p got) : (w.walkFrom limit fetch gather patience page got).Gives p := by
  induction patience generalizing page got with
  | zero => trivial
  | succ patience ih =>
    rw [walkFrom]
    refine (gives_true _).bind fun found _ => ?_
    cases found with
    | none => exact hp
    | some found =>
      dsimp only
      split
      · exact hp
      · refine (hgather got _ hgot hp).bind fun all hall => ?_
        split
        · exact hall
        · rename_i hbelow
          refine (gives_true _).bind fun last _ => ?_
          split
          · exact hall
          · exact (gives_true _).bind fun next _ => ih (Nat.lt_of_not_le hbelow) hall

theorem gives_walk {limit : UInt64} {gather : List γ → List α → Dialogue ρ β (List γ)}
    {p : List γ → Prop}
    (hgather : ∀ got items, got.length < limit.toNat → p got → (gather got items).Gives p)
    (hlimit : limit ≠ 0) (hp : p []) : (w.walk limit fetch gather).Gives p :=
  (gives_true _).bind fun _ _ => gives_walkFrom hgather
    (UInt64.lt_iff_toNat_lt.mp (UInt64.pos_iff_ne_zero.mpr hlimit)) hp

theorem gives_gatherPlain {limit : UInt64} {outputs : α → List γ} {got : List γ} {items : List α}
    {p : List γ → Prop} (h : p ((got ++ items.flatMap outputs).take limit.toNat)) :
    (gatherPlain limit outputs got items : Dialogue ρ β (List γ)).Gives p := h

/-- Whatever is true of all outputs is true of all that is collected. -/
theorem gives_collect {limit : UInt64} {outputs : α → List γ} {p : γ → Prop}
    (h : ∀ item, ∀ output ∈ outputs item, p output) :
    (w.collect limit fetch outputs).Gives fun rows => ∀ row ∈ rows, p row := by
  unfold collect
  split
  · exact fun _ hrow => absurd hrow List.not_mem_nil
  · rename_i hpositive
    refine gives_walk (fun got items _ hgot => gives_gatherPlain fun row hrow => ?_) hpositive
      fun _ hrow => absurd hrow List.not_mem_nil
    rcases List.mem_append.mp (List.mem_of_mem_take hrow) with hrow | hrow
    · exact hgot row hrow
    · obtain ⟨item, -, hrow⟩ := List.mem_flatMap.mp hrow
      exact h item row hrow

/-- A walk only gathers onto rows that are no more than the limit. -/
theorem walkFrom_congr {limit : UInt64} {gather other : List γ → List α → Dialogue ρ β (List γ)}
    (h : ∀ got items, got.length ≤ limit.toNat → gather got items = other got items)
    {patience : Nat} {page : UInt32} {got : List γ} (hgot : got.length ≤ limit.toNat) :
    w.walkFrom limit fetch gather patience page got =
      w.walkFrom limit fetch other patience page got := by
  induction patience generalizing page got with
  | zero => rfl
  | succ patience ih =>
    rw [walkFrom, walkFrom]
    refine congrArg (fetch page >>= ·) (funext fun found => ?_)
    cases found with
    | none => rfl
    | some found =>
      dsimp only
      split
      · rfl
      · rw [h got _ hgot]
        refine congrArg (other got _ >>= ·) (funext fun all => ?_)
        split
        · rfl
        · rename_i hbelow
          have hnext : ∀ next, w.walkFrom limit fetch gather patience next all =
              w.walkFrom limit fetch other patience next all :=
            fun _ => ih (Nat.le_of_lt (Nat.lt_of_not_le hbelow))
          simp only [hnext]

theorem walk_congr {limit : UInt64} {gather other : List γ → List α → Dialogue ρ β (List γ)}
    (h : ∀ got items, got.length ≤ limit.toNat → gather got items = other got items) :
    w.walk limit fetch gather = w.walk limit fetch other :=
  congrArg (fitting w.firstPage? >>= ·) (funext fun _ => walkFrom_congr h (Nat.zero_le _))

/-! ## Two walks -/

variable {limit whole : UInt64} (hle : limit ≤ whole)
  {gather gatherAll : List γ → List α → Dialogue ρ β (List γ)}

include hle in
/-- **A walk under a limit is the walk under a higher one, cut short.** -/
theorem cut_walkFrom
    (hgather : ∀ got items, got.length < limit.toNat →
      Cut limit.toNat (gather got items) (gatherAll got items))
    (hadd : ∀ got items, got.length < whole.toNat → (gatherAll got items).Gives (got <+: ·))
    {patience : Nat} {page : UInt32} {got : List γ} (hgot : got.length < limit.toNat) :
    Cut limit.toNat (w.walkFrom limit fetch gather patience page got)
      (w.walkFrom whole fetch gatherAll patience page got) := by
  have hle' : limit.toNat ≤ whole.toNat := UInt64.le_iff_toNat_le.mp hle
  have hfront : ∀ {patience : Nat} {page : UInt32} {rows : List γ}, rows.length < whole.toNat →
      (w.walkFrom whole fetch gatherAll patience page rows).Gives (rows <+: ·) :=
    fun hrows => gives_walkFrom (fun got items hlt hgot =>
      (hadd got items hlt).mono fun _ => hgot.trans) hrows (List.prefix_refl _)
  induction patience generalizing page got with
  | zero => exact .broken _ .endless
  | succ patience ih =>
    rw [walkFrom, walkFrom]
    refine .bind_left _ fun found => ?_
    cases found with
    | none => exact .same (Nat.le_of_lt hgot)
    | some found =>
      dsimp only
      split
      · exact .same (Nat.le_of_lt hgot)
      · refine .bind (hgather got _ hgot) (fun rows hrows => ?_) (fun rows hrows => ?_)
          fun rows => ?_
        · -- neither limit is met
          rw [if_neg (Nat.not_le.mpr hrows), if_neg (show ¬whole.toNat ≤ rows.length by omega)]
          refine .bind_left _ fun last => ?_
          split
          · exact .same (Nat.le_of_lt hrows)
          · exact .bind_left _ fun next => ih hrows
        · rw [if_pos (Nat.le_of_eq hrows.symm)]
          rfl
        · split
          · exact List.prefix_refl rows
          · rename_i hbelow
            refine (gives_true _).bind fun last _ => ?_
            split
            · exact List.prefix_refl rows
            · exact (gives_true _).bind fun next _ => hfront (Nat.lt_of_not_le hbelow)

include hle

theorem cut_walk
    (hgather : ∀ got items, got.length < limit.toNat →
      Cut limit.toNat (gather got items) (gatherAll got items))
    (hadd : ∀ got items, got.length < whole.toNat → (gatherAll got items).Gives (got <+: ·))
    (hlimit : limit ≠ 0) : Cut limit.toNat (w.walk limit fetch gather) (w.walk whole fetch gatherAll) :=
  .bind_left _ fun _ => cut_walkFrom hle hgather hadd
    (UInt64.lt_iff_toNat_lt.mp (UInt64.pos_iff_ne_zero.mpr hlimit))

theorem cut_gatherPlain (outputs : α → List γ) {got : List γ} (items : List α) :
    Cut limit.toNat (gatherPlain limit outputs got items : Dialogue ρ β (List γ))
      (gatherPlain whole outputs got items) := by
  have hle' : limit.toNat ≤ whole.toNat := UInt64.le_iff_toNat_le.mp hle
  have hcut : Cut limit.toNat
      (Dialogue.done (((got ++ items.flatMap outputs).take whole.toNat).take limit.toNat) :
        Dialogue ρ β (List γ)) (.done ((got ++ items.flatMap outputs).take whole.toNat)) := .done _
  rwa [List.take_take, Nat.min_eq_left hle'] at hcut

/-- **Collecting under a limit is collecting under a higher one, cut short.** -/
theorem cut_collect (outputs : α → List γ) :
    Cut limit.toNat (w.collect limit fetch outputs) (w.collect whole fetch outputs) := by
  unfold collect
  by_cases hzero : limit = 0
  · subst hzero
    rw [if_pos rfl]
    exact .full rfl ((gives_true _).mono fun rows _ => List.nil_prefix)
  · have hpositive : 0 < limit.toNat :=
      UInt64.lt_iff_toNat_lt.mp (UInt64.pos_iff_ne_zero.mpr hzero)
    have hle' : limit.toNat ≤ whole.toNat := UInt64.le_iff_toNat_le.mp hle
    have hwhole : whole ≠ 0 := by
      rintro rfl
      exact Nat.lt_irrefl 0 (Nat.lt_of_lt_of_le hpositive hle')
    rw [if_neg hzero, if_neg hwhole]
    refine cut_walk hle (fun got items _ => cut_gatherPlain hle outputs items)
      (fun got items hgot => gives_gatherPlain ?_) hzero
    exact List.prefix_take_iff.mpr ⟨List.prefix_append got _, Nat.le_of_lt hgot⟩

end PageWindow
end RemoteTables
