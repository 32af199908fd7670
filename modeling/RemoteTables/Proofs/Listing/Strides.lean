import Mathlib.Data.List.Perm.Basic

/-!
# Pages shared out by strides

The pages of a listing are shared out among `n` readers: the one numbered `k` gets page `k` and every
`n`-th page after it (`strided`). Together they have every page once (`perm_strided`).

If each reader stops after `m` rows, then together they still have the first `m` rows of the whole
listing (`perm_take_strided`). These rows fill the first pages, part of one more, and nothing of the
others; so on the pages of one reader they are the first ones as well (`cutPage_in_front`), and
there are at most `m` of them.
-/

set_option autoImplicit false

namespace RemoteTables

variable {γ : Type}

theorem length_le_length_flatMap {α : Type} {items : List α} (A : α → List γ) {item : α}
    (h : item ∈ items) : (A item).length ≤ (items.flatMap A).length := by
  obtain ⟨before, after, rfl⟩ := List.append_of_mem h
  rw [List.flatMap_append, List.flatMap_cons, List.length_append, List.length_append]
  omega

/-- The rows of `f` pages, from page `k` on and `n` pages apart. -/
def strided (P : Nat → List γ) (f n k : Nat) : List γ :=
  (List.range f).flatMap fun i => P (k + i * n)

theorem strided_zero (P : Nat → List γ) (n k : Nat) : strided P 0 n k = [] := rfl

theorem strided_succ (P : Nat → List γ) (f n k : Nat) :
    strided P (f + 1) n k = strided P f n k ++ P (k + f * n) := by
  rw [strided, List.range_succ, List.flatMap_append, List.flatMap_singleton]
  rfl

theorem strided_one (P : Nat → List γ) (f : Nat) : strided P f 1 0 = (List.range f).flatMap P :=
  List.flatMap_congr fun i _ => by rw [Nat.zero_add, Nat.mul_one]

/-- The first page, and then the pages from the next one on. -/
theorem strided_succ_left (P : Nat → List γ) (f n k : Nat) :
    strided P (f + 1) n k = P k ++ strided P f n (k + n) := by
  induction f with
  | zero => rw [strided_succ, strided_zero, strided_zero, Nat.zero_mul, Nat.add_zero]; simp
  | succ f ih =>
    have hpage : k + (f + 1) * n = k + n + f * n := by
      rw [Nat.succ_mul]
      omega
    rw [strided_succ, ih, strided_succ, List.append_assoc, hpage]

theorem strided_eq_nil {P : Nat → List γ} {s : Nat} (hP : ∀ j, s ≤ j → P j = []) (f n : Nat) {k : Nat}
    (hk : s ≤ k) : strided P f n k = [] := by
  rw [strided, List.flatMap_eq_nil_iff]
  exact fun i _ => hP _ (Nat.le_trans hk (Nat.le_add_right k _))

theorem strided_whole {P : Nat → List γ} {s : Nat} (hP : ∀ j, s ≤ j → P j = []) {f : Nat}
    (hf : s ≤ f) : strided P f 1 0 = strided P s 1 0 := by
  obtain ⟨d, rfl⟩ := Nat.exists_eq_add_of_le hf
  induction d with
  | zero => rfl
  | succ d ih =>
    rw [← Nat.add_assoc, strided_succ, ih (Nat.le_add_right s d), hP _ (by omega),
      List.append_nil]

/-- **The readers together have every page once.** -/
theorem perm_strided (P : Nat → List γ) (f n : Nat) :
    ((List.range n).flatMap (strided P f n)).Perm (strided P (n * f) 1 0) := by
  induction f with
  | zero =>
    rw [Nat.mul_zero, strided_zero]
    have hnone : (List.range n).flatMap (strided P 0 n) = [] :=
      List.flatMap_eq_nil_iff.mpr fun k _ => rfl
    rw [hnone]
  | succ f ih =>
    have hround : strided P (n * (f + 1)) 1 0 =
        strided P (n * f) 1 0 ++ (List.range n).flatMap fun k => P (k + f * n) := by
      rw [strided_one, strided_one, Nat.mul_succ, List.range_add, List.flatMap_append,
        List.flatMap_map]
      refine congrArg (_ ++ ·) (List.flatMap_congr fun k _ => ?_)
      rw [Nat.add_comm, Nat.mul_comm]
    rw [hround, show strided P (f + 1) n = fun k => strided P f n k ++ P (k + f * n) from
      funext (strided_succ P f n)]
    exact (List.flatMap_append_perm _ _ _).symm.trans (ih.append_right _)

theorem perm_strided_whole {P : Nat → List γ} {f : Nat} (hP : ∀ j, f ≤ j → P j = []) {n : Nat}
    (hn : 0 < n) : ((List.range n).flatMap (strided P f n)).Perm (strided P f 1 0) :=
  strided_whole hP (Nat.le_mul_of_pos_left f hn) ▸ perm_strided P f n

/-! ## The first rows -/

/-- What the first `m` rows of the listing have on a page. -/
def cutPage (P : Nat → List γ) (m j : Nat) : List γ :=
  (P j).take (m - (strided P j 1 0).length)

/-- The first rows are those that they have on each page. -/
theorem strided_cutPage (P : Nat → List γ) (m f : Nat) :
    strided (cutPage P m) f 1 0 = (strided P f 1 0).take m := by
  induction f with
  | zero => rw [strided_zero, strided_zero, List.take_nil]
  | succ f ih =>
    rw [strided_succ, strided_succ, ih, List.take_append, Nat.mul_one, Nat.zero_add, cutPage]

theorem length_strided_mono (P : Nat → List γ) {i j : Nat} (h : i ≤ j) :
    (strided P i 1 0).length ≤ (strided P j 1 0).length := by
  obtain ⟨d, rfl⟩ := Nat.exists_eq_add_of_le h
  induction d with
  | zero => exact Nat.le_refl _
  | succ d ih =>
    rw [← Nat.add_assoc, strided_succ, List.length_append]
    exact Nat.le_trans (ih (Nat.le_add_right i d)) (Nat.le_add_right _ _)

/-- Before a page that the first rows reach, all pages are full of them. -/
theorem cutPage_eq {P : Nat → List γ} {m i j : Nat} (hij : i < j)
    (h : (strided P j 1 0).length ≤ m) : cutPage P m i = P i := by
  have hnext := Nat.le_trans (length_strided_mono P (Nat.succ_le_of_lt hij)) h
  rw [strided_succ, List.length_append, Nat.mul_one, Nat.zero_add] at hnext
  rw [cutPage]
  exact List.take_of_length_le (by omega)

/-- **On the pages of one reader the first rows are in front.** -/
theorem cutPage_in_front (P : Nat → List γ) (m f : Nat) {n : Nat} (hn : 0 < n) (k : Nat) :
    strided (cutPage P m) f n k <+: strided P f n k := by
  induction f with
  | zero => exact List.prefix_refl _
  | succ f ih =>
    rw [strided_succ, strided_succ]
    rcases Nat.lt_or_ge m (strided P (k + f * n) 1 0).length with hpast | hreached
    · -- the first rows end before this page
      have hnone : cutPage P m (k + f * n) = [] := by
        rw [cutPage, Nat.sub_eq_zero_of_le (Nat.le_of_lt hpast), List.take_zero]
      rw [hnone, List.append_nil]
      exact ih.trans (List.prefix_append _ _)
    · have hsame : strided (cutPage P m) f n k = strided P f n k := by
        refine List.flatMap_congr fun i hi => cutPage_eq ?_ hreached
        exact Nat.add_lt_add_left (Nat.mul_lt_mul_of_pos_right (List.mem_range.mp hi) hn) k
      rw [hsame]
      exact (List.prefix_append_right_inj _).mpr (List.take_prefix _ _)

/-- **Readers that each stop after `m` rows together have the first `m` rows.** -/
theorem perm_take_strided {P : Nat → List γ} {f : Nat} (hP : ∀ j, f ≤ j → P j = []) {n : Nat}
    (hn : 0 < n) (m : Nat) :
    ∃ rest, ((strided P f 1 0).take m ++ rest).Perm
      ((List.range n).flatMap fun k => (strided P f n k).take m) := by
  have hwhole : ((List.range n).flatMap (strided (cutPage P m) f n)).Perm
      ((strided P f 1 0).take m) := by
    rw [← strided_whole hP (Nat.le_mul_of_pos_left f hn), ← strided_cutPage]
    exact perm_strided (cutPage P m) f n
  -- the first rows of each reader are among those that it stops with
  have hpart : ∀ k ∈ List.range n, strided (cutPage P m) f n k <+: (strided P f n k).take m := by
    intro k hk
    refine List.prefix_take_iff.mpr ⟨cutPage_in_front P m f hn k, ?_⟩
    have hle := length_le_length_flatMap (strided (cutPage P m) f n) hk
    rw [hwhole.length_eq, List.length_take] at hle
    omega
  refine ⟨_, ((hwhole.symm.append_right _).trans (List.flatMap_append_perm _ _
    fun k => ((strided P f n k).take m).drop (strided (cutPage P m) f n k).length)).trans ?_⟩
  exact .of_eq (List.flatMap_congr fun k hk => List.prefix_iff_eq_append.mp (hpart k hk))

end RemoteTables
