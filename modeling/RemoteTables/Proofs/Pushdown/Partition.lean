import Mathlib.Algebra.Group.Nat.Defs
import RemoteTables.Proofs.Pushdown.Explode
import RemoteTables.Github.Filter

/-!
# The parts of a handle are a partition

What a handle stands for is the set of assignments that satisfy its constraint. The handles that it
explodes into divide that set: each assignment of the handle is in exactly one part, no assignment is
in two, and a part has no assignment that the handle does not have. How many parts there are is known
beforehand, as the product of the numbers of points of the columns that are fixed, and beside these
columns a part differs from the handle in nothing (`explode_partitions`).

The constraint may be one that came from the wire: its columns are distinct, but they need not be in
order. A constraint that nothing can satisfy has no assignment, and no part.
-/

set_option autoImplicit false

namespace RemoteTables

/-- What is counted at most once holds of no two. -/
theorem not_both_of_countP_le_one {α : Type} {as : List α} {p : α → Bool} (h : as.countP p ≤ 1)
    {one other : α} (hsub : [one, other].Sublist as) : ¬(p one = true ∧ p other = true) := by
  rintro ⟨hone, hother⟩
  have htwo : [one, other].countP p = 2 := by simp [hone, hother]
  have hle : [one, other].countP p ≤ as.countP p := hsub.countP_le
  omega

namespace FilterRules

variable {rules : FilterRules}

theorem length_alternatives (entry : ColumnDomain) :
    (rules.alternatives entry).length =
      if 1 < (rules.points entry).length then (rules.points entry).length else 1 := by
  rw [alternatives]
  split
  · rw [List.length_map]
  · rfl

/-- There are as many selections as the points of the columns that leave a choice can be combined. -/
theorem length_selections (entries : List ColumnDomain) :
    (rules.selections entries).length =
      ((entries.map fun entry => (rules.points entry).length).filter fun count => 1 < count).prod := by
  induction entries with
  | nil => rfl
  | cons entry rest ih =>
    have hproduct : (rules.selections (entry :: rest)).length =
        (rules.alternatives entry).length * (rules.selections rest).length := by
      simp [selections, List.length_flatMap]
    rw [hproduct, length_alternatives, ih, List.map_cons, List.filter_cons]
    by_cases hmany : 1 < (rules.points entry).length
    · rw [if_pos hmany, if_pos (by simpa using hmany), List.prod_cons]
    · rw [if_neg hmany, if_neg (by simpa using hmany), Nat.one_mul]

/-- An alternative is about the column of its entry. -/
theorem columns_of_selection {entries taken : List ColumnDomain}
    (h : List.Forall₂ (fun entry one => one ∈ rules.alternatives entry) entries taken) :
    taken.map (·.column) = entries.map (·.column) := by
  induction h with
  | nil => rfl
  | cons hone _ ih =>
    rw [List.map_cons, List.map_cons, ih]
    rcases mem_alternatives hone with ⟨rfl, -⟩ | ⟨points, v, -, -, rfl⟩
    · rfl
    · rfl

section Parts

variable {h : TableHandle} (hnames : h.constraint.columnNames.Nodup)
include hnames

theorem length_explode (hnone : h.constraint.isNone = false) :
    (rules.explode h).length = ((h.constraint.entries.map fun entry =>
      (rules.points entry).length).filter fun count => 1 < count).prod := by
  rw [(forall₂_explode hnames hnone).length_eq, length_selections]

/-- A part has the columns of the whole, and no others. -/
theorem perm_columns_of_mem_explode {part : TableHandle} (hpart : part ∈ rules.explode h) :
    (part.constraint.entries.map (·.column)).Perm (h.constraint.entries.map (·.column)) := by
  obtain ⟨-, -, taken, hentries, htaken⟩ := exists_selection hnames hpart
  exact (hentries.map _).trans (.of_eq (columns_of_selection htaken))

/-- An entry of the whole is found in a part again, as a point where it has several. -/
theorem exists_alternative_of_mem_explode {part : TableHandle} (hpart : part ∈ rules.explode h)
    {entry : ColumnDomain} (he : entry ∈ h.constraint.entries) :
    ∃ one ∈ part.constraint.entries, one ∈ rules.alternatives entry := by
  obtain ⟨-, -, taken, hentries, htaken⟩ := exists_selection hnames hpart
  obtain ⟨one, hone, halternative⟩ := exists_of_forall₂ htaken he
  exact ⟨one, hentries.mem_iff.mpr hone, halternative⟩

end Parts

variable (rules) in
/-- **Exploding a handle is an exact partition.** The columns of the constraint are distinct and its
lists of values in order. An assignment that satisfies the handle satisfies exactly one part, one
that satisfies a part satisfies the handle, and no assignment satisfies two parts. There is no part
if some domain is written as empty, and otherwise there are as many as the equality columns with more
than one point have combinations of points. A part has one of the points in each of these columns,
keeps all other entries, and differs from the handle in the constraint alone. -/
theorem explode_partitions {h : TableHandle} (hnames : h.constraint.columnNames.Nodup)
    (hdomains : ∀ entry ∈ h.constraint.entries, entry.domain.WellFormed) :
    (∀ a : Assignment, h.constraint.holds a = true →
      (rules.explode h).countP (fun part => part.constraint.holds a) = 1) ∧
    (∀ part ∈ rules.explode h, ∀ a : Assignment, part.constraint.holds a = true →
      h.constraint.holds a = true) ∧
    ((rules.explode h).Pairwise fun one other => ∀ a : Assignment,
      ¬(one.constraint.holds a = true ∧ other.constraint.holds a = true)) ∧
    (rules.explode h).length = (if h.constraint.isNone then 0 else
      ((h.constraint.entries.map fun entry => (rules.points entry).length).filter
        fun count => 1 < count).prod) ∧
    ∀ part ∈ rules.explode h, part = h.withConstraint part.constraint ∧
      (part.constraint.entries.map (·.column)).Perm (h.constraint.entries.map (·.column)) ∧
      ∀ entry ∈ h.constraint.entries,
        if 1 < (rules.points entry).length then
          ∃ v ∈ rules.points entry, ⟨entry.column, .single v⟩ ∈ part.constraint.entries
        else entry ∈ part.constraint.entries := by
  have hcount : ∀ a : Assignment, (rules.explode h).countP (fun part => part.constraint.holds a) =
      if h.constraint.holds a then 1 else 0 := countP_holds_parts hnames hdomains
  refine ⟨fun a ha => ?_, fun part hpart a ha => ?_, ?_, ?_, fun part hpart => ?_⟩
  · rw [hcount, if_pos ha]
  · exact eq_true_of_countP (hcount a) hpart ha
  · refine List.pairwise_iff_forall_sublist.mpr fun hsub a => ?_
    refine not_both_of_countP_le_one (p := fun part => part.constraint.holds a) ?_ hsub
    rw [hcount]
    split <;> decide
  · cases hnone : h.constraint.isNone with
    | true =>
      rw [explode, if_pos hnone]
      rfl
    | false => exact length_explode hnames hnone
  · refine ⟨(exists_selection hnames hpart).1, perm_columns_of_mem_explode hnames hpart, ?_⟩
    intro entry he
    obtain ⟨one, hone, halternative⟩ := exists_alternative_of_mem_explode hnames hpart he
    rw [alternatives] at halternative
    split
    · rename_i hmany
      rw [if_pos hmany] at halternative
      obtain ⟨v, hv, rfl⟩ := List.mem_map.mp halternative
      exact ⟨v, hv, hone⟩
    · rename_i hfew
      rw [if_neg hfew] at halternative
      exact List.mem_singleton.mp halternative ▸ hone

/-- The steps of two runs with either of two conclusions, as they may come from the wire: the columns
are not in order, one run is written twice, and the jobs are not restricted to points. -/
def writtenSteps : TableHandle :=
  ⟨⟨"github", "steps"⟩,
    ⟨[⟨⟨"run_id", .bigInt⟩, .ranges [.single (.bigInt 9), .single (.bigInt 7), .single (.bigInt 9)]⟩,
      ⟨⟨"owner", .varchar⟩, .single (.varchar "o")⟩,
      ⟨⟨"job_id", .bigInt⟩, .ranges [.greaterThan (.bigInt 3)]⟩,
      ⟨⟨"conclusion", .varchar⟩, .ofList [.varchar "failure", .varchar "cancelled"]⟩]⟩,
    2, 50, 3, none⟩

/-- They are read in four parts, and a cancelled step of the first run belongs to one of them. -/
theorem explode_partitions_writtenSteps :
    (Github.stepRules.explode writtenSteps).length = 4 ∧
    (Github.stepRules.explode writtenSteps).countP (fun part => part.constraint.holds fun column =>
      [("owner", Literal.varchar "o"), ("run_id", .bigInt 9), ("job_id", .bigInt 70),
        ("conclusion", .varchar "cancelled")].lookup column) = 1 := by
  obtain ⟨hone, -, -, hlength, -⟩ := explode_partitions Github.stepRules (h := writtenSteps)
    (by decide +kernel) (by decide +kernel)
  exact ⟨hlength.trans (by decide +kernel), hone _ (by decide +kernel)⟩

end FilterRules
end RemoteTables
