import RemoteTables.Proofs.Sets.Domains
import RemoteTables.Constraint

/-!
# Constraints as conjunctions

A constraint speaks about what the columns hold, so its meaning is taken at an assignment: a literal
for each column, or none where a cell is null or cannot be compared. `Constraint.holds` is that
meaning, entry by entry.

The operations are described in two ways that fit together. By their entries: replacing a domain
keeps all other columns (`mem_withDomain`). By their meaning: a replaced domain is what its column is
allowed (`allows_withDomain`), so one more condition is one more conjunct for its column
(`allows_restrict`), and the intersection of two constraints is their conjunction, on every column
alone (`allows_intersect`) and as a whole (`holds_intersect`). The meaning needs the entries to be in
order, which every operation keeps (`wellFormed_intersect`). Entries that are gathered from anywhere
are put in order first, and mean the same (`conjunction_in_order`).
-/

set_option autoImplicit false

namespace RemoteTables

/-- A literal for each column, or none where the column holds nothing that can be compared. -/
abbrev Assignment := String → Option Literal

/-- Whether an assignment satisfies an entry: the column holds a literal, and one of the domain's. -/
def ColumnDomain.holds (entry : ColumnDomain) (a : Assignment) : Bool :=
  (a entry.column.name).any entry.domain.includes

theorem ColumnDomain.holds_iff (entry : ColumnDomain) (a : Assignment) :
    entry.holds a = true ↔ ∃ v, a entry.column.name = some v ∧ entry.domain.includes v = true := by
  rw [holds, Option.any_eq_true]

namespace Constraint

/-- Whether all entries hold under an assignment. -/
def holds (c : Constraint) (a : Assignment) : Bool := c.entries.all (·.holds a)

theorem holds_iff {c : Constraint} {a : Assignment} :
    c.holds a = true ↔ ∀ entry ∈ c.entries, entry.holds a = true := by
  rw [holds, List.all_eq_true]

/-! ## Entries and columns -/

theorem WellFormed.nodup {c : Constraint} (h : c.WellFormed) : c.columnNames.Nodup := h.1.nodup

theorem entry_eq_of_name_eq {c : Constraint} (h : c.columnNames.Nodup) {entry other : ColumnDomain}
    (he : entry ∈ c.entries) (ho : other ∈ c.entries)
    (hname : entry.column.name = other.column.name) : entry = other := by
  obtain ⟨entries⟩ := c
  simp only [columnNames] at h he ho
  induction entries with
  | nil => exact absurd he List.not_mem_nil
  | cons first rest ih =>
    rw [List.map_cons, List.nodup_cons] at h
    rcases List.mem_cons.mp he with rfl | hel <;> rcases List.mem_cons.mp ho with rfl | hol
    · rfl
    · exact absurd (List.mem_map.mpr ⟨other, hol, hname.symm⟩) h.1
    · exact absurd (List.mem_map.mpr ⟨entry, hel, hname⟩) h.1
    · exact ih h.2 hel hol

theorem mem_of_domain? {c : Constraint} {column : String} {d : Domain}
    (h : c.domain? column = some d) :
    ∃ entry ∈ c.entries, entry.column.name = column ∧ entry.domain = d := by
  obtain ⟨entry, hfind, rfl⟩ := Option.map_eq_some_iff.mp h
  exact ⟨entry, List.mem_of_find?_eq_some hfind, by simpa using List.find?_some hfind, rfl⟩

theorem domain?_eq_none_iff {c : Constraint} {column : String} :
    c.domain? column = none ↔ ∀ entry ∈ c.entries, entry.column.name ≠ column := by
  simp [domain?]

/-- Of a constraint with one entry a column, a column's domain is that of its entry. -/
theorem domain?_of_mem {c : Constraint} (h : c.columnNames.Nodup) {entry : ColumnDomain}
    (he : entry ∈ c.entries) : c.domain? entry.column.name = some entry.domain := by
  cases hd : c.domain? entry.column.name with
  | none => exact absurd rfl (domain?_eq_none_iff.mp hd entry he)
  | some d =>
    obtain ⟨other, ho, hname, rfl⟩ := mem_of_domain? hd
    rw [entry_eq_of_name_eq h ho he hname]

theorem allows_iff {c : Constraint} (h : c.columnNames.Nodup) {column : String} {v : Literal} :
    c.allows column v = true ↔
      ∀ entry ∈ c.entries, entry.column.name = column → entry.domain.includes v = true := by
  rw [allows]
  split
  · rename_i d hd
    obtain ⟨entry, he, rfl, rfl⟩ := mem_of_domain? hd
    constructor
    · intro hv other ho hname
      rwa [entry_eq_of_name_eq h ho he hname]
    · intro hv
      exact hv entry he rfl
  · rename_i hnone
    simp only [true_iff]
    intro entry he hname
    exact absurd hname (domain?_eq_none_iff.mp hnone entry he)

theorem holds_iff_allows {c : Constraint} (h : c.columnNames.Nodup) {a : Assignment} :
    c.holds a = true ↔ (∀ name ∈ c.columnNames, (a name).isSome = true) ∧
      ∀ name v, a name = some v → c.allows name v = true := by
  simp only [holds_iff, ColumnDomain.holds_iff, columnNames, List.forall_mem_map, allows_iff h]
  constructor
  · intro hheld
    refine ⟨fun entry he => ?_, fun name v hname entry he heq => ?_⟩
    · obtain ⟨v, hv, -⟩ := hheld entry he
      rw [hv, Option.isSome_some]
    · obtain ⟨w, hw, hincludes⟩ := hheld entry he
      obtain rfl := Option.some.inj ((heq ▸ hw).symm.trans hname)
      exact hincludes
  · rintro ⟨hpresent, hallowed⟩ entry he
    obtain ⟨v, hv⟩ := Option.isSome_iff_exists.mp (hpresent entry he)
    exact ⟨v, hv, hallowed _ v hv entry he rfl⟩

/-! ## Replacing a domain -/

theorem mem_withDomain {c : Constraint} {column : ColumnRef} {d : Domain} (hd : d.isAll = false)
    {entry : ColumnDomain} :
    entry ∈ (c.withDomain column d).entries ↔
      entry ∈ c.entries ∧ entry.column.name ≠ column.name ∨ entry = ⟨column, d⟩ := by
  rw [withDomain, if_neg (by simp [hd]), List.mem_mergeSort, List.mem_append, List.mem_filter,
    List.mem_singleton, bne_iff_ne]

theorem mem_withDomain_of_isAll {c : Constraint} {column : ColumnRef} {d : Domain}
    (hd : d.isAll = true) {entry : ColumnDomain} :
    entry ∈ (c.withDomain column d).entries ↔
      entry ∈ c.entries ∧ entry.column.name ≠ column.name := by
  rw [withDomain, if_pos hd, List.mem_filter, bne_iff_ne]

theorem nodup_withDomain {c : Constraint} (h : c.columnNames.Nodup) (column : ColumnRef)
    (d : Domain) : (c.withDomain column d).columnNames.Nodup := by
  have hothers : ((c.entries.filter fun entry => entry.column.name != column.name).map
      (·.column.name)).Nodup := h.sublist (List.filter_sublist.map _)
  simp only [withDomain]
  split
  · exact hothers
  · rw [columnNames, ((List.mergeSort_perm _ _).map _).nodup_iff, List.map_append,
      List.nodup_append]
    refine ⟨hothers, by simp, fun m hm n hn => ?_⟩
    obtain ⟨entry, hentry, rfl⟩ := List.mem_map.mp hm
    obtain rfl := List.mem_singleton.mp hn
    simpa using (List.mem_filter.mp hentry).2

theorem pairwise_mergeSort_names (entries : List ColumnDomain) :
    (entries.mergeSort fun a b => decide (a.column.name ≤ b.column.name)).Pairwise
      fun a b => a.column.name ≤ b.column.name := by
  refine List.Pairwise.imp (fun {a b} h => of_decide_eq_true h)
    (List.pairwise_mergeSort (fun a b e => ?_) (fun a b => ?_) entries)
  · simp only [decide_eq_true_eq]
    exact Std.le_trans
  · simp only [Bool.or_eq_true, decide_eq_true_eq]
    exact Std.le_total

theorem wellFormed_withDomain {c : Constraint} (h : c.WellFormed) (column : ColumnRef)
    {d : Domain} (hd : d.WellFormed) : (c.withDomain column d).WellFormed := by
  have hnodup := nodup_withDomain h.nodup column d
  cases hall : d.isAll with
  | true =>
    rw [withDomain, if_pos hall]
    exact ⟨h.1.sublist (List.filter_sublist.map _),
      fun entry he => h.2 entry (List.mem_filter.mp he).1⟩
  | false =>
    refine ⟨?_, fun entry he => ?_⟩
    · -- the sort puts names in order, and no name is there twice, so the order is strict
      rw [columnNames, withDomain, if_neg (by simp [hall])] at hnodup ⊢
      rw [List.Nodup, List.pairwise_map] at hnodup
      rw [List.pairwise_map]
      refine ((pairwise_mergeSort_names _).and hnodup).imp fun {a b} hab => ?_
      exact Std.lt_of_le_of_ne hab.1 hab.2
    · rcases (mem_withDomain hall).mp he with ⟨he, -⟩ | rfl
      · exact h.2 entry he
      · exact ⟨hall, hd⟩

/-- **A column is allowed what its new domain has**, also where that is everything, and the other
columns are allowed what they were. -/
theorem allows_withDomain {c : Constraint} (h : c.columnNames.Nodup) (column : ColumnRef)
    (d : Domain) (name : String) (v : Literal) :
    (c.withDomain column d).allows name v =
      if name = column.name then d.includes v else c.allows name v := by
  have hnodup := nodup_withDomain h column d
  rw [Bool.eq_iff_iff, allows_iff hnodup]
  cases hall : d.isAll with
  | true =>
    -- no entry is left for the column
    obtain rfl : d = .all := by cases d <;> first | rfl | cases hall
    split
    · rename_i hname
      refine iff_of_true (fun entry he hentry => ?_) rfl
      exact absurd (hentry.trans hname) ((mem_withDomain_of_isAll hall).mp he).2
    · rename_i hname
      rw [allows_iff h]
      refine forall_congr' fun entry => ?_
      rw [mem_withDomain_of_isAll hall]
      refine ⟨fun hv he hentry => hv ⟨he, fun hsame => ?_⟩ hentry, fun hv he => hv he.1⟩
      exact hname (hentry.symm.trans hsame)
  | false =>
    split
    · rename_i hname
      refine ⟨fun hv => hv ⟨column, d⟩ ((mem_withDomain hall).mpr (Or.inr rfl)) hname.symm, ?_⟩
      intro hv entry he hentry
      rcases (mem_withDomain hall).mp he with ⟨-, hother⟩ | rfl
      · exact absurd (hentry.trans hname) hother
      · exact hv
    · rename_i hname
      rw [allows_iff h]
      refine forall_congr' fun entry => ?_
      rw [mem_withDomain hall]
      constructor
      · intro hv he hentry
        exact hv (Or.inl ⟨he, fun hsame => hname (hentry.symm.trans hsame)⟩) hentry
      · rintro hv (⟨he, -⟩ | rfl) hentry
        · exact hv he hentry
        · exact absurd hentry.symm hname

/-! ## One more condition -/

theorem wellFormed_restrict {c : Constraint} (h : c.WellFormed) (column : ColumnRef) {d : Domain}
    (hd : d.WellFormed) : (c.restrict column d).WellFormed := by
  rw [restrict]
  split
  · rename_i present hpresent
    obtain ⟨entry, he, -, rfl⟩ := mem_of_domain? hpresent
    exact wellFormed_withDomain h column (Domain.wellFormed_intersect (h.2 entry he).2 hd)
  · exact wellFormed_withDomain h column hd

/-- The entries after one more condition: the new one may have met an old one of its column. -/
theorem mem_restrict {c : Constraint} {column : ColumnRef} {d : Domain}
    (hd : d.isAll = false) {entry : ColumnDomain} :
    entry ∈ (c.restrict column d).entries ↔
      entry ∈ c.entries ∧ entry.column.name ≠ column.name ∨
        entry = ⟨column, ((c.domain? column.name).map (·.intersect d)).getD d⟩ := by
  rw [restrict]
  split
  · rename_i present hpresent
    rw [mem_withDomain (by rw [Domain.isAll_intersect, hd, Bool.and_false]), hpresent]
    rfl
  · rename_i hnone
    rw [mem_withDomain hd, hnone]
    rfl

/-- **One more condition is one more conjunct** for its column, and nothing to the others. -/
theorem allows_restrict {c : Constraint} (h : c.WellFormed) (column : ColumnRef) {d : Domain}
    (hd : d.WellFormed) (name : String) (v : Literal) :
    (c.restrict column d).allows name v = true ↔
      c.allows name v = true ∧ (column.name = name → d.includes v = true) := by
  rw [restrict]
  by_cases hname : column.name = name
  · subst hname
    cases hpresent : c.domain? column.name with
    | none =>
      have hfree : c.allows column.name v = true := by rw [allows, hpresent]
      simp [allows_withDomain h.nodup, hfree]
    | some present =>
      obtain ⟨old, hold, -, rfl⟩ := mem_of_domain? hpresent
      have hbefore : c.allows column.name v = old.domain.includes v := by rw [allows, hpresent]
      simpa [allows_withDomain h.nodup, hbefore] using
        Domain.includes_intersect (h.2 old hold).2 hd v
  · have hother : ¬name = column.name := Ne.symm hname
    split <;> simp [allows_withDomain h.nodup, hname, hother]

/-- Whether a column is restricted to points, as far as the domain is written so. -/
def Pinpoints (c : Constraint) (column : String) : Prop :=
  ∃ entry ∈ c.entries, entry.column.name = column ∧ entry.domain.discreteValues?.isSome = true

/-- A column that is restricted to points stays so under one more condition. -/
theorem Pinpoints.restrict {c : Constraint} (h : c.WellFormed) {name : String}
    (hpoints : c.Pinpoints name) (column : ColumnRef) {d : Domain} (hall : d.isAll = false) :
    (c.restrict column d).Pinpoints name := by
  obtain ⟨entry, he, rfl, hdiscrete⟩ := hpoints
  by_cases hsame : entry.column.name = column.name
  · refine ⟨_, (mem_restrict hall).mpr (Or.inr rfl), hsame.symm, ?_⟩
    rw [← hsame, domain?_of_mem h.nodup he]
    exact Domain.discreteValues?_intersect (Or.inl hdiscrete)
  · exact ⟨entry, (mem_restrict hall).mpr (Or.inl ⟨he, hsame⟩), rfl, hdiscrete⟩

theorem pinpoints_restrict {c : Constraint} (column : ColumnRef) {d : Domain}
    (hall : d.isAll = false) (hdiscrete : d.discreteValues?.isSome = true) :
    (c.restrict column d).Pinpoints column.name := by
  refine ⟨_, (mem_restrict hall).mpr (Or.inr rfl), rfl, ?_⟩
  cases c.domain? column.name with
  | none => exact hdiscrete
  | some present => exact Domain.discreteValues?_intersect (Or.inr hdiscrete)

/-! ## Many conditions -/

/-- A constraint with entries added to it, one condition after another. -/
def conjoin (c : Constraint) (entries : List ColumnDomain) : Constraint :=
  entries.foldl (fun c entry => c.restrict entry.column entry.domain) c

theorem intersect_eq_conjoin (a b : Constraint) :
    a.intersect b = all.conjoin (a.entries ++ b.entries) := rfl

/-- Whether entries restrict their columns, to domains that are in order. -/
def EntriesWellFormed (entries : List ColumnDomain) : Prop :=
  ∀ entry ∈ entries, entry.domain.isAll = false ∧ entry.domain.WellFormed

theorem wellFormed_all : all.WellFormed :=
  ⟨List.Pairwise.nil, fun _ he => absurd he List.not_mem_nil⟩

theorem wellFormed_conjoin {c : Constraint} (h : c.WellFormed) {entries : List ColumnDomain}
    (hentries : ∀ entry ∈ entries, entry.domain.WellFormed) : (c.conjoin entries).WellFormed := by
  induction entries generalizing c with
  | nil => exact h
  | cons first rest ih =>
    exact ih (wellFormed_restrict h first.column (hentries first List.mem_cons_self))
      fun entry he => hentries entry (List.mem_cons_of_mem _ he)

theorem allows_conjoin {c : Constraint} (h : c.WellFormed) {entries : List ColumnDomain}
    (hentries : ∀ entry ∈ entries, entry.domain.WellFormed) (name : String) (v : Literal) :
    (c.conjoin entries).allows name v = true ↔ c.allows name v = true ∧
      ∀ entry ∈ entries, entry.column.name = name → entry.domain.includes v = true := by
  induction entries generalizing c with
  | nil => simp [conjoin]
  | cons first rest ih =>
    obtain ⟨hfirst, hrest⟩ := List.forall_mem_cons.mp hentries
    rw [conjoin, List.foldl_cons, ← conjoin, ih (wellFormed_restrict h first.column hfirst) hrest,
      allows_restrict h first.column hfirst, List.forall_mem_cons, and_assoc]

theorem Pinpoints.conjoin {c : Constraint} (h : c.WellFormed) {name : String}
    {entries : List ColumnDomain} (hentries : EntriesWellFormed entries)
    (hpoints : c.Pinpoints name ∨ ∃ entry ∈ entries, entry.column.name = name ∧
      entry.domain.discreteValues?.isSome = true) : (c.conjoin entries).Pinpoints name := by
  induction entries generalizing c with
  | nil =>
    rcases hpoints with hpoints | ⟨entry, he, -⟩
    · exact hpoints
    · exact absurd he List.not_mem_nil
  | cons first rest ih =>
    obtain ⟨hall, hfirst⟩ := hentries first List.mem_cons_self
    refine ih (wellFormed_restrict h first.column hfirst)
      (fun entry he => hentries entry (List.mem_cons_of_mem _ he)) ?_
    rcases hpoints with hpoints | ⟨entry, he, hname, hdiscrete⟩
    · exact Or.inl (hpoints.restrict h first.column hall)
    · rcases List.mem_cons.mp he with rfl | he
      · exact Or.inl (hname ▸ pinpoints_restrict entry.column hall hdiscrete)
      · exact Or.inr ⟨entry, he, hname, hdiscrete⟩

theorem forall_column_conjoin {c : Constraint} {entries : List ColumnDomain}
    (hentries : EntriesWellFormed entries) {p : ColumnRef → Prop}
    (hc : ∀ entry ∈ c.entries, p entry.column) (he : ∀ entry ∈ entries, p entry.column) :
    ∀ entry ∈ (c.conjoin entries).entries, p entry.column := by
  induction entries generalizing c with
  | nil => exact hc
  | cons first rest ih =>
    refine ih (fun entry hmem => hentries entry (List.mem_cons_of_mem _ hmem))
      (fun entry hmem => ?_) fun entry hmem => he entry (List.mem_cons_of_mem _ hmem)
    rcases (mem_restrict (hentries first List.mem_cons_self).1).mp hmem with ⟨hmem, -⟩ | rfl
    · exact hc entry hmem
    · exact he first List.mem_cons_self

theorem exists_column_conjoin {c : Constraint} {entries : List ColumnDomain}
    (hentries : EntriesWellFormed entries) {entry : ColumnDomain}
    (he : entry ∈ c.entries ∨ entry ∈ entries) :
    ∃ kept ∈ (c.conjoin entries).entries, kept.column.name = entry.column.name := by
  induction entries generalizing c entry with
  | nil => exact ⟨entry, he.resolve_right List.not_mem_nil, rfl⟩
  | cons first rest ih =>
    have hall := (hentries first List.mem_cons_self).1
    have hrest : EntriesWellFormed rest := fun e hmem => hentries e (List.mem_cons_of_mem _ hmem)
    rcases he with he | he
    · by_cases hsame : entry.column.name = first.column.name
      · obtain ⟨kept, hkept, hname⟩ := ih hrest (Or.inl ((mem_restrict hall).mpr (Or.inr rfl)))
        exact ⟨kept, hkept, hname.trans hsame.symm⟩
      · exact ih hrest (Or.inl ((mem_restrict hall).mpr (Or.inl ⟨he, hsame⟩)))
    · rcases List.mem_cons.mp he with rfl | he
      · obtain ⟨kept, hkept, hname⟩ := ih hrest (Or.inl ((mem_restrict hall).mpr (Or.inr rfl)))
        exact ⟨kept, hkept, hname⟩
      · exact ih hrest (Or.inr he)

/-! ## Intersection -/

theorem entriesWellFormed_append {a b : Constraint} (ha : a.WellFormed) (hb : b.WellFormed) :
    EntriesWellFormed (a.entries ++ b.entries) := fun entry he =>
  (List.mem_append.mp he).elim (ha.2 entry) (hb.2 entry)

theorem wellFormed_intersect {a b : Constraint} (ha : a.WellFormed) (hb : b.WellFormed) :
    (a.intersect b).WellFormed :=
  wellFormed_conjoin wellFormed_all fun entry he => (entriesWellFormed_append ha hb entry he).2

theorem pinpoints_intersect {a b : Constraint} (ha : a.WellFormed) (hb : b.WellFormed)
    {name : String} (h : a.Pinpoints name ∨ b.Pinpoints name) :
    (a.intersect b).Pinpoints name := by
  refine Pinpoints.conjoin wellFormed_all (entriesWellFormed_append ha hb) (Or.inr ?_)
  rcases h with ⟨entry, he, hpoints⟩ | ⟨entry, he, hpoints⟩
  · exact ⟨entry, List.mem_append_left _ he, hpoints⟩
  · exact ⟨entry, List.mem_append_right _ he, hpoints⟩

theorem forall_column_intersect {a b : Constraint} (ha : a.WellFormed) (hb : b.WellFormed)
    {p : ColumnRef → Prop} (hpa : ∀ entry ∈ a.entries, p entry.column)
    (hpb : ∀ entry ∈ b.entries, p entry.column) :
    ∀ entry ∈ (a.intersect b).entries, p entry.column :=
  forall_column_conjoin (entriesWellFormed_append ha hb)
    (fun _ he => absurd he List.not_mem_nil) fun entry he =>
      (List.mem_append.mp he).elim (hpa entry) (hpb entry)

theorem mem_columnNames_intersect {a b : Constraint} (ha : a.WellFormed) (hb : b.WellFormed)
    {name : String} :
    name ∈ (a.intersect b).columnNames ↔ name ∈ a.columnNames ∨ name ∈ b.columnNames := by
  constructor
  · intro h
    obtain ⟨entry, he, rfl⟩ := List.mem_map.mp h
    exact forall_column_intersect ha hb
      (p := fun column => column.name ∈ a.columnNames ∨ column.name ∈ b.columnNames)
      (fun e hmem => Or.inl (List.mem_map_of_mem hmem))
      (fun e hmem => Or.inr (List.mem_map_of_mem hmem)) entry he
  · intro h
    have hfrom : ∃ entry ∈ a.entries ++ b.entries, entry.column.name = name := by
      rcases h with h | h <;> obtain ⟨entry, he, rfl⟩ := List.mem_map.mp h
      · exact ⟨entry, List.mem_append_left _ he, rfl⟩
      · exact ⟨entry, List.mem_append_right _ he, rfl⟩
    obtain ⟨entry, he, rfl⟩ := hfrom
    obtain ⟨kept, hkept, hname⟩ :=
      exists_column_conjoin (c := all) (entriesWellFormed_append ha hb) (Or.inr he)
    exact hname ▸ List.mem_map_of_mem hkept

theorem allows_intersect {a b : Constraint} (ha : a.WellFormed) (hb : b.WellFormed)
    (name : String) (v : Literal) :
    (a.intersect b).allows name v = true ↔ a.allows name v = true ∧ b.allows name v = true := by
  rw [intersect_eq_conjoin, allows_conjoin wellFormed_all fun entry he =>
      (entriesWellFormed_append ha hb entry he).2,
    allows_iff ha.nodup, allows_iff hb.nodup, List.forall_mem_append]
  exact and_iff_right rfl

/-- **The intersection of constraints is their conjunction.** -/
theorem holds_intersect {a b : Constraint} (ha : a.WellFormed) (hb : b.WellFormed)
    (s : Assignment) :
    (a.intersect b).holds s = true ↔ a.holds s = true ∧ b.holds s = true := by
  rw [holds_iff_allows (wellFormed_intersect ha hb).nodup, holds_iff_allows ha.nodup,
    holds_iff_allows hb.nodup]
  simp only [mem_columnNames_intersect ha hb, allows_intersect ha hb]
  constructor
  · rintro ⟨hpresent, hallowed⟩
    exact ⟨⟨fun name hname => hpresent name (Or.inl hname), fun name v hv => (hallowed name v hv).1⟩,
      fun name hname => hpresent name (Or.inr hname), fun name v hv => (hallowed name v hv).2⟩
  · rintro ⟨⟨hpa, haa⟩, hpb, hab⟩
    exact ⟨fun name hname => hname.elim (hpa name) (hpb name),
      fun name v hv => ⟨haa name v hv, hab name v hv⟩⟩

/-! ## Intersection of several -/

section Several

variable {c : Constraint} (hc : c.WellFormed) {others : List Constraint}
  (hothers : ∀ other ∈ others, other.WellFormed)
include hc hothers

theorem wellFormed_foldl_intersect : (others.foldl intersect c).WellFormed := by
  induction others generalizing c with
  | nil => exact hc
  | cons first rest ih =>
    obtain ⟨hfirst, hrest⟩ := List.forall_mem_cons.mp hothers
    exact ih (wellFormed_intersect hc hfirst) hrest

/-- What an intersection has exactly if both sides have it, one of several has if all of them do. -/
theorem foldl_intersect_iff {p : Constraint → Prop}
    (hp : ∀ {a b : Constraint}, a.WellFormed → b.WellFormed → (p (a.intersect b) ↔ p a ∧ p b)) :
    p (others.foldl intersect c) ↔ p c ∧ ∀ other ∈ others, p other := by
  induction others generalizing c with
  | nil => simp
  | cons first rest ih =>
    obtain ⟨hfirst, hrest⟩ := List.forall_mem_cons.mp hothers
    rw [List.foldl_cons, ih (wellFormed_intersect hc hfirst) hrest, hp hc hfirst,
      List.forall_mem_cons, and_assoc]

theorem allows_foldl_intersect (name : String) (v : Literal) :
    (others.foldl intersect c).allows name v = true ↔
      c.allows name v = true ∧ ∀ other ∈ others, other.allows name v = true :=
  foldl_intersect_iff hc hothers (p := fun c => c.allows name v = true)
    fun ha hb => allows_intersect ha hb name v

theorem holds_foldl_intersect (a : Assignment) :
    (others.foldl intersect c).holds a = true ↔
      c.holds a = true ∧ ∀ other ∈ others, other.holds a = true :=
  foldl_intersect_iff hc hothers (p := fun c => c.holds a = true)
    fun ha hb => holds_intersect ha hb a

theorem pinpoints_foldl_intersect {name : String}
    (h : c.Pinpoints name ∨ ∃ other ∈ others, other.Pinpoints name) :
    (others.foldl intersect c).Pinpoints name := by
  induction others generalizing c with
  | nil => simpa using h
  | cons first rest ih =>
    obtain ⟨hfirst, hrest⟩ := List.forall_mem_cons.mp hothers
    refine ih (wellFormed_intersect hc hfirst) hrest ?_
    rcases h with h | ⟨other, ho, h⟩
    · exact Or.inl (pinpoints_intersect hc hfirst (Or.inl h))
    · rcases List.mem_cons.mp ho with rfl | ho
      · exact Or.inl (pinpoints_intersect hc hfirst (Or.inr h))
      · exact Or.inr ⟨other, ho, h⟩

theorem forall_column_foldl_intersect {p : ColumnRef → Prop}
    (hp : ∀ entry ∈ c.entries, p entry.column)
    (hps : ∀ other ∈ others, ∀ entry ∈ other.entries, p entry.column) :
    ∀ entry ∈ (others.foldl intersect c).entries, p entry.column := by
  induction others generalizing c with
  | nil => exact hp
  | cons first rest ih =>
    obtain ⟨hfirst, hrest⟩ := List.forall_mem_cons.mp hothers
    obtain ⟨hpfirst, hprest⟩ := List.forall_mem_cons.mp hps
    exact ih (wellFormed_intersect hc hfirst) hrest
      (forall_column_intersect hc hfirst hp hpfirst) hprest

end Several

/-! ## Constraints in order -/

theorem restrict_last {c : Constraint} {entry : ColumnDomain} (hall : entry.domain.isAll = false)
    (h : (c.columnNames ++ [entry.column.name]).Pairwise (· < ·)) :
    c.restrict entry.column entry.domain = ⟨c.entries ++ [entry]⟩ := by
  obtain ⟨-, -, hlt⟩ := List.pairwise_append.mp h
  have hother : ∀ e ∈ c.entries, e.column.name ≠ entry.column.name := fun e he heq =>
    Std.lt_irrefl (heq ▸ hlt _ (List.mem_map_of_mem he) _ List.mem_cons_self)
  rw [restrict, domain?_eq_none_iff.mpr hother]
  simp only [withDomain, hall, Bool.false_eq_true, if_false]
  rw [List.filter_eq_self.mpr fun e he => by simpa using hother e he, List.mergeSort_of_pairwise]
  rw [columnNames, ← List.map_singleton (f := fun e : ColumnDomain => e.column.name),
    ← List.map_append, List.pairwise_map] at h
  exact h.imp fun {a b} hab => by simpa using Std.le_of_lt hab

theorem conjoin_of_pairwise {c : Constraint} {entries : List ColumnDomain}
    (hentries : EntriesWellFormed entries)
    (h : (c.columnNames ++ entries.map (·.column.name)).Pairwise (· < ·)) :
    c.conjoin entries = ⟨c.entries ++ entries⟩ := by
  induction entries generalizing c with
  | nil => simp [conjoin]
  | cons first rest ih =>
    have hsplit : c.columnNames ++ (first :: rest).map (·.column.name) =
        (c.columnNames ++ [first.column.name]) ++ rest.map (·.column.name) := by simp
    rw [hsplit] at h
    rw [conjoin, List.foldl_cons, ← conjoin,
      restrict_last (hentries first List.mem_cons_self).1 (List.pairwise_append.mp h).1,
      ih (fun e he => hentries e (List.mem_cons_of_mem _ he)) (by simpa [columnNames] using h)]
    simp

/-- A constraint in order is not rewritten by meeting the one that restricts nothing. -/
theorem all_intersect {c : Constraint} (h : c.WellFormed) : all.intersect c = c :=
  conjoin_of_pairwise h.2 h.1

theorem intersect_all {c : Constraint} (h : c.WellFormed) : c.intersect all = c := by
  rw [intersect, all, List.append_nil]
  exact all_intersect h

/-! ## Parts of a constraint -/

theorem wellFormed_filter {c : Constraint} (h : c.WellFormed) (keep : ColumnDomain → Bool) :
    (c.filter keep).WellFormed :=
  ⟨h.1.sublist (List.filter_sublist.map _), fun entry he => h.2 entry (List.mem_filter.mp he).1⟩

/-- **Constraints stay in order and mean conjunction.** What is made of entries, of whatever columns,
repeated ones and ones without restriction among them, is in order and allows a column what all its
entries have. Every operation keeps the order; the intersection allows what both allow, and replacing
a domain changes what its own column is allowed, to the new domain, and nothing else. -/
theorem conjunction_in_order {entries : List ColumnDomain}
    (hentries : ∀ entry ∈ entries, entry.domain.WellFormed) {a b : Constraint} (ha : a.WellFormed)
    (hb : b.WellFormed) :
    ((ofEntries entries).WellFormed ∧
      (∀ column d, Domain.WellFormed d → (a.withDomain column d).WellFormed) ∧
      (a.intersect b).WellFormed ∧ ∀ keep, (a.filter keep).WellFormed) ∧
    ∀ name v,
      ((ofEntries entries).allows name v = true ↔
        ∀ entry ∈ entries, entry.column.name = name → entry.domain.includes v = true) ∧
      ((a.intersect b).allows name v = true ↔ a.allows name v = true ∧ b.allows name v = true) ∧
      ∀ column d, (a.withDomain column d).allows name v =
        if name = column.name then d.includes v else a.allows name v := by
  refine ⟨⟨?_, fun column d => wellFormed_withDomain ha column, wellFormed_intersect ha hb,
    wellFormed_filter ha⟩, fun name v => ⟨?_, allows_intersect ha hb name v, fun column d => ?_⟩⟩
  · exact wellFormed_conjoin wellFormed_all hentries
  · exact (allows_conjoin wellFormed_all hentries name v).trans (and_iff_right rfl)
  · exact allows_withDomain ha.nodup column d name v

/-- Entries as they may be gathered: one column twice and once without restriction, another without
restriction first. -/
def gatheredEntries : List ColumnDomain :=
  [⟨⟨"updated_at", .timestamp⟩, .ranges [.greaterOrEqual (.timestamp 5)]⟩,
    ⟨⟨"owner", .varchar⟩, .all⟩, ⟨⟨"updated_at", .timestamp⟩, .all⟩,
    ⟨⟨"updated_at", .timestamp⟩, .ranges [.lessThan (.timestamp 9)]⟩,
    ⟨⟨"owner", .varchar⟩, .ofList [.varchar "p", .varchar "o"]⟩]

/-- They allow a change within both bounds and none past either of them, and lifting the restriction
of that column leaves the one of the owner. -/
theorem conjunction_in_order_gatheredEntries :
    (ofEntries gatheredEntries).allows "updated_at" (.timestamp 7) = true ∧
    (ofEntries gatheredEntries).allows "updated_at" (.timestamp 9) = false ∧
    ((ofEntries gatheredEntries).withDomain ⟨"updated_at", .timestamp⟩ .all).allows "updated_at"
      (.timestamp 9) = true ∧
    ((ofEntries gatheredEntries).withDomain ⟨"updated_at", .timestamp⟩ .all).allows "owner"
      (.varchar "q") = false := by
  have hentries : ∀ entry ∈ gatheredEntries, entry.domain.WellFormed := by decide +kernel
  obtain ⟨⟨hwellFormed, -⟩, -⟩ := conjunction_in_order hentries wellFormed_all wellFormed_all
  obtain ⟨-, hallows⟩ := conjunction_in_order hentries hwellFormed wellFormed_all
  refine ⟨(hallows _ _).1.mpr (by decide +kernel), ?_, ?_, ?_⟩
  · rw [← Bool.not_eq_true, (hallows _ _).1]
    decide +kernel
  · rw [(hallows _ _).2.2]
    rfl
  · rw [(hallows _ _).2.2, if_neg (by decide), ← Bool.not_eq_true, (hallows _ _).1]
    decide +kernel

theorem holds_filter {c : Constraint} {keep : ColumnDomain → Bool} {a : Assignment} :
    (c.filter keep).holds a = true ↔
      ∀ entry ∈ c.entries, keep entry = true → entry.holds a = true := by
  simp [holds_iff, filter]

theorem not_holds_of_isNone {c : Constraint} (h : c.isNone = true) (a : Assignment) :
    c.holds a = false := by
  obtain ⟨entry, he, hnone⟩ := List.any_eq_true.mp h
  rw [← Bool.not_eq_true, holds_iff]
  intro hheld
  obtain ⟨v, -, hv⟩ := (entry.holds_iff a).mp (hheld entry he)
  rw [Domain.not_includes_of_isNone hnone v] at hv
  exact Bool.noConfusion hv

end Constraint
end RemoteTables
