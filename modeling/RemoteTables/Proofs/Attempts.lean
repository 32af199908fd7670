/-!
# Steps that may fail

A step after another succeeds only if both do. Steps over a list succeed together if each of them
does, and only then. What they give is then known item by item.
-/

set_option autoImplicit false

namespace RemoteTables

theorem bind_eq_ok_iff {ε α β : Type} {first : Except ε α} {next : α → Except ε β} {value : β} :
    first >>= next = .ok value ↔ ∃ found, first = .ok found ∧ next found = .ok value := by
  constructor
  · intro h
    cases first with
    | error failure => cases h
    | ok found => exact ⟨found, rfl, h⟩
  · rintro ⟨found, rfl, h⟩
    exact h

theorem mapError_eq_ok_iff {ε δ α : Type} {f : ε → δ} {step : Except ε α} {value : α} :
    step.mapError f = .ok value ↔ step = .ok value := by
  constructor
  · intro h
    cases step with
    | error failure => cases h
    | ok found =>
      obtain rfl := Except.ok.inj h
      rfl
  · rintro rfl
    rfl

/-- **Steps succeed together if and only if each of them does**, with what it gives. -/
theorem mapM_eq_ok_iff {α γ ε : Type} {f : α → Except ε γ} {items : List α} {values : List γ} :
    items.mapM f = .ok values ↔ items.map f = values.map .ok := by
  induction items generalizing values with
  | nil =>
    cases values with
    | nil => exact iff_of_true rfl rfl
    | cons value rest => exact iff_of_false (fun h => nomatch h) (fun h => nomatch h)
  | cons item rest ih =>
    rw [List.mapM_cons, bind_eq_ok_iff, List.map_cons]
    constructor
    · rintro ⟨first, hfirst, h⟩
      obtain ⟨others, hothers, h⟩ := bind_eq_ok_iff.mp h
      obtain rfl := Except.ok.inj h
      rw [hfirst, ih.mp hothers, List.map_cons]
    · intro h
      cases values with
      | nil => cases h
      | cons first others =>
        obtain ⟨hfirst, hothers⟩ := List.cons.inj h
        exact ⟨first, hfirst, bind_eq_ok_iff.mpr ⟨others, ih.mpr hothers, rfl⟩⟩

/-- Steps that all succeed succeed together. -/
theorem mapM_eq_ok {α γ ε : Type} {f : α → Except ε γ} {g : α → γ} {items : List α}
    (h : ∀ item ∈ items, f item = .ok (g item)) : items.mapM f = .ok (items.map g) := by
  rw [mapM_eq_ok_iff, List.map_map]
  exact List.map_congr_left h

/-- What a step gave that succeeded together with others stands at its place. -/
theorem getElem?_of_mapM_eq_ok {α γ ε : Type} {f : α → Except ε γ} {items : List α}
    {values : List γ} (h : items.mapM f = .ok values) {i : Nat} {item : α}
    (hitem : items[i]? = some item) : ∃ value, values[i]? = some value ∧ f item = .ok value := by
  have hplace := congrArg (·[i]?) (mapM_eq_ok_iff.mp h)
  simp only [List.getElem?_map, hitem, Option.map_some] at hplace
  obtain ⟨value, hvalue, hgives⟩ := Option.map_eq_some_iff.mp hplace.symm
  exact ⟨value, hvalue, hgives.symm⟩

theorem length_of_mapM_eq_ok {α γ ε : Type} {f : α → Except ε γ} {items : List α}
    {values : List γ} (h : items.mapM f = .ok values) : values.length = items.length := by
  simpa using (congrArg List.length (mapM_eq_ok_iff.mp h)).symm

/-- Steps that succeed together have each succeeded, and what they gave is all there is. -/
theorem exists_of_mapM_eq_ok {α γ ε : Type} {f : α → Except ε γ} {items : List α} {values : List γ}
    (h : items.mapM f = .ok values) :
    (∀ item ∈ items, ∃ value, f item = .ok value) ∧
      ∀ value ∈ values, ∃ item ∈ items, f item = .ok value := by
  have hmap := mapM_eq_ok_iff.mp h
  constructor
  · intro item hitem
    have hgiven : f item ∈ values.map Except.ok := hmap ▸ List.mem_map_of_mem hitem
    obtain ⟨value, -, hvalue⟩ := List.mem_map.mp hgiven
    exact ⟨value, hvalue.symm⟩
  · intro value hvalue
    have hgiven : Except.ok value ∈ items.map f := hmap ▸ List.mem_map_of_mem hvalue
    exact List.mem_map.mp hgiven

/-- Steps that check an item and give what is known of it succeed together on items that all pass. -/
theorem mapM_eq_ok_iff_of_checks {α γ ε : Type} {f : α → Except ε γ} {g : α → γ} {p : α → Prop}
    (h : ∀ item value, f item = .ok value ↔ value = g item ∧ p item) {items : List α}
    {values : List γ} :
    items.mapM f = .ok values ↔ values = items.map g ∧ ∀ item ∈ items, p item := by
  have hgives : (∀ item ∈ items, p item) → items.mapM f = .ok (items.map g) := fun hpass =>
    mapM_eq_ok fun item hitem => (h item (g item)).mpr ⟨rfl, hpass item hitem⟩
  constructor
  · intro hvalues
    have hpass : ∀ item ∈ items, p item := fun item hitem =>
      let ⟨value, hvalue⟩ := (exists_of_mapM_eq_ok hvalues).1 item hitem
      ((h item value).mp hvalue).2
    exact ⟨Except.ok.inj (hvalues.symm.trans (hgives hpass)), hpass⟩
  · rintro ⟨rfl, hpass⟩
    exact hgives hpass

end RemoteTables
