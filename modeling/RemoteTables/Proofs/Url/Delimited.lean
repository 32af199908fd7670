import RemoteTables.Proofs.Attempts
import RemoteTables.Proofs.Url.Percent
import RemoteTables.Url.Basic

/-!
# Where the parts of an address meet

An address is a text, and its parts are found by the first number sign, the first question mark and
the slashes in front of them. `Delimited` says that these stand only between the parts, and that no
segment is a name for this place or for the one above, which would take the path elsewhere. Every
address that was read has the property (`delimited_read`).
-/

set_option autoImplicit false

namespace RemoteTables
namespace Text

/-- The parts between separators are of the text, and without a separator. -/
theorem mem_splitOn {separator c : Char} {text part : List Char}
    (hpart : part ∈ splitOn separator text) (hc : c ∈ part) : c ∈ text ∧ c ≠ separator := by
  induction text generalizing part with
  | nil =>
    obtain rfl := List.mem_singleton.mp hpart
    exact absurd hc List.not_mem_nil
  | cons first rest ih =>
    have hrest (hpart : part ∈ splitOn separator rest) : c ∈ first :: rest ∧ c ≠ separator :=
      (ih hpart hc).imp_left (List.mem_cons_of_mem first)
    rw [splitOn] at hpart
    split at hpart
    next =>
      rcases List.mem_cons.mp hpart with rfl | hpart
      · exact absurd hc List.not_mem_nil
      · exact hrest hpart
    next hfirst =>
      -- the first character joins the first of the other parts
      split at hpart
      next hparts =>
        obtain rfl := List.mem_singleton.mp hpart
        obtain rfl := List.mem_singleton.mp hc
        exact ⟨List.mem_cons_self, hfirst⟩
      next joined parts hparts =>
        rcases List.mem_cons.mp hpart with rfl | hpart
        · rcases List.mem_cons.mp hc with rfl | hc
          · exact ⟨List.mem_cons_self, hfirst⟩
          · exact (ih (hparts ▸ List.mem_cons_self) hc).imp_left (List.mem_cons_of_mem first)
        · exact hrest (hparts ▸ List.mem_cons_of_mem joined hpart)

theorem splitOn_ne_nil (separator : Char) (text : List Char) : splitOn separator text ≠ [] := by
  cases text with
  | nil => exact List.cons_ne_nil _ _
  | cons c text =>
    rw [splitOn]
    split
    · exact List.cons_ne_nil _ _
    · split <;> exact List.cons_ne_nil _ _

theorem splitOn_append (separator : Char) (first second : List Char) :
    splitOn separator (first ++ separator :: second) =
      splitOn separator first ++ splitOn separator second := by
  induction first with
  | nil => exact if_pos rfl
  | cons c first ih =>
    rw [List.cons_append, splitOn, splitOn, ih]
    split
    · rfl
    · cases hparts : splitOn separator first with
      | nil => exact absurd hparts (splitOn_ne_nil separator first)
      | cons part parts => rfl

theorem splitOn_of_not_mem {separator : Char} {text : List Char} (h : separator ∉ text) :
    splitOn separator text = [text] := by
  induction text with
  | nil => rfl
  | cons c text ih =>
    obtain ⟨hc, htext⟩ := not_or.mp (mt List.mem_cons.mpr h)
    rw [splitOn, if_neg (Ne.symm hc), ih htext]

end Text

namespace Url

/-- Whether a segment is a single one, which no character of it ends. -/
structure Unbroken (special : Bool) (segment : List Char) : Prop where
  slash : '/' ∉ segment
  backslash : special = true → '\\' ∉ segment
  question : '?' ∉ segment
  number : '#' ∉ segment

/-- Whether a segment is a single one and stays where it is. -/
structure Confined (special : Bool) (segment : List Char) : Prop extends
    Unbroken special segment where
  here : isHere segment = false
  above : isAbove segment = false

/-- Whether the parts of an address are told apart by the signs between them. -/
structure Delimited (u : Url) : Prop where
  path : ∀ path, u.path = .segments path → ∀ segment ∈ path, Confined (isSpecial u.scheme) segment
  query : ∀ query ∈ u.query, '#' ∉ query

theorem ne_of_isAlpha {letter c : Char} (hletter : letter.isAlpha = true)
    (hc : c.isAlpha = false) : letter ≠ c := by
  rintro rfl
  rw [hc] at hletter
  cases hletter

theorem isDrive_iff {text : List Char} : isDrive text = true ↔
    ∃ letter mark, text = [letter, mark] ∧ letter.isAlpha = true ∧ (mark = ':' ∨ mark = '|') := by
  unfold isDrive
  split
  · rw [Bool.and_eq_true_iff, Bool.or_eq_true_iff, decide_eq_true_iff, decide_eq_true_iff]
    refine ⟨fun h => ⟨_, _, rfl, h⟩, ?_⟩
    rintro ⟨letter, mark, hsame, h⟩
    cases hsame
    exact h
  · rename_i hlength
    refine ⟨fun h => absurd h (by simp), ?_⟩
    rintro ⟨letter, mark, rfl, -⟩
    exact absurd rfl (hlength letter mark)

theorem confined_nil (special : Bool) : Confined special [] :=
  ⟨⟨List.not_mem_nil, fun _ => List.not_mem_nil, List.not_mem_nil, List.not_mem_nil⟩, rfl, rfl⟩

/-! ## Paths -/

section Path

variable {special : Bool} {path : List (List Char)}

theorem confined_append {added : List (List Char)}
    (hpath : ∀ segment ∈ path, Confined special segment)
    (hadded : ∀ segment ∈ added, Confined special segment) :
    ∀ segment ∈ path ++ added, Confined special segment :=
  List.forall_mem_append.mpr ⟨hpath, hadded⟩

theorem confined_dropLast (hpath : ∀ segment ∈ path, Confined special segment) :
    ∀ segment ∈ path.dropLast, Confined special segment := fun segment hsegment =>
  hpath segment (List.dropLast_subset path hsegment)

theorem confined_shorten (file : Bool) (hpath : ∀ segment ∈ path, Confined special segment) :
    ∀ segment ∈ shorten file path, Confined special segment := by
  unfold shorten
  split
  · split
    · exact hpath
    · exact fun _ hnone => absurd hnone List.not_mem_nil
  · exact confined_dropLast hpath

/-- The letter of a drive is a segment of its own. -/
theorem confined_driveForm {segment : List Char} (h : Confined special segment) :
    Confined special (driveForm segment) := by
  unfold driveForm
  split
  next hdrive =>
    obtain ⟨letter, mark, rfl, hletter, -⟩ := isDrive_iff.mp hdrive
    have hsign : ∀ c, c.isAlpha = false → c ≠ ':' → c ∉ [letter, ':'] := by
      intro c hc hcolon hmem
      rcases List.mem_cons.mp hmem with hfirst | hmem
      · exact ne_of_isAlpha hletter hc hfirst.symm
      · exact hcolon (List.mem_singleton.mp hmem)
    have hshown : showPoints [letter, ':'] = [letter, ':'] := by simp [showPoints]
    refine ⟨⟨hsign '/' rfl (by decide), fun _ => hsign '\\' rfl (by decide),
      hsign '?' rfl (by decide), hsign '#' rfl (by decide)⟩, ?_, ?_⟩
    · exact decide_eq_false fun hpoints => by simp [hshown] at hpoints
    · exact decide_eq_false fun hpoints => by simp [hshown] at hpoints
  next => exact h

theorem confined_extend (file : Bool) {added : List Char}
    (hpath : ∀ segment ∈ path, Confined special segment) (h : Confined special added) :
    ∀ segment ∈ extend file path added, Confined special segment := by
  refine confined_append hpath (List.forall_mem_singleton.mpr ?_)
  split
  · exact confined_driveForm h
  · exact h

theorem confined_addWritten (file : Bool) {written : List Char} (last : Bool)
    (hpath : ∀ segment ∈ path, Confined special segment) (h : Unbroken special written) :
    ∀ segment ∈ addWritten file path last written, Confined special segment := by
  have hending : ∀ segment ∈ (if last then [[]] else [] : List (List Char)),
      Confined special segment := by
    cases last with
    | false => exact fun _ hnone => absurd hnone List.not_mem_nil
    | true => exact List.forall_mem_singleton.mpr (confined_nil special)
  unfold addWritten
  dsimp only
  by_cases habove : isAbove written = true
  · rw [if_pos habove]
    exact confined_append (confined_shorten file hpath) hending
  · rw [if_neg habove]
    by_cases hhere : isHere written = true
    · rw [if_pos hhere]
      exact confined_append hpath hending
    · rw [if_neg hhere]
      refine confined_extend file hpath ⟨h, ?_, ?_⟩
      · exact Bool.eq_false_iff.mpr hhere
      · exact Bool.eq_false_iff.mpr habove

theorem confined_addAll (file : Bool) {written : List (List Char)}
    (hpath : ∀ segment ∈ path, Confined special segment)
    (hwritten : ∀ segment ∈ written, Unbroken special segment) :
    ∀ segment ∈ addAll file path written, Confined special segment := by
  fun_induction addAll file path written with
  | case1 path => exact hpath
  | case2 path last => exact confined_addWritten file true hpath (hwritten last List.mem_cons_self)
  | case3 path segment rest _ ih =>
    obtain ⟨hsegment, hrest⟩ := List.forall_mem_cons.mp hwritten
    exact ih (confined_addWritten file false hpath hsegment) hrest

theorem confined_readPath (scheme text : List Char) :
    ∀ segment ∈ readPath scheme text, Confined (isSpecial scheme) segment := by
  refine confined_addAll _ (fun _ hnone => absurd hnone List.not_mem_nil) fun segment hsegment => ?_
  obtain ⟨part, hpart, rfl⟩ := List.mem_map.mp hsegment
  refine ⟨?_, fun hspecial => ?_, ?_, ?_⟩
  · exact Percent.not_mem_encode (.inr fun h => (Text.mem_splitOn hpart h).2 rfl) (by decide)
  · -- all backslashes have become slashes
    refine Percent.not_mem_encode (.inr fun h => ?_) (by decide)
    obtain ⟨c, -, hc⟩ := List.mem_map.mp (Text.mem_splitOn hpart h).1
    rw [hspecial, Bool.true_and] at hc
    split at hc
    next => exact absurd hc (by decide)
    next hne => exact hne (by rw [hc]; decide)
  · exact Percent.not_mem_encode (.inl (by decide)) (by decide)
  · exact Percent.not_mem_encode (.inl (by decide)) (by decide)

theorem confined_readPathStart (scheme text : List Char) :
    ∀ segment ∈ readPathStart scheme text, Confined (isSpecial scheme) segment := by
  unfold readPathStart
  split
  · split
    · exact List.forall_mem_singleton.mpr (confined_nil _)
    · exact fun _ hnone => absurd hnone List.not_mem_nil
  all_goals exact confined_readPath scheme _

end Path

/-! ## Reading -/

/-- A path that is read behind a scheme: a flat one, or one of segments. -/
def ReadsPath (scheme : List Char) (path : List Char → UrlPath) : Prop :=
  (∀ text, ∃ flat, path text = .flat flat) ∨
    ∀ text, path text = .segments (readPathStart scheme text)

theorem delimited_assemble {scheme : List Char} {path : List Char → UrlPath}
    (hpath : ReadsPath scheme path) (authority : Option (List Char)) (text : List Char) :
    (assemble scheme authority text path).Delimited := by
  constructor
  · intro found hfound
    rcases hpath with hpath | hpath
    · obtain ⟨flat, hflat⟩ := hpath (splitEnd text).1
      exact absurd (hflat.symm.trans hfound) (by simp)
    · obtain rfl := UrlPath.segments.inj ((hpath _).symm.trans hfound)
      exact confined_readPathStart _ _
  · intro query hquery
    obtain ⟨written, -, rfl⟩ := Option.map_eq_some_iff.mp hquery
    refine Percent.not_mem_encode (.inl ?_) (by decide)
    cases isSpecial scheme <;> decide

theorem delimited_readFile {forms : DomainName.Forms} {scheme text : List Char} {u : Url}
    (h : readFile forms scheme text = .ok u) : u.Delimited := by
  have hpath : ReadsPath scheme fun text => .segments (readPathStart scheme text) :=
    .inr fun text => rfl
  unfold readFile at h
  dsimp only at h
  split at h
  next a b rest =>
    split at h
    next =>
      split at h
      next =>
        obtain rfl := Except.ok.inj h
        exact delimited_assemble hpath _ _
      next =>
        -- whether there is a host or none, only the authority differs
        split at h
        all_goals
          obtain ⟨written, -, h⟩ := bind_eq_ok_iff.mp h
          obtain rfl := Except.ok.inj h
          exact delimited_assemble hpath _ _
    next =>
      obtain rfl := Except.ok.inj h
      exact delimited_assemble hpath _ _
  next =>
    obtain rfl := Except.ok.inj h
    exact delimited_assemble hpath _ _

theorem delimited_readAfterScheme {forms : DomainName.Forms} {scheme text : List Char} {u : Url}
    (h : readAfterScheme forms scheme text = .ok u) : u.Delimited := by
  have hpath : ReadsPath scheme fun text => .segments (readPathStart scheme text) :=
    .inr fun text => rfl
  unfold readAfterScheme at h
  dsimp only at h
  by_cases hfile : isFile scheme = true
  · rw [if_pos hfile] at h
    exact delimited_readFile h
  · rw [if_neg hfile] at h
    by_cases hspecial : isSpecial scheme = true
    · rw [if_pos hspecial] at h
      obtain ⟨⟨authority, rest⟩, -, h⟩ := bind_eq_ok_iff.mp h
      obtain rfl := Except.ok.inj h
      exact delimited_assemble hpath _ _
    · rw [if_neg hspecial] at h
      split at h
      next rest =>
        obtain ⟨⟨authority, rest⟩, -, h⟩ := bind_eq_ok_iff.mp h
        obtain rfl := Except.ok.inj h
        exact delimited_assemble hpath _ _
      next =>
        obtain rfl := Except.ok.inj h
        exact delimited_assemble hpath _ _
      next =>
        obtain rfl := Except.ok.inj h
        exact delimited_assemble (.inl fun text => ⟨_, rfl⟩) _ _

/-- **The parts of an address that was read are told apart.** -/
theorem delimited_read {forms : DomainName.Forms} {text : String} {u : Url}
    (h : read forms text = .ok u) : u.Delimited := by
  unfold read at h
  split at h
  · exact delimited_readAfterScheme h
  · cases h

end Url
end RemoteTables
