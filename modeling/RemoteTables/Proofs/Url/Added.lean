import RemoteTables.Proofs.Url.Delimited
import RemoteTables.Url.Extend

/-!
# What is added to an address

A segment that is added decodes to its text without the tabs and line breaks that are dropped from
it (`decode_encodeSegment`), and if that is neither empty nor only points, it stands behind the
segments that were there (`foldl_addSegment`), as it is or as the letter of a drive. Otherwise it may
take another one away; but whatever it does, the address stays delimited (`Delimited.addSegments`).

Parameters are read back from a query as a form (`formPairs`), where each side is given by the bytes
of its text. Adding some puts them behind those that were there (`formPairs_addParameters`).
-/

set_option autoImplicit false

namespace RemoteTables

/-- The segments of a path, but for an empty one at its end. -/
def UrlPath.stem : UrlPath → List (List Char)
  | .flat _ => []
  | .segments path => if path.getLast? = some [] then path.dropLast else path

namespace Url

/-- Whether a character is dropped from everything that is written: a tab or a line break. -/
def isDropped (c : Char) : Bool := ['\t', '\n', '\r'].contains c

theorem isDropped_eq_false {c : Char} : isDropped c = false ↔ c ≠ '\t' ∧ c ≠ '\n' ∧ c ≠ '\r' := by
  simp [isDropped]

/-! ## Segments -/

/-- A segment of points, however these are written, decodes to points. -/
theorem decode_of_showPoints {segment : List Char} {n : Nat}
    (h : showPoints segment = List.replicate n '.') :
    Percent.decode segment = Text.utf8 (List.replicate n '.') := by
  fun_induction showPoints segment generalizing n with
  | case1 rest ih =>
    obtain _ | n := n
    · cases h
    · rw [List.replicate_succ, Text.utf8_cons, ← ih (List.cons.inj h).2]
      rfl
  | case2 rest ih =>
    obtain _ | n := n
    · cases h
    · rw [List.replicate_succ, Text.utf8_cons, ← ih (List.cons.inj h).2]
      rfl
  | case3 c rest _ _ ih =>
    obtain _ | n := n
    · cases h
    · obtain ⟨rfl, hrest⟩ := List.cons.inj h
      rw [List.replicate_succ, Text.utf8_cons, ← ih hrest]
      exact Percent.decode_cons (by decide) rest
  | case4 =>
    obtain _ | n := n
    · rfl
    · cases h

theorem decode_encodeSegment (special : Bool) (text : String) :
    Percent.decode (encodeSegment special text) =
      Text.utf8 (text.toList.filter fun c => !isDropped c) :=
  Percent.decode_encode (by rfl) _

theorem text?_encodeSegment (special : Bool) (text : String) :
    Percent.text? (Percent.decode (encodeSegment special text)) =
      some (String.ofList (text.toList.filter fun c => !isDropped c)) := by
  rw [decode_encodeSegment, ← Percent.text?_utf8, String.toList_ofList]

theorem unbroken_encodeSegment (special : Bool) (text : String) :
    Unbroken special (encodeSegment special text) where
  slash := Percent.not_mem_encode (.inl (by rfl)) (by decide)
  backslash hspecial := Percent.not_mem_encode (.inl (by rw [hspecial]; rfl)) (by decide)
  question := Percent.not_mem_encode (.inl (by rfl)) (by decide)
  number := Percent.not_mem_encode (.inl (by rfl)) (by decide)

/-- An encoded segment is points only if these are written as they are. -/
theorem encodeSegment_of_showPoints {special : Bool} {text : String} {n : Nat}
    (h : showPoints (encodeSegment special text) = List.replicate n '.') :
    encodeSegment special text = List.replicate n '.' := by
  have hpoints : text.toList.filter (fun c => !isDropped c) = List.replicate n '.' :=
    Percent.utf8_inj ((decode_encodeSegment special text).symm.trans (decode_of_showPoints h))
  show Percent.encode _ (text.toList.filter fun c => !isDropped c) = _
  rw [hpoints]
  refine Percent.encode_of_plain fun c hc => ?_
  rw [List.eq_of_mem_replicate hc]
  cases special <;> decide

theorem confined_encodeSegment {special : Bool} {text : String}
    (hhere : encodeSegment special text ≠ ['.'])
    (habove : encodeSegment special text ≠ ['.', '.']) :
    Confined special (encodeSegment special text) where
  toUnbroken := unbroken_encodeSegment special text
  here := decide_eq_false fun h => hhere (encodeSegment_of_showPoints (n := 1) h)
  above := decide_eq_false fun h => habove (encodeSegment_of_showPoints (n := 2) h)

theorem confined_addSegment {special : Bool} (file : Bool) {path : List (List Char)}
    {segment : List Char} (hpath : ∀ part ∈ path, Confined special part)
    (hsegment : segment ≠ ['.'] → segment ≠ ['.', '.'] → Confined special segment) :
    ∀ part ∈ addSegment file path segment, Confined special part := by
  have hempty := List.forall_mem_singleton.mpr (confined_nil special)
  have hfront : ∀ part ∈ front path, Confined special part := by
    unfold front
    split
    · exact fun _ hnone => absurd hnone List.not_mem_nil
    · exact hpath
  unfold addSegment
  split
  next => exact confined_append (confined_shorten file hfront) hempty
  next habove =>
    split
    next => exact confined_append hfront hempty
    next hhere => exact confined_extend file hfront (hsegment hhere habove)

theorem confined_foldl_addSegment {special : Bool} (file : Bool) {path : List (List Char)}
    (texts : List String) (hpath : ∀ part ∈ path, Confined special part) :
    ∀ part ∈ (texts.map (encodeSegment special)).foldl (addSegment file) path,
      Confined special part := by
  induction texts generalizing path with
  | nil => exact hpath
  | cons text texts ih => exact ih (confined_addSegment file hpath confined_encodeSegment)

theorem confined_withoutEmptyEnd {special : Bool} {path : List (List Char)}
    (hpath : ∀ part ∈ path, Confined special part) :
    ∀ part ∈ withoutEmptyEnd path, Confined special part := by
  unfold withoutEmptyEnd
  split
  · exact confined_dropLast hpath
  · exact hpath

theorem withoutEmptyEnd_sublist (path : List (List Char)) :
    (withoutEmptyEnd path).Sublist path := by
  unfold withoutEmptyEnd
  split
  · exact List.dropLast_sublist path
  · exact List.Sublist.refl path

/-- A path is what is left of it without an empty segment at its end, unless it is two slashes. -/
theorem front_withoutEmptyEnd {path : List (List Char)} (h : path ≠ [[], []]) :
    front (withoutEmptyEnd path) = (UrlPath.segments path).stem := by
  rw [withoutEmptyEnd, UrlPath.stem]
  by_cases hlone : path = [[]]
  · subst hlone
    rfl
  simp only [ne_eq, hlone, not_false_eq_true, true_and]
  refine if_neg fun hfront => ?_
  split at hfront
  next hlast =>
    obtain ⟨before, rfl⟩ := List.getLast?_eq_some_iff.mp hlast
    rw [List.dropLast_concat] at hfront
    subst hfront
    exact h rfl
  next => exact hlone hfront

/-! ### Drives -/

theorem decode_drive {letter mark : Char} (hletter : letter.isAlpha = true) (hmark : mark ≠ '%') :
    Percent.text? (Percent.decode [letter, mark]) = some (String.ofList [letter, mark]) := by
  have hbytes : Percent.decode [letter, mark] = Text.utf8 (String.ofList [letter, mark]).toList := by
    rw [Percent.decode_cons (ne_of_isAlpha hletter rfl), Percent.decode_cons hmark,
      String.toList_ofList, Text.utf8_cons, Text.utf8_cons]
    rfl
  rw [hbytes, Percent.text?_utf8]

theorem isPrintable_of_isAlpha {c : Char} (h : c.isAlpha = true) :
    Percent.isPrintable c = true := by
  have hrange : 65 ≤ c.val.toNat ∧ c.val.toNat ≤ 90 ∨ 97 ≤ c.val.toNat ∧ c.val.toNat ≤ 122 := by
    rcases Bool.or_eq_true_iff.mp (show (c.isUpper || c.isLower) = true from h) with h | h
    · exact .inl (of_decide_eq_true h)
    · have hlower := Bool.and_eq_true_iff.mp
        (show (decide (97 ≤ c.val.toNat) && decide (c.val.toNat ≤ 122)) = true from h)
      exact .inr (hlower.imp of_decide_eq_true of_decide_eq_true)
  simp only [Percent.isPrintable, Bool.and_eq_true, decide_eq_true_eq, Char.le_def,
    UInt32.le_iff_toNat_le]
  show 32 ≤ c.val.toNat ∧ c.val.toNat ≤ 126
  omega

theorem plainInSegment_of_isAlpha (special : Bool) {c : Char} (h : c.isAlpha = true) :
    Percent.plainInSegment special c = true := by
  have hsign := fun sign : Char => ne_of_isAlpha (c := sign) h
  simp [Percent.plainInSegment, Percent.plainInPath, Percent.plainInFragment,
    isPrintable_of_isAlpha h, hsign]

/-- A letter with a bar is a drive, and has a colon in its form. -/
theorem driveForm_encodeSegment {letter : Char} (h : letter.isAlpha = true) (special : Bool) :
    driveForm (encodeSegment special (String.ofList [letter, '|'])) = [letter, ':'] := by
  have hplain : encodeSegment special (String.ofList [letter, '|']) = [letter, '|'] := by
    have hkept : isDropped letter = false :=
      isDropped_eq_false.mpr ⟨ne_of_isAlpha h rfl, ne_of_isAlpha h rfl, ne_of_isAlpha h rfl⟩
    show Percent.encode _ ((String.ofList [letter, '|']).toList.filter fun c => !isDropped c) = _
    rw [String.toList_ofList, List.filter_cons_of_pos (by rw [hkept]; rfl)]
    refine Percent.encode_of_plain (List.forall_mem_cons.mpr ⟨plainInSegment_of_isAlpha special h,
      List.forall_mem_singleton.mpr ?_⟩)
    cases special <;> rfl
  rw [hplain, driveForm, if_pos (isDrive_iff.mpr ⟨letter, '|', rfl, h, Or.inr rfl⟩)]
  rfl

/-- Any other text has its form. -/
theorem driveForm_eq_self {special : Bool} {text : String}
    (hdecoded : Percent.text? (Percent.decode (encodeSegment special text)) = some text)
    (h : ∀ letter : Char, letter.isAlpha = true → text ≠ String.ofList [letter, '|']) :
    driveForm (encodeSegment special text) = encodeSegment special text := by
  unfold driveForm
  split
  next hdrive =>
    obtain ⟨letter, mark, hsegment, hletter, rfl | rfl⟩ := isDrive_iff.mp hdrive
    · rw [hsegment]
      rfl
    · rw [hsegment, decode_drive hletter (by decide)] at hdecoded
      exact absurd (Option.some.inj hdecoded).symm (h letter hletter)
  next => rfl

/-! ### Segments that stay -/

/-- Whether an encoded segment stays one when it is added. -/
def Stays (segment : List Char) : Prop :=
  segment ≠ [] ∧ segment ≠ ['.'] ∧ segment ≠ ['.', '.']

theorem addSegment_of_stays (file : Bool) (path : List (List Char)) {segment : List Char}
    (h : Stays segment) : addSegment file path segment = extend file (front path) segment := by
  rw [addSegment, if_neg h.2.2, if_neg h.2.1]

theorem driveForm_ne_nil {segment : List Char} (h : segment ≠ []) : driveForm segment ≠ [] := by
  unfold driveForm
  split
  · simp
  · exact h

theorem front_extend (file : Bool) (path : List (List Char)) {segment : List Char}
    (h : segment ≠ []) : front (extend file path segment) = extend file path segment := by
  refine if_neg fun hlone => ?_
  have hlast := List.getLast?_concat.symm.trans (congrArg List.getLast? hlone)
  rw [List.getLast?_singleton, Option.some.injEq] at hlast
  split at hlast
  · exact driveForm_ne_nil h hlast
  · exact h hlast

/-- Segments that stay stand behind one that was added. -/
theorem foldl_addSegment_extend (file : Bool) (path : List (List Char)) {segment : List Char}
    (hsegment : segment ≠ []) {added : List (List Char)} (h : ∀ segment ∈ added, Stays segment) :
    added.foldl (addSegment file) (extend file path segment) =
      extend file path segment ++ added := by
  induction added generalizing path segment with
  | nil => exact (List.append_nil _).symm
  | cons next added ih =>
    obtain ⟨hnext, hadded⟩ := List.forall_mem_cons.mp h
    have hbehind : extend file (extend file path segment) next =
        extend file path segment ++ [next] := by
      rw [extend.eq_1 file (extend file path segment), extend]
      simp
    rw [List.foldl_cons, addSegment_of_stays file _ hnext, front_extend file path hsegment,
      ih _ hnext.1 hadded, hbehind, List.append_assoc]
    rfl

/-- **Segments that stay stand behind those that were there**; the first of them may be a drive. -/
theorem foldl_addSegment (file : Bool) (path : List (List Char)) {segment : List Char}
    {added : List (List Char)} (h : ∀ part ∈ segment :: added, Stays part) :
    (segment :: added).foldl (addSegment file) path = extend file (front path) segment ++ added := by
  obtain ⟨hsegment, hadded⟩ := List.forall_mem_cons.mp h
  rw [List.foldl_cons, addSegment_of_stays file path hsegment,
    foldl_addSegment_extend file _ hsegment.1 hadded]

/-! ## Parameters -/

/-- The name and the value of a part of a form, which its first equals sign keeps apart. -/
def formPair (part : List Char) : List UInt8 × List UInt8 :=
  (Percent.decodeForm (part.takeWhile (· != '=')),
    Percent.decodeForm ((part.dropWhile (· != '=')).drop 1))

/-- The pairs of a form, whose parts are kept apart by ampersands. -/
def formPairs (form : List Char) : List (List UInt8 × List UInt8) :=
  ((Text.splitOn '&' form).filter (· ≠ [])).map formPair

theorem formPairs_append (first second : List Char) :
    formPairs (first ++ '&' :: second) = formPairs first ++ formPairs second := by
  unfold formPairs
  rw [Text.splitOn_append, List.filter_append, List.map_append]

/-- The bytes of a parameter's name and value. -/
def bytesOf (pair : String × String) : List UInt8 × List UInt8 :=
  (Text.utf8 pair.1.toList, Text.utf8 pair.2.toList)

theorem not_mem_encodeForm {c : Char} (hplain : Percent.plainInForm c = false) (hplus : c ≠ '+')
    (hescape : c ∉ Percent.escapeChars) (text : List Char) : c ∉ Percent.encodeForm text := by
  intro h
  rcases Percent.mem_encodeForm h with h | h | h
  · rw [hplain] at h
    cases h
  · exact hplus h
  · exact hescape h

theorem not_mem_encodeParameter {c : Char} (hplain : Percent.plainInForm c = false)
    (hsign : c ≠ '+' ∧ c ≠ '=') (hescape : c ∉ Percent.escapeChars) (pair : String × String) :
    c ∉ encodeParameter pair := by
  intro h
  rcases List.mem_append.mp h with h | h
  · exact not_mem_encodeForm hplain hsign.1 hescape _ h
  · rcases List.mem_cons.mp h with h | h
    · exact hsign.2 h
    · exact not_mem_encodeForm hplain hsign.1 hescape _ h

theorem formPair_encodeParameter (pair : String × String) :
    formPair (encodeParameter pair) = bytesOf pair := by
  have hname : ∀ c ∈ Percent.encodeForm pair.1.toList, (c != '=') = true := fun c hc =>
    bne_iff_ne.mpr fun h => not_mem_encodeForm (by rfl) (by decide) (by decide) _ (h ▸ hc)
  unfold formPair encodeParameter
  rw [List.takeWhile_append_of_pos hname, List.dropWhile_append_of_pos hname,
    List.takeWhile_cons_of_neg (by decide), List.dropWhile_cons_of_neg (by decide),
    List.append_nil, List.drop_succ_cons, List.drop_zero, Percent.decodeForm_encodeForm,
    Percent.decodeForm_encodeForm]
  rfl

/-- A parameter is read back from a form that it alone makes up. -/
theorem formPairs_encodeParameter (pair : String × String) :
    formPairs (encodeParameter pair) = [bytesOf pair] := by
  have hone : '&' ∉ encodeParameter pair :=
    not_mem_encodeParameter (by rfl) (by decide) (by decide) pair
  have hsome : encodeParameter pair ≠ [] := by simp [encodeParameter]
  rw [formPairs, Text.splitOn_of_not_mem hone, List.filter_cons_of_pos (by simpa using hsome)]
  exact congrArg (· :: []) (formPair_encodeParameter pair)

theorem formPairs_encodeParameters (pairs : List (String × String)) :
    formPairs ((pairs.map encodeParameter).intersperse ['&']).flatten = pairs.map bytesOf := by
  induction pairs with
  | nil => rfl
  | cons pair pairs ih =>
    cases pairs with
    | nil => simpa using formPairs_encodeParameter pair
    | cons next rest =>
      show formPairs (encodeParameter pair ++
        '&' :: (((next :: rest).map encodeParameter).intersperse ['&']).flatten) = _
      rw [formPairs_append, formPairs_encodeParameter, ih]
      rfl

theorem number_not_mem_encodeParameters (pairs : List (String × String)) :
    '#' ∉ ((pairs.map encodeParameter).intersperse ['&']).flatten := by
  have hone (pair : String × String) : '#' ∉ encodeParameter pair :=
    not_mem_encodeParameter (by rfl) (by decide) (by decide) pair
  induction pairs with
  | nil => exact List.not_mem_nil
  | cons pair pairs ih =>
    cases pairs with
    | nil => simpa using hone pair
    | cons next rest =>
      show '#' ∉ encodeParameter pair ++
        '&' :: (((next :: rest).map encodeParameter).intersperse ['&']).flatten
      intro h
      rcases List.mem_append.mp h with h | h
      · exact hone pair h
      · exact ih (List.mem_of_ne_of_mem (by decide) h)

/-- **The parameters that are added are read back behind those that were there.** -/
theorem formPairs_addParameters (u : Url) (pairs : List (String × String)) :
    formPairs ((u.addParameters pairs).query.getD []) =
      formPairs (u.query.getD []) ++ pairs.map bytesOf := by
  unfold addParameters
  split
  next hnone =>
    rw [List.isEmpty_iff.mp hnone]
    exact (List.append_nil _).symm
  next =>
    rw [← formPairs_encodeParameters]
    dsimp only
    split
    next hquery =>
      rw [hquery]
      rfl
    next hquery =>
      rw [hquery]
      rfl
    next present _ hquery =>
      rw [hquery]
      exact formPairs_append present _

theorem number_not_mem_addParameters {u : Url} (h : ∀ query ∈ u.query, '#' ∉ query)
    (pairs : List (String × String)) :
    ∀ query ∈ (u.addParameters pairs).query, '#' ∉ query := by
  unfold addParameters
  split
  · exact h
  · dsimp only
    rintro query ⟨⟩
    split
    next => exact number_not_mem_encodeParameters pairs
    next => exact number_not_mem_encodeParameters pairs
    next present _ hquery =>
      intro hnumber
      rcases List.mem_append.mp hnumber with hnumber | hnumber
      · exact h present hquery hnumber
      · exact number_not_mem_encodeParameters pairs (List.mem_of_ne_of_mem (by decide) hnumber)

/-! ## Both -/

theorem addSegments_of_segments {u : Url} {path : List (List Char)} (h : u.path = .segments path)
    (texts : List String) :
    u.addSegments texts = { u with
      path := .segments <| (texts.map (encodeSegment (isSpecial u.scheme))).foldl
        (addSegment (isFile u.scheme)) (withoutEmptyEnd path) } := by
  rw [addSegments, h]

/-- Parameters change nothing but the query. -/
theorem exists_addParameters (u : Url) (pairs : List (String × String)) :
    ∃ query, u.addParameters pairs = { u with query := query } := by
  unfold addParameters
  split
  · exact ⟨u.query, rfl⟩
  · exact ⟨_, rfl⟩

theorem Delimited.addParameters {u : Url} (h : u.Delimited) (pairs : List (String × String)) :
    (u.addParameters pairs).Delimited := by
  refine ⟨?_, number_not_mem_addParameters h.query pairs⟩
  obtain ⟨query, hquery⟩ := exists_addParameters u pairs
  rw [hquery]
  exact h.path

theorem Delimited.addSegments {u : Url} (h : u.Delimited) (texts : List String) :
    (u.addSegments texts).Delimited := by
  cases hpath : u.path with
  | flat text =>
    rw [Url.addSegments, hpath]
    exact h
  | segments path =>
    rw [addSegments_of_segments hpath]
    refine ⟨fun found hfound => ?_, h.query⟩
    obtain rfl := UrlPath.segments.inj hfound
    exact confined_foldl_addSegment _ texts (confined_withoutEmptyEnd (h.path path hpath))

end Url
end RemoteTables
