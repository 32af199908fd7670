import RemoteTables.Http.Endpoint
import RemoteTables.Proofs.Url.Added

/-!
# The address of a request

The values of a request go into an address, which then has to be the base with these values in it
and nothing else. For the scheme, the authority, the fragment and the query that is so
(`urlFor_extends`), and the signs between the parts never come from a value. The path should be that
of the base, without an empty segment at its end, and behind it one segment for each part of the
request (`Url.Places`). A part is only looked at before it is added, so where adding changes
something, there are exceptions, and `Url.Keeps` is what they leave:

* Tabs and line breaks are dropped from a part, and what is left may be a segment of points that takes
  another one away (`parent_dropped`).
* The two slashes that are the whole path of a base count as one.
* At the root of the files, a letter with a bar is a drive, and gets a colon.

That nothing goes wrong otherwise is a matter of encoding. That something always goes wrong with a tab
or a line break is a matter of counting: no step adds a segment that decodes to one of them.
-/

set_option autoImplicit false

namespace RemoteTables

open Url

/-- Whether the path of an address is the path of a base and behind it one segment for each text, to
which it decodes. A path without any segments may be written as a slash. -/
def Url.Places (base url : Url) (texts : List String) : Prop :=
  ∃ added, (url.path = .segments (base.path.stem ++ added) ∨
      base.path.stem ++ added = [] ∧ url.path = .segments [[]]) ∧
    added.map (fun segment => Percent.text? (Percent.decode segment)) = texts.map some

/-- What texts must be like so that a base keeps them in their place. -/
structure Url.Keeps (base : Url) (texts : List String) : Prop where
  /-- There are no tabs and no line breaks in them. -/
  whole : ∀ text ∈ texts, ∀ c ∈ text.toList, c ≠ '\t' ∧ c ≠ '\n' ∧ c ≠ '\r'
  /-- The base has more of a path than two slashes. -/
  slashes : texts ≠ [] → base.path ≠ .segments [[], []]
  /-- At the root of the files, the first of them is not the letter of a drive with a bar. -/
  drive : isFile base.scheme = true → base.path.stem = [] → ∀ (letter : Char) (rest : List String),
    letter.isAlpha = true → texts ≠ String.ofList [letter, '|'] :: rest

/-! ## Parts without tabs and line breaks -/

theorem text?_encodeSegment_of_kept {text : String} (h : ∀ c ∈ text.toList, isDropped c = false)
    (special : Bool) : Percent.text? (Percent.decode (encodeSegment special text)) = some text := by
  have hkept : text.toList.filter (fun c => !isDropped c) = text.toList :=
    List.filter_eq_self.mpr fun c hc => by rw [h c hc]; rfl
  rw [text?_encodeSegment, hkept, String.ofList_toList]

/-- A part that does not vanish is encoded as a segment that stays. -/
theorem encodeSegment_stays {text : String} (h : ∀ c ∈ text.toList, isDropped c = false)
    (hvanishes : Endpoint.vanishes text = false) (special : Bool) :
    Stays (encodeSegment special text) := by
  have hdecoded := text?_encodeSegment_of_kept h special
  have hother (points : String) (hpoints : Endpoint.vanishes points = true)
      (hplain : Percent.decode points.toList = Text.utf8 points.toList) :
      encodeSegment special text ≠ points.toList := by
    intro hsame
    rw [hsame, hplain, Percent.text?_utf8] at hdecoded
    rw [Option.some.inj hdecoded, hvanishes] at hpoints
    cases hpoints
  exact ⟨hother "" (by decide) rfl, hother "." (by decide) rfl, hother ".." (by decide) rfl⟩

/-! ## Parts with tabs and line breaks -/

/-- Whether a segment decodes to a text with a tab or a line break in it. -/
def holdsDropped (segment : List Char) : Bool :=
  (Percent.text? (Percent.decode segment)).any fun text => text.toList.any isDropped

@[simp] theorem holdsDropped_nil : holdsDropped [] = false := by
  rw [holdsDropped, show Percent.decode [] = Text.utf8 "".toList from rfl, Percent.text?_utf8]
  rfl

@[simp] theorem holdsDropped_encodeSegment (special : Bool) (text : String) :
    holdsDropped (encodeSegment special text) = false := by
  rw [holdsDropped, text?_encodeSegment, Option.any_some, String.toList_ofList, List.any_filter]
  exact List.any_eq_false.mpr fun c _ => by simp

theorem holdsDropped_driveForm {segment : List Char} (h : holdsDropped segment = false) :
    holdsDropped (driveForm segment) = false := by
  unfold driveForm
  split
  next hdrive =>
    obtain ⟨letter, mark, rfl, hletter, -⟩ := isDrive_iff.mp hdrive
    show holdsDropped [letter, ':'] = false
    rw [holdsDropped, decode_drive hletter (by decide), Option.any_some, String.toList_ofList]
    have hkept : isDropped letter = false :=
      isDropped_eq_false.mpr ⟨ne_of_isAlpha hletter rfl, ne_of_isAlpha hletter rfl,
        ne_of_isAlpha hletter rfl⟩
    rw [List.any_cons, hkept]
    rfl
  next => exact h

theorem countP_front (path : List (List Char)) :
    (front path).countP holdsDropped = path.countP holdsDropped := by
  unfold front
  split
  next h => simp [h]
  next => rfl

theorem countP_shorten_le (file : Bool) (path : List (List Char)) :
    (shorten file path).countP holdsDropped ≤ path.countP holdsDropped := by
  unfold shorten
  split
  · split
    · exact Nat.le_refl _
    · exact Nat.zero_le _
  · exact (List.dropLast_sublist path).countP_le

/-- Leaving out an empty segment leaves out nothing that was dropped. -/
theorem countP_stem (path : List (List Char)) :
    (UrlPath.segments path).stem.countP holdsDropped = path.countP holdsDropped := by
  unfold UrlPath.stem
  dsimp only
  split
  next hlast =>
    obtain ⟨before, rfl⟩ := List.getLast?_eq_some_iff.mp hlast
    simp
  next => rfl

theorem countP_addSegment_le (file : Bool) {path : List (List Char)} {segment : List Char}
    (h : holdsDropped segment = false) :
    (addSegment file path segment).countP holdsDropped ≤ path.countP holdsDropped := by
  have hnone : [if file && (front path).isEmpty then driveForm segment else segment].countP
      holdsDropped = 0 := by
    refine List.countP_eq_zero.mpr (List.forall_mem_singleton.mpr ?_)
    split
    · simp [holdsDropped_driveForm h]
    · simp [h]
  rw [← countP_front path]
  unfold addSegment
  split
  · simpa using countP_shorten_le file (front path)
  · split
    · simp
    · rw [extend, List.countP_append, hnone]
      exact Nat.le_refl _

theorem countP_foldl_addSegment_le (file : Bool) (path : List (List Char)) (special : Bool)
    (texts : List String) :
    ((texts.map (encodeSegment special)).foldl (addSegment file) path).countP holdsDropped ≤
      path.countP holdsDropped := by
  induction texts generalizing path with
  | nil => exact Nat.le_refl _
  | cons text texts ih =>
    exact Nat.le_trans (ih _) (countP_addSegment_le file (holdsDropped_encodeSegment special text))

/-! ## Paths -/

section Places

variable {u : Url} {path : List (List Char)} (hpath : u.path = .segments path) {texts : List String}
include hpath

/-- If the texts have their places, nothing that is dropped was in them: the segments that were there
have all that is left. -/
theorem whole_of_places (h : Places u (u.addSegments texts) texts) :
    ∀ text ∈ texts, ∀ c ∈ text.toList, isDropped c = false := by
  rw [addSegments_of_segments hpath] at h
  obtain ⟨added, hplaced, hdecoded⟩ := h
  intro text htext
  have hnone : added.countP holdsDropped = 0 := by
    rcases hplaced with hplaced | ⟨hnothing, -⟩
    · have hcount := countP_foldl_addSegment_le (isFile u.scheme) (withoutEmptyEnd path)
        (isSpecial u.scheme) texts
      have hfewer : (withoutEmptyEnd path).countP holdsDropped ≤ path.countP holdsDropped :=
        (withoutEmptyEnd_sublist path).countP_le
      rw [UrlPath.segments.inj hplaced, hpath, List.countP_append, countP_stem] at hcount
      omega
    · rw [(List.append_eq_nil_iff.mp hnothing).2]
      rfl
  have hmem : some text ∈ texts.map some := List.mem_map_of_mem htext
  rw [← hdecoded] at hmem
  obtain ⟨segment, hsegment, htext⟩ := List.mem_map.mp hmem
  have hfree := List.countP_eq_zero.mp hnone segment hsegment
  rw [holdsDropped, htext, Option.any_some, List.any_eq_true] at hfree
  exact fun c hc => Bool.eq_false_iff.mpr fun h => hfree ⟨c, hc, h⟩

/-- Without any text the path stays, but for an empty segment at its end. -/
theorem places_nil : Places u (u.addSegments []) [] := by
  rw [addSegments_of_segments hpath, Places, hpath]
  refine ⟨[], ?_, rfl⟩
  show UrlPath.segments (withoutEmptyEnd path) = _ ∨ _ ∧ UrlPath.segments (withoutEmptyEnd path) = _
  rw [List.append_nil, UrlPath.stem, withoutEmptyEnd]
  by_cases hlone : path = [[]]
  · subst hlone
    exact .inr ⟨rfl, rfl⟩
  · refine .inl (congrArg UrlPath.segments ?_)
    simp only [ne_eq, hlone, not_false_eq_true, true_and]

variable (hstay : ∀ text ∈ texts, Endpoint.vanishes text = false)
  (hwhole : ∀ text ∈ texts, ∀ c ∈ text.toList, isDropped c = false)
include hstay hwhole

/-- The path that a first text and others are added to has all of them behind what is in front. -/
theorem path_addSegments {first : String} {rest : List String} (htexts : texts = first :: rest) :
    (u.addSegments texts).path = .segments
      (extend (isFile u.scheme) (front (withoutEmptyEnd path))
        (encodeSegment (isSpecial u.scheme) first) ++
          rest.map (encodeSegment (isSpecial u.scheme))) := by
  have hstays : ∀ part ∈ texts.map (encodeSegment (isSpecial u.scheme)), Stays part :=
    List.forall_mem_map.mpr fun text htext => encodeSegment_stays (hwhole text htext)
      (hstay text htext) _
  rw [addSegments_of_segments hpath]
  subst htexts
  exact congrArg UrlPath.segments (foldl_addSegment _ _ hstays)

end Places

section Iff

variable {u : Url} {path : List (List Char)} (hpath : u.path = .segments path) {texts : List String}
  (hstay : ∀ text ∈ texts, Endpoint.vanishes text = false)
include hpath hstay

/-- If the texts have their places, the base keeps them. -/
theorem keeps_of_places (h : Places u (u.addSegments texts) texts) : u.Keeps texts := by
  have hwhole := whole_of_places hpath h
  obtain ⟨added, hplaced, hdecoded⟩ := h
  have hcount : added.length = texts.length := by simpa using congrArg List.length hdecoded
  refine ⟨fun text htext c hc => isDropped_eq_false.mp (hwhole text htext c hc), ?_, ?_⟩
  · -- two slashes count as one, so a segment is missing
    rintro hsome hslashes
    obtain ⟨first, rest, htexts⟩ := List.exists_cons_of_ne_nil hsome
    obtain rfl := UrlPath.segments.inj (hpath.symm.trans hslashes)
    rw [path_addSegments hpath hstay hwhole htexts, hpath] at hplaced
    rcases hplaced with hplaced | ⟨hnothing, -⟩
    · have hlength := congrArg List.length (UrlPath.segments.inj hplaced)
      simp [extend, withoutEmptyEnd, front, UrlPath.stem, hcount, htexts] at hlength
    · cases hnothing
  · -- a drive has a colon in its place
    rintro hfile hroot letter rest hletter rfl
    rw [path_addSegments hpath hstay hwhole rfl, hroot] at hplaced
    have hnothing : front (withoutEmptyEnd path) = [] := by
      rw [hpath] at hroot
      rw [front_withoutEmptyEnd ?_, hroot]
      rintro rfl
      cases hroot
    rw [hnothing, hfile] at hplaced
    rcases hplaced with hplaced | ⟨hnone, -⟩
    · have hadded : driveForm (encodeSegment (isSpecial u.scheme) (String.ofList [letter, '|'])) ::
          rest.map (encodeSegment (isSpecial u.scheme)) = added := UrlPath.segments.inj hplaced
      rw [driveForm_encodeSegment hletter] at hadded
      subst hadded
      have hcolon := (decode_drive hletter (show ':' ≠ '%' by decide)).symm.trans
        (List.cons.inj hdecoded).1
      simp at hcolon
    · rw [List.append_eq_nil_iff.mp hnone |>.2] at hcount
      cases hcount

/-- If the base keeps the texts, they have their places. -/
theorem places_of_keeps (h : u.Keeps texts) : Places u (u.addSegments texts) texts := by
  rcases texts with _ | ⟨first, rest⟩
  · exact places_nil hpath
  have hwhole : ∀ text ∈ first :: rest, ∀ c ∈ text.toList, isDropped c = false :=
    fun text htext c hc => isDropped_eq_false.mpr (h.whole text htext c hc)
  have hdecode : ∀ text ∈ first :: rest,
      Percent.text? (Percent.decode (encodeSegment (isSpecial u.scheme) text)) = some text :=
    fun text htext => text?_encodeSegment_of_kept (hwhole text htext) _
  have hfront : front (withoutEmptyEnd path) = u.path.stem := by
    rw [hpath]
    refine front_withoutEmptyEnd fun htwo => h.slashes (List.cons_ne_nil _ _) ?_
    rw [hpath, htwo]
  refine ⟨(first :: rest).map (encodeSegment (isSpecial u.scheme)), .inl ?_, ?_⟩
  · rw [path_addSegments hpath hstay hwhole rfl, hfront, extend, List.append_assoc]
    refine congrArg (fun segment => UrlPath.segments (u.path.stem ++ (segment :: _))) ?_
    split
    next hfirst =>
      rw [Bool.and_eq_true_iff, List.isEmpty_iff] at hfirst
      refine driveForm_eq_self (hdecode first List.mem_cons_self) fun letter hletter htext => ?_
      exact h.drive hfirst.1 hfirst.2 letter rest hletter (by rw [htext])
    next => rfl
  · rw [List.map_map]
    exact List.map_congr_left hdecode

/-- Adding texts to an address places them just if the address keeps them. -/
theorem places_addSegments_iff : Places u (u.addSegments texts) texts ↔ u.Keeps texts :=
  ⟨keeps_of_places hpath hstay, places_of_keeps hpath hstay⟩

end Iff

/-! ## Requests -/

namespace Endpoint

/-- What the address of a request has in common with the base. -/
structure Extends (base url : Url) (query : List (String × String)) : Prop where
  scheme : url.scheme = base.scheme
  authority : url.authority = base.authority
  fragment : url.fragment = base.fragment
  /-- The parameters stand behind those of the base, in order. -/
  query : formPairs (url.query.getD []) = formPairs (base.query.getD []) ++ query.map bytesOf
  /-- No value has a sign in it that would end its part of the address. -/
  delimited : url.Delimited

theorem exists_of_ofText {forms : DomainName.Forms} {text : String} {e : Endpoint}
    (h : ofText forms text = .ok e) :
    e.base.Delimited ∧ ∃ path, e.base.path = .segments path := by
  unfold ofText at h
  split at h
  next => cases h
  next url hread =>
    split at h
    next => cases h
    next path hpath =>
      obtain rfl := Except.ok.inj h
      exact ⟨delimited_read hread, path, hpath⟩

theorem exists_of_urlFor {e : Endpoint} {request : Request} {url : Url}
    (h : e.urlFor request = .ok url) :
    (∀ segment ∈ request.segments, vanishes segment = false) ∧
      url = (e.base.addSegments request.segments).addParameters request.query := by
  unfold urlFor at h
  split at h
  next => cases h
  next hnone =>
    refine ⟨fun segment hsegment => ?_, (Except.ok.inj h).symm⟩
    exact Bool.eq_false_iff.mpr (List.find?_eq_none.mp hnone segment hsegment)

/-- **The values of a request have their place in its address**, and everything else is as in the
base, whatever form names outside ASCII have. The path has exactly one segment for each part behind
the path of the base, which decodes to the part, if and only if the base keeps the parts. -/
theorem urlFor_extends {forms : DomainName.Forms} {text : String} {e : Endpoint}
    (he : ofText forms text = .ok e) {request : Request} {url : Url}
    (hurl : e.urlFor request = .ok url) :
    Extends e.base url request.query ∧
      (Places e.base url request.segments ↔ e.base.Keeps request.segments) := by
  obtain ⟨hdelimited, path, hpath⟩ := exists_of_ofText he
  obtain ⟨hstay, rfl⟩ := exists_of_urlFor hurl
  have hsegments := addSegments_of_segments hpath request.segments
  obtain ⟨query, hparameters⟩ :=
    exists_addParameters (e.base.addSegments request.segments) request.query
  refine ⟨⟨?_, ?_, ?_, ?_, (hdelimited.addSegments _).addParameters _⟩, ?_⟩
  · rw [hparameters, hsegments]
  · rw [hparameters, hsegments]
  · rw [hparameters, hsegments]
  · rw [formPairs_addParameters, hsegments]
  · have hplaces : Places e.base
        ((e.base.addSegments request.segments).addParameters request.query) request.segments ↔
          Places e.base (e.base.addSegments request.segments) request.segments := by
      rw [hparameters]
      rfl
    rw [hplaces, places_addSegments_iff hpath hstay]

set_option maxRecDepth 10000 in
/-- The issues of a repository whose owner and name are full of signs. -/
theorem urlFor_extends_issues :
    ∃ (e : Endpoint) (request : Request) (url : Url),
      ofText some "http://ghe.example.com/api/v3/" = .ok e ∧
      request = ⟨["repos", "../admin", "r?%", "issues"], [("state", "a &b")]⟩ ∧
      e.urlFor request = .ok url ∧
      url.write = "http://ghe.example.com/api/v3/repos/..%2Fadmin/r%3F%25/issues?state=a+%26b" ∧
      Extends e.base url request.query ∧ Places e.base url request.segments := by
  let e : Endpoint := ⟨⟨"http".toList, some "ghe.example.com".toList,
    .segments ["api".toList, "v3".toList, []], none, none⟩⟩
  have he : ofText some "http://ghe.example.com/api/v3/" = .ok e := rfl
  let request : Request := ⟨["repos", "../admin", "r?%", "issues"], [("state", "a &b")]⟩
  let url := (e.base.addSegments request.segments).addParameters request.query
  have hurl : e.urlFor request = .ok url := rfl
  have hkept : ∀ text ∈ request.segments, text.toList.any isDropped = false := by decide
  have hwhole : ∀ text ∈ request.segments, ∀ c ∈ text.toList, c ≠ '\t' ∧ c ≠ '\n' ∧ c ≠ '\r' :=
    fun text htext c hc => isDropped_eq_false.mp <|
      Bool.eq_false_iff.mpr (List.any_eq_false.mp (hkept text htext) c hc)
  have hkeeps : e.base.Keeps request.segments :=
    ⟨hwhole, fun _ => by decide, fun hfile => absurd hfile (by decide)⟩
  obtain ⟨hextends, hplaces⟩ := urlFor_extends he hurl
  exact ⟨e, request, url, he, rfl, hurl, by decide, hextends, hplaces.mpr hkeeps⟩

/-- Two slashes count as one, where the path should be two slashes and a name. -/
example : (addSegments ⟨"http".toList, some "h".toList, .segments [[], []], none, none⟩
    ["users"]).write = "http://h/users" := by decide

/-- A letter with a bar is a drive. -/
example : (addSegments ⟨"file".toList, some [], .segments [[]], none, none⟩ ["C|", "x"]).write =
    "file:///C:/x" := by decide

set_option maxRecDepth 10000 in
/-- **A part that becomes two points takes another one away.** The name of an owner is two points
with a tab between them. It was looked at and passed, since it is not only points; but the tab is
dropped, and the segment in front of it goes. -/
theorem parent_dropped :
    ∃ (e : Endpoint) (request : Request) (url : Url),
      ofText some "http://ghe.example.com/api/v3" = .ok e ∧
      request = ⟨["repos", ".\t.", "issues"], [("state", "all")]⟩ ∧
      e.urlFor request = .ok url ∧
      url.write = "http://ghe.example.com/api/v3//issues?state=all" ∧
      ¬ Places e.base url request.segments := by
  let e : Endpoint := ⟨⟨"http".toList, some "ghe.example.com".toList,
    .segments ["api".toList, "v3".toList], none, none⟩⟩
  let url : Url := { e.base with
    path := .segments ["api".toList, "v3".toList, [], "issues".toList]
    query := some "state=all".toList }
  have he : ofText some "http://ghe.example.com/api/v3" = .ok e := rfl
  have hurl : e.urlFor ⟨["repos", ".\t.", "issues"], [("state", "all")]⟩ = .ok url := rfl
  refine ⟨e, _, url, he, rfl, hurl, by decide, ?_⟩
  rintro ⟨added, hpath | ⟨hnothing, -⟩, hdecoded⟩
  · -- there is room for two segments behind the base, and three parts
    have hroom : 4 = 2 + added.length :=
      (congrArg List.length (UrlPath.segments.inj hpath)).trans List.length_append
    have hthree : added.length = 3 := by simpa using congrArg List.length hdecoded
    omega
  · cases hnothing

end Endpoint
end RemoteTables
