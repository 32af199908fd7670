import RemoteTables.Json.Writer
import RemoteTables.Json.Fragment
import RemoteTables.Text.Integer

/-!
# Reading what was written

The writer goes through a value, the reader through the characters of a text, so they meet in what
the reader holds after the characters of one value: the tokens so far, and the containers that these
tokens have left open. `Reads` says that a text, met where a value is due, puts a certain fragment
there. It is proved of whatever the writer makes of a value, by induction on the value
(`Exact.reads`), and for the outermost value it says that the text is read back
(`Exact.read_render`).

Binary numbers are left out. They are written with a layout of their own, which is another decimal
for the same number than the one a fragment has.
-/

set_option autoImplicit false

namespace RemoteTables
namespace Json

/-! ## Texts -/

/-- The ways in which the writer escapes a character. -/
inductive Escape (c : Char) : List Char → Prop where
  | letter {e : Char} (hshort : shortEscape? e = some c) (hnumeric : e ≠ 'u')
      (hprintable : ¬e.toNat < 0x20) : Escape c ['\\', e]
  | code (hcontrol : c.toNat < 0x20) :
      Escape c ['\\', 'u', '0', '0', hexChar (c.toNat / 16), hexChar (c.toNat % 16)]
  | plain (hprintable : ¬c.toNat < 0x20) (hquote : c ≠ '"') (hslash : c ≠ '\\') : Escape c [c]

theorem escape_escapeChar (c : Char) : Escape c (escapeChar c) := by
  unfold escapeChar
  split
  case h_8 =>
    split
    case isTrue hcontrol => exact .code hcontrol
    case isFalse hprintable => exact .plain hprintable ‹_› ‹_›
  all_goals exact .letter rfl (by decide) (by decide)

theorem hexQuad?_hexChar : ∀ n < 0x20,
    hexQuad? '0' '0' (hexChar (n / 16)) (hexChar (n % 16)) = some n := by
  decide

/-- The code of a control is no surrogate, so it is a character whatever comes next. -/
theorem characters?_unit {n : Nat} (h : n < 0x20) (rest : List Piece) :
    characters? (.unit n :: rest) = (characters? rest).map (Char.ofNat n :: ·) := by
  have hhigh : ¬0xD800 ≤ n := by omega
  have hlow : ¬0xDC00 ≤ n := by omega
  cases rest with
  | nil => simp [characters?, hhigh]
  | cons piece rest => cases piece <;> simp [characters?, hhigh, hlow]

/-- Every character is escaped as one piece, and the piece stands for that character. -/
theorem exists_piece (c : Char) :
    ∃ piece, (∀ rest, pieces? (escapeChar c ++ rest) = (pieces? rest).map (piece :: ·)) ∧
      ∀ rest, characters? (piece :: rest) = (characters? rest).map (c :: ·) := by
  generalize hescaped : escapeChar c = escaped
  cases hescaped ▸ escape_escapeChar c with
  | letter hshort hnumeric hprintable =>
    refine ⟨.char c, fun rest => ?_, fun rest => rfl⟩
    simp [pieces?, hshort, hnumeric]
    cases pieces? rest <;> rfl
  | code hcontrol =>
    refine ⟨.unit c.toNat, fun rest => ?_, fun rest => ?_⟩
    · simp [pieces?, hexQuad?_hexChar c.toNat hcontrol]
      cases pieces? rest <;> rfl
    · rw [characters?_unit hcontrol, Char.ofNat_toNat]
  | plain hprintable hquote hslash =>
    refine ⟨.char c, fun rest => ?_, fun rest => rfl⟩
    simp [pieces?, hslash]
    cases pieces? rest <;> rfl

theorem textToken_escaped (text : String) :
    textToken (text.toList.flatMap escapeChar).reverse = .string (some text) := by
  have hpieces : ∀ chars : List Char, ∃ pieces, pieces? (chars.flatMap escapeChar) = some pieces ∧
      characters? pieces = some chars := by
    intro chars
    induction chars with
    | nil => exact ⟨[], rfl, rfl⟩
    | cons c rest ih =>
      obtain ⟨pieces, hpieces, hchars⟩ := ih
      obtain ⟨piece, hfirst, hc⟩ := exists_piece c
      refine ⟨piece :: pieces, ?_, ?_⟩
      · rw [List.flatMap_cons, hfirst, hpieces, Option.map_some]
      · rw [hc, hchars, Option.map_some]
  obtain ⟨pieces, hpieces, hchars⟩ := hpieces text.toList
  rw [textToken, List.reverse_reverse, hpieces]
  show Token.string ((characters? pieces).map String.ofList) = .string (some text)
  rw [hchars, Option.map_some, String.ofList_toList]

namespace Lexer

/-- An escaped character is gathered whole, and leaves the reader inside the text. -/
theorem foldl_escapeChar (tokens : List Token) (gathered : List Char) (c : Char) :
    (escapeChar c).foldl step ⟨tokens, .text gathered false⟩ =
      ⟨tokens, .text ((escapeChar c).reverse ++ gathered) false⟩ := by
  have hhex : ∀ n < 16, ¬(hexChar n).toNat < 0x20 ∧ hexChar n ≠ '"' ∧ hexChar n ≠ '\\' := by
    decide
  generalize hescaped : escapeChar c = escaped
  cases hescaped ▸ escape_escapeChar c with
  | letter hshort hnumeric hprintable => simp [step, hprintable]
  | code hcontrol =>
    obtain ⟨hfirst, hfirst', hfirst''⟩ := hhex (c.toNat / 16) (by omega)
    obtain ⟨hsecond, hsecond', hsecond''⟩ := hhex (c.toNat % 16) (by omega)
    simp [step, hfirst, hfirst', hfirst'', hsecond, hsecond', hsecond'']
  | plain hprintable hquote hslash => simp [step, hprintable, hquote, hslash]

theorem foldl_quoteChars (tokens : List Token) (text : String) :
    (quoteChars text).foldl step ⟨tokens, .between⟩ =
      ⟨.string (some text) :: tokens, .between⟩ := by
  have hgathered : ∀ (chars gathered : List Char),
      (chars.flatMap escapeChar).foldl step ⟨tokens, .text gathered false⟩ =
        ⟨tokens, .text ((chars.flatMap escapeChar).reverse ++ gathered) false⟩ := by
    intro chars
    induction chars with
    | nil => simp
    | cons c rest ih =>
      intro gathered
      rw [List.flatMap_cons, List.foldl_append, foldl_escapeChar, ih, List.reverse_append,
        List.append_assoc]
  rw [quoteChars, List.foldl_cons, List.foldl_append]
  show [_].foldl step ((text.toList.flatMap escapeChar).foldl step ⟨tokens, .text [] false⟩) = _
  rw [hgathered, List.append_nil]
  show (⟨textToken _ :: tokens, .between⟩ : Lexer) = _
  rw [textToken_escaped]

end Lexer

/-! ## Integers -/

/-- Only zero is written with a zero in front. -/
theorem isWhole_toDigits (n : Nat) : isWhole (Nat.toDigits 10 n) = true := by
  have hfirst : ∀ n, 0 < n → ∃ c rest, Nat.toDigits 10 n = c :: rest ∧ c ≠ '0' := by
    intro n
    induction n using Nat.strongRecOn with
    | ind n ih =>
      intro hpos
      by_cases hsmall : n < 10
      · refine ⟨n.digitChar, [], Nat.toDigits_of_lt_base hsmall, ?_⟩
        intro hzero
        have := Nat.digitChar_eq_zero.mp hzero
        omega
      · obtain ⟨c, rest, hdigits, hc⟩ := ih (n / 10) (by omega) (by omega)
        refine ⟨c, rest ++ [(n % 10).digitChar], ?_, hc⟩
        rw [Nat.toDigits_of_base_le (by decide) (by omega), hdigits, List.cons_append]
  by_cases hzero : n = 0
  · rw [hzero]
    rfl
  · obtain ⟨c, rest, hdigits, hc⟩ := hfirst n (by omega)
    simp [hdigits, isWhole, hc]

theorem digitsValue_toDigits (n : Nat) : digitsValue (Nat.toDigits 10 n) = n :=
  (Text.digitsValue_eq _).trans Nat.ofDigitChars_ten_toDigits

theorem isDigit_of_mem_toDigits {n : Nat} : ∀ c ∈ Nat.toDigits 10 n, c.isDigit = true := by
  intro c hc
  exact Nat.isDigit_of_mem_toDigits (by decide) (by decide) hc

theorem toList_toString_negSucc (n : Nat) :
    (toString (Int.negSucc n)).toList = '-' :: Nat.toDigits 10 (n + 1) := by
  simp [Int.repr]

theorem unsignedNumber?_toDigits (negative : Bool) (n : Nat) :
    unsignedNumber? negative (Nat.toDigits 10 n) =
      if negative && n = 0 then some (.decimal true 0 0)
      else some (.integer (if negative then -(n : Int) else n)) := by
  have htake : (Nat.toDigits 10 n ++ []).takeWhile Char.isDigit = Nat.toDigits 10 n ++ [] :=
    List.takeWhile_append_of_pos isDigit_of_mem_toDigits
  have hdrop : (Nat.toDigits 10 n ++ []).dropWhile Char.isDigit = [] :=
    List.dropWhile_append_of_pos isDigit_of_mem_toDigits
  rw [List.append_nil] at htake hdrop
  rw [unsignedNumber?, htake, hdrop, isWhole_toDigits, digitsValue_toDigits]
  rfl

theorem number?_toString (i : Int) : number? (toString i).toList = some (.integer i) := by
  cases i with
  | ofNat n =>
    have htext : (toString (Int.ofNat n)).toList = Nat.toDigits 10 n := Nat.toList_repr
    have hunsigned : number? (Nat.toDigits 10 n) = unsignedNumber? false (Nat.toDigits 10 n) := by
      unfold number?
      split
      case h_1 rest hminus =>
        have hdigit := isDigit_of_mem_toDigits '-' (hminus ▸ List.mem_cons_self)
        exact absurd hdigit (by decide)
      case h_2 => rfl
    rw [htext, hunsigned, unsignedNumber?_toDigits]
    rfl
  | negSucc n =>
    rw [toList_toString_negSucc, number?, unsignedNumber?_toDigits]
    rfl

namespace Lexer

theorem start_numeric (tokens : List Token) {c : Char} (h : c = '-' ∨ c.isDigit = true) :
    start tokens c = ⟨tokens, .number [c]⟩ := by
  have hother : ∀ d : Char, d ≠ '-' → d.isDigit = false → c ≠ d := by
    rintro d hminus hdigit rfl
    rcases h with h | h
    · exact hminus h
    · rw [hdigit] at h
      cases h
  simp [start, isGap, h, hother ' ' (by decide) rfl, hother '\t' (by decide) rfl,
    hother '\n' (by decide) rfl, hother '\r' (by decide) rfl, hother '"' (by decide) rfl,
    hother ',' (by decide) rfl, hother ':' (by decide) rfl, hother '[' (by decide) rfl,
    hother ']' (by decide) rfl, hother '\x7b' (by decide) rfl, hother '\x7d' (by decide) rfl]

/-- A reader that has come to the end of a value, with all its tokens but perhaps the last one made:
what ends there, or ends the value around it, finds these tokens. -/
structure Settled (lexer : Lexer) (tokens : List Token) : Prop where
  finish : lexer.finish = tokens.reverse
  step : ∀ c ∈ [',', ']', '\x7d'], lexer.step c = start tokens c

theorem settled_between (tokens : List Token) : Settled ⟨tokens, .between⟩ tokens :=
  ⟨rfl, fun _ _ => rfl⟩

/-- What ends a value is no part of a word or a number. -/
theorem not_continued {c : Char} (hc : c ∈ [',', ']', '\x7d']) :
    c.isLower = false ∧ isNumberChar c = false := by
  simp only [List.mem_cons, List.not_mem_nil, or_false] at hc
  rcases hc with rfl | rfl | rfl <;> exact ⟨rfl, rfl⟩

theorem settled_word (tokens : List Token) (gathered : List Char) :
    Settled ⟨tokens, .word gathered⟩ (wordToken gathered :: tokens) where
  finish := rfl
  step c hc := by
    simp [Lexer.step, (not_continued hc).1]

theorem settled_number (tokens : List Token) (gathered : List Char) :
    Settled ⟨tokens, .number gathered⟩ (numberToken gathered :: tokens) where
  finish := rfl
  step c hc := by
    simp [Lexer.step, (not_continued hc).2]

theorem foldl_digits (tokens : List Token) {digits : List Char}
    (h : ∀ c ∈ digits, c.isDigit = true) (gathered : List Char) :
    digits.foldl step ⟨tokens, .number gathered⟩ =
      ⟨tokens, .number (digits.reverse ++ gathered)⟩ := by
  induction digits generalizing gathered with
  | nil => rfl
  | cons c rest ih =>
    have hnumeric : isNumberChar c = true := by
      simp [isNumberChar, h c List.mem_cons_self]
    have hstep : step ⟨tokens, .number gathered⟩ c = ⟨tokens, .number (c :: gathered)⟩ := by
      simp [step, hnumeric]
    rw [List.foldl_cons, hstep, ih fun d hd => h d (List.mem_cons_of_mem _ hd)]
    simp

theorem settled_int (tokens : List Token) (i : Int) :
    Settled ((toString i).toList.foldl step ⟨tokens, .between⟩)
      (.number (.integer i) :: tokens) := by
  obtain ⟨first, digits, htext, hfirst, hdigits⟩ : ∃ first digits,
      (toString i).toList = first :: digits ∧ (first = '-' ∨ first.isDigit = true) ∧
      ∀ c ∈ digits, c.isDigit = true := by
    cases i with
    | ofNat n =>
      obtain ⟨first, digits, hdigits⟩ :=
        List.exists_cons_of_ne_nil (Nat.toDigits_ne_nil (n := n) (b := 10))
      have hall := hdigits ▸ isDigit_of_mem_toDigits (n := n)
      have hfirst := hall first List.mem_cons_self
      refine ⟨first, digits, Nat.toList_repr.trans hdigits, .inr hfirst, ?_⟩
      intro c hc
      exact hall c (List.mem_cons_of_mem _ hc)
    | negSucc n =>
      exact ⟨'-', _, toList_toString_negSucc n, .inl rfl, isDigit_of_mem_toDigits⟩
  have htoken : numberToken (toString i).toList.reverse = .number (.integer i) := by
    rw [numberToken, List.reverse_reverse, number?_toString]
  rw [← htoken, htext, List.foldl_cons]
  show Settled (digits.foldl step (start tokens first)) _
  rw [start_numeric tokens hfirst, foldl_digits tokens hdigits, List.reverse_cons]
  exact settled_number tokens _

end Lexer

/-! ## Values -/

/-- A value without binary numbers, so that its text stands for it exactly. -/
inductive Exact : Json → Prop where
  | null : Exact .null
  | bool (b : Bool) : Exact (.bool b)
  | int (i : Int) : Exact (.int i)
  | string (s : String) : Exact (.string s)
  | array {items : List Json} (h : ∀ item ∈ items, Exact item) : Exact (.array items)
  | object {members : List (String × Json)} (h : ∀ member ∈ members, Exact member.2) :
    Exact (.object members)

/-- What the reader holds after tokens, the last of them first. -/
def Assembly.after (tokens : List Token) : Assembly :=
  tokens.foldr (fun token assembly => assembly.step token) (.inside [] .value)

theorem read_of_settled {text : String} {tokens : List Token} {value : Fragment}
    (hlexer : (text.toList.foldl Lexer.step ⟨[], .between⟩).Settled tokens)
    (hvalue : Assembly.after tokens = .finished value) : read text = ⟨value, true⟩ := by
  have htokens : Json.tokens text.toList = tokens.reverse := hlexer.finish
  have hafter : tokens.reverse.foldl Assembly.step (.inside [] .value) = .finished value := by
    rw [List.foldl_reverse]
    exact hvalue
  rw [read, readTokens, htokens, hafter]

/-- Whether a text, met where a value is due, puts a fragment there. -/
def Reads (text : List Char) (value : Fragment) : Prop :=
  ∀ (tokens : List Token) (frames : List Frame) (expects : Expects),
    Assembly.after tokens = .inside frames expects → expects = .value ∨ expects = .valueOrEnd →
    ∃ more, (text.foldl Lexer.step ⟨tokens, .between⟩).Settled more ∧
      Assembly.after more = Assembly.put value frames

/-- A text that is one token stands for what the token puts. -/
theorem reads_token {text : List Char} {token : Token} {value : Fragment}
    (htext : ∀ tokens, (text.foldl Lexer.step ⟨tokens, .between⟩).Settled (token :: tokens))
    (htoken : ∀ frames expects, expects = .value ∨ expects = .valueOrEnd →
      (Assembly.inside frames expects).step token = Assembly.put value frames) :
    Reads text value := by
  intro tokens frames expects hafter hexpects
  refine ⟨token :: tokens, htext tokens, ?_⟩
  show (Assembly.after tokens).step token = _
  rw [hafter, htoken frames expects hexpects]

section Items

variable {items : List Json}
  (hitems : ∀ item ∈ items, Reads (renderChars item) (Fragment.ofJson item))
include hitems

theorem reads_renderMoreItems {lexer : Lexer} {tokens : List Token} {done : List Fragment}
    {frames : List Frame} (hlexer : lexer.Settled tokens)
    (hafter : Assembly.after tokens = .inside (.array done :: frames) .commaOrEnd) :
    ∃ more, ((renderMoreItems items ++ [']']).foldl Lexer.step lexer).Settled more ∧
      Assembly.after more =
        Assembly.put (.array (done.reverse ++ Fragment.ofItems items) true) frames := by
  induction items generalizing lexer tokens done with
  | nil =>
    refine ⟨.closeBracket :: tokens, ?_, ?_⟩
    · show (lexer.step ']').Settled _
      rw [hlexer.step ']' (by decide)]
      exact Lexer.settled_between _
    · show (Assembly.after tokens).step .closeBracket = _
      rw [hafter, Fragment.ofItems, List.append_nil]
      rfl
  | cons item rest ih =>
    have hcomma : Assembly.after (.comma :: tokens) = .inside (.array done :: frames) .value := by
      show (Assembly.after tokens).step .comma = _
      rw [hafter]
      rfl
    obtain ⟨more, hmore, hitem⟩ := hitems item List.mem_cons_self _ _ _ hcomma (.inl rfl)
    obtain ⟨all, hall, hend⟩ :=
      ih (fun other ho => hitems other (List.mem_cons_of_mem _ ho)) hmore hitem
    refine ⟨all, ?_, ?_⟩
    · rw [renderMoreItems, List.cons_append, List.foldl_cons, hlexer.step ',' (by decide),
        List.append_assoc, List.foldl_append]
      exact hall
    · rw [hend, Fragment.ofItems, List.reverse_cons, List.append_assoc, List.singleton_append]

theorem reads_array : Reads (renderChars (.array items)) (Fragment.ofJson (.array items)) := by
  intro tokens frames expects hafter hexpects
  have hopen : Assembly.after (.openBracket :: tokens) =
      .inside (.array [] :: frames) .valueOrEnd := by
    show (Assembly.after tokens).step .openBracket = _
    rw [hafter]
    rcases hexpects with rfl | rfl <;> rfl
  rw [renderChars, Fragment.ofJson, List.foldl_cons]
  show ∃ more, ((renderItems items ++ [']']).foldl Lexer.step
    ⟨.openBracket :: tokens, .between⟩).Settled more ∧ _
  cases items with
  | nil =>
    refine ⟨.closeBracket :: .openBracket :: tokens, Lexer.settled_between _, ?_⟩
    show (Assembly.after (.openBracket :: tokens)).step .closeBracket = _
    rw [hopen]
    rfl
  | cons item rest =>
    obtain ⟨more, hmore, hitem⟩ := hitems item List.mem_cons_self _ _ _ hopen (.inr rfl)
    rw [renderItems, List.append_assoc, List.foldl_append]
    exact reads_renderMoreItems (fun other ho => hitems other (List.mem_cons_of_mem _ ho)) hmore
      hitem

end Items

section Members

variable {members : List (String × Json)}

theorem member_append (name : String) (value more : List Char) :
    quoteChars name ++ ':' :: (value ++ more) = (quoteChars name ++ ':' :: value) ++ more := by
  simp

/-- A member puts its value under its name. -/
theorem reads_member {name : String} {value : Json}
    (hvalue : Reads (renderChars value) (Fragment.ofJson value)) {tokens : List Token}
    {done : List (Option String × Fragment)} {key : Option String} {frames : List Frame}
    {expects : Expects}
    (hafter : Assembly.after tokens = .inside (.object done key :: frames) expects)
    (hexpects : expects = .key ∨ expects = .keyOrEnd) :
    ∃ more, ((quoteChars name ++ ':' :: renderChars value).foldl Lexer.step
        ⟨tokens, .between⟩).Settled more ∧
      Assembly.after more =
        .inside (.object ((some name, Fragment.ofJson value) :: done) (some name) :: frames)
          .commaOrEnd := by
  have hkey : Assembly.after (.colon :: .string (some name) :: tokens) =
      .inside (.object done (some name) :: frames) .value := by
    show ((Assembly.after tokens).step (.string (some name))).step .colon = _
    rw [hafter]
    rcases hexpects with rfl | rfl <;> rfl
  obtain ⟨more, hmore, hput⟩ := hvalue _ _ _ hkey (.inl rfl)
  refine ⟨more, ?_, hput⟩
  rw [List.foldl_append, Lexer.foldl_quoteChars]
  exact hmore

variable (hmembers : ∀ member ∈ members, Reads (renderChars member.2) (Fragment.ofJson member.2))
include hmembers

theorem reads_renderMoreMembers {lexer : Lexer} {tokens : List Token}
    {done : List (Option String × Fragment)} {key : Option String} {frames : List Frame}
    (hlexer : lexer.Settled tokens)
    (hafter : Assembly.after tokens = .inside (.object done key :: frames) .commaOrEnd) :
    ∃ more, ((renderMoreMembers members ++ ['\x7d']).foldl Lexer.step lexer).Settled more ∧
      Assembly.after more =
        Assembly.put (.object (done.reverse ++ Fragment.ofMembers members) true) frames := by
  induction members generalizing lexer tokens done key with
  | nil =>
    refine ⟨.closeBrace :: tokens, ?_, ?_⟩
    · show (lexer.step '\x7d').Settled _
      rw [hlexer.step '\x7d' (by decide)]
      exact Lexer.settled_between _
    · show (Assembly.after tokens).step .closeBrace = _
      rw [hafter, Fragment.ofMembers, List.append_nil]
      rfl
  | cons member rest ih =>
    obtain ⟨name, value⟩ := member
    have hcomma : Assembly.after (.comma :: tokens) =
        .inside (.object done key :: frames) .key := by
      show (Assembly.after tokens).step .comma = _
      rw [hafter]
      rfl
    obtain ⟨more, hmore, hmember⟩ :=
      reads_member (hmembers (name, value) List.mem_cons_self) hcomma (.inl rfl)
    obtain ⟨all, hall, hend⟩ :=
      ih (fun other ho => hmembers other (List.mem_cons_of_mem _ ho)) hmore hmember
    refine ⟨all, ?_, ?_⟩
    · rw [renderMoreMembers, List.cons_append, List.foldl_cons, hlexer.step ',' (by decide),
        member_append, List.append_assoc, List.foldl_append]
      exact hall
    · rw [hend, Fragment.ofMembers, List.reverse_cons, List.append_assoc, List.singleton_append]

theorem reads_object :
    Reads (renderChars (.object members)) (Fragment.ofJson (.object members)) := by
  intro tokens frames expects hafter hexpects
  have hopen : Assembly.after (.openBrace :: tokens) =
      .inside (.object [] none :: frames) .keyOrEnd := by
    show (Assembly.after tokens).step .openBrace = _
    rw [hafter]
    rcases hexpects with rfl | rfl <;> rfl
  rw [renderChars, Fragment.ofJson, List.foldl_cons]
  show ∃ more, ((renderMembers members ++ ['\x7d']).foldl Lexer.step
    ⟨.openBrace :: tokens, .between⟩).Settled more ∧ _
  cases members with
  | nil =>
    refine ⟨.closeBrace :: .openBrace :: tokens, Lexer.settled_between _, ?_⟩
    show (Assembly.after (.openBrace :: tokens)).step .closeBrace = _
    rw [hopen]
    rfl
  | cons member rest =>
    obtain ⟨name, value⟩ := member
    obtain ⟨more, hmore, hmember⟩ :=
      reads_member (hmembers (name, value) List.mem_cons_self) hopen (.inr rfl)
    rw [renderMembers, member_append, List.append_assoc, List.foldl_append]
    exact reads_renderMoreMembers (fun other ho => hmembers other (List.mem_cons_of_mem _ ho)) hmore
      hmember

end Members

/-- Whatever the writer makes of an exact value stands for that value. -/
theorem Exact.reads {value : Json} (h : value.Exact) :
    Reads (renderChars value) (Fragment.ofJson value) := by
  induction h with
  | null =>
    refine reads_token (fun tokens => Lexer.settled_word tokens ['l', 'l', 'u', 'n']) ?_
    rintro frames expects (rfl | rfl) <;> rfl
  | bool b =>
    cases b with
    | true =>
      refine reads_token (fun tokens => Lexer.settled_word tokens ['e', 'u', 'r', 't']) ?_
      rintro frames expects (rfl | rfl) <;> rfl
    | false =>
      refine reads_token (fun tokens => Lexer.settled_word tokens ['e', 's', 'l', 'a', 'f']) ?_
      rintro frames expects (rfl | rfl) <;> rfl
  | int i =>
    refine reads_token (fun tokens => Lexer.settled_int tokens i) ?_
    rintro frames expects (rfl | rfl) <;> rfl
  | string s =>
    have htext : ∀ tokens, ((quoteChars s).foldl Lexer.step ⟨tokens, .between⟩).Settled
        (.string (some s) :: tokens) := by
      intro tokens
      rw [Lexer.foldl_quoteChars]
      exact Lexer.settled_between _
    refine reads_token htext ?_
    -- inside an object a text could also be a name, but none is due here
    rintro (_ | ⟨_ | _, _⟩) expects (rfl | rfl) <;> rfl
  | array _ ih => exact reads_array ih
  | object _ ih => exact reads_object ih

/-- **What is written is read**: the text of an exact value is read as that value, to its end. -/
theorem Exact.read_render {value : Json} (h : value.Exact) :
    read value.render = ⟨Fragment.ofJson value, true⟩ := by
  obtain ⟨tokens, hlexer, hafter⟩ := h.reads [] [] .value rfl (.inl rfl)
  refine read_of_settled ?_ hafter
  rw [render, String.toList_ofList]
  exact hlexer

end Json
end RemoteTables
