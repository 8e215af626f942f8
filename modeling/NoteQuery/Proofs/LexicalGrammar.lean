/-
The grammar of tokens.

`Form b kind text raw rest` says that `raw` is the text of a token of this sort before `rest`,
where `b` tells whether an operand is expected: one rule for each form of token, with the
characters that may not follow it.  The reader finds the token if and only if there is one
(`readLexeme_eq_ok_iff`).  No form but looks at more of the rest than at its first characters, and
those that separate tokens continue none (`Form.of_ends`).

`Cuts b pos cs ts` puts the forms together: the text is the texts of the tokens with blanks between
them, and each token is of a form behind the one before.  Reading a text all through is cutting it
so (`readAll_eq_ok_iff`).
-/
import NoteQuery.Expr.Token
import NoteQuery.Proofs.Outcomes
import Mathlib.Data.List.Find
import Mathlib.Data.List.TakeWhile

namespace NoteQuery

/-! ## Blanks -/

namespace Text

/-- What holds of all characters of some ranges, one by one, holds of whatever is in them. -/
theorem of_inRanges {ranges : List (Nat × Nat)} {p : Char → Prop}
    (hall : ∀ n ∈ ranges.flatMap (fun r => List.range' r.1 (r.2 + 1 - r.1)), p (Char.ofNat n))
    {c : Char} (h : inRanges ranges c = true) : p c := by
  obtain ⟨r, hr, hfirst, hlast⟩ := inRanges_eq_true_iff.mp h
  rw [← Char.ofNat_toNat c]
  refine hall c.toNat (List.mem_flatMap.mpr ⟨r, hr, ?_⟩)
  rw [List.mem_range'_1]
  omega

end Text

namespace Token

/-! ## Texts that go on with no such character -/

/-- The text goes on with no character that passes the test. -/
def BeginsNo (p : Char → Bool) (rest : List Char) : Prop :=
  ∀ c ∈ rest.head?, p c = false

theorem beginsNo_dropWhile {p : Char → Bool} {cs : List Char} : BeginsNo p (cs.dropWhile p) := by
  intro c hc
  have hhead := List.head?_dropWhile_not p cs
  rwa [Option.mem_def.mp hc] at hhead

theorem dropWhile_of_beginsNo {p : Char → Bool} {cs : List Char} (h : BeginsNo p cs) :
    cs.dropWhile p = cs := by
  cases cs with
  | nil => rfl
  | cons c cs => exact List.dropWhile_cons_of_neg (Bool.eq_false_iff.mp (h c rfl))

theorem takeWhile_append_of_beginsNo {p : Char → Bool} {front rest : List Char}
    (hfront : ∀ c ∈ front, p c = true) (hrest : BeginsNo p rest) :
    (front ++ rest).takeWhile p = front := by
  rw [List.takeWhile_append_of_pos hfront]
  cases rest with
  | nil => exact List.append_nil front
  | cons c rest =>
    rw [List.takeWhile_cons_of_neg (Bool.eq_false_iff.mp (hrest c rfl)), List.append_nil]

theorem beginsNo_append {p : Char → Bool} {front rest : List Char} (h : BeginsNo p front)
    (hrest : front = [] → BeginsNo p rest) : BeginsNo p (front ++ rest) := by
  cases front with
  | nil => exact hrest rfl
  | cons c front => exact h

theorem drop_takeWhile (p : Char → Bool) (cs : List Char) :
    cs.drop (cs.takeWhile p).length = cs.dropWhile p := by
  have h := List.prefix_iff_eq_append.mp (List.takeWhile_prefix p (l := cs))
  exact List.append_cancel_left (h.trans List.takeWhile_append_dropWhile.symm)

/-! ## Strings and patterns -/

/-- What stands between two marks with no bare mark in it, and what it says: the character behind
a backslash stands for itself. -/
inductive Enclosed (closer : Char) : List Char → List Char → Prop
  | nil : Enclosed closer [] []
  | escaped {c : Char} {inner content : List Char} :
      Enclosed closer inner content → Enclosed closer ('\\' :: c :: inner) (c :: content)
  | plain {c : Char} {inner content : List Char} : c ≠ '\\' → c ≠ closer →
      Enclosed closer inner content → Enclosed closer (c :: inner) (c :: content)

theorem ne_backslash {c : Char} {cs : List Char} (hnil : c = '\\' → cs = [] → False)
    (hcons : ∀ d ds, c = '\\' → cs = d :: ds → False) : c ≠ '\\' := by
  intro hc
  cases cs with
  | nil => exact hnil hc rfl
  | cons d ds => exact hcons d ds hc rfl

/-- Every character but a backslash stands for itself or closes the string. -/
theorem readString?_cons {quote c : Char} (hc : c ≠ '\\') (cs : List Char) :
    readString? quote (c :: cs) = if c = quote then some ([], 1)
      else (readString? quote cs).map fun (content, n) => (c :: content, n + 1) := by
  rw [readString?]
  · exact fun h => absurd h hc
  · exact fun _ _ h => absurd h hc

theorem Enclosed.readString? {quote : Char} {inner content : List Char}
    (h : Enclosed quote inner content) (hquote : quote ≠ '\\') (rest : List Char) :
    readString? quote (inner ++ quote :: rest) = some (content, inner.length + 1) := by
  induction h with
  | nil => rw [List.nil_append, readString?_cons hquote, if_pos rfl, List.length_nil]
  | escaped _ ih =>
    rw [List.cons_append, List.cons_append, Token.readString?, ih]
    rfl
  | plain hc hne _ ih =>
    rw [List.cons_append, readString?_cons hc, if_neg hne, ih]
    rfl

theorem exists_enclosed {quote : Char} {cs content : List Char} {n : Nat}
    (h : readString? quote cs = some (content, n)) :
    ∃ inner rest, cs = inner ++ quote :: rest ∧ n = inner.length + 1 ∧
      Enclosed quote inner content := by
  fun_induction readString? quote cs generalizing content n with
  | case1 | case2 => cases h
  | case3 c cs ih =>
    obtain ⟨⟨content', m⟩, hread, heq⟩ := Option.map_eq_some_iff.mp h
    cases heq
    obtain ⟨inner, rest, rfl, rfl, hinner⟩ := ih hread
    exact ⟨'\\' :: c :: inner, rest, rfl, rfl, .escaped hinner⟩
  | case4 cs =>
    cases h
    exact ⟨[], cs, rfl, rfl, .nil⟩
  | case5 c cs hnil hcons hne ih =>
    have hc : c ≠ '\\' := ne_backslash hnil hcons
    obtain ⟨⟨content', m⟩, hread, heq⟩ := Option.map_eq_some_iff.mp h
    cases heq
    obtain ⟨inner, rest, rfl, rfl, hinner⟩ := ih hread
    exact ⟨c :: inner, rest, rfl, rfl, .plain hc hne hinner⟩

/-- A pattern ends where a string between slashes would. -/
theorem patternLength?_eq (cs : List Char) :
    patternLength? false cs = (readString? '/' cs).map (·.2) := by
  have hescaped (c : Char) (cs : List Char) :
      patternLength? true (c :: cs) = (patternLength? false cs).map (· + 1) := by
    simp [patternLength?]
  fun_induction readString? '/' cs with
  | case1 | case2 => rfl
  | case3 c cs ih =>
    rw [patternLength?, if_neg (by decide)]
    show (patternLength? true (c :: cs)).map (· + 1) = _
    rw [hescaped, ih, Option.map_map, Option.map_map, Option.map_map]
    rfl
  | case4 cs => simp [patternLength?]
  | case5 c cs hnil hcons hne ih =>
    have hc : c ≠ '\\' := ne_backslash hnil hcons
    simp only [patternLength?, hne, hc, decide_false, Bool.false_and, Bool.false_eq_true, if_false]
    rw [ih, Option.map_map, Option.map_map]
    rfl

theorem Enclosed.patternLength? {inner content : List Char} (h : Enclosed '/' inner content)
    (rest : List Char) : patternLength? false (inner ++ '/' :: rest) = some (inner.length + 1) := by
  rw [patternLength?_eq, h.readString? (by decide)]
  rfl

theorem drop_closed (inner : List Char) (closer : Char) (rest : List Char) :
    (inner ++ closer :: rest).drop (inner.length + 1) = rest := by
  simp

theorem take_closed (inner : List Char) (closer : Char) (flags rest : List Char) :
    (inner ++ closer :: (flags ++ rest)).take (inner.length + 1 + flags.length) =
      inner ++ closer :: flags := by
  have hsplit : inner ++ closer :: (flags ++ rest) = (inner ++ closer :: flags) ++ rest := by simp
  rw [hsplit]
  refine List.take_left' ?_
  simp only [List.length_append, List.length_cons]
  omega

/-! ## Numbers -/

/-- What stands behind the digits of a number without a fraction. -/
def NoFraction (rest : List Char) : Prop :=
  ∀ c cs, rest = '.' :: c :: cs → Text.isDigit c = false

theorem isDigitPart_of_isDigit {c : Char} (h : Text.isDigit c = true) : isDigitPart c = true := by
  rw [isDigitPart, h, Bool.or_true]

theorem numberLength_whole {digits rest : List Char} (hdigits : ∀ d ∈ digits, isDigitPart d = true)
    (hrest : BeginsNo isDigitPart rest) (hpoint : NoFraction rest) :
    numberLength (digits ++ rest) = digits.length := by
  rw [numberLength, takeWhile_append_of_beginsNo hdigits hrest, List.drop_left]
  split
  · rw [if_neg (by rw [hpoint _ _ rfl]; decide)]
  · rfl

theorem numberLength_fraction {digits fraction rest : List Char} {d : Char}
    (hdigits : ∀ d ∈ digits, isDigitPart d = true) (hd : Text.isDigit d = true)
    (hfraction : ∀ d ∈ fraction, isDigitPart d = true) (hrest : BeginsNo isDigitPart rest) :
    numberLength (digits ++ '.' :: d :: fraction ++ rest) =
      (digits ++ '.' :: d :: fraction).length := by
  have hpoint : BeginsNo isDigitPart ('.' :: d :: (fraction ++ rest)) := by
    rintro c ⟨⟩
    decide
  rw [List.append_assoc, numberLength, List.cons_append, List.cons_append,
    takeWhile_append_of_beginsNo hdigits hpoint, List.drop_left]
  show (if Text.isDigit d = true then _ else _) = _
  rw [if_pos hd, takeWhile_append_of_beginsNo hfraction hrest, List.length_append,
    List.length_cons, List.length_cons]
  omega

/-- A text that starts with digits goes on with a fraction or with none. -/
theorem exists_digits (cs : List Char) : ∃ digits tail, cs = digits ++ tail ∧
    (∀ d ∈ digits, isDigitPart d = true) ∧ BeginsNo isDigitPart tail ∧
    (NoFraction tail ∨ ∃ d fraction rest, tail = '.' :: d :: (fraction ++ rest) ∧
      Text.isDigit d = true ∧ (∀ d ∈ fraction, isDigitPart d = true) ∧
      BeginsNo isDigitPart rest) := by
  refine ⟨cs.takeWhile isDigitPart, cs.dropWhile isDigitPart,
    List.takeWhile_append_dropWhile.symm, fun d hd => List.mem_takeWhile_imp hd,
    beginsNo_dropWhile, ?_⟩
  by_cases h : NoFraction (cs.dropWhile isDigitPart)
  · exact .inl h
  · simp only [NoFraction, not_forall, Bool.not_eq_false] at h
    obtain ⟨d, tail, htail, hd⟩ := h
    refine .inr ⟨d, tail.takeWhile isDigitPart, tail.dropWhile isDigitPart, ?_, hd,
      fun d hd => List.mem_takeWhile_imp hd, beginsNo_dropWhile⟩
    rw [htail, List.takeWhile_append_dropWhile]

/-! ## Characters that end tokens -/

/-- A character that continues no token, though it may stand within a string or a pattern. -/
structure Stops (c : Char) : Prop where
  digit : isDigitPart c = false
  name : isNamePart c = false
  point : c ≠ '.'
  operator : ∀ op ∈ operators, c ∉ op.toList

/-- Nothing follows, or a character that continues no token. -/
def Ends (rest : List Char) : Prop :=
  ∀ c ∈ rest.head?, Stops c

theorem stops_close : Stops ')' :=
  ⟨by decide, by decide, by decide, by decide⟩

/-- A blank ends every token. -/
theorem stops_of_isBlank {c : Char} (h : Text.isBlank c = true) : Stops c := by
  obtain ⟨hdigit, hname, hpoint, hop⟩ := Text.of_inRanges
    (p := fun c => isDigitPart c = false ∧ isNamePart c = false ∧ c ≠ '.' ∧
      ∀ op ∈ operators, c ∉ op.toList) (by decide +kernel) h
  exact ⟨hdigit, hname, hpoint, hop⟩

/-! ## Forms of tokens -/

/-- The sort of a word. -/
def wordKind (word : List Char) : TokenKind :=
  if wordOperators.contains (String.ofList word) then .operator else .identifier

/-- The text is that of a token before the rest, which does not go on with it. -/
inductive Form (operandNext : Bool) :
    TokenKind → List Char → List Char → List Char → Prop
  | string {quote : Char} {inner content rest : List Char} : quote = '"' ∨ quote = '\'' →
      Enclosed quote inner content →
      Form operandNext .string content (quote :: (inner ++ [quote])) rest
  | whole {c : Char} {digits rest : List Char} : Text.isDigit c = true →
      (∀ d ∈ digits, isDigitPart d = true) → BeginsNo isDigitPart rest → NoFraction rest →
      Form operandNext .number ((c :: digits).filter (· != '_')) (c :: digits) rest
  | fraction {c d : Char} {digits digits' rest : List Char} : Text.isDigit c = true →
      (∀ d ∈ digits, isDigitPart d = true) → Text.isDigit d = true →
      (∀ d ∈ digits', isDigitPart d = true) → BeginsNo isDigitPart rest →
      Form operandNext .number ((c :: (digits ++ '.' :: d :: digits')).filter (· != '_'))
        (c :: (digits ++ '.' :: d :: digits')) rest
  | word {c : Char} {cs rest : List Char} : isNameStart c = true →
      (∀ d ∈ cs, isNamePart d = true) → BeginsNo isNamePart rest →
      Form operandNext (wordKind (c :: cs)) (c :: cs) (c :: cs) rest
  | pattern {inner content flags rest : List Char} : operandNext = true →
      Enclosed '/' inner content → (∀ d ∈ flags, d.isAlpha = true) → BeginsNo Char.isAlpha rest →
      Form operandNext .pattern ('/' :: (inner ++ '/' :: flags)) ('/' :: (inner ++ '/' :: flags))
        rest
  | symbol {op : String} {raw rest : List Char} :
      (operators.find? fun op => op.toList.isPrefixOf (raw ++ rest)) = some op →
      op.toList = raw → (raw = ['/'] → operandNext = false) →
      Form operandNext .operator raw raw rest
  | mark {c : Char} {rest : List Char} : c ∈ punctuators →
      Form operandNext .punctuation [c] [c] rest

variable {b : Bool} {kind : TokenKind} {text raw rest : List Char}

/-! ## The reader finds the forms -/

theorem isNameStart_lt {c : Char} (h : isNameStart c = true) : c.toNat < 128 := by
  delta isNameStart Char.isAlpha Char.isUpper Char.isLower at h
  simp only [Bool.or_eq_true, Bool.and_eq_true, decide_eq_true_eq, beq_iff_eq, ge_iff_le,
    UInt32.le_iff_toNat_le] at h
  rcases h with ((⟨-, h⟩ | ⟨-, h⟩) | rfl) | rfl
  · exact Nat.lt_of_le_of_lt h (by decide)
  · exact Nat.lt_of_le_of_lt h (by decide)
  · decide
  · decide

/-- What begins a name begins nothing else. -/
theorem of_isNameStart {c : Char} (h : isNameStart c = true) : Text.isBlank c = false ∧
    (c = '"' || c = '\'') = false ∧ Text.isDigit c = false := by
  have hall : ∀ n < 128, isNameStart (Char.ofNat n) = true → Text.isBlank (Char.ofNat n) = false ∧
      (Char.ofNat n = '"' || Char.ofNat n = '\'') = false ∧
      Text.isDigit (Char.ofNat n) = false := by
    decide +kernel
  have hc := hall c.toNat (isNameStart_lt h)
  rw [Char.ofNat_toNat] at hc
  exact hc h

theorem not_quote_of_isDigit {c : Char} (h : Text.isDigit c = true) :
    (c = '"' || c = '\'') = false := by
  rw [Bool.or_eq_false_iff, decide_eq_false_iff_not, decide_eq_false_iff_not]
  constructor <;> rintro rfl <;> exact absurd h (by decide)

theorem not_isBlank_of_isDigit {c : Char} (h : Text.isDigit c = true) : Text.isBlank c = false := by
  rw [← Bool.not_eq_true]
  intro hc
  have hdigit := (stops_of_isBlank hc).digit
  rw [isDigitPart_of_isDigit h] at hdigit
  cases hdigit

/-- An operator begins as no literal and no name does, and only one begins with a slash. -/
theorem of_mem_operators {op : String} (h : op ∈ operators) {c : Char} {cs : List Char}
    (hop : op.toList = c :: cs) : (c = '"' || c = '\'') = false ∧ Text.isDigit c = false ∧
    isNameStart c = false ∧ Text.isBlank c = false ∧ (c = '/' → cs = []) := by
  -- A quantifier over characters would be decided by running through all of them.
  have hall : (operators.all fun op => op.toList.head?.all fun c => decide
      ((c = '"' || c = '\'') = false ∧ Text.isDigit c = false ∧ isNameStart c = false ∧
        Text.isBlank c = false ∧ (c = '/' → op.toList.tail = []))) = true := by
    decide
  have hc := List.all_eq_true.mp hall op h
  rw [hop] at hc
  exact of_decide_eq_true hc

/-- A mark begins nothing else. -/
theorem of_mem_punctuators {c : Char} (h : c ∈ punctuators) : (c = '"' || c = '\'') = false ∧
    Text.isDigit c = false ∧ isNameStart c = false ∧ Text.isBlank c = false ∧ c ≠ '/' ∧
    ∀ op ∈ operators, c ∉ op.toList := by
  have hall : (punctuators.all fun c => decide
      ((c = '"' || c = '\'') = false ∧ Text.isDigit c = false ∧ isNameStart c = false ∧
        Text.isBlank c = false ∧ c ≠ '/' ∧ ∀ op ∈ operators, c ∉ op.toList)) = true := by
    decide
  exact of_decide_eq_true (List.all_eq_true.mp hall c h)

theorem operators_ne_nil {op : String} (h : op ∈ operators) : op.toList ≠ [] := by
  have hall : ∀ op ∈ operators, op.toList ≠ [] := by decide
  exact hall op h

/-- No operator begins with a mark. -/
theorem find?_operators_mark {c : Char} (h : c ∈ punctuators) (cs : List Char) :
    (operators.find? fun op => op.toList.isPrefixOf (c :: cs)) = none := by
  rw [List.find?_eq_none]
  intro op hmem hfront
  obtain ⟨d, ds, hcons⟩ := List.exists_cons_of_ne_nil (operators_ne_nil hmem)
  have hprefix := List.isPrefixOf_iff_prefix.mp hfront
  rw [hcons, List.cons_prefix_cons] at hprefix
  have hnot := (of_mem_punctuators h).2.2.2.2.2 op hmem
  rw [hcons, hprefix.1] at hnot
  exact hnot List.mem_cons_self

/-- A token starts with a character that is not blank. -/
theorem Form.exists_cons (h : Form b kind text raw rest) :
    ∃ c cs, raw = c :: cs ∧ Text.isBlank c = false := by
  cases h with
  | string hquote _ =>
    refine ⟨_, _, rfl, ?_⟩
    rcases hquote with rfl | rfl <;> decide
  | whole hc _ _ _ | fraction hc _ _ _ _ => exact ⟨_, _, rfl, not_isBlank_of_isDigit hc⟩
  | word hc _ _ => exact ⟨_, _, rfl, (of_isNameStart hc).1⟩
  | pattern _ _ _ _ => exact ⟨_, _, rfl, by decide⟩
  | symbol hfind hop _ =>
    have hmem := List.mem_of_find?_eq_some hfind
    obtain ⟨c, cs, hraw⟩ := List.exists_cons_of_ne_nil (operators_ne_nil hmem)
    rw [← hop]
    exact ⟨c, cs, hraw, (of_mem_operators hmem hraw).2.2.2.1⟩
  | mark hc => exact ⟨_, _, rfl, (of_mem_punctuators hc).2.2.2.1⟩

/-- A token of a form is what the reader finds. -/
theorem Form.readLexeme {c : Char} {cs : List Char} (h : Form b kind text (c :: cs) rest) :
    readLexeme b c (cs ++ rest) = .ok ⟨kind, text, cs.length + 1⟩ := by
  cases h with
  | string hquote hinner =>
    have hne : c ≠ '\\' := by rcases hquote with rfl | rfl <;> decide
    have hc : (c = '"' || c = '\'') = true := by simpa using hquote
    rw [Token.readLexeme, if_pos hc, List.append_assoc, List.singleton_append,
      hinner.readString? hne, List.length_append, List.length_singleton]
  | whole hc hdigits hrest hpoint =>
    have hall : ∀ d ∈ c :: _, isDigitPart d = true :=
      List.forall_mem_cons.mpr ⟨isDigitPart_of_isDigit hc, hdigits⟩
    rw [Token.readLexeme, if_neg (by rw [not_quote_of_isDigit hc]; decide), if_pos hc,
      ← List.cons_append, numberLength_whole hall hrest hpoint]
    dsimp only
    rw [List.take_left, List.length_cons]
  | @fraction _ d digits digits' _ hc hdigits hd hdigits' hrest =>
    have hall : ∀ d ∈ c :: _, isDigitPart d = true :=
      List.forall_mem_cons.mpr ⟨isDigitPart_of_isDigit hc, hdigits⟩
    have hlength : numberLength (c :: (digits ++ '.' :: d :: digits') ++ rest) =
        (c :: (digits ++ '.' :: d :: digits')).length :=
      numberLength_fraction hall hd hdigits' hrest
    rw [Token.readLexeme, if_neg (by rw [not_quote_of_isDigit hc]; decide), if_pos hc,
      ← List.cons_append, hlength]
    dsimp only
    rw [List.take_left, List.length_cons]
  | word hc hcs hrest =>
    obtain ⟨-, hquote, hdigit⟩ := of_isNameStart hc
    rw [Token.readLexeme, if_neg (by rw [hquote]; decide), if_neg (by rw [hdigit]; decide),
      if_pos hc, takeWhile_append_of_beginsNo hcs hrest]
    rfl
  | @pattern inner content flags _ hb hinner hflags hrest =>
    subst hb
    rw [Token.readLexeme, if_neg (by decide), if_neg (by decide), if_neg (by decide),
      if_pos (by decide), List.append_assoc, List.cons_append, hinner.patternLength?]
    dsimp only
    rw [drop_closed, takeWhile_append_of_beginsNo hflags hrest, take_closed]
    congr 2
    simp only [List.length_append, List.length_cons]
    omega
  | @symbol op _ _ hfind hop hslash =>
    obtain ⟨hquote, hdigit, hname, -, hlong⟩ :=
      of_mem_operators (List.mem_of_find?_eq_some hfind) hop
    have hdivides : ¬ (decide (c = '/') && b) = true := by
      rw [Bool.and_eq_true, decide_eq_true_eq]
      rintro ⟨rfl, rfl⟩
      cases hlong rfl
      cases hslash rfl
    rw [Token.readLexeme, if_neg (by rw [hquote]; decide), if_neg (by rw [hdigit]; decide),
      if_neg (by rw [hname]; decide), if_neg hdivides, ← List.cons_append, hfind]
    dsimp only
    rw [hop, ← String.length_toList, hop, List.length_cons]
  | mark hc =>
    obtain ⟨hquote, hdigit, hname, -, hslash, -⟩ := of_mem_punctuators hc
    rw [List.nil_append, Token.readLexeme, if_neg (by rw [hquote]; decide),
      if_neg (by rw [hdigit]; decide), if_neg (by rw [hname]; decide),
      if_neg (by rw [decide_eq_false hslash, Bool.false_and]; decide), find?_operators_mark hc]
    dsimp only
    rw [if_pos (List.contains_iff_mem.mpr hc)]
    rfl

/-- Where a digit stands a number starts, and its length is that of the number. -/
theorem exists_number {c : Char} (hc : Text.isDigit c = true) (cs : List Char) :
    ∃ front rest, cs = front ++ rest ∧ numberLength (c :: cs) = front.length + 1 ∧
      Form b .number ((c :: front).filter (· != '_')) (c :: front) rest := by
  obtain ⟨digits, tail, hcs, hdigits, htail, hpoint⟩ := exists_digits (c :: cs)
  cases digits with
  | nil =>
    obtain rfl : c :: cs = tail := hcs
    have hno := htail c rfl
    rw [isDigitPart_of_isDigit hc] at hno
    cases hno
  | cons d digits =>
    rw [List.cons_append, List.cons.injEq] at hcs
    obtain ⟨rfl, rfl⟩ := hcs
    have hrest := (List.forall_mem_cons.mp hdigits).2
    rcases hpoint with hpoint | ⟨d, digits', rest, rfl, hd, hdigits', htail'⟩
    · exact ⟨digits, tail, rfl, numberLength_whole hdigits htail hpoint,
        .whole hc hrest htail hpoint⟩
    · have hsplit : digits ++ '.' :: d :: (digits' ++ rest) =
          (digits ++ '.' :: d :: digits') ++ rest := by simp
      have hlength := numberLength_fraction hdigits hd hdigits' htail'
      rw [List.cons_append, List.cons_append, ← hsplit] at hlength
      exact ⟨_, rest, hsplit, hlength, .fraction hc hrest hd hdigits' htail'⟩

/-- Where a pattern ends, its flags follow. -/
theorem exists_pattern {cs : List Char} {n : Nat} (h : patternLength? false cs = some n) :
    ∃ front rest, cs = front ++ rest ∧
      n + ((cs.drop n).takeWhile Char.isAlpha).length = front.length ∧
      Form true .pattern ('/' :: front) ('/' :: front) rest := by
  rw [patternLength?_eq] at h
  obtain ⟨⟨content, m⟩, hread, rfl⟩ := Option.map_eq_some_iff.mp h
  obtain ⟨inner, tail, rfl, rfl, hinner⟩ := exists_enclosed hread
  refine ⟨inner ++ '/' :: tail.takeWhile Char.isAlpha, tail.dropWhile Char.isAlpha, ?_, ?_,
    .pattern rfl hinner (fun d hd => List.mem_takeWhile_imp hd) beginsNo_dropWhile⟩
  · rw [List.append_assoc, List.cons_append, List.takeWhile_append_dropWhile]
  · dsimp only
    rw [drop_closed, List.length_append, List.length_cons]
    omega

/-- What is found among the operators is one. -/
theorem exists_symbol {c : Char} {cs : List Char} {op : String}
    (h : (operators.find? fun op => op.toList.isPrefixOf (c :: cs)) = some op)
    (hslash : c = '/' → b = false) : ∃ front rest, cs = front ++ rest ∧ op.toList = c :: front ∧
      Form b .operator (c :: front) (c :: front) rest := by
  have hprefix : op.toList <+: c :: cs :=
    List.isPrefixOf_iff_prefix.mp (by simpa using List.find?_some h)
  obtain ⟨d, front, hcons⟩ :=
    List.exists_cons_of_ne_nil (operators_ne_nil (List.mem_of_find?_eq_some h))
  rw [hcons, List.cons_prefix_cons] at hprefix
  obtain ⟨rfl, rest, rfl⟩ := hprefix
  exact ⟨front, rest, rfl, hcons, .symbol h hcons fun hraw => hslash (List.cons.inj hraw).1⟩

/-- What the reader finds is a token of a form. -/
theorem exists_form {c : Char} {cs : List Char} {lexeme : Lexeme}
    (h : readLexeme b c cs = .ok lexeme) : ∃ front rest, cs = front ++ rest ∧
      lexeme.length = front.length + 1 ∧ Form b lexeme.kind lexeme.text (c :: front) rest := by
  unfold readLexeme at h
  split at h
  · next hquote =>
    split at h
    · next content n hread =>
      cases h
      obtain ⟨inner, rest, rfl, rfl, hinner⟩ := exists_enclosed hread
      exact ⟨inner ++ [c], rest, by simp, by simp, .string (by simpa using hquote) hinner⟩
    · cases h
  split at h
  · next hdigit =>
    cases h
    obtain ⟨front, rest, rfl, hlength, hform⟩ := exists_number hdigit cs
    refine ⟨front, rest, rfl, hlength, ?_⟩
    dsimp only
    rwa [hlength, List.take_succ_cons, List.take_left]
  split at h
  · next hname =>
    cases h
    exact ⟨cs.takeWhile isNamePart, cs.dropWhile isNamePart,
      List.takeWhile_append_dropWhile.symm, rfl,
      .word hname (fun d hd => List.mem_takeWhile_imp hd) beginsNo_dropWhile⟩
  split at h
  · next hslash =>
    rw [Bool.and_eq_true, decide_eq_true_eq] at hslash
    obtain ⟨rfl, rfl⟩ := hslash
    split at h
    · cases h
    · next n hn =>
      cases h
      obtain ⟨front, rest, rfl, hlength, hform⟩ := exists_pattern hn
      refine ⟨front, rest, rfl, ?_, ?_⟩
      · dsimp only
        omega
      · dsimp only
        rwa [hlength, List.take_left]
  next hslash =>
  split at h
  · next op hop =>
    cases h
    obtain ⟨front, rest, rfl, hcons, hform⟩ :=
      exists_symbol hop (b := b) (by simpa using hslash)
    refine ⟨front, rest, rfl, by rw [← String.length_toList, hcons, List.length_cons], ?_⟩
    dsimp only
    rwa [hcons]
  · split at h
    · next hmark =>
      cases h
      exact ⟨[], cs, rfl, rfl, .mark (List.contains_iff_mem.mp hmark)⟩
    · cases h

/-- The reader finds a token exactly where one of the forms stands. -/
theorem readLexeme_eq_ok_iff {c : Char} {cs : List Char} {lexeme : Lexeme} :
    readLexeme b c cs = .ok lexeme ↔ ∃ front rest, cs = front ++ rest ∧
      lexeme.length = front.length + 1 ∧ Form b lexeme.kind lexeme.text (c :: front) rest := by
  refine ⟨exists_form, ?_⟩
  rintro ⟨front, rest, rfl, hlength, hform⟩
  rw [hform.readLexeme, ← hlength]

/-- What keeps a token from being read is one of the causes that arise while tokens are read. -/
theorem isLexical_of_readLexeme {c : Char} {cs : List Char} {cause : SyntaxCause}
    (h : readLexeme b c cs = .error cause) : cause.isLexical = true := by
  unfold readLexeme at h
  split at h
  · split at h <;> cases h
    rfl
  split at h
  · cases h
  split at h
  · cases h
  split at h
  · split at h <;> cases h
    rfl
  split at h
  · cases h
  · split at h <;> cases h
    rfl

/-! ## Forms alone and among others -/

theorem wordKind_ne_eof (word : List Char) : wordKind word ≠ .eof := by
  unfold wordKind
  split <;> exact nofun

/-- The end of a text is no form. -/
theorem Form.kind_ne_eof (h : Form b kind text raw rest) : kind ≠ .eof := by
  cases h with
  | word => exact wordKind_ne_eof _
  | _ => exact nofun

theorem BeginsNo.append {p : Char → Bool} {cs : List Char} (h : BeginsNo p cs) (hrest : Ends rest)
    (hp : ∀ c, Stops c → p c = false) : BeginsNo p (cs ++ rest) := by
  cases cs with
  | nil => exact fun c hc => hp c (hrest c hc)
  | cons c cs =>
    rintro d ⟨⟩
    exact h c rfl

theorem NoFraction.append {cs : List Char} (h : NoFraction cs) (hrest : Ends rest) :
    NoFraction (cs ++ rest) := by
  intro c tail htail
  match cs, htail with
  | [], htail => exact absurd rfl (hrest '.' (by rw [← List.nil_append rest, htail]; rfl)).point
  | ['.'], htail =>
    rw [List.singleton_append, List.cons.injEq] at htail
    obtain ⟨-, rfl⟩ := htail
    exact (Bool.or_eq_false_iff.mp (hrest c rfl).digit).2
  | _ :: _ :: _, htail =>
    cases htail
    exact h _ _ rfl

theorem Stops.not_isAlpha {c : Char} (h : Stops c) : c.isAlpha = false := by
  have hname := h.name
  simp only [isNamePart, Char.isAlphanum, Bool.or_eq_false_iff] at hname
  exact hname.1.1.1

/-- An operator does not reach into a text that goes on with no token. -/
theorem isPrefixOf_append {op : String} {cs : List Char} (hop : op ∈ operators)
    (hrest : Ends rest) : op.toList.isPrefixOf (cs ++ rest) = op.toList.isPrefixOf cs := by
  rw [Bool.eq_iff_iff, List.isPrefixOf_iff_prefix, List.isPrefixOf_iff_prefix]
  refine ⟨fun hprefix => ?_, fun hprefix => hprefix.trans (List.prefix_append _ _)⟩
  rcases List.prefix_or_prefix_of_prefix hprefix (List.prefix_append cs rest) with hfront | hlong
  · exact hfront
  · obtain ⟨tail, htail⟩ := hlong
    rw [← htail, List.prefix_append_right_inj] at hprefix
    cases tail with
    | nil => exact ⟨[], by rw [← htail, List.append_nil, List.append_nil]⟩
    | cons c tail =>
      obtain ⟨rest', rfl⟩ := hprefix
      refine absurd ?_ ((hrest c rfl).operator op hop)
      rw [← htail]
      exact List.mem_append_right _ List.mem_cons_self

/-- A token is a token where nothing follows. -/
theorem Form.alone (h : Form b kind text raw rest) : Form b kind text raw [] := by
  cases h with
  | string hquote hinner => exact .string hquote hinner
  | whole hc hdigits _ _ => exact .whole hc hdigits nofun nofun
  | fraction hc hdigits hd hdigits' _ => exact .fraction hc hdigits hd hdigits' nofun
  | word hc hcs _ => exact .word hc hcs nofun
  | pattern hb hinner hflags _ => exact .pattern hb hinner hflags nofun
  | symbol hfind hop hslash =>
    obtain ⟨-, before, after, hall, hbefore⟩ := List.find?_eq_some_iff_append.mp hfind
    refine .symbol ?_ hop hslash
    rw [List.append_nil, ← hop]
    refine List.find?_eq_some_iff_append.mpr ⟨by simp, before, after, hall, fun other hother => ?_⟩
    have hno := hbefore other hother
    rw [Bool.not_eq_true', ← Bool.not_eq_true, List.isPrefixOf_iff_prefix] at hno ⊢
    exact fun hprefix => hno ((hop ▸ hprefix).trans (List.prefix_append _ _))
  | mark hc => exact .mark hc

/-- A token stays what it is when the text behind it goes on later with no token. -/
theorem Form.append {cs : List Char} (h : Form b kind text raw cs) (hrest : Ends rest) :
    Form b kind text raw (cs ++ rest) := by
  cases h with
  | string hquote hinner => exact .string hquote hinner
  | whole hc hdigits hcs hpoint =>
    exact .whole hc hdigits (hcs.append hrest fun _ h => h.digit) (hpoint.append hrest)
  | fraction hc hdigits hd hdigits' hcs =>
    exact .fraction hc hdigits hd hdigits' (hcs.append hrest fun _ h => h.digit)
  | word hc hparts hcs => exact .word hc hparts (hcs.append hrest fun _ h => h.name)
  | pattern hb hinner hflags hcs =>
    exact .pattern hb hinner hflags (hcs.append hrest fun _ h => h.not_isAlpha)
  | symbol hfind hop hslash =>
    refine .symbol ?_ hop hslash
    rw [← hfind]
    refine List.find?_congr fun other hother => ?_
    rw [← List.append_assoc, isPrefixOf_append hother hrest]
  | mark hc => exact .mark hc

/-- A token stays what it is before any text that goes on with no token. -/
theorem Form.of_ends {rest' : List Char} (h : Form b kind text raw rest) (hrest : Ends rest') :
    Form b kind text raw rest' :=
  h.alone.append hrest

/-! ## Texts cut into tokens -/

/-- The text, from a position, is cut into these tokens with blanks between them. -/
inductive Cuts : Bool → Nat → List Char → List Token → Prop
  | done {b : Bool} {pos : Nat} {blanks : List Char} : (∀ c ∈ blanks, Text.isBlank c = true) →
      Cuts b pos blanks [⟨.eof, "", "", pos + blanks.length⟩]
  | token {b : Bool} {pos : Nat} {blanks raw text rest : List Char} {t : Token} {ts : List Token} :
      (∀ c ∈ blanks, Text.isBlank c = true) → Form b t.kind text raw rest →
      t.text = String.ofList text → t.raw = String.ofList raw → t.first = pos + blanks.length →
      Cuts t.expectsOperand t.last rest ts →
      Cuts b pos (blanks ++ (raw ++ rest)) (t :: ts)

theorem readAll_nil {b : Bool} {pos : Nat} : readAll b pos [] = .ok [⟨.eof, "", "", pos⟩] := by
  rw [readAll]

theorem readAll_blank {b : Bool} {pos : Nat} {c : Char} {cs : List Char}
    (h : Text.isBlank c = true) : readAll b pos (c :: cs) = readAll b (pos + 1) cs := by
  rw [readAll, if_pos h]

theorem readAll_blanks {b : Bool} {pos : Nat} {blanks : List Char}
    (h : ∀ c ∈ blanks, Text.isBlank c = true) (cs : List Char) :
    readAll b pos (blanks ++ cs) = readAll b (pos + blanks.length) cs := by
  induction blanks generalizing pos with
  | nil => rfl
  | cons c blanks ih =>
    obtain ⟨hc, hblanks⟩ := List.forall_mem_cons.mp h
    rw [List.cons_append, readAll_blank hc, ih hblanks, List.length_cons]
    congr 1
    omega

/-- A token of a form is read, and then the text behind it. -/
theorem Form.readAll (h : Form b kind text raw rest) (pos : Nat) :
    readAll b pos (raw ++ rest) =
      let t : Token := ⟨kind, String.ofList text, String.ofList raw, pos⟩
      (readAll t.expectsOperand t.last rest).map (t :: ·) := by
  obtain ⟨c, cs, rfl, hc⟩ := h.exists_cons
  rw [List.cons_append, Token.readAll, if_neg (by rw [hc]; decide), h.readLexeme]
  dsimp only
  rw [Nat.add_sub_cancel, List.take_left, List.drop_left, last, String.length_ofList,
    List.length_cons, Nat.add_assoc]

theorem Cuts.blank {b : Bool} {pos : Nat} {c : Char} {cs : List Char} {ts : List Token}
    (hc : Text.isBlank c = true) (h : Cuts b (pos + 1) cs ts) : Cuts b pos (c :: cs) ts := by
  cases h with
  | done hblanks =>
    have hend : Cuts b pos (c :: cs) [⟨.eof, "", "", pos + (c :: cs).length⟩] :=
      .done (List.forall_mem_cons.mpr ⟨hc, hblanks⟩)
    rwa [List.length_cons, Nat.add_comm cs.length, ← Nat.add_assoc] at hend
  | token hblanks hform htext hraw hfirst hrest =>
    rw [← List.cons_append]
    refine .token (List.forall_mem_cons.mpr ⟨hc, hblanks⟩) hform htext hraw ?_ hrest
    rw [hfirst, List.length_cons]
    omega

/-- To read the tokens of a text is to cut it. -/
theorem readAll_eq_ok_iff {b : Bool} {pos : Nat} {cs : List Char} {ts : List Token} :
    readAll b pos cs = .ok ts ↔ Cuts b pos cs ts := by
  constructor
  · intro h
    fun_induction readAll b pos cs generalizing ts with
    | case1 b pos =>
      cases h
      exact .done (List.forall_mem_nil _)
    | case2 b pos c cs hc ih => exact (ih h).blank hc
    | case3 b pos c cs hc cause hread => cases h
    | case4 b pos c cs hc lexeme hread n raw token =>
      rename_i ih
      obtain ⟨us, hus, rfl⟩ := map_eq_ok.mp h
      obtain ⟨front, rest, rfl, hlength, hform⟩ := exists_form hread
      have hn : n = front.length := by omega
      have hraw : raw = String.ofList (c :: front) := by
        simp only [raw, hn, List.take_left]
      have hlast : token.last = pos + n + 1 := by
        show pos + raw.length = _
        rw [hraw, String.length_ofList, hn, List.length_cons, Nat.add_assoc]
      have hcut := ih hus
      rw [hn, List.drop_left, ← hn, ← hlast] at hcut
      exact .token (t := token) (List.forall_mem_nil _) hform rfl hraw rfl hcut
  · intro h
    induction h with
    | @done b pos blanks hblanks =>
      rw [← List.append_nil blanks, readAll_blanks hblanks, readAll_nil, List.append_nil]
    | @token b pos blanks raw text rest t ts hblanks hform htext hraw hfirst hrest ih =>
      obtain ⟨kind, text', raw', first⟩ := t
      dsimp only at htext hraw hfirst hform
      subst htext hraw hfirst
      rw [readAll_blanks hblanks, hform.readAll]
      dsimp only
      rw [ih]
      rfl

/-- The end mark is the last token and no other. -/
theorem Cuts.exists_last {b : Bool} {pos : Nat} {cs : List Char} {ts : List Token}
    (h : Cuts b pos cs ts) : ∃ us last, ts = us ++ [last] ∧ last.kind = .eof ∧
      ∀ t ∈ us, t.kind ≠ .eof := by
  induction h with
  | done _ => exact ⟨[], _, rfl, rfl, List.forall_mem_nil _⟩
  | @token _ _ _ _ _ _ t _ _ hform _ _ _ _ ih =>
    obtain ⟨us, last, rfl, hlast, hus⟩ := ih
    exact ⟨t :: us, last, rfl, hlast, List.forall_mem_cons.mpr ⟨hform.kind_ne_eof, hus⟩⟩

end Token

end NoteQuery
