/-
Tokens with spaces between them are read one by one.

`Scans b t` says that the text of the token `t` is read as `t` wherever a space or the end
follows, where `b` tells whether an operand is expected there.  Whether a slash opens a pattern is
settled by the token before it, so a row of tokens is checked from the left (`TokenRow`), and
what is read from the row differs from it in the places of the tokens only.

A token that stands anywhere is read when a space follows it (`Form.scans`): no form goes on over
a space from where it has ended.
-/
import NoteQuery.Expr.Syntax
import NoteQuery.Proofs.LexicalGrammar
import Mathlib.Data.List.Forall2

namespace NoteQuery.Token

/-! ## Rows of tokens -/

/-- Nothing follows, or a space does. -/
def Separated (rest : List Char) : Prop :=
  rest = [] ∨ ∃ cs, rest = ' ' :: cs

/-- The text of the token is read as the token where a space or the end follows. -/
def Scans (operandNext : Bool) (t : Token) : Prop :=
  ∃ c cs, t.raw = String.ofList (c :: cs) ∧ Text.isBlank c = false ∧ ∀ rest, Separated rest →
    readLexeme operandNext c (cs ++ rest) = .ok ⟨t.kind, t.text.toList, cs.length + 1⟩

/-- Each token is read as itself behind those before it.  The flags say whether an operand is
expected before the tokens and behind them. -/
inductive TokenRow : Bool → List Token → Bool → Prop
  | nil {b : Bool} : TokenRow b [] b
  | cons {b b' : Bool} {t : Token} {ts : List Token} :
      Scans b t → TokenRow t.expectsOperand ts b' → TokenRow b (t :: ts) b'

theorem TokenRow.append {b b' b'' : Bool} {ts us : List Token} (h : TokenRow b ts b')
    (hus : TokenRow b' us b'') : TokenRow b (ts ++ us) b'' := by
  induction h with
  | nil => exact hus
  | cons ht _ ih => exact .cons ht (ih hus)

/-- The tokens differ in their places only. -/
def SameButPlace (t u : Token) : Prop :=
  t.kind = u.kind ∧ t.text = u.text ∧ t.raw = u.raw

/-- The texts of the tokens, with a space before each. -/
def spaced (ts : List Token) : List Char :=
  ts.flatMap fun t => ' ' :: t.raw.toList

theorem separated_spaced (ts : List Token) : Separated (spaced ts) := by
  cases ts with
  | nil => exact .inl rfl
  | cons t ts => exact .inr ⟨_, rfl⟩

theorem readAll_scans {b : Bool} {t : Token} (h : Scans b t) {rest : List Char}
    (hrest : Separated rest) (pos : Nat) : ∃ pos',
    readAll b pos (t.raw.toList ++ rest) =
      (readAll t.expectsOperand pos' rest).map ({ t with first := pos } :: ·) := by
  obtain ⟨c, cs, hraw, hblank, hread⟩ := h
  refine ⟨pos + cs.length + 1, ?_⟩
  rw [hraw, String.toList_ofList, List.cons_append, readAll, hread rest hrest]
  simp only [hblank, Bool.false_eq_true, ↓reduceIte, Nat.add_sub_cancel, List.take_left,
    List.drop_left, String.ofList_toList]
  rw [← hraw]
  rfl

/-- A row of tokens is read from its text, with the end mark behind it. -/
theorem readAll_spaced {b b' : Bool} {ts : List Token} (h : TokenRow b ts b') (pos : Nat) :
    ∃ us last, readAll b pos (spaced ts) = .ok (us ++ [last]) ∧ last.kind = .eof ∧
      List.Forall₂ SameButPlace ts us := by
  induction h generalizing pos with
  | nil => exact ⟨[], _, readAll_nil, rfl, .nil⟩
  | @cons b b' t ts ht _ ih =>
      obtain ⟨pos', hread⟩ := readAll_scans ht (separated_spaced ts) (pos + 1)
      obtain ⟨us, last, hus, hlast, hsame⟩ := ih pos'
      refine ⟨{ t with first := pos + 1 } :: us, last, ?_, hlast, .cons ⟨rfl, rfl, rfl⟩ hsame⟩
      show readAll b pos (' ' :: (t.raw.toList ++ spaced ts)) = _
      rw [readAll_blank (by decide), hread, hus]
      rfl

theorem toList_intercalate_raw (t : Token) (ts : List Token) :
    (" ".intercalate ((t :: ts).map Token.raw)).toList = t.raw.toList ++ spaced ts := by
  induction ts generalizing t with
  | nil =>
      rw [List.map_singleton, String.intercalate_singleton]
      exact (List.append_nil _).symm
  | cons u ts ih =>
      rw [List.map_cons, List.map_cons, String.intercalate_cons_cons, ← List.map_cons,
        String.toList_append, String.toList_append, ih, List.append_assoc]
      rfl

/-- A row of tokens is read from its texts with a space between any two. -/
theorem tokenize_intercalate {b : Bool} {t : Token} {ts : List Token}
    (h : TokenRow true (t :: ts) b) :
    ∃ us last, tokenize (" ".intercalate ((t :: ts).map Token.raw)) = .ok (us ++ [last]) ∧
      last.kind = .eof ∧ List.Forall₂ SameButPlace (t :: ts) us := by
  cases h with
  | cons ht hts =>
      obtain ⟨pos, hread⟩ := readAll_scans ht (separated_spaced ts) 0
      obtain ⟨us, last, hus, hlast, hsame⟩ := readAll_spaced hts pos
      refine ⟨{ t with first := 0 } :: us, last, ?_, hlast, .cons ⟨rfl, rfl, rfl⟩ hsame⟩
      rw [tokenize, toList_intercalate_raw, hread, hus]
      rfl

/-! ## Forms before spaces -/

theorem ends_of_separated {rest : List Char} (h : Separated rest) : Ends rest := by
  obtain rfl | ⟨cs, rfl⟩ := h
  · exact nofun
  · rintro c ⟨⟩
    exact stops_of_isBlank (by decide)

/-- A token of a form is read as itself where a space follows, whatever followed it before. -/
theorem Form.scans {b : Bool} {kind : TokenKind} {text raw rest : List Char}
    (h : Form b kind text raw rest) (pos : Nat) :
    Scans b ⟨kind, String.ofList text, String.ofList raw, pos⟩ := by
  obtain ⟨c, cs, rfl, hblank⟩ := h.exists_cons
  refine ⟨c, cs, rfl, hblank, fun rest' hrest => ?_⟩
  rw [(h.of_ends (ends_of_separated hrest)).readLexeme, String.toList_ofList]

/-! ## The words of the syntax -/

/-- A token of a sort with its own text. -/
def word (kind : TokenKind) (text : String) : Token :=
  ⟨kind, text, text, 0⟩

/-- A punctuation mark. -/
def mark (c : Char) : Token :=
  word .punctuation (String.ofList [c])

theorem scans_mark {c : Char} (h : c ∈ punctuators) (b : Bool) : Scans b (mark c) := by
  have hform : Form b .punctuation [c] [c] [] := .mark h
  exact hform.scans 0

theorem scans_operator {b : Bool} {op : String}
    (hfind : (operators.find? fun other => other.toList.isPrefixOf op.toList) = some op)
    (hslash : op.toList = ['/'] → b = false) : Scans b (word .operator op) := by
  rw [← List.append_nil op.toList] at hfind
  have hscans := (Form.symbol hfind rfl hslash).scans 0
  rwa [String.ofList_toList] at hscans

/-- Behind an operand a slash divides. -/
theorem scans_binary (op : BinaryOperator) : Scans false (word .operator op.symbol) :=
  scans_operator (by cases op <;> rfl) fun _ => rfl

theorem scans_unary (op : UnaryOperator) (b : Bool) : Scans b (word .operator op.symbol) := by
  refine scans_operator (by cases op <;> rfl) fun hslash => ?_
  cases op <;> exact absurd hslash (by decide)

/-- The text is a name that is no operator. -/
def IsName (name : String) : Prop :=
  ∃ c cs, name.toList = c :: cs ∧ isNameStart c = true ∧ cs.all isNamePart = true ∧
    name ∉ wordOperators

theorem scans_name {name : String} (h : IsName name) (b : Bool) :
    Scans b (word .identifier name) := by
  obtain ⟨c, cs, hname, hc, hcs, hword⟩ := h
  have hkind : wordKind (c :: cs) = .identifier := by
    rw [wordKind, ← hname, String.ofList_toList, if_neg]
    simpa using hword
  have hform : Form b (wordKind (c :: cs)) (c :: cs) (c :: cs) [] :=
    .word hc (List.all_eq_true.mp hcs) nofun
  have hscans := hform.scans 0
  rwa [hkind, ← hname, String.ofList_toList] at hscans

/-- A character between double quotes. -/
def escaped (c : Char) : List Char :=
  if c = '"' || c = '\\' then ['\\', c] else [c]

/-- The text between double quotes, with backslashes before quotes and backslashes. -/
def quoted (s : String) : String :=
  String.ofList ('"' :: (s.toList.flatMap escaped ++ ['"']))

theorem enclosed_escaped (cs : List Char) : Enclosed '"' (cs.flatMap escaped) cs := by
  induction cs with
  | nil => exact .nil
  | cons c cs ih =>
    rw [List.flatMap_cons, escaped]
    split
    · exact .escaped ih
    · next hc =>
      simp only [Bool.or_eq_true, decide_eq_true_eq, not_or] at hc
      exact .plain hc.2 hc.1 ih

/-- A key. -/
def keyToken (key : String) : Token :=
  ⟨.string, key, quoted key, 0⟩

theorem scans_keyToken (s : String) (b : Bool) : Scans b (keyToken s) := by
  have hform : Form b .string s.toList ('"' :: (s.toList.flatMap escaped ++ ['"'])) [] :=
    .string (.inl rfl) (enclosed_escaped s.toList)
  have hscans := hform.scans 0
  rwa [String.ofList_toList] at hscans

/-! ## Lexemes of literals -/

/-- The text of the token is read as the token and nothing else. -/
def IsLexeme (t : Token) : Prop :=
  ∃ last, tokenize t.raw = .ok [t, last]

/-- The text of a token is read as the same token before a space. -/
theorem scans_of_isLexeme {t : Token} (h : IsLexeme t) : Scans true t := by
  obtain ⟨last, h⟩ := h
  have hcuts := readAll_eq_ok_iff.mp h
  generalize hcs : t.raw.toList = cs at hcuts
  cases hcuts with
  | token _ hform htext hraw _ _ =>
    obtain ⟨kind, text, raw, pos⟩ := t
    dsimp only at hform htext hraw
    rw [htext, hraw]
    exact hform.scans pos

/-- What is read as itself where an operand is expected is a lexeme. -/
theorem isLexeme_of_scans {t : Token} (h : Scans true t) (hfirst : t.first = 0) : IsLexeme t := by
  obtain ⟨pos, hread⟩ := readAll_scans h (.inl rfl) 0
  refine ⟨⟨.eof, "", "", pos⟩, ?_⟩
  rw [List.append_nil, readAll_nil] at hread
  rw [tokenize, hread, ← hfirst]
  rfl

end NoteQuery.Token
