/-
The grammar of expressions, apart from any way of reading it.

The binary operators stand on six levels, each grouping to the left over the next tighter one;
below them are prefix operators, then chains of accesses and calls, then primary expressions.
`Derives reads p us` says that the tokens `us` are a phrase `p` of this grammar, where `reads`
gives the expressions that single tokens write.  One type of phrases covers all the
nonterminals, so that the rules are one inductive relation and an induction over derivations
has one motive.

The spellings of the operators are written down here a second time, level by level: the
parser's own tables are compared with them in `mem_operatorsOf_iff` and `unaryOfSpelling?_iff`.
-/
import NoteQuery.Expr.Parser
import NoteQuery.Proofs.Mappings
import Mathlib.Data.List.Forall2

namespace NoteQuery.Grammar

open NoteQuery.Expr

/-! ## Spellings -/

/-- The binary operators of a level with their spellings.  Level 1 binds least. -/
def operatorsOf : Nat → List (String × BinaryOperator)
  | 1 => [("||", .or), ("or", .or)]
  | 2 => [("&&", .and), ("and", .and)]
  | 3 => [("==", .equal), ("!=", .unequal)]
  | 4 => [("<", .less), ("<=", .lessEqual), (">", .greater), (">=", .greaterEqual)]
  | 5 => [("+", .add), ("-", .subtract)]
  | 6 => [("*", .multiply), ("/", .divide), ("%", .modulo)]
  | _ => []

/-- The token is a binary operator of the level. -/
def WritesBinary (k : Nat) (op : BinaryOperator) (t : Token) : Prop :=
  t.kind = .operator ∧ (t.text, op) ∈ operatorsOf k

/-- The token is a prefix operator. -/
def WritesUnary (op : UnaryOperator) (t : Token) : Prop :=
  t.kind = .operator ∧ (t.text, op) ∈ [("!", .not), ("not", .not), ("-", UnaryOperator.negate)]

/-- The token is this punctuation mark. -/
def IsMark (mark : String) (t : Token) : Prop :=
  t.kind = .punctuation ∧ t.text = mark

/-- The token may be the key of a pair. -/
def IsKey (t : Token) : Prop :=
  t.kind = .string ∨ t.kind = .identifier

/-- The number that a numeral writes: an integer without a point, else a binary number. -/
inductive Numeral : List Char → Number → Prop
  | integer {ds : List Char} : '.' ∉ ds → Numeral ds (.int (Text.digitsValue ds))
  | fraction {ws ps : List Char} : '.' ∉ ws → Numeral (ws ++ '.' :: ps)
      (.float (Binary64.ofDecimal false (Text.digitsValue (ws ++ ps)) (-ps.length)))

/-- The expression that a single token writes: a literal with its text, or a name. -/
inductive Reads : Token → Expr → Prop
  | number {t : Token} {n : Number} : t.kind = .number → Numeral t.text.toList n →
      Reads t (.literal (.number n) t.raw)
  | string {t : Token} : t.kind = .string → Reads t (.literal (.string t.text) t.raw)
  | pattern {t : Token} {p : Pattern} : t.kind = .pattern → patternOf t = .ok p →
      Reads t (.literal (.pattern p) t.raw)
  | keyword {t : Token} {value : Literal} : t.kind = .identifier →
      (t.text, value) ∈ [("true", Literal.bool true), ("false", .bool false), ("null", .null)] →
      Reads t (.literal value t.raw)
  | name {t : Token} : t.kind = .identifier → t.text ∉ ["true", "false", "null"] →
      Reads t (.name t.text)

/-! ## Rules -/

/-- A nonterminal, with the tree that it stands for. -/
inductive Phrase where
  | level (k : Nat) (e : Expr)
  | unary (e : Expr)
  | chain (e : Expr)
  | primary (e : Expr)
  | items (es : List Expr)
  | someItems (es : List Expr)
  | pairs (ps : List (String × Expr))
  | somePairs (ps : List (String × Expr))

/-- The tokens are the phrase.  Level 7 is that of the operands of the tightest operators. -/
inductive Derives (reads : Token → Expr → Prop) : Phrase → List Token → Prop
  | operand {e : Expr} {us : List Token} :
      Derives reads (.unary e) us → Derives reads (.level 7 e) us
  | tighter {k : Nat} {e : Expr} {us : List Token} : k ≤ 6 →
      Derives reads (.level (k + 1) e) us → Derives reads (.level k e) us
  | binary {k : Nat} {op : BinaryOperator} {t : Token} {left right : Expr}
      {us vs : List Token} : WritesBinary k op t →
      Derives reads (.level k left) us → Derives reads (.level (k + 1) right) vs →
      Derives reads (.level k (.binary op left right)) (us ++ t :: vs)
  | prefixed {op : UnaryOperator} {t : Token} {e : Expr} {us : List Token} :
      WritesUnary op t → Derives reads (.unary e) us →
      Derives reads (.unary (.unary op e)) (t :: us)
  | postfixed {e : Expr} {us : List Token} :
      Derives reads (.chain e) us → Derives reads (.unary e) us
  | base {e : Expr} {us : List Token} :
      Derives reads (.primary e) us → Derives reads (.chain e) us
  | member {e : Expr} {dot name : Token} {us : List Token} : IsMark "." dot →
      name.kind = .identifier → Derives reads (.chain e) us →
      Derives reads (.chain (.member e name.text)) (us ++ [dot, name])
  | index {e position : Expr} {opener closer : Token} {us vs : List Token} :
      IsMark "[" opener → IsMark "]" closer →
      Derives reads (.chain e) us → Derives reads (.level 1 position) vs →
      Derives reads (.chain (.index e position)) (us ++ opener :: (vs ++ [closer]))
  | call {e : Expr} {es : List Expr} {opener closer : Token} {us vs : List Token} :
      IsMark "(" opener → IsMark ")" closer →
      Derives reads (.chain e) us → Derives reads (.items es) vs →
      Derives reads (.chain (.call e es)) (us ++ opener :: (vs ++ [closer]))
  | word {t : Token} {e : Expr} : reads t e → Derives reads (.primary e) [t]
  | group {e : Expr} {opener closer : Token} {us : List Token} :
      IsMark "(" opener → IsMark ")" closer → Derives reads (.level 1 e) us →
      Derives reads (.primary e) (opener :: (us ++ [closer]))
  | list {es : List Expr} {opener closer : Token} {us : List Token} :
      IsMark "[" opener → IsMark "]" closer → Derives reads (.items es) us →
      Derives reads (.primary (.list es)) (opener :: (us ++ [closer]))
  | object {ps : List (String × Expr)} {opener closer : Token} {us : List Token} :
      IsMark "\x7b" opener → IsMark "\x7d" closer → Derives reads (.pairs ps) us →
      Derives reads (.primary (.object ps)) (opener :: (us ++ [closer]))
  | noItems : Derives reads (.items []) []
  | items {es : List Expr} {us : List Token} :
      Derives reads (.someItems es) us → Derives reads (.items es) us
  | lastItem {e : Expr} {us : List Token} :
      Derives reads (.level 1 e) us → Derives reads (.someItems [e]) us
  | moreItems {e : Expr} {es : List Expr} {comma : Token} {us vs : List Token} :
      IsMark "," comma → Derives reads (.level 1 e) us → Derives reads (.someItems es) vs →
      Derives reads (.someItems (e :: es)) (us ++ comma :: vs)
  | noPairs : Derives reads (.pairs []) []
  | pairs {ps : List (String × Expr)} {us : List Token} :
      Derives reads (.somePairs ps) us → Derives reads (.pairs ps) us
  | lastPair {e : Expr} {key colon : Token} {us : List Token} : IsKey key →
      IsMark ":" colon → Derives reads (.level 1 e) us →
      Derives reads (.somePairs [(key.text, e)]) (key :: colon :: us)
  | morePairs {e : Expr} {ps : List (String × Expr)} {key colon comma : Token}
      {us vs : List Token} : IsKey key → IsMark ":" colon → IsMark "," comma →
      Derives reads (.level 1 e) us → Derives reads (.somePairs ps) vs →
      Derives reads (.somePairs ((key.text, e) :: ps)) (key :: colon :: (us ++ comma :: vs))

/-- The token writes an expression for the parser. -/
def ParserReads (t : Token) (e : Expr) : Prop :=
  ofToken? t = .ok (some e)

/-- The tokens before the first end mark. -/
def beforeEnd (ts : List Token) : List Token :=
  ts.takeWhile fun t => t.kind != .eof

/-! ## The parser's tables -/

theorem ofSpelling?_iff {s : String} {op : BinaryOperator} :
    BinaryOperator.ofSpelling? s = some op ↔ (s, op) ∈ BinaryOperator.spellings :=
  lookup_eq_some_iff_mem (by decide)

theorem unaryOfSpelling?_iff {s : String} {op : UnaryOperator} :
    UnaryOperator.ofSpelling? s = some op ↔
      (s, op) ∈ [("!", .not), ("not", .not), ("-", UnaryOperator.negate)] :=
  lookup_eq_some_iff_mem (by decide)

/-- The levels of the grammar are the parser's precedences. -/
theorem mem_operatorsOf_iff {k : Nat} {s : String} {op : BinaryOperator} :
    (s, op) ∈ operatorsOf k ↔ BinaryOperator.ofSpelling? s = some op ∧ op.precedence = k := by
  rw [ofSpelling?_iff]
  match k with
  | 0 | 1 | 2 | 3 | 4 | 5 | 6 | k + 7 =>
      cases op <;> simp [operatorsOf, BinaryOperator.spellings, BinaryOperator.precedence]

theorem precedence_bounds (op : BinaryOperator) : 1 ≤ op.precedence ∧ op.precedence ≤ 6 := by
  cases op <;> decide

theorem isPunctuation_iff {t : Token} {mark : String} :
    t.isPunctuation mark = true ↔ IsMark mark t := by
  simp only [Token.isPunctuation, Token.isThis, Bool.and_eq_true, beq_iff_eq, IsMark]

@[simp]
theorem current_cons (t : Token) (ts : List Token) : current (t :: ts) = t :=
  rfl

theorem binaryOperator?_cons {t : Token} {ts : List Token} {op : BinaryOperator} :
    binaryOperator? (t :: ts) = some op ↔ WritesBinary op.precedence op t := by
  rw [binaryOperator?, Option.ite_none_right_eq_some, WritesBinary, mem_operatorsOf_iff,
    current_cons, and_iff_left rfl]

theorem unaryOperator?_cons {t : Token} {ts : List Token} {op : UnaryOperator} :
    unaryOperator? (t :: ts) = some op ↔ WritesUnary op t := by
  rw [unaryOperator?, Option.ite_none_right_eq_some, WritesUnary, ← unaryOfSpelling?_iff,
    current_cons]

theorem WritesBinary.level_eq {k : Nat} {op : BinaryOperator} {t : Token}
    (h : WritesBinary k op t) : op.precedence = k :=
  (mem_operatorsOf_iff.mp h.2).2

/-! ## Other literals -/

mutual

/-- The expression with each literal and its text replaced. -/
def mapLiterals (g : Literal → String → Literal × String) : Expr → Expr
  | .literal value raw => .literal (g value raw).1 (g value raw).2
  | .name n => .name n
  | .member e n => .member (mapLiterals g e) n
  | .index e position => .index (mapLiterals g e) (mapLiterals g position)
  | .binary op left right => .binary op (mapLiterals g left) (mapLiterals g right)
  | .unary op e => .unary op (mapLiterals g e)
  | .call e es => .call (mapLiterals g e) (mapItems g es)
  | .list es => .list (mapItems g es)
  | .object ps => .object (mapPairs g ps)

def mapItems (g : Literal → String → Literal × String) : List Expr → List Expr
  | [] => []
  | e :: es => mapLiterals g e :: mapItems g es

def mapPairs (g : Literal → String → Literal × String) :
    List (String × Expr) → List (String × Expr)
  | [] => []
  | (key, e) :: ps => (key, mapLiterals g e) :: mapPairs g ps

end

section MapLiterals

variable {g g' : Literal → String → Literal × String}

mutual

theorem mapLiterals_self (h : ∀ v r, g v r = (v, r)) : ∀ e, mapLiterals g e = e
  | .literal value raw => by simp only [mapLiterals, h]
  | .name n => rfl
  | .member e n => by simp only [mapLiterals, mapLiterals_self h e]
  | .index e position => by
      simp only [mapLiterals, mapLiterals_self h e, mapLiterals_self h position]
  | .binary op left right => by
      simp only [mapLiterals, mapLiterals_self h left, mapLiterals_self h right]
  | .unary op e => by simp only [mapLiterals, mapLiterals_self h e]
  | .call e es => by simp only [mapLiterals, mapLiterals_self h e, mapItems_self h es]
  | .list es => by simp only [mapLiterals, mapItems_self h es]
  | .object ps => by simp only [mapLiterals, mapPairs_self h ps]

theorem mapItems_self (h : ∀ v r, g v r = (v, r)) : ∀ es, mapItems g es = es
  | [] => rfl
  | e :: es => by simp only [mapItems, mapLiterals_self h e, mapItems_self h es]

theorem mapPairs_self (h : ∀ v r, g v r = (v, r)) : ∀ ps, mapPairs g ps = ps
  | [] => rfl
  | (key, e) :: ps => by simp only [mapPairs, mapLiterals_self h e, mapPairs_self h ps]

end

mutual

/-- What is put back in every literal is put back in the expression. -/
theorem mapLiterals_inverse (h : ∀ v r, g' (g v r).1 (g v r).2 = (v, r)) :
    ∀ e, mapLiterals g' (mapLiterals g e) = e
  | .literal value raw => by simp only [mapLiterals, h]
  | .name n => rfl
  | .member e n => by simp only [mapLiterals, mapLiterals_inverse h e]
  | .index e position => by
      simp only [mapLiterals, mapLiterals_inverse h e, mapLiterals_inverse h position]
  | .binary op left right => by
      simp only [mapLiterals, mapLiterals_inverse h left, mapLiterals_inverse h right]
  | .unary op e => by simp only [mapLiterals, mapLiterals_inverse h e]
  | .call e es => by simp only [mapLiterals, mapLiterals_inverse h e, mapItems_inverse h es]
  | .list es => by simp only [mapLiterals, mapItems_inverse h es]
  | .object ps => by simp only [mapLiterals, mapPairs_inverse h ps]

theorem mapItems_inverse (h : ∀ v r, g' (g v r).1 (g v r).2 = (v, r)) :
    ∀ es, mapItems g' (mapItems g es) = es
  | [] => rfl
  | e :: es => by simp only [mapItems, mapLiterals_inverse h e, mapItems_inverse h es]

theorem mapPairs_inverse (h : ∀ v r, g' (g v r).1 (g v r).2 = (v, r)) :
    ∀ ps, mapPairs g' (mapPairs g ps) = ps
  | [] => rfl
  | (key, e) :: ps => by simp only [mapPairs, mapLiterals_inverse h e, mapPairs_inverse h ps]

end

end MapLiterals

/-! ## Derivations -/

section Derivations

variable {reads reads' : Token → Expr → Prop} {p : Phrase} {us : List Token}

/-- What binds tightly may stand where less is asked. -/
theorem Derives.loosen {k m : Nat} {e : Expr} (hk : k ≤ m) (hm : m ≤ 7)
    (h : Derives reads (.level m e) us) : Derives reads (.level k e) us := by
  obtain ⟨d, rfl⟩ := Nat.exists_eq_add_of_le hk
  induction d generalizing k with
  | zero => exact h
  | succ d ih =>
      have h' : Derives reads (.level (k + 1 + d) e) us := by
        rwa [Nat.add_right_comm, Nat.add_assoc]
      exact .tighter (by omega) (ih (Nat.le_add_right ..) (by omega) h')

/-- The second token is the first one as far as derivations go, except for its literal. -/
structure Alike (reads reads' : Token → Expr → Prop) (g : Literal → String → Literal × String)
    (t u : Token) : Prop where
  kind : t.kind = u.kind
  text : t.kind ≠ .number → t.text = u.text
  reads : ∀ e, reads t e → reads' u (mapLiterals g e)

namespace Alike

variable {g : Literal → String → Literal × String} {t u : Token}

theorem isMark {mark : String} (h : Alike reads reads' g t u) (ht : IsMark mark t) :
    IsMark mark u := by
  have htext := h.text (by rw [ht.1]; decide)
  exact ⟨h.kind ▸ ht.1, htext ▸ ht.2⟩

theorem isKey (h : Alike reads reads' g t u) (ht : IsKey t) : IsKey u := by
  unfold IsKey at ht ⊢
  rwa [← h.kind]

theorem key_text (h : Alike reads reads' g t u) (ht : IsKey t) : t.text = u.text := by
  refine h.text fun hk => ?_
  rcases ht with ht | ht <;>
  · rw [hk] at ht
    cases ht

theorem writesBinary {k : Nat} {op : BinaryOperator} (h : Alike reads reads' g t u)
    (ht : WritesBinary k op t) : WritesBinary k op u := by
  have htext := h.text (by rw [ht.1]; decide)
  exact ⟨h.kind ▸ ht.1, htext ▸ ht.2⟩

theorem writesUnary {op : UnaryOperator} (h : Alike reads reads' g t u)
    (ht : WritesUnary op t) : WritesUnary op u := by
  have htext := h.text (by rw [ht.1]; decide)
  exact ⟨h.kind ▸ ht.1, htext ▸ ht.2⟩

end Alike

theorem forall₂_append_left {R : Token → Token → Prop} {ts us vs : List Token}
    (h : List.Forall₂ R (ts ++ us) vs) :
    ∃ ts' us', vs = ts' ++ us' ∧ List.Forall₂ R ts ts' ∧ List.Forall₂ R us us' := by
  induction ts generalizing vs with
  | nil => exact ⟨[], vs, rfl, .nil, h⟩
  | cons t ts ih =>
      cases h with
      | cons ht hts =>
          obtain ⟨ts', us', rfl, hts, hus⟩ := ih hts
          exact ⟨_ :: ts', us', rfl, .cons ht hts, hus⟩

/-- What is between two tokens, with them. -/
theorem forall₂_between {R : Token → Token → Prop} {opener closer : Token} {us vs : List Token}
    (h : List.Forall₂ R (opener :: (us ++ [closer])) vs) :
    ∃ opener' us' closer', vs = opener' :: (us' ++ [closer']) ∧ R opener opener' ∧
      R closer closer' ∧ List.Forall₂ R us us' := by
  cases h with
  | cons ho h =>
      obtain ⟨us', ws, rfl, hus, hws⟩ := forall₂_append_left h
      cases hws with
      | cons hc hws =>
          cases hws
          exact ⟨_, us', _, rfl, ho, hc, hus⟩

/-- The phrase with each literal in its trees replaced. -/
def Phrase.mapLiterals (g : Literal → String → Literal × String) : Phrase → Phrase
  | .level k e => .level k (Grammar.mapLiterals g e)
  | .unary e => .unary (Grammar.mapLiterals g e)
  | .chain e => .chain (Grammar.mapLiterals g e)
  | .primary e => .primary (Grammar.mapLiterals g e)
  | .items es => .items (mapItems g es)
  | .someItems es => .someItems (mapItems g es)
  | .pairs ps => .pairs (mapPairs g ps)
  | .somePairs ps => .somePairs (mapPairs g ps)

/-- Derivations go over to tokens that are alike, one by one. -/
theorem Derives.transfer {g : Literal → String → Literal × String} (h : Derives reads p us) :
    ∀ {vs : List Token}, List.Forall₂ (Alike reads reads' g) us vs →
      Derives reads' (p.mapLiterals g) vs := by
  induction h with
  | operand _ ih => exact fun hvs => .operand (ih hvs)
  | tighter hk _ ih => exact fun hvs => .tighter hk (ih hvs)
  | binary ht _ _ ihl ihr =>
      intro vs hvs
      obtain ⟨us', ws, rfl, hus, hws⟩ := forall₂_append_left hvs
      cases hws with
      | cons ht' hws => exact .binary (ht'.writesBinary ht) (ihl hus) (ihr hws)
  | prefixed ht _ ih =>
      intro vs hvs
      cases hvs with
      | cons ht' hvs => exact .prefixed (ht'.writesUnary ht) (ih hvs)
  | postfixed _ ih => exact fun hvs => .postfixed (ih hvs)
  | base _ ih => exact fun hvs => .base (ih hvs)
  | member hd hn _ ih =>
      intro vs hvs
      obtain ⟨us', ws, rfl, hus, hws⟩ := forall₂_append_left hvs
      cases hws with
      | cons hd' hws =>
          cases hws with
          | cons hn' hws =>
              cases hws
              have hname := Derives.member (hd'.isMark hd) (hn'.kind ▸ hn) (ih hus)
              rwa [← hn'.key_text (.inr hn)] at hname
  | index ho hc _ _ ih ihp =>
      intro vs hvs
      obtain ⟨us', ws, rfl, hus, hws⟩ := forall₂_append_left hvs
      obtain ⟨opener', ps, closer', rfl, ho', hc', hps⟩ := forall₂_between hws
      exact .index (ho'.isMark ho) (hc'.isMark hc) (ih hus) (ihp hps)
  | call ho hc _ _ ih ihs =>
      intro vs hvs
      obtain ⟨us', ws, rfl, hus, hws⟩ := forall₂_append_left hvs
      obtain ⟨opener', ps, closer', rfl, ho', hc', hps⟩ := forall₂_between hws
      exact .call (ho'.isMark ho) (hc'.isMark hc) (ih hus) (ihs hps)
  | word ht =>
      intro vs hvs
      cases hvs with
      | cons ht' hvs =>
          cases hvs
          exact .word (ht'.reads _ ht)
  | group ho hc _ ih =>
      intro vs hvs
      obtain ⟨opener', us', closer', rfl, ho', hc', hus⟩ := forall₂_between hvs
      exact .group (ho'.isMark ho) (hc'.isMark hc) (ih hus)
  | list ho hc _ ih =>
      intro vs hvs
      obtain ⟨opener', us', closer', rfl, ho', hc', hus⟩ := forall₂_between hvs
      exact .list (ho'.isMark ho) (hc'.isMark hc) (ih hus)
  | object ho hc _ ih =>
      intro vs hvs
      obtain ⟨opener', us', closer', rfl, ho', hc', hus⟩ := forall₂_between hvs
      exact .object (ho'.isMark ho) (hc'.isMark hc) (ih hus)
  | noItems =>
      intro vs hvs
      cases hvs
      exact .noItems
  | items _ ih => exact fun hvs => .items (ih hvs)
  | lastItem _ ih => exact fun hvs => .lastItem (ih hvs)
  | moreItems hc _ _ ih ihs =>
      intro vs hvs
      obtain ⟨us', ws, rfl, hus, hws⟩ := forall₂_append_left hvs
      cases hws with
      | cons hc' hws => exact .moreItems (hc'.isMark hc) (ih hus) (ihs hws)
  | noPairs =>
      intro vs hvs
      cases hvs
      exact .noPairs
  | pairs _ ih => exact fun hvs => .pairs (ih hvs)
  | lastPair hk hc _ ih =>
      intro vs hvs
      cases hvs with
      | cons hk' hvs =>
          cases hvs with
          | cons hc' hvs =>
              have hpair := Derives.lastPair (hk'.isKey hk) (hc'.isMark hc) (ih hvs)
              rwa [← hk'.key_text hk] at hpair
  | morePairs hk hc hm _ _ ih ihs =>
      intro vs hvs
      cases hvs with
      | cons hk' hvs =>
          cases hvs with
          | cons hc' hvs =>
              obtain ⟨us', ws, rfl, hus, hws⟩ := forall₂_append_left hvs
              cases hws with
              | cons hm' hws =>
                  have hpairs := Derives.morePairs (hk'.isKey hk) (hc'.isMark hc)
                    (hm'.isMark hm) (ih hus) (ihs hws)
                  rwa [← hk'.key_text hk] at hpairs

theorem Phrase.mapLiterals_self : p.mapLiterals Prod.mk = p := by
  have h : ∀ (v : Literal) (r : String), Prod.mk v r = (v, r) := fun _ _ => rfl
  cases p <;>
    simp only [Phrase.mapLiterals, Grammar.mapLiterals_self h, mapItems_self h, mapPairs_self h]

/-- Derivations do not depend on what else is true of tokens. -/
theorem Derives.transfer_self {vs : List Token} (h : Derives reads p us)
    (hvs : List.Forall₂ (fun t u => t.kind = u.kind ∧ t.text = u.text ∧
      ∀ e, reads t e → reads' u e) us vs) : Derives reads' p vs := by
  have halike : List.Forall₂ (Alike reads reads' Prod.mk) us vs := by
    refine hvs.imp ?_
    rintro t u ⟨hkind, htext, hreads⟩
    refine ⟨hkind, fun _ => htext, fun e he => ?_⟩
    rw [mapLiterals_self fun _ _ => rfl]
    exact hreads e he
  have hmap := h.transfer halike
  rwa [Phrase.mapLiterals_self] at hmap

/-- A derivation depends on single tokens only where it has them. -/
theorem Derives.mono (h : Derives reads p us) (hr : ∀ t ∈ us, ∀ e, reads t e → reads' t e) :
    Derives reads' p us :=
  h.transfer_self (List.forall₂_same.mpr fun t ht => ⟨rfl, rfl, hr t ht⟩)

/-- A token that is part of the syntax itself. -/
def IsSyntax (t : Token) : Prop :=
  t.kind = .operator ∨ t.kind = .punctuation ∨ IsKey t

theorem WritesBinary.isSyntax {k : Nat} {op : BinaryOperator} {t : Token}
    (h : WritesBinary k op t) : IsSyntax t :=
  .inl h.1

theorem WritesUnary.isSyntax {op : UnaryOperator} {t : Token} (h : WritesUnary op t) :
    IsSyntax t :=
  .inl h.1

theorem IsMark.isSyntax {mark : String} {t : Token} (h : IsMark mark t) : IsSyntax t :=
  .inr (.inl h.1)

theorem IsKey.isSyntax {t : Token} (h : IsKey t) : IsSyntax t :=
  .inr (.inr h)

/-- What is true of the syntax and of all tokens that write expressions is true of all tokens
that a derivation has. -/
theorem Derives.forall_tokens {Q : Token → Prop} (hsyn : ∀ t, IsSyntax t → Q t)
    (hreads : ∀ t e, reads t e → Q t) (h : Derives reads p us) : ∀ t ∈ us, Q t := by
  have hnil : ∀ t ∈ ([] : List Token), Q t := fun _ ht => nomatch ht
  induction h with
  | operand _ ih | tighter _ _ ih | postfixed _ ih | base _ ih | items _ ih | lastItem _ ih
  | pairs _ ih => exact ih
  | noItems | noPairs => exact hnil
  | word ht => exact List.forall_mem_cons.mpr ⟨hreads _ _ ht, hnil⟩
  | binary ht _ _ ihl ihr =>
      exact List.forall_mem_append.mpr
        ⟨ihl, List.forall_mem_cons.mpr ⟨hsyn _ ht.isSyntax, ihr⟩⟩
  | prefixed ht _ ih => exact List.forall_mem_cons.mpr ⟨hsyn _ ht.isSyntax, ih⟩
  | member hd hn _ ih =>
      refine List.forall_mem_append.mpr ⟨ih, List.forall_mem_cons.mpr ⟨hsyn _ hd.isSyntax, ?_⟩⟩
      exact List.forall_mem_cons.mpr ⟨hsyn _ (IsKey.isSyntax (.inr hn)), hnil⟩
  | index ho hc _ _ ih ihs | call ho hc _ _ ih ihs =>
      refine List.forall_mem_append.mpr ⟨ih, List.forall_mem_cons.mpr ⟨hsyn _ ho.isSyntax, ?_⟩⟩
      exact List.forall_mem_append.mpr
        ⟨ihs, List.forall_mem_cons.mpr ⟨hsyn _ hc.isSyntax, hnil⟩⟩
  | group ho hc _ ih | list ho hc _ ih | object ho hc _ ih =>
      refine List.forall_mem_cons.mpr ⟨hsyn _ ho.isSyntax, List.forall_mem_append.mpr ⟨ih, ?_⟩⟩
      exact List.forall_mem_cons.mpr ⟨hsyn _ hc.isSyntax, hnil⟩
  | moreItems hc _ _ ih ihs =>
      exact List.forall_mem_append.mpr
        ⟨ih, List.forall_mem_cons.mpr ⟨hsyn _ hc.isSyntax, ihs⟩⟩
  | lastPair hk hc _ ih =>
      exact List.forall_mem_cons.mpr
        ⟨hsyn _ hk.isSyntax, List.forall_mem_cons.mpr ⟨hsyn _ hc.isSyntax, ih⟩⟩
  | morePairs hk hc hm _ _ ih ihs =>
      refine List.forall_mem_cons.mpr
        ⟨hsyn _ hk.isSyntax, List.forall_mem_cons.mpr ⟨hsyn _ hc.isSyntax, ?_⟩⟩
      exact List.forall_mem_append.mpr
        ⟨ih, List.forall_mem_cons.mpr ⟨hsyn _ hm.isSyntax, ihs⟩⟩

/-- The token begins a chain of accesses and calls. -/
def StartsChain (reads : Token → Expr → Prop) (t : Token) : Prop :=
  (∃ e, reads t e) ∨ ∃ mark ∈ ["(", "[", "\x7b"], IsMark mark t

/-- The token may be the first one of the phrase. -/
def Starts (reads : Token → Expr → Prop) : Phrase → Token → Prop
  | .chain _, t | .primary _, t => StartsChain reads t
  | .level .., t | .unary _, t | .items _, t | .someItems _, t =>
      t.kind = .operator ∨ StartsChain reads t
  | .pairs _, t | .somePairs _, t => IsKey t

/-- The phrase needs no token. -/
def Phrase.IsEmpty : Phrase → Prop
  | .items es => es = []
  | .pairs ps => ps = []
  | _ => False

/-- What begins a phrase begins every phrase that the first is the front of. -/
theorem starts_of_front {q : Phrase} {vs : List Token}
    (h : us = [] ∧ q.IsEmpty ∨ ∃ t ts, us = t :: ts ∧ Starts reads q t) (hq : ¬ q.IsEmpty)
    (hpq : ∀ t, Starts reads q t → Starts reads p t) (hus : us <+: vs) :
    vs = [] ∧ p.IsEmpty ∨ ∃ t ts, vs = t :: ts ∧ Starts reads p t := by
  obtain ⟨ws, rfl⟩ := hus
  obtain ⟨_, he⟩ | ⟨t, ts, rfl, ht⟩ := h
  · exact absurd he hq
  · exact .inr ⟨t, ts ++ ws, rfl, hpq t ht⟩

/-- Every phrase but an empty sequence has a first token. -/
theorem Derives.starts (h : Derives reads p us) :
    us = [] ∧ p.IsEmpty ∨ ∃ t ts, us = t :: ts ∧ Starts reads p t := by
  induction h with
  | operand _ ih | tighter _ _ ih | base _ ih | items _ ih | lastItem _ ih | pairs _ ih =>
      exact starts_of_front ih (fun h => h) (fun _ h => h) List.prefix_rfl
  | postfixed _ ih => exact starts_of_front ih (fun h => h) (fun _ h => .inr h) List.prefix_rfl
  | binary _ _ _ ih _ | moreItems _ _ _ ih _ | member _ _ _ ih | index _ _ _ _ ih _
  | call _ _ _ _ ih _ =>
      exact starts_of_front ih (fun h => h) (fun _ h => h) (List.prefix_append ..)
  | prefixed ht _ _ => exact .inr ⟨_, _, rfl, .inl ht.1⟩
  | word ht => exact .inr ⟨_, _, rfl, .inl ⟨_, ht⟩⟩
  | group ho _ _ _ => exact .inr ⟨_, _, rfl, .inr ⟨"(", by decide, ho⟩⟩
  | list ho _ _ _ => exact .inr ⟨_, _, rfl, .inr ⟨"[", by decide, ho⟩⟩
  | object ho _ _ _ => exact .inr ⟨_, _, rfl, .inr ⟨"\x7b", by decide, ho⟩⟩
  | noItems | noPairs => exact .inl ⟨rfl, rfl⟩
  | lastPair hk _ _ _ | morePairs hk _ _ _ _ _ _ => exact .inr ⟨_, _, rfl, hk⟩

theorem Derives.exists_first (h : Derives reads p us) (hp : ¬ p.IsEmpty) :
    ∃ t ts, us = t :: ts ∧ Starts reads p t :=
  h.starts.resolve_left fun he => hp he.2

end Derivations

end NoteQuery.Grammar
