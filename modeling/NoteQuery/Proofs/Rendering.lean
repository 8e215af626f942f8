/-
Rendered expressions are read back.

An expression is rendered as words with a space between any two: a literal by its own text, a
key between quotes, and parentheses around a part only where it binds less tightly than its
place asks for.  Any part may have more parentheses; `Extra` says how many at each place.

`Prints p ws` says that the words `ws` are the texts of tokens that are a phrase `p` and that
the lexer reads as themselves from where an operand is expected.  Each form of expression puts
its words together as a rule of the grammar puts its tokens together, so that the rendered
expression derives itself, and the parser gives it back.
-/
import NoteQuery.Proofs.Accepting
import NoteQuery.Proofs.Scanning

namespace NoteQuery

open Grammar Token

/-! ## Rendering -/

/-- How many extra pairs of parentheses the part at a path has. -/
abbrev Extra := List Nat → Nat

/-- The extra parentheses within a part. -/
def Extra.part (extra : Extra) (i : Nat) : Extra :=
  fun path => extra (i :: path)

/-- The words within so many pairs of parentheses. -/
def parenthesized : Nat → List String → List String
  | 0, ws => ws
  | n + 1, ws => "(" :: (parenthesized n ws ++ [")"])

namespace Expr

/-- How tightly an expression holds together: by its binary operator, by its prefix operator,
or without any. -/
def rank : Expr → Nat
  | binary op _ _ => op.precedence
  | unary _ _ => 7
  | _ => 8

/-- The words of a part where no less than `least` may stand without parentheses. -/
def enclosed (extra : Extra) (least : Nat) (e : Expr) (ws : List String) : List String :=
  parenthesized (extra [] + if e.rank < least then 1 else 0) ws

mutual

/-- The words of an expression without parentheses around it. -/
def bare (extra : Extra) : Expr → List String
  | .literal _ raw => [raw]
  | .name x => [x]
  | .member base x => enclosed (extra.part 0) 8 base (bare (extra.part 0) base) ++ [".", x]
  | .index base position =>
    enclosed (extra.part 0) 8 base (bare (extra.part 0) base) ++
      "[" :: (enclosed (extra.part 1) 1 position (bare (extra.part 1) position) ++ ["]"])
  | .binary op left right =>
    enclosed (extra.part 0) op.precedence left (bare (extra.part 0) left) ++
      op.symbol :: enclosed (extra.part 1) (op.precedence + 1) right (bare (extra.part 1) right)
  | .unary op operand =>
    op.symbol :: enclosed (extra.part 0) 7 operand (bare (extra.part 0) operand)
  | .call callee arguments =>
    enclosed (extra.part 0) 8 callee (bare (extra.part 0) callee) ++
      "(" :: (bareItems (extra.part 1) arguments ++ [")"])
  | .list elements => "[" :: (bareItems extra elements ++ ["]"])
  | .object pairs => "\x7b" :: (barePairs extra pairs ++ ["\x7d"])

/-- The words of expressions with commas between them. -/
def bareItems (extra : Extra) : List Expr → List String
  | [] => []
  | [e] => enclosed (extra.part 0) 1 e (bare (extra.part 0) e)
  | e :: es =>
    enclosed (extra.part 0) 1 e (bare (extra.part 0) e) ++ "," :: bareItems (extra.part 1) es

/-- The words of pairs with commas between them. -/
def barePairs (extra : Extra) : List (String × Expr) → List String
  | [] => []
  | [(key, e)] => quoted key :: ":" :: enclosed (extra.part 0) 1 e (bare (extra.part 0) e)
  | (key, e) :: ps =>
    quoted key :: ":" :: (enclosed (extra.part 0) 1 e (bare (extra.part 0) e) ++
      "," :: barePairs (extra.part 1) ps)

end

/-- The source text of an expression, with extra parentheses. -/
def render (extra : Extra) (e : Expr) : String :=
  " ".intercalate (enclosed extra 1 e (bare extra e))

/-! ## What the parser can give -/

mutual

/-- Literals have the text that they are read from, names are names, and no name of a variable
is a word for a value. -/
def InRange : Expr → Prop
  | .literal value raw =>
    ∃ t, IsLexeme t ∧ t.raw = raw ∧ ofToken? t = .ok (some (.literal value raw))
  | .name x => IsName x ∧ x ∉ ["true", "false", "null"]
  | .member base x => InRange base ∧ IsName x
  | .index base position => InRange base ∧ InRange position
  | .binary _ left right => InRange left ∧ InRange right
  | .unary _ operand => InRange operand
  | .call callee arguments => InRange callee ∧ ItemsInRange arguments
  | .list elements => ItemsInRange elements
  | .object pairs => PairsInRange pairs

def ItemsInRange : List Expr → Prop
  | [] => True
  | e :: es => InRange e ∧ ItemsInRange es

def PairsInRange : List (String × Expr) → Prop
  | [] => True
  | (_, e) :: ps => InRange e ∧ PairsInRange ps

end

end Expr

/-! ## Words as tokens -/

namespace Grammar

/-- The phrase that an expression of a rank is. -/
def Phrase.ofRank (k : Nat) (e : Expr) : Phrase :=
  if k ≤ 6 then .level k e else if k = 7 then .unary e else .chain e

theorem ofRank_not_isEmpty (k : Nat) (e : Expr) : ¬ (Phrase.ofRank k e).IsEmpty := by
  unfold Phrase.ofRank
  split
  · exact fun h => h
  · split <;> exact fun h => h

/-- What holds together tightly may stand where less is asked. -/
theorem Derives.loosen_rank {reads : Token → Expr → Prop} {k m : Nat} {e : Expr}
    {us : List Token} (hk : k ≤ m) (hm : m ≤ 8) (h : Derives reads (.ofRank m e) us) :
    Derives reads (.ofRank k e) us := by
  have hlevel : Derives reads (.unary e) us → k ≤ 7 → Derives reads (.level k e) us :=
    fun hu hk => (Derives.operand hu).loosen hk (Nat.le_refl 7)
  unfold Phrase.ofRank at h ⊢
  by_cases hm6 : m ≤ 6
  · rw [if_pos hm6] at h
    rw [if_pos (by omega)]
    exact h.loosen hk (by omega)
  rw [if_neg hm6] at h
  by_cases hm7 : m = 7
  · rw [if_pos hm7] at h
    split
    · exact hlevel h (by omega)
    · rw [if_pos (by omega)]
      exact h
  · rw [if_neg hm7] at h
    split
    · exact hlevel (.postfixed h) (by omega)
    · split
      · exact .postfixed h
      · exact h

/-- The words are the texts of tokens that are the phrase and that are read as themselves from
where an operand is expected.  Behind the phrase none is expected, if it has any token. -/
def Prints (p : Phrase) (ws : List String) : Prop :=
  ∃ ts b, ts.map Token.raw = ws ∧ Derives ParserReads p ts ∧ TokenRow true ts b ∧
    (b = true → p.IsEmpty)

section Rules

variable {p q : Phrase} {ws vs : List String}

theorem Prints.exists_row (h : Prints p ws) (hp : ¬ p.IsEmpty) :
    ∃ ts, ts.map Token.raw = ws ∧ Derives ParserReads p ts ∧ TokenRow true ts false := by
  obtain ⟨ts, b, hws, hd, hrow, hb⟩ := h
  cases b with
  | true => exact absurd (hb rfl) hp
  | false => exact ⟨ts, hws, hd, hrow⟩

/-- The same words as another phrase. -/
theorem Prints.imp (h : Prints p ws) (hp : ¬ p.IsEmpty)
    (hpq : ∀ ts, Derives ParserReads p ts → Derives ParserReads q ts) : Prints q ws := by
  obtain ⟨ts, hws, hd, hrow⟩ := h.exists_row hp
  exact ⟨ts, false, hws, hpq ts hd, hrow, nofun⟩

theorem isMark_mark (c : Char) : IsMark (String.ofList [c]) (mark c) :=
  ⟨rfl, rfl⟩

/-- Tokens between two marks that open and close them. -/
theorem row_between {opener closer : Char} {ts : List Token} {b b' : Bool} (h : TokenRow true ts b')
    (ho : opener ∈ punctuators) (hopens : (mark opener).expectsOperand = true)
    (hc : closer ∈ punctuators) (hcloses : (mark closer).expectsOperand = false) :
    TokenRow b (mark opener :: (ts ++ [mark closer])) false := by
  refine .cons (scans_mark ho b) ?_
  rw [hopens]
  refine h.append (.cons (scans_mark hc b') ?_)
  rw [hcloses]
  exact .nil

theorem map_raw_between (opener closer : Char) (ts : List Token) :
    (mark opener :: (ts ++ [mark closer])).map Token.raw =
      String.ofList [opener] :: (ts.map Token.raw ++ [String.ofList [closer]]) := by
  rw [List.map_cons, List.map_append, List.map_singleton]
  rfl

theorem Prints.group {e : Expr} (h : Prints (.level 1 e) ws) :
    Prints (.primary e) ("(" :: (ws ++ [")"])) := by
  obtain ⟨ts, b, rfl, hd, hrow, -⟩ := h
  exact ⟨_, false, map_raw_between '(' ')' ts, .group (isMark_mark '(') (isMark_mark ')') hd,
    row_between hrow (by decide) rfl (by decide) rfl, nofun⟩

theorem Prints.list {es : List Expr} (h : Prints (.items es) ws) :
    Prints (.primary (.list es)) ("[" :: (ws ++ ["]"])) := by
  obtain ⟨ts, b, rfl, hd, hrow, -⟩ := h
  exact ⟨_, false, map_raw_between '[' ']' ts, .list (isMark_mark '[') (isMark_mark ']') hd,
    row_between hrow (by decide) rfl (by decide) rfl, nofun⟩

theorem Prints.object {ps : List (String × Expr)} (h : Prints (.pairs ps) ws) :
    Prints (.primary (.object ps)) ("\x7b" :: (ws ++ ["\x7d"])) := by
  obtain ⟨ts, b, rfl, hd, hrow, -⟩ := h
  exact ⟨_, false, map_raw_between '\x7b' '\x7d' ts,
    .object (isMark_mark '\x7b') (isMark_mark '\x7d') hd,
    row_between hrow (by decide) rfl (by decide) rfl, nofun⟩

theorem Prints.index {e position : Expr} (h : Prints (.chain e) vs)
    (hp : Prints (.level 1 position) ws) :
    Prints (.chain (.index e position)) (vs ++ "[" :: (ws ++ ["]"])) := by
  obtain ⟨us, rfl, hus, husrow⟩ := h.exists_row fun h => h
  obtain ⟨ts, b, rfl, hd, hrow, -⟩ := hp
  refine ⟨_, false, ?_, .index (isMark_mark '[') (isMark_mark ']') hus hd,
    husrow.append (row_between hrow (by decide) rfl (by decide) rfl), nofun⟩
  rw [List.map_append, map_raw_between]

theorem Prints.call {e : Expr} {es : List Expr} (h : Prints (.chain e) vs)
    (hes : Prints (.items es) ws) :
    Prints (.chain (.call e es)) (vs ++ "(" :: (ws ++ [")"])) := by
  obtain ⟨us, rfl, hus, husrow⟩ := h.exists_row fun h => h
  obtain ⟨ts, b, rfl, hd, hrow, -⟩ := hes
  refine ⟨_, false, ?_, .call (isMark_mark '(') (isMark_mark ')') hus hd,
    husrow.append (row_between hrow (by decide) rfl (by decide) rfl), nofun⟩
  rw [List.map_append, map_raw_between]

theorem Prints.member {e : Expr} {name : String} (h : Prints (.chain e) vs) (hname : IsName name) :
    Prints (.chain (.member e name)) (vs ++ [".", name]) := by
  obtain ⟨us, rfl, hus, husrow⟩ := h.exists_row fun h => h
  have hd := @Derives.member _ e (mark '.') (word .identifier name) us (isMark_mark '.') rfl hus
  refine ⟨_, false, ?_, hd,
    husrow.append (.cons (scans_mark (by decide) false) (.cons (scans_name hname _) .nil)), nofun⟩
  rw [List.map_append]
  rfl

theorem writesBinary_symbol (op : BinaryOperator) :
    WritesBinary op.precedence op (word .operator op.symbol) := by
  refine ⟨rfl, ?_⟩
  cases op with
  | or | and | equal | unequal | less | lessEqual | greater | greaterEqual | add | subtract
  | multiply | divide | modulo => decide

theorem writesUnary_symbol (op : UnaryOperator) : WritesUnary op (word .operator op.symbol) := by
  refine ⟨rfl, ?_⟩
  cases op with
  | not | negate => decide

theorem Prints.binary {op : BinaryOperator} {left right : Expr}
    (hleft : Prints (.level op.precedence left) vs)
    (hright : Prints (.level (op.precedence + 1) right) ws) :
    Prints (.level op.precedence (.binary op left right)) (vs ++ op.symbol :: ws) := by
  obtain ⟨us, rfl, hus, husrow⟩ := hleft.exists_row fun h => h
  obtain ⟨ts, rfl, hts, hrow⟩ := hright.exists_row fun h => h
  refine ⟨_, false, ?_, .binary (writesBinary_symbol op) hus hts,
    husrow.append (.cons (scans_binary op) hrow), nofun⟩
  rw [List.map_append, List.map_cons]
  rfl

theorem Prints.unary {op : UnaryOperator} {e : Expr} (h : Prints (.unary e) ws) :
    Prints (.unary (.unary op e)) (op.symbol :: ws) := by
  obtain ⟨ts, rfl, hts, hrow⟩ := h.exists_row fun h => h
  exact ⟨_, false, rfl, .prefixed (writesUnary_symbol op) hts,
    .cons (scans_unary op true) hrow, nofun⟩

theorem Prints.name {name : String} (h : IsName name) (hword : name ∉ ["true", "false", "null"]) :
    Prints (.primary (.name name)) [name] := by
  have hreads : ParserReads (word .identifier name) (.name name) :=
    parserReads_iff.mpr ⟨.name rfl hword, nofun⟩
  exact ⟨[word .identifier name], false, rfl, .word hreads, .cons (scans_name h true) .nil, nofun⟩

theorem Prints.literal {t : Token} {e : Expr} (ht : IsLexeme t) (hreads : ParserReads t e) :
    Prints (.primary e) [t.raw] := by
  obtain ⟨hop, hmark, -⟩ := hreads.kind
  have hscans := scans_of_isLexeme ht
  have hexpects : t.expectsOperand = false := by
    unfold Token.expectsOperand
    split
    · exact absurd ‹_› hop
    · exact absurd ‹_› hmark
    · rfl
  exact ⟨[t], false, rfl, .word hreads, .cons hscans (by rw [hexpects]; exact .nil), nofun⟩

theorem Prints.moreItems {e : Expr} {es : List Expr} (h : Prints (.level 1 e) vs)
    (hes : Prints (.someItems es) ws) : Prints (.someItems (e :: es)) (vs ++ "," :: ws) := by
  obtain ⟨us, rfl, hus, husrow⟩ := h.exists_row fun h => h
  obtain ⟨ts, rfl, hts, hrow⟩ := hes.exists_row fun h => h
  refine ⟨us ++ mark ',' :: ts, false, ?_, .moreItems (isMark_mark ',') hus hts,
    husrow.append (.cons (scans_mark (by decide) false) hrow), nofun⟩
  rw [List.map_append, List.map_cons]
  rfl

/-- A key with its colon. -/
theorem row_key {key : String} {ts : List Token} {b : Bool} (h : TokenRow true ts b) :
    TokenRow true (keyToken key :: mark ':' :: ts) b :=
  .cons (scans_keyToken key true) (.cons (scans_mark (by decide) false) h)

theorem Prints.lastPair {e : Expr} {key : String} (h : Prints (.level 1 e) ws) :
    Prints (.somePairs [(key, e)]) (quoted key :: ":" :: ws) := by
  obtain ⟨ts, rfl, hts, hrow⟩ := h.exists_row fun h => h
  have hd := @Derives.lastPair _ e (keyToken key) (mark ':') ts (.inl rfl) (isMark_mark ':') hts
  exact ⟨_, false, rfl, hd, row_key hrow, nofun⟩

theorem Prints.morePairs {e : Expr} {ps : List (String × Expr)} {key : String}
    (h : Prints (.level 1 e) vs) (hps : Prints (.somePairs ps) ws) :
    Prints (.somePairs ((key, e) :: ps)) (quoted key :: ":" :: (vs ++ "," :: ws)) := by
  obtain ⟨us, rfl, hus, husrow⟩ := h.exists_row fun h => h
  obtain ⟨ts, rfl, hts, hrow⟩ := hps.exists_row fun h => h
  have hd := @Derives.morePairs _ e ps (keyToken key) (mark ':') (mark ',') us ts (.inl rfl)
    (isMark_mark ':') (isMark_mark ',') hus hts
  have hcomma : TokenRow false (mark ',' :: ts) false := .cons (scans_mark (by decide) false) hrow
  refine ⟨_, false, ?_, hd, row_key (husrow.append hcomma), nofun⟩
  rw [List.map_cons, List.map_cons, List.map_append, List.map_cons]
  rfl

/-! ## Parentheses -/

theorem level_of_rank {k : Nat} {e : Expr} (hk : k ≤ 7) (h : Prints (.ofRank k e) ws) :
    Prints (.level k e) ws := by
  refine h.imp (ofRank_not_isEmpty k e) fun ts hd => ?_
  unfold Phrase.ofRank at hd
  split at hd
  · exact hd
  · obtain rfl : k = 7 := by omega
    exact .operand hd

theorem Prints.loosen {k m : Nat} {e : Expr} (hk : k ≤ m) (hm : m ≤ 8)
    (h : Prints (.ofRank m e) ws) : Prints (.ofRank k e) ws :=
  h.imp (ofRank_not_isEmpty m e) fun _ hd => hd.loosen_rank hk hm

/-- A primary expression may stand anywhere. -/
theorem Prints.anywhere {k : Nat} {e : Expr} (hk : k ≤ 8) (h : Prints (.primary e) ws) :
    Prints (.ofRank k e) ws :=
  h.imp (fun h => h) fun _ hd => Derives.loosen_rank hk (Nat.le_refl 8) (.base hd)

theorem Prints.parenthesized {e : Expr} (h : Prints (.level 1 e) ws) :
    ∀ n, Prints (.level 1 e) (parenthesized n ws)
  | 0 => h
  | n + 1 => level_of_rank (by decide) (Prints.anywhere (by decide) (h.parenthesized n).group)

theorem rank_bounds (e : Expr) : 1 ≤ e.rank ∧ e.rank ≤ 8 := by
  cases e with
  | binary op left right =>
      have := precedence_bounds op
      show 1 ≤ op.precedence ∧ op.precedence ≤ 8
      omega
  | unary op operand => exact (by decide : 1 ≤ 7 ∧ 7 ≤ 8)
  | _ => exact (by decide : 1 ≤ 8 ∧ 8 ≤ 8)

/-- A part stands where its place asks for, with parentheses where it has to have them. -/
theorem Prints.enclosed {extra : Extra} {k : Nat} {e : Expr} (hk : k ≤ 8)
    (h : Prints (.ofRank e.rank e) ws) : Prints (.ofRank k e) (Expr.enclosed extra k e ws) := by
  obtain ⟨hone, height⟩ := rank_bounds e
  unfold Expr.enclosed
  cases hn : extra [] + if e.rank < k then 1 else 0 with
  | zero =>
      have hrank : ¬ e.rank < k := by
        intro hlt
        rw [if_pos hlt] at hn
        omega
      exact h.loosen (Nat.le_of_not_lt hrank) height
  | succ n =>
      have hlevel := level_of_rank (by decide) (h.loosen hone height)
      exact Prints.anywhere hk (hlevel.parenthesized n).group

/-- A part where any expression may stand. -/
theorem Prints.enclosed_one {extra : Extra} {e : Expr} (h : Prints (.ofRank e.rank e) ws) :
    Prints (.level 1 e) (Expr.enclosed extra 1 e ws) :=
  level_of_rank (by decide) (h.enclosed (show 1 ≤ 8 by decide))

end Rules

end Grammar

namespace Expr

/-! ## Reading back -/

theorem prints_items {extra : Extra} {es : List Expr}
    (h : es ≠ [] → Prints (.someItems es) (bareItems extra es)) :
    Prints (.items es) (bareItems extra es) := by
  cases es with
  | nil => exact ⟨[], true, rfl, .noItems, .nil, fun _ => rfl⟩
  | cons e es => exact (h (List.cons_ne_nil e es)).imp (fun h => h) fun _ => .items

theorem prints_pairs {extra : Extra} {ps : List (String × Expr)}
    (h : ps ≠ [] → Prints (.somePairs ps) (barePairs extra ps)) :
    Prints (.pairs ps) (barePairs extra ps) := by
  cases ps with
  | nil => exact ⟨[], true, rfl, .noPairs, .nil, fun _ => rfl⟩
  | cons p ps => exact (h (List.cons_ne_nil p ps)).imp (fun h => h) fun _ => .pairs

mutual

theorem prints_bare (extra : Extra) : ∀ e : Expr, e.InRange →
    Prints (.ofRank e.rank e) (bare extra e)
  | .literal value raw, h => by
      obtain ⟨t, ht, rfl, hreads⟩ := h
      exact (Prints.literal ht hreads).anywhere (rank_bounds _).2
  | .name x, h => (Prints.name h.1 h.2).anywhere (rank_bounds _).2
  | .member base x, h => by
      obtain ⟨hbase, hx⟩ := h
      exact Prints.member ((prints_bare (extra.part 0) base hbase).enclosed (Nat.le_refl 8)) hx
  | .index base position, h => by
      obtain ⟨hbase, hposition⟩ := h
      exact Prints.index ((prints_bare (extra.part 0) base hbase).enclosed (Nat.le_refl 8))
        (prints_bare (extra.part 1) position hposition).enclosed_one
  | .binary op left right, h => by
      obtain ⟨hleft, hright⟩ := h
      have hop := (precedence_bounds op).2
      show Prints (.ofRank op.precedence _) _
      rw [Phrase.ofRank, if_pos hop]
      refine Prints.binary (level_of_rank (by omega) ?_) (level_of_rank (by omega) ?_)
      · exact (prints_bare (extra.part 0) left hleft).enclosed (by omega)
      · exact (prints_bare (extra.part 1) right hright).enclosed (by omega)
  | .unary op operand, h =>
      Prints.unary ((prints_bare (extra.part 0) operand h).enclosed (show 7 ≤ 8 by decide))
  | .call callee arguments, h => by
      obtain ⟨hcallee, harguments⟩ := h
      exact Prints.call ((prints_bare (extra.part 0) callee hcallee).enclosed (Nat.le_refl 8))
        (prints_items fun hne => prints_someItems (extra.part 1) arguments hne harguments)
  | .list elements, h =>
      (prints_items fun hne => prints_someItems extra elements hne h).list.anywhere
        (rank_bounds _).2
  | .object pairs, h =>
      (prints_pairs fun hne => prints_somePairs extra pairs hne h).object.anywhere
        (rank_bounds _).2

theorem prints_someItems (extra : Extra) : ∀ es : List Expr, es ≠ [] → ItemsInRange es →
    Prints (.someItems es) (bareItems extra es)
  | [], hne, _ => absurd rfl hne
  | [e], _, h =>
      (prints_bare (extra.part 0) e h.1).enclosed_one.imp (fun h => h) fun _ => .lastItem
  | e :: e' :: es, _, h =>
      (prints_bare (extra.part 0) e h.1).enclosed_one.moreItems
        (prints_someItems (extra.part 1) (e' :: es) (List.cons_ne_nil e' es) h.2)

theorem prints_somePairs (extra : Extra) : ∀ ps : List (String × Expr), ps ≠ [] →
    PairsInRange ps → Prints (.somePairs ps) (barePairs extra ps)
  | [], hne, _ => absurd rfl hne
  | [(_, e)], _, h => (prints_bare (extra.part 0) e h.1).enclosed_one.lastPair
  | (_, e) :: p :: ps, _, h =>
      (prints_bare (extra.part 0) e h.1).enclosed_one.morePairs
        (prints_somePairs (extra.part 1) (p :: ps) (List.cons_ne_nil p ps) h.2)

end

/-- The place of a token matters for messages only. -/
theorem patternOf_eq_ok_iff {t : Token} {p : Pattern} : patternOf t = .ok p ↔
    Pattern.create (patternParts t.text).1 (patternParts t.text).2 = .ok p := by
  unfold patternOf
  dsimp only
  split
  · rename_i p' hp
    rw [hp, Except.ok.injEq, Except.ok.injEq]
  · rename_i f hf
    rw [hf]
    split
    · exact ⟨nofun, nofun⟩
    · exact ⟨nofun, nofun⟩

theorem parserReads_of_same {t u : Token} (h : SameButPlace t u) {e : Expr}
    (ht : ParserReads t e) : ParserReads u e := by
  obtain ⟨hkind, htext, hraw⟩ := h
  obtain ⟨hreads, hreadable⟩ := parserReads_iff.mp ht
  refine parserReads_iff.mpr ⟨?_, by unfold Readable at *; rwa [← hkind, ← htext]⟩
  cases hreads with
  | number hk hn =>
      rw [hraw]
      exact .number (hkind ▸ hk) (htext ▸ hn)
  | string hk =>
      rw [hraw, htext]
      exact .string (hkind ▸ hk)
  | pattern hk hp =>
      rw [patternOf_eq_ok_iff, htext, ← patternOf_eq_ok_iff] at hp
      rw [hraw]
      exact .pattern (hkind ▸ hk) hp
  | keyword hk hvalue =>
      rw [hraw]
      exact .keyword (hkind ▸ hk) (htext ▸ hvalue)
  | name hk hname =>
      rw [htext]
      exact .name (hkind ▸ hk) (htext ▸ hname)

/-- A rendered expression is read back, whatever extra parentheses it has. -/
theorem parse_render (extra : Extra) (e : Expr) (h : e.InRange) :
    parse (render extra e) = .ok e := by
  obtain ⟨ts, hws, hd, hrow⟩ := (prints_bare extra e h).enclosed_one.exists_row fun h => h
  obtain ⟨t, us, rfl, -⟩ := hd.exists_first fun h => h
  obtain ⟨vs, last, hvs, hlast, hsame⟩ := tokenize_intercalate hrow
  have hd' : Derives ParserReads (.level 1 e) vs :=
    hd.transfer_self (hsame.imp fun t u h => ⟨h.1, h.2.1, fun _ => parserReads_of_same h⟩)
  rw [render, ← hws, parse, hvs]
  show ofTokens (vs ++ [last]) = .ok e
  have hend : beforeEnd (vs ++ [last]) = vs := beforeEnd_append hd'.kind_ne_eof hlast
  rw [ofTokens_iff_derives, hend]
  exact hd'

/-- A pattern behind a prefix operator, within an access, before a division. -/
def slashes : Expr :=
  .binary .divide
    (.member (.unary .not (.literal (.pattern ⟨"b", "", .char {} (.code 98), 0⟩) "/b/")) "x")
    (.object [("b\"", .literal (.number 2) "2")])

theorem slashes_inRange : slashes.InRange := by
  have hpattern : IsLexeme (word .pattern "/b/") := by
    refine isLexeme_of_scans ⟨'/', ['b', '/'], rfl, by decide, fun rest hrest => ?_⟩ rfl
    obtain rfl | ⟨r, rfl⟩ := hrest
    · rfl
    · rfl
  have hnumber : IsLexeme (word .number "2") := by
    refine isLexeme_of_scans ⟨'2', [], rfl, by decide, fun rest hrest => ?_⟩ rfl
    obtain rfl | ⟨r, rfl⟩ := hrest
    · rfl
    · rfl
  have hname : IsName "x" := ⟨'x', [], rfl, by decide, by decide, by decide⟩
  exact ⟨⟨⟨_, hpattern, rfl, rfl⟩, hname⟩, ⟨_, hnumber, rfl, rfl⟩, trivial⟩

theorem parse_render_slashes : slashes.InRange ∧
    render (fun _ => 0) slashes = "( ! /b/ ) . x / \x7b \"b\\\"\" : 2 \x7d" ∧
    parse (render (fun _ => 0) slashes) = .ok slashes :=
  ⟨slashes_inRange, by decide, parse_render _ _ slashes_inRange⟩

end Expr

end NoteQuery
