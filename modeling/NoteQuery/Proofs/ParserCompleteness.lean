/-
What is in the grammar the parser reads, and nothing else.

A derivation is followed rule by rule.  The left operand of an operator is read by the same
loop that reads the operator, and the base of an access by the same loop that reads the access:
for expressions of a level and for chains the induction therefore speaks of the loop that comes
next (`Parses`), whatever its outcome `r` is, and each rule prepends its own tokens to that
loop.

The fuel is counted along: eight for each token are enough, because no token opens more than
eight nested calls.
-/
import NoteQuery.Proofs.ParserSoundness

namespace NoteQuery.Grammar

open NoteQuery.Expr

/-! ## Single steps of the parser -/

/-- No access and no call comes next. -/
def EndsChain (ts : List Token) : Prop :=
  ∀ mark ∈ [".", "[", "("], (current ts).isPunctuation mark = false

/-- What comes next ends an item of a sequence, and the sequence. -/
def EndsItems (ts : List Token) : Prop :=
  EndsChain ts ∧ Below 1 ts ∧ (current ts).isPunctuation "," = false

theorem IsMark.isPunctuation {mark other : String} {t : Token} (h : IsMark mark t) :
    t.isPunctuation other = (mark == other) := by
  rw [Token.isPunctuation, Token.isThis, h.1, h.2, beq_self_eq_true, Bool.true_and]

theorem isPunctuation_of_kind {mark : String} {t : Token} (h : t.kind ≠ .punctuation) :
    t.isPunctuation mark = false := by
  rw [Token.isPunctuation, Token.isThis, beq_false_of_ne h, Bool.false_and]

theorem below_of_kind {k : Nat} {t : Token} {ts : List Token} (h : t.kind ≠ .operator) :
    Below k (t :: ts) :=
  fun _ hop => absurd (binaryOperator?_cons.mp hop).1 h

theorem Below.mono {k m : Nat} {ts : List Token} (h : Below k ts) (hk : k ≤ m) : Below m ts :=
  fun op hop => Nat.lt_of_lt_of_le (h op hop) hk

theorem WritesBinary.below {k : Nat} {op : BinaryOperator} {t : Token} {ts : List Token}
    (h : WritesBinary k op t) : Below (k + 1) (t :: ts) := by
  intro op' hop'
  obtain ⟨hop, -⟩ := mem_operatorsOf_iff.mp h.2
  obtain ⟨hop', hk⟩ := mem_operatorsOf_iff.mp (binaryOperator?_cons.mp hop').2
  rw [hop] at hop'
  cases hop'
  exact Nat.lt_succ_of_le (Nat.le_of_eq h.level_eq)

theorem endsChain_of_kind {t : Token} {ts : List Token} (h : t.kind ≠ .punctuation) :
    EndsChain (t :: ts) :=
  fun _ _ => isPunctuation_of_kind h

/-- A closing mark ends an item and the sequence. -/
theorem IsMark.endsItems {mark : String} {t : Token} {ts : List Token} (h : IsMark mark t)
    (hmark : mark ∈ [")", "]", "\x7d"]) : EndsItems (t :: ts) := by
  have hends : ∀ mark ∈ [")", "]", "\x7d"], ∀ other ∈ [".", "[", "("], (mark == other) = false := by
    decide
  have hcomma : ∀ mark ∈ [")", "]", "\x7d"], (mark == ",") = false := by decide
  refine ⟨fun other hother => ?_, below_of_kind (by rw [h.1]; decide), ?_⟩
  · rw [current_cons, h.isPunctuation, hends mark hmark other hother]
  · rw [current_cons, h.isPunctuation, hcomma mark hmark]

theorem expectMark_cons {mark behind : String} {t : Token} {ts : List Token}
    (h : IsMark mark t) : expectMark mark behind (t :: ts) = .ok ts := by
  rw [expectMark, current_cons, if_pos (isPunctuation_iff.mpr h), List.tail_cons]

theorem ofToken?_of_mark {mark : String} {t : Token} (h : IsMark mark t) :
    ofToken? t = .ok none := by
  rw [ofToken?, h.1]

/-- A token that writes an expression is of one of these sorts. -/
theorem ParserReads.kind {t : Token} {e : Expr} (h : ParserReads t e) :
    t.kind ≠ .operator ∧ t.kind ≠ .punctuation ∧ t.kind ≠ .eof := by
  unfold ParserReads ofToken? at h
  refine ⟨fun hk => ?_, fun hk => ?_, fun hk => ?_⟩ <;>
  · rw [hk] at h
    exact nomatch h

theorem StartsChain.kind_ne {t : Token} (h : StartsChain ParserReads t) : t.kind ≠ .operator := by
  obtain ⟨e, he⟩ | ⟨mark, -, hm⟩ := h
  · exact he.kind.1
  · rw [hm.1]
    decide

/-- No expression begins with a closing mark. -/
theorem Starts.not_closes {p : Phrase} {t : Token} {mark : String} (h : Starts ParserReads p t)
    (hmark : mark ∈ [")", "]", "\x7d"]) : t.isPunctuation mark = false := by
  have hne : ∀ opener ∈ ["(", "[", "\x7b"], ∀ mark ∈ [")", "]", "\x7d"],
      (opener == mark) = false := by
    decide
  have hchain : StartsChain ParserReads t → t.isPunctuation mark = false := by
    rintro (⟨e, he⟩ | ⟨opener, hopener, ho⟩)
    · exact isPunctuation_of_kind he.kind.2.1
    · rw [ho.isPunctuation, hne opener hopener mark hmark]
  have hop : t.kind = .operator → t.isPunctuation mark = false := fun hk =>
    isPunctuation_of_kind (by rw [hk]; decide)
  have hkey : IsKey t → t.isPunctuation mark = false := by
    rintro (hk | hk) <;> exact isPunctuation_of_kind (by rw [hk]; decide)
  cases p with
  | level k e | unary e | items es | someItems es => exact h.elim hop hchain
  | chain e | primary e => exact hchain h
  | pairs ps | somePairs ps => exact hkey h

theorem parseOperators_stop {fuel least : Nat} {e : Expr} {ts : List Token}
    (h : Below least ts) : parseOperators (fuel + 1) least e ts = .ok (e, ts) := by
  rw [parseOperators]
  cases hop : binaryOperator? ts with
  | none => rfl
  | some op => exact if_pos (h op hop)

theorem parseOperators_step {fuel least k : Nat} {op : BinaryOperator} {left right : Expr}
    {t : Token} {ts rest : List Token} (ht : WritesBinary k op t) (hl : least ≤ k)
    (hright : parseBinary fuel (k + 1) ts = .ok (right, rest)) :
    parseOperators (fuel + 1) least left (t :: ts) =
      parseOperators fuel least (.binary op left right) rest := by
  obtain rfl := ht.level_eq
  rw [parseOperators, binaryOperator?_cons.mpr ht]
  show (if op.precedence < least then _ else _) = _
  rw [if_neg (Nat.not_lt.mpr hl), List.tail_cons, hright]
  rfl

theorem parseUnary_step {fuel : Nat} {op : UnaryOperator} {t : Token} {e : Expr}
    {ts rest : List Token} (ht : WritesUnary op t)
    (he : parseUnary fuel ts = .ok (e, rest)) :
    parseUnary (fuel + 1) (t :: ts) = .ok (.unary op e, rest) := by
  rw [parseUnary, unaryOperator?_cons.mpr ht]
  show (parseUnary fuel ts >>= _) = _
  rw [he]
  rfl

theorem parseUnary_chain {fuel : Nat} {t : Token} {ts : List Token} (ht : t.kind ≠ .operator) :
    parseUnary (fuel + 1) (t :: ts) =
      (parsePrimary fuel (t :: ts) >>= fun x => parsePostfix fuel x.1 x.2) := by
  have hnone : unaryOperator? (t :: ts) = none := if_neg ht
  rw [parseUnary, hnone]

theorem parsePostfix_stop {fuel : Nat} {e : Expr} {ts : List Token} (h : EndsChain ts) :
    parsePostfix (fuel + 1) e ts = .ok (e, ts) := by
  simp only [parsePostfix, h "." (by decide), h "[" (by decide), h "(" (by decide),
    Bool.false_eq_true, ↓reduceIte]

theorem parsePostfix_member {fuel : Nat} {e : Expr} {dot name : Token} {ts : List Token}
    (hdot : IsMark "." dot) (hname : name.kind = .identifier) :
    parsePostfix (fuel + 1) e (dot :: name :: ts) =
      parsePostfix fuel (.member e name.text) ts := by
  simp only [parsePostfix, current_cons, List.tail_cons, isPunctuation_iff.mpr hdot, hname,
    ↓reduceIte]

theorem parsePostfix_index {fuel : Nat} {e position : Expr} {opener closer : Token}
    {ts rest : List Token} (ho : IsMark "[" opener) (hc : IsMark "]" closer)
    (hposition : parseBinary fuel 1 ts = .ok (position, closer :: rest)) :
    parsePostfix (fuel + 1) e (opener :: ts) = parsePostfix fuel (.index e position) rest := by
  simp only [parsePostfix, current_cons, List.tail_cons, ho.isPunctuation, hposition,
    String.reduceBEq, Bool.false_eq_true, ↓reduceIte]
  show (expectMark "]" "index" (closer :: rest) >>= _) = _
  rw [expectMark_cons hc]
  rfl

theorem parsePostfix_call {fuel : Nat} {e : Expr} {es : List Expr} {opener closer : Token}
    {ts rest : List Token} (ho : IsMark "(" opener) (hc : IsMark ")" closer)
    (hitems : parseItems fuel ")" ts = .ok (es, closer :: rest)) :
    parsePostfix (fuel + 1) e (opener :: ts) = parsePostfix fuel (.call e es) rest := by
  simp only [parsePostfix, current_cons, List.tail_cons, ho.isPunctuation, hitems,
    String.reduceBEq, Bool.false_eq_true, ↓reduceIte]
  show (expectMark ")" "arguments" (closer :: rest) >>= _) = _
  rw [expectMark_cons hc]
  rfl

theorem parsePrimary_word {fuel : Nat} {t : Token} {e : Expr} {ts : List Token}
    (h : ParserReads t e) : parsePrimary (fuel + 1) (t :: ts) = .ok (e, ts) := by
  have h' : ofToken? (current (t :: ts)) = .ok (some e) := h
  simp only [parsePrimary, h']
  rfl

theorem parsePrimary_group {fuel : Nat} {e : Expr} {opener closer : Token} {ts rest : List Token}
    (ho : IsMark "(" opener) (hc : IsMark ")" closer)
    (he : parseBinary fuel 1 ts = .ok (e, closer :: rest)) :
    parsePrimary (fuel + 1) (opener :: ts) = .ok (e, rest) := by
  simp only [parsePrimary, current_cons, List.tail_cons, ofToken?_of_mark ho,
    isPunctuation_iff.mpr ho, he, ↓reduceIte]
  show (expectMark ")" "expression" (closer :: rest) >>= _) = _
  rw [expectMark_cons hc]
  rfl

theorem parsePrimary_list {fuel : Nat} {es : List Expr} {opener closer : Token}
    {ts rest : List Token} (ho : IsMark "[" opener) (hc : IsMark "]" closer)
    (hes : parseItems fuel "]" ts = .ok (es, closer :: rest)) :
    parsePrimary (fuel + 1) (opener :: ts) = .ok (.list es, rest) := by
  simp only [parsePrimary, current_cons, List.tail_cons, ofToken?_of_mark ho,
    ho.isPunctuation, hes, String.reduceBEq, Bool.false_eq_true, ↓reduceIte]
  show (expectMark "]" "list elements" (closer :: rest) >>= _) = _
  rw [expectMark_cons hc]
  rfl

theorem parsePrimary_object {fuel : Nat} {ps : List (String × Expr)} {opener closer : Token}
    {ts rest : List Token} (ho : IsMark "\x7b" opener) (hc : IsMark "\x7d" closer)
    (hps : parsePairs fuel ts = .ok (ps, closer :: rest)) :
    parsePrimary (fuel + 1) (opener :: ts) = .ok (.object ps, rest) := by
  simp only [parsePrimary, current_cons, List.tail_cons, ofToken?_of_mark ho,
    ho.isPunctuation, hps, String.reduceBEq, Bool.false_eq_true, ↓reduceIte]
  show (expectMark "\x7d" "object" (closer :: rest) >>= _) = _
  rw [expectMark_cons hc]
  rfl

theorem parseMoreItems_last {fuel : Nat} {e : Expr} {ts rest : List Token}
    (he : parseBinary fuel 1 ts = .ok (e, rest)) (hrest : EndsItems rest) :
    parseMoreItems (fuel + 1) ts = .ok ([e], rest) := by
  rw [parseMoreItems, he]
  show (if _ then _ else _) = _
  rw [if_neg (by rw [hrest.2.2]; decide)]
  rfl

theorem parseMoreItems_more {fuel : Nat} {e : Expr} {es : List Expr} {comma : Token}
    {ts ts' rest : List Token} (hcomma : IsMark "," comma)
    (he : parseBinary fuel 1 ts = .ok (e, comma :: ts'))
    (hes : parseMoreItems fuel ts' = .ok (es, rest)) :
    parseMoreItems (fuel + 1) ts = .ok (e :: es, rest) := by
  have hmark : (current (comma :: ts')).isPunctuation "," = true := isPunctuation_iff.mpr hcomma
  rw [parseMoreItems, he]
  show (if _ then _ else _) = _
  rw [if_pos hmark, List.tail_cons, hes]
  rfl

/-- Behind a key and a colon there is a value, and further pairs behind a comma. -/
theorem parseMorePairs_cons {fuel : Nat} {key colon : Token} (hkey : IsKey key)
    (hcolon : IsMark ":" colon) (ts : List Token) :
    parseMorePairs (fuel + 1) (key :: colon :: ts) = (do
      let (value, ts) ← parseBinary fuel 1 ts
      if (current ts).isPunctuation "," then
        let (pairs, ts) ← parseMorePairs fuel ts.tail
        return ((key.text, value) :: pairs, ts)
      else return ([(key.text, value)], ts)) := by
  have hguard : (key.kind != .string && key.kind != .identifier) = false := by
    rcases hkey with hk | hk <;> rw [hk] <;> decide
  simp only [parseMorePairs, current_cons, List.tail_cons, hguard, Bool.false_eq_true,
    ↓reduceIte, expectMark_cons hcolon]
  rfl

theorem parseMorePairs_last {fuel : Nat} {e : Expr} {key colon : Token} {ts rest : List Token}
    (hkey : IsKey key) (hcolon : IsMark ":" colon) (he : parseBinary fuel 1 ts = .ok (e, rest))
    (hrest : EndsItems rest) :
    parseMorePairs (fuel + 1) (key :: colon :: ts) = .ok ([(key.text, e)], rest) := by
  rw [parseMorePairs_cons hkey hcolon, he]
  show (if _ then _ else _) = _
  rw [if_neg (by rw [hrest.2.2]; decide)]
  rfl

theorem parseMorePairs_more {fuel : Nat} {e : Expr} {ps : List (String × Expr)}
    {key colon comma : Token} {ts ts' rest : List Token} (hkey : IsKey key)
    (hcolon : IsMark ":" colon) (hcomma : IsMark "," comma)
    (he : parseBinary fuel 1 ts = .ok (e, comma :: ts'))
    (hps : parseMorePairs fuel ts' = .ok (ps, rest)) :
    parseMorePairs (fuel + 1) (key :: colon :: ts) = .ok ((key.text, e) :: ps, rest) := by
  have hmark : (current (comma :: ts')).isPunctuation "," = true := isPunctuation_iff.mpr hcomma
  rw [parseMorePairs_cons hkey hcolon, he]
  show (if _ then _ else _) = _
  rw [if_pos hmark, List.tail_cons, hps]
  rfl

/-! ## Rules -/

/-- What the parser makes of the tokens in front of any others, with enough fuel. -/
def Parses : Phrase → List Token → Prop
  | .level k e, us => ∀ (least : Nat) (rest : List Token)
      (r : Except ReadFailure (Expr × List Token)) (n : Nat), least ≤ k → 1 ≤ n →
      EndsChain rest → Below (k + 1) rest →
      (∀ fuel ≥ n, parseOperators fuel least e rest = r) →
      ∀ fuel ≥ n + 8 * us.length, parseBinary fuel least (us ++ rest) = r
  | .unary e, us => ∀ (rest : List Token), EndsChain rest → ∀ fuel ≥ 8 * us.length,
      parseUnary fuel (us ++ rest) = .ok (e, rest)
  | .chain e, us => ∀ (rest : List Token) (r : Except ReadFailure (Expr × List Token)) (n : Nat),
      1 ≤ n → (∀ fuel ≥ n, parsePostfix fuel e rest = r) →
      ∀ fuel, n + 8 * us.length ≤ fuel + 2 →
      (parsePrimary fuel (us ++ rest) >>= fun x => parsePostfix fuel x.1 x.2) = r
  | .primary e, us => ∀ (rest : List Token) (fuel : Nat), 8 * us.length ≤ fuel + 1 →
      parsePrimary fuel (us ++ rest) = .ok (e, rest)
  | .items es, us => ∀ (mark : String) (closer : Token) (rest : List Token),
      mark ∈ [")", "]", "\x7d"] → IsMark mark closer → ∀ fuel ≥ 8 * us.length + 4,
      parseItems fuel mark (us ++ closer :: rest) = .ok (es, closer :: rest)
  | .someItems es, us => ∀ (rest : List Token), EndsItems rest → ∀ fuel ≥ 8 * us.length + 2,
      parseMoreItems fuel (us ++ rest) = .ok (es, rest)
  | .pairs ps, us => ∀ (closer : Token) (rest : List Token), IsMark "\x7d" closer →
      ∀ fuel ≥ 8 * us.length + 4, parsePairs fuel (us ++ closer :: rest) = .ok (ps, closer :: rest)
  | .somePairs ps, us => ∀ (rest : List Token), EndsItems rest → ∀ fuel ≥ 8 * us.length + 2,
      parseMorePairs fuel (us ++ rest) = .ok (ps, rest)

section Rules

variable {us vs : List Token}

/-- An expression before a token that ends it. -/
theorem Parses.whole {k : Nat} {e : Expr} (h : Parses (.level k e) us) {least : Nat}
    {rest : List Token} (hl : least ≤ k) (hends : EndsChain rest) (hk : Below (k + 1) rest)
    (hrest : Below least rest) : ∀ fuel ≥ 8 * us.length + 1,
    parseBinary fuel least (us ++ rest) = .ok (e, rest) := by
  intro fuel hfuel
  refine h least rest _ 1 hl (Nat.le_refl _) hends hk (fun fuel hfuel => ?_) fuel (by omega)
  obtain ⟨fuel, rfl⟩ := Nat.exists_eq_add_of_le' hfuel
  exact parseOperators_stop hrest

/-- An expression before a mark that ends it. -/
theorem Parses.item {e : Expr} (h : Parses (.level 1 e) us) {rest : List Token}
    (hrest : EndsItems rest) : ∀ fuel ≥ 8 * us.length + 1,
    parseBinary fuel 1 (us ++ rest) = .ok (e, rest) :=
  h.whole (Nat.le_refl _) hrest.1 (hrest.2.1.mono (by decide)) hrest.2.1

theorem Parses.operand {e : Expr} (hus : 1 ≤ us.length) (h : Parses (.unary e) us) :
    Parses (.level 7 e) us := by
  intro least rest r n hl hn hends hk hr fuel hfuel
  obtain ⟨fuel, rfl⟩ := Nat.exists_eq_add_of_le' (show 1 ≤ fuel by omega)
  rw [parseBinary, h rest hends fuel (by omega)]
  exact hr fuel (by omega)

theorem Parses.tighter {k : Nat} {e : Expr} (h : Parses (.level (k + 1) e) us) :
    Parses (.level k e) us := by
  intro least rest r n hl hn hends hk hr
  exact h least rest r n (by omega) hn hends (hk.mono (by omega)) hr

theorem Parses.binary {k : Nat} {op : BinaryOperator} {t : Token} {left right : Expr}
    (ht : WritesBinary k op t) (hleft : Parses (.level k left) us)
    (hright : Parses (.level (k + 1) right) vs) :
    Parses (.level k (.binary op left right)) (us ++ t :: vs) := by
  intro least rest r n hl hn hends hk hr fuel hfuel
  have hkind : t.kind ≠ .punctuation := by rw [ht.1]; decide
  rw [List.append_assoc, List.cons_append]
  rw [List.length_append, List.length_cons] at hfuel
  -- The loop behind the left operand takes the operator and the right operand, and goes on.
  refine hleft least _ r (n + 8 * vs.length + 1) hl (by omega) (endsChain_of_kind hkind)
    ht.below (fun fuel hfuel => ?_) fuel (by omega)
  obtain ⟨fuel, rfl⟩ := Nat.exists_eq_add_of_le' (show 1 ≤ fuel by omega)
  have hvs := hright.whole (Nat.le_refl _) hends (hk.mono (by omega)) hk fuel (by omega)
  rw [parseOperators_step ht hl hvs]
  exact hr fuel (by omega)

theorem Parses.prefixed {op : UnaryOperator} {t : Token} {e : Expr} (ht : WritesUnary op t)
    (h : Parses (.unary e) us) : Parses (.unary (.unary op e)) (t :: us) := by
  intro rest hends fuel hfuel
  rw [List.length_cons] at hfuel
  obtain ⟨fuel, rfl⟩ := Nat.exists_eq_add_of_le' (show 1 ≤ fuel by omega)
  exact parseUnary_step ht (h rest hends fuel (by omega))

theorem Parses.postfixed {t : Token} {e : Expr} (ht : t.kind ≠ .operator)
    (h : Parses (.chain e) (t :: us)) : Parses (.unary e) (t :: us) := by
  intro rest hends fuel hfuel
  rw [List.length_cons] at hfuel
  obtain ⟨fuel, rfl⟩ := Nat.exists_eq_add_of_le' (show 1 ≤ fuel by omega)
  rw [List.cons_append, parseUnary_chain ht, ← List.cons_append]
  refine h rest _ 1 (Nat.le_refl _) (fun fuel hfuel => ?_) fuel (by rw [List.length_cons]; omega)
  obtain ⟨fuel, rfl⟩ := Nat.exists_eq_add_of_le' hfuel
  exact parsePostfix_stop hends

theorem Parses.base {e : Expr} (hus : 1 ≤ us.length) (h : Parses (.primary e) us) :
    Parses (.chain e) us := by
  intro rest r n hn hr fuel hfuel
  rw [h rest fuel (by omega)]
  exact hr fuel (by omega)

theorem Parses.member {e : Expr} {dot name : Token} (hdot : IsMark "." dot)
    (hname : name.kind = .identifier) (h : Parses (.chain e) us) :
    Parses (.chain (.member e name.text)) (us ++ [dot, name]) := by
  intro rest r n hn hr fuel hfuel
  rw [List.append_assoc]
  rw [List.length_append, List.length_cons] at hfuel
  refine h _ r (n + 1) (by omega) (fun fuel hfuel => ?_) fuel (by omega)
  obtain ⟨fuel, rfl⟩ := Nat.exists_eq_add_of_le' (show 1 ≤ fuel by omega)
  exact (parsePostfix_member hdot hname).trans (hr fuel (by omega))

theorem Parses.index {e position : Expr} {opener closer : Token} (ho : IsMark "[" opener)
    (hc : IsMark "]" closer) (h : Parses (.chain e) us) (hp : Parses (.level 1 position) vs) :
    Parses (.chain (.index e position)) (us ++ opener :: (vs ++ [closer])) := by
  intro rest r n hn hr fuel hfuel
  simp only [List.append_assoc, List.cons_append, List.nil_append]
  simp only [List.length_append, List.length_cons, List.length_nil] at hfuel
  refine h _ r (n + 8 * vs.length + 2) (by omega) (fun fuel hfuel => ?_) fuel (by omega)
  obtain ⟨fuel, rfl⟩ := Nat.exists_eq_add_of_le' (show 1 ≤ fuel by omega)
  have hends : EndsItems (closer :: rest) := hc.endsItems (by decide)
  have hvs := hp.item hends fuel (by omega)
  exact (parsePostfix_index ho hc hvs).trans (hr fuel (by omega))

theorem Parses.call {e : Expr} {es : List Expr} {opener closer : Token} (ho : IsMark "(" opener)
    (hc : IsMark ")" closer) (h : Parses (.chain e) us) (hes : Parses (.items es) vs) :
    Parses (.chain (.call e es)) (us ++ opener :: (vs ++ [closer])) := by
  intro rest r n hn hr fuel hfuel
  simp only [List.append_assoc, List.cons_append, List.nil_append]
  simp only [List.length_append, List.length_cons, List.length_nil] at hfuel
  refine h _ r (n + 8 * vs.length + 5) (by omega) (fun fuel hfuel => ?_) fuel (by omega)
  obtain ⟨fuel, rfl⟩ := Nat.exists_eq_add_of_le' (show 1 ≤ fuel by omega)
  have hvs := hes ")" closer rest (by decide) hc fuel (by omega)
  exact (parsePostfix_call ho hc hvs).trans (hr fuel (by omega))

theorem Parses.word {t : Token} {e : Expr} (h : ParserReads t e) : Parses (.primary e) [t] := by
  intro rest fuel hfuel
  rw [List.length_singleton] at hfuel
  obtain ⟨fuel, rfl⟩ := Nat.exists_eq_add_of_le' (show 1 ≤ fuel by omega)
  exact parsePrimary_word h

theorem Parses.group {e : Expr} {opener closer : Token} (ho : IsMark "(" opener)
    (hc : IsMark ")" closer) (h : Parses (.level 1 e) us) :
    Parses (.primary e) (opener :: (us ++ [closer])) := by
  intro rest fuel hfuel
  rw [List.cons_append, List.append_assoc]
  simp only [List.length_append, List.length_cons, List.length_nil] at hfuel
  obtain ⟨fuel, rfl⟩ := Nat.exists_eq_add_of_le' (show 1 ≤ fuel by omega)
  exact parsePrimary_group ho hc
    (h.item (hc.endsItems (by decide)) fuel (by omega))

theorem Parses.list {es : List Expr} {opener closer : Token} (ho : IsMark "[" opener)
    (hc : IsMark "]" closer) (h : Parses (.items es) us) :
    Parses (.primary (.list es)) (opener :: (us ++ [closer])) := by
  intro rest fuel hfuel
  rw [List.cons_append, List.append_assoc]
  simp only [List.length_append, List.length_cons, List.length_nil] at hfuel
  obtain ⟨fuel, rfl⟩ := Nat.exists_eq_add_of_le' (show 1 ≤ fuel by omega)
  exact parsePrimary_list ho hc (h "]" closer rest (by decide) hc fuel (by omega))

theorem Parses.object {ps : List (String × Expr)} {opener closer : Token}
    (ho : IsMark "\x7b" opener) (hc : IsMark "\x7d" closer) (h : Parses (.pairs ps) us) :
    Parses (.primary (.object ps)) (opener :: (us ++ [closer])) := by
  intro rest fuel hfuel
  rw [List.cons_append, List.append_assoc]
  simp only [List.length_append, List.length_cons, List.length_nil] at hfuel
  obtain ⟨fuel, rfl⟩ := Nat.exists_eq_add_of_le' (show 1 ≤ fuel by omega)
  exact parsePrimary_object ho hc (h closer rest hc fuel (by omega))

theorem Parses.noItems : Parses (.items []) [] := by
  intro mark closer rest _ hc fuel hfuel
  obtain ⟨fuel, rfl⟩ := Nat.exists_eq_add_of_le' (show 1 ≤ fuel by omega)
  have hmark : (current ([] ++ closer :: rest)).isPunctuation mark = true :=
    isPunctuation_iff.mpr hc
  rw [parseItems, if_pos hmark, List.nil_append]

theorem Parses.items {es : List Expr} {t : Token} (ht : Starts ParserReads (.someItems es) t)
    (h : Parses (.someItems es) (t :: us)) : Parses (.items es) (t :: us) := by
  intro mark closer rest hmark hc fuel hfuel
  obtain ⟨fuel, rfl⟩ := Nat.exists_eq_add_of_le' (show 1 ≤ fuel by omega)
  have hnot : ¬ (current (t :: us ++ closer :: rest)).isPunctuation mark = true := by
    rw [List.cons_append, current_cons, ht.not_closes hmark]
    decide
  rw [parseItems, if_neg hnot]
  exact h _ (hc.endsItems hmark) fuel (by omega)

theorem Parses.lastItem {e : Expr} (h : Parses (.level 1 e) us) :
    Parses (.someItems [e]) us := by
  intro rest hrest fuel hfuel
  obtain ⟨fuel, rfl⟩ := Nat.exists_eq_add_of_le' (show 1 ≤ fuel by omega)
  exact parseMoreItems_last (h.item hrest fuel (by omega)) hrest

/-- An expression before a comma. -/
theorem Parses.beforeComma {e : Expr} {comma : Token} {ts : List Token} (hc : IsMark "," comma)
    (h : Parses (.level 1 e) us) : ∀ fuel ≥ 8 * us.length + 1,
    parseBinary fuel 1 (us ++ comma :: ts) = .ok (e, comma :: ts) := by
  have hkind : comma.kind ≠ .operator := by rw [hc.1]; decide
  have hends : EndsChain (comma :: ts) := by
    intro mark hmark
    rw [current_cons, hc.isPunctuation]
    revert mark
    decide
  exact h.whole (Nat.le_refl _) hends (below_of_kind hkind) (below_of_kind hkind)

theorem Parses.moreItems {e : Expr} {es : List Expr} {comma : Token} (hc : IsMark "," comma)
    (h : Parses (.level 1 e) us) (hes : Parses (.someItems es) vs) :
    Parses (.someItems (e :: es)) (us ++ comma :: vs) := by
  intro rest hrest fuel hfuel
  rw [List.append_assoc, List.cons_append]
  simp only [List.length_append, List.length_cons] at hfuel
  obtain ⟨fuel, rfl⟩ := Nat.exists_eq_add_of_le' (show 1 ≤ fuel by omega)
  exact parseMoreItems_more hc (h.beforeComma hc fuel (by omega)) (hes rest hrest fuel (by omega))

theorem Parses.noPairs : Parses (.pairs []) [] := by
  intro closer rest hc fuel hfuel
  obtain ⟨fuel, rfl⟩ := Nat.exists_eq_add_of_le' (show 1 ≤ fuel by omega)
  have hmark : (current ([] ++ closer :: rest)).isPunctuation "\x7d" = true :=
    isPunctuation_iff.mpr hc
  rw [parsePairs, if_pos hmark, List.nil_append]

theorem Parses.pairs {ps : List (String × Expr)} {t : Token}
    (ht : Starts ParserReads (.somePairs ps) t) (h : Parses (.somePairs ps) (t :: us)) :
    Parses (.pairs ps) (t :: us) := by
  intro closer rest hc fuel hfuel
  obtain ⟨fuel, rfl⟩ := Nat.exists_eq_add_of_le' (show 1 ≤ fuel by omega)
  have hnot : ¬ (current (t :: us ++ closer :: rest)).isPunctuation "\x7d" = true := by
    rw [List.cons_append, current_cons, ht.not_closes (by decide)]
    decide
  rw [parsePairs, if_neg hnot]
  exact h _ (hc.endsItems (by decide)) fuel (by omega)

theorem Parses.lastPair {e : Expr} {key colon : Token} (hkey : IsKey key)
    (hcolon : IsMark ":" colon) (h : Parses (.level 1 e) us) :
    Parses (.somePairs [(key.text, e)]) (key :: colon :: us) := by
  intro rest hrest fuel hfuel
  simp only [List.length_cons] at hfuel
  obtain ⟨fuel, rfl⟩ := Nat.exists_eq_add_of_le' (show 1 ≤ fuel by omega)
  exact parseMorePairs_last hkey hcolon (h.item hrest fuel (by omega)) hrest

theorem Parses.morePairs {e : Expr} {ps : List (String × Expr)} {key colon comma : Token}
    (hkey : IsKey key) (hcolon : IsMark ":" colon) (hc : IsMark "," comma)
    (h : Parses (.level 1 e) us) (hps : Parses (.somePairs ps) vs) :
    Parses (.somePairs ((key.text, e) :: ps)) (key :: colon :: (us ++ comma :: vs)) := by
  intro rest hrest fuel hfuel
  simp only [List.cons_append, List.append_assoc]
  simp only [List.length_append, List.length_cons] at hfuel
  obtain ⟨fuel, rfl⟩ := Nat.exists_eq_add_of_le' (show 1 ≤ fuel by omega)
  exact parseMorePairs_more hkey hcolon hc (h.beforeComma hc fuel (by omega))
    (hps rest hrest fuel (by omega))

end Rules

/-- Every derivation is followed by the parser. -/
theorem Derives.parses {p : Phrase} {us : List Token} (h : Derives ParserReads p us) :
    Parses p us := by
  induction h with
  | operand hd ih =>
      obtain ⟨t, ts, rfl, -⟩ := hd.exists_first fun h => h
      exact ih.operand (by rw [List.length_cons]; omega)
  | tighter _ _ ih => exact ih.tighter
  | binary ht _ _ ihl ihr => exact .binary ht ihl ihr
  | prefixed ht _ ih => exact .prefixed ht ih
  | postfixed hd ih =>
      obtain ⟨t, ts, rfl, ht⟩ := hd.exists_first fun h => h
      exact ih.postfixed ht.kind_ne
  | base hd ih =>
      obtain ⟨t, ts, rfl, -⟩ := hd.exists_first fun h => h
      exact ih.base (by rw [List.length_cons]; omega)
  | member hdot hname _ ih => exact .member hdot hname ih
  | index ho hc _ _ ih ihp => exact .index ho hc ih ihp
  | call ho hc _ _ ih ihs => exact .call ho hc ih ihs
  | word ht => exact .word ht
  | group ho hc _ ih => exact .group ho hc ih
  | list ho hc _ ih => exact .list ho hc ih
  | object ho hc _ ih => exact .object ho hc ih
  | noItems => exact .noItems
  | items hd ih =>
      obtain ⟨t, ts, rfl, ht⟩ := hd.exists_first fun h => h
      exact .items ht ih
  | lastItem _ ih => exact ih.lastItem
  | moreItems hc _ _ ih ihs => exact .moreItems hc ih ihs
  | noPairs => exact .noPairs
  | pairs hd ih =>
      obtain ⟨t, ts, rfl, ht⟩ := hd.exists_first fun h => h
      exact .pairs ht ih
  | lastPair hk hc _ ih => exact .lastPair hk hc ih
  | morePairs hk hc hm _ _ ih ihs => exact .morePairs hk hc hm ih ihs

end NoteQuery.Grammar
