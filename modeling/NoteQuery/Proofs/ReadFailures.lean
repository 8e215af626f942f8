/-
What comes of reading a source.

A source is an expression, or it has a syntax error at one of its positions, or reading breaks off
at a token that has no value.  The last is decided by the tokens up to that one
(`Expr.parse_outcomes`): reading breaks off at it exactly if the tokens before it await an operand.

That it does break off there follows the derivation that shows the operand to be awaited: the
parser takes every phrase in front of the operand, and comes to the token in its place
(`Derives.stopsBehind`).  The fuel is counted as it is for whole phrases.
-/
import NoteQuery.Proofs.Fronts
import NoteQuery.Proofs.Lexemes

namespace NoteQuery.Grammar

open NoteQuery.Expr

/-! ## The operand in a derivation -/

/-- An operand stands in the tokens behind the front. -/
def StandsBehind (before us : List Token) : Prop :=
  ∃ tail, us = before ++ operand :: tail

theorem IsSyntax.ne_operand {t : Token} (h : IsSyntax t) : t ≠ operand := by
  rintro rfl
  rcases h with h | h | h | h <;> cases h

section Splits

variable {before us vs : List Token} {t : Token}

theorem not_standsBehind_nil : ¬ StandsBehind before [] := by
  rintro ⟨tail, h⟩
  exact List.append_ne_nil_of_right_ne_nil before (List.cons_ne_nil operand tail) h.symm

theorem standsBehind_cons (ht : IsSyntax t) (h : StandsBehind before (t :: us)) :
    ∃ before', before = t :: before' ∧ StandsBehind before' us := by
  obtain ⟨tail, h⟩ := h
  cases before with
  | nil => exact absurd (List.cons.inj h).1 ht.ne_operand
  | cons u before =>
    obtain ⟨rfl, rfl⟩ := List.cons.inj h
    exact ⟨before, rfl, tail, rfl⟩

theorem standsBehind_singleton (h : StandsBehind before [t]) : before = [] := by
  obtain ⟨tail, h⟩ := h
  cases before with
  | nil => rfl
  | cons u before => exact absurd ⟨tail, (List.cons.inj h).2⟩ not_standsBehind_nil

theorem standsBehind_append (h : StandsBehind before (us ++ vs)) :
    StandsBehind before us ∨ ∃ before', before = us ++ before' ∧ StandsBehind before' vs := by
  obtain ⟨tail, h⟩ := h
  rcases List.append_eq_append_iff.mp h with ⟨before', rfl, hvs⟩ | ⟨ws, rfl, hws⟩
  · exact .inr ⟨before', rfl, tail, hvs⟩
  · cases ws with
    | nil => exact .inr ⟨[], by rw [List.append_nil, List.append_nil], tail, hws.symm⟩
    | cons w ws =>
      obtain ⟨rfl, -⟩ := List.cons.inj hws
      exact .inl ⟨ws, rfl⟩

/-- Two phrases with a token between them. -/
theorem standsBehind_between (ht : IsSyntax t) (h : StandsBehind before (us ++ t :: vs)) :
    StandsBehind before us ∨ ∃ before', before = us ++ t :: before' ∧ StandsBehind before' vs := by
  refine (standsBehind_append h).imp_right ?_
  rintro ⟨front, rfl, hfront⟩
  obtain ⟨before', rfl, hvs⟩ := standsBehind_cons ht hfront
  exact ⟨before', rfl, hvs⟩

/-- A phrase with a closing token behind it. -/
theorem standsBehind_closed (ht : IsSyntax t) (h : StandsBehind before (us ++ [t])) :
    StandsBehind before us := by
  refine (standsBehind_between ht h).resolve_right ?_
  rintro ⟨before', -, h⟩
  exact not_standsBehind_nil h

end Splits

/-! ## Steps that fail -/

section Fails

variable {fuel : Nat} {failure : ReadFailure} {ts rest : List Token}

theorem parseOperators_fails {least k : Nat} {op : BinaryOperator} {left : Expr} {t : Token}
    (ht : WritesBinary k op t) (hl : least ≤ k)
    (hright : parseBinary fuel (k + 1) ts = .error failure) :
    parseOperators (fuel + 1) least left (t :: ts) = .error failure := by
  obtain rfl := ht.level_eq
  rw [parseOperators, binaryOperator?_cons.mpr ht]
  show (if op.precedence < least then _ else _) = _
  rw [if_neg (Nat.not_lt.mpr hl), List.tail_cons, hright]
  rfl

theorem parsePostfix_index_fails {e : Expr} {opener : Token} (ho : IsMark "[" opener)
    (hposition : parseBinary fuel 1 ts = .error failure) :
    parsePostfix (fuel + 1) e (opener :: ts) = .error failure := by
  simp only [parsePostfix, current_cons, List.tail_cons, ho.isPunctuation, hposition,
    String.reduceBEq, Bool.false_eq_true, ↓reduceIte]
  rfl

theorem parsePostfix_call_fails {e : Expr} {opener : Token} (ho : IsMark "(" opener)
    (hitems : parseItems fuel ")" ts = .error failure) :
    parsePostfix (fuel + 1) e (opener :: ts) = .error failure := by
  simp only [parsePostfix, current_cons, List.tail_cons, ho.isPunctuation, hitems,
    String.reduceBEq, Bool.false_eq_true, ↓reduceIte]
  rfl

theorem parsePrimary_word_fails {t : Token} (ht : ofToken? t = .error failure) :
    parsePrimary (fuel + 1) (t :: ts) = .error failure := by
  have ht' : ofToken? (current (t :: ts)) = .error failure := ht
  simp only [parsePrimary, ht']
  rfl

theorem parsePrimary_group_fails {opener : Token} (ho : IsMark "(" opener)
    (he : parseBinary fuel 1 ts = .error failure) :
    parsePrimary (fuel + 1) (opener :: ts) = .error failure := by
  simp only [parsePrimary, current_cons, List.tail_cons, ofToken?_of_mark ho,
    isPunctuation_iff.mpr ho, he, ↓reduceIte]
  rfl

theorem parsePrimary_list_fails {opener : Token} (ho : IsMark "[" opener)
    (hes : parseItems fuel "]" ts = .error failure) :
    parsePrimary (fuel + 1) (opener :: ts) = .error failure := by
  simp only [parsePrimary, current_cons, List.tail_cons, ofToken?_of_mark ho,
    ho.isPunctuation, hes, String.reduceBEq, Bool.false_eq_true, ↓reduceIte]
  rfl

theorem parsePrimary_object_fails {opener : Token} (ho : IsMark "\x7b" opener)
    (hps : parsePairs fuel ts = .error failure) :
    parsePrimary (fuel + 1) (opener :: ts) = .error failure := by
  simp only [parsePrimary, current_cons, List.tail_cons, ofToken?_of_mark ho,
    ho.isPunctuation, hps, String.reduceBEq, Bool.false_eq_true, ↓reduceIte]
  rfl

theorem parseMoreItems_fails (he : parseBinary fuel 1 ts = .error failure) :
    parseMoreItems (fuel + 1) ts = .error failure := by
  rw [parseMoreItems, he]
  rfl

theorem parseMoreItems_more_fails {e : Expr} {comma : Token} (hcomma : IsMark "," comma)
    (he : parseBinary fuel 1 ts = .ok (e, comma :: rest))
    (hes : parseMoreItems fuel rest = .error failure) :
    parseMoreItems (fuel + 1) ts = .error failure := by
  have hmark : (current (comma :: rest)).isPunctuation "," = true := isPunctuation_iff.mpr hcomma
  rw [parseMoreItems, he]
  show (if _ then _ else _) = _
  rw [if_pos hmark, List.tail_cons, hes]
  rfl

section Pairs

variable {key colon : Token} (hkey : IsKey key) (hcolon : IsMark ":" colon)

include hkey hcolon

theorem parseMorePairs_fails (he : parseBinary fuel 1 ts = .error failure) :
    parseMorePairs (fuel + 1) (key :: colon :: ts) = .error failure := by
  rw [parseMorePairs_cons hkey hcolon, he]
  rfl

theorem parseMorePairs_more_fails {e : Expr} {comma : Token} (hcomma : IsMark "," comma)
    (he : parseBinary fuel 1 ts = .ok (e, comma :: rest))
    (hps : parseMorePairs fuel rest = .error failure) :
    parseMorePairs (fuel + 1) (key :: colon :: ts) = .error failure := by
  have hmark : (current (comma :: rest)).isPunctuation "," = true := isPunctuation_iff.mpr hcomma
  rw [parseMorePairs_cons hkey hcolon, he]
  show (if _ then _ else _) = _
  rw [if_pos hmark, List.tail_cons, hps]
  rfl

end Pairs

end Fails

/-! ## Breaking off -/

theorem ofToken?_of_breaks {t : Token} {f : Fault} (h : t.Breaks f) :
    ofToken? t = .error (.fault f) := by
  unfold ofToken?
  cases h with
  | numeral hkind hpoint hlength =>
    rw [← String.length_toList] at hlength
    rw [hkind, ofNumeral_integer hpoint, if_pos hlength, String.length_toList]
  | pattern hkind hcreate =>
    rw [hkind]
    unfold patternOf
    dsimp only
    rw [hcreate]
    rfl

theorem kind_of_breaks {t : Token} {f : Fault} (h : t.Breaks f) :
    t.kind = .number ∨ t.kind = .pattern := by
  cases h with
  | numeral hkind => exact .inl hkind
  | pattern hkind => exact .inr hkind

section Stops

variable {t : Token} {f : Fault} (after : List Token)

/-- Reading the phrase with the token in place of the operand behind the front breaks off, with
enough fuel. -/
def StopsBehind (t : Token) (after : List Token) (f : Fault) : Phrase → List Token → Prop
  | .level k _, us => ∀ least ≤ k, ∀ fuel ≥ 8 * us.length + 8,
      parseBinary fuel least (us ++ t :: after) = .error (.fault f)
  | .unary _, us => ∀ fuel ≥ 8 * us.length + 7,
      parseUnary fuel (us ++ t :: after) = .error (.fault f)
  | .chain _, us => ∀ fuel ≥ 8 * us.length + 6,
      (parsePrimary fuel (us ++ t :: after) >>= fun x => parsePostfix fuel x.1 x.2) =
        .error (.fault f)
  | .primary _, us => ∀ fuel ≥ 8 * us.length + 6,
      parsePrimary fuel (us ++ t :: after) = .error (.fault f)
  | .items _, us => ∀ mark ∈ [")", "]", "\x7d"], ∀ fuel ≥ 8 * us.length + 10,
      parseItems fuel mark (us ++ t :: after) = .error (.fault f)
  | .someItems _, us => ∀ fuel ≥ 8 * us.length + 9,
      parseMoreItems fuel (us ++ t :: after) = .error (.fault f)
  | .pairs _, us => ∀ fuel ≥ 8 * us.length + 10,
      parsePairs fuel (us ++ t :: after) = .error (.fault f)
  | .somePairs _, us => ∀ fuel ≥ 8 * us.length + 9,
      parseMorePairs fuel (us ++ t :: after) = .error (.fault f)

/-- What stands first is what the phrase begins with, or the token itself. -/
theorem exists_first_behind {p : Phrase} {us before : List Token} (h : Derives ParserReads p us)
    (hp : ¬ p.IsEmpty) (hus : StandsBehind before us) (t : Token) (after : List Token) :
    ∃ u rest, before ++ t :: after = u :: rest ∧ (u = t ∨ Starts ParserReads p u) := by
  obtain ⟨tail, rfl⟩ := hus
  cases before with
  | nil => exact ⟨t, after, rfl, .inl rfl⟩
  | cons u before =>
    obtain ⟨u', ws, hws, hstarts⟩ := h.exists_first hp
    obtain ⟨rfl, -⟩ := List.cons.inj hws
    exact ⟨u, _, rfl, .inr hstarts⟩

/-- The parser comes to the place of the operand, and breaks off at a token that breaks. -/
theorem Derives.stopsBehind (ht : t.Breaks f) {p : Phrase} {us : List Token}
    (h : Derives ParserReads p us) {before : List Token} (hus : StandsBehind before us) :
    StopsBehind t after f p before := by
  have hkind := kind_of_breaks ht
  have hmark (mark : String) : t.isPunctuation mark = false := by
    refine isPunctuation_of_kind ?_
    rcases hkind with hk | hk <;> rw [hk] <;> decide
  induction h generalizing before with
  | operand hd ih =>
    intro least _ fuel hfuel
    obtain ⟨fuel, rfl⟩ := Nat.exists_eq_add_of_le' (show 1 ≤ fuel by omega)
    rw [parseBinary, ih hus fuel (by omega)]
    rfl
  | tighter _ _ ih =>
    intro least hl
    exact ih hus least (Nat.le_succ_of_le hl)
  | @binary k op u left right us vs hop hleft _ ihl ihr =>
    rcases standsBehind_between hop.isSyntax hus with hus | ⟨before, rfl, hvs⟩
    · exact ihl hus
    · intro least hl fuel hfuel
      rw [List.length_append, List.length_cons] at hfuel
      rw [List.append_assoc, List.cons_append]
      have hnot : u.kind ≠ .punctuation := by rw [hop.1]; decide
      refine hleft.parses least _ _ (8 * before.length + 9) hl (by omega) (endsChain_of_kind hnot)
        hop.below ?_ fuel (by omega)
      intro fuel hfuel
      obtain ⟨fuel, rfl⟩ := Nat.exists_eq_add_of_le' (show 1 ≤ fuel by omega)
      exact parseOperators_fails hop hl (ihr hvs _ (Nat.le_refl _) fuel (by omega))
  | prefixed hop _ ih =>
    obtain ⟨before, rfl, hrest⟩ := standsBehind_cons hop.isSyntax hus
    intro fuel hfuel
    rw [List.length_cons] at hfuel
    obtain ⟨fuel, rfl⟩ := Nat.exists_eq_add_of_le' (show 1 ≤ fuel by omega)
    rw [List.cons_append, parseUnary, unaryOperator?_cons.mpr hop]
    show (parseUnary fuel _ >>= _) = _
    rw [List.tail_cons, ih hrest fuel (by omega)]
    rfl
  | postfixed hd ih =>
    intro fuel hfuel
    obtain ⟨fuel, rfl⟩ := Nat.exists_eq_add_of_le' (show 1 ≤ fuel by omega)
    have hstops := ih hus fuel (by omega)
    obtain ⟨u, rest, hrest, hu⟩ := exists_first_behind hd (fun h => h) hus t after
    have hnot : u.kind ≠ .operator := by
      rcases hu with rfl | hu
      · rcases hkind with hk | hk <;> rw [hk] <;> decide
      · exact hu.kind_ne
    rw [hrest] at hstops ⊢
    rw [parseUnary_chain hnot, hstops]
  | base _ ih =>
    intro fuel hfuel
    rw [ih hus fuel hfuel]
    rfl
  | member hdot hname _ ih =>
    have hsyntax := IsKey.isSyntax (.inr hname)
    rw [List.append_cons] at hus
    exact ih (standsBehind_closed hdot.isSyntax (standsBehind_closed hsyntax hus))
  | @index e position opener closer us vs ho hc hd _ ih ihp =>
    rcases standsBehind_between ho.isSyntax hus with hus | ⟨before, rfl, hvs⟩
    · exact ih hus
    · intro fuel hfuel
      rw [List.length_append, List.length_cons] at hfuel
      rw [List.append_assoc, List.cons_append]
      have hinner := standsBehind_closed hc.isSyntax hvs
      refine hd.parses _ _ (8 * before.length + 9) (by omega) ?_ fuel (by omega)
      intro fuel hfuel
      obtain ⟨fuel, rfl⟩ := Nat.exists_eq_add_of_le' (show 1 ≤ fuel by omega)
      exact parsePostfix_index_fails ho (ihp hinner 1 (Nat.le_refl 1) fuel (by omega))
  | @call e es opener closer us vs ho hc hd _ ih ihs =>
    rcases standsBehind_between ho.isSyntax hus with hus | ⟨before, rfl, hvs⟩
    · exact ih hus
    · intro fuel hfuel
      rw [List.length_append, List.length_cons] at hfuel
      rw [List.append_assoc, List.cons_append]
      have hinner := standsBehind_closed hc.isSyntax hvs
      refine hd.parses _ _ (8 * before.length + 11) (by omega) ?_ fuel (by omega)
      intro fuel hfuel
      obtain ⟨fuel, rfl⟩ := Nat.exists_eq_add_of_le' (show 1 ≤ fuel by omega)
      exact parsePostfix_call_fails ho (ihs hinner ")" (by decide) fuel (by omega))
  | word _ =>
    obtain rfl := standsBehind_singleton hus
    intro fuel hfuel
    obtain ⟨fuel, rfl⟩ := Nat.exists_eq_add_of_le' (show 1 ≤ fuel by omega)
    exact parsePrimary_word_fails (ofToken?_of_breaks ht)
  | group ho hc _ ih =>
    obtain ⟨before, rfl, hrest⟩ := standsBehind_cons ho.isSyntax hus
    intro fuel hfuel
    rw [List.length_cons] at hfuel
    obtain ⟨fuel, rfl⟩ := Nat.exists_eq_add_of_le' (show 1 ≤ fuel by omega)
    have hinner := standsBehind_closed hc.isSyntax hrest
    exact parsePrimary_group_fails ho (ih hinner 1 (Nat.le_refl 1) fuel (by omega))
  | list ho hc _ ih =>
    obtain ⟨before, rfl, hrest⟩ := standsBehind_cons ho.isSyntax hus
    intro fuel hfuel
    rw [List.length_cons] at hfuel
    obtain ⟨fuel, rfl⟩ := Nat.exists_eq_add_of_le' (show 1 ≤ fuel by omega)
    have hinner := standsBehind_closed hc.isSyntax hrest
    exact parsePrimary_list_fails ho (ih hinner "]" (by decide) fuel (by omega))
  | object ho hc _ ih =>
    obtain ⟨before, rfl, hrest⟩ := standsBehind_cons ho.isSyntax hus
    intro fuel hfuel
    rw [List.length_cons] at hfuel
    obtain ⟨fuel, rfl⟩ := Nat.exists_eq_add_of_le' (show 1 ≤ fuel by omega)
    have hinner := standsBehind_closed hc.isSyntax hrest
    exact parsePrimary_object_fails ho (ih hinner fuel (by omega))
  | noItems => exact absurd hus not_standsBehind_nil
  | items hd ih =>
    intro mark hclose fuel hfuel
    obtain ⟨fuel, rfl⟩ := Nat.exists_eq_add_of_le' (show 1 ≤ fuel by omega)
    have hstops := ih hus fuel (by omega)
    obtain ⟨u, rest, hrest, hu⟩ := exists_first_behind hd (fun h => h) hus t after
    have hnot : u.isPunctuation mark = false := by
      rcases hu with rfl | hu
      · exact hmark mark
      · exact hu.not_closes hclose
    rw [hrest] at hstops ⊢
    rw [parseItems, if_neg (by rw [current_cons, hnot]; decide), hstops]
  | lastItem _ ih =>
    intro fuel hfuel
    obtain ⟨fuel, rfl⟩ := Nat.exists_eq_add_of_le' (show 1 ≤ fuel by omega)
    exact parseMoreItems_fails (ih hus 1 (Nat.le_refl 1) fuel (by omega))
  | @moreItems e es comma us vs hc hd _ ih ihs =>
    rcases standsBehind_between hc.isSyntax hus with hus | ⟨before, rfl, hvs⟩
    · intro fuel hfuel
      obtain ⟨fuel, rfl⟩ := Nat.exists_eq_add_of_le' (show 1 ≤ fuel by omega)
      exact parseMoreItems_fails (ih hus 1 (Nat.le_refl 1) fuel (by omega))
    · intro fuel hfuel
      rw [List.length_append, List.length_cons] at hfuel
      obtain ⟨fuel, rfl⟩ := Nat.exists_eq_add_of_le' (show 1 ≤ fuel by omega)
      rw [List.append_assoc, List.cons_append]
      exact parseMoreItems_more_fails hc (hd.parses.beforeComma hc fuel (by omega))
        (ihs hvs fuel (by omega))
  | noPairs => exact absurd hus not_standsBehind_nil
  | pairs hd ih =>
    intro fuel hfuel
    obtain ⟨fuel, rfl⟩ := Nat.exists_eq_add_of_le' (show 1 ≤ fuel by omega)
    have hstops := ih hus fuel (by omega)
    obtain ⟨u, rest, hrest, hu⟩ := exists_first_behind hd (fun h => h) hus t after
    have hnot : u.isPunctuation "\x7d" = false := by
      rcases hu with rfl | hu
      · exact hmark "\x7d"
      · exact hu.not_closes (by decide)
    rw [hrest] at hstops ⊢
    rw [parsePairs, if_neg (by rw [current_cons, hnot]; decide), hstops]
  | lastPair hkey hcolon _ ih =>
    obtain ⟨front, rfl, hfront⟩ := standsBehind_cons hkey.isSyntax hus
    obtain ⟨before, rfl, hvalue⟩ := standsBehind_cons hcolon.isSyntax hfront
    intro fuel hfuel
    simp only [List.length_cons] at hfuel
    obtain ⟨fuel, rfl⟩ := Nat.exists_eq_add_of_le' (show 1 ≤ fuel by omega)
    exact parseMorePairs_fails hkey hcolon (ih hvalue 1 (Nat.le_refl 1) fuel (by omega))
  | @morePairs e ps key colon comma us vs hkey hcolon hc hd _ ih ihs =>
    obtain ⟨front, rfl, hfront⟩ := standsBehind_cons hkey.isSyntax hus
    obtain ⟨before, rfl, hvalue⟩ := standsBehind_cons hcolon.isSyntax hfront
    intro fuel hfuel
    simp only [List.length_cons] at hfuel
    obtain ⟨fuel, rfl⟩ := Nat.exists_eq_add_of_le' (show 1 ≤ fuel by omega)
    rcases standsBehind_between hc.isSyntax hvalue with hus | ⟨before, rfl, hvs⟩
    · exact parseMorePairs_fails hkey hcolon (ih hus 1 (Nat.le_refl 1) fuel (by omega))
    · rw [List.length_append, List.length_cons] at hfuel
      simp only [List.cons_append, List.append_assoc]
      exact parseMorePairs_more_fails hkey hcolon hc (hd.parses.beforeComma hc fuel (by omega))
        (ihs hvs fuel (by omega))

end Stops

end NoteQuery.Grammar

namespace NoteQuery.Expr

open Grammar

/-! ## Whole sources -/

theorem parse_eq_error_iff {source : String} {failure : ReadFailure} :
    parse source = .error failure ↔ (∃ e, tokenize source = .error e ∧ failure = .syntaxError e) ∨
      ∃ tokens, tokenize source = .ok tokens ∧ ofTokens tokens = .error failure := by
  unfold parse
  cases tokenize source with
  | error e => simp [eq_comm]
  | ok tokens => simp

/-- Tokens that are no expression are refused at one of them, unless reading breaks off. -/
theorem outcome_ofTokens {tokens : List Token} {failure : ReadFailure}
    (h : ofTokens tokens = .error failure) : Outcome (Awaits (.level 1)) tokens
      (.error failure : Except ReadFailure (Expr × List Token)) := by
  unfold ofTokens at h
  split at h
  · cases h
    exact .failHere _
  · rcases bind_eq_error.mp h with h | ⟨⟨e, rest⟩, he, h⟩
    · rw [← h]
      exact (accountedUpTo _).binary tokens (by decide)
    · dsimp only at h
      split at h
      · cases h
      · cases h
        obtain ⟨⟨us, rfl, -⟩, -⟩ := (soundUpTo _).binary (by decide) he
        exact (Outcome.failHere _).behind us

/-- Reading breaks off exactly at a token that breaks where the tokens before it await an
operand. -/
theorem parse_eq_fault_iff {source : String} {f : Fault} :
    parse source = .error (.fault f) ↔ ∃ before t after,
      tokenize source = .ok (before ++ t :: after) ∧ t.Breaks f ∧ Awaits (.level 1) before := by
  constructor
  · intro h
    rcases parse_eq_error_iff.mp h with ⟨e, -, he⟩ | ⟨tokens, htokens, h⟩
    · cases he
    · cases outcome_ofTokens h with
      | breaks hsplit ht hbefore => exact ⟨_, _, _, hsplit ▸ htokens, ht, hbefore⟩
  · rintro ⟨before, t, after, htokens, ht, e, tail, hd⟩
    refine parse_eq_error_iff.mpr (.inr ⟨_, htokens, ?_⟩)
    have hus : StandsBehind before (before ++ operand :: tail) := ⟨tail, rfl⟩
    obtain ⟨u, rest, hrest, hu⟩ := exists_first_behind hd (fun h => h) hus t after
    have hfirst : u.kind ≠ .eof := by
      rcases hu with rfl | hop | ⟨e, he⟩ | ⟨mark, -, hm⟩
      · rcases kind_of_breaks ht with hk | hk <;> rw [hk] <;> decide
      · rw [hop]
        decide
      · exact he.kind.2.2
      · rw [hm.1]
        decide
    have hfuel : fuelFor (before ++ t :: after) ≥ 8 * before.length + 8 := by
      rw [fuelFor, List.length_append]
      omega
    have hstops := hd.stopsBehind after ht hus 1 (Nat.le_refl 1) _ hfuel
    unfold ofTokens
    rw [if_neg (by rw [hrest]; exact hfirst), hstops]
    rfl

/-- A syntax error is at a position of the source, or at its end. -/
theorem position_le_of_parse {source : String} {e : SyntaxError}
    (h : parse source = .error (.syntaxError e)) : e.position ≤ source.length := by
  rw [← String.length_toList]
  rcases parse_eq_error_iff.mp h with ⟨e', hread, he⟩ | ⟨tokens, htokens, h⟩
  · cases he
    have hplace := (Token.place_of_readAll_error hread).2.1
    rw [Nat.zero_add] at hplace
    exact hplace.le
  · cases outcome_ofTokens h with
    | refuses hposition =>
      rcases hposition with hzero | ⟨t, ht, hfirst⟩
      · rw [hzero]
        exact Nat.zero_le _
      · rw [← hfirst]
        have hplace := (Token.readAll_eq_ok_iff.mp htokens).first_le t ht
        rwa [Nat.zero_add] at hplace

/-- A source is an expression, or has a syntax error at one of its positions, unless reading breaks
off; and it breaks off exactly at an integer with too many digits, or a pattern that repeats
something too often, where the tokens before it await an operand. -/
theorem parse_outcomes (source : String) :
    ((∃ e, parse source = .ok e) ∨
      (∃ e, parse source = .error (.syntaxError e) ∧ e.position ≤ source.length) ∨
      ∃ f, parse source = .error (.fault f)) ∧
    ∀ f, parse source = .error (.fault f) ↔ ∃ before t after,
      tokenize source = .ok (before ++ t :: after) ∧ t.Breaks f ∧ Awaits (.level 1) before := by
  refine ⟨?_, fun f => parse_eq_fault_iff⟩
  cases h : parse source with
  | ok e => exact .inl ⟨e, rfl⟩
  | error failure =>
    cases failure with
    | syntaxError e => exact .inr (.inl ⟨e, rfl, position_le_of_parse h⟩)
    | fault f => exact .inr (.inr ⟨f, rfl⟩)

/-- A numeral of so many ones. -/
def ones (n : Nat) : List Char :=
  List.replicate (n + 1) '1'

theorem readLexeme_ones (n : Nat) : Token.readLexeme true '1' (List.replicate n '1') =
    .ok ⟨.number, ones n, n + 1⟩ := by
  have hone {p : Char → Bool} (hp : p '1' = true) (k : Nat) : ∀ c ∈ List.replicate k '1', p c := by
    intro c hc
    rwa [List.eq_of_mem_replicate hc]
  have hones : '1' :: List.replicate n '1' = ones n := List.replicate_succ.symm
  have hplain : (ones n).filter (· != '_') = ones n :=
    List.filter_eq_self.mpr (hone (by decide) (n + 1))
  have hform : Token.Form true .number (('1' :: List.replicate n '1').filter (· != '_'))
      ('1' :: List.replicate n '1') [] :=
    .whole (by decide) (hone (by decide) n) nofun nofun
  have hread := hform.readLexeme
  rwa [List.append_nil, hones, hplain, List.length_replicate] at hread

/-- The tokens of a numeral of so many ones. -/
theorem tokenize_ones (n : Nat) : tokenize (String.ofList (ones n)) =
    .ok [⟨.number, .ofList (ones n), .ofList (ones n), 0⟩, ⟨.eof, "", "", n + 1⟩] := by
  have hrest : (List.replicate n '1').length ≤ n := Nat.le_of_eq List.length_replicate
  have hones : '1' :: List.replicate n '1' = ones n := List.replicate_succ.symm
  rw [tokenize, String.toList_ofList, ← hones,
    Token.readAll_lexeme (by decide) (readLexeme_ones n) 0]
  dsimp only
  rw [Nat.add_sub_cancel, List.take_of_length_le hrest, List.drop_of_length_le hrest, hones,
    Token.readAll, Nat.zero_add]
  rfl

/-- Reading breaks off at a pattern that asks for too many repetitions, and at an integer of 4301
digits. -/
theorem parse_breaksOff :
    parse "/a\x7b4294967296\x7d/" = .error (.fault .repeatTooLarge) ∧
      parse (String.ofList (ones 4300)) = .error (.fault (.tooManyDigits 4301)) := by
  refine ⟨by decide +kernel, ?_⟩
  have hlength : (String.ofList (ones 4300)).length = 4301 := by
    rw [← String.length_toList, String.toList_ofList, ones, List.length_replicate]
  have hbreaks : Token.Breaks ⟨.number, .ofList (ones 4300), .ofList (ones 4300), 0⟩
      (.tooManyDigits 4301) := by
    have hbreaks := Token.Breaks.numeral
      (t := ⟨.number, .ofList (ones 4300), .ofList (ones 4300), 0⟩) rfl ?_ ?_
    · rwa [hlength] at hbreaks
    · rw [String.toList_ofList, ones, List.mem_replicate]
      decide
    · rw [hlength]
      decide
  have hawaits : Awaits (.level 1) [] := Awaits.nil.base.postfixed.level (by decide)
  exact parse_eq_fault_iff.mpr ⟨[], _, _, tokenize_ones 4300, hbreaks, hawaits⟩

end NoteQuery.Expr
