/-
Sources between parentheses.

What is read of a text by itself is read of it between parentheses too: an operand is expected at
its start in both places, and no token goes on over a closing parenthesis (`Token.readAll_close`).
So sources between parentheses are operands like any other, and joined by an operator they parse to
the operator between their trees (`Expr.writes_joined`).

A filter that is a group of sources looks at them one by one until the outcome is certain.  So do
`&&` and `||` with their operands, and a group does with a row what the one source does in which
its sources are joined (`Filter.group_agrees`), errors included.
-/
import NoteQuery.Proofs.FilterMeaning
import NoteQuery.Proofs.Lexemes
import NoteQuery.Proofs.Rendering

namespace NoteQuery

namespace Expr

open Token Grammar

/-! ## Sources between parentheses -/

/-- A source between parentheses. -/
def grouped (source : String) : String :=
  "(" ++ source ++ ")"

/-- Sources between parentheses, with an operator between any two. -/
def joined (op : BinaryOperator) (sources : List String) : String :=
  (" " ++ op.symbol ++ " ").intercalate (sources.map grouped)

/-- A source between parentheses behind an operator. -/
def prefixed (op : UnaryOperator) (source : String) : String :=
  op.symbol ++ grouped source

/-- Expressions with an operator between any two, which groups to the left. -/
def chain (op : BinaryOperator) (e : Expr) (es : List Expr) : Expr :=
  es.foldl (.binary op) e

/-- The source is that of the expression. -/
def Writes (source : String) (e : Expr) : Prop :=
  parse source = .ok e

theorem toList_grouped (source : String) :
    (grouped source).toList = '(' :: (source.toList ++ [')']) := by
  rw [grouped, String.toList_append, String.toList_append]
  rfl

/-- What stands behind the first of the sources that an operator joins. -/
def joinedBehind (op : BinaryOperator) (sources : List String) : List Char :=
  sources.flatMap fun source => ' ' :: (op.symbol.toList ++ ' ' :: (grouped source).toList)

theorem toList_joined (op : BinaryOperator) (source : String) (sources : List String) :
    (joined op (source :: sources)).toList =
      (grouped source).toList ++ joinedBehind op sources := by
  induction sources generalizing source with
  | nil =>
    rw [joined, List.map_singleton, String.intercalate_singleton]
    exact (List.append_nil _).symm
  | cons next sources ih =>
    rw [joined, List.map_cons, List.map_cons, String.intercalate_cons_cons, ← List.map_cons,
      String.toList_append, String.toList_append, ← joined, ih, joinedBehind, joinedBehind,
      List.flatMap_cons, String.toList_append, String.toList_append]
    simp only [List.append_assoc, List.cons_append]
    rfl

/-- An operand may stand where any operator asks for one. -/
theorem derives_operand {e : Expr} {us : List Token} {k : Nat} (hk : k ≤ 7)
    (h : Derives ParserReads (.primary e) us) : Derives ParserReads (.level k e) us :=
  (Derives.operand (.postfixed (.base h))).loosen hk (Nat.le_refl 7)

/-- A source between parentheses is read as an operand with the tree of the source, whatever
stands before it and behind it. -/
theorem readAll_grouped {source : String} {e : Expr} (h : Writes source e) (b : Bool) (pos : Nat) :
    ∃ us pos', Derives ParserReads (.primary e) us ∧ ∀ rest,
      readAll b pos ((grouped source).toList ++ rest) =
        (readAll false pos' rest).map (us ++ ·) := by
  unfold Writes parse at h
  split at h
  · next tokens htokens =>
    obtain ⟨us, last, rfl, hlast, hus, hclose⟩ := readAll_close htokens
    have hend : beforeEnd (us ++ [last]) = us := beforeEnd_append hus hlast
    rw [ofTokens_iff_derives, hend] at h
    obtain ⟨vs, b', pos', hsame, hread⟩ := hclose (pos + 1)
    have hvs : Derives ParserReads (.level 1 e) vs :=
      h.transfer_self (hsame.imp fun t u h => ⟨h.1, h.2.1, fun _ => parserReads_of_same h⟩)
    let opener : Token := { mark '(' with first := pos }
    let closer : Token := { mark ')' with first := pos' }
    have hgroup : Derives ParserReads (.primary e) (opener :: (vs ++ [closer])) :=
      .group ⟨rfl, rfl⟩ ⟨rfl, rfl⟩ hvs
    refine ⟨_, pos' + 1, hgroup, fun rest => ?_⟩
    rw [toList_grouped, List.cons_append, readAll_mark (by decide), List.append_assoc]
    show (readAll true (pos + 1) (source.toList ++ ')' :: rest)).map _ = _
    rw [hread, readAll_mark (by decide)]
    show ((Except.map _ (readAll false (pos' + 1) rest)).map _).map _ = _
    cases readAll false (pos' + 1) rest with
    | error e => rfl
    | ok ts =>
      simp only [Except.map, List.cons_append, List.append_assoc, List.nil_append]
      rfl
  · cases h

/-- Tokens that are read of a whole text parse to what they derive. -/
theorem writes_of_derives {source : String} {e : Expr} {us : List Token} {last : Token}
    (hread : tokenize source = .ok (us ++ [last])) (hlast : last.kind = .eof)
    (h : Derives ParserReads (.level 1 e) us) : Writes source e := by
  unfold Writes parse
  rw [hread]
  show ofTokens (us ++ [last]) = .ok e
  have hend : beforeEnd (us ++ [last]) = us := beforeEnd_append h.kind_ne_eof hlast
  rwa [ofTokens_iff_derives, hend]

/-- Behind an operand each further source becomes the right operand of what has been read. -/
theorem readAll_joinedBehind {op : BinaryOperator} {sources : List String} {es : List Expr}
    (h : List.Forall₂ Writes sources es) {left : Expr} {us : List Token}
    (hleft : Derives ParserReads (.level op.precedence left) us) (pos : Nat) :
    ∃ vs last, readAll false pos (joinedBehind op sources) = .ok (vs ++ [last]) ∧
      last.kind = .eof ∧
      Derives ParserReads (.level op.precedence (chain op left es)) (us ++ vs) := by
  induction h generalizing left us pos with
  | nil => exact ⟨[], _, readAll_nil, rfl, by rwa [List.append_nil]⟩
  | @cons source e sources es hsource _ ih =>
    obtain ⟨pos₁, hop⟩ := readAll_scans (scans_binary op)
      (.inr ⟨(grouped source).toList ++ joinedBehind op sources, rfl⟩) (pos + 1)
    let t : Token := { word .operator op.symbol with first := pos + 1 }
    have ht : WritesBinary op.precedence op t := by
      refine ⟨rfl, mem_operatorsOf_iff.mpr ⟨?_, rfl⟩⟩
      cases op <;> rfl
    obtain ⟨ws, pos₂, hws, hgroup⟩ := readAll_grouped hsource true (pos₁ + 1)
    have hboth := Derives.binary ht hleft
      (derives_operand (Nat.succ_le_succ (precedence_bounds op).2) hws)
    obtain ⟨vs, last, hvs, hlast, hall⟩ := ih hboth pos₂
    refine ⟨t :: (ws ++ vs), last, ?_, hlast, ?_⟩
    · have htext : joinedBehind op (source :: sources) = ' ' :: (op.symbol.toList ++
          ' ' :: ((grouped source).toList ++ joinedBehind op sources)) := by
        simp only [joinedBehind, List.flatMap_cons, List.cons_append, List.append_assoc]
      rw [htext, readAll_blank (by decide)]
      refine hop.trans ?_
      rw [readAll_blank (by decide)]
      show (readAll true (pos₁ + 1) _).map _ = _
      rw [hgroup, hvs]
      show Except.ok (t :: (ws ++ (vs ++ [last]))) = _
      rw [List.cons_append, List.append_assoc]
    · rwa [List.append_assoc, List.cons_append] at hall

/-- Sources between parentheses that an operator joins parse to the operator between their
trees, whatever the sources have in them. -/
theorem writes_joined (op : BinaryOperator) {source : String} {sources : List String} {e : Expr}
    {es : List Expr} (h : Writes source e) (hs : List.Forall₂ Writes sources es) :
    Writes (joined op (source :: sources)) (chain op e es) := by
  obtain ⟨us, pos, hus, hgroup⟩ := readAll_grouped h true 0
  have hlevel : op.precedence ≤ 7 := Nat.le_succ_of_le (precedence_bounds op).2
  obtain ⟨vs, last, hvs, hlast, hall⟩ :=
    readAll_joinedBehind hs (derives_operand hlevel hus) pos
  have hwhole := hall.loosen (precedence_bounds op).1 hlevel
  refine writes_of_derives ?_ hlast hwhole
  rw [tokenize, toList_joined, hgroup, hvs, List.append_assoc]
  rfl

/-- A source between parentheses behind an operator parses to the operator before its tree. -/
theorem writes_prefixed (op : UnaryOperator) {source : String} {e : Expr} (h : Writes source e) :
    Writes (prefixed op source) (.unary op e) := by
  obtain ⟨us, pos, hus, hgroup⟩ := readAll_grouped h true 1
  let t : Token := word .operator op.symbol
  have ht : WritesUnary op t := ⟨rfl, by cases op <;> decide⟩
  have hunary : Derives ParserReads (.unary (.unary op e)) (t :: us) :=
    .prefixed ht (.postfixed (.base hus))
  have hread : readAll true 0 (prefixed op source).toList =
      (readAll true 1 (grouped source).toList).map (t :: ·) := by
    rw [prefixed, String.toList_append, toList_grouped]
    cases op with
    | not =>
      have hop : readLexeme true '!' ('(' :: (source.toList ++ [')'])) =
          .ok ⟨.operator, ['!'], 1⟩ := rfl
      exact readAll_lexeme (by decide) hop 0
    | negate =>
      have hop : readLexeme true '-' ('(' :: (source.toList ++ [')'])) =
          .ok ⟨.operator, ['-'], 1⟩ := rfl
      exact readAll_lexeme (by decide) hop 0
  have hwhole := hgroup []
  rw [List.append_nil, readAll_nil] at hwhole
  have htokens : tokenize (prefixed op source) = .ok (t :: us ++ [⟨.eof, "", "", pos⟩]) := by
    rw [tokenize, hread, hwhole]
    rfl
  exact writes_of_derives htokens rfl
    ((Derives.operand hunary).loosen (by decide) (by decide))

/-! ## Truth of what connectives join -/

section Truth

variable (s : Scope)

theorem holds_and (left right : Expr) : (binary .and left right).holds s =
    (do if ← left.holds s then right.holds s else return false) := by
  unfold holds
  rw [eval]
  cases left.eval s with
  | error f => rfl
  | ok v =>
    show Except.map _ (if v.isTruthy then _ else _) = if v.isTruthy then _ else _
    split
    · rfl
    · next hv => exact congrArg Except.ok (Bool.eq_false_iff.mpr hv)

theorem holds_or (left right : Expr) : (binary .or left right).holds s =
    (do if ← left.holds s then return true else right.holds s) := by
  unfold holds
  rw [eval]
  cases left.eval s with
  | error f => rfl
  | ok v =>
    show Except.map _ (if v.isTruthy then _ else _) = if v.isTruthy then _ else _
    split
    · next hv => exact congrArg Except.ok hv
    · rfl

theorem holds_not (e : Expr) : (unary .not e).holds s = (e.holds s).map (!·) := by
  unfold holds
  rw [eval]
  cases e.eval s <;> rfl

/-- A chain of `&&` stops at the operand at which the filters for its operands do. -/
theorem holds_chain_and (e : Expr) (es : List Expr) :
    (chain .and e es).holds s = Filter.allPass ((e :: es).map .expression) s := by
  induction es generalizing e with
  | nil => exact (Filter.allPass_singleton (.expression e)).symm
  | cons e' es ih =>
    have hfront : chain .and e (e' :: es) = chain .and (.binary .and e e') es := rfl
    rw [hfront, ih, List.map_cons, List.map_cons, List.map_cons, Filter.allPass, Filter.allPass,
      Filter.allPass, Filter.passes, Filter.passes, Filter.passes, holds_and]
    cases e.holds s with
    | error f => rfl
    | ok passes => cases passes <;> rfl

/-- A chain of `||` stops at the operand at which the filters for its operands do. -/
theorem holds_chain_or (e : Expr) (es : List Expr) :
    (chain .or e es).holds s = Filter.anyPasses ((e :: es).map .expression) s := by
  induction es generalizing e with
  | nil =>
    rw [List.map_singleton, Filter.anyPasses, Filter.passes]
    show e.holds s = _
    cases e.holds s with
    | error f => rfl
    | ok passes => cases passes <;> rfl
  | cons e' es ih =>
    have hfront : chain .or e (e' :: es) = chain .or (.binary .or e e') es := rfl
    rw [hfront, ih, List.map_cons, List.map_cons, List.map_cons, Filter.anyPasses,
      Filter.anyPasses, Filter.anyPasses, Filter.passes, Filter.passes, Filter.passes, holds_or]
    cases e.holds s with
    | error f => rfl
    | ok passes => cases passes <;> rfl

end Truth

end Expr

namespace Filter

open NoteQuery.Expr

/-! ## Groups of sources -/

/-- A filter of a single source. -/
def sources (texts : List String) : List FilterSpec :=
  texts.map .expression

/-- Both filters can be prepared, and they do the same with every row: they let it pass, or they
do not, or they fail for the same reason. -/
def Agree (spec spec' : FilterSpec) : Prop :=
  ∃ f g, ofSpec spec = .ok (some f) ∧ ofSpec spec' = .ok (some g) ∧
    ∀ s : Scope, f.passes s = g.passes s

theorem ofSpec_expression {source : String} {e : Expr} (h : Writes source e) :
    ofSpec (.expression source) = .ok (some (expression e)) := by
  have hparse : parse source = .ok e := h
  rw [ofSpec, hparse]
  rfl

theorem ofSpecs_sources {texts : List String} {es : List Expr}
    (h : List.Forall₂ Writes texts es) : ofSpecs (sources texts) = .ok (es.map expression) := by
  induction h with
  | nil => rfl
  | @cons source e texts es hsource _ ih =>
    rw [sources, List.map_cons, ← sources, ofSpecs, ofSpec_expression hsource, ih]
    rfl

theorem ofSpec_all {texts : List String} {es : List Expr} (h : List.Forall₂ Writes texts es) :
    ofSpec (.group (some (sources texts)) none .always) =
      .ok (some (allOf (es.map expression))) := by
  rw [ofSpec, ofOptional, ofOptional, ofSpecs_sources h]
  rfl

theorem ofSpec_any {texts : List String} {es : List Expr} (h : List.Forall₂ Writes texts es) :
    ofSpec (.group none (some (sources texts)) .always) =
      .ok (some (anyOf (es.map expression))) := by
  rw [ofSpec, ofOptional, ofOptional, ofSpecs_sources h]
  rfl

theorem ofSpec_without {source : String} {e : Expr} (h : Writes source e) :
    ofSpec (.group none none (.expression source)) = .ok (some (negation (expression e))) := by
  rw [ofSpec, ofOptional, ofSpec_expression h]
  rfl

/-- Sources between parentheses parse to the operator between their trees, or before one.  All
sources of a group pass where the sources joined by `&&` do, some pass where the sources joined by
`||` do, and one is excluded where the source behind `!` is true. -/
theorem group_agrees {source : String} {texts : List String} {e : Expr} {es : List Expr}
    (h : Writes source e) (hs : List.Forall₂ Writes texts es) :
    (∀ op, Writes (joined op (source :: texts)) (chain op e es)) ∧
    (∀ op, Writes (prefixed op source) (.unary op e)) ∧
    Agree (.group (some (sources (source :: texts))) none .always)
      (.expression (joined .and (source :: texts))) ∧
    Agree (.group none (some (sources (source :: texts))) .always)
      (.expression (joined .or (source :: texts))) ∧
    Agree (.group none none (.expression source)) (.expression (prefixed .not source)) := by
  have hand := writes_joined .and h hs
  have hor := writes_joined .or h hs
  have hnot := writes_prefixed .not h
  refine ⟨fun op => writes_joined op h hs, fun op => writes_prefixed op h, ?_, ?_, ?_⟩
  · refine ⟨_, _, ofSpec_all (.cons h hs), ofSpec_expression hand, fun s => ?_⟩
    rw [passes, passes, holds_chain_and]
  · refine ⟨_, _, ofSpec_any (.cons h hs), ofSpec_expression hor, fun s => ?_⟩
    rw [List.map_cons, passes, passes, holds_chain_or, List.map_cons]
  · refine ⟨_, _, ofSpec_without h, ofSpec_expression hnot, fun s => ?_⟩
    rw [passes, passes, passes, holds_not]

/-- A slash that opens a pattern at the start of a source, and an operator that binds less than
the one that joins the sources. -/
theorem group_agrees_pattern :
    parse "/b/ == x" = .ok (.binary .equal (.literal (.pattern ⟨"b", "", .char {} (.code 98), 0⟩)
      "/b/") (.name "x")) ∧
    parse "y or !z" = .ok (.binary .or (.name "y") (.unary .not (.name "z"))) ∧
    joined .and ["/b/ == x", "y or !z"] = "(/b/ == x) && (y or !z)" ∧
    Agree (.group (some [.expression "/b/ == x", .expression "y or !z"]) none .always)
      (.expression (joined .and ["/b/ == x", "y or !z"])) := by
  have hfirst : parse "/b/ == x" = .ok (.binary .equal
      (.literal (.pattern ⟨"b", "", .char {} (.code 98), 0⟩) "/b/") (.name "x")) := by
    decide +kernel
  have hsecond : parse "y or !z" = .ok (.binary .or (.name "y") (.unary .not (.name "z"))) := by
    decide +kernel
  have hall := group_agrees hfirst (.cons hsecond .nil)
  exact ⟨hfirst, hsecond, by decide, hall.2.2.1⟩

end Filter

end NoteQuery
