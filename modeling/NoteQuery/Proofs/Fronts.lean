/-
Fronts of tokens behind which an operand may stand.

A front of tokens awaits an operand if there are tokens that complete it once an operand has been
put behind it (`Awaits`).  The rules of the grammar say which fronts do: an operator awaits its
right operand behind its left one, a bracket awaits what it encloses.

What each function of the parser does when it reads nothing is accounted for by such fronts
(`Outcome`): it refuses the tokens at one of them, or it breaks off at a token in front of which an
operand is awaited.  The induction is on the fuel, with all functions at once (`AccountedUpTo`); the
loops carry the tokens of what they have read so far.
-/
import NoteQuery.Proofs.Breaks
import NoteQuery.Proofs.Scanning

namespace NoteQuery.Grammar

open NoteQuery.Expr

/-! ## Fronts -/

/-- A token that is an operand wherever it stands. -/
def operand : Token :=
  Token.word .number "0"

/-- An operand behind the tokens makes them the front of such a phrase. -/
def Awaits {α : Type} (p : α → Phrase) (us : List Token) : Prop :=
  ∃ a tail, Derives ParserReads (p a) (us ++ operand :: tail)

theorem parserReads_operand : ParserReads operand (.literal (.number (.int 0)) "0") :=
  rfl

namespace Awaits

variable {us vs : List Token}

theorem nil : Awaits .primary [] :=
  ⟨_, [], .word parserReads_operand⟩

theorem base (h : Awaits .primary us) : Awaits .chain us := by
  obtain ⟨e, tail, hd⟩ := h
  exact ⟨e, tail, .base hd⟩

theorem postfixed (h : Awaits .chain us) : Awaits .unary us := by
  obtain ⟨e, tail, hd⟩ := h
  exact ⟨e, tail, .postfixed hd⟩

theorem prefixed {op : UnaryOperator} {t : Token} (ht : WritesUnary op t) (h : Awaits .unary us) :
    Awaits .unary (t :: us) := by
  obtain ⟨e, tail, hd⟩ := h
  exact ⟨_, tail, .prefixed ht hd⟩

theorem loosen {k m : Nat} (hk : k ≤ m) (hm : m ≤ 7) (h : Awaits (.level m) us) :
    Awaits (.level k) us := by
  obtain ⟨e, tail, hd⟩ := h
  exact ⟨e, tail, hd.loosen hk hm⟩

theorem level {k : Nat} (hk : k ≤ 7) (h : Awaits .unary us) : Awaits (.level k) us := by
  obtain ⟨e, tail, hd⟩ := h
  exact ⟨e, tail, (Derives.operand hd).loosen hk (Nat.le_refl 7)⟩

theorem right {k : Nat} {op : BinaryOperator} {t : Token} {left : Expr} (ht : WritesBinary k op t)
    (hleft : Derives ParserReads (.level k left) us) (h : Awaits (.level (k + 1)) vs) :
    Awaits (.level k) (us ++ t :: vs) := by
  obtain ⟨e, tail, hd⟩ := h
  have hboth := Derives.binary ht hleft hd
  refine ⟨.binary op left e, tail, ?_⟩
  rwa [List.append_assoc, List.cons_append]

/-- What is completed behind an opening mark is completed with the closing mark behind it. -/
theorem between {α β : Type} {p : α → Phrase} {q : β → Phrase} {opener : Token}
    (us : List Token) (closer : Char)
    (hq : ∀ a ws, Derives ParserReads (p a) ws →
      ∃ b, Derives ParserReads (q b) (us ++ opener :: (ws ++ [Token.mark closer])))
    (h : Awaits p vs) : Awaits q (us ++ opener :: vs) := by
  obtain ⟨a, tail, hd⟩ := h
  obtain ⟨b, hb⟩ := hq a _ hd
  refine ⟨b, tail ++ [Token.mark closer], ?_⟩
  simp only [List.append_assoc, List.cons_append] at hb ⊢
  exact hb

section Brackets

variable {opener : Token}

theorem index {e : Expr} (ho : IsMark "[" opener) (he : Derives ParserReads (.chain e) us)
    (h : Awaits (.level 1) vs) : Awaits .chain (us ++ opener :: vs) :=
  h.between us ']' fun _ _ hd => ⟨_, .index ho ⟨rfl, rfl⟩ he hd⟩

theorem call {e : Expr} (ho : IsMark "(" opener) (he : Derives ParserReads (.chain e) us)
    (h : Awaits .items vs) : Awaits .chain (us ++ opener :: vs) :=
  h.between us ')' fun _ _ hd => ⟨_, .call ho ⟨rfl, rfl⟩ he hd⟩

theorem group (ho : IsMark "(" opener) (h : Awaits (.level 1) us) :
    Awaits .primary (opener :: us) :=
  h.between [] ')' fun _ _ hd => ⟨_, .group ho ⟨rfl, rfl⟩ hd⟩

theorem list (ho : IsMark "[" opener) (h : Awaits .items us) : Awaits .primary (opener :: us) :=
  h.between [] ']' fun _ _ hd => ⟨_, .list ho ⟨rfl, rfl⟩ hd⟩

theorem object (ho : IsMark "\x7b" opener) (h : Awaits .pairs us) :
    Awaits .primary (opener :: us) :=
  h.between [] '\x7d' fun _ _ hd => ⟨_, .object ho ⟨rfl, rfl⟩ hd⟩

end Brackets

theorem items (h : Awaits .someItems us) : Awaits .items us := by
  obtain ⟨es, tail, hd⟩ := h
  exact ⟨es, tail, .items hd⟩

theorem firstItem (h : Awaits (.level 1) us) : Awaits .someItems us := by
  obtain ⟨e, tail, hd⟩ := h
  exact ⟨[e], tail, .lastItem hd⟩

theorem laterItem {e : Expr} {comma : Token} (hc : IsMark "," comma)
    (he : Derives ParserReads (.level 1 e) us) (h : Awaits .someItems vs) :
    Awaits .someItems (us ++ [comma] ++ vs) := by
  obtain ⟨es, tail, hd⟩ := h
  have hall := Derives.moreItems hc he hd
  refine ⟨e :: es, tail, ?_⟩
  rwa [← List.append_cons, List.append_assoc]

theorem pairs (h : Awaits .somePairs us) : Awaits .pairs us := by
  obtain ⟨ps, tail, hd⟩ := h
  exact ⟨ps, tail, .pairs hd⟩

section Pairs

variable {key colon : Token} (hkey : IsKey key) (hcolon : IsMark ":" colon)

include hkey hcolon

theorem firstPair (h : Awaits (.level 1) us) : Awaits .somePairs (key :: colon :: us) := by
  obtain ⟨e, tail, hd⟩ := h
  exact ⟨_, tail, .lastPair hkey hcolon hd⟩

theorem laterPair {e : Expr} {comma : Token} (hc : IsMark "," comma)
    (he : Derives ParserReads (.level 1 e) us) (h : Awaits .somePairs vs) :
    Awaits .somePairs (key :: colon :: (us ++ [comma]) ++ vs) := by
  obtain ⟨ps, tail, hd⟩ := h
  have hall := Derives.morePairs hkey hcolon hc he hd
  refine ⟨(key.text, e) :: ps, tail, ?_⟩
  simp only [List.cons_append, List.append_assoc, List.nil_append]
  exact hall

end Pairs

end Awaits

/-! ## Outcomes -/

/-- What may come of reading tokens: something is read of them, or they are refused at one of them,
or reading breaks off at one behind a front of a kind.  Where there are no tokens they are refused
at the start. -/
inductive Outcome {α : Type} (front : List Token → Prop) (ts : List Token) :
    Except ReadFailure (α × List Token) → Prop
  | reads (a : α) (rest : List Token) : Outcome front ts (.ok (a, rest))
  | refuses {e : SyntaxError} : (e.position = 0 ∨ ∃ t ∈ ts, t.first = e.position) →
      Outcome front ts (.error (.syntaxError e))
  | breaks {before after : List Token} {t : Token} {f : Fault} : ts = before ++ t :: after →
      t.Breaks f → front before → Outcome front ts (.error (.fault f))

namespace Outcome

variable {α β : Type} {front front' : List Token → Prop} {ts : List Token}

theorem mono {x : Except ReadFailure (α × List Token)} (h : Outcome front ts x)
    (hfront : ∀ before, front before → front' before) : Outcome front' ts x := by
  cases h with
  | reads a rest => exact .reads a rest
  | refuses he => exact .refuses he
  | breaks hts ht hbefore => exact .breaks hts ht (hfront _ hbefore)

/-- What comes of tokens behind others. -/
theorem behind {x : Except ReadFailure (α × List Token)} (us : List Token)
    (h : Outcome (fun before => front (us ++ before)) ts x) : Outcome front (us ++ ts) x := by
  cases h with
  | reads a rest => exact .reads a rest
  | refuses he =>
    refine .refuses (he.imp_right ?_)
    rintro ⟨t, ht, hfirst⟩
    exact ⟨t, List.mem_append_right us ht, hfirst⟩
  | breaks hts ht hbefore =>
    rw [hts, ← List.append_assoc]
    exact .breaks rfl ht hbefore

theorem bind {x : Except ReadFailure (α × List Token)}
    {f : α × List Token → Except ReadFailure (β × List Token)} (hx : Outcome front ts x)
    (hf : ∀ a rest, x = .ok (a, rest) → Outcome front ts (f (a, rest))) :
    Outcome front ts (x >>= f) := by
  cases hx with
  | reads a rest => exact hf a rest rfl
  | refuses he => exact .refuses he
  | breaks hts ht hbefore => exact .breaks hts ht hbefore

theorem current_first (ts : List Token) :
    (current ts).first = 0 ∨ ∃ t ∈ ts, t.first = (current ts).first := by
  cases ts with
  | nil => exact .inl rfl
  | cons t ts => exact .inr ⟨t, List.mem_cons_self, rfl⟩

theorem failHere (cause : SyntaxCause) :
    Outcome front ts (Expr.failHere cause ts : Except ReadFailure (α × List Token)) :=
  .refuses (current_first ts)

theorem failUnexpected :
    Outcome front ts (Expr.failUnexpected ts : Except ReadFailure (α × List Token)) :=
  .refuses (current_first ts)

theorem mark (us : List Token) {mark behind : String}
    {f : List Token → Except ReadFailure (α × List Token)}
    (hf : ∀ t rest, ts = t :: rest → IsMark mark t → Outcome front (us ++ ts) (f rest)) :
    Outcome front (us ++ ts) (expectMark mark behind ts >>= f) := by
  unfold expectMark
  split
  · next hmark =>
    obtain ⟨t, rest, rfl, ht⟩ := isMark_of_current hmark
    exact hf t rest rfl ht
  · exact Outcome.behind us (failHere _)

end Outcome

/-- With so much fuel what comes of each function is accounted for. -/
structure AccountedUpTo (fuel : Nat) : Prop where
  binary {least : Nat} (ts : List Token) : least ≤ 7 →
    Outcome (Awaits (.level least)) ts (parseBinary fuel least ts)
  operators (least : Nat) {m : Nat} {us ts : List Token} {left : Expr} : m ≤ 7 →
    Derives ParserReads (.level m left) us → Below (m + 1) ts →
    Outcome (fun before => Awaits (.level least) (us ++ before)) ts
      (parseOperators fuel least left ts)
  unary (ts : List Token) : Outcome (Awaits .unary) ts (parseUnary fuel ts)
  chain {us ts : List Token} {base : Expr} : Derives ParserReads (.chain base) us →
    Outcome (fun before => Awaits .chain (us ++ before)) ts (parsePostfix fuel base ts)
  primary (ts : List Token) : Outcome (Awaits .primary) ts (parsePrimary fuel ts)
  items (closer : String) (ts : List Token) : Outcome (Awaits .items) ts (parseItems fuel closer ts)
  moreItems (ts : List Token) : Outcome (Awaits .someItems) ts (parseMoreItems fuel ts)
  pairs (ts : List Token) : Outcome (Awaits .pairs) ts (parsePairs fuel ts)
  morePairs (ts : List Token) : Outcome (Awaits .somePairs) ts (parseMorePairs fuel ts)

/-- A token that is refused is refused at its place. -/
theorem first_of_ofToken? {t : Token} {e : SyntaxError}
    (h : ofToken? t = .error (.syntaxError e)) : e.position = t.first := by
  unfold ofToken? at h
  split at h
  · split at h <;> cases h
  · cases h
  · have hpattern : patternOf t = .error (.syntaxError e) := map_eq_error.mp h
    unfold patternOf at hpattern
    dsimp only at hpattern
    split at hpattern
    · cases hpattern
    · split at hpattern
      · cases hpattern
        rfl
      · cases hpattern
  · split at h <;> cases h
  · cases h

theorem accountedUpTo_zero : AccountedUpTo 0 where
  binary _ _ := .failUnexpected
  operators _ {_ _ _ _} _ _ _ := .failUnexpected
  unary _ := .failUnexpected
  chain _ := .failUnexpected
  primary _ := .failUnexpected
  items _ _ := .failUnexpected
  moreItems _ := .failUnexpected
  pairs _ := .failUnexpected
  morePairs _ := .failUnexpected

section Steps

variable {fuel : Nat} (ih : AccountedUpTo fuel)

include ih

theorem binary_accounted {least : Nat} (ts : List Token) (hl : least ≤ 7) :
    Outcome (Awaits (.level least)) ts (parseBinary (fuel + 1) least ts) := by
  rw [parseBinary]
  refine ((ih.unary ts).mono fun _ h => h.level hl).bind ?_
  intro left rest hleft
  obtain ⟨us, rfl, hd⟩ := (soundUpTo fuel).unary hleft
  have hbelow : Below 8 rest := by
    intro op _
    have := precedence_bounds op
    omega
  exact (ih.operators least (Nat.le_refl 7) (.operand hd) hbelow).behind us

theorem operators_accounted {least m : Nat} {us ts : List Token} {left : Expr}
    (hm : m ≤ 7) (hd : Derives ParserReads (.level m left) us) (hts : Below (m + 1) ts) :
    Outcome (fun before => Awaits (.level least) (us ++ before)) ts
      (parseOperators (fuel + 1) least left ts) := by
  rw [parseOperators]
  split
  · exact .reads _ _
  · next op hop =>
    split
    · exact .reads _ _
    · next hhigh =>
      obtain ⟨t, ts, rfl, ht⟩ := writesBinary_of_next hop
      have hop6 := (precedence_bounds op).2
      have hopm : op.precedence ≤ m := Nat.le_of_lt_succ (hts op hop)
      have hleft := hd.loosen hopm hm
      -- behind the operator the right operand is awaited
      have hright : Outcome (fun before => Awaits (.level least) (us ++ before)) (t :: ts)
          (parseBinary fuel (op.precedence + 1) ts) := by
        refine Outcome.behind [t] ((ih.binary ts (by omega)).mono ?_)
        intro before h
        exact (h.right ht hleft).loosen (Nat.le_of_not_lt hhigh) (by omega)
      refine hright.bind ?_
      intro right rest hrest
      obtain ⟨⟨vs, hvs, hr⟩, hbelow⟩ := (soundUpTo fuel).binary (by omega) hrest
      obtain rfl : ts = vs ++ rest := hvs
      have hboth := Derives.binary ht hleft hr
      have hmore := ih.operators least (by omega) hboth hbelow
      refine Outcome.behind (t :: vs) (hmore.mono ?_)
      intro before h
      rwa [List.append_assoc] at h

theorem unary_accounted (ts : List Token) :
    Outcome (Awaits .unary) ts (parseUnary (fuel + 1) ts) := by
  rw [parseUnary]
  split
  · next op hop =>
    obtain ⟨t, ts, rfl, ht⟩ := writesUnary_of_next hop
    have hoperand : Outcome (Awaits .unary) (t :: ts) (parseUnary fuel ts) := by
      refine Outcome.behind [t] ((ih.unary ts).mono ?_)
      intro before h
      exact h.prefixed ht
    refine hoperand.bind ?_
    intro operand rest _
    exact .reads _ _
  · refine ((ih.primary ts).mono fun _ h => h.base.postfixed).bind ?_
    intro base rest hbase
    obtain ⟨us, rfl, hd⟩ := (soundUpTo fuel).primary hbase
    refine ((ih.chain (.base hd)).mono ?_).behind us
    intro before h
    exact h.postfixed

theorem chain_accounted {us ts : List Token} {base : Expr}
    (hd : Derives ParserReads (.chain base) us) :
    Outcome (fun before => Awaits .chain (us ++ before)) ts (parsePostfix (fuel + 1) base ts) := by
  -- further accesses and calls, behind some that make the chain longer
  have hlonger {base' : Expr} (vs rest : List Token)
      (hd' : Derives ParserReads (.chain base') (us ++ vs)) :
      Outcome (fun before => Awaits .chain (us ++ before)) (vs ++ rest)
        (parsePostfix fuel base' rest) := by
    refine Outcome.behind vs ((ih.chain hd').mono ?_)
    intro before h
    rwa [List.append_assoc] at h
  simp only [parsePostfix]
  split
  · next hdot =>
    obtain ⟨dot, ts, rfl, hmark⟩ := isMark_of_current hdot
    split
    · next hname =>
      cases ts with
      | nil => cases hname
      | cons name ts => exact hlonger [dot, name] ts (.member hmark hname hd)
    · refine .refuses ((Outcome.current_first ts).imp_right ?_)
      rintro ⟨t, ht, hfirst⟩
      exact ⟨t, List.mem_cons_of_mem dot ht, hfirst⟩
  · split
    · next hopen =>
      obtain ⟨opener, ts, rfl, ho⟩ := isMark_of_current hopen
      have hposition : Outcome (fun before => Awaits .chain (us ++ before)) (opener :: ts)
          (parseBinary fuel 1 ts) :=
        Outcome.behind [opener] ((ih.binary ts (by decide)).mono fun _ h => h.index ho hd)
      refine hposition.bind ?_
      intro position rest hrest
      obtain ⟨⟨vs, hvs, hp⟩, -⟩ := (soundUpTo fuel).binary (by decide) hrest
      obtain rfl : ts = vs ++ rest := hvs
      refine Outcome.mark (opener :: vs) ?_
      rintro closer rest rfl hc
      have hmore := hlonger _ rest (.index ho hc hd hp)
      rwa [List.cons_append, List.append_assoc] at hmore
    · split
      · next hopen =>
        obtain ⟨opener, ts, rfl, ho⟩ := isMark_of_current hopen
        have hposition : Outcome (fun before => Awaits .chain (us ++ before)) (opener :: ts)
            (parseItems fuel ")" ts) :=
          Outcome.behind [opener] ((ih.items ")" ts).mono fun _ h => h.call ho hd)
        refine hposition.bind ?_
        intro arguments rest hrest
        obtain ⟨vs, hvs, hp⟩ := (soundUpTo fuel).items hrest
        obtain rfl : ts = vs ++ rest := hvs
        refine Outcome.mark (opener :: vs) ?_
        rintro closer rest rfl hc
        have hmore := hlonger _ rest (.call ho hc hd hp)
        rwa [List.cons_append, List.append_assoc] at hmore
      · exact .reads _ _

theorem primary_accounted (ts : List Token) :
    Outcome (Awaits .primary) ts (parsePrimary (fuel + 1) ts) := by
  -- what stands between two marks
  have hbetween {α : Type} {p : α → Phrase} {x : Except ReadFailure (α × List Token)}
      {opener : Token} {rest : List Token} {closer behind : String} {e : α → Expr}
      (hx : Outcome (Awaits p) rest x)
      (htakes : ∀ a rest', x = .ok (a, rest') → Takes (p a) rest rest')
      (hp : ∀ before, Awaits p before → Awaits .primary (opener :: before)) :
      Outcome (Awaits .primary) (opener :: rest) (x >>= fun a =>
        expectMark closer behind a.2 >>= fun rest => pure (e a.1, rest)) := by
    refine (Outcome.behind [opener] (hx.mono hp)).bind ?_
    intro a rest' hrest
    obtain ⟨us, rfl, -⟩ := htakes a rest' hrest
    refine Outcome.mark (opener :: us) ?_
    rintro t rest rfl _
    exact .reads _ _
  simp only [parsePrimary]
  cases htoken : ofToken? (current ts) with
  | error failure =>
    cases failure with
    | syntaxError e =>
      refine .refuses ?_
      rw [first_of_ofToken? htoken]
      exact Outcome.current_first ts
    | fault f =>
      have hbreaks := breaks_of_ofToken? htoken
      cases ts with
      | nil => exact absurd (mem_of_breaks hbreaks) List.not_mem_nil
      | cons t ts => exact .breaks (List.nil_append _).symm hbreaks .nil
  | ok word =>
    cases word with
    | some e => exact .reads _ _
    | none =>
      show Outcome _ ts (ite _ _ _)
      split
      · next hopen =>
        obtain ⟨opener, ts, rfl, ho⟩ := isMark_of_current hopen
        exact hbetween (e := fun e => e) (ih.binary ts (by decide))
          (fun _ _ h => ((soundUpTo fuel).binary (by decide) h).1) fun _ h => h.group ho
      · split
        · next hopen =>
          obtain ⟨opener, ts, rfl, ho⟩ := isMark_of_current hopen
          exact hbetween (e := .list) (ih.items "]" ts) (fun _ _ h => (soundUpTo fuel).items h)
            fun _ h => h.list ho
        · split
          · next hopen =>
            obtain ⟨opener, ts, rfl, ho⟩ := isMark_of_current hopen
            exact hbetween (e := .object) (ih.pairs ts) (fun _ _ h => (soundUpTo fuel).pairs h)
              fun _ h => h.object ho
          · exact .failUnexpected

theorem items_accounted (closer : String) (ts : List Token) :
    Outcome (Awaits .items) ts (parseItems (fuel + 1) closer ts) := by
  rw [parseItems]
  split
  · exact .reads _ _
  · exact (ih.moreItems ts).mono fun _ h => h.items

theorem moreItems_accounted (ts : List Token) :
    Outcome (Awaits .someItems) ts (parseMoreItems (fuel + 1) ts) := by
  rw [parseMoreItems]
  refine ((ih.binary ts (by decide)).mono fun _ h => h.firstItem).bind ?_
  intro item rest hitem
  obtain ⟨⟨us, rfl, hd⟩, -⟩ := (soundUpTo fuel).binary (by decide) hitem
  show Outcome _ _ (ite _ _ _)
  split
  · next hcomma =>
    obtain ⟨comma, rest, rfl, hmark⟩ := isMark_of_current hcomma
    rw [List.append_cons]
    have hlater : Outcome (Awaits .someItems) (us ++ [comma] ++ rest) (parseMoreItems fuel rest) :=
      ((ih.moreItems rest).mono fun _ h => h.laterItem hmark hd).behind _
    refine hlater.bind ?_
    intro items rest' _
    exact .reads _ _
  · exact .reads _ _

theorem pairs_accounted (ts : List Token) :
    Outcome (Awaits .pairs) ts (parsePairs (fuel + 1) ts) := by
  rw [parsePairs]
  split
  · exact .reads _ _
  · exact (ih.morePairs ts).mono fun _ h => h.pairs

theorem morePairs_accounted (ts : List Token) :
    Outcome (Awaits .somePairs) ts (parseMorePairs (fuel + 1) ts) := by
  simp only [parseMorePairs]
  split
  · exact .refuses (Outcome.current_first ts)
  next hkey =>
  simp only [Bool.and_eq_true, bne_iff_ne, ne_eq, Classical.not_and_iff_not_or_not,
    Classical.not_not] at hkey
  cases ts with
  | nil =>
    rcases hkey with h | h
    · cases h
    · cases h
  | cons key ts =>
    refine Outcome.mark [key] ?_
    rintro colon ts rfl hcolon
    have hvalue : Outcome (Awaits .somePairs) (key :: colon :: ts) (parseBinary fuel 1 ts) :=
      ((ih.binary ts (by decide)).mono fun _ h => h.firstPair hkey hcolon).behind [key, colon]
    refine hvalue.bind ?_
    intro value rest hrest
    obtain ⟨⟨us, rfl, hd⟩, -⟩ := (soundUpTo fuel).binary (by decide) hrest
    show Outcome _ _ (ite _ _ _)
    split
    · next hcomma =>
      obtain ⟨comma, rest, rfl, hmark⟩ := isMark_of_current hcomma
      rw [List.append_cons]
      have hlater : Outcome (Awaits .somePairs) (key :: colon :: (us ++ [comma]) ++ rest)
          (parseMorePairs fuel rest) :=
        ((ih.morePairs rest).mono fun _ h => h.laterPair hkey hcolon hmark hd).behind _
      refine hlater.bind ?_
      intro pairs rest' _
      exact .reads _ _
    · exact .reads _ _

end Steps

theorem accountedUpTo : ∀ fuel, AccountedUpTo fuel
  | 0 => accountedUpTo_zero
  | fuel + 1 =>
      have ih := accountedUpTo fuel
      { binary := binary_accounted ih
        operators := fun _ => operators_accounted ih
        unary := unary_accounted ih
        chain := chain_accounted ih
        primary := primary_accounted ih
        items := items_accounted ih
        moreItems := moreItems_accounted ih
        pairs := pairs_accounted ih
        morePairs := morePairs_accounted ih }

end NoteQuery.Grammar
