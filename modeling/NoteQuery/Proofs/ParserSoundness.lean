/-
What the parser reads is in the grammar.

Each function of the parser takes a front of the tokens that is the phrase it is there for.  The
loop over operators carries two facts: the tokens of the left operand so far are an expression
of some level `m` that is at least as tight as asked, and no operator tighter than `m` comes
next.  The second is what makes equal operators group to the left, and it is what the
right operand leaves behind.

The induction is on the fuel, with all functions at once (`SoundUpTo`); one lemma for each
function says what one more step of fuel allows.
-/
import NoteQuery.Proofs.Grammar
import NoteQuery.Proofs.Outcomes

namespace NoteQuery.Grammar

open NoteQuery.Expr

/-! ## Outcomes of the parser -/

theorem failUnexpected_ne_ok {α : Type} {ts : List Token} {a : α} :
    failUnexpected ts ≠ .ok a :=
  nofun

theorem isMark_of_current {mark : String} {ts : List Token}
    (h : (current ts).isPunctuation mark = true) : ∃ t rest, ts = t :: rest ∧ IsMark mark t := by
  cases ts with
  | nil => exact nomatch (isPunctuation_iff.mp h).1
  | cons t rest => exact ⟨t, rest, rfl, isPunctuation_iff.mp h⟩

theorem writesBinary_of_next {ts : List Token} {op : BinaryOperator}
    (h : binaryOperator? ts = some op) :
    ∃ t rest, ts = t :: rest ∧ WritesBinary op.precedence op t := by
  cases ts with
  | nil => exact nomatch h
  | cons t rest => exact ⟨t, rest, rfl, binaryOperator?_cons.mp h⟩

theorem writesUnary_of_next {ts : List Token} {op : UnaryOperator}
    (h : unaryOperator? ts = some op) : ∃ t rest, ts = t :: rest ∧ WritesUnary op t := by
  cases ts with
  | nil => exact nomatch h
  | cons t rest => exact ⟨t, rest, rfl, unaryOperator?_cons.mp h⟩

theorem isMark_of_expectMark {mark behind : String} {ts rest : List Token}
    (h : expectMark mark behind ts = .ok rest) : ∃ t, ts = t :: rest ∧ IsMark mark t := by
  unfold expectMark at h
  split at h
  · rename_i hm
    obtain ⟨t, rest', rfl, ht⟩ := isMark_of_current hm
    cases h
    exact ⟨t, rfl, ht⟩
  · exact nomatch h

/-! ## The invariant -/

/-- A front of the tokens is the phrase; the rest follows. -/
def Takes (p : Phrase) (ts rest : List Token) : Prop :=
  ∃ us, ts = us ++ rest ∧ Derives ParserReads p us

/-- A front of the tokens completes what stands before them to the phrase. -/
def Completes (p : Phrase) (us ts rest : List Token) : Prop :=
  ∃ vs, ts = vs ++ rest ∧ Derives ParserReads p (us ++ vs)

/-- No operator of the level or of a tighter one comes next. -/
def Below (k : Nat) (ts : List Token) : Prop :=
  ∀ op, binaryOperator? ts = some op → op.precedence < k

/-- With so much fuel each function takes the phrase that it is there for. -/
structure SoundUpTo (fuel : Nat) : Prop where
  binary {least : Nat} {ts rest : List Token} {e : Expr} : least ≤ 7 →
    parseBinary fuel least ts = .ok (e, rest) → Takes (.level least e) ts rest ∧ Below least rest
  operators {least m : Nat} {us ts rest : List Token} {left e : Expr} : least ≤ m → m ≤ 7 →
    Derives ParserReads (.level m left) us → Below (m + 1) ts →
    parseOperators fuel least left ts = .ok (e, rest) →
    Completes (.level least e) us ts rest ∧ Below least rest
  unary {ts rest : List Token} {e : Expr} :
    parseUnary fuel ts = .ok (e, rest) → Takes (.unary e) ts rest
  chain {us ts rest : List Token} {base e : Expr} : Derives ParserReads (.chain base) us →
    parsePostfix fuel base ts = .ok (e, rest) → Completes (.chain e) us ts rest
  primary {ts rest : List Token} {e : Expr} :
    parsePrimary fuel ts = .ok (e, rest) → Takes (.primary e) ts rest
  items {closer : String} {ts rest : List Token} {es : List Expr} :
    parseItems fuel closer ts = .ok (es, rest) → Takes (.items es) ts rest
  moreItems {ts rest : List Token} {es : List Expr} :
    parseMoreItems fuel ts = .ok (es, rest) → Takes (.someItems es) ts rest
  pairs {ts rest : List Token} {ps : List (String × Expr)} :
    parsePairs fuel ts = .ok (ps, rest) → Takes (.pairs ps) ts rest
  morePairs {ts rest : List Token} {ps : List (String × Expr)} :
    parseMorePairs fuel ts = .ok (ps, rest) → Takes (.somePairs ps) ts rest

theorem soundUpTo_zero : SoundUpTo 0 where
  binary _ h := absurd h failUnexpected_ne_ok
  operators _ _ _ _ h := absurd h failUnexpected_ne_ok
  unary h := absurd h failUnexpected_ne_ok
  chain _ h := absurd h failUnexpected_ne_ok
  primary h := absurd h failUnexpected_ne_ok
  items h := absurd h failUnexpected_ne_ok
  moreItems h := absurd h failUnexpected_ne_ok
  pairs h := absurd h failUnexpected_ne_ok
  morePairs h := absurd h failUnexpected_ne_ok

/-- Something between brackets, with the brackets. -/
theorem Takes.between {p : Phrase} {left right behind : String} {ts ts' rest : List Token}
    (ho : (current ts).isPunctuation left = true) (hp : Takes p ts.tail ts')
    (hc : expectMark right behind ts' = .ok rest) :
    ∃ opener us closer, ts = opener :: (us ++ [closer]) ++ rest ∧ IsMark left opener ∧
      IsMark right closer ∧ Derives ParserReads p us := by
  obtain ⟨opener, ts, rfl, hopener⟩ := isMark_of_current ho
  obtain ⟨closer, rfl, hcloser⟩ := isMark_of_expectMark hc
  obtain ⟨us, hus, hd⟩ := hp
  obtain rfl : ts = us ++ closer :: rest := hus
  refine ⟨opener, us, closer, ?_, hopener, hcloser, hd⟩
  simp only [List.append_assoc, List.cons_append, List.nil_append]

/-! ## One more step of fuel -/

section Steps

variable {fuel : Nat} (ih : SoundUpTo fuel)

include ih

theorem binary_succ {least : Nat} {ts rest : List Token} {e : Expr} (hl : least ≤ 7)
    (h : parseBinary (fuel + 1) least ts = .ok (e, rest)) :
    Takes (.level least e) ts rest ∧ Below least rest := by
  simp only [parseBinary, bind_eq_ok, Prod.exists] at h
  obtain ⟨left, ts', hleft, h⟩ := h
  obtain ⟨us, rfl, hd⟩ := ih.unary hleft
  have hbelow : Below 8 ts' := fun op _ => by have := precedence_bounds op; omega
  obtain ⟨⟨vs, rfl, he⟩, hrest⟩ := ih.operators hl (Nat.le_refl 7) (.operand hd) hbelow h
  exact ⟨⟨us ++ vs, (List.append_assoc ..).symm, he⟩, hrest⟩

theorem operators_succ {least m : Nat} {us ts rest : List Token} {left e : Expr}
    (hl : least ≤ m) (hm : m ≤ 7) (hd : Derives ParserReads (.level m left) us)
    (hts : Below (m + 1) ts) (h : parseOperators (fuel + 1) least left ts = .ok (e, rest)) :
    Completes (.level least e) us ts rest ∧ Below least rest := by
  have hstop : Completes (.level least left) us ts ts :=
    ⟨[], rfl, by rw [List.append_nil]; exact hd.loosen hl hm⟩
  rw [parseOperators] at h
  split at h
  · rename_i hnone
    cases h
    exact ⟨hstop, fun op hop => by rw [hnone] at hop; exact nomatch hop⟩
  · rename_i op hop
    split at h
    · rename_i hlow
      cases h
      exact ⟨hstop, fun op' hop' => by rw [hop] at hop'; cases hop'; exact hlow⟩
    · rename_i hhigh
      simp only [bind_eq_ok, Prod.exists] at h
      obtain ⟨right, ts', hright, h⟩ := h
      obtain ⟨t, ts, rfl, ht⟩ := writesBinary_of_next hop
      have hop6 := (precedence_bounds op).2
      have hopm : op.precedence ≤ m := Nat.le_of_lt_succ (hts op hop)
      -- The operator is no tighter than the left operand, which it may therefore take over.
      obtain ⟨⟨vs, hvs, hr⟩, hbelow⟩ := ih.binary (by omega) hright
      obtain rfl : ts = vs ++ ts' := hvs
      have hboth := Derives.binary ht (hd.loosen hopm hm) hr
      obtain ⟨⟨ws, rfl, he⟩, hrest⟩ := ih.operators (by omega) (by omega) hboth hbelow h
      refine ⟨⟨t :: (vs ++ ws), ?_, ?_⟩, hrest⟩
      · rw [List.cons_append, List.append_assoc]
      · rwa [List.append_assoc, List.cons_append] at he

theorem unary_succ {ts rest : List Token} {e : Expr}
    (h : parseUnary (fuel + 1) ts = .ok (e, rest)) : Takes (.unary e) ts rest := by
  rw [parseUnary] at h
  split at h
  · rename_i op hop
    simp only [bind_eq_ok, Prod.exists] at h
    obtain ⟨operand, ts', hoperand, h⟩ := h
    cases h
    obtain ⟨t, ts, rfl, ht⟩ := writesUnary_of_next hop
    obtain ⟨us, hus, hd⟩ := ih.unary hoperand
    obtain rfl : ts = us ++ rest := hus
    exact ⟨t :: us, rfl, .prefixed ht hd⟩
  · simp only [bind_eq_ok, Prod.exists] at h
    obtain ⟨base, ts', hbase, h⟩ := h
    obtain ⟨us, rfl, hd⟩ := ih.primary hbase
    obtain ⟨vs, rfl, he⟩ := ih.chain (.base hd) h
    exact ⟨us ++ vs, (List.append_assoc ..).symm, .postfixed he⟩

theorem chain_succ {us ts rest : List Token} {base e : Expr}
    (hd : Derives ParserReads (.chain base) us)
    (h : parsePostfix (fuel + 1) base ts = .ok (e, rest)) : Completes (.chain e) us ts rest := by
  simp only [parsePostfix] at h
  split at h
  · rename_i hdot
    obtain ⟨dot, ts, rfl, hmark⟩ := isMark_of_current hdot
    split at h
    · rename_i hname
      cases ts with
      | nil => exact nomatch hname
      | cons name ts =>
          obtain ⟨ws, hws, he⟩ := ih.chain (.member hmark hname hd) h
          obtain rfl : ts = ws ++ rest := hws
          refine ⟨dot :: name :: ws, rfl, ?_⟩
          rwa [List.append_assoc] at he
    · exact nomatch h
  · split at h
    · rename_i ho
      simp only [bind_eq_ok, Prod.exists] at h
      obtain ⟨position, ts', hp, ts'', hc, h⟩ := h
      obtain ⟨opener, vs, closer, rfl, ho, hc, hposition⟩ :=
        (ih.binary (by decide) hp).1.between ho hc
      obtain ⟨ws, rfl, he⟩ := ih.chain (.index ho hc hd hposition) h
      rw [List.append_assoc] at he
      exact ⟨_, (List.append_assoc ..).symm, he⟩
    · split at h
      · rename_i ho
        simp only [bind_eq_ok, Prod.exists] at h
        obtain ⟨arguments, ts', ha, ts'', hc, h⟩ := h
        obtain ⟨opener, vs, closer, rfl, ho, hc, harguments⟩ := (ih.items ha).between ho hc
        obtain ⟨ws, rfl, he⟩ := ih.chain (.call ho hc hd harguments) h
        rw [List.append_assoc] at he
        exact ⟨_, (List.append_assoc ..).symm, he⟩
      · cases h
        exact ⟨[], rfl, by rwa [List.append_nil]⟩

theorem primary_succ {ts rest : List Token} {e : Expr}
    (h : parsePrimary (fuel + 1) ts = .ok (e, rest)) : Takes (.primary e) ts rest := by
  simp only [parsePrimary, bind_eq_ok] at h
  obtain ⟨word, hword, h⟩ := h
  split at h
  · cases h
    cases ts with
    | nil => exact nomatch hword
    | cons t ts => exact ⟨[t], rfl, .word hword⟩
  · split at h
    · rename_i ho
      simp only [bind_eq_ok, Prod.exists] at h
      obtain ⟨e', ts', he, ts'', hc, h⟩ := h
      cases h
      obtain ⟨opener, us, closer, rfl, ho, hc, hd⟩ := (ih.binary (by decide) he).1.between ho hc
      exact ⟨_, rfl, .group ho hc hd⟩
    · split at h
      · rename_i ho
        simp only [bind_eq_ok, Prod.exists] at h
        obtain ⟨es, ts', hes, ts'', hc, h⟩ := h
        cases h
        obtain ⟨opener, us, closer, rfl, ho, hc, hd⟩ := (ih.items hes).between ho hc
        exact ⟨_, rfl, .list ho hc hd⟩
      · split at h
        · rename_i ho
          simp only [bind_eq_ok, Prod.exists] at h
          obtain ⟨ps, ts', hps, ts'', hc, h⟩ := h
          cases h
          obtain ⟨opener, us, closer, rfl, ho, hc, hd⟩ := (ih.pairs hps).between ho hc
          exact ⟨_, rfl, .object ho hc hd⟩
        · exact absurd h failUnexpected_ne_ok

theorem items_succ {closer : String} {ts rest : List Token} {es : List Expr}
    (h : parseItems (fuel + 1) closer ts = .ok (es, rest)) : Takes (.items es) ts rest := by
  rw [parseItems] at h
  split at h
  · cases h
    exact ⟨[], rfl, .noItems⟩
  · obtain ⟨us, rfl, hd⟩ := ih.moreItems h
    exact ⟨us, rfl, .items hd⟩

theorem moreItems_succ {ts rest : List Token} {es : List Expr}
    (h : parseMoreItems (fuel + 1) ts = .ok (es, rest)) : Takes (.someItems es) ts rest := by
  simp only [parseMoreItems, bind_eq_ok, Prod.exists] at h
  obtain ⟨item, ts', hitem, h⟩ := h
  obtain ⟨⟨us, rfl, hd⟩, -⟩ := ih.binary (by decide) hitem
  split at h
  · rename_i hcomma
    simp only [bind_eq_ok, Prod.exists] at h
    obtain ⟨items, ts'', hitems, h⟩ := h
    cases h
    obtain ⟨comma, ts, rfl, hmark⟩ := isMark_of_current hcomma
    obtain ⟨vs, hvs, hds⟩ := ih.moreItems hitems
    obtain rfl : ts = vs ++ rest := hvs
    refine ⟨us ++ comma :: vs, ?_, .moreItems hmark hd hds⟩
    rw [List.append_assoc, List.cons_append]
  · cases h
    exact ⟨us, rfl, .lastItem hd⟩

theorem pairs_succ {ts rest : List Token} {ps : List (String × Expr)}
    (h : parsePairs (fuel + 1) ts = .ok (ps, rest)) : Takes (.pairs ps) ts rest := by
  rw [parsePairs] at h
  split at h
  · cases h
    exact ⟨[], rfl, .noPairs⟩
  · obtain ⟨us, rfl, hd⟩ := ih.morePairs h
    exact ⟨us, rfl, .pairs hd⟩

theorem morePairs_succ {ts rest : List Token} {ps : List (String × Expr)}
    (h : parseMorePairs (fuel + 1) ts = .ok (ps, rest)) : Takes (.somePairs ps) ts rest := by
  simp only [parseMorePairs] at h
  split at h
  · exact nomatch h
  rename_i hkey
  simp only [Bool.and_eq_true, bne_iff_ne, ne_eq, Classical.not_and_iff_not_or_not,
    Classical.not_not] at hkey
  simp only [bind_eq_ok, Prod.exists] at h
  obtain ⟨ts', hcolon, value, ts'', hvalue, h⟩ := h
  obtain ⟨colon, hts, hcolon'⟩ := isMark_of_expectMark hcolon
  cases ts with
  | nil => exact nomatch hts
  | cons key ts =>
      cases hts
      obtain ⟨⟨us, rfl, hd⟩, -⟩ := ih.binary (by decide) hvalue
      split at h
      · rename_i hcomma
        simp only [bind_eq_ok, Prod.exists] at h
        obtain ⟨pairs, ts'', hpairs, h⟩ := h
        cases h
        obtain ⟨comma, ts, rfl, hmark⟩ := isMark_of_current hcomma
        obtain ⟨vs, hvs, hds⟩ := ih.morePairs hpairs
        obtain rfl : ts = vs ++ rest := hvs
        refine ⟨key :: colon :: (us ++ comma :: vs), ?_, .morePairs hkey hcolon' hmark hd hds⟩
        simp only [List.append_assoc, List.cons_append]
      · cases h
        exact ⟨key :: colon :: us, rfl, .lastPair hkey hcolon' hd⟩

end Steps

theorem soundUpTo : ∀ fuel, SoundUpTo fuel
  | 0 => soundUpTo_zero
  | fuel + 1 =>
      have ih := soundUpTo fuel
      { binary := binary_succ ih
        operators := operators_succ ih
        unary := unary_succ ih
        chain := chain_succ ih
        primary := primary_succ ih
        items := items_succ ih
        moreItems := moreItems_succ ih
        pairs := pairs_succ ih
        morePairs := morePairs_succ ih }

end NoteQuery.Grammar
