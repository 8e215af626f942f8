/-
Where the reading of an expression breaks off.

A text that is no expression has a syntax error.  There are texts, though, of which reading gives
neither an expression nor a syntax error: a token in them is a numeral that is too long, or a
pattern that asks for too many repetitions (`Token.Breaks`).  Nothing else makes reading break off
(`exists_breaks_of_parse`).

Each function of the parser is confined to the tokens that it is given: it leaves some of them, or
breaks off at one of them, or refuses them.  The induction is on the fuel, with all functions at
once (`ConfinedUpTo`).
-/
import NoteQuery.Proofs.Accepting

namespace NoteQuery

open NoteQuery.Expr

/-- Reading breaks off at the token: it is an integer of too many digits, or a pattern that repeats
something too often. -/
inductive Token.Breaks (t : Token) : Fault → Prop
  | numeral : t.kind = .number → '.' ∉ t.text.toList → 4300 < t.text.length →
      Breaks t (.tooManyDigits t.text.length)
  | pattern : t.kind = .pattern →
      Pattern.create (patternParts t.text).1 (patternParts t.text).2 = .error .repeatTooLarge →
        Breaks t .repeatTooLarge

/-! ## Single tokens -/

theorem Pattern.kind_of_create {body flags : String} {f : Fault}
    (h : Pattern.create body flags = .error f) : f.kind = .value ∨ f = .repeatTooLarge := by
  unfold Pattern.create at h
  split at h
  · cases h
    exact .inl rfl
  · have hread := map_eq_error.mp h
    unfold Pattern.read at hread
    dsimp only at hread
    split at hread
    · cases hread
    · cases hread
      exact .inr rfl
    all_goals
      cases hread
      exact .inl rfl

namespace Expr

theorem breaks_of_patternOf {t : Token} {f : Fault} (hkind : t.kind = .pattern)
    (h : patternOf t = .error (.fault f)) : t.Breaks f := by
  simp only [patternOf] at h
  split at h
  · cases h
  · next g hcreate =>
    split at h
    · cases h
    · next hvalue =>
      cases h
      obtain rfl := (Pattern.kind_of_create hcreate).resolve_left hvalue
      exact .pattern hkind hcreate

theorem breaks_of_numeral {t : Token} {f : Fault} (hkind : t.kind = .number)
    (h : Number.ofNumeral t.text.toList = .error f) : t.Breaks f := by
  by_cases hpoint : '.' ∈ t.text.toList
  · obtain ⟨ws, ps, htext, hws⟩ := List.eq_append_cons_of_mem hpoint
    rw [htext, Grammar.ofNumeral_fraction hws] at h
    cases h
  · rw [Grammar.ofNumeral_integer hpoint] at h
    split at h
    · next hlength =>
      cases h
      exact .numeral hkind hpoint hlength
    · cases h

theorem breaks_of_ofToken? {t : Token} {f : Fault} (h : ofToken? t = .error (.fault f)) :
    t.Breaks f := by
  unfold ofToken? at h
  split at h
  · next hkind =>
    split at h
    · cases h
    · next hnumeral =>
      cases h
      exact breaks_of_numeral hkind hnumeral
  · cases h
  · next hkind => exact breaks_of_patternOf hkind (map_eq_error.mp h)
  · split at h
    · cases h
    · cases h
  · cases h

/-- There is a token where there is something to break off at. -/
theorem mem_of_breaks {ts : List Token} {f : Fault} (h : (current ts).Breaks f) :
    current ts ∈ ts := by
  cases ts with
  | nil =>
    rcases h with ⟨hkind, -, -⟩ | ⟨hkind, -⟩
    · cases hkind
    · cases hkind
  | cons t ts => exact List.mem_cons_self

/-! ## What a function of the parser does with its tokens -/

/-- What may come of reading tokens: some of them are left, or reading breaks off at one of them,
or they write nothing of the kind. -/
inductive Confined {α : Type} (ts : List Token) : Except ReadFailure (α × List Token) → Prop
  | leaves {a : α} {rest : List Token} : rest ⊆ ts → Confined ts (.ok (a, rest))
  | breaks {t : Token} {f : Fault} : t ∈ ts → t.Breaks f → Confined ts (.error (.fault f))
  | refuses (e : SyntaxError) : Confined ts (.error (.syntaxError e))

namespace Confined

variable {α β : Type} {ts : List Token}

theorem mono {us : List Token} {x : Except ReadFailure (α × List Token)} (h : Confined us x)
    (hus : us ⊆ ts) : Confined ts x := by
  cases h with
  | leaves hrest => exact .leaves (List.Subset.trans hrest hus)
  | breaks ht hbreaks => exact .breaks (hus ht) hbreaks
  | refuses e => exact .refuses e

theorem bind {x : Except ReadFailure (α × List Token)}
    {f : α × List Token → Except ReadFailure (β × List Token)} (hx : Confined ts x)
    (hf : ∀ a us, Confined us (f (a, us))) : Confined ts (x >>= f) := by
  cases hx with
  | leaves hrest => exact (hf _ _).mono hrest
  | breaks ht hbreaks => exact .breaks ht hbreaks
  | refuses e => exact .refuses e

/-- Behind a mark there are the tokens behind it. -/
theorem mark {mark behind : String} {f : List Token → Except ReadFailure (α × List Token)}
    (hf : Confined ts.tail (f ts.tail)) : Confined ts (expectMark mark behind ts >>= f) := by
  unfold expectMark
  split
  · exact hf.mono (List.tail_subset ts)
  · exact .refuses _

theorem behind {x : Except ReadFailure (α × List Token)} (h : Confined ts.tail x) :
    Confined ts x :=
  h.mono (List.tail_subset ts)

end Confined

/-- With so much fuel each function is confined to its tokens. -/
structure ConfinedUpTo (fuel : Nat) : Prop where
  binary (least : Nat) (ts : List Token) : Confined ts (parseBinary fuel least ts)
  operators (least : Nat) (left : Expr) (ts : List Token) :
    Confined ts (parseOperators fuel least left ts)
  unary (ts : List Token) : Confined ts (parseUnary fuel ts)
  chain (base : Expr) (ts : List Token) : Confined ts (parsePostfix fuel base ts)
  primary (ts : List Token) : Confined ts (parsePrimary fuel ts)
  items (closer : String) (ts : List Token) : Confined ts (parseItems fuel closer ts)
  moreItems (ts : List Token) : Confined ts (parseMoreItems fuel ts)
  pairs (ts : List Token) : Confined ts (parsePairs fuel ts)
  morePairs (ts : List Token) : Confined ts (parseMorePairs fuel ts)

theorem confinedUpTo_zero : ConfinedUpTo 0 where
  binary _ _ := .refuses _
  operators _ _ _ := .refuses _
  unary _ := .refuses _
  chain _ _ := .refuses _
  primary _ := .refuses _
  items _ _ := .refuses _
  moreItems _ := .refuses _
  pairs _ := .refuses _
  morePairs _ := .refuses _

section Steps

variable {fuel : Nat} (ih : ConfinedUpTo fuel) (ts : List Token)

include ih

theorem confined_binary (least : Nat) : Confined ts (parseBinary (fuel + 1) least ts) := by
  rw [parseBinary]
  refine (ih.unary ts).bind ?_
  intro left us
  exact ih.operators least left us

theorem confined_operators (least : Nat) (left : Expr) :
    Confined ts (parseOperators (fuel + 1) least left ts) := by
  rw [parseOperators]
  split
  · exact .leaves (List.Subset.refl ts)
  · split
    · exact .leaves (List.Subset.refl ts)
    · refine ((ih.binary _ ts.tail).bind ?_).behind
      intro right us
      exact ih.operators least _ us

theorem confined_unary : Confined ts (parseUnary (fuel + 1) ts) := by
  rw [parseUnary]
  split
  · refine ((ih.unary ts.tail).bind ?_).behind
    intro operand us
    exact .leaves (List.Subset.refl us)
  · refine (ih.primary ts).bind ?_
    intro base us
    exact ih.chain base us

theorem confined_postfix (base : Expr) : Confined ts (parsePostfix (fuel + 1) base ts) := by
  simp only [parsePostfix]
  split
  · split
    · exact (ih.chain _ ts.tail.tail).behind.behind
    · exact .refuses _
  · split
    · refine ((ih.binary 1 ts.tail).bind ?_).behind
      intro position us
      exact .mark (ih.chain _ us.tail)
    · split
      · refine ((ih.items ")" ts.tail).bind ?_).behind
        intro arguments us
        exact .mark (ih.chain _ us.tail)
      · exact .leaves (List.Subset.refl ts)

theorem confined_primary : Confined ts (parsePrimary (fuel + 1) ts) := by
  -- what stands between two marks
  have hbetween {α : Type} {x : Except ReadFailure (α × List Token)} {closer behind : String}
      {e : α → Expr} (hx : Confined ts.tail x) :
      Confined ts (x >>= fun p => expectMark closer behind p.2 >>= fun rest =>
        pure (e p.1, rest)) := by
    refine (hx.bind ?_).behind
    intro a us
    exact .mark (.leaves (List.Subset.refl us.tail))
  simp only [parsePrimary]
  cases htoken : ofToken? (current ts) with
  | error failure =>
    cases failure with
    | syntaxError e => exact .refuses e
    | fault f =>
      have hbreaks := breaks_of_ofToken? htoken
      exact .breaks (mem_of_breaks hbreaks) hbreaks
  | ok word =>
    cases word with
    | some e => exact .leaves (List.tail_subset ts)
    | none =>
      show Confined ts (ite _ _ _)
      split
      · exact hbetween (e := fun e => e) (ih.binary 1 ts.tail)
      · split
        · exact hbetween (e := .list) (ih.items "]" ts.tail)
        · split
          · exact hbetween (e := .object) (ih.pairs ts.tail)
          · exact .refuses _

theorem confined_items (closer : String) : Confined ts (parseItems (fuel + 1) closer ts) := by
  rw [parseItems]
  split
  · exact .leaves (List.Subset.refl ts)
  · exact ih.moreItems ts

theorem confined_moreItems : Confined ts (parseMoreItems (fuel + 1) ts) := by
  rw [parseMoreItems]
  refine (ih.binary 1 ts).bind ?_
  intro item us
  show Confined us (ite _ _ _)
  split
  · refine ((ih.moreItems us.tail).bind ?_).behind
    intro items vs
    exact .leaves (List.Subset.refl vs)
  · exact .leaves (List.Subset.refl us)

theorem confined_pairs : Confined ts (parsePairs (fuel + 1) ts) := by
  rw [parsePairs]
  split
  · exact .leaves (List.Subset.refl ts)
  · exact ih.morePairs ts

theorem confined_morePairs : Confined ts (parseMorePairs (fuel + 1) ts) := by
  simp only [parseMorePairs]
  split
  · exact .refuses _
  · refine (Confined.mark ?_).behind
    refine (ih.binary 1 ts.tail.tail).bind ?_
    intro value us
    show Confined us (ite _ _ _)
    split
    · refine ((ih.morePairs us.tail).bind ?_).behind
      intro pairs vs
      exact .leaves (List.Subset.refl vs)
    · exact .leaves (List.Subset.refl us)

end Steps

theorem confinedUpTo : ∀ fuel, ConfinedUpTo fuel
  | 0 => confinedUpTo_zero
  | fuel + 1 =>
      have ih := confinedUpTo fuel
      { binary := fun least ts => confined_binary ih ts least
        operators := fun least left ts => confined_operators ih ts least left
        unary := confined_unary ih
        chain := fun base ts => confined_postfix ih ts base
        primary := confined_primary ih
        items := fun closer ts => confined_items ih ts closer
        moreItems := confined_moreItems ih
        pairs := confined_pairs ih
        morePairs := confined_morePairs ih }

/-! ## Whole texts -/

/-- Where reading breaks off there is a token at which it does. -/
theorem exists_breaks_of_parse {source : String} {f : Fault}
    (h : Expr.parse source = .error (.fault f)) :
    ∃ tokens, tokenize source = .ok tokens ∧ ∃ t ∈ tokens, t.Breaks f := by
  unfold Expr.parse at h
  split at h
  · next tokens htokens =>
    refine ⟨tokens, htokens, ?_⟩
    unfold ofTokens at h
    split at h
    · cases h
    · rcases bind_eq_error.mp h with h | ⟨⟨e, rest⟩, -, h⟩
      · have hconfined := (confinedUpTo (fuelFor tokens)).binary 1 tokens
        rw [h] at hconfined
        cases hconfined with
        | breaks ht hbreaks => exact ⟨_, ht, hbreaks⟩
      · dsimp only at h
        split at h
        · cases h
        · cases h
  · cases h

end Expr

end NoteQuery
