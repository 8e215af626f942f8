/-
The parser accepts exactly its grammar.

`ofTokens_iff_derives` is about the grammar over the parser's own reading of single tokens.  The
grammar itself reads them by `Reads`, which knows no bound on the length of a numeral; the
parser refuses integers of more than 4300 digits, so the two meet on tokens that are
`Readable`.

Tokens that are not readable still derive at most one tree (`Derives.unique`).  The parser says
so once every numeral is replaced by a zero that keeps the number in its text, from where it can
be put back.
-/
import NoteQuery.Proofs.ParserCompleteness
import Mathlib.Data.List.TakeWhile
import Mathlib.Data.Countable.Basic
import Mathlib.Logic.Equiv.List
import Mathlib.Tactic.DeriveCountable

namespace NoteQuery.Grammar

open NoteQuery.Expr

/-! ## The whole of the tokens -/

theorem beforeEnd_of_eof {ts : List Token} (h : (current ts).kind = .eof) :
    beforeEnd ts = [] := by
  cases ts with
  | nil => rfl
  | cons t ts =>
      rw [current_cons] at h
      exact List.takeWhile_cons_of_neg (by rw [h]; decide)

theorem beforeEnd_append {us rest : List Token} (hus : ∀ t ∈ us, t.kind ≠ .eof)
    (hrest : (current rest).kind = .eof) : beforeEnd (us ++ rest) = us := by
  have hrest := beforeEnd_of_eof hrest
  unfold beforeEnd at hrest ⊢
  rw [List.takeWhile_append_of_pos fun t ht => bne_iff_ne.mpr (hus t ht), hrest, List.append_nil]

/-- The tokens before the end are followed by it. -/
theorem exists_eq_beforeEnd_append (ts : List Token) :
    ∃ rest, ts = beforeEnd ts ++ rest ∧ (current rest).kind = .eof := by
  induction ts with
  | nil => exact ⟨[], rfl, rfl⟩
  | cons t ts ih =>
      by_cases hk : (current (t :: ts)).kind = .eof
      · exact ⟨t :: ts, by rw [beforeEnd_of_eof hk, List.nil_append], hk⟩
      · obtain ⟨rest, hts, hrest⟩ := ih
        refine ⟨rest, ?_, hrest⟩
        have hcons : beforeEnd (t :: ts) = t :: beforeEnd ts :=
          List.takeWhile_cons_of_pos (bne_iff_ne.mpr hk)
        rw [hcons, List.cons_append, ← hts]

theorem Derives.kind_ne_eof {p : Phrase} {us : List Token} (h : Derives ParserReads p us) :
    ∀ t ∈ us, t.kind ≠ .eof := by
  refine h.forall_tokens (fun t ht => ?_) fun t e ht => ht.kind.2.2
  rcases ht with hk | hk | hk | hk <;>
  · rw [hk]
    decide

theorem endsChain_of_eof {ts : List Token} (h : (current ts).kind = .eof) : EndsChain ts :=
  fun _ _ => isPunctuation_of_kind (by rw [h]; decide)

theorem below_of_eof {k : Nat} {ts : List Token} (h : (current ts).kind = .eof) :
    Below k ts := by
  intro op hop
  cases ts with
  | nil => exact nomatch hop
  | cons t ts =>
      rw [current_cons] at h
      exact absurd (binaryOperator?_cons.mp hop).1 (by rw [h]; decide)

/-- The parser gives a tree exactly if the tokens before the end derive it. -/
theorem ofTokens_iff_derives {ts : List Token} {e : Expr} :
    ofTokens ts = .ok e ↔ Derives ParserReads (.level 1 e) (beforeEnd ts) := by
  constructor
  · intro h
    unfold ofTokens at h
    split at h
    · exact nomatch h
    simp only [bind_eq_ok, Prod.exists] at h
    obtain ⟨e', rest, he, h⟩ := h
    split at h
    · rename_i hrest
      cases h
      obtain ⟨⟨us, rfl, hd⟩, -⟩ := (soundUpTo _).binary (by decide) he
      rwa [beforeEnd_append hd.kind_ne_eof hrest]
    · exact nomatch h
  · intro h
    obtain ⟨rest, hts, hrest⟩ := exists_eq_beforeEnd_append ts
    obtain ⟨t, us, hus, -⟩ := h.exists_first fun h => h
    have hfirst : (current ts).kind ≠ .eof := fun hk => by
      rw [beforeEnd_of_eof hk] at hus
      exact nomatch hus
    have hfuel : fuelFor ts ≥ 8 * (beforeEnd ts).length + 1 := by
      have hlength := congrArg List.length hts
      rw [List.length_append] at hlength
      unfold fuelFor
      omega
    have hparse := h.parses.whole (Nat.le_refl 1) (endsChain_of_eof hrest) (below_of_eof hrest)
      (below_of_eof hrest) (fuelFor ts) hfuel
    rw [← hts] at hparse
    unfold ofTokens
    rw [if_neg hfirst]
    show (parseBinary (fuelFor ts) 1 ts >>= _) = _
    rw [hparse]
    exact if_pos hrest

/-! ## Single tokens -/

/-- The token can be read: it is no integer of more than 4300 digits. -/
def Readable (t : Token) : Prop :=
  t.kind = .number → '.' ∈ t.text.toList ∨ t.text.length ≤ 4300

theorem ofNumeral_integer {cs : List Char} (h : '.' ∉ cs) :
    Number.ofNumeral cs = if 4300 < cs.length then .error (.tooManyDigits cs.length)
      else .ok (.int (Text.digitsValue cs)) := by
  have hcs : cs.takeWhile (· != '.') = cs := by
    refine List.takeWhile_eq_self_iff.mpr fun c hc => bne_iff_ne.mpr ?_
    rintro rfl
    exact h hc
  rw [Number.ofNumeral, hcs, List.drop_length]

theorem ofNumeral_fraction {ws ps : List Char} (h : '.' ∉ ws) :
    Number.ofNumeral (ws ++ '.' :: ps) =
      .ok (.float (Binary64.ofDecimal false (Text.digitsValue (ws ++ ps)) (-ps.length))) := by
  have hpos : ∀ c ∈ ws, (c != '.') = true := by
    intro c hc
    rw [bne_iff_ne]
    rintro rfl
    exact h hc
  have hws : (ws ++ '.' :: ps).takeWhile (· != '.') = ws := by
    rw [List.takeWhile_append_of_pos hpos, List.takeWhile_cons_of_neg (by decide), List.append_nil]
  rw [Number.ofNumeral, hws, List.drop_left]

/-- A numeral is read as the number that it writes, if it is not too long an integer. -/
theorem ofNumeral_iff {cs : List Char} {n : Number} :
    Number.ofNumeral cs = .ok n ↔ Numeral cs n ∧ ('.' ∈ cs ∨ cs.length ≤ 4300) := by
  constructor
  · intro h
    by_cases hpoint : '.' ∈ cs
    · obtain ⟨ws, ps, rfl, hws⟩ := List.eq_append_cons_of_mem hpoint
      rw [ofNumeral_fraction hws] at h
      cases h
      exact ⟨.fraction hws, .inl hpoint⟩
    · rw [ofNumeral_integer hpoint] at h
      split at h
      · exact nomatch h
      · rename_i hlength
        cases h
        exact ⟨.integer hpoint, .inr (Nat.le_of_not_lt hlength)⟩
  · rintro ⟨hn, hlength⟩
    cases hn with
    | integer hpoint =>
        rw [ofNumeral_integer hpoint, if_neg (Nat.not_lt.mpr (hlength.resolve_left hpoint))]
    | fraction hws => exact ofNumeral_fraction hws

theorem keyword?_iff {word : String} {value : Literal} :
    keyword? word = some value ↔
      (word, value) ∈ [("true", Literal.bool true), ("false", .bool false), ("null", .null)] :=
  lookup_eq_some_iff_mem (by decide)

theorem keyword?_eq_none_iff {word : String} :
    keyword? word = none ↔ word ∉ ["true", "false", "null"] := by
  rw [keyword?, List.lookup_eq_none_iff]
  simp only [List.mem_cons, List.not_mem_nil, bne_iff_ne, ne_eq, or_false, not_or,
    forall_eq_or_imp, forall_eq]

/-- The parser reads single tokens as the grammar does, if they can be read. -/
theorem parserReads_iff {t : Token} {e : Expr} :
    ParserReads t e ↔ Reads t e ∧ Readable t := by
  constructor
  · intro h
    unfold ParserReads ofToken? at h
    split at h
    · rename_i hk
      split at h
      · rename_i n hn
        obtain ⟨hnumeral, hlength⟩ := ofNumeral_iff.mp hn
        cases h
        exact ⟨.number hk hnumeral, fun _ => hlength⟩
      · exact nomatch h
    · rename_i hk
      cases h
      exact ⟨.string hk, fun h => by rw [hk] at h; exact nomatch h⟩
    · rename_i hk
      cases hp : patternOf t with
      | error f =>
          rw [hp] at h
          exact nomatch h
      | ok p =>
          rw [hp] at h
          cases h
          exact ⟨.pattern hk hp, fun h => by rw [hk] at h; exact nomatch h⟩
    · rename_i hk
      refine ⟨?_, fun h => by rw [hk] at h; exact nomatch h⟩
      split at h
      · rename_i value hvalue
        cases h
        exact .keyword hk (keyword?_iff.mp hvalue)
      · rename_i hnone
        cases h
        exact .name hk (keyword?_eq_none_iff.mp hnone)
    · exact nomatch h
  · rintro ⟨h, hreadable⟩
    unfold ParserReads ofToken?
    cases h with
    | number hk hn => rw [hk, ofNumeral_iff.mpr ⟨hn, hreadable hk⟩]
    | string hk => rw [hk]
    | pattern hk hp =>
        rw [hk, hp]
        rfl
    | keyword hk hvalue => rw [hk, keyword?_iff.mpr hvalue]
    | name hk hname => rw [hk, keyword?_eq_none_iff.mpr hname]

/-- What the parser derives is what the grammar derives from tokens that can be read. -/
theorem derives_parserReads_iff {p : Phrase} {us : List Token} :
    Derives ParserReads p us ↔ Derives Reads p us ∧ ∀ t ∈ us, Readable t := by
  constructor
  · intro h
    refine ⟨h.mono fun t _ e ht => (parserReads_iff.mp ht).1, ?_⟩
    refine h.forall_tokens (fun t ht hk => ?_) fun t e ht => (parserReads_iff.mp ht).2
    rcases ht with ht | ht | ht | ht <;>
    · rw [ht] at hk
      exact nomatch hk
  · rintro ⟨h, hreadable⟩
    exact h.mono fun t ht e he => parserReads_iff.mpr ⟨he, hreadable t ht⟩

/-! ## One tree -/

/-- The parser's reading of single tokens leaves no choice, since the parser is a function. -/
theorem Derives.eq_of_parserReads {e f : Expr} {us : List Token}
    (he : Derives ParserReads (.level 1 e) us) (hf : Derives ParserReads (.level 1 f) us) :
    e = f := by
  have hend : beforeEnd (us ++ [⟨.eof, "", "", 0⟩]) = us := beforeEnd_append he.kind_ne_eof rfl
  rw [← hend, ← ofTokens_iff_derives] at he hf
  exact Except.ok.inj (he.symm.trans hf)

deriving instance Countable for Binary64
deriving instance Countable for Number

/-- A number and a text can be kept in one text. -/
theorem exists_code : ∃ (code : Number → String → String) (decode : String → Number × String),
    ∀ n r, decode (code n r) = (n, r) := by
  have hchars : Function.Injective fun s : String => s.toList.map Char.toNat := by
    intro s t h
    exact String.toList_injective (List.map_injective_iff.mpr (fun _ _ => Char.toNat_inj.mp) h)
  have hstring : Countable String := hchars.countable
  obtain ⟨index, hindex⟩ := Countable.exists_injective_nat (Number × String)
  have hcode : Function.Injective fun p => String.ofList (List.replicate (index p) '1') := by
    intro p q h
    have hlist := congrArg (fun s => s.toList.length) h
    simp only [String.toList_ofList, List.length_replicate] at hlist
    exact hindex hlist
  exact ⟨fun n r => String.ofList (List.replicate (index (n, r)) '1'), Function.invFun _,
    fun n r => Function.leftInverse_invFun hcode (n, r)⟩

theorem Numeral.unique {cs : List Char} {m n : Number} (hm : Numeral cs m) (hn : Numeral cs n) :
    m = n := by
  by_cases hpoint : '.' ∈ cs
  · have hm' := ofNumeral_iff.mpr ⟨hm, .inl hpoint⟩
    have hn' := ofNumeral_iff.mpr ⟨hn, .inl hpoint⟩
    exact Except.ok.inj (hm'.symm.trans hn')
  · have hpoint' {ws ps : List Char} : '.' ∈ ws ++ '.' :: ps :=
      List.mem_append_right ws List.mem_cons_self
    cases hm with
    | fraction => exact absurd hpoint' hpoint
    | integer =>
        cases hn with
        | fraction => exact absurd hpoint' hpoint
        | integer => rfl

theorem exists_numeral (cs : List Char) : ∃ n, Numeral cs n := by
  by_cases hpoint : '.' ∈ cs
  · obtain ⟨ws, ps, rfl, hws⟩ := List.eq_append_cons_of_mem hpoint
    exact ⟨_, .fraction hws⟩
  · exact ⟨_, .integer hpoint⟩

/-- Every number is zero, but for what its text keeps. -/
def toZero (code : Number → String → String) : Literal → String → Literal × String
  | .number n, raw => (.number (.int 0), code n raw)
  | value, raw => (value, raw)

/-- Every number is what its text keeps. -/
def fromZero (decode : String → Number × String) : Literal → String → Literal × String
  | .number _, raw => (.number (decode raw).1, (decode raw).2)
  | value, raw => (value, raw)

theorem fromZero_toZero {code : Number → String → String} {decode : String → Number × String}
    (h : ∀ n r, decode (code n r) = (n, r)) (v : Literal) (r : String) :
    fromZero decode (toZero code v r).1 (toZero code v r).2 = (v, r) := by
  cases v with
  | number n => simp only [toZero, fromZero, h]
  | null | bool | string | pattern => rfl

/-- Every token is like one that the parser can read. -/
theorem exists_alike (code : Number → String → String) (t : Token) :
    ∃ u, Alike Reads ParserReads (toZero code) t u := by
  by_cases hk : t.kind = .number
  · obtain ⟨n, hn⟩ := exists_numeral t.text.toList
    refine ⟨⟨.number, "0", code n t.raw, t.first⟩, hk, fun h => absurd hk h, fun e he => ?_⟩
    cases he with
    | number _ hm =>
        obtain rfl := hm.unique hn
        have hzero : Numeral "0".toList (.int 0) := Numeral.integer (by decide)
        have hshort : "0".length ≤ 4300 := by decide
        exact parserReads_iff.mpr ⟨.number rfl hzero, fun _ => .inr hshort⟩
    | string hk' | pattern hk' | keyword hk' | name hk' =>
        rw [hk] at hk'
        cases hk'
  · have hreadable : Readable t := fun h => absurd h hk
    refine ⟨t, rfl, fun _ => rfl, fun e he => ?_⟩
    cases he with
    | number hk' => exact absurd hk' hk
    | string hk' => exact parserReads_iff.mpr ⟨.string hk', hreadable⟩
    | pattern hk' hp => exact parserReads_iff.mpr ⟨.pattern hk' hp, hreadable⟩
    | name hk' hname => exact parserReads_iff.mpr ⟨.name hk' hname, hreadable⟩
    | keyword hk' hvalue =>
        have hkeyword : ParserReads t (.literal _ t.raw) :=
          parserReads_iff.mpr ⟨.keyword hk' hvalue, hreadable⟩
        simp only [List.mem_cons, Prod.mk.injEq, List.not_mem_nil, or_false] at hvalue
        rcases hvalue with ⟨-, rfl⟩ | ⟨-, rfl⟩ | ⟨-, rfl⟩ <;> exact hkeyword

/-- Tokens derive at most one tree, however long their numerals are. -/
theorem Derives.unique {e f : Expr} {us : List Token} (he : Derives Reads (.level 1 e) us)
    (hf : Derives Reads (.level 1 f) us) : e = f := by
  obtain ⟨code, decode, hcode⟩ := exists_code
  choose like hlike using exists_alike code
  have hvs : List.Forall₂ (Alike Reads ParserReads (toZero code)) us (us.map like) :=
    List.forall₂_map_right_iff.mpr (List.forall₂_same.mpr fun t _ => hlike t)
  have hsame : mapLiterals (toZero code) e = mapLiterals (toZero code) f :=
    (he.transfer hvs).eq_of_parserReads (hf.transfer hvs)
  rw [← mapLiterals_inverse (fromZero_toZero hcode) e, hsame,
    mapLiterals_inverse (fromZero_toZero hcode) f]

/-! ## Acceptance -/

/-- The parser gives exactly the trees that the tokens before the end derive, if no integer
among them is too long to be read.  There is at most one such tree, and where there is none the
parser fails. -/
theorem ofTokens_accepts (ts : List Token) :
    (∀ e, ofTokens ts = .ok e ↔
      Derives Reads (.level 1 e) (beforeEnd ts) ∧ ∀ t ∈ beforeEnd ts, Readable t) ∧
    (∀ e f, Derives Reads (.level 1 e) (beforeEnd ts) →
      Derives Reads (.level 1 f) (beforeEnd ts) → e = f) ∧
    ((∀ e, ¬ Derives Reads (.level 1 e) (beforeEnd ts)) →
      ∃ failure, ofTokens ts = .error failure) := by
  have hiff : ∀ e, ofTokens ts = .ok e ↔
      Derives Reads (.level 1 e) (beforeEnd ts) ∧ ∀ t ∈ beforeEnd ts, Readable t :=
    fun e => ofTokens_iff_derives.trans derives_parserReads_iff
  refine ⟨hiff, fun e f he hf => he.unique hf, fun hnone => ?_⟩
  cases h : ofTokens ts with
  | ok e => exact absurd ((hiff e).mp h).1 (hnone e)
  | error failure => exact ⟨failure, rfl⟩

/-- A numeral of 4301 digits. -/
def longNumeral : Token :=
  ⟨.number, String.ofList (List.replicate 4301 '1'), String.ofList (List.replicate 4301 '1'), 0⟩

/-- The bound on numerals is needed: the grammar derives an integer of 4301 digits, which the
parser does not read. -/
theorem longNumeral_derived_not_read :
    ∃ e, Derives Reads (.level 1 e) (beforeEnd [longNumeral, ⟨.eof, "", "", 4301⟩]) ∧
      ofTokens [longNumeral, ⟨.eof, "", "", 4301⟩] ≠ .ok e := by
  have hend : beforeEnd [longNumeral, ⟨.eof, "", "", 4301⟩] = [longNumeral] := rfl
  have htext : longNumeral.text.toList = List.replicate 4301 '1' := String.toList_ofList
  have hpoint : '.' ∉ longNumeral.text.toList := by
    rw [htext, List.mem_replicate]
    decide
  have hlength : longNumeral.text.length = 4301 := by
    rw [← String.length_toList, htext, List.length_replicate]
  have hword : Reads longNumeral _ := .number rfl (.integer hpoint)
  refine ⟨.literal (.number (.int (Text.digitsValue longNumeral.text.toList))) longNumeral.raw,
    ?_, fun h => ?_⟩
  · rw [hend]
    exact (Derives.operand (.postfixed (.base (.word hword)))).loosen (by decide) (by decide)
  · rw [ofTokens_iff_derives, derives_parserReads_iff, hend] at h
    obtain hdot | hshort := h.2 longNumeral List.mem_cons_self rfl
    · exact hpoint hdot
    · rw [hlength] at hshort
      exact absurd hshort (by decide)

end NoteQuery.Grammar
