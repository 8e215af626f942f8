/-
Cycles of formulas that do not refer to each other.

Whether formulas can be put in order is settled by the references in their texts, while a formula
uses another one where its expression has a member of `formula`.  Every dot among the tokens of an
expression takes a member (`Derives.dotsAccess`), so a reference that stands in three tokens is a
member access of the expression; what is left are references within strings and patterns, and
members of something else that is called `formula` too (`takes_of_mem_references`).  A cycle is
found only where formulas refer to each other in one of these ways (`FormulaTexts.cycle_takes`), and
each of them does make a cycle where there is none (`cycles_without_references`).
-/
import NoteQuery.Proofs.FormulaOrder
import NoteQuery.Proofs.Mentions
import NoteQuery.Proofs.Paths
import NoteQuery.Proofs.Rendering

namespace NoteQuery

open Relation

namespace Expr

/-! ## Parts of expressions -/

/-- The expression is a part of another, or all of it. -/
inductive PartOf (part : Expr) : Expr → Prop
  | self : PartOf part part
  | memberOf {e : Expr} {n : String} : PartOf part e → PartOf part (.member e n)
  | indexed {e position : Expr} : PartOf part e → PartOf part (.index e position)
  | position {e position : Expr} : PartOf part position → PartOf part (.index e position)
  | left {op : BinaryOperator} {e f : Expr} : PartOf part e → PartOf part (.binary op e f)
  | right {op : BinaryOperator} {e f : Expr} : PartOf part f → PartOf part (.binary op e f)
  | operand {op : UnaryOperator} {e : Expr} : PartOf part e → PartOf part (.unary op e)
  | callee {e : Expr} {es : List Expr} : PartOf part e → PartOf part (.call e es)
  | argument {e a : Expr} {es : List Expr} : a ∈ es → PartOf part a → PartOf part (.call e es)
  | element {a : Expr} {es : List Expr} : a ∈ es → PartOf part a → PartOf part (.list es)
  | value {p : String × Expr} {ps : List (String × Expr)} : p ∈ ps → PartOf part p.2 →
      PartOf part (.object ps)

@[simp]
theorem partOf_literal_iff {part : Expr} {value : Literal} {raw : String} :
    PartOf part (.literal value raw) ↔ part = .literal value raw := by
  constructor
  · rintro ⟨⟩
    rfl
  · rintro rfl
    exact .self

@[simp]
theorem partOf_name_iff {part : Expr} {n : String} : PartOf part (.name n) ↔ part = .name n := by
  constructor
  · rintro ⟨⟩
    rfl
  · rintro rfl
    exact .self

@[simp]
theorem partOf_member_iff {part e : Expr} {n : String} :
    PartOf part (.member e n) ↔ part = .member e n ∨ PartOf part e := by
  constructor
  · intro h
    cases h with
    | self => exact .inl rfl
    | memberOf h => exact .inr h
  · rintro (rfl | h)
    · exact .self
    · exact .memberOf h

/-- The expression has the member of that name of `formula`, or the one at that text. -/
def RefersTo (e : Expr) (g : String) : Prop :=
  PartOf (.member (.name "formula") g) e ∨
    ∃ raw, PartOf (.index (.name "formula") (.literal (.string g) raw)) e

/-- The expression has a member that is called so, up to a dollar sign, of a name or a member that
is called `formula`, from a dollar sign on. -/
def ChainsTo (e : Expr) (g : String) : Prop :=
  ∃ base m n, PartOf (.member base n) e ∧ (base = .name m ∨ ∃ x, base = .member x m) ∧
    Token.EndsInFormula m.toList ∧ Token.BeginsWith g.toList n.toList

end Expr

namespace Grammar

open Token NoteQuery.Expr

/-! ## Dots take members -/

/-- Every dot in the tokens takes a member of what stands before it, and that has the property. -/
def DotsAccess (Q : Expr → Prop) (us : List Token) : Prop :=
  ∀ before dot after, us = before ++ dot :: after → IsMark "." dot →
    ∃ base n front rest, Derives ParserReads (.chain base) front ∧ front <:+ before ∧
      after = n :: rest ∧ n.kind = .identifier ∧ Q (.member base n.text)

namespace DotsAccess

variable {Q : Expr → Prop} {us vs : List Token}

theorem nil : DotsAccess Q [] := by
  intro before dot after h
  simp at h

theorem mono {Q' : Expr → Prop} (h : DotsAccess Q us) (hQ : ∀ e, Q e → Q' e) :
    DotsAccess Q' us := by
  intro before dot after hus hdot
  obtain ⟨base, n, front, rest, hbase, hfront, hafter, hn, hmember⟩ := h before dot after hus hdot
  exact ⟨base, n, front, rest, hbase, hfront, hafter, hn, hQ _ hmember⟩

theorem append (hus : DotsAccess Q us) (hvs : DotsAccess Q vs) : DotsAccess Q (us ++ vs) := by
  intro before dot after hall hdot
  rcases List.append_eq_append_iff.mp hall with ⟨skipped, rfl, hvs'⟩ | ⟨start, rfl, hstart⟩
  · obtain ⟨base, n, front, rest, hbase, hfront, hafter, hn, hmember⟩ :=
      hvs skipped dot after hvs' hdot
    exact ⟨base, n, front, rest, hbase, hfront.trans (List.suffix_append _ _), hafter, hn, hmember⟩
  · cases start with
    | nil =>
      obtain ⟨base, n, front, rest, hbase, hfront, hafter, hn, hmember⟩ :=
        hvs [] dot after hstart.symm hdot
      exact ⟨base, n, front, rest, hbase, hfront.trans List.nil_suffix, hafter, hn, hmember⟩
    | cons t start =>
      obtain ⟨rfl, rfl⟩ := List.cons.inj hstart
      obtain ⟨base, n, front, rest, hbase, hfront, rfl, hn, hmember⟩ := hus _ _ _ rfl hdot
      exact ⟨base, n, front, rest ++ vs, hbase, hfront, rfl, hn, hmember⟩

theorem cons {t : Token} (ht : ¬ IsMark "." t) (hus : DotsAccess Q us) :
    DotsAccess Q (t :: us) := by
  have hone : DotsAccess Q [t] := by
    intro before dot after hall hdot
    cases before with
    | nil =>
      obtain ⟨rfl, -⟩ := List.cons.inj hall
      exact absurd hdot ht
    | cons u before => simp at hall
  exact hone.append hus

/-- A dot behind a chain takes the name that follows. -/
theorem member {base : Expr} {dot n : Token} (hus : DotsAccess Q us)
    (hbase : Derives ParserReads (.chain base) us) (hn : n.kind = .identifier)
    (hmember : Q (.member base n.text)) : DotsAccess Q (us ++ [dot, n]) := by
  intro before dot' after hall hdot
  rcases List.append_eq_append_iff.mp hall with ⟨skipped, rfl, hskipped⟩ | ⟨start, rfl, hstart⟩
  · match skipped, hskipped with
    | [], hskipped =>
      cases hskipped
      exact ⟨base, n, us, [], hbase, by rw [List.append_nil], rfl, hn, hmember⟩
    | [_], hskipped =>
      cases hskipped
      cases hn.symm.trans hdot.1
    | _ :: _ :: _, hskipped => simp at hskipped
  · cases start with
    | nil =>
      cases hstart
      exact ⟨base, n, _, [], hbase, by rw [List.append_nil], rfl, hn, hmember⟩
    | cons t start =>
      obtain ⟨rfl, rfl⟩ := List.cons.inj hstart
      obtain ⟨base', n', front, rest, hbase', hfront, rfl, hn', hmember'⟩ := hus _ _ _ rfl hdot
      exact ⟨base', n', front, rest ++ [dot, n], hbase', hfront, rfl, hn', hmember'⟩

end DotsAccess

theorem not_dot_of_kind {t : Token} (h : t.kind ≠ .punctuation) : ¬ IsMark "." t :=
  fun hdot => h hdot.1

theorem IsMark.not_dot {t : Token} {mark : String} (h : IsMark mark t) (hmark : mark ≠ ".") :
    ¬ IsMark "." t :=
  fun hdot => hmark (h.2.symm.trans hdot.2)

theorem WritesBinary.not_dot {k : Nat} {op : BinaryOperator} {t : Token}
    (h : WritesBinary k op t) : ¬ IsMark "." t :=
  not_dot_of_kind (by rw [h.1]; decide)

theorem WritesUnary.not_dot {op : UnaryOperator} {t : Token} (h : WritesUnary op t) :
    ¬ IsMark "." t :=
  not_dot_of_kind (by rw [h.1]; decide)

theorem IsKey.not_dot {t : Token} (h : IsKey t) : ¬ IsMark "." t := by
  rcases h with h | h
  · exact not_dot_of_kind (by rw [h]; decide)
  · exact not_dot_of_kind (by rw [h]; decide)

/-- One of the trees of the phrase has the part. -/
def Phrase.Has : Phrase → Expr → Prop
  | .level _ e, part | .unary e, part | .chain e, part | .primary e, part => part.PartOf e
  | .items es, part | .someItems es, part => ∃ e ∈ es, part.PartOf e
  | .pairs ps, part | .somePairs ps, part => ∃ p ∈ ps, part.PartOf p.2

/-- Every dot in a phrase takes a member, which one of its trees has. -/
theorem Derives.dotsAccess {p : Phrase} {us : List Token} (h : Derives ParserReads p us) :
    DotsAccess p.Has us := by
  induction h with
  | operand _ ih | tighter _ _ ih | postfixed _ ih | base _ ih | items _ ih | pairs _ ih => exact ih
  | noItems | noPairs => exact .nil
  | lastItem _ ih => exact ih.mono fun e he => ⟨_, List.mem_cons_self, he⟩
  | word ht => exact .cons (not_dot_of_kind ht.kind.2.1) .nil
  | binary ht _ _ ihl ihr =>
    exact (ihl.mono fun _ => .left).append (.cons ht.not_dot (ihr.mono fun _ => .right))
  | prefixed ht _ ih => exact .cons ht.not_dot (ih.mono fun _ => .operand)
  | member _ hn hbase ih => exact (ih.mono fun _ => .memberOf).member hbase hn .self
  | index ho hc _ _ ih ihs =>
    exact (ih.mono fun _ => .indexed).append (.cons (ho.not_dot (by decide))
      ((ihs.mono fun _ => .position).append (.cons (hc.not_dot (by decide)) .nil)))
  | call ho hc _ _ ih ihs =>
    exact (ih.mono fun _ => .callee).append (.cons (ho.not_dot (by decide))
      ((ihs.mono fun _ ⟨_, ha, h⟩ => .argument ha h).append (.cons (hc.not_dot (by decide)) .nil)))
  | group ho hc _ ih =>
    exact .cons (ho.not_dot (by decide)) (ih.append (.cons (hc.not_dot (by decide)) .nil))
  | list ho hc _ ih =>
    exact .cons (ho.not_dot (by decide))
      ((ih.mono fun _ ⟨_, ha, h⟩ => .element ha h).append (.cons (hc.not_dot (by decide)) .nil))
  | object ho hc _ ih =>
    exact .cons (ho.not_dot (by decide))
      ((ih.mono fun _ ⟨_, hp, h⟩ => .value hp h).append (.cons (hc.not_dot (by decide)) .nil))
  | moreItems hc _ _ ih ihs =>
    exact (ih.mono fun _ h => ⟨_, List.mem_cons_self, h⟩).append (.cons (hc.not_dot (by decide))
      (ihs.mono fun _ ⟨e, he, h⟩ => ⟨e, List.mem_cons_of_mem _ he, h⟩))
  | lastPair hk hc _ ih =>
    exact .cons hk.not_dot (.cons (hc.not_dot (by decide))
      (ih.mono fun _ h => ⟨_, List.mem_cons_self, h⟩))
  | morePairs hk hc hm _ _ ih ihs =>
    exact .cons hk.not_dot (.cons (hc.not_dot (by decide))
      ((ih.mono fun _ h => ⟨_, List.mem_cons_self, h⟩).append (.cons (hm.not_dot (by decide))
        (ihs.mono fun _ ⟨p, hp, h⟩ => ⟨p, List.mem_cons_of_mem _ hp, h⟩))))

/-- A chain that ends in a name is the name, or a member that is called so. -/
theorem Derives.ends_in_name {base : Expr} {us : List Token} {t : Token}
    (h : Derives ParserReads (.chain base) (us ++ [t])) (ht : t.kind = .identifier)
    (hword : t.text ∉ ["true", "false", "null"]) :
    base = .name t.text ∨ ∃ x, base = .member x t.text := by
  -- what ends in a closing mark does not end in a name
  have hcloser {vs : List Token} {closer : Token} {mark : String} (hvs : vs ++ [closer] = us ++ [t])
      (hc : IsMark mark closer) : False := by
    obtain rfl : closer = t := List.singleton_inj.mp (List.append_inj' hvs rfl).2
    cases ht.symm.trans hc.1
  generalize hall : us ++ [t] = all at h
  cases h with
  | @member e dot n us' _ _ _ =>
    have hvs : (us' ++ [dot]) ++ [n] = us ++ [t] := by
      rw [hall, List.append_assoc, List.singleton_append]
    obtain rfl : n = t := List.singleton_inj.mp (List.append_inj' hvs rfl).2
    exact .inr ⟨e, rfl⟩
  | @index e position opener closer us' vs _ hc _ _ | @call e es opener closer us' vs _ hc _ _ =>
    have hvs : (us' ++ opener :: vs) ++ [closer] = us ++ [t] := by
      rw [hall, List.append_assoc, List.cons_append]
    exact (hcloser hvs hc).elim
  | base h =>
    cases h with
    | @word t' _ hreads =>
      have hone : us ++ [t] = [] ++ [t'] := hall
      obtain rfl : t = t' := List.singleton_inj.mp (List.append_inj' hone rfl).2
      cases (parserReads_iff.mp hreads).1 with
      | name _ _ => exact .inl rfl
      | keyword _ hvalue =>
        exact absurd (List.mem_map_of_mem (f := Prod.fst) hvalue) hword
      | number hk | string hk | pattern hk => cases hk.symm.trans ht
    | @group _ opener closer vs _ hc _ | @list _ opener closer vs _ hc _
    | @object _ opener closer vs _ hc _ =>
      have hvs : (opener :: vs) ++ [closer] = us ++ [t] := hall.symm
      exact (hcloser hvs hc).elim

/-- A pattern that is read has no `f` among its flags. -/
theorem ParserReads.not_flagged {t : Token} {e : Expr} {front flags : List Char}
    (h : ParserReads t e) (ht : t.kind = .pattern) (htext : t.text.toList = front ++ '/' :: flags)
    (hflags : ∀ c ∈ flags, c.isAlpha = true) : 'f' ∉ flags := by
  have hslash : '/' ∉ flags := fun h => absurd (hflags _ h) (by decide)
  obtain ⟨hreads, -⟩ := parserReads_iff.mp h
  cases hreads with
  | pattern _ hpattern =>
    rw [patternOf_eq_ok_iff, patternParts, htext, Text.cutLast?_append hslash] at hpattern
    unfold Pattern.create at hpattern
    split at hpattern
    · cases hpattern
    · next hnone =>
      intro hf
      rw [List.find?_eq_none] at hnone
      exact absurd (hnone 'f' (by rwa [String.toList_ofList])) (by decide)
  | number hk | string hk | keyword hk | name hk => cases hk.symm.trans ht

/-- A reference in the tokens of an expression is within a string or a pattern, or is a member
access of the expression. -/
theorem Derives.takes {us : List Token} {last : Token} {e : Expr} {name : String}
    (h : Derives ParserReads (.level 1 e) us) (hlast : last.kind = .eof)
    (hlocates : Locates name.toList (us ++ [last])) :
    e.ChainsTo name ∨ ∃ t ∈ us, (t.kind = .string ∨ t.kind = .pattern) ∧
      FormulaOrder.Mentions t.raw.toList name.toList := by
  have hfront {t : Token} (ht : t ∈ us ++ [last]) (hkind : t.kind ≠ .eof) : t ∈ us := by
    rcases List.mem_append.mp ht with ht | ht
    · exact ht
    · exact absurd (List.mem_singleton.mp ht ▸ hlast) hkind
  cases hlocates with
  | quoted ht hkind hmentions =>
    refine .inr ⟨_, hfront ht ?_, hkind, hmentions⟩
    rcases hkind with hkind | hkind <;> · rw [hkind]; decide
  | flagged ht hkind htext hflags hflag =>
    have hread := h.forall_tokens (Q := fun t => t.kind = .pattern → ∃ e, ParserReads t e) ?_
      (fun t e ht _ => ⟨e, ht⟩) _ (hfront ht (by rw [hkind]; decide)) hkind
    · obtain ⟨e', he'⟩ := hread
      exact absurd hflag (he'.not_flagged hkind htext hflags)
    · rintro t (ht | ht | ht | ht) hpattern <;> cases ht.symm.trans hpattern
  | @chained before after t dot n hts ht hends hdot hn hbegins =>
    obtain ⟨after, rfl⟩ : ∃ after', us = before ++ t :: dot :: n :: after' := by
      rcases List.eq_nil_or_concat after with rfl | ⟨after', x, rfl⟩
      · have hend : us ++ [last] = (before ++ [t, dot]) ++ [n] := by simpa using hts
        exact absurd (List.singleton_inj.mp (List.append_inj' hend rfl).2 ▸ hlast) hn
      · have hend : us ++ [last] = (before ++ t :: dot :: n :: after') ++ [x] := by simpa using hts
        exact ⟨after', (List.append_inj' hend rfl).1⟩
    have hsplit : before ++ t :: dot :: n :: after = (before ++ [t]) ++ dot :: n :: after := by
      simp
    obtain ⟨base, n', front, rest, hbase, hsuffix, hrest, -, hmember⟩ :=
      h.dotsAccess _ _ _ hsplit hdot
    obtain ⟨rfl, rfl⟩ := List.cons.inj hrest
    have hword : t.text ∉ ["true", "false", "null"] := by
      have hshort : ∀ word ∈ ["true", "false", "null"], word.toList.length < 7 := by decide
      exact fun hword => absurd hends.le_length (Nat.not_le.mpr (hshort _ hword))
    rcases List.suffix_concat_iff.mp hsuffix with rfl | ⟨init, rfl, -⟩
    · obtain ⟨t, ts, hts, -⟩ := hbase.exists_first fun h => h
      cases hts
    · exact .inl ⟨base, t.text, n.text, hmember, hbase.ends_in_name ht hword, hends, hbegins⟩

end Grammar

namespace FormulaOrder

open Grammar Token

/-- A string or a pattern in the source has a reference to the name within it. -/
def Quotes (source name : String) : Prop :=
  ∃ ts, tokenize source = .ok ts ∧ ∃ t ∈ ts, (t.kind = .string ∨ t.kind = .pattern) ∧
    Mentions t.raw.toList name.toList

/-- What is taken for a reference is a member of something that is called `formula`, or stands
within a string or a pattern. -/
theorem takes_of_mem_references {source name : String} {e : Expr}
    (hparse : Expr.parse source = .ok e) (h : name ∈ references source) :
    e.ChainsTo name ∨ Quotes source name := by
  unfold Expr.parse at hparse
  split at hparse
  · next ts htokens =>
    have hcuts := readAll_eq_ok_iff.mp htokens
    obtain ⟨us, last, rfl, hlast, hus⟩ := hcuts.exists_last
    have hend : beforeEnd (us ++ [last]) = us := beforeEnd_append hus hlast
    rw [ofTokens_iff_derives, hend] at hparse
    have hlocates := Locates.of_cuts hcuts (mentions_of_mem_references h)
    refine (hparse.takes hlast hlocates).imp_right ?_
    rintro ⟨t, ht, hkind, hmentions⟩
    exact ⟨_, htokens, t, List.mem_append_left _ ht, hkind, hmentions⟩
  · cases hparse

end FormulaOrder

namespace FormulaTexts

/-- The expression of a formula refers to a declared one. -/
def Uses (fs : FormulaTexts) (f g : String) : Prop :=
  g ∈ fs.names ∧ ∃ text e, (f, text) ∈ fs.texts ∧ Expr.parse text = .ok e ∧ e.RefersTo g

/-- A formula refers to a declared one, or has a member or a text that is taken for a reference to
it. -/
def Takes (fs : FormulaTexts) (f g : String) : Prop :=
  g ∈ fs.names ∧ ∃ text e, (f, text) ∈ fs.texts ∧ Expr.parse text = .ok e ∧
    (e.RefersTo g ∨ e.ChainsTo g ∨ FormulaOrder.Quotes text g)

/-- Formulas that are expressions make a cycle only where each takes the next one for one to which
it refers. -/
theorem cycle_takes (fs : FormulaTexts) (hparse : ∀ f text, (f, text) ∈ fs.texts →
    ∃ e, Expr.parse text = .ok e) {name : String}
    (h : FormulaOrder.order fs.keyed = .error (.query (.formulaCycle name))) :
    TransGen fs.Takes name name := by
  have htakes {f g : String} (hrefers : fs.Refers f g) : fs.Takes f g := by
    obtain ⟨text, htext, hg, hdeclared⟩ := hrefers
    obtain ⟨e, he⟩ := hparse f text htext
    exact ⟨hdeclared, text, e, htext, he, .inr (FormulaOrder.takes_of_mem_references he hg)⟩
  rcases fs.order_cases with ⟨done, horder, -⟩ | ⟨circular, horder, hcircle⟩
  · cases horder.symm.trans h
  · cases horder.symm.trans h
    exact hcircle.lift id fun _ _ => htakes

/-- A single formula of that text. -/
def alone (text : String) : FormulaTexts where
  texts := [("a", text)]
  distinct := List.nodup_singleton "a"

/-- The formula of that text is taken to refer to itself, and it does not. -/
def Misleads (text : String) : Prop :=
  (∃ e, Expr.parse text = .ok e) ∧
    FormulaOrder.order (alone text).keyed = .error (.query (.formulaCycle "a")) ∧
    ∀ name, ¬ TransGen (alone text).Uses name name

theorem alone_refers_iff {text f g : String} :
    (alone text).Refers f g ↔ f = "a" ∧ g = "a" ∧ "a" ∈ FormulaOrder.references text := by
  constructor
  · rintro ⟨text', htext, hg, hdeclared⟩
    obtain rfl : g = "a" := List.mem_singleton.mp hdeclared
    cases List.mem_singleton.mp htext
    exact ⟨rfl, rfl, hg⟩
  · rintro ⟨rfl, rfl, hg⟩
    exact ⟨text, List.mem_singleton.mpr rfl, hg, List.mem_singleton.mpr rfl⟩

theorem order_alone {text : String} (h : "a" ∈ FormulaOrder.references text) :
    FormulaOrder.order (alone text).keyed = .error (.query (.formulaCycle "a")) := by
  rcases (alone text).order_cases with ⟨done, -, hdone, hperm⟩ | ⟨name, horder, hcircle⟩
  · have hmem : "a" ∈ done := hperm.mem_iff.mpr (List.mem_singleton.mpr rfl)
    exact absurd (.single (alone_refers_iff.mpr ⟨rfl, rfl, h⟩)) (hdone.no_circle hmem)
  · obtain ⟨next, hnext, -⟩ := TransGen.head'_iff.mp hcircle
    rwa [(alone_refers_iff.mp hnext).1] at horder

/-- A formula that is a string with a reference to the formula in it. -/
theorem cycle_takes_quoted :
    (∀ f text, (f, text) ∈ (alone "\"formula.a\"").texts → ∃ e, Expr.parse text = .ok e) ∧
      FormulaOrder.order (alone "\"formula.a\"").keyed = .error (.query (.formulaCycle "a")) ∧
      TransGen (alone "\"formula.a\"").Takes "a" "a" := by
  have hparse (f text : String) (htext : (f, text) ∈ (alone "\"formula.a\"").texts) :
      ∃ e, Expr.parse text = .ok e := by
    cases List.mem_singleton.mp htext
    exact ⟨.literal (.string "formula.a") "\"formula.a\"", by decide +kernel⟩
  have horder : FormulaOrder.order (alone "\"formula.a\"").keyed =
      .error (.query (.formulaCycle "a")) := order_alone (by decide)
  exact ⟨hparse, horder, cycle_takes _ hparse horder⟩

theorem misleads_of_parse {text : String} {e : Expr} (hparse : Expr.parse text = .ok e)
    (hreferences : "a" ∈ FormulaOrder.references text) (hrefers : ¬ e.RefersTo "a") :
    Misleads text := by
  refine ⟨⟨e, hparse⟩, order_alone hreferences, fun name hcircle => ?_⟩
  obtain ⟨next, ⟨hnext, text', e', htext, he', hrefers'⟩, -⟩ := TransGen.head'_iff.mp hcircle
  obtain rfl : next = "a" := List.mem_singleton.mp hnext
  cases List.mem_singleton.mp htext
  rw [hparse] at he'
  cases he'
  exact hrefers hrefers'

/-- A string, a pattern, the member of another value, and names with dollar signs. -/
theorem cycles_without_references : Misleads "\"formula.a\"" ∧ Misleads "/formula.a/" ∧
    Misleads "x.formula.a" ∧ Misleads "$formula.a" ∧ Misleads "formula.a$b" := by
  refine ⟨?_, ?_, ?_, ?_, ?_⟩
  · have hparse : Expr.parse "\"formula.a\"" =
        .ok (.literal (.string "formula.a") "\"formula.a\"") := by decide +kernel
    exact misleads_of_parse hparse (by decide) (by simp [Expr.RefersTo])
  · let letters : Pattern.Node := "formula".toList.foldr
      (fun c rest => .seq (.char {} (.code c.toNat)) rest)
      (.seq (.char {} .any) (.char {} (.code 97)))
    have hparse : Expr.parse "/formula.a/" =
        .ok (.literal (.pattern ⟨"formula.a", "", letters, 0⟩) "/formula.a/") := by decide +kernel
    exact misleads_of_parse hparse (by decide) (by simp [Expr.RefersTo])
  · have hparse : Expr.parse "x.formula.a" =
        .ok (.member (.member (.name "x") "formula") "a") := by decide +kernel
    exact misleads_of_parse hparse (by decide) (by simp [Expr.RefersTo])
  · have hparse : Expr.parse "$formula.a" = .ok (.member (.name "$formula") "a") := by
      decide +kernel
    exact misleads_of_parse hparse (by decide) (by simp [Expr.RefersTo])
  · have hparse : Expr.parse "formula.a$b" = .ok (.member (.name "formula") "a$b") := by
      decide +kernel
    exact misleads_of_parse hparse (by decide) (by simp [Expr.RefersTo])

end FormulaTexts

end NoteQuery
