/-
References that are written in one piece are found.

The formulas to which a formula refers are looked for in its text, while evaluation follows the
expression that was read from the text.  Here the two readings are brought together: a name behind
`formula.` that is a word of its own is found by the search (`mem_references`), the tokens of a
text stand in it one behind the other with blanks between them (`Layout`), and whoever reads a
member of the formulas in an expression finds three tokens for it in the source, between tokens
that may stand around an operand (`Derives.readsOnly`).  So nothing is missed where the three
tokens are written in one piece (`ReadsOnly.of_parse`).
-/
import NoteQuery.Proofs.Accepting
import NoteQuery.Proofs.Framing
import NoteQuery.Proofs.Scanning
import NoteQuery.Query.FormulaOrder

namespace NoteQuery

/-! ## Characters -/

namespace Text

theorem not_isWord_of_isBlank {c : Char} (h : isBlank c = true) : isWord c = false ∧ c ≠ '.' :=
  of_inRanges (p := fun c => isWord c = false ∧ c ≠ '.') (by decide +kernel) h

end Text

namespace FormulaOrder

theorem isNamePart_lt {c : Char} (h : isNamePart c = true) : c.toNat < 128 := by
  delta isNamePart Char.isAlphanum Char.isAlpha Char.isUpper Char.isLower Char.isDigit at h
  simp only [Bool.or_eq_true, Bool.and_eq_true, decide_eq_true_eq, beq_iff_eq, ge_iff_le,
    UInt32.le_iff_toNat_le] at h
  rcases h with ((⟨-, h⟩ | ⟨-, h⟩) | ⟨-, h⟩) | rfl
  · exact Nat.lt_of_le_of_lt h (by decide)
  · exact Nat.lt_of_le_of_lt h (by decide)
  · exact Nat.lt_of_le_of_lt h (by decide)
  · decide

theorem isWord_of_isNamePart {c : Char} (h : isNamePart c = true) : Text.isWord c = true := by
  have hall : ∀ n < 128, isNamePart (Char.ofNat n) = true → Text.isWord (Char.ofNat n) = true := by
    decide +kernel
  have hc := hall c.toNat (isNamePart_lt h)
  rw [Char.ofNat_toNat] at hc
  exact hc h

/-! ## References in a text -/

/-- A word or a reference may begin behind these characters. -/
def EndsWord (before : List Char) : Prop :=
  ∀ c ∈ before.getLast?, Text.isWord c = false ∧ c ≠ '.'

/-- No word goes on with these characters. -/
def BeginsNoWord (after : List Char) : Prop :=
  ∀ c ∈ after.head?, Text.isWord c = false

/-- The characters are a name. -/
def IsName (name : List Char) : Prop :=
  (∀ c ∈ name.head?, isNameStart c = true) ∧ name ≠ [] ∧ ∀ c ∈ name, isNamePart c = true

theorem takeWhile_name {name after : List Char} (hname : IsName name)
    (hafter : BeginsNoWord after) : (name ++ after).takeWhile isNamePart = name := by
  refine Token.takeWhile_append_of_beginsNo hname.2.2 fun c hc => ?_
  rw [← Bool.not_eq_true]
  intro h
  have hword := hafter c hc
  rw [isWord_of_isNamePart h] at hword
  cases hword

theorem reference?_written {name after : List Char} (hname : IsName name)
    (hafter : BeginsNoWord after) :
    reference? (referenceLead ++ (name ++ after)) = some name := by
  have hends : (after.head?.map Text.isWord).getD false = false := by
    cases after with
    | nil => rfl
    | cons c after => exact hafter c rfl
  have hstarts : (name.head?.map isNameStart).getD false = true := by
    obtain ⟨hstart, hne, -⟩ := hname
    cases name with
    | nil => exact absurd rfl hne
    | cons c name => exact hstart c rfl
  have hlead : referenceLead.isPrefixOf (referenceLead ++ (name ++ after)) = true :=
    List.isPrefixOf_iff_prefix.mpr (List.prefix_append _ _)
  rw [reference?, if_pos hlead]
  simp only [List.drop_left, takeWhile_name hname hafter, hends, hstarts, Bool.not_false,
    Bool.and_self, if_true]

/-- A reference ends before another place where one may begin. -/
theorem length_le_of_reference? {before rest name : List Char} (hne : before ≠ [])
    (hbefore : EndsWord before) (h : reference? (before ++ 'f' :: rest) = some name) :
    referenceLead.length + name.length ≤ before.length := by
  rw [reference?] at h
  split at h
  · next hlead =>
    have hprefix := List.isPrefixOf_iff_prefix.mp hlead
    simp only [Option.ite_none_right_eq_some, Option.some.injEq] at h
    obtain ⟨-, rfl⟩ := h
    rcases Nat.lt_or_ge before.length referenceLead.length with hshort | hlong
    · -- the place would be within `formula.`, which has no other `f`
      obtain ⟨tail, htail⟩ := hprefix
      have hplace : referenceLead[before.length]? = some 'f' := by
        have hget : (referenceLead ++ tail)[before.length]? =
            (before ++ 'f' :: rest)[before.length]? := by rw [htail]
        rwa [List.getElem?_append_left hshort, List.getElem?_append_right (Nat.le_refl _),
          Nat.sub_self] at hget
      have hnone : ∀ i < referenceLead.length, 0 < i → referenceLead[i]? ≠ some 'f' := by decide
      exact absurd hplace (hnone _ hshort (List.length_pos_iff.mpr hne))
    · obtain ⟨front, rfl⟩ := List.prefix_of_prefix_length_le hprefix (List.prefix_append _ _) hlong
      rw [List.append_assoc, List.drop_left, List.length_append]
      refine Nat.add_le_add_left ?_ _
      -- the last character before the place is no part of the name
      have hlast : ¬ ∀ c ∈ front, isNamePart c = true := by
        intro hall
        cases hfront : front.getLast? with
        | none =>
          rw [List.getLast?_eq_none_iff] at hfront
          subst hfront
          exact (hbefore '.' (by decide)).2 rfl
        | some c =>
          have hword := (hbefore c (by rw [List.getLast?_append, hfront]; rfl)).1
          rw [isWord_of_isNamePart (hall c (List.mem_of_getLast? hfront))] at hword
          cases hword
      have hstops : (front.takeWhile isNamePart).length ≠ front.length := fun h => hlast <|
        List.takeWhile_eq_self_iff.mp ((List.takeWhile_prefix _).eq_of_length h)
      rw [List.takeWhile_append, if_neg hstops]
      exact (List.takeWhile_prefix _).length_le
  · cases h

/-- The search comes to the place of a reference with nothing left of the one before. -/
theorem mem_referencesFrom {before name after : List Char} {covered : Nat} {inWord : Bool}
    (hname : IsName name) (hafter : BeginsNoWord after) (hbefore : EndsWord before)
    (hcovered : covered ≤ before.length) (hinWord : before = [] → inWord = false) :
    name ∈ referencesFrom covered inWord (before ++ (referenceLead ++ (name ++ after))) := by
  induction before generalizing covered inWord with
  | nil =>
    obtain rfl : covered = 0 := Nat.le_zero.mp hcovered
    obtain rfl := hinWord rfl
    have hfound := reference?_written hname hafter
    have hcons : referenceLead ++ (name ++ after) =
        'f' :: ("ormula.".toList ++ (name ++ after)) := rfl
    rw [List.nil_append, hcons, referencesFrom]
    rw [hcons] at hfound
    simp only [Bool.false_eq_true, if_false, hfound]
    exact List.mem_cons_self
  | cons c before ih =>
    have hrest : EndsWord before := by
      intro d hd
      refine hbefore d ?_
      rw [List.getLast?_cons, Option.mem_def.mp hd]
      rfl
    have hnext : before = [] → Text.isWord c = false := by
      rintro rfl
      exact (hbefore c rfl).1
    rw [List.cons_append]
    cases covered with
    | succ covered =>
      rw [referencesFrom]
      exact ih hrest (Nat.le_of_succ_le_succ hcovered) hnext
    | zero =>
      rw [referencesFrom]
      split
      · next found hfound =>
        refine List.mem_cons_of_mem _ (ih hrest ?_ hnext)
        split at hfound
        · cases hfound
        · have := length_le_of_reference? (List.cons_ne_nil c before) hbefore hfound
          rw [List.length_cons] at this
          omega
      · exact ih hrest (Nat.zero_le _) hnext

/-- A name that stands behind `formula.` as a word of its own is found. -/
theorem mem_references {source : String} {before name after : List Char}
    (hsource : source.toList = before ++ (referenceLead ++ (name ++ after)))
    (hbefore : EndsWord before) (hname : IsName name) (hafter : BeginsNoWord after) :
    String.ofList name ∈ references source := by
  rw [references, List.mem_eraseDups, hsource]
  exact List.mem_map_of_mem
    (mem_referencesFrom hname hafter hbefore (Nat.zero_le _) fun _ => rfl)

end FormulaOrder

/-! ## Tokens in their text -/

namespace Token

/-- How a token of the syntax stands before the rest of a text, and where the rest begins.  Of
literals nothing is said. -/
inductive Stands : Token → List Char → Nat → Prop
  | word {t : Token} {rest : List Char} {c : Char} {cs : List Char} :
      t.kind = .identifier ∨ t.kind = .operator → t.text.toList = c :: cs → t.raw = t.text →
      isNameStart c = true → (∀ d ∈ cs, isNamePart d = true) →
      (∀ d ∈ rest.head?, isNamePart d = false) → Stands t rest t.last
  | symbol {t : Token} {rest : List Char} : t.kind = .operator → t.text ∈ operators →
      t.raw = t.text → Stands t rest t.last
  | mark {t : Token} {rest : List Char} {c : Char} : t.kind = .punctuation → c ∈ punctuators →
      t.text = String.ofList [c] → t.raw = t.text → Stands t rest t.last
  | literal {t : Token} {rest : List Char} {next : Nat} : t.kind ≠ .identifier →
      t.kind ≠ .operator → t.kind ≠ .punctuation → t.kind ≠ .eof → Stands t rest next

/-- The text, from a position, is the texts of the tokens with blanks between them. -/
inductive Layout : Nat → List Char → List Token → Prop
  | done {pos : Nat} {blanks : List Char} {last : Token} : (∀ c ∈ blanks, Text.isBlank c = true) →
      last.kind = .eof → Layout pos blanks [last]
  | token {pos next : Nat} {blanks rest : List Char} {t : Token} {ts : List Token} :
      (∀ c ∈ blanks, Text.isBlank c = true) → t.first = pos + blanks.length →
      Stands t rest next → Layout next rest ts →
      Layout pos (blanks ++ (t.raw.toList ++ rest)) (t :: ts)

theorem stands_of_form {b : Bool} {t : Token} {text raw rest : List Char}
    (h : Form b t.kind text raw rest) (htext : t.text = String.ofList text)
    (hraw : t.raw = String.ofList raw) : Stands t rest t.last := by
  obtain ⟨kind, text', raw', pos⟩ := t
  dsimp only at h htext hraw
  subst htext hraw
  cases h with
  | string | whole | fraction | pattern => exact .literal nofun nofun nofun nofun
  | @word c cs _ hc hcs hrest =>
    refine .word ?_ String.toList_ofList rfl hc hcs hrest
    unfold wordKind
    split
    · exact .inr rfl
    · exact .inl rfl
  | symbol hfind hop _ =>
    subst hop
    refine .symbol rfl ?_ rfl
    rw [String.ofList_toList]
    exact List.mem_of_find?_eq_some hfind
  | mark hc => exact .mark rfl hc rfl rfl

theorem layout_of_readAll {b : Bool} {pos : Nat} {cs : List Char} {ts : List Token}
    (h : readAll b pos cs = .ok ts) : Layout pos cs ts := by
  have hcuts := readAll_eq_ok_iff.mp h
  clear h
  induction hcuts with
  | done hblanks => exact .done hblanks rfl
  | @token b pos blanks raw text rest t ts hblanks hform htext hraw hfirst _ ih =>
    have htoken := Layout.token hblanks hfirst (stands_of_form hform htext hraw) ih
    rwa [hraw, String.toList_ofList] at htoken

/-- In front of a token stands the text of the one before, with blanks between the two. -/
theorem Layout.split {pos : Nat} {cs : List Char} {front ts : List Token}
    (h : Layout pos cs (front ++ ts)) (hts : ts ≠ []) :
    ∃ before rest next, cs = before ++ rest ∧ Layout next rest ts ∧
      (front = [] → before = [] ∧ next = pos) ∧
      ∀ prev ∈ front.getLast?, ∃ before', before = before' ++ prev.raw.toList ∧
        Stands prev rest next := by
  induction front generalizing pos cs with
  | nil => exact ⟨[], cs, pos, rfl, h, fun _ => ⟨rfl, rfl⟩, nofun⟩
  | cons u front ih =>
    rw [List.cons_append] at h
    generalize hall : front ++ ts = all at h
    cases h with
    | done _ _ => exact absurd (List.append_eq_nil_iff.mp hall).2 hts
    | @token _ next blanks rest _ _ hblanks hfirst hstands hrest =>
      subst hall
      obtain ⟨before, rest, next', rfl, hlayout, hempty, hprev⟩ := ih hrest
      refine ⟨blanks ++ (u.raw.toList ++ before), rest, next', ?_, hlayout, nofun, ?_⟩
      · simp only [List.append_assoc]
      · cases hlast : front.getLast? with
        | none =>
          rw [List.getLast?_eq_none_iff] at hlast
          obtain ⟨rfl, rfl⟩ := hempty hlast
          subst hlast
          rintro prev hu
          cases hu
          exact ⟨blanks, by rw [List.append_nil]; rfl, hstands⟩
        | some last =>
          intro prev hprev'
          rw [List.getLast?_cons, hlast] at hprev'
          cases hprev'
          obtain ⟨before', rfl, hstands'⟩ := hprev last hlast
          refine ⟨blanks ++ (u.raw.toList ++ before'), ?_, hstands'⟩
          simp only [List.append_assoc, Option.getD_some]

/-- What may stand before an operand. -/
def Opens (t : Token) : Prop :=
  t.kind = .operator ∨ t.kind = .punctuation ∧ t.text ≠ "."

/-- What may stand behind an operand. -/
def Closes (t : Token) : Prop :=
  t.kind = .operator ∨ t.kind = .punctuation ∨ t.kind = .eof

theorem isNamePart_of_isNameStart {c : Char} (h : isNameStart c = true) : isNamePart c = true := by
  simp only [isNameStart, isNamePart, Char.isAlphanum, Bool.or_eq_true] at h ⊢
  tauto

theorem not_isWord_of_mem_operators {op : String} (h : op ∈ operators) :
    ∀ c ∈ op.toList, Text.isWord c = false ∧ c ≠ '.' := by
  have hall : (operators.all fun op =>
      op.toList.all fun c => !Text.isWord c && c != '.') = true := by decide
  intro c hc
  have hop := List.all_eq_true.mp (List.all_eq_true.mp hall op h) c hc
  rwa [Bool.and_eq_true, Bool.not_eq_true', bne_iff_ne] at hop

theorem not_isWord_of_mem_punctuators {c : Char} (h : c ∈ punctuators) :
    Text.isWord c = false := by
  have hall : punctuators.any Text.isWord = false := by decide
  exact Bool.eq_false_iff.mpr (List.any_eq_false.mp hall c h)

/-- In front of a name that directly follows, an opening token ends a word. -/
theorem Stands.endsWord {t : Token} {rest : List Char} {next : Nat} (h : Stands t rest next)
    (ht : Opens t) (hrest : ∃ c ∈ rest.head?, isNamePart c = true) :
    t.raw.toList ≠ [] ∧ FormulaOrder.EndsWord t.raw.toList := by
  cases h with
  | word _ _ _ _ _ hend =>
    obtain ⟨c, hc, hpart⟩ := hrest
    rw [hend c hc] at hpart
    cases hpart
  | symbol _ hop hraw =>
    rw [hraw]
    refine ⟨?_, fun c hc => not_isWord_of_mem_operators hop c (List.mem_of_getLast? hc)⟩
    have hall : ∀ op ∈ operators, op.toList ≠ [] := by decide
    exact hall _ hop
  | mark hkind hc htext hraw =>
    rw [hraw, htext, String.toList_ofList]
    refine ⟨List.cons_ne_nil _ _, ?_⟩
    rintro d hd
    cases hd
    refine ⟨not_isWord_of_mem_punctuators hc, ?_⟩
    rintro rfl
    rcases ht with ht | ht
    · cases hkind.symm.trans ht
    · exact ht.2 htext
  | literal _ hop hmark _ =>
    rcases ht with ht | ht
    · exact absurd ht hop
    · exact absurd ht.1 hmark

/-- Behind a name, a closing token that directly follows begins no word. -/
theorem Stands.beginsNoWord {t : Token} {rest : List Char} {next : Nat} (h : Stands t rest next)
    (ht : Closes t) (hraw : ∀ d ∈ (t.raw.toList ++ rest).head?, isNamePart d = false) :
    FormulaOrder.BeginsNoWord (t.raw.toList ++ rest) := by
  cases h with
  | word _ htext hsame hstart _ _ =>
    rw [hsame, htext] at hraw
    have := hraw _ rfl
    rw [isNamePart_of_isNameStart hstart] at this
    cases this
  | symbol _ hop hsame =>
    have hne : t.text.toList ≠ [] := by
      have hall : ∀ op ∈ operators, op.toList ≠ [] := by decide
      exact hall _ hop
    rw [hsame]
    intro d hd
    rw [List.head?_append_of_ne_nil _ hne] at hd
    exact (not_isWord_of_mem_operators hop d (List.mem_of_mem_head? hd)).1
  | mark _ hc htext hsame =>
    rw [hsame, htext, String.toList_ofList]
    rintro d hd
    cases hd
    exact not_isWord_of_mem_punctuators hc
  | literal _ hop hmark heof =>
    rcases ht with ht | ht | ht
    · exact absurd ht hop
    · exact absurd ht hmark
    · exact absurd ht heof

/-- What follows a name begins no word. -/
theorem Layout.beginsNoWord {pos : Nat} {cs : List Char} {ts : List Token} (h : Layout pos cs ts)
    (hts : ∀ t ∈ ts.head?, Closes t) (hcs : ∀ d ∈ cs.head?, isNamePart d = false) :
    FormulaOrder.BeginsNoWord cs := by
  cases h with
  | done hblanks _ =>
    exact fun d hd => (Text.not_isWord_of_isBlank (hblanks d (List.mem_of_mem_head? hd))).1
  | @token _ _ blanks rest t ts hblanks _ hstands _ =>
    cases blanks with
    | nil => exact hstands.beginsNoWord (hts t rfl) hcs
    | cons blank blanks =>
      rintro d hd
      cases hd
      exact (Text.not_isWord_of_isBlank (hblanks _ List.mem_cons_self)).1

/-- A token that begins where the text begins is the front of the text. -/
theorem Layout.adjacent {pos : Nat} {cs : List Char} {t : Token} {ts : List Token}
    (h : Layout pos cs (t :: ts)) (ht : t.kind ≠ .eof) (hfirst : t.first = pos) :
    ∃ rest next, cs = t.raw.toList ++ rest ∧ Stands t rest next ∧ Layout next rest ts := by
  cases h with
  | done _ hlast => exact absurd hlast ht
  | @token _ next blanks rest _ _ _ hplace hstands hrest =>
    obtain rfl : blanks = [] := List.eq_nil_of_length_eq_zero (by omega)
    exact ⟨rest, next, rfl, hstands, hrest⟩

theorem Stands.of_identifier {t : Token} {rest : List Char} {next : Nat} (h : Stands t rest next)
    (ht : t.kind = .identifier) : t.raw = t.text ∧ next = t.last ∧
      (∃ c cs, t.text.toList = c :: cs ∧ isNameStart c = true ∧ ∀ d ∈ cs, isNamePart d = true) ∧
      ∀ d ∈ rest.head?, isNamePart d = false := by
  cases h with
  | word _ htext hraw hstart hparts hend => exact ⟨hraw, rfl, ⟨_, _, htext, hstart, hparts⟩, hend⟩
  | symbol hkind => cases hkind.symm.trans ht
  | mark hkind => cases hkind.symm.trans ht
  | literal hkind => exact absurd ht hkind

theorem Stands.of_punctuation {t : Token} {rest : List Char} {next : Nat} (h : Stands t rest next)
    (ht : t.kind = .punctuation) : t.raw = t.text ∧ next = t.last := by
  cases h with
  | word hkind => rcases hkind with hkind | hkind <;> cases hkind.symm.trans ht
  | symbol hkind => cases hkind.symm.trans ht
  | mark _ _ _ hraw => exact ⟨hraw, rfl⟩
  | literal _ _ hkind => exact absurd ht hkind

/-- An identifier behind an opening token begins a word. -/
theorem Layout.exists_identifier {pos : Nat} {cs : List Char} {front ts : List Token} {t : Token}
    (h : Layout pos cs (front ++ t :: ts)) (hfront : ∀ prev ∈ front.getLast?, Opens prev)
    (ht : t.kind = .identifier) :
    ∃ before rest, cs = before ++ (t.text.toList ++ rest) ∧ FormulaOrder.EndsWord before ∧
      Layout t.last rest ts := by
  obtain ⟨before, cs, next, rfl, hlayout, hempty, hprev⟩ := h.split (List.cons_ne_nil t ts)
  cases hlayout with
  | done _ hlast => cases hlast.symm.trans ht
  | @token _ _ blanks rest _ _ hblanks _ hstands hrest =>
    obtain ⟨hraw, rfl, ⟨c, cs, htext, hstart, -⟩, -⟩ := hstands.of_identifier ht
    rw [hraw] at hprev ⊢
    refine ⟨before ++ blanks, rest, by rw [List.append_assoc], ?_, hrest⟩
    cases hblank : blanks.getLast? with
    | some blank =>
      intro d hd
      rw [List.getLast?_append, hblank] at hd
      cases hd
      exact Text.not_isWord_of_isBlank (hblanks _ (List.mem_of_getLast? hblank))
    | none =>
      rw [List.getLast?_eq_none_iff] at hblank
      subst hblank
      rw [List.append_nil]
      cases hlast : front.getLast? with
      | none =>
        rw [(hempty (List.getLast?_eq_none_iff.mp hlast)).1]
        exact nofun
      | some prev =>
        obtain ⟨before', rfl, hstands'⟩ := hprev prev hlast
        have hpart : ∃ d ∈ (t.text.toList ++ rest).head?, isNamePart d = true := by
          rw [htext]
          exact ⟨c, rfl, isNamePart_of_isNameStart hstart⟩
        obtain ⟨hne, hends⟩ := hstands'.endsWord (hfront prev hlast) hpart
        intro d hd
        rw [List.getLast?_append, List.getLast?_eq_some_getLast hne] at hd
        exact hends d (List.getLast?_eq_some_getLast hne ▸ hd)

/-- Three tokens in one piece between such as may stand around an operand are a reference. -/
theorem Layout.reference {pos : Nat} {cs : List Char} {front after : List Token}
    {t dot name : Token} (h : Layout pos cs (front ++ t :: dot :: name :: after))
    (hfront : ∀ prev ∈ front.getLast?, Opens prev) (hafter : ∀ next ∈ after.head?, Closes next)
    (ht : t.kind = .identifier ∧ t.text = "formula") (hdot : Grammar.IsMark "." dot)
    (hname : name.kind = .identifier) (hplain : '$' ∉ name.text.toList)
    (hfirst : t.last = dot.first) (hlast : dot.last = name.first) :
    ∃ before rest, cs = before ++ (FormulaOrder.referenceLead ++ (name.text.toList ++ rest)) ∧
      FormulaOrder.EndsWord before ∧ FormulaOrder.IsName name.text.toList ∧
      FormulaOrder.BeginsNoWord rest := by
  obtain ⟨before, rest, rfl, hends, hlayout⟩ := h.exists_identifier hfront ht.1
  obtain ⟨rest, next, rfl, hstands, hlayout⟩ :=
    hlayout.adjacent (by rw [hdot.1]; decide) hfirst.symm
  obtain ⟨hraw, rfl⟩ := hstands.of_punctuation hdot.1
  obtain ⟨rest, next, rfl, hstands, hlayout⟩ :=
    hlayout.adjacent (by rw [hname]; decide) hlast.symm
  obtain ⟨hraw', rfl, ⟨c, cs, htext, hstart, hparts⟩, hend⟩ := hstands.of_identifier hname
  refine ⟨before, rest, ?_, hends, ?_, hlayout.beginsNoWord hafter hend⟩
  · rw [hraw, hraw', ht.2, hdot.2]
    rfl
  · have hplainPart (d : Char) (hd : d ∈ name.text.toList) (hpart : isNamePart d = true) :
        FormulaOrder.isNamePart d = true := by
      have hne : d ≠ '$' := fun h => hplain (h ▸ hd)
      simpa [isNamePart, FormulaOrder.isNamePart, hne] using hpart
    rw [htext] at hplain hplainPart ⊢
    have hne : c ≠ '$' := fun h => hplain (h ▸ List.mem_cons_self)
    refine ⟨?_, List.cons_ne_nil c cs, fun d hd => hplainPart d hd ?_⟩
    · rintro d hd
      cases hd
      simpa [isNameStart, FormulaOrder.isNameStart, hne] using hstart
    · rcases List.mem_cons.mp hd with rfl | hd
      · exact isNamePart_of_isNameStart hstart
      · exact hparts d hd

end Token

/-! ## References in expressions -/

namespace Grammar

open Token

/-- The tokens write a member of the formulas, between such as may stand around an operand. -/
def WritesMember (us : List Token) (n : String) : Prop :=
  ∃ front t dot name after, us = front ++ t :: dot :: name :: after ∧
    (t.kind = .identifier ∧ t.text = "formula") ∧ IsMark "." dot ∧ name.kind = .identifier ∧
    name.text = n ∧ (∀ prev ∈ front.getLast?, Opens prev) ∧ ∀ next ∈ after.head?, Closes next

/-- A parenthesis closes right behind `formula`. -/
def ClosesFormula (us : List Token) : Prop :=
  ∃ front t closer after, us = front ++ t :: closer :: after ∧
    (t.kind = .identifier ∧ t.text = "formula") ∧ IsMark ")" closer

theorem ClosesFormula.within {before us after whole : List Token}
    (hwhole : whole = before ++ (us ++ after)) (h : ClosesFormula us) : ClosesFormula whole := by
  obtain ⟨front, t, closer, rest, rfl, ht, hcloser⟩ := h
  exact ⟨before ++ front, t, closer, rest ++ after, by simp [hwhole], ht, hcloser⟩

theorem WritesMember.within {before us after whole : List Token} {n : String}
    (hwhole : whole = before ++ (us ++ after)) (hbefore : ∀ prev ∈ before.getLast?, Opens prev)
    (hafter : ∀ next ∈ after.head?, Closes next) (h : WritesMember us n) :
    WritesMember whole n := by
  obtain ⟨front, t, dot, name, rest, rfl, ht, hdot, hname, hn, hfront, hrest⟩ := h
  refine ⟨before ++ front, t, dot, name, rest ++ after, by simp [hwhole], ht, hdot, hname, hn,
    ?_, ?_⟩
  · intro prev hprev
    rw [List.getLast?_append, Option.mem_def, Option.or_eq_some_iff] at hprev
    rcases hprev with hprev | ⟨-, hprev⟩
    · exact hfront prev hprev
    · exact hbefore prev hprev
  · intro next hnext
    rw [List.head?_append, Option.mem_def, Option.or_eq_some_iff] at hnext
    rcases hnext with hnext | ⟨-, hnext⟩
    · exact hrest next hnext
    · exact hafter next hnext

theorem opens_of_mem_getLast? {t : Token} (ht : Opens t) (us : List Token) :
    ∀ prev ∈ (us ++ [t]).getLast?, Opens prev := by
  rw [List.getLast?_concat]
  rintro prev ⟨⟩
  exact ht

theorem closes_of_mem_head? {t : Token} (ht : Closes t) (us : List Token) :
    ∀ next ∈ (t :: us).head?, Closes next := by
  rintro next ⟨⟩
  exact ht

theorem IsMark.opens {t : Token} {mark : String} (h : IsMark mark t) (hmark : mark ≠ ".") :
    Opens t :=
  .inr ⟨h.1, h.2 ▸ hmark⟩

theorem IsMark.closes {t : Token} {mark : String} (h : IsMark mark t) : Closes t :=
  .inr (.inl h.1)

/-- The tree of a phrase that stands for one. -/
def Phrase.tree? : Phrase → Option Expr
  | .level _ e | .unary e | .chain e | .primary e => some e
  | _ => none

/-- A single name is written by a single token, if not within parentheses. -/
theorem Derives.name_formula {p : Phrase} {us : List Token} (h : Derives Reads p us)
    (hp : p.tree? = some (.name "formula")) :
    (∃ t, us = [t] ∧ t.kind = .identifier ∧ t.text = "formula") ∨ ClosesFormula us := by
  induction h with
  | operand _ ih | tighter _ _ ih | postfixed _ ih | base _ ih => exact ih hp
  | @word t e ht =>
    cases hp
    generalize hname : Expr.name "formula" = e at ht
    cases ht with
    | name hkind _ => exact .inl ⟨t, rfl, hkind, (Expr.name.inj hname).symm⟩
    | _ => cases hname
  | @group e opener closer us _ hcloser _ ih =>
    right
    rcases ih hp with ⟨t, rfl, ht⟩ | hcloses
    · exact ⟨[opener], t, closer, [], rfl, ht, hcloser⟩
    · have hpart : opener :: (us ++ [closer]) = [opener] ++ (us ++ [closer]) := rfl
      exact hcloses.within hpart
  | binary | prefixed | member | index | call | list | object => cases hp
  | noItems | items | lastItem | moreItems | noPairs | pairs | lastPair | morePairs => cases hp

/-- The trees of the phrase take no more from the formulas. -/
def Phrase.ReadsOnly (byName byIndex : String → Prop) : Phrase → Prop
  | .level _ e | .unary e | .chain e | .primary e => e.ReadsOnly byName byIndex
  | .items es | .someItems es => ∀ e ∈ es, e.ReadsOnly byName byIndex
  | .pairs ps | .somePairs ps => ∀ p ∈ ps, p.2.ReadsOnly byName byIndex

variable {byName byIndex : String → Prop}

/-- What is written in a part of the tokens is written in the tokens. -/
theorem readsOnly_within {before us after whole : List Token} {e : Expr}
    (hwhole : whole = before ++ (us ++ after)) (hbefore : ∀ prev ∈ before.getLast?, Opens prev)
    (hafter : ∀ next ∈ after.head?, Closes next)
    (h : e.ReadsOnly (fun n => byName n ∧ WritesMember us n) byIndex) :
    e.ReadsOnly (fun n => byName n ∧ WritesMember whole n) byIndex :=
  h.mono (fun _ hn => ⟨hn.1, hn.2.within hwhole hbefore hafter⟩) fun _ hn => hn

/-- Every member of the formulas that an expression reads is written in its tokens. -/
theorem Derives.readsOnly {p : Phrase} {us : List Token} (h : Derives Reads p us)
    (hcloses : ¬ ClosesFormula us) (hp : p.ReadsOnly byName byIndex) :
    p.ReadsOnly (fun n => byName n ∧ WritesMember us n) byIndex := by
  induction h with
  | operand _ ih | tighter _ _ ih | postfixed _ ih | base _ ih | items _ ih | pairs _ ih =>
    exact ih hcloses hp
  | noItems | noPairs => exact List.forall_mem_nil _
  | lastItem _ ih =>
    exact List.forall_mem_singleton.mpr (ih hcloses (hp _ List.mem_cons_self))
  | @word t e ht =>
    cases ht with
    | name _ _ =>
      cases hp with
      | name hn => exact .name hn
    | _ => exact .literal _ _
  | @binary k op t left right us vs ht _ _ ihl ihr =>
    cases hp with
    | binary _ hl hr =>
      have hleft : us ++ t :: vs = [] ++ (us ++ t :: vs) := rfl
      have hright : us ++ t :: vs = (us ++ [t]) ++ (vs ++ []) := by simp
      refine .binary op ?_ ?_
      · exact readsOnly_within hleft nofun (closes_of_mem_head? (.inl ht.1) vs)
          (ihl (fun h => hcloses (h.within hleft)) hl)
      · exact readsOnly_within hright (opens_of_mem_getLast? (.inl ht.1) us) nofun
          (ihr (fun h => hcloses (h.within hright)) hr)
  | @prefixed op t e us ht _ ih =>
    cases hp with
    | unary _ he =>
      have hpart : t :: us = [t] ++ (us ++ []) := by simp
      exact .unary op (readsOnly_within hpart (opens_of_mem_getLast? (.inl ht.1) []) nofun
        (ih (fun h => hcloses (h.within hpart)) he))
  | @member e dot name us hdot hname hbase ih =>
    have hpart : us ++ [dot, name] = [] ++ (us ++ [dot, name]) := rfl
    cases hp with
    | formulaMember hn =>
      refine .formulaMember ⟨hn, ?_⟩
      rcases hbase.name_formula rfl with ⟨t, rfl, ht⟩ | hcl
      · exact ⟨[], t, dot, name, [], rfl, ht, hdot, hname, rfl, nofun, nofun⟩
      · exact absurd (hcl.within hpart) hcloses
    | member _ he =>
      exact .member _ (readsOnly_within hpart nofun (closes_of_mem_head? hdot.closes [name])
        (ih (fun h => hcloses (h.within hpart)) he))
  | @index e position opener closer us vs hopener hcloser _ _ ih ihp =>
    have hleft : us ++ opener :: (vs ++ [closer]) =
        [] ++ (us ++ opener :: (vs ++ [closer])) := rfl
    have hright : us ++ opener :: (vs ++ [closer]) = (us ++ [opener]) ++ (vs ++ [closer]) := by
      simp
    cases hp with
    | formulaIndex hn => exact .formulaIndex hn
    | index he hposition =>
      refine .index ?_ ?_
      · exact readsOnly_within hleft nofun (closes_of_mem_head? hopener.closes _)
          (ih (fun h => hcloses (h.within hleft)) he)
      · exact readsOnly_within hright (opens_of_mem_getLast? (hopener.opens (by decide)) us)
          (closes_of_mem_head? hcloser.closes [])
          (ihp (fun h => hcloses (h.within hright)) hposition)
  | @call e es opener closer us vs hopener hcloser _ _ ih ihs =>
    have hleft : us ++ opener :: (vs ++ [closer]) =
        [] ++ (us ++ opener :: (vs ++ [closer])) := rfl
    have hright : us ++ opener :: (vs ++ [closer]) = (us ++ [opener]) ++ (vs ++ [closer]) := by
      simp
    have hargs (h : ∀ a ∈ es, a.ReadsOnly byName byIndex) (a : Expr) (ha : a ∈ es) :=
      readsOnly_within hright (opens_of_mem_getLast? (hopener.opens (by decide)) us)
        (closes_of_mem_head? hcloser.closes []) (ihs (fun h => hcloses (h.within hright)) h a ha)
    cases hp with
    | call f h => exact .call f (hargs h)
    | notCallable hf hm => exact .notCallable hf hm
    | method m hbase h =>
      refine .method m ?_ (hargs h)
      have htarget := ih (fun h => hcloses (h.within hleft)) (.member m hbase)
      cases htarget with
      | formulaMember _ =>
        cases hbase with
        | name hne => exact absurd rfl hne
      | member _ hbase' =>
        exact readsOnly_within hleft nofun (closes_of_mem_head? hopener.closes _) hbase'
  | @group e opener closer us hopener hcloser _ ih =>
    have hpart : opener :: (us ++ [closer]) = [opener] ++ (us ++ [closer]) := rfl
    exact readsOnly_within hpart (opens_of_mem_getLast? (hopener.opens (by decide)) [])
      (closes_of_mem_head? hcloser.closes []) (ih (fun h => hcloses (h.within hpart)) hp)
  | @list es opener closer us hopener hcloser _ ih =>
    have hpart : opener :: (us ++ [closer]) = [opener] ++ (us ++ [closer]) := rfl
    cases hp with
    | list h =>
      exact .list fun e he => readsOnly_within hpart
        (opens_of_mem_getLast? (hopener.opens (by decide)) [])
        (closes_of_mem_head? hcloser.closes []) (ih (fun h => hcloses (h.within hpart)) h e he)
  | @object ps opener closer us hopener hcloser _ ih =>
    have hpart : opener :: (us ++ [closer]) = [opener] ++ (us ++ [closer]) := rfl
    cases hp with
    | object h =>
      exact .object fun p hp => readsOnly_within hpart
        (opens_of_mem_getLast? (hopener.opens (by decide)) [])
        (closes_of_mem_head? hcloser.closes []) (ih (fun h => hcloses (h.within hpart)) h p hp)
  | @moreItems e es comma us vs hcomma _ _ ih ihs =>
    obtain ⟨he, hes⟩ := List.forall_mem_cons.mp hp
    have hleft : us ++ comma :: vs = [] ++ (us ++ comma :: vs) := rfl
    have hright : us ++ comma :: vs = (us ++ [comma]) ++ (vs ++ []) := by simp
    refine List.forall_mem_cons.mpr ⟨?_, fun e' he' => ?_⟩
    · exact readsOnly_within hleft nofun (closes_of_mem_head? hcomma.closes vs)
        (ih (fun h => hcloses (h.within hleft)) he)
    · exact readsOnly_within hright (opens_of_mem_getLast? (hcomma.opens (by decide)) us) nofun
        (ihs (fun h => hcloses (h.within hright)) hes e' he')
  | @lastPair e key colon us _ hcolon _ ih =>
    have hpart : key :: colon :: us = ([key] ++ [colon]) ++ (us ++ []) := by simp
    refine List.forall_mem_singleton.mpr ?_
    exact readsOnly_within hpart (opens_of_mem_getLast? (hcolon.opens (by decide)) [key]) nofun
      (ih (fun h => hcloses (h.within hpart)) (hp _ List.mem_cons_self))
  | @morePairs e ps key colon comma us vs _ hcolon hcomma _ _ ih ihs =>
    obtain ⟨he, hps⟩ := List.forall_mem_cons.mp hp
    have hleft : key :: colon :: (us ++ comma :: vs) = ([key] ++ [colon]) ++ (us ++ comma :: vs) :=
      by simp
    have hright : key :: colon :: (us ++ comma :: vs) =
        (([key] ++ [colon] ++ us) ++ [comma]) ++ (vs ++ []) := by simp
    refine List.forall_mem_cons.mpr ⟨?_, fun p hp => ?_⟩
    · exact readsOnly_within hleft (opens_of_mem_getLast? (hcolon.opens (by decide)) [key])
        (closes_of_mem_head? hcomma.closes vs) (ih (fun h => hcloses (h.within hleft)) he)
    · exact readsOnly_within hright (opens_of_mem_getLast? (hcomma.opens (by decide)) _) nofun
        (ihs (fun h => hcloses (h.within hright)) hps p hp)

end Grammar

/-! ## References in one piece -/

namespace Token

/-- Behind `formula` no parenthesis closes, and if a dot and a name follow, they do so without
blanks, and the name is a word. -/
def followsPlainly (t : Token) : List Token → Bool
  | [] => true
  | dot :: rest =>
    !dot.isPunctuation ")" && (!dot.isPunctuation "." || rest.head?.all fun name =>
      t.last = dot.first && dot.last = name.first && !name.text.toList.contains '$')

/-- All tokens that could be a reference to a formula are written in one piece. -/
def plainReferences : List Token → Bool
  | [] => true
  | t :: rest => (!t.isThis .identifier "formula" || followsPlainly t rest) && plainReferences rest

theorem followsPlainly_of_plainReferences {front after : List Token} {t : Token}
    (h : plainReferences (front ++ t :: after) = true)
    (ht : t.isThis .identifier "formula" = true) : followsPlainly t after = true := by
  induction front with
  | nil =>
    rw [List.nil_append, plainReferences, ht, Bool.not_true, Bool.false_or, Bool.and_eq_true] at h
    exact h.1
  | cons u front ih =>
    rw [List.cons_append, plainReferences, Bool.and_eq_true] at h
    exact ih h.2

end Token

namespace FormulaOrder

/-- The source writes every reference to a formula in one piece. -/
def writtenPlainly (source : String) : Bool :=
  match tokenize source with
  | .ok ts => Token.plainReferences ts
  | .error _ => true

end FormulaOrder

theorem Grammar.not_closesFormula {us rest : List Token}
    (h : Token.plainReferences (us ++ rest) = true) : ¬ ClosesFormula us := by
  rintro ⟨front, t, closer, after, rfl, ht, hcloser⟩
  rw [List.append_assoc, List.cons_append] at h
  have hformula : t.isThis .identifier "formula" = true := by
    rw [Token.isThis, ht.1, ht.2]
    rfl
  have hfollows := Token.followsPlainly_of_plainReferences h hformula
  rw [List.cons_append, Token.followsPlainly, isPunctuation_iff.mpr hcloser] at hfollows
  cases hfollows

/-- A member that tokens write in one piece is found in their text. -/
theorem Grammar.WritesMember.mem_references {source n : String} {ts : List Token}
    (htokens : tokenize source = .ok ts) (hplain : Token.plainReferences ts = true)
    (h : WritesMember ts n) : n ∈ FormulaOrder.references source := by
  obtain ⟨front, t, dot, name, after, rfl, ht, hdot, hname, rfl, hfront, hafter⟩ := h
  have hformula : t.isThis .identifier "formula" = true := by
    rw [Token.isThis, ht.1, ht.2]
    rfl
  have hfollows := Token.followsPlainly_of_plainReferences hplain hformula
  simp only [Token.followsPlainly, isPunctuation_iff.mpr hdot, List.head?_cons, Option.all_some,
    Bool.not_true, Bool.false_or, Bool.and_eq_true, Bool.not_eq_true', decide_eq_true_eq,
    List.contains_eq_mem, decide_eq_false_iff_not] at hfollows
  obtain ⟨-, ⟨hfirst, hlast⟩, hword⟩ := hfollows
  obtain ⟨before, rest, hsource, hbefore, hisName, hrest⟩ :=
    (Token.layout_of_readAll htokens).reference hfront hafter ht hdot hname hword hfirst hlast
  rw [← String.ofList_toList (s := name.text)]
  exact FormulaOrder.mem_references hsource hbefore hisName hrest

/-- Where references are written in one piece, an expression reads no members of the formulas but
those that are found in its source. -/
theorem Expr.ReadsOnly.of_parse {source : String} {e : Expr} {byName byIndex : String → Prop}
    (hparse : Expr.parse source = .ok e) (hplain : FormulaOrder.writtenPlainly source = true)
    (h : e.ReadsOnly byName byIndex) :
    e.ReadsOnly (fun n => byName n ∧ n ∈ FormulaOrder.references source) byIndex := by
  rw [Expr.parse] at hparse
  cases htokens : tokenize source with
  | error failure =>
    rw [htokens] at hparse
    cases hparse
  | ok ts =>
    rw [htokens] at hparse
    rw [FormulaOrder.writtenPlainly, htokens] at hplain
    have hderives : Grammar.Derives Grammar.Reads (.level 1 e) (Grammar.beforeEnd ts) :=
      (Grammar.derives_parserReads_iff.mp (Grammar.ofTokens_iff_derives.mp hparse)).1
    obtain ⟨rest, hts, hend⟩ := Grammar.exists_eq_beforeEnd_append ts
    have hcloses : ¬ Grammar.ClosesFormula (Grammar.beforeEnd ts) :=
      Grammar.not_closesFormula (hts ▸ hplain)
    have hreads : e.ReadsOnly
        (fun n => byName n ∧ Grammar.WritesMember (Grammar.beforeEnd ts) n) byIndex :=
      hderives.readsOnly hcloses h
    have hrest : ∀ next ∈ rest.head?, Token.Closes next := by
      cases rest with
      | nil => exact nofun
      | cons last rest => exact Grammar.closes_of_mem_head? (.inr (.inr hend)) rest
    refine hreads.mono (fun n hn => ⟨hn.1, ?_⟩) fun _ hn => hn
    have hwhole : ts = [] ++ (Grammar.beforeEnd ts ++ rest) := hts
    exact (hn.2.within hwhole nofun hrest).mem_references htokens hplain

end NoteQuery
