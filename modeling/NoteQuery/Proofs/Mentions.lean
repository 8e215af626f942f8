/-
Where a reference may stand in the tokens of a source.

The search for references looks at the text of a source only.  What it finds stands there behind
`formula.`, both as words of their own (`mentions_of_mem_references`).  Cut into tokens, the text
has the reference within one token, which is a string or a pattern, or it has it in three: a word
that ends in `formula`, a dot, and a word that begins with the name (`Locates.of_cuts`).  No other
form of token has its letters.
-/
import NoteQuery.Proofs.References

namespace NoteQuery

namespace FormulaOrder

/-! ## What the search finds -/

/-- The name stands in the text behind `formula.`, both as words, and at the start only if no word
goes on there. -/
def MentionsFrom (inWord : Bool) (cs name : List Char) : Prop :=
  ∃ before after, cs = before ++ (referenceLead ++ (name ++ after)) ∧
    (∀ c ∈ before.getLast?, Text.isWord c = false) ∧ (before = [] → inWord = false) ∧
    IsName name ∧ BeginsNoWord after

/-- The name stands in the text behind `formula.`, both as words. -/
def Mentions (cs name : List Char) : Prop :=
  MentionsFrom false cs name

theorem MentionsFrom.cons {inWord : Bool} {c : Char} {cs name : List Char}
    (h : MentionsFrom (Text.isWord c) cs name) : MentionsFrom inWord (c :: cs) name := by
  obtain ⟨before, after, rfl, hbefore, hfirst, hname, hafter⟩ := h
  refine ⟨c :: before, after, rfl, ?_, nofun, hname, hafter⟩
  intro d hd
  rw [List.getLast?_cons] at hd
  cases hlast : before.getLast? with
  | none =>
    rw [hlast] at hd
    cases hd
    exact hfirst (List.getLast?_eq_none_iff.mp hlast)
  | some last =>
    rw [hlast] at hd
    cases hd
    exact hbefore _ hlast

theorem exists_of_reference? {cs name : List Char} (h : reference? cs = some name) :
    ∃ after, cs = referenceLead ++ (name ++ after) ∧ IsName name ∧ BeginsNoWord after := by
  rw [reference?, Option.ite_none_right_eq_some] at h
  obtain ⟨hlead, h⟩ := h
  obtain ⟨rest, rfl⟩ := List.isPrefixOf_iff_prefix.mp hlead
  rw [List.drop_left] at h
  dsimp only at h
  rw [Option.ite_none_right_eq_some, Bool.and_eq_true, Bool.not_eq_true', Option.some.injEq] at h
  obtain ⟨⟨hstart, hends⟩, rfl⟩ := h
  have hrest : rest = rest.takeWhile isNamePart ++ rest.drop (rest.takeWhile isNamePart).length :=
    (List.prefix_iff_eq_append.mp (List.takeWhile_prefix _)).symm
  refine ⟨_, congrArg (referenceLead ++ ·) hrest, ⟨?_, ?_, ?_⟩, ?_⟩
  · intro c hc
    rwa [Option.mem_def.mp hc] at hstart
  · intro hnil
    rw [hnil] at hstart
    cases hstart
  · exact fun c hc => List.mem_takeWhile_imp hc
  · intro c hc
    rwa [Option.mem_def.mp hc] at hends

/-- What the search takes stands where it is, for it takes nothing in the middle of a word. -/
theorem mentionsFrom_of_mem {covered : Nat} {inWord : Bool} {cs name : List Char}
    (h : name ∈ referencesFrom covered inWord cs) : MentionsFrom inWord cs name := by
  fun_induction referencesFrom covered inWord cs with
  | case1 => exact absurd h List.not_mem_nil
  | case2 inWord c cs covered ih => exact (ih h).cons
  | case3 inWord c cs found hfound ih =>
    rcases List.mem_cons.mp h with rfl | h
    · rw [Option.ite_none_left_eq_some] at hfound
      obtain ⟨hword, hfound⟩ := hfound
      obtain ⟨after, hcs, hname, hafter⟩ := exists_of_reference? hfound
      exact ⟨[], after, hcs, nofun, fun _ => Bool.eq_false_iff.mpr hword, hname, hafter⟩
    · exact (ih h).cons
  | case4 inWord c cs hnone ih => exact (ih h).cons

theorem mentions_of_mem_references {source name : String} (h : name ∈ references source) :
    Mentions source.toList name.toList := by
  rw [references, List.mem_eraseDups, List.mem_map] at h
  obtain ⟨cs, hcs, rfl⟩ := h
  rw [String.toList_ofList]
  exact mentionsFrom_of_mem hcs

/-! ## References in the parts of a text -/

/-- A reference begins here, with its first letter before the rest. -/
def BeginsIn (front back name : List Char) : Prop :=
  ∃ before tail after, front = before ++ 'f' :: tail ∧
    'f' :: (tail ++ back) = referenceLead ++ (name ++ after) ∧
    (∀ c ∈ before.getLast?, Text.isWord c = false) ∧ IsName name ∧ BeginsNoWord after

/-- A reference in two parts of a text is one in the second, or begins in the first. -/
theorem Mentions.split {front back name : List Char} (h : Mentions (front ++ back) name) :
    Mentions back name ∨ BeginsIn front back name := by
  obtain ⟨before, after, hcs, hbefore, -, hname, hafter⟩ := h
  rcases List.append_eq_append_iff.mp hcs with ⟨skipped, rfl, hback⟩ | ⟨start, rfl, hstart⟩
  · refine .inl ⟨skipped, after, hback, fun c hc => hbefore c ?_, fun _ => rfl, hname, hafter⟩
    rw [List.getLast?_append, Option.mem_def.mp hc]
    rfl
  · cases start with
    | nil =>
      exact .inl ⟨[], after, hstart.symm, nofun, fun _ => rfl, hname, hafter⟩
    | cons c tail =>
      obtain rfl : 'f' = c := (List.cons.inj hstart).1
      exact .inr ⟨before, tail, after, rfl, hstart.symm, hbefore, hname, hafter⟩

theorem not_mem_reference {q : Char} {name : List Char} (hname : IsName name)
    (hlead : q ∉ referenceLead) (hq : isNamePart q = false) : q ∉ referenceLead ++ name := by
  rw [List.mem_append, not_or]
  refine ⟨hlead, fun h => ?_⟩
  rw [hname.2.2 q h] at hq
  cases hq

/-- A reference that begins before a character which it has not is at an end there. -/
theorem BeginsIn.within {front back rest name : List Char} {q : Char}
    (h : BeginsIn (front ++ q :: back) rest name) (hlead : q ∉ referenceLead)
    (hq : isNamePart q = false) (hword : Text.isWord q = false) :
    Mentions (front ++ q :: back) name ∨ 'f' ∈ back := by
  obtain ⟨before, tail, after, hfront, hreference, hbefore, hname, hafter⟩ := h
  have hnot : q ∉ referenceLead ++ name := not_mem_reference hname hlead hq
  rcases List.append_eq_append_iff.mp hfront with ⟨skipped, rfl, hskipped⟩ | ⟨start, rfl, hstart⟩
  · cases skipped with
    | nil =>
      obtain rfl : q = 'f' := (List.cons.inj hskipped).1
      exact absurd (by decide) hlead
    | cons c skipped =>
      obtain ⟨-, rfl⟩ := List.cons.inj hskipped
      exact .inr (List.mem_append_right _ List.mem_cons_self)
  · left
    have hsplit : (referenceLead ++ name) ++ after = start ++ (q :: (back ++ rest)) := by
      calc (referenceLead ++ name) ++ after = ('f' :: tail) ++ rest := by
            rw [List.append_assoc, ← hreference, List.cons_append]
        _ = start ++ (q :: (back ++ rest)) := by
            rw [hstart, List.append_assoc, List.cons_append]
    obtain ⟨more, rfl, hends⟩ : ∃ more, start = (referenceLead ++ name) ++ more ∧
        BeginsNoWord (more ++ q :: back) := by
      rcases List.append_eq_append_iff.mp hsplit with ⟨more, rfl, rfl⟩ | ⟨beyond, hbeyond, hrest⟩
      · refine ⟨more, rfl, fun c hc => ?_⟩
        cases more with
        | nil =>
          cases hc
          exact hword
        | cons d more => exact hafter c hc
      · cases beyond with
        | nil =>
          refine ⟨[], by rw [List.append_nil, hbeyond, List.append_nil], ?_⟩
          rintro c ⟨⟩
          exact hword
        | cons d beyond =>
          obtain ⟨rfl, -⟩ := List.cons.inj hrest
          exact absurd (hbeyond ▸ List.mem_append_right _ List.mem_cons_self) hnot
    refine ⟨before, more ++ q :: back, ?_, hbefore, fun _ => rfl, hname, hends⟩
    simp only [List.append_assoc]

theorem Mentions.mem {cs name : List Char} (h : Mentions cs name) : 'f' ∈ cs := by
  obtain ⟨before, after, rfl, -⟩ := h
  exact List.mem_append_right _ (List.mem_append_left _ (by decide))

theorem BeginsIn.mem {front back name : List Char} (h : BeginsIn front back name) :
    'f' ∈ front := by
  obtain ⟨before, tail, after, rfl, -⟩ := h
  exact List.mem_append_right _ List.mem_cons_self

end FormulaOrder

namespace Token

open FormulaOrder (Mentions BeginsIn)

/-! ## References in tokens -/

/-- The word is `formula`, or ends in that behind a dollar sign. -/
def EndsInFormula (word : List Char) : Prop :=
  ∃ front, word = front ++ "formula".toList ∧ ∀ c ∈ front.getLast?, c = '$'

/-- The word is the name, or goes on behind the name with a dollar sign. -/
def BeginsWith (name word : List Char) : Prop :=
  ∃ rest, word = name ++ rest ∧ ∀ c ∈ rest.head?, c = '$'

/-- How a reference to the name may stand in tokens. -/
inductive Locates (name : List Char) (ts : List Token) : Prop
  | quoted {t : Token} : t ∈ ts → t.kind = .string ∨ t.kind = .pattern →
      Mentions t.raw.toList name → Locates name ts
  | flagged {t : Token} {front flags : List Char} : t ∈ ts → t.kind = .pattern →
      t.text.toList = front ++ '/' :: flags → (∀ c ∈ flags, c.isAlpha = true) → 'f' ∈ flags →
      Locates name ts
  | chained {before after : List Token} {t dot n : Token} :
      ts = before ++ t :: dot :: n :: after → t.kind = .identifier →
      EndsInFormula t.text.toList → Grammar.IsMark "." dot → n.kind ≠ .eof →
      BeginsWith name n.text.toList → Locates name ts

theorem Locates.later {name : List Char} {t : Token} {ts : List Token} (h : Locates name ts) :
    Locates name (t :: ts) := by
  cases h with
  | quoted ht hkind hmentions => exact .quoted (List.mem_cons_of_mem t ht) hkind hmentions
  | flagged hu hkind htext hflags hflag =>
    exact .flagged (List.mem_cons_of_mem t hu) hkind htext hflags hflag
  | @chained before _ _ _ _ hts ht hends hdot hn hbegins =>
    have hall : t :: ts = (t :: before) ++ _ := congrArg (t :: ·) hts
    exact .chained hall ht hends hdot hn hbegins

theorem isNamePart_of_reference {c : Char} (h : FormulaOrder.isNamePart c = true) :
    isNamePart c = true := by
  rw [isNamePart, ← FormulaOrder.isNamePart, h, Bool.true_or]

theorem isNameStart_of_reference {c : Char} (h : FormulaOrder.isNameStart c = true) :
    isNameStart c = true := by
  rw [isNameStart, ← FormulaOrder.isNameStart, h, Bool.true_or]

/-- The dollar sign is the one part of names that is no part of words. -/
theorem eq_dollar {c : Char} (h : isNamePart c = true) (hword : Text.isWord c = false) :
    c = '$' := by
  rw [isNamePart, ← FormulaOrder.isNamePart, Bool.or_eq_true, beq_iff_eq] at h
  refine h.resolve_left fun hpart => ?_
  rw [FormulaOrder.isWord_of_isNamePart hpart] at hword
  cases hword

theorem EndsInFormula.le_length {word : List Char} (h : EndsInFormula word) : 7 ≤ word.length := by
  obtain ⟨front, rfl, -⟩ := h
  rw [List.length_append]
  exact Nat.le_add_left 7 _

theorem wordKind_of_endsInFormula {word : List Char} (h : EndsInFormula word) :
    wordKind word = .identifier := by
  have hshort : ∀ op ∈ wordOperators, op.toList.length < 7 := by decide
  rw [wordKind, if_neg]
  intro hop
  have hlength := hshort _ (List.contains_iff_mem.mp hop)
  rw [String.toList_ofList] at hlength
  exact absurd h.le_length (Nat.not_le.mpr hlength)

/-- What is read where a dot comes next. -/
theorem Cuts.of_dot {b : Bool} {pos : Nat} {cs : List Char} {ts : List Token}
    (h : Cuts b pos ('.' :: cs) ts) : ∃ dot ts', ts = dot :: ts' ∧ Grammar.IsMark "." dot ∧
      Cuts false dot.last cs ts' := by
  have hform : Form b .punctuation ['.'] ['.'] cs := .mark (by decide)
  have hread := readAll_eq_ok_iff.mpr h
  rw [← List.singleton_append, hform.readAll] at hread
  obtain ⟨ts', hts', rfl⟩ := map_eq_ok.mp hread
  exact ⟨_, ts', rfl, ⟨rfl, rfl⟩, readAll_eq_ok_iff.mp hts'⟩

/-- What is read where a name comes next. -/
theorem Cuts.of_name {b : Bool} {pos : Nat} {name after : List Char} {ts : List Token}
    (h : Cuts b pos (name ++ after) ts) (hname : FormulaOrder.IsName name)
    (hafter : FormulaOrder.BeginsNoWord after) :
    ∃ n ts', ts = n :: ts' ∧ n.kind ≠ .eof ∧ BeginsWith name n.text.toList := by
  obtain ⟨hstart, hne, hparts⟩ := hname
  obtain ⟨c, cs, rfl⟩ := List.exists_cons_of_ne_nil hne
  obtain ⟨hc, hcs⟩ := List.forall_mem_cons.mp hparts
  have hall : ∀ d ∈ cs ++ after.takeWhile isNamePart, isNamePart d = true :=
    List.forall_mem_append.mpr
      ⟨fun d hd => isNamePart_of_reference (hcs d hd), fun d hd => List.mem_takeWhile_imp hd⟩
  have hform : Form b (wordKind (c :: (cs ++ after.takeWhile isNamePart)))
      (c :: (cs ++ after.takeWhile isNamePart)) (c :: (cs ++ after.takeWhile isNamePart))
      (after.dropWhile isNamePart) :=
    .word (isNameStart_of_reference (hstart c rfl)) hall beginsNo_dropWhile
  have hread := readAll_eq_ok_iff.mpr h
  have hsplit : c :: cs ++ after =
      c :: (cs ++ after.takeWhile isNamePart) ++ after.dropWhile isNamePart := by
    rw [List.cons_append, List.cons_append, List.append_assoc, List.takeWhile_append_dropWhile]
  rw [hsplit, hform.readAll] at hread
  obtain ⟨ts', -, rfl⟩ := map_eq_ok.mp hread
  refine ⟨_, ts', rfl, wordKind_ne_eof _, after.takeWhile isNamePart, String.toList_ofList, ?_⟩
  intro d hd
  have hpart : isNamePart d = true := List.mem_takeWhile_imp (List.mem_of_mem_head? hd)
  refine eq_dollar hpart (hafter d ?_)
  obtain ⟨tail, htail⟩ := List.takeWhile_prefix isNamePart (l := after)
  rw [← htail, List.head?_append, Option.mem_def.mp hd]
  rfl

/-- A reference that begins in a word has its dot and its name in the next two tokens. -/
theorem locates_of_word {b : Bool} {pos : Nat} {raw rest name : List Char} {ts : List Token}
    (hraw : ∀ c ∈ raw, isNamePart c = true) (hrest : BeginsNo isNamePart rest)
    (h : BeginsIn raw rest name) (hcuts : Cuts b pos rest ts) : EndsInFormula raw ∧
      ∃ dot n ts', ts = dot :: n :: ts' ∧ Grammar.IsMark "." dot ∧ n.kind ≠ .eof ∧
        BeginsWith name n.text.toList := by
  obtain ⟨before, tail, after, rfl, hreference, hbefore, hname, hafter⟩ := h
  obtain ⟨hbeforeParts, htailParts⟩ := List.forall_mem_append.mp hraw
  have hlead : FormulaOrder.referenceLead ++ (name ++ after) =
      "formula".toList ++ '.' :: (name ++ after) := rfl
  have hdot : BeginsNo isNamePart ('.' :: (name ++ after)) := by
    rintro c ⟨⟩
    decide
  have hword : 'f' :: tail = "formula".toList := by
    rw [← takeWhile_append_of_beginsNo htailParts hrest, List.cons_append, hreference, hlead,
      takeWhile_append_of_beginsNo (List.all_eq_true.mp (by decide)) hdot]
  rw [hlead, ← hword, ← List.cons_append] at hreference
  obtain rfl : rest = '.' :: (name ++ after) := List.append_cancel_left hreference
  obtain ⟨dot, ts, rfl, hdot, hcuts⟩ := hcuts.of_dot
  obtain ⟨n, ts, rfl, hkind, hbegins⟩ := hcuts.of_name hname hafter
  refine ⟨⟨before, by rw [hword], fun c hc => ?_⟩, dot, n, ts, rfl, hdot, hkind, hbegins⟩
  exact eq_dollar (hbeforeParts c (List.mem_of_getLast? hc)) (hbefore c hc)

/-- A reference that begins in a token is within it, or in it and the next two. -/
theorem locates_of_beginsIn {b : Bool} {t : Token} {text raw rest name : List Char}
    {ts : List Token} (hform : Form b t.kind text raw rest) (htext : t.text = String.ofList text)
    (hraw : t.raw = String.ofList raw) (hcuts : Cuts t.expectsOperand t.last rest ts)
    (h : BeginsIn raw rest name) : Locates name (t :: ts) := by
  obtain ⟨kind, text', raw', pos⟩ := t
  dsimp only at hform htext hraw
  subst htext hraw
  have hletter : ¬ (isDigitPart 'f' = true ∨ 'f' = '.') := by decide
  cases hform with
  | @string quote inner _ _ hquote _ =>
    have hbegins : BeginsIn (quote :: inner ++ quote :: []) rest name := h
    refine .quoted List.mem_cons_self (.inl rfl) ?_
    rw [String.toList_ofList]
    refine (?_ : Mentions (quote :: inner ++ quote :: []) name ∨ 'f' ∈ []).resolve_right nofun
    rcases hquote with rfl | rfl
    · exact hbegins.within (by decide) (by decide) (by decide)
    · exact hbegins.within (by decide) (by decide) (by decide)
  | @whole c digits _ hc hdigits _ _ =>
    have hparts : ∀ x ∈ c :: digits, isDigitPart x = true ∨ x = '.' :=
      List.forall_mem_cons.mpr
        ⟨.inl (isDigitPart_of_isDigit hc), fun x hx => .inl (hdigits x hx)⟩
    exact absurd (hparts 'f' h.mem) hletter
  | @fraction c d digits digits' _ hc hdigits hd hdigits' _ =>
    have hparts : ∀ x ∈ c :: (digits ++ '.' :: d :: digits'), isDigitPart x = true ∨ x = '.' := by
      rw [List.forall_mem_cons, List.forall_mem_append, List.forall_mem_cons, List.forall_mem_cons]
      exact ⟨.inl (isDigitPart_of_isDigit hc), fun x hx => .inl (hdigits x hx), .inr rfl,
        .inl (isDigitPart_of_isDigit hd), fun x hx => .inl (hdigits' x hx)⟩
    exact absurd (hparts 'f' h.mem) hletter
  | word hc hcs hrest =>
    have hparts : ∀ d ∈ _ :: _, isNamePart d = true :=
      List.forall_mem_cons.mpr ⟨isNamePart_of_isNameStart hc, hcs⟩
    obtain ⟨hends, dot, n, ts, rfl, hdot, hkind, hname⟩ := locates_of_word hparts hrest h hcuts
    refine .chained (List.nil_append _).symm (wordKind_of_endsInFormula hends) ?_ hdot hkind hname
    rwa [String.toList_ofList]
  | @pattern inner _ flags _ _ _ hflags _ =>
    have hbegins : BeginsIn ('/' :: inner ++ '/' :: flags) rest name := h
    rcases hbegins.within (by decide) (by decide) (by decide) with hmentions | hflag
    · refine .quoted List.mem_cons_self (.inr rfl) ?_
      rwa [String.toList_ofList]
    · have htext : (String.ofList ('/' :: (inner ++ '/' :: flags))).toList =
          '/' :: inner ++ '/' :: flags := String.toList_ofList
      exact .flagged List.mem_cons_self rfl htext hflags hflag
  | symbol hfind hop _ =>
    have hnone : ∀ op ∈ operators, 'f' ∉ op.toList := by decide
    exact absurd (hop ▸ h.mem) (hnone _ (List.mem_of_find?_eq_some hfind))
  | mark hc =>
    have hmem : 'f' ∈ punctuators := List.mem_singleton.mp h.mem ▸ hc
    exact absurd hmem (by decide)

theorem Locates.of_cuts {b : Bool} {pos : Nat} {cs name : List Char} {ts : List Token}
    (h : Cuts b pos cs ts) (hmentions : Mentions cs name) : Locates name ts := by
  have hblank : Text.isBlank 'f' = false := by decide
  induction h with
  | done hblanks =>
    rw [hblanks _ hmentions.mem] at hblank
    cases hblank
  | token hblanks hform htext hraw _ hcuts ih =>
    rcases hmentions.split with hmentions | hbegins
    · rcases hmentions.split with hmentions | hbegins
      · exact .later (ih hmentions)
      · exact locates_of_beginsIn hform htext hraw hcuts hbegins
    · rw [hblanks _ hbegins.mem] at hblank
      cases hblank

end Token

end NoteQuery
