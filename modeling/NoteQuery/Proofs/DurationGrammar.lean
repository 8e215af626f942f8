/-
The grammar of durations.

A duration is written as one or more parts, each a numeral and a spelling of a unit, with blanks
around both (`Duration.Written`).  The reader takes all digits and then all letters that it finds,
and never less.  Nothing is lost by that: a numeral is followed by a blank or a letter, and no
spelling is followed by a letter, so each part is read as it is written whatever comes behind it
(`Duration.readPart?_text`).  What is read is therefore exactly what is written
(`Duration.readParts?_eq_some_iff`), and the display form of a duration, which is written by the
grammar, is read back.
-/
import NoteQuery.Calendar.Duration
import NoteQuery.Proofs.Displays
import NoteQuery.Proofs.Numerals

namespace NoteQuery

open Token (BeginsNo)

namespace Text

variable {blanks cs : List Char}

theorem trimLeft_append (h : ∀ c ∈ blanks, isBlank c = true) :
    trimLeft (blanks ++ cs) = trimLeft cs :=
  List.dropWhile_append_of_pos h

theorem trimLeft_of_beginsNo (h : BeginsNo isBlank cs) : trimLeft cs = cs :=
  Token.dropWhile_of_beginsNo h

theorem exists_trimLeft (cs : List Char) :
    ∃ blanks, (∀ c ∈ blanks, isBlank c = true) ∧ cs = blanks ++ trimLeft cs :=
  ⟨cs.takeWhile isBlank, fun _ => List.mem_takeWhile_imp, List.takeWhile_append_dropWhile.symm⟩

/-- A letter is no blank and stands in no numeral. -/
theorem of_isAlpha {c : Char} (h : c.isAlpha = true) :
    isBlank c = false ∧ isDigit c = false ∧ (c == '.') = false := by
  have hname : Token.isNameStart c = true := by
    rw [Token.isNameStart, h, Bool.true_or, Bool.true_or]
  obtain ⟨hblank, -, hdigit⟩ := Token.of_isNameStart hname
  refine ⟨hblank, hdigit, beq_eq_false_iff_ne.mpr ?_⟩
  rintro rfl
  exact absurd h (by decide)

/-- A blank is no letter and stands in no numeral. -/
theorem of_isBlank {c : Char} (h : isBlank c = true) :
    c.isAlpha = false ∧ isDigit c = false ∧ (c == '.') = false := by
  have hstops := Token.stops_of_isBlank h
  refine ⟨hstops.not_isAlpha, ?_, beq_eq_false_iff_ne.mpr hstops.point⟩
  rw [← Bool.not_eq_true]
  intro hdigit
  rw [Token.not_isBlank_of_isDigit hdigit] at h
  cases h

end Text

namespace TimeUnit

theorem ofSpelling?_eq_some_iff {word : String} {unit : TimeUnit} :
    ofSpelling? word = some unit ↔ (word, unit) ∈ spellings := by
  have hread : ∀ p ∈ spellings, ofSpelling? p.1 = some p.2 := by decide +kernel
  constructor
  · intro h
    obtain ⟨before, behind, heq, -⟩ := List.lookup_eq_some_iff.mp h
    rw [heq]
    exact List.mem_append_right _ List.mem_cons_self
  · exact fun h => hread _ h

/-- Spellings are made of letters. -/
theorem letters_of_spelling {word : String} {unit : TimeUnit} (h : (word, unit) ∈ spellings) :
    word.toList ≠ [] ∧ ∀ c ∈ word.toList, c.isAlpha = true := by
  have hletters : ∀ p ∈ spellings, p.1.toList ≠ [] ∧ p.1.toList.all Char.isAlpha = true := by
    decide +kernel
  obtain ⟨hne, hall⟩ := hletters _ h
  exact ⟨hne, List.all_eq_true.mp hall⟩

/-- The full name of a unit is among its spellings. -/
theorem name_mem_spellings (unit : TimeUnit) : (unit.name, unit) ∈ spellings := by
  cases unit <;> decide +kernel

end TimeUnit

namespace Duration

/-! ## Amounts -/

/-- The digits of a fraction, if there is one, and what follows. -/
def takeFraction (cs : List Char) : List Char × List Char :=
  match cs with
  | '.' :: r =>
    let ds := r.takeWhile Text.isDigit
    if ds.isEmpty then ([], cs) else (ds, r.drop ds.length)
  | r => ([], r)

theorem readAmount?_eq (cs : List Char) :
    readAmount? cs =
      let (minus, body) := Binary64.takeSign cs
      let whole := body.takeWhile Text.isDigit
      if whole.isEmpty then none
      else
        let (part, rest) := takeFraction (body.drop whole.length)
        some (wholeIfPossible
          (Binary64.ofDecimal minus (Text.digitsValue (whole ++ part)) (-part.length)), rest) :=
  rfl

theorem takeFraction_partChars {part rest : List Char} (hpart : ∀ c ∈ part, Text.isDigit c = true)
    (hdigit : BeginsNo Text.isDigit rest) (hpoint : BeginsNo (· == '.') rest) :
    takeFraction (PlainNumeral.partChars part ++ rest) = (part, rest) := by
  cases part with
  | nil =>
    simp only [PlainNumeral.partChars, List.isEmpty_nil, if_true, List.nil_append]
    unfold takeFraction
    split
    · exact absurd (hpoint _ rfl) (by decide)
    · rfl
  | cons d part =>
    have htake : ((d :: part) ++ rest).takeWhile Text.isDigit = d :: part :=
      Token.takeWhile_append_of_beginsNo hpart hdigit
    have hchars : PlainNumeral.partChars (d :: part) ++ rest = '.' :: ((d :: part) ++ rest) := rfl
    rw [hchars, takeFraction, htake, List.drop_left]
    rfl

theorem takeFraction_spec (cs : List Char) :
    (∀ c ∈ (takeFraction cs).1, Text.isDigit c = true) ∧
      PlainNumeral.partChars (takeFraction cs).1 ++ (takeFraction cs).2 = cs := by
  unfold takeFraction
  split
  · next r =>
    dsimp only
    split
    · exact ⟨List.forall_mem_nil _, rfl⟩
    · next hne =>
      refine ⟨fun c => List.mem_takeWhile_imp, ?_⟩
      rw [PlainNumeral.partChars, if_neg hne, Token.drop_takeWhile]
      exact congrArg ('.' :: ·) List.takeWhile_append_dropWhile
  · exact ⟨List.forall_mem_nil _, rfl⟩

/-- A numeral is read up to its end, if it is followed by no digit and no point. -/
theorem readAmount?_chars (n : PlainNumeral) {rest : List Char}
    (hdigit : BeginsNo Text.isDigit rest) (hpoint : BeginsNo (· == '.') rest) :
    readAmount? (n.chars ++ rest) = some (wholeIfPossible n.value, rest) := by
  have hsign : Binary64.takeSign (n.chars ++ rest) =
      (n.minus? == some true, n.whole ++ (PlainNumeral.partChars n.part ++ rest)) := by
    rw [PlainNumeral.chars, List.append_assoc, List.append_assoc]
    refine Binary64.takeSign_signChars _ (Token.beginsNo_append ?_ fun h => absurd h n.whole_ne)
    intro c hc
    have hwhole := n.isDigit_whole c (List.mem_of_mem_head? hc)
    rw [Bool.or_eq_false_iff, beq_eq_false_iff_ne, beq_eq_false_iff_ne]
    constructor <;> (rintro rfl; exact absurd hwhole (by decide))
  have hwhole : (n.whole ++ (PlainNumeral.partChars n.part ++ rest)).takeWhile Text.isDigit =
      n.whole :=
    Token.takeWhile_append_of_beginsNo n.isDigit_whole
      (Token.beginsNo_append (Binary64.beginsNo_partChars (by decide) n.part) fun _ => hdigit)
  have hempty : n.whole.isEmpty = false := Bool.eq_false_iff.mpr (mt List.isEmpty_iff.mp n.whole_ne)
  rw [readAmount?_eq, hsign]
  dsimp only
  rw [hwhole, hempty, List.drop_left, takeFraction_partChars n.isDigit_part hdigit hpoint]
  rfl

/-- What was read as an amount is a numeral. -/
theorem exists_numeral {cs rest : List Char} {amount : Number}
    (h : readAmount? cs = some (amount, rest)) :
    ∃ n : PlainNumeral, cs = n.chars ++ rest ∧ amount = wholeIfPossible n.value := by
  obtain ⟨minus?, hcs, hminus⟩ := Binary64.exists_signChars cs
  rw [readAmount?_eq] at h
  dsimp only at h
  generalize hbody : (Binary64.takeSign cs).2 = body at h hcs
  split at h
  · cases h
  · next hne =>
    have hwhole : body = body.takeWhile Text.isDigit ++
        body.drop (body.takeWhile Text.isDigit).length := by
      rw [Token.drop_takeWhile, List.takeWhile_append_dropWhile]
    generalize hdrop : body.drop (body.takeWhile Text.isDigit).length = behind at h hwhole
    obtain ⟨hpart, hbehind⟩ := takeFraction_spec behind
    cases h
    refine ⟨⟨minus?, body.takeWhile Text.isDigit, (takeFraction behind).1,
      mt List.isEmpty_iff.mpr hne, List.forall_mem_append.mpr
        ⟨fun c => List.mem_takeWhile_imp, hpart⟩⟩, ?_, ?_⟩
    · rw [PlainNumeral.chars, List.append_assoc, List.append_assoc, hbehind, ← hwhole, ← hcs]
    · rw [hminus]
      rfl

end Duration

/-! ## Parts -/

/-- One part of a duration as it is written. -/
structure WrittenPart where
  before : List Char
  numeral : PlainNumeral
  between : List Char
  spelling : String
  unit : TimeUnit
  behind : List Char
  blank : ∀ c ∈ before ++ (between ++ behind), Text.isBlank c = true
  spelled : (spelling, unit) ∈ TimeUnit.spellings

namespace WrittenPart

variable (w : WrittenPart)

/-- The text of the part. -/
def text : List Char :=
  w.before ++ (w.numeral.chars ++ (w.between ++ (w.spelling.toList ++ w.behind)))

/-- What the part stands for. -/
def part : DurationPart :=
  ⟨w.unit, Duration.wholeIfPossible w.numeral.value⟩

theorem isBlank_before : ∀ c ∈ w.before, Text.isBlank c = true :=
  (List.forall_mem_append.mp w.blank).1

theorem isBlank_between : ∀ c ∈ w.between, Text.isBlank c = true :=
  (List.forall_mem_append.mp (List.forall_mem_append.mp w.blank).2).1

theorem isBlank_behind : ∀ c ∈ w.behind, Text.isBlank c = true :=
  (List.forall_mem_append.mp (List.forall_mem_append.mp w.blank).2).2

theorem beginsNo_spelling {p : Char → Bool} (hp : ∀ c, c.isAlpha = true → p c = false)
    (rest : List Char) : BeginsNo p (w.spelling.toList ++ rest) := by
  obtain ⟨hne, hletters⟩ := TimeUnit.letters_of_spelling w.spelled
  refine Token.beginsNo_append (fun c hc => ?_) fun h => absurd h hne
  exact hp c (hletters c (List.mem_of_mem_head? hc))

/-- Behind the numeral stands a blank or a letter. -/
theorem beginsNo_between {p : Char → Bool} (hblank : ∀ c, Text.isBlank c = true → p c = false)
    (hletter : ∀ c, c.isAlpha = true → p c = false) (rest : List Char) :
    BeginsNo p (w.between ++ (w.spelling.toList ++ rest)) := by
  refine Token.beginsNo_append (fun c hc => ?_) fun _ => w.beginsNo_spelling hletter rest
  exact hblank c (w.isBlank_between c (List.mem_of_mem_head? hc))

theorem length_text_pos : 0 < w.text.length := by
  have hne := List.length_pos_iff.mpr (TimeUnit.letters_of_spelling w.spelled).1
  simp only [text, List.length_append]
  omega

theorem trimLeft_text (rest : List Char) : Text.trimLeft (w.text ++ rest) ≠ [] := by
  intro h
  have hall := List.dropWhile_eq_nil_iff.mp h
  have hnumeral : w.numeral.chars.all Text.isBlank = true := by
    refine List.all_eq_true.mpr fun c hc => hall c ?_
    simp only [text, List.mem_append, hc, true_or, or_true]
  rw [w.numeral.all_isBlank_chars] at hnumeral
  cases hnumeral

end WrittenPart

namespace Duration

/-- A part is read as it is written, if no letter follows its unit; the blanks behind it are
taken as well. -/
theorem readPart?_text (w : WrittenPart) {rest : List Char}
    (hends : BeginsNo Char.isAlpha (w.behind ++ rest)) :
    readPart? (w.text ++ rest) = some (w.part, Text.trimLeft rest) := by
  have htext : w.text ++ rest = w.before ++ (w.numeral.chars ++
      (w.between ++ (w.spelling.toList ++ (w.behind ++ rest)))) := by
    simp only [WrittenPart.text, List.append_assoc]
  have hnumeral : BeginsNo Text.isBlank (w.numeral.chars ++
      (w.between ++ (w.spelling.toList ++ (w.behind ++ rest)))) := by
    refine Token.beginsNo_append (fun c hc => ?_) fun h => ?_
    · exact w.numeral.isBlank_chars (List.mem_of_mem_head? hc)
    · have hsome := w.numeral.all_isBlank_chars
      rw [h] at hsome
      cases hsome
  -- The numeral ends where it was written to end, for no digit and no point follows it.
  have hamount := readAmount?_chars w.numeral
    (w.beginsNo_between (fun c h => (Text.of_isBlank h).2.1) (fun c h => (Text.of_isAlpha h).2.1)
      (w.behind ++ rest))
    (w.beginsNo_between (fun c h => (Text.of_isBlank h).2.2) (fun c h => (Text.of_isAlpha h).2.2)
      (w.behind ++ rest))
  have hword : (w.spelling.toList ++ (w.behind ++ rest)).takeWhile Char.isAlpha =
      w.spelling.toList :=
    Token.takeWhile_append_of_beginsNo (TimeUnit.letters_of_spelling w.spelled).2 hends
  have hunit : TimeUnit.ofSpelling? (String.ofList w.spelling.toList) = some w.unit := by
    rw [String.ofList_toList]
    exact TimeUnit.ofSpelling?_eq_some_iff.mpr w.spelled
  rw [htext, readPart?, Text.trimLeft_append w.isBlank_before, Text.trimLeft_of_beginsNo hnumeral,
    hamount, Option.bind_eq_bind, Option.bind_some]
  dsimp only
  rw [Text.trimLeft_append w.isBlank_between, Text.trimLeft_of_beginsNo
    (w.beginsNo_spelling (fun c h => (Text.of_isAlpha h).1) _), hword, hunit, List.drop_left,
    Text.trimLeft_append w.isBlank_behind]
  rfl

/-- What was read as a part is written as one. -/
theorem exists_writtenPart {cs rest : List Char} {p : DurationPart}
    (h : readPart? cs = some (p, rest)) :
    ∃ w : WrittenPart, cs = w.text ++ rest ∧ p = w.part ∧
      BeginsNo Char.isAlpha (w.behind ++ rest) := by
  rw [readPart?, Option.bind_eq_bind, Option.bind_eq_some_iff] at h
  obtain ⟨⟨amount, between⟩, hamount, h⟩ := h
  dsimp only at h
  rw [Option.bind_eq_bind, Option.bind_eq_some_iff] at h
  obtain ⟨unit, hunit, h⟩ := h
  cases h
  obtain ⟨before, hbefore, hcs⟩ := Text.exists_trimLeft cs
  obtain ⟨n, hn, rfl⟩ := exists_numeral hamount
  obtain ⟨gap, hgap, hbetween⟩ := Text.exists_trimLeft between
  rw [Token.drop_takeWhile]
  generalize Text.trimLeft between = body at hunit hbetween
  obtain ⟨behind, hbehind, hbody⟩ := Text.exists_trimLeft (body.dropWhile Char.isAlpha)
  -- All letters were taken for the unit, and all blanks behind it; so none of either follow.
  refine ⟨⟨before, n, gap, String.ofList (body.takeWhile Char.isAlpha), unit, behind, ?_,
    TimeUnit.ofSpelling?_eq_some_iff.mp hunit⟩, ?_, rfl, ?_⟩
  · exact List.forall_mem_append.mpr ⟨hbefore, List.forall_mem_append.mpr ⟨hgap, hbehind⟩⟩
  · simp only [WrittenPart.text, String.toList_ofList, List.append_assoc, ← hbody,
      List.takeWhile_append_dropWhile, ← hbetween, ← hn, ← hcs]
  · rw [← hbody]
    exact Token.beginsNo_dropWhile

/-! ## Durations -/

/-- The text is written as these parts, one behind the other: each stands for the number that its
numeral writes, as an integer if it has no fraction, and no letter follows a unit. -/
inductive Written : List Char → List DurationPart → Prop
  | last {w : WrittenPart} {x : Binary64} : Binary64.ofChars? w.numeral.chars = some x →
      Written w.text [⟨w.unit, wholeIfPossible x⟩]
  | more {w : WrittenPart} {x : Binary64} {cs : List Char} {ps : List DurationPart} :
      Binary64.ofChars? w.numeral.chars = some x → BeginsNo Char.isAlpha (w.behind ++ cs) →
      Written cs ps → Written (w.text ++ cs) (⟨w.unit, wholeIfPossible x⟩ :: ps)

variable {cs rest : List Char} {p : DurationPart} {ps qs : List DurationPart}

/-- Every part takes at least one character. -/
theorem length_of_readPart? (h : readPart? cs = some (p, rest)) : rest.length < cs.length := by
  obtain ⟨w, rfl, -⟩ := exists_writtenPart h
  have hpos := w.length_text_pos
  rw [List.length_append]
  omega

/-- So the reader of the parts never gives up before the end of the text. -/
theorem readParts?_eq (cs : List Char) :
    readParts? cs = (readPart? cs).bind fun (p, rest) =>
      if rest.isEmpty then some [p] else (readParts? rest).map (p :: ·) := by
  rw [readParts?]
  split
  · next h => rw [h, Option.bind_none]
  · next p rest h =>
    rw [h, Option.bind_some]
    dsimp only
    rw [dif_pos (length_of_readPart? h)]

theorem readParts?_trimLeft (cs : List Char) : readParts? (Text.trimLeft cs) = readParts? cs := by
  have htrim : Text.trimLeft (Text.trimLeft cs) = Text.trimLeft cs :=
    Text.trimLeft_of_beginsNo Token.beginsNo_dropWhile
  rw [readParts?_eq, readParts?_eq, readPart?, readPart?, htrim]

theorem Written.ne_blank (h : Written cs ps) : Text.trimLeft cs ≠ [] := by
  cases h with
  | @last w =>
    have hne := w.trimLeft_text []
    rwa [List.append_nil] at hne
  | @more w _ cs => exact w.trimLeft_text cs

theorem Written.read (h : Written cs ps) : readParts? cs = some ps := by
  induction h with
  | @last w x hx =>
    obtain rfl := Option.some.inj (w.numeral.ofChars?_chars.symm.trans hx)
    have hends : BeginsNo Char.isAlpha (w.behind ++ []) := by
      rw [List.append_nil]
      exact fun c hc => (Text.of_isBlank (w.isBlank_behind c (List.mem_of_mem_head? hc))).1
    have hread := readPart?_text w hends
    rw [List.append_nil] at hread
    rw [readParts?_eq, hread]
    rfl
  | @more w x cs ps hx hends h ih =>
    obtain rfl := Option.some.inj (w.numeral.ofChars?_chars.symm.trans hx)
    rw [readParts?_eq, readPart?_text w hends, Option.bind_some]
    dsimp only
    -- The blanks before the next part were taken with this one, and it is read without them alike.
    rw [if_neg (mt List.isEmpty_iff.mp h.ne_blank), readParts?_trimLeft, ih]
    rfl

theorem written_of_read (h : readParts? cs = some ps) : Written cs ps := by
  induction ps generalizing cs with
  | nil =>
    rw [readParts?_eq, Option.bind_eq_some_iff] at h
    obtain ⟨⟨q, rest⟩, -, h⟩ := h
    dsimp only at h
    split at h
    · cases h
    · obtain ⟨qs, -, heq⟩ := Option.map_eq_some_iff.mp h
      cases heq
  | cons p ps ih =>
    rw [readParts?_eq, Option.bind_eq_some_iff] at h
    obtain ⟨⟨q, rest⟩, hread, h⟩ := h
    obtain ⟨w, rfl, rfl, hends⟩ := exists_writtenPart hread
    dsimp only at h
    split at h
    · next hrest =>
      cases h
      rw [List.isEmpty_iff.mp hrest, List.append_nil]
      exact .last w.numeral.ofChars?_chars
    · obtain ⟨qs, hqs, heq⟩ := Option.map_eq_some_iff.mp h
      cases heq
      exact .more w.numeral.ofChars?_chars hends (ih hqs)

/-- What is read as a duration is what is written as one. -/
theorem readParts?_eq_some_iff : readParts? cs = some ps ↔ Written cs ps :=
  ⟨written_of_read, Written.read⟩

/-! ## The display form -/

/-- A part with an integer as it is displayed. -/
def shownPart (unit : TimeUnit) (n : Int) (behind : List Char)
    (hbehind : ∀ c ∈ behind, Text.isBlank c = true) : WrittenPart where
  before := []
  numeral := PlainNumeral.ofInt n
  between := []
  spelling := unit.name
  unit := unit
  behind := behind
  blank := hbehind
  spelled := TimeUnit.name_mem_spellings unit

theorem text_shownPart {unit : TimeUnit} {n : Int} {behind : List Char}
    (hbehind : ∀ c ∈ behind, Text.isBlank c = true) :
    (shownPart unit n behind hbehind).text =
      (partText ⟨unit, .int n⟩).toList ++ behind := by
  rw [partText, String.toList_append, List.append_assoc, Number.display, String.toList_ofList,
    ← PlainNumeral.chars_ofInt]
  rfl

theorem wholeIfPossible_of_place {x : Binary64} {n : Int} (h : x.place = Line.at n) :
    wholeIfPossible x = .int n := by
  rw [wholeIfPossible, if_pos (Binary64.isInteger_of_place h),
    Binary64.toInt?_of_place h .towardZero]

/-- Integers up to 2⁵³ are read as themselves. -/
theorem wholeIfPossible_ofInt {n : Int} (hn : n.natAbs ≤ 2 ^ 53) :
    wholeIfPossible (PlainNumeral.ofInt n).value = .int n := by
  have hrange : n.natAbs < Binary64.overflowStart :=
    hn.trans_lt (Binary64.two_pow_lt_overflowStart (by omega))
  have hplace := Binary64.ofInt_place hrange
  rw [Binary64.roundInt_of_isShort (Binary64.isShort_of_natAbs_le hn)] at hplace
  rw [PlainNumeral.value_ofInt hrange]
  exact wholeIfPossible_of_place hplace

theorem isWritable_of_amounts
    (h : ∀ p ∈ ps, ∃ n : Int, p.amount = .int n ∧ n.natAbs ≤ 2 ^ 53) :
    (Value.duration ⟨ps⟩).isWritable = true := by
  refine List.all_eq_true.mpr fun p hp => ?_
  obtain ⟨n, hamount, hn⟩ := h p hp
  rw [hamount]
  exact Number.isWritable_of_lt (Nat.lt_of_le_of_lt hn (by decide +kernel))

/-- The display form of parts with such integers is written by the grammar. -/
theorem written_display (hne : ps ≠ [])
    (h : ∀ p ∈ ps, ∃ n : Int, p.amount = .int n ∧ n.natAbs ≤ 2 ^ 53) :
    Written (display ⟨ps⟩).toList ps := by
  induction ps with
  | nil => exact absurd rfl hne
  | cons p ps ih =>
    obtain ⟨⟨n, hamount, hn⟩, hps⟩ := List.forall_mem_cons.mp h
    obtain ⟨unit, amount⟩ := p
    subst hamount
    have hread := (PlainNumeral.ofInt n).ofChars?_chars
    cases ps with
    | nil =>
      have hlast : Written (shownPart unit n [] nofun).text _ := .last hread
      rw [text_shownPart, List.append_nil, wholeIfPossible_ofInt hn] at hlast
      rw [display, List.map_singleton, String.intercalate_singleton]
      exact hlast
    | cons q qs =>
      have hblank : ∀ c ∈ [' '], Text.isBlank c = true :=
        List.forall_mem_singleton.mpr (by decide)
      have hmore : Written ((shownPart unit n [' '] hblank).text ++ (display ⟨q :: qs⟩).toList) _ :=
        .more hread (fun c hc => by cases hc; decide) (ih (List.cons_ne_nil q qs) hps)
      rw [text_shownPart, wholeIfPossible_ofInt hn] at hmore
      rw [display, List.map_cons, List.map_cons, String.intercalate_cons_cons, ← List.map_cons,
        String.toList_append, String.toList_append]
      exact hmore

/-! ## Reading texts -/

theorem ofText_eq_ok_iff {s : String} {d : Duration} :
    ofText s = .ok d ↔ Written s.toList d.parts := by
  rw [← readParts?_eq_some_iff, ofText, ofText?]
  cases hread : readParts? s.toList with
  | none => exact iff_of_false nofun nofun
  | some ps =>
    rw [Option.map_some, Except.ok.injEq, Option.some.injEq]
    exact ⟨fun h => h ▸ rfl, fun h => h ▸ rfl⟩

theorem ofText_eq_error {s : String} (h : ∀ ps, ¬ Written s.toList ps) :
    ofText s = .error (.invalidDuration (Text.messageQuoted s)) := by
  rw [ofText, ofText?]
  cases hread : readParts? s.toList with
  | none => rfl
  | some ps => exact absurd (written_of_read hread) (h ps)

/-- What is read as a duration is what the grammar writes, and all else is an impossible value.  A
text writes only one row of parts, and each of them takes up some of the text when it is read, so
reading ends.  Parts with integers up to 2⁵³ are read back from their display form. -/
theorem ofText_grammar :
    (∀ (s : String) (d : Duration), ofText s = .ok d ↔ Written s.toList d.parts) ∧
      (∀ s : String, (¬ ∃ ps, Written s.toList ps) →
        ofText s = .error (.invalidDuration (Text.messageQuoted s)) ∧
          (Fault.invalidDuration (Text.messageQuoted s)).kind = .value) ∧
      (∀ cs ps qs, Written cs ps → Written cs qs → ps = qs) ∧
      (∀ cs p rest, readPart? cs = some (p, rest) → rest.length < cs.length) ∧
      (∀ ps : List DurationPart, ps ≠ [] →
        (∀ p ∈ ps, ∃ n : Int, p.amount = .int n ∧ n.natAbs ≤ 2 ^ 53) →
        ∃ text, (Value.duration ⟨ps⟩).display = .ok text ∧ ofText text = .ok ⟨ps⟩) := by
  refine ⟨fun s d => ofText_eq_ok_iff, fun s hnone => ?_, fun cs ps qs hps hqs => ?_,
    fun cs p rest => length_of_readPart?, fun ps hne hamounts => ?_⟩
  · exact ⟨ofText_eq_error (not_exists.mp hnone), rfl⟩
  · exact Option.some.inj (hps.read.symm.trans hqs.read)
  · refine ⟨_, Value.display_duration (isWritable_of_amounts hamounts), ?_⟩
    exact ofText_eq_ok_iff.mpr (written_display hne hamounts)

/-- One hour and a half less. -/
def hoursBefore : WrittenPart where
  before := [' ']
  numeral := ⟨some true, ['1'], ['5'], List.cons_ne_nil _ _, List.all_eq_true.mp (by decide)⟩
  between := [' ']
  spelling := "h"
  unit := .hour
  behind := []
  blank := List.all_eq_true.mp (by decide)
  spelled := by decide +kernel

/-- A digit may follow a unit, and a fraction stays a binary number. -/
theorem ofText_grammar_mixed :
    ofText " -1.5 h2day" =
        .ok ⟨[⟨.hour, .float (Binary64.ofRatio true 3 2)⟩, ⟨.day, .int 2⟩]⟩ ∧
      ∃ text, (Value.duration ⟨[⟨.month, .int 1⟩, ⟨.week, .int (-2)⟩]⟩).display = .ok text ∧
        ofText text = .ok ⟨[⟨.month, .int 1⟩, ⟨.week, .int (-2)⟩]⟩ := by
  obtain ⟨hread, -, -, -, hdisplay⟩ := ofText_grammar
  constructor
  · have hdays : Written "2day".toList [⟨.day, wholeIfPossible (PlainNumeral.ofInt 2).value⟩] :=
      .last (w := shownPart .day 2 [] nofun) (PlainNumeral.ofInt 2).ofChars?_chars
    have hhours : wholeIfPossible hoursBefore.numeral.value =
        .float (Binary64.ofRatio true 3 2) := by
      decide +kernel
    have hall := Written.more hoursBefore.numeral.ofChars?_chars
      (show BeginsNo Char.isAlpha (hoursBefore.behind ++ "2day".toList) by rintro _ ⟨⟩; rfl) hdays
    rw [wholeIfPossible_ofInt (by decide), hhours] at hall
    exact (hread _ ⟨_⟩).mpr hall
  · refine hdisplay _ (List.cons_ne_nil _ _) ?_
    exact List.forall_mem_cons.mpr ⟨⟨1, rfl, by decide⟩,
      List.forall_mem_singleton.mpr ⟨-2, rfl, by decide⟩⟩

end Duration

end NoteQuery
