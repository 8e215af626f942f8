/-
Reading YAML into tokens ends in a complaint, or the text asks for what there is not.

Whatever is wrong with a text of YAML is told in a complaint, but for two things that no complaint
is made of: an escape for a character beyond the last one, and a number of a version with too many
digits (`Unscannable`).  Each step of the reading keeps to its text, so that these stand in it
(`unscannable_of_tokens`).
-/
import NoteQuery.Proofs.Mappings
import NoteQuery.Proofs.Outcomes
import NoteQuery.Yaml.Token

namespace NoteQuery.Yaml

/-! ## What may come of reading -/

section Ends

variable {α β : Type} {P : Fault → Prop} {Q : α → Prop} {R : β → Prop}

/-- A value of which `Q` holds, a complaint, or a fault for which there is the reason `P`. -/
inductive Ends (P : Fault → Prop) (Q : α → Prop) : Except Trouble α → Prop
  | value {a : α} : Q a → Ends P Q (.ok a)
  | complaint (c : Complaint) : Ends P Q (.error (.complaint c))
  | fault {f : Fault} : P f → Ends P Q (.error (.fault f))

namespace Ends

theorem reason {x : Except Trouble α} {f : Fault} (hx : Ends P Q x)
    (h : x = .error (.fault f)) : P f := by
  cases hx with
  | value => cases h
  | complaint c => cases h
  | fault hf =>
    cases h
    exact hf

theorem bind {x : Except Trouble α} {f : α → Except Trouble β} (hx : Ends P Q x)
    (hf : ∀ a, Q a → Ends P R (f a)) : Ends P R (x >>= f) := by
  cases hx with
  | value ha => exact hf _ ha
  | complaint c => exact .complaint c
  | fault h => exact .fault h

theorem map {x : Except Trouble α} {f : α → β} (hx : Ends P Q x) (hf : ∀ a, Q a → R (f a)) :
    Ends P R (x.map f) := by
  cases hx with
  | value ha => exact .value (hf _ ha)
  | complaint c => exact .complaint c
  | fault h => exact .fault h

theorem ite {p : Prop} [Decidable p] {x y : Except Trouble α} (hx : Ends P Q x)
    (hy : Ends P Q y) : Ends P Q (if p then x else y) := by
  split
  · exact hx
  · exact hy

/-- What follows a complaint that is not made. -/
theorem guard {p : Prop} [Decidable p] {c : Complaint} {f : α → Except Trouble β}
    {x : Except Trouble β} (hx : Ends P R x) :
    Ends P R (if p then Except.error (.complaint c) >>= f else x) := by
  split
  · exact .complaint c
  · exact hx

/-- Where there is no reason for a fault, there is any. -/
theorem faultless {x : Except Trouble α} (hx : Ends (fun _ => False) Q x) : Ends P Q x := by
  cases hx with
  | value ha => exact .value ha
  | complaint c => exact .complaint c
  | fault hnone => exact hnone.elim

/-- Going through a list for the sake of complaints. -/
theorem forIn {as : List α} {f : α → PUnit → Except Trouble (ForInStep PUnit)}
    (hf : ∀ a ∈ as, Ends P (fun _ => True) (f a ⟨⟩)) :
    Ends P (fun _ => True) (forIn as PUnit.unit f) := by
  induction as with
  | nil => exact .value trivial
  | cons a as ih =>
    obtain ⟨ha, has⟩ := List.forall_mem_cons.mp hf
    rw [List.forIn_cons]
    refine ha.bind ?_
    rintro (_ | _) -
    · exact .value trivial
    · exact ih has

theorem mapM {as : List α} {f : α → Except Trouble β} (hf : ∀ a ∈ as, Ends P R (f a)) :
    Ends P (fun bs => ∀ b ∈ bs, R b) (as.mapM f) := by
  induction as with
  | nil => exact .value fun _ hb => absurd hb List.not_mem_nil
  | cons a as ih =>
    obtain ⟨ha, has⟩ := List.forall_mem_cons.mp hf
    rw [List.mapM_cons]
    refine ha.bind ?_
    intro b hb
    refine (ih has).bind ?_
    intro bs hbs
    exact .value (List.forall_mem_cons.mpr ⟨hb, hbs⟩)

end Ends

end Ends

/-! ## Cursors -/

/-- The cursor stands in the text. -/
def Cursor.Within (source : List Char) (c : Cursor) : Prop :=
  c.rest <:+ source

theorem Cursor.spanFrom_eq (p : Char → Bool) (mark : Mark) (cs : List Char) :
    (spanFrom p mark cs).1 = cs.takeWhile p ∧ (spanFrom p mark cs).2.rest = cs.dropWhile p := by
  induction cs generalizing mark with
  | nil => exact ⟨rfl, rfl⟩
  | cons c cs ih =>
    rw [spanFrom, List.takeWhile_cons, List.dropWhile_cons]
    split
    · obtain ⟨htaken, hrest⟩ := ih (mark.past c cs)
      exact ⟨congrArg (c :: ·) htaken, hrest⟩
    · exact ⟨rfl, rfl⟩

theorem Cursor.rest_advance (n : Nat) (c : Cursor) : (c.advance n).rest = c.rest.drop n := by
  induction n generalizing c with
  | zero => rfl
  | succ n ih =>
    rw [advance]
    split
    · next h => rw [h, List.drop_nil]
    · next h => rw [ih, h, List.drop_succ_cons]

theorem Cursor.rest_eq {c : Cursor} (h : c.next ≠ '\x00') : c.rest = c.next :: c.step.rest := by
  rw [step, rest_advance]
  unfold next look at h ⊢
  cases hrest : c.rest with
  | nil =>
    rw [hrest] at h
    exact absurd rfl h
  | cons ch rest => rfl

namespace Cursor.Within

variable {source : List Char} {c : Cursor}

theorem advance (h : c.Within source) (n : Nat) : (c.advance n).Within source := by
  rw [Within, rest_advance]
  exact (List.drop_suffix n c.rest).trans h

theorem step (h : c.Within source) : c.step.Within source :=
  h.advance 1

theorem span (h : c.Within source) (p : Char → Bool) : (c.span p).2.Within source := by
  rw [Within, Cursor.span, (spanFrom_eq p c.mark c.rest).2]
  exact (List.dropWhile_suffix p).trans h

theorem skipSpaces (h : c.Within source) : c.skipSpaces.Within source :=
  h.span _

theorem skipComment (h : c.Within source) : c.skipComment.Within source := by
  unfold Cursor.skipComment
  split
  · exact h.span _
  · exact h

theorem lineEnd? (h : c.Within source) {ch : Char} {behind : Cursor}
    (hend : c.lineEnd? = some (ch, behind)) : behind.Within source := by
  simp only [Cursor.lineEnd?] at hend
  split at hend
  · cases hend
    exact h.advance 2
  · split at hend
    · cases hend
      exact h.step
    · split at hend
      · cases hend
        exact h.step
      · cases hend

theorem skipLineEnd (h : c.Within source) : c.skipLineEnd.Within source := by
  unfold Cursor.skipLineEnd
  split
  · next hend => exact h.lineEnd? hend
  · exact h

end Cursor.Within

/-! ## What cannot be scanned -/

/-- The text asks for a character or a version that there is not. -/
inductive Unscannable (source : List Char) : Fault → Prop
  | character {letter : Char} {digits : List Char} {f : Fault} :
      '\\' :: letter :: digits <:+: source → (letter, digits.length) ∈ codeEscapes →
        (∀ d ∈ digits, isHexDigit d = true) → escapedChar (hexNumber digits) = .error (.fault f) →
          Unscannable source f
  | version {digits : List Char} : digits <:+: source → (∀ d ∈ digits, d.isDigit = true) →
      4300 < digits.length → Unscannable source (.tooManyDigits digits.length)

/-- What comes of a step of the scanner: something and a cursor in the text, or trouble. -/
def Scans {α : Type} (source : List Char) (x : Except Trouble (α × Cursor)) : Prop :=
  Ends (Unscannable source) (fun p => p.2.Within source) x

section Scanning

variable {source : List Char} {c : Cursor}

/-! ### Scalars -/

theorem within_gapLineEnds {fuel : Nat} (h : c.Within source) :
    (gapLineEnds fuel c).2.Within source := by
  induction fuel generalizing c with
  | zero => exact h
  | succ fuel ih =>
    rw [gapLineEnds]
    split
    · exact h
    · dsimp only
      split
      · next hend => exact ih (h.skipSpaces.lineEnd? hend)
      · exact h.skipSpaces

theorem within_readPlainGap (h : c.Within source) : (readPlainGap c).cursor.Within source := by
  unfold readPlainGap
  dsimp only
  split
  · exact h.span _
  · next behind hend =>
    have hgap : (gapLineEnds (behind.rest.length + 1) behind).2.Within source :=
      within_gapLineEnds ((h.span _).lineEnd? hend)
    split
    · next hlines =>
      rw [hlines] at hgap
      exact hgap
    · next hlines =>
      rw [hlines] at hgap
      exact hgap

theorem within_readPlain (inFlow : Bool) (indent : Int) (fuel : Nat) {gap : PlainGap} (last : Mark)
    (h : gap.cursor.Within source) :
    (readPlain inFlow indent fuel gap last).1.cursor.Within source := by
  induction fuel generalizing gap last with
  | zero => exact h
  | succ fuel ih =>
    rw [readPlain]
    generalize (if gap.cursor.next = '#' then [] else plainChunk inFlow gap.cursor.rest) = chunk
    have hnext := within_readPlainGap (h.advance chunk.length)
    dsimp only
    split
    · exact h
    · split
      · exact hnext
      · exact ih _ hnext

theorem scans_quotedLineEnds {start : Mark} {fuel : Nat} (h : c.Within source) :
    Scans source (quotedLineEnds start fuel c) := by
  induction fuel generalizing c with
  | zero => exact .value h
  | succ fuel ih =>
    rw [quotedLineEnds]
    refine .guard ?_
    dsimp only
    split
    · next hend =>
      refine (ih ((h.span _).lineEnd? hend)).bind ?_
      intro _ hcursor
      exact .value hcursor
    · exact .value (h.span _)

/-- An escape is a letter and what belongs to it, behind a backslash. -/
theorem scans_readEscape {start : Mark} (h : '\\' :: c.rest <:+ source) :
    Scans source (readEscape start c) := by
  have hc : c.Within source := (List.suffix_cons _ _).trans h
  unfold readEscape
  dsimp only
  split
  · exact .value hc.step
  · next width _ hwidth =>
    split
    · exact .complaint _
    · next hdigits =>
      split
      · exact .complaint _
      · next hlength =>
        have hcode : (c.next, (c.step.rest.take width).length) ∈ codeEscapes := by
          rw [List.length_take] at hlength ⊢
          rw [Nat.min_eq_left (by omega)]
          exact (lookup_eq_some_iff_mem (by decide)).mp hwidth
        have hinfix : '\\' :: c.next :: c.step.rest.take width <:+: source := by
          have hnext : c.next ≠ '\x00' := by
            intro hnone
            rw [hnone] at hwidth
            cases hwidth
          rw [Cursor.rest_eq hnext] at h
          refine List.IsInfix.trans (List.IsPrefix.isInfix ?_) h.isInfix
          exact List.cons_prefix_cons.mpr ⟨rfl,
            List.cons_prefix_cons.mpr ⟨rfl, List.take_prefix width c.step.rest⟩⟩
        have hhex : ∀ d ∈ c.step.rest.take width, isHexDigit d = true := by
          simpa only [List.find?_eq_none, Bool.not_eq_true, Bool.not_eq_false'] using hdigits
        cases hchar : escapedChar (hexNumber (c.step.rest.take width)) with
        | ok ch => exact .value (hc.step.advance width)
        | error trouble =>
          cases trouble with
          | complaint complaint => exact .complaint _
          | fault f => exact .fault (.character hinfix hcode hhex hchar)
  · split
    · next hend => exact scans_quotedLineEnds (hc.lineEnd? hend)
    · exact .complaint _

theorem scans_readQuotedGap {start : Mark} (h : c.Within source) :
    Scans source (readQuotedGap start c) := by
  unfold readQuotedGap
  refine .guard ?_
  dsimp only
  split
  · next hend =>
    refine (scans_quotedLineEnds ((h.span _).lineEnd? hend)).bind ?_
    intro _ hcursor
    exact .value hcursor
  · exact .value (h.span _)

theorem scans_readQuoted {double : Bool} {start : Mark} {fuel : Nat} (h : c.Within source) :
    Scans source (readQuoted double start fuel c) := by
  induction fuel generalizing c with
  | zero => exact .complaint _
  | succ fuel ih =>
    rw [readQuoted]
    dsimp only
    split
    · exact .value h.step
    · have hrest {x : Except Trouble (List Char × Cursor)} (hx : Scans source x) :
          Scans source (x >>= fun part => readQuoted double start fuel part.2 >>= fun rest =>
            pure (part.1 ++ rest.1, rest.2)) := by
        refine hx.bind ?_
        intro part hpart
        refine (ih hpart).bind ?_
        intro rest hcursor
        exact .value hcursor
      split
      · exact hrest (.value (h.advance 2))
      · split
        · next hbackslash =>
          have hnext : c.next = '\\' := of_decide_eq_true (Bool.and_eq_true_iff.mp hbackslash).1
          refine hrest (scans_readEscape ?_)
          rw [← hnext, ← Cursor.rest_eq (by rw [hnext]; decide)]
          exact h
        · split
          · exact hrest (.value h.step)
          · split
            · exact hrest (scans_readQuotedGap h)
            · exact hrest (.value (h.span _))

theorem scans_readIncrement {start : Mark} (h : c.Within source) :
    Scans source (readIncrement start c) := by
  unfold readIncrement
  dsimp only
  split
  · exact .complaint _
  · split
    · exact .value h.step
    · exact .value h

theorem scans_readBlockHeader {start : Mark} (h : c.Within source) :
    Scans source (readBlockHeader start c) := by
  have hrest (header : BlockHeader) {behind : Cursor} (hbehind : behind.Within source) :
      Scans source (if !endsPart behind.next then do
          complain .blockScalar start
            (.character "chomping or indentation indicators" behind.next) behind.mark
          return (header, behind)
        else return (header, behind)) :=
    .guard (.value hbehind)
  unfold readBlockHeader
  dsimp only
  split
  · refine (scans_readIncrement h.step).bind ?_
    intro p hp
    exact hrest _ hp
  · refine (scans_readIncrement h).bind ?_
    intro p hp
    split
    · exact hrest _ hp.step
    · exact hrest _ hp

theorem ends_skipIgnoredLine {task : Task} {start : Mark} (h : c.Within source) :
    Ends (Unscannable source) (Cursor.Within source) (skipIgnoredLine task start c) := by
  unfold skipIgnoredLine
  dsimp only
  split
  · exact .value h.skipSpaces.skipComment.skipLineEnd
  · exact .complaint _

theorem within_readBlockGap {indent fuel : Nat} {last : Mark} (h : c.Within source) :
    (readBlockGap indent fuel last c).cursor.Within source := by
  induction fuel generalizing c last with
  | zero => exact h
  | succ fuel ih =>
    rw [readBlockGap]
    dsimp only
    split
    · next hend => exact ih (Cursor.Within.lineEnd? (h.advance _) hend)
    · exact h.advance _

theorem within_readLeadingLines {fuel deepest : Nat} {last : Mark} (h : c.Within source) :
    (readLeadingLines fuel deepest last c).1.cursor.Within source := by
  induction fuel generalizing c deepest last with
  | zero => exact h
  | succ fuel ih =>
    rw [readLeadingLines]
    dsimp only
    generalize (if c.skipSpaces.mark.index = c.mark.index then deepest
      else max deepest c.skipSpaces.column) = deeper
    split
    · next hend => exact ih (h.skipSpaces.lineEnd? hend)
    · exact h.skipSpaces

theorem within_readBlockLines {folded : Bool} {chomping : Chomping} {indent fuel : Nat}
    {gap : BlockGap} {lastEnd : List Char} (h : gap.cursor.Within source) :
    (readBlockLines folded chomping indent fuel gap lastEnd).cursor.Within source := by
  induction fuel generalizing gap lastEnd with
  | zero => exact h
  | succ fuel ih =>
    unfold readBlockLines
    dsimp only
    split
    · exact h
    · refine ih (within_readBlockGap ?_)
      split
      · next hend => exact (h.span _).lineEnd? hend
      · exact h.span _

theorem scans_readBlockScalar {folded : Bool} {outer : Int} (h : c.Within source) :
    Ends (Unscannable source) (fun text => text.cursor.Within source)
      (readBlockScalar folded outer c) := by
  unfold readBlockScalar
  refine (scans_readBlockHeader h.step).bind ?_
  intro header hheader
  refine (ends_skipIgnoredLine hheader).bind ?_
  intro line hline
  refine .value (within_readBlockLines ?_)
  split
  · exact within_readBlockGap hline
  · exact within_readLeadingLines hline

/-! ### Names, tags and directives -/

theorem scans_readName {task : Task} {start : Mark} (h : c.Within source) :
    Scans source (readName task start c) := by
  unfold readName
  exact .guard (.guard (.value (h.span _)))

theorem scans_readOctetEscapes {task : Task} {start : Mark} {fuel : Nat} (h : c.Within source) :
    Scans source (readOctetEscapes task start fuel c) := by
  induction fuel generalizing c with
  | zero => exact .value h
  | succ fuel ih =>
    rw [readOctetEscapes]
    split
    · exact .value h
    · refine (Ends.forIn fun n _ => ?_).bind fun _ _ => ?_
      · split
        · exact .complaint _
        · exact .value trivial
      · refine (ih (h.step.advance 2)).bind ?_
        intro _ hcursor
        exact .value hcursor

theorem scans_readTagChars {task : Task} {start : Mark} {fuel : Nat} (h : c.Within source) :
    Scans source (readTagChars task start fuel c) := by
  induction fuel generalizing c with
  | zero => exact .value h
  | succ fuel ih =>
    rw [readTagChars]
    dsimp only
    split
    · exact .value (h.span _)
    · refine (scans_readOctetEscapes (h.span _)).bind ?_
      intro octets hoctets
      split
      · exact .complaint _
      · refine (ih hoctets).bind ?_
        intro _ hcursor
        exact .value hcursor

theorem scans_readTagText {task part : Task} {start : Mark} (h : c.Within source) :
    Scans source (readTagText task part start c) := by
  unfold readTagText
  refine (scans_readTagChars h).bind ?_
  intro text htext
  exact .guard (.value htext)

theorem scans_readHandle {task : Task} {start : Mark} (h : c.Within source) :
    Scans source (readHandle task start c) := by
  unfold readHandle
  refine .guard ?_
  dsimp only
  split
  · exact .value h.step
  · exact .guard (.value (h.step.span _).step)

theorem scans_readTag (h : c.Within source) : Scans source (readTag c) := by
  have hrest (kind : TokenKind) {behind : Cursor} (hbehind : behind.Within source) :
      @Scans Token source (if !endsPart behind.next then do
          complain .tag c.mark (.character "' '" behind.next) behind.mark
          return (⟨kind, c.mark, behind.mark⟩, behind)
        else return (⟨kind, c.mark, behind.mark⟩, behind)) :=
    .guard (.value hbehind)
  unfold readTag
  dsimp only
  split
  · refine (scans_readTagText (h.advance 2)).bind ?_
    intro text htext
    exact .guard (hrest _ htext.step)
  · split
    · exact hrest _ h.step
    · have hsuffix (handle : String) {behind : Cursor} (hbehind : behind.Within source) :
          @Scans Token source (readTagText .tag .tagPart c.mark behind >>= fun suffix =>
            if !endsPart suffix.2.next then do
              complain .tag c.mark (.character "' '" suffix.2.next) suffix.2.mark
              return (⟨.tag (some handle) suffix.1, c.mark, suffix.2.mark⟩, suffix.2)
            else return (⟨.tag (some handle) suffix.1, c.mark, suffix.2.mark⟩, suffix.2)) := by
        refine (scans_readTagText hbehind).bind ?_
        intro suffix hcursor
        exact hrest _ hcursor
      split
      · refine (scans_readHandle h).bind ?_
        intro handle hhandle
        exact hsuffix handle.1 hhandle
      · exact hsuffix "!" h.step

theorem scans_readVersionPart {start : Mark} (h : c.Within source) :
    Scans source (readVersionPart start c) := by
  have hdigits : (Cursor.spanFrom Char.isDigit c.mark c.rest).1 = c.rest.takeWhile Char.isDigit :=
    (Cursor.spanFrom_eq _ _ _).1
  unfold readVersionPart
  refine .guard ?_
  dsimp only
  rw [hdigits]
  split
  · next hlength =>
    have hinfix : c.rest.takeWhile Char.isDigit <:+: source :=
      List.IsInfix.trans (List.takeWhile_prefix _).isInfix h.isInfix
    exact .fault (.version hinfix (fun d hd => List.all_eq_true.mp List.all_takeWhile d hd) hlength)
  · exact .value (h.span _)

theorem scans_readVersion {start : Mark} (h : c.Within source) :
    Scans source (readVersion start c) := by
  unfold readVersion
  refine (scans_readVersionPart h.skipSpaces).bind ?_
  intro major hmajor
  refine .guard ((scans_readVersionPart hmajor.step).bind ?_)
  intro minor hminor
  exact .guard (.value hminor)

theorem scans_readHandleDeclaration {start : Mark} (h : c.Within source) :
    Scans source (readHandleDeclaration start c) := by
  unfold readHandleDeclaration
  refine (scans_readHandle h.skipSpaces).bind ?_
  intro handle hhandle
  refine .guard ((scans_readTagText hhandle.skipSpaces).bind ?_)
  intro lead hlead
  exact .guard (.value hlead)

theorem scans_readDirective (h : c.Within source) : Scans source (readDirective c) := by
  have hline {kind : TokenKind} {last : Mark} {behind : Cursor} (hbehind : behind.Within source) :
      @Scans Token source (skipIgnoredLine .directive c.mark behind >>= fun next =>
        return (⟨kind, c.mark, last⟩, next)) := by
    refine (ends_skipIgnoredLine hbehind).bind ?_
    intro next hnext
    exact .value hnext
  have hname := h.step.span isNameChar
  unfold readDirective
  refine .guard (.guard ?_)
  dsimp only
  split
  · refine (scans_readVersion hname).bind ?_
    intro version hversion
    exact hline hversion
  · split
    · refine (scans_readHandleDeclaration hname).bind ?_
      intro declaration hdeclaration
      exact hline hdeclaration
    · exact hline (hname.span _)

end Scanning

/-! ## The state of reading -/

namespace Reading

variable {source : List Char} {r : Reading}

/-- The state stands in the text. -/
def Within (source : List Char) (r : Reading) : Prop :=
  r.cursor.Within source

theorem Within.ite {p : Prop} [Decidable p] {other : Reading} (h : r.Within source)
    (hother : other.Within source) : (if p then r else other).Within source := by
  split
  · exact h
  · exact hother

theorem within_closeBlocks {column : Int} {outer : List Int} (h : r.Within source) :
    (closeBlocks column outer r).Within source := by
  induction outer generalizing r with
  | nil => exact h
  | cons i outer ih =>
    rw [closeBlocks]
    split
    · exact ih h
    · exact h

theorem Within.unwind (h : r.Within source) (column : Int) : (r.unwind column).Within source := by
  unfold Reading.unwind
  split
  · exact h
  · exact within_closeBlocks h

theorem Within.openBlock (h : r.Within source) (column : Nat) :
    (r.openBlock column).2.Within source := by
  unfold Reading.openBlock
  split
  · exact h
  · exact h

theorem Within.takeMany (h : r.Within source) (kind : TokenKind) (n : Nat) :
    (r.takeMany kind n).Within source :=
  Cursor.Within.advance h n

theorem Within.take (h : r.Within source) (kind : TokenKind) : (r.take kind).Within source :=
  h.takeMany kind 1

theorem within_skipBlanks {fuel : Nat} (h : r.Within source) :
    (skipBlanks fuel r).Within source := by
  induction fuel generalizing r with
  | zero => exact h
  | succ fuel ih =>
    have hblank := (Cursor.Within.skipSpaces h).skipComment
    rw [skipBlanks]
    split
    · next hend => exact ih (hblank.lineEnd? hend)
    · exact hblank

/-- A step from one state to the next. -/
def Steps (source : List Char) (x : Except Trouble Reading) : Prop :=
  Ends (Unscannable source) (Within source) x

theorem ends_demand (k : PossibleKey) :
    Ends (Unscannable source) (fun _ => True) (r.demand k) := by
  unfold demand
  split
  · exact .complaint _
  · exact .value trivial

theorem steps_dropStale (h : r.Within source) : Steps source r.dropStale := by
  unfold dropStale
  refine (Ends.forIn fun k _ => ?_).bind fun _ _ => .value h
  split
  · exact (ends_demand k).bind fun _ _ => .value trivial
  · exact .value trivial

theorem steps_dropPossible (h : r.Within source) : Steps source r.dropPossible := by
  unfold dropPossible
  split
  · exact (ends_demand _).bind fun _ _ => .value h
  · exact .value h

theorem steps_savePossible (h : r.Within source) : Steps source r.savePossible := by
  unfold savePossible
  split
  · exact .value h
  · exact (steps_dropPossible h).bind fun _ hnext => .value hnext

theorem steps_readMarker (h : r.Within source) (kind : TokenKind) :
    Steps source (r.readMarker kind) := by
  refine (steps_dropPossible (h.unwind _)).bind ?_
  intro next hnext
  exact .value (Within.takeMany (r := { next with keyAllowed := false }) hnext kind 3)

theorem steps_openBracket (h : r.Within source) (kind : TokenKind) :
    Steps source (r.openBracket kind) := by
  refine (steps_savePossible h).bind ?_
  intro next hnext
  exact .value (Cursor.Within.advance hnext 1)

theorem steps_closeBracket (h : r.Within source) (kind : TokenKind) :
    Steps source (r.closeBracket kind) := by
  refine (steps_dropPossible h).bind ?_
  intro next hnext
  exact .value (Cursor.Within.advance hnext 1)

theorem steps_enterBlock (h : r.Within source) (kind : TokenKind) (problem : Problem) :
    Steps source (r.enterBlock kind problem) := by
  unfold enterBlock
  split
  · exact .value h
  · refine .guard ?_
    have hblock := h.openBlock r.cursor.column
    dsimp only
    split
    · exact .value hblock
    · exact .value hblock

theorem steps_readEntry (h : r.Within source) : Steps source r.readEntry := by
  refine (steps_enterBlock h _ _).bind ?_
  intro next hnext
  refine (steps_dropPossible (r := { next with keyAllowed := true }) hnext).bind ?_
  intro last hlast
  exact .value (hlast.take _)

theorem steps_readKey (h : r.Within source) : Steps source r.readKey := by
  refine (steps_enterBlock h _ _).bind ?_
  intro next hnext
  refine (steps_dropPossible (r := { next with keyAllowed := !next.inFlow }) hnext).bind ?_
  intro last hlast
  exact .value (hlast.take _)

theorem steps_readValue (h : r.Within source) : Steps source r.readValue := by
  unfold readValue
  split
  · next k _ =>
    let s := { r with possible := none, keyAllowed := false }.insert k.number ⟨.key, k.mark, k.mark⟩
    have hblock : (if s.inFlow then (false, s) else s.openBlock k.mark.column).2.Within source := by
      split
      · exact h
      · exact Within.openBlock (r := s) h k.mark.column
    refine .value (Within.take (.ite ?_ ?_) _)
    · exact hblock
    · exact hblock
  · refine (steps_enterBlock h _ _).bind ?_
    intro next hnext
    exact .value (Cursor.Within.advance hnext 1)

theorem steps_readPart (h : r.Within source) {part : Cursor → Except Trouble (Token × Cursor)}
    (hpart : ∀ c : Cursor, c.Within source → Scans source (part c)) :
    Steps source (r.readPart part) := by
  refine (steps_savePossible h).bind ?_
  intro next hnext
  refine (hpart next.cursor hnext).bind ?_
  intro token htoken
  exact .value htoken

theorem scans_namePart {task : Task} {kind : String → TokenKind} {c : Cursor}
    (h : c.Within source) : Scans source (namePart task kind c) := by
  refine (scans_readName h.step).bind ?_
  intro name hname
  exact .value hname

theorem scans_quotedPart {double : Bool} {c : Cursor} (h : c.Within source) :
    Scans source (quotedPart double c) := by
  refine (scans_readQuoted h.step).bind ?_
  intro text htext
  exact .value htext

theorem steps_readPlainPart (h : r.Within source) : Steps source r.readPlainPart := by
  refine (steps_savePossible h).bind ?_
  intro next hnext
  have hstart : (PlainGap.mk [] false next.cursor).cursor.Within source := hnext
  have hplain := within_readPlain next.inFlow (next.indent + 1) (next.cursor.rest.length + 1)
    next.cursor.mark hstart
  exact .value hplain

theorem steps_readBlockPart (h : r.Within source) (folded : Bool) :
    Steps source (r.readBlockPart folded) := by
  refine (steps_dropPossible (r := { r with keyAllowed := true }) h).bind ?_
  intro next hnext
  refine (scans_readBlockScalar hnext).bind ?_
  intro text htext
  exact .value htext

theorem steps_readToken (h : r.Within source) :
    Ends (Unscannable source) (fun p => p.2.Within source) r.readToken := by
  have hmore {x : Except Trouble Reading} (hx : Steps source x) :
      Ends (Unscannable source) (fun p : Bool × Reading => p.2.Within source)
        (x.map (false, ·)) :=
    hx.map fun _ hnext => hnext
  unfold readToken
  extract_lets c ch lone more
  refine .ite ?_ (.ite ?_ ?_)
  · refine (steps_dropPossible (h.unwind _)).bind ?_
    intro next hnext
    exact .value hnext
  · refine (steps_dropPossible (h.unwind _)).bind ?_
    intro next hnext
    refine (scans_readDirective hnext).bind ?_
    intro directive hdirective
    exact .value hdirective
  refine .ite (hmore (steps_readMarker h _)) ?_
  refine .ite (hmore (steps_openBracket h _)) (.ite (hmore (steps_openBracket h _)) ?_)
  refine .ite (hmore (steps_closeBracket h _)) (.ite (hmore (steps_closeBracket h _)) ?_)
  refine .ite ?_ ?_
  · refine (steps_dropPossible (r := { r with keyAllowed := true }) h).bind ?_
    intro next hnext
    exact .value (hnext.take _)
  refine .ite (hmore (steps_readEntry h)) (.ite (hmore (steps_readKey h)) ?_)
  refine .ite (hmore (steps_readValue h)) ?_
  refine .ite (hmore (steps_readPart h fun _ => scans_namePart)) ?_
  refine .ite (hmore (steps_readPart h fun _ => scans_namePart)) ?_
  refine .ite (hmore (steps_readPart h fun _ => scans_readTag)) ?_
  refine .ite (hmore (steps_readBlockPart h _)) (.ite (hmore (steps_readBlockPart h _)) ?_)
  refine .ite (hmore (steps_readPart h fun _ => scans_quotedPart)) ?_
  refine .ite (hmore (steps_readPart h fun _ => scans_quotedPart)) ?_
  exact .ite (hmore (steps_readPlainPart h)) (.complaint _)

theorem steps_readNext (h : r.Within source) :
    Ends (Unscannable source) (fun p => p.2.Within source) r.readNext := by
  refine (steps_dropStale (within_skipBlanks h)).bind ?_
  intro fresh hfresh
  refine (steps_readToken (hfresh.unwind _)).bind ?_
  intro next hnext
  dsimp only
  split
  · exact .value hnext
  · refine (steps_dropStale hnext).bind ?_
    intro last hlast
    exact .value hlast

/-- The equation for a token more; with the step made abstract, it holds by computation. -/
theorem readAll_succ (fuel : Nat) (r : Reading) :
    readAll (fuel + 1) r =
      match r.readNext with
      | .ok (true, r) => (r.tokens.reverse, none)
      | .ok (false, r) => readAll fuel r
      | .error e => (r.tokens.reverse.take r.settled, some e) := by
  delta readAll readAll._f
  generalize readNext = step
  rfl

theorem unscannable_of_readAll {fuel : Nat} {ts : List Token} {f : Fault} (h : r.Within source)
    (hall : readAll fuel r = (ts, some (.fault f))) : Unscannable source f := by
  induction fuel generalizing r with
  | zero => exact absurd (congrArg Prod.snd hall) nofun
  | succ fuel ih =>
    have hnext := steps_readNext h
    rw [readAll_succ] at hall
    generalize r.readNext = outcome at hnext hall
    cases hnext with
    | @value p hp =>
      obtain ⟨done, next⟩ := p
      cases done with
      | true => cases hall
      | false => exact ih hp hall
    | complaint c => cases hall
    | fault hreason =>
      cases hall
      exact hreason

end Reading

/-- Where a fault stops the reading of tokens, the text asks for what there is not. -/
theorem unscannable_of_tokens {source : List Char} {ts : List Token} {f : Fault}
    (h : tokens source = (ts, some (.fault f))) : Unscannable source f := by
  refine Reading.unscannable_of_readAll ?_ h
  show (if source.head? = some '\ufeff' then source.drop 1 else source) <:+ source
  split
  · exact List.drop_suffix 1 source
  · exact List.suffix_refl source

end NoteQuery.Yaml
