/-
Layouts of timestamps.

A layout is cut into parts in one pass from the left (`Layout.scan`): where the mark of a field
begins, that mark is the next part, and every other character is a part for itself.  Formatting
does not go through the layout once, but replaces the mark of one field after the other in the whole
text.  It comes to the same as showing each part once (`Timestamp.format_scan`), for two reasons:
the mark of a field has one letter only, which no other mark has, so the places of marks do not
overlap but for those of one field; and what is put in consists of digits, which no mark has, so it
neither is replaced nor completes a mark (`Layout.isPrefix_source`).
-/
import NoteQuery.Calendar.Shift
import Mathlib.Data.List.Basic

namespace NoteQuery

/-! ## Replacing a part of a text -/

namespace Text

variable {part new cs rest : List Char} {c : Char}

theorem replaceFrom_covered (part new cs rest : List Char) :
    replaceFrom part new cs.length (cs ++ rest) = replaceFrom part new 0 rest := by
  induction cs with
  | nil => rfl
  | cons c cs ih => exact ih

/-- The part itself gives way to what is put for it. -/
theorem replaceChars_append (h : part ≠ []) :
    replaceChars part new (part ++ rest) = new ++ replaceChars part new rest := by
  obtain ⟨c, cs, rfl⟩ := List.exists_cons_of_ne_nil h
  show replaceFrom (c :: cs) new 0 (c :: (cs ++ rest)) = new ++ replaceFrom (c :: cs) new 0 rest
  have hfound : (c :: cs).isPrefixOf (c :: (cs ++ rest)) = true :=
    List.isPrefixOf_iff_prefix.mpr (List.prefix_append (c :: cs) rest)
  rw [replaceFrom, if_pos hfound]
  exact congrArg (new ++ ·) (replaceFrom_covered (c :: cs) new cs rest)

/-- A character at which the part does not begin stays. -/
theorem replaceChars_cons (h : part ≠ []) (hc : ¬ part <+: c :: cs) :
    replaceChars part new (c :: cs) = c :: replaceChars part new cs := by
  have hpart : part.isEmpty = false := List.isEmpty_eq_false_iff.mpr h
  have hnone : part.isPrefixOf (c :: cs) = false := by
    rw [← Bool.not_eq_true, List.isPrefixOf_iff_prefix]
    exact hc
  simp only [replaceChars, hpart, Bool.false_eq_true, if_false, replaceFrom, hnone]

end Text

namespace Layout

/-! ## Fields -/

/-- What of a timestamp a layout can show. -/
inductive Field where
  | year | month | day | hour | minute | second | millisecond
deriving DecidableEq

namespace Field

/-- All fields, in the order in which their marks are replaced. -/
def all : List Field :=
  [year, month, day, hour, minute, second, millisecond]

def letter : Field → Char
  | year => 'Y'
  | month => 'M'
  | day => 'D'
  | hour => 'H'
  | minute => 'm'
  | second => 's'
  | millisecond => 'S'

/-- The length of the mark, and the least number of digits. -/
def width : Field → Nat
  | year => 4
  | millisecond => 3
  | _ => 2

/-- What stands for the field in a layout: its letter, as often as digits are wanted. -/
def mark (f : Field) : List Char :=
  List.replicate f.width f.letter

example : all.map (fun f => String.ofList f.mark) =
    ["YYYY", "MM", "DD", "HH", "mm", "ss", "SSS"] := by
  decide

/-- The number that the field of a timestamp is. -/
def value (t : Timestamp) : Field → Nat
  | year => t.date.year
  | month => t.date.month
  | day => t.date.day
  | hour => t.hour
  | minute => t.minute
  | second => t.second
  | millisecond => t.millisecond

/-- The number with zeros in front. -/
def digits (t : Timestamp) (f : Field) : List Char :=
  Date.padded f.width (f.value t)

variable {f g : Field}

theorem mem_all (f : Field) : f ∈ all := by
  cases f <;> decide

theorem nodup_all : all.Nodup := by
  decide

theorem width_pos (f : Field) : 0 < f.width := by
  cases f <;> decide

theorem letter_injective : Function.Injective letter := by
  intro f g h
  cases f <;> cases g <;> simp_all [letter]

theorem letter_not_isDigit (f : Field) : f.letter.isDigit = false := by
  cases f <;> decide

theorem mark_eq_cons (f : Field) : f.mark = f.letter :: List.replicate (f.width - 1) f.letter := by
  rw [mark, ← List.replicate_succ, Nat.sub_add_cancel f.width_pos]

theorem mark_ne_nil (f : Field) : f.mark ≠ [] := by
  rw [mark_eq_cons]
  exact List.cons_ne_nil _ _

theorem isDigit_of_mem_digits {t : Timestamp} {c : Char} (h : c ∈ f.digits t) :
    c.isDigit = true := by
  rcases List.mem_append.mp h with hzero | hdigit
  · rw [List.eq_of_mem_replicate hzero]
    decide
  · exact Nat.isDigit_of_mem_toDigits (by decide) (by decide) hdigit

theorem digits_ne_nil (t : Timestamp) (f : Field) : f.digits t ≠ [] := by
  intro h
  exact Nat.toDigits_ne_nil (List.append_eq_nil_iff.mp h).2

/-- What is put in begins no mark. -/
theorem exists_digits_cons (t : Timestamp) (f g : Field) :
    ∃ c cs, f.digits t = c :: cs ∧ c ≠ g.letter := by
  obtain ⟨c, cs, hcs⟩ := List.exists_cons_of_ne_nil (digits_ne_nil t f)
  refine ⟨c, cs, hcs, ?_⟩
  rintro rfl
  have hdigit := isDigit_of_mem_digits (t := t) (f := f) (hcs ▸ List.mem_cons_self)
  rw [letter_not_isDigit] at hdigit
  exact Bool.false_ne_true hdigit

end Field

/-! ## Parts -/

/-- A field, or a character that stands for itself. -/
inductive Part where
  | field (f : Field)
  | plain (c : Char)

namespace Part

/-- The part as it stands in the layout. -/
def source : Part → List Char
  | field f => f.mark
  | plain c => [c]

/-- The part with the digits of a timestamp. -/
def shown (t : Timestamp) : Part → List Char
  | field f => f.digits t
  | plain c => [c]

/-- The part when the marks of some fields have been replaced. -/
def shownOnly (t : Timestamp) (done : List Field) : Part → List Char
  | field f => if f ∈ done then f.digits t else f.mark
  | plain c => [c]

end Part

/-- The parts of a layout, read once from the left. -/
def scan : List Char → List Part
  | [] => []
  | c :: cs =>
    match Field.all.find? (·.mark.isPrefixOf (c :: cs)) with
    | some f => .field f :: scan (cs.drop (f.width - 1))
    | none => .plain c :: scan cs
termination_by cs => cs.length
decreasing_by
  · simp only [List.length_drop, List.length_cons]
    omega
  · simp only [List.length_cons]
    omega

/-- No mark begins at a character that stands for itself. -/
def Leftmost : List Part → Prop
  | [] => True
  | .field _ :: parts => Leftmost parts
  | .plain c :: parts =>
    (∀ f : Field, ¬ f.mark <+: c :: parts.flatMap Part.source) ∧ Leftmost parts

/-- The parts make up the layout. -/
theorem source_scan (cs : List Char) : (scan cs).flatMap Part.source = cs := by
  fun_induction scan cs with
  | case1 => rfl
  | case2 c cs f hf ih =>
    have hfound := List.find?_some hf
    obtain ⟨rest, hrest⟩ := List.isPrefixOf_iff_prefix.mp hfound
    rw [Field.mark_eq_cons, List.cons_append] at hrest
    obtain ⟨hc, hcs⟩ := List.cons.inj hrest
    have hrest : cs.drop (f.width - 1) = rest := by
      rw [← hcs]
      exact List.drop_left' List.length_replicate
    rw [List.flatMap_cons, ih, hrest, Part.source, Field.mark_eq_cons, List.cons_append, hcs, hc]
  | case3 c cs hnone ih =>
    rw [List.flatMap_cons, ih]
    rfl

theorem leftmost_scan (cs : List Char) : Leftmost (scan cs) := by
  fun_induction scan cs with
  | case1 => trivial
  | case2 c cs f hf ih => exact ih
  | case3 c cs hnone ih =>
    refine ⟨fun f hf => ?_, ih⟩
    rw [source_scan, ← List.isPrefixOf_iff_prefix] at hf
    exact List.find?_eq_none.mp hnone f f.mem_all hf

/-! ## One field after the other -/

section Replacing

variable {t : Timestamp} {done : List Field} {g : Field} {cs rest : List Char}

/-- What does not have the letter of a mark stays. -/
theorem replaceChars_skip (new : List Char) (h : g.letter ∉ cs) :
    Text.replaceChars g.mark new (cs ++ rest) = cs ++ Text.replaceChars g.mark new rest := by
  induction cs with
  | nil => rfl
  | cons c cs ih =>
    obtain ⟨hne, hcs⟩ := List.ne_and_not_mem_of_not_mem_cons h
    rw [List.cons_append, List.cons_append, Text.replaceChars_cons g.mark_ne_nil, ih hcs]
    rw [Field.mark_eq_cons, List.cons_prefix_cons]
    exact fun hprefix => hne hprefix.1

/-- Letters of a field whose marks have not been replaced stand where they stood in the layout. -/
theorem isPrefix_source {k : Nat} (hg : g ∉ done) (parts : List Part) (hk : k ≤ g.width)
    (h : List.replicate k g.letter <+: parts.flatMap (Part.shownOnly t done)) :
    List.replicate k g.letter <+: parts.flatMap Part.source := by
  induction parts generalizing k with
  | nil => exact h
  | cons part parts ih =>
    cases k with
    | zero => exact List.nil_prefix
    | succ k =>
      rw [List.flatMap_cons] at h ⊢
      cases part with
      | plain c =>
        rw [List.replicate_succ] at h ⊢
        obtain ⟨hc, hrest⟩ := List.cons_prefix_cons.mp h
        exact List.cons_prefix_cons.mpr ⟨hc, ih (Nat.le_of_succ_le hk) hrest⟩
      | field f =>
        by_cases hfg : f = g
        · subst hfg
          refine List.IsPrefix.trans ?_ (List.prefix_append f.mark _)
          rw [Field.mark, List.prefix_replicate_iff, List.length_replicate]
          exact ⟨hk, rfl⟩
        · exfalso
          rw [Part.shownOnly, List.replicate_succ] at h
          split at h
          · obtain ⟨c, cs, hcs, hne⟩ := f.exists_digits_cons t g
            rw [hcs, List.cons_append] at h
            exact hne (List.cons_prefix_cons.mp h).1.symm
          · rw [Field.mark_eq_cons, List.cons_append] at h
            exact hfg (Field.letter_injective (List.cons_prefix_cons.mp h).1.symm)

/-- Replacing the marks of one more field shows its parts and no others. -/
theorem replaceChars_shownOnly (hg : g ∉ done) {parts : List Part} (h : Leftmost parts) :
    Text.replaceChars g.mark (g.digits t) (parts.flatMap (Part.shownOnly t done)) =
      parts.flatMap (Part.shownOnly t (g :: done)) := by
  induction parts with
  | nil =>
    rw [List.flatMap_nil, List.flatMap_nil, Text.replaceChars,
      if_neg (by simp [Field.mark_ne_nil])]
    rfl
  | cons part parts ih =>
    rw [List.flatMap_cons, List.flatMap_cons]
    cases part with
    | plain c =>
      rw [← ih h.2]
      refine Text.replaceChars_cons g.mark_ne_nil fun hmark => h.1 g ?_
      rw [Field.mark_eq_cons] at hmark ⊢
      obtain ⟨hc, hrest⟩ := List.cons_prefix_cons.mp hmark
      exact List.cons_prefix_cons.mpr ⟨hc, isPrefix_source hg parts (Nat.sub_le _ _) hrest⟩
    | field f =>
      rw [← ih h]
      by_cases hfg : f = g
      · subst hfg
        rw [Part.shownOnly, Part.shownOnly, if_neg hg, if_pos List.mem_cons_self]
        exact Text.replaceChars_append f.mark_ne_nil
      · have hsame :
            Part.shownOnly t (g :: done) (.field f) = Part.shownOnly t done (.field f) := by
          simp [Part.shownOnly, hfg]
        rw [hsame]
        refine replaceChars_skip _ fun hmem => ?_
        rw [Part.shownOnly] at hmem
        split at hmem
        · have hdigit := Field.isDigit_of_mem_digits hmem
          rw [Field.letter_not_isDigit] at hdigit
          exact Bool.false_ne_true hdigit
        · exact hfg (Field.letter_injective (List.eq_of_mem_replicate hmem).symm)

/-- Replacing the marks of fields one after the other shows the parts of all of them. -/
theorem foldl_replaceChars {fields : List Field} (hfields : (fields.reverse ++ done).Nodup)
    {parts : List Part} (h : Leftmost parts) :
    fields.foldl (fun cs f => Text.replaceChars f.mark (f.digits t) cs)
        (parts.flatMap (Part.shownOnly t done)) =
      parts.flatMap (Part.shownOnly t (fields.reverse ++ done)) := by
  induction fields generalizing done with
  | nil => rfl
  | cons f fields ih =>
    rw [List.reverse_cons, List.append_assoc, List.singleton_append] at hfields ⊢
    have hf : f ∉ done := (List.nodup_cons.mp (List.nodup_append.mp hfields).2.1).1
    rw [List.foldl_cons, replaceChars_shownOnly hf h, ih hfields]

end Replacing

end Layout

namespace Timestamp

open Layout

theorem format_eq_foldl (t : Timestamp) (layout : String) :
    (t.format layout).toList =
      Field.all.foldl (fun cs f => Text.replaceChars f.mark (f.digits t) cs) layout.toList :=
  String.toList_ofList

/-- A layout is formatted as if it were gone through once from the left.  Its parts make it up, no
mark begins at a character that is a part for itself, and the outcome has the digits of a field for
every part that is a mark, and the other parts as they are. -/
theorem format_scan (t : Timestamp) (layout : String) :
    (scan layout.toList).flatMap Part.source = layout.toList ∧ Leftmost (scan layout.toList) ∧
      (t.format layout).toList = (scan layout.toList).flatMap (Part.shown t) := by
  refine ⟨source_scan _, leftmost_scan _, ?_⟩
  have hnone : Part.source = Part.shownOnly t [] := by
    funext part
    cases part <;> rfl
  have hall : Part.shownOnly t (Field.all.reverse ++ []) = Part.shown t := by
    funext part
    cases part <;> simp [Part.shown, Part.shownOnly, Field.mem_all]
  have hnodup : (Field.all.reverse ++ []).Nodup := by
    rw [List.append_nil, List.Nodup, List.pairwise_reverse]
    exact Field.nodup_all.imp Ne.symm
  obtain ⟨parts, hparts⟩ : ∃ parts, parts = scan layout.toList := ⟨_, rfl⟩
  calc (t.format layout).toList
      = Field.all.foldl (fun cs f => Text.replaceChars f.mark (f.digits t) cs) layout.toList :=
        t.format_eq_foldl layout
    _ = Field.all.foldl (fun cs f => Text.replaceChars f.mark (f.digits t) cs)
          (parts.flatMap (Part.shownOnly t [])) := by rw [← hnone, hparts, source_scan]
    _ = parts.flatMap (Part.shownOnly t (Field.all.reverse ++ [])) :=
        foldl_replaceChars hnodup (hparts ▸ leftmost_scan _)
    _ = (scan layout.toList).flatMap (Part.shown t) := by rw [hall, hparts]

end Timestamp

end NoteQuery
