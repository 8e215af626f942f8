/-
Integers beside their texts.

A number is compared with a text as the number that the text writes, and that is always a binary
one: the text of an integer writes the binary number nearest to the integer
(`Value.numberOfText?_integer`).  The comparison itself is exact, so an integer equals the text of
another exactly if it is that nearest number (`Expr.eval_equal_toString`).  With no more than 53
binary digits before zeros this is the integer itself; any other integer differs from its own text,
and the text equals a neighbour.
-/
import NoteQuery.Proofs.Equality
import NoteQuery.Proofs.Guards
import NoteQuery.Proofs.Numerals

namespace NoteQuery

open Binary64 (IsShort overflowStart roundInt)

namespace Value

variable {n : Int}

/-- The text of an integer writes the binary number nearest to it. -/
theorem numberOfText?_integer (hn : n.natAbs < overflowStart) :
    numberOfText? (String.ofList (Number.integerText n)) = some (.float (Binary64.ofInt n)) := by
  have hread : Binary64.ofChars? (Number.integerText n) = some (Binary64.ofInt n) := by
    rw [← PlainNumeral.chars_ofInt, PlainNumeral.ofChars?_chars, PlainNumeral.value_ofInt hn]
  have hblank : Text.isBlankText (String.ofList (Number.integerText n)) = false := by
    rw [Text.isBlankText, String.toList_ofList, ← PlainNumeral.chars_ofInt]
    exact (PlainNumeral.ofInt n).all_isBlank_chars
  have hfinite : (Binary64.ofInt n).isFinite = true := Binary64.ofInt_isFinite_iff.mpr hn
  rw [numberOfText?, hblank, String.toList_ofList, hread]
  simp only [hfinite, if_true, Bool.false_eq_true, if_false]

end Value

/-- An integer equals the binary number for another exactly if that is rounded to it. -/
theorem Number.same_ofInt {m n : Int} (hn : n.natAbs < overflowStart) :
    (int m).same (.float (Binary64.ofInt n)) = decide (m = roundInt n) := by
  have hplace := Binary64.ofInt_place hn
  have hcompare := compareIntFloat?_eq m (Binary64.isNan_of_place hplace)
  rw [hplace, Line.cmp_at] at hcompare
  rw [same, compare?, hcompare, Bool.eq_iff_iff, beq_iff_eq, decide_eq_true_eq, Option.some.injEq,
    cmp_eq_eq_iff]
  exact Int.cast_inj

namespace Expr

variable {s : Scope} {left right : Expr} {m n : Int}

theorem eval_toString
    (hlibrary : (s.library.method? (some .number) "toString").map (·.op) = some .toText)
    (hright : right.eval s = .ok (.int n)) (hn : n.natAbs < overflowStart) :
    (call (member right "toString") []).eval s =
      .ok (.string (String.ofList (Number.integerText n))) := by
  have hdisplay : (Value.int n).display = .ok (String.ofList (Number.integerText n)) :=
    Value.display_number (Number.isWritable_of_lt hn)
  rw [eval_bare_method hlibrary rfl hright]
  simp only [Library.MethodOp.apply, Library.bare, Library.displayed, hdisplay]
  rfl

/-- An integer beside the text of another, on either side. -/
theorem eval_equal_text
    (hlibrary : (s.library.method? (some .number) "toString").map (·.op) = some .toText)
    (hleft : left.eval s = .ok (.int m)) (hright : right.eval s = .ok (.int n))
    (hn : n.natAbs < overflowStart) :
    (binary .equal left (call (member right "toString") [])).eval s =
        .ok (.bool (decide (m = roundInt n))) ∧
      (binary .equal (call (member right "toString") []) left).eval s =
        .ok (.bool (decide (m = roundInt n))) := by
  have htext := eval_toString hlibrary hright hn
  have hnumber (strict : Bool) :
      (Value.string (String.ofList (Number.integerText n))).toNumber strict =
        .ok (.float (Binary64.ofInt n)) := by
    rw [Value.toNumber, Value.numberOfText?_integer hn]
  have hsame := Number.same_ofInt (m := m) hn
  rw [eval_equal hleft htext, eval_equal htext hleft, Value.equals_of_numbers (.inl rfl),
    Value.equals_of_numbers (.inr rfl), hnumber, ← hsame]
  refine ⟨rfl, ?_⟩
  rw [Number.same_comm]
  rfl

/-- An integer equals the text of another exactly if it is the binary number nearest to that.  So
it equals its own text exactly if it has no more than 53 binary digits before zeros, and then no
other integer equals that text. -/
theorem eval_equal_toString
    (hlibrary : (s.library.method? (some .number) "toString").map (·.op) = some .toText)
    (hleft : left.eval s = .ok (.int m)) (hright : right.eval s = .ok (.int n))
    (hn : n.natAbs < overflowStart) :
    (binary .equal left (call (member right "toString") [])).eval s =
        .ok (.bool (decide (m = roundInt n))) ∧
      (binary .equal (call (member right "toString") []) left).eval s =
        .ok (.bool (decide (m = roundInt n))) ∧
      ((binary .equal right (call (member right "toString") [])).eval s = .ok (.bool true) ↔
        IsShort n) ∧
      ((binary .equal (call (member right "toString") []) right).eval s = .ok (.bool true) ↔
        IsShort n) ∧
      (IsShort n → (binary .equal left (call (member right "toString") [])).eval s =
        .ok (.bool true) → m = n) := by
  obtain ⟨hbefore, hbehind⟩ := eval_equal_text hlibrary hleft hright hn
  obtain ⟨hown, hown'⟩ := eval_equal_text hlibrary hright hright hn
  have hself : decide (n = roundInt n) = true ↔ IsShort n := by
    rw [decide_eq_true_eq, eq_comm]
    exact Binary64.roundInt_eq_self_iff
  refine ⟨hbefore, hbehind, ?_, ?_, fun hshort htrue => ?_⟩
  · simpa only [hown, Except.ok.injEq, Value.bool.injEq] using hself
  · simpa only [hown', Except.ok.injEq, Value.bool.injEq] using hself
  · rw [hbefore] at htrue
    have hm : m = roundInt n := by simpa using htrue
    exact hm.trans (Binary64.roundInt_of_isShort hshort)

theorem builtin_toString :
    (Library.Registry.builtin.method? (some .number) "toString").map (·.op) = some .toText := by
  decide +kernel

/-- A power of two of 300 digits. -/
theorem eval_equal_toString_power :
    (binary .equal (literal (.number (.int (2 ^ 996))) "")
      (call (member (literal (.number (.int (2 ^ 996))) "") "toString") [])).eval blankScope =
        .ok (.bool true) := by
  have hbase := eval_int (2 ^ 996) "" blankScope
  have hdigits : (Nat.toDigits 10 (2 ^ 996 : Int).natAbs).length ≤ 3 * 100 := by decide +kernel
  have hshort : IsShort (2 ^ 996) := ⟨1, 996, by decide, by decide +kernel⟩
  obtain ⟨-, -, hiff, -⟩ := eval_equal_toString builtin_toString hbase hbase
    (Binary64.lt_overflowStart_of_digits hdigits (by decide) (by decide))
  exact hiff.mpr hshort

/-- The first odd integer beyond 2⁵³ differs from its text, which the integer before it equals. -/
theorem eval_equal_toString_odd :
    (binary .equal (literal (.number 9007199254740993) "9007199254740993")
      (call (member (literal (.number 9007199254740993) "9007199254740993") "toString") [])).eval
        blankScope = .ok (.bool false) ∧
    (binary .equal (literal (.number 9007199254740992) "9007199254740992")
      (call (member (literal (.number 9007199254740993) "9007199254740993") "toString") [])).eval
        blankScope = .ok (.bool true) := by
  have hodd := eval_int 9007199254740993 "9007199254740993" blankScope
  have heven := eval_int 9007199254740992 "9007199254740992" blankScope
  have hrange : (9007199254740993 : Int).natAbs < overflowStart := by decide +kernel
  have hround : roundInt 9007199254740993 = 9007199254740992 := by decide +kernel
  obtain ⟨hown, -⟩ := eval_equal_text builtin_toString hodd hodd hrange
  obtain ⟨hother, -⟩ := eval_equal_text builtin_toString heven hodd hrange
  rw [hround] at hown hother
  exact ⟨hown, hother⟩

end Expr

end NoteQuery
