/-
Remainders of integers.

A remainder of binary numbers needs no rounding (`Binary64.rem_place`).  But integers are rounded
before it is taken, so what comes out is the remainder of the nearest binary numbers
(`Number.rem_int`), and that of the integers themselves where they have few digits
(`Expr.eval_modulo_integers`).
-/
import NoteQuery.Proofs.Guards
import NoteQuery.Proofs.RoundedIntegers

namespace NoteQuery

open Binary64 (overflowStart roundInt IsShort)

namespace Binary64

section Remainders

variable {m n : Nat} {d e : Int}

theorem refine_self (n : Nat) (e : Int) : refine n e e = n := by
  simp [refine]

/-- On the finer of two grids a remainder has no more digits than the number that stands on it. -/
theorem refine_mod_lt (hm : m < pow2 53) (hn : n < pow2 53) (hpos : 0 < n) :
    refine m d (min d e) % refine n e (min d e) < pow2 53 := by
  rcases le_total d e with h | h
  · rw [min_eq_left h, refine_self]
    exact (Nat.mod_le _ _).trans_lt hm
  · rw [min_eq_right h, refine_self]
    exact (Nat.mod_lt _ hpos).trans hn

theorem tmod_signed (s t : Bool) (m n : Nat) :
    (signed s m).tmod (signed t n) = signed s (m % n) := by
  have hnat : (m : Int).tmod n = (m % n : Nat) := rfl
  cases s <;> cases t <;> simp [signed, hnat]

/-- Integers on a grid leave the remainder that their steps leave. -/
theorem tmod_mul_zpow {p q a b : Int} (hp : (p * 2 ^ e : ℚ) = a) (hq : (q * 2 ^ e : ℚ) = b) :
    (p.tmod q * 2 ^ e : ℚ) = a.tmod b := by
  have hpow (k : Nat) : (0 : Int) < 2 ^ k := Int.pow_pos two_pos
  rcases Int.le_total 0 e with he | he
  · obtain ⟨k, rfl⟩ := Int.eq_ofNat_of_zero_le he
    have ha : a = 2 ^ k * p := by
      rw [zpow_natCast, mul_comm] at hp
      exact_mod_cast hp.symm
    have hb : b = 2 ^ k * q := by
      rw [zpow_natCast, mul_comm] at hq
      exact_mod_cast hq.symm
    rw [ha, hb, Int.mul_tmod_mul_of_pos _ _ (hpow k), zpow_natCast]
    push_cast
    ring
  · obtain ⟨k, hk⟩ := Int.eq_ofNat_of_zero_le (Int.neg_nonneg_of_nonpos he)
    obtain rfl : e = -k := by omega
    have hk' : (2 ^ k : ℚ) ≠ 0 := pow_ne_zero k two_ne_zero
    have hp' : p = 2 ^ k * a := by
      rw [zpow_neg, zpow_natCast, ← div_eq_mul_inv, div_eq_iff hk', mul_comm] at hp
      exact_mod_cast hp
    have hq' : q = 2 ^ k * b := by
      rw [zpow_neg, zpow_natCast, ← div_eq_mul_inv, div_eq_iff hk', mul_comm] at hq
      exact_mod_cast hq
    rw [hp', hq', Int.mul_tmod_mul_of_pos _ _ (hpow k), zpow_neg, zpow_natCast]
    push_cast
    field_simp

/-- The remainder of two integers, however large, is a binary number with them. -/
theorem rem_place {x y : Binary64} {a b : Int} (hx : x.place = Line.at a)
    (hy : y.place = Line.at b) (hb : b ≠ 0) : (x.rem y).place = Line.at (a.tmod b) := by
  obtain ⟨s, m, d, hm, rfl, hA⟩ := exists_of_place hx
  obtain ⟨t, n, e, hn, rfl, hB⟩ := exists_of_place hy
  have hn0 : n ≠ 0 := by
    rintro rfl
    refine hb (Int.cast_eq_zero.mp (hB.symm.trans ?_))
    cases t <;> simp [signed]
  rw [rem, if_neg hn0]
  have hlt : refine m d (min d e) % refine n e (min d e) < pow2 53 :=
    refine_mod_lt hm.1 hn.1 (Nat.pos_of_ne_zero hn0)
  have hp : (signed s (refine m d (min d e)) * 2 ^ min d e : ℚ) = a :=
    (signed_mul_zpow (refine_value (min_le_left d e))).trans hA
  have hq : (signed t (refine n e (min d e)) * 2 ^ min d e : ℚ) = b :=
    (signed_mul_zpow (refine_value (min_le_right d e))).trans hB
  refine (ofDyadic_place_eq hlt (le_min hm.2.1 hn.2.1) (min_le_of_left_le hm.2.2.1)).trans ?_
  rw [← tmod_signed s t, tmod_mul_zpow hp hq]

end Remainders

end Binary64

namespace Number

variable {a b : Int}

theorem toFloat_int (a : Int) : (Number.int a).toFloat =
    if a.natAbs < overflowStart then .ok (Binary64.ofInt a) else .error .integerTooLarge := by
  simp only [toFloat, Binary64.ofInt_isFinite_iff]

/-- The remainder of two integers is that of the nearest binary numbers, if there are such. -/
theorem rem_int (hb : b ≠ 0) : (Number.int a).rem (.int b) =
    if a.natAbs < overflowStart ∧ b.natAbs < overflowStart then
      .ok (.int ((roundInt a).tmod (roundInt b)))
    else .error .integerTooLarge := by
  by_cases ha : a.natAbs < overflowStart
  · by_cases hb' : b.natAbs < overflowStart
    · have hplace := Binary64.rem_place (Binary64.ofInt_place ha) (Binary64.ofInt_place hb')
        (Binary64.roundInt_ne_zero hb)
      have hpart := Binary64.toInt?_of_place hplace .towardZero
      rw [if_pos ⟨ha, hb'⟩]
      refine bind_eq_ok.mpr ⟨_, (toFloat_int a).trans (if_pos ha), ?_⟩
      refine bind_eq_ok.mpr ⟨_, (toFloat_int b).trans (if_pos hb'), ?_⟩
      simp [Binary64.isNan_of_place hplace, integerPart, hpart]
    · simp only [rem, toFloat_int, if_pos ha, if_neg hb', if_neg (fun h => hb' (And.right h))]
      rfl
  · simp only [rem, toFloat_int, if_neg ha, if_neg (fun h => ha (And.left h))]
    rfl

end Number

/-! ## The operator -/

/-- `r` is what the quotient of `a` by `b`, cut to an integer, leaves of `a`: smaller than `b`, and
of the sign of `a` unless it is nothing. -/
def IsRemainder (a b r : Int) : Prop :=
  a = b * a.tdiv b + r ∧ r.natAbs < b.natAbs ∧ (r = 0 ∨ r.sign = a.sign)

theorem isRemainder_tmod {a b : Int} (hb : b ≠ 0) : IsRemainder a b (a.tmod b) := by
  refine ⟨(Int.mul_tdiv_add_tmod a b).symm, ?_, ?_⟩
  · rw [Int.natAbs_tmod]
    exact Nat.mod_lt _ (Int.natAbs_pos.mpr hb)
  · rcases lt_trichotomy (a.tmod b) 0 with h | h | h
    · have ha : a < 0 := by
        by_contra hnonneg
        exact absurd (Int.tmod_nonneg b (not_lt.mp hnonneg)) (not_le.mpr h)
      exact .inr ((Int.sign_eq_neg_one_of_neg h).trans (Int.sign_eq_neg_one_of_neg ha).symm)
    · exact .inl h
    · have ha : 0 < a := by
        by_contra hnonpos
        have hneg := Int.tmod_nonneg b (Int.neg_nonneg_of_nonpos (not_lt.mp hnonpos))
        rw [Int.neg_tmod] at hneg
        omega
      exact .inr ((Int.sign_eq_one_of_pos h).trans (Int.sign_eq_one_of_pos ha).symm)

theorem isRemainder_iff {a b r : Int} (hb : b ≠ 0) : IsRemainder a b r ↔ r = a.tmod b := by
  constructor
  · intro h
    have hdiv := Int.mul_tdiv_add_tmod a b
    have hrem := h.1
    omega
  · rintro rfl
    exact isRemainder_tmod hb

namespace Expr

variable {left right : Expr} {s : Scope} {a b : Int}

theorem eval_modulo (hleft : left.eval s = .ok (.int a)) (hright : right.eval s = .ok (.int b))
    (hb : b ≠ 0) : (binary .modulo left right).eval s =
      if a.natAbs < overflowStart ∧ b.natAbs < overflowStart then
        .ok (.int ((roundInt a).tmod (roundInt b)))
      else .error (.evaluation (.arithmetic .integerTooLarge)) := by
  have hzero : ¬ (Number.int b).isZero = true := by
    simpa [Number.isZero] using hb
  have hmodulo : s.modulo (.int a) (.int b) = do
      return .number (← Failure.ofFault ((Number.int a).rem (.int b))) := by
    have hstart : s.modulo (.int a) (.int b) = if (Number.int b).isZero then s.fail .moduloByZero
        else do return .number (← Failure.ofFault ((Number.int a).rem (.int b))) := rfl
    rw [hstart, if_neg hzero]
  have heval : (binary .modulo left right).eval s =
      Scope.guardArithmetic (s.modulo (.int a) (.int b)) := by
    rw [eval, hleft, hright]
    · rfl
    · simp
    · simp
  rw [heval, hmodulo, Number.rem_int hb]
  split
  · rfl
  · rfl

/-- The remainder of two integers is that of the nearest binary numbers, beyond which there is
none; so it is right exactly where the two agree, as they do where the integers have few digits. -/
theorem eval_modulo_integers (hleft : left.eval s = .ok (.int a))
    (hright : right.eval s = .ok (.int b)) (hb : b ≠ 0) :
    (a.natAbs < overflowStart → b.natAbs < overflowStart →
      ∃ r, (binary .modulo left right).eval s = .ok (.int r) ∧
        IsRemainder (roundInt a) (roundInt b) r) ∧
    (overflowStart ≤ a.natAbs ∨ overflowStart ≤ b.natAbs →
      (binary .modulo left right).eval s =
        .error (.evaluation (.arithmetic .integerTooLarge))) ∧
    ((∃ r, (binary .modulo left right).eval s = .ok (.int r) ∧ IsRemainder a b r) ↔
      (a.natAbs < overflowStart ∧ b.natAbs < overflowStart) ∧
        (roundInt a).tmod (roundInt b) = a.tmod b) ∧
    (IsShort a → IsShort b → (roundInt a).tmod (roundInt b) = a.tmod b) := by
  have heval := eval_modulo hleft hright hb
  refine ⟨fun ha hb' => ?_, fun hlarge => ?_, ?_, fun ha hb' => ?_⟩
  · rw [if_pos ⟨ha, hb'⟩] at heval
    exact ⟨_, heval, isRemainder_tmod (Binary64.roundInt_ne_zero hb)⟩
  · rw [if_neg (by omega)] at heval
    exact heval
  · rw [heval]
    simp only [isRemainder_iff hb, exists_eq_right]
    split
    · next hrange => simp [hrange, Value.int]
    · next hrange => simp [hrange]
  · rw [Binary64.roundInt_of_isShort ha, Binary64.roundInt_of_isShort hb']

/-- The remainder of a negative number is negative. -/
theorem eval_modulo_negative :
    (binary .modulo (unary .negate (literal (.number 7) "7")) (literal (.number 3) "3")).eval
      blankScope = .ok (.int (-1)) := by
  have hrange : (-7 : Int).natAbs < overflowStart ∧ (3 : Int).natAbs < overflowStart := by
    decide +kernel
  have hleft : (unary .negate (literal (.number 7) "7")).eval blankScope = .ok (.int (-7)) := by
    rw [eval, eval]
    rfl
  obtain ⟨-, -, hiff, hagree⟩ := eval_modulo_integers hleft (eval_int 3 "3" blankScope) (by decide)
  have hshort : IsShort (-7) ∧ IsShort 3 :=
    ⟨Binary64.isShort_of_natAbs_le (by norm_num), Binary64.isShort_of_natAbs_le (by norm_num)⟩
  obtain ⟨r, hr, hrem, -, -⟩ := hiff.mpr ⟨hrange, hagree hshort.1 hshort.2⟩
  have hquot : (-7 : Int).tdiv 3 = -2 := by decide
  obtain rfl : r = -1 := by omega
  exact hr

/-- The first integer with too many digits is odd, but rounded it leaves nothing over. -/
theorem eval_modulo_rounded :
    (binary .modulo (literal (.number 9007199254740993) "9007199254740993")
      (literal (.number 2) "2")).eval blankScope = .ok (.int 0) ∧
    ¬ IsRemainder 9007199254740993 2 0 := by
  constructor
  · have hround : (roundInt 9007199254740993).tmod (roundInt 2) = 0 := by decide +kernel
    have hrange : (9007199254740993 : Int).natAbs < overflowStart ∧
        (2 : Int).natAbs < overflowStart := by
      decide +kernel
    have heval := eval_modulo (eval_int 9007199254740993 "9007199254740993" blankScope)
      (eval_int 2 "2" blankScope) (by decide)
    rwa [if_pos hrange, hround] at heval
  · rintro ⟨h, -⟩
    omega

end Expr

end NoteQuery
