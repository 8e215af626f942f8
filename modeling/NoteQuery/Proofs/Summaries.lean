/-
Where summaries fail.

Nearly every summary has a value for every column.  The numbers that count are in range, so that
the middle of two of them is (`exists_medianOf_eq_ok`), and so is their deviation, since the exact
root stays below the end of the range and making it odd does not lead up to an even number
(`exists_deviationOf_eq_ok`).  What is left are the reasons of `Summary.Obstructed`, and for each of
them a summary fails (`Summary.apply_eq_error_iff`).
-/
import NoteQuery.Proofs.Extremes
import NoteQuery.Query.Summary

namespace NoteQuery

open Binary64 (overflowStart)

namespace Number

/-- The number is a finite one among the binary numbers or an integer that has one next to it. -/
def InRange : Number → Prop
  | .int n => n.natAbs < overflowStart
  | .float x => x.isFinite

/-- The number is of that magnitude at most, or a binary number. -/
def AtMost (k : Nat) : Number → Prop
  | .int n => n.natAbs ≤ k
  | .float _ => True

variable {m n : Number} {ns : List Number}

theorem InRange.not_huge (h : n.InRange) : ¬ n.Huge := by
  rintro ⟨hn⟩
  exact Nat.not_lt.mpr hn h

theorem InRange.atMost (h : n.InRange) : n.AtMost (overflowStart - 1) := by
  cases n with
  | int n => exact Nat.le_sub_one_of_lt h
  | float x => trivial

theorem InRange.not_clash (hm : m.InRange) (hn : n.InRange) : ¬ m.Clash n := by
  rintro (h | h)
  · exact hm.not_huge h
  · exact hn.not_huge h

theorem exists_combine_eq_ok {exact : Int → Int → Int}
    {rounded : Binary64 → Binary64 → Binary64} (h : ¬ m.Clash n) :
    ∃ k, combine exact rounded m n = .ok k := by
  cases hk : combine exact rounded m n with
  | error f => exact absurd (combine_eq_error_iff.mp hk).1 h
  | ok k => exact ⟨k, rfl⟩

theorem AtMost.add {j k : Nat} {total : Number} (hm : m.AtMost j) (hn : n.AtMost k)
    (h : m.add n = .ok total) : total.AtMost (j + k) := by
  cases m with
  | int a =>
    cases n with
    | int b =>
      cases h
      exact (Int.natAbs_add_le a b).trans (Nat.add_le_add hm hn)
    | float y =>
      obtain ⟨_, -, h⟩ := bind_eq_ok.mp h
      obtain ⟨_, -, h⟩ := bind_eq_ok.mp h
      cases h
      trivial
  | float x =>
    obtain ⟨_, -, h⟩ := bind_eq_ok.mp h
    obtain ⟨_, -, h⟩ := bind_eq_ok.mp h
    cases h
    trivial

/-- A sum of integers in range is at most as large as their count allows. -/
theorem sum_atMost {total : Number} (hns : ∀ n ∈ ns, n.InRange) (h : sum ns = .ok total) :
    total.AtMost (ns.length * (overflowStart - 1)) := by
  have hfold {j : Nat} {start : Number} (hstart : start.AtMost j)
      (hsum : ns.foldlM add start = .ok total) :
      total.AtMost (j + ns.length * (overflowStart - 1)) := by
    clear h
    induction ns generalizing j start with
    | nil =>
      cases hsum
      rw [List.length_nil, Nat.zero_mul]
      exact hstart
    | cons n ns ih =>
      obtain ⟨hn, hns⟩ := List.forall_mem_cons.mp hns
      rw [List.foldlM_cons] at hsum
      obtain ⟨next, hnext, hsum⟩ := bind_eq_ok.mp hsum
      have htotal := ih hns (hstart.add hn.atMost hnext) hsum
      rwa [List.length_cons, Nat.add_mul, Nat.one_mul, Nat.add_comm _ (overflowStart - 1),
        ← Nat.add_assoc]
  have hzero : (Number.int 0).AtMost 0 := Nat.le_refl 0
  have htotal := hfold hzero h
  rwa [Nat.zero_add] at htotal

/-- A number that is not too large for so many has a mean, unless it is a binary number and they
are more than the binary numbers count. -/
theorem div_eq_error_iff {k : Nat} {f : Fault} (hk : 0 < k)
    (hm : m.AtMost (k * (overflowStart - 1))) :
    m.div (.int k) = .error f ↔ m.Clash (.int k) ∧ f = .integerTooLarge := by
  cases m with
  | int a =>
    have hlt : a.natAbs < k * overflowStart :=
      Nat.lt_of_le_of_lt hm (Nat.mul_lt_mul_of_pos_left
        (Nat.sub_one_lt_of_lt Binary64.overflowStart_pos) hk)
    have hfinite : (Binary64.ofRatio (decide (a < 0) != decide ((k : Int) < 0)) a.natAbs
        (k : Int).natAbs).isFinite := (Binary64.ofRatio_isFinite_iff hk).mpr hlt
    rw [div, if_pos hfinite]
    refine iff_of_false nofun ?_
    rintro ⟨h, -⟩
    cases h
  | float x =>
    have hdiv : (float x).div (.int k) =
        ((Number.int k).toFloat >>= fun b => .ok (.float (x.div b))) := rfl
    rw [hdiv, bind_eq_error, toFloat_eq_error_iff]
    constructor
    · rintro (⟨h, rfl⟩ | ⟨_, -, h⟩)
      · exact ⟨.right h, rfl⟩
      · cases h
    · rintro ⟨h | h, rfl⟩
      · exact .inl ⟨h, rfl⟩

/-- The number halfway between two numbers is in range although their sum may not be. -/
theorem exists_half_eq_ok (hm : m.InRange) (hn : n.InRange) :
    ∃ k, (m.add n >>= fun total => total.div (.int 2)) = .ok k := by
  obtain ⟨total, htotal⟩ : ∃ total, m.add n = .ok total := exists_combine_eq_ok (hm.not_clash hn)
  have hatMost : total.AtMost (2 * (overflowStart - 1)) := by
    rw [Nat.two_mul]
    exact hm.atMost.add hn.atMost htotal
  rw [htotal]
  show ∃ k, total.div (.int 2) = .ok k
  cases hmean : total.div (.int 2) with
  | error f =>
    have htwo : (Number.int 2).InRange :=
      Binary64.two_pow_lt_overflowStart (show 1 ≤ 53 + 970 by decide)
    cases ((div_eq_error_iff Nat.two_pos hatMost).mp hmean).1 with
    | right h => exact absurd h htwo.not_huge
  | ok mean => exact ⟨mean, rfl⟩

theorem maximum_mem (n : Number) (ns : List Number) : maximum n ns ∈ n :: ns := by
  induction ns generalizing n with
  | nil => exact List.mem_cons_self
  | cons m ns ih =>
    rw [maximum]
    split
    · exact List.mem_cons_of_mem n (ih m)
    · exact ((List.sublist_cons_self m ns).cons_cons n).mem (ih n)

theorem minimum_mem (n : Number) (ns : List Number) : minimum n ns ∈ n :: ns := by
  induction ns generalizing n with
  | nil => exact List.mem_cons_self
  | cons m ns ih =>
    rw [minimum]
    split
    · exact List.mem_cons_of_mem n (ih m)
    · exact ((List.sublist_cons_self m ns).cons_cons n).mem (ih n)

end Number

namespace Summary

open Number

/-! ## Medians -/

theorem exists_medianOf_eq_ok {ns : List Number} (hns : ∀ n ∈ ns, n.InRange) :
    ∃ n, medianOf ns = .ok n := by
  have hsorted (i : Nat) :
      ((ns.mergeSort fun m n => !n.lt m).getD i 0).InRange := by
    rw [List.getD_eq_getElem?_getD]
    cases h : (ns.mergeSort fun m n => !n.lt m)[i]? with
    | none => exact Binary64.overflowStart_pos
    | some n => exact hns n (List.mem_mergeSort.mp (List.mem_of_getElem? h))
  unfold medianOf
  dsimp only
  split
  · exact ⟨_, rfl⟩
  · exact exists_half_eq_ok (hsorted _) (hsorted _)

/-! ## Deviations -/

theorem squareRoot_le (fuel n : Nat) : squareRoot fuel n * squareRoot fuel n ≤ n := by
  induction fuel generalizing n with
  | zero => exact Nat.zero_le n
  | succ fuel ih =>
    rw [squareRoot]
    split
    · exact Nat.zero_le n
    · dsimp only
      split
      · assumption
      · calc 2 * squareRoot fuel (n / 4) * (2 * squareRoot fuel (n / 4))
            = 4 * (squareRoot fuel (n / 4) * squareRoot fuel (n / 4)) := by ring
          _ ≤ 4 * (n / 4) := Nat.mul_le_mul_left 4 (ih (n / 4))
          _ ≤ n := Nat.mul_div_le n 4

/-- Making a root odd does not lead up to an even number. -/
theorem oddSquareRoot_lt {num den k : Nat} (hden : 0 < den) (hk : k % 2 = 0)
    (h : num < den * (k * k)) : oddSquareRoot num den < k := by
  have hroot := squareRoot_le (num.log2 + 1) (num / den)
  have hlt : squareRoot (num.log2 + 1) (num / den) < k := by
    have hquot : num / den < k * k := by
      rw [Nat.div_lt_iff_lt_mul hden, Nat.mul_comm]
      exact h
    exact Nat.mul_self_lt_mul_self_iff.mp (hroot.trans_lt hquot)
  unfold oddSquareRoot
  dsimp only
  split
  · exact hlt
  · next hodd =>
    simp only [Bool.or_eq_true, decide_eq_true_eq, not_or] at hodd
    omega

theorem bitLength_le_iff {n k : Nat} : bitLength n ≤ k ↔ n < 2 ^ k := by
  unfold bitLength
  split
  · next h =>
    rw [h]
    exact iff_of_true (Nat.zero_le k) (Nat.two_pow_pos k)
  · next h =>
    rw [Nat.succ_le_iff, Nat.log2_lt h]

/-- The root of a quotient is in range where the quotient is less than the square of the end of
the range. -/
theorem exists_rootOfRatio_eq_ok {num den : Nat} (hden : 0 < den)
    (h : num < den * (overflowStart * overflowStart)) : ∃ x, rootOfRatio num den = .ok x := by
  have hdigits : bitLength num ≤ bitLength den + (54 + 970 + (54 + 970)) := by
    rw [bitLength_le_iff, pow_add, pow_add 2 (54 + 970)]
    have hden : den < 2 ^ bitLength den := bitLength_le_iff.mp (Nat.le_refl _)
    have hstart := Binary64.overflowStart_le_two_pow
    calc num < den * (overflowStart * overflowStart) := h
      _ ≤ 2 ^ bitLength den * (2 ^ (54 + 970) * 2 ^ (54 + 970)) :=
        Nat.mul_le_mul hden.le (Nat.mul_le_mul hstart hstart)
  have hroot {x : Binary64} (hx : x.isFinite) :
      ∃ y, (if x.isFinite then .ok (.float x) else .error .quotientTooLarge :
        Except Fault Number) = .ok y :=
    ⟨.float x, if_pos hx⟩
  unfold rootOfRatio
  dsimp only
  apply hroot
  split
  · next hshift =>
    have hbound : (((bitLength num : Int) - bitLength den - 109).fdiv 2).toNat ≤ 969 := by
      rw [Int.fdiv_eq_ediv_of_nonneg _ (by decide)] at hshift ⊢
      omega
    generalize (((bitLength num : Int) - bitLength den - 109).fdiv 2).toNat = s at hbound ⊢
    obtain ⟨k, heven, hk⟩ := Binary64.exists_even_mul_eq_overflowStart hbound
    rw [Binary64.ofRatio_isFinite_iff Nat.one_pos, Nat.one_mul, ← hk]
    refine Nat.mul_lt_mul_of_pos_right (oddSquareRoot_lt ?_ heven ?_) (Nat.two_pow_pos s)
    · exact Nat.mul_pos hden (Nat.two_pow_pos _)
    · refine h.trans_eq ?_
      rw [← hk, pow2, pow2, Nat.pow_eq, Nat.pow_eq]
      ring
  · generalize (-((bitLength num : Int) - bitLength den - 109).fdiv 2).toNat = s
    have heven : pow2 s * overflowStart % 2 = 0 := by
      obtain ⟨k, -, hk⟩ := Binary64.exists_even_mul_eq_overflowStart (show 1 ≤ 969 by decide)
      rw [← hk, ← Nat.mul_assoc]
      exact Nat.mul_mod_left _ 2
    refine (Binary64.ofRatio_isFinite_iff (Nat.two_pow_pos s)).mpr (oddSquareRoot_lt hden heven ?_)
    calc num * pow2 (2 * s) < den * (overflowStart * overflowStart) * pow2 (2 * s) :=
          Nat.mul_lt_mul_of_pos_right h (Nat.two_pow_pos _)
      _ = den * (pow2 s * overflowStart * (pow2 s * overflowStart)) := by
          rw [pow2, pow2, Nat.pow_eq, Nat.pow_eq]
          ring

/-! ### Scaled numbers -/

/-- A finite number, scaled to an integer, is less than the end of the range scaled so. -/
theorem natAbs_scaled_lt {n : Number} {scale : Nat} (hn : n.InRange) (hscale : scaleOf n ≤ scale) :
    (scaled scale n).natAbs < overflowStart * pow2 scale := by
  cases n with
  | int n =>
    rw [scaled, Int.natAbs_mul, Int.natAbs_natCast]
    exact Nat.mul_lt_mul_of_pos_right hn (Nat.two_pow_pos scale)
  | float x =>
    cases x with
    | finite s m e hcanonical =>
      have hexponent : (-e).toNat ≤ scale := hscale
      obtain ⟨hm, -, he, -⟩ := hcanonical
      show (Binary64.signed s (m * pow2 (scale + e).toNat)).natAbs < _
      rw [Binary64.natAbs_signed]
      exact Binary64.mul_pow2_lt hm (by omega)
    | nan => cases hn
    | infinite s => cases hn

theorem sum_squares_le {xs : List Int} {b : Nat} (hxs : ∀ x ∈ xs, x.natAbs ≤ b) :
    (xs.map fun x => x * x).foldl (· + ·) 0 ≤ ((xs.length * (b * b) : Nat) : Int) := by
  rw [← List.sum_eq_foldl, ← xs.length_map (fun x => x * x), Nat.cast_mul, ← nsmul_eq_mul]
  refine List.sum_le_card_nsmul _ _ (List.forall_mem_map.mpr fun x hx => ?_)
  rw [← Int.natAbs_mul_self]
  exact Int.ofNat_le.mpr (Nat.mul_self_le_mul_self (hxs x hx))

theorem exists_deviationOf_eq_ok {ns : List Number} (hne : ns ≠ []) (hns : ∀ n ∈ ns, n.InRange) :
    ∃ n, deviationOf ns = .ok n := by
  unfold deviationOf
  dsimp only
  generalize hscale : (ns.map scaleOf).foldl max 0 = scale
  have hxs : ∀ x ∈ ns.map (scaled scale), x.natAbs ≤ overflowStart * pow2 scale - 1 := by
    refine List.forall_mem_map.mpr fun n hn => Nat.le_sub_one_of_lt ?_
    refine natAbs_scaled_lt (hns n hn) ?_
    rw [← hscale, List.foldl_max]
    exact (List.le_max?_getD_of_mem (List.mem_map_of_mem hn)).trans (le_max_right _ _)
  have hcount : 0 < (ns.map (scaled scale)).length := by
    rw [List.length_map]
    exact List.length_pos_iff.mpr hne
  generalize ns.map (scaled scale) = xs at hxs hcount ⊢
  have hsquares := sum_squares_le hxs
  generalize (xs.map fun x => x * x).foldl (· + ·) 0 = squares at hsquares ⊢
  generalize xs.foldl (· + ·) 0 = total
  have hpos : 0 < overflowStart * pow2 scale :=
    Nat.mul_pos Binary64.overflowStart_pos (Nat.two_pow_pos scale)
  refine exists_rootOfRatio_eq_ok ?_ ?_
  · exact Nat.mul_pos (Nat.mul_pos hcount hcount) (Nat.two_pow_pos _)
  · have hsplit : xs.length * xs.length * pow2 (2 * scale) * (overflowStart * overflowStart) =
        xs.length * (xs.length * (overflowStart * pow2 scale * (overflowStart * pow2 scale))) := by
      rw [pow2, pow2, Nat.pow_eq, Nat.pow_eq]
      ring
    rw [hsplit]
    generalize overflowStart * pow2 scale = bound at hpos hsquares ⊢
    have hspread : (xs.length * squares - total * total).toNat ≤
        xs.length * (xs.length * ((bound - 1) * (bound - 1))) := by
      have hmul := Int.mul_le_mul_of_nonneg_left hsquares (Int.natCast_nonneg xs.length)
      have htotal := mul_self_nonneg total
      rw [← Int.natCast_mul] at hmul
      omega
    refine hspread.trans_lt (Nat.mul_lt_mul_of_pos_left ?_ hcount)
    exact Nat.mul_lt_mul_of_pos_left (Nat.mul_self_lt_mul_self (Nat.sub_one_lt_of_lt hpos)) hcount

/-! ## Values without a number -/

/-- There is no number as which the value could count. -/
inductive Uncounted : Value → Fault → Prop
  | moment {v : Value} {t : Timestamp} : v.moment? = some t → t.OnFirstDay →
      Uncounted v (.yearOutOfRange 0)
  | huge {n : Number} : n.Huge → Uncounted (.number n) .integerTooLarge

theorem numberOf?_moment {v : Value} {t : Timestamp} (h : v.moment? = some t) :
    numberOf? v = t.epochMillis.map fun n => some (.int n) := by
  cases v with
  | date d =>
    cases h
    rfl
  | timestamp u =>
    cases h
    rfl
  | _ => cases h

theorem numberOf?_eq_error_iff {v : Value} {f : Fault} :
    numberOf? v = .error f ↔ Uncounted v f := by
  constructor
  · intro h
    cases hmoment : v.moment? with
    | some t =>
      rw [numberOf?_moment hmoment, map_eq_error, Timestamp.epochMillis_eq_error_iff] at h
      obtain ⟨hday, rfl⟩ := h
      exact .moment hmoment hday
    | none =>
      cases v with
      | number n =>
        rw [numberOf?, map_eq_error, isFinite_eq_error_iff] at h
        obtain ⟨hn, rfl⟩ := h
        exact .huge hn
      | date d => cases hmoment
      | timestamp t => cases hmoment
      | _ => cases h
  · rintro (⟨ht, hday⟩ | hn)
    · rw [numberOf?_moment ht, map_eq_error, Timestamp.epochMillis_eq_error_iff]
      exact ⟨hday, rfl⟩
    · rw [numberOf?, map_eq_error, isFinite_eq_error_iff]
      exact ⟨hn, rfl⟩

theorem inRange_of_isFinite {n : Number} (h : n.isFinite = .ok true) : n.InRange := by
  cases n with
  | int n =>
    by_contra hn
    have herror := isFinite_eq_error_iff.mpr ⟨Huge.int (Nat.not_lt.mp hn), rfl⟩
    rw [h] at herror
    cases herror
  | float x => exact Except.ok.inj h

theorem inRange_of_numberOf? {v : Value} {n : Number} (h : numberOf? v = .ok (some n)) :
    n.InRange := by
  have hsmall {k : Nat} {m : Int} (hk : k ≤ 53 + 970) (hm : m.natAbs ≤ 2 ^ k) :
      (Number.int m).InRange :=
    hm.trans_lt (Binary64.two_pow_lt_overflowStart hk)
  cases hmoment : v.moment? with
  | some t =>
    rw [numberOf?_moment hmoment, map_eq_ok] at h
    obtain ⟨millis, hmillis, h⟩ := h
    cases h
    exact hsmall (show 50 ≤ 53 + 970 by decide) (Timestamp.epochMillis_le hmillis)
  | none =>
    cases v with
    | bool b =>
      cases h
      cases b with
      | true => exact hsmall (k := 0) (by decide) (by decide)
      | false => exact hsmall (k := 0) (by decide) (by decide)
    | number m =>
      obtain ⟨finite, hfinite, h⟩ := map_eq_ok.mp h
      cases finite with
      | true =>
        cases h
        exact inRange_of_isFinite hfinite
      | false => cases h
    | string s =>
      have h : numberOfText? s = some n := Except.ok.inj h
      unfold numberOfText? at h
      split at h
      · next x _ =>
        split at h
        · next hfinite =>
          cases h
          exact hfinite
        · cases h
      · cases h
    | date d => cases hmoment
    | timestamp t => cases hmoment
    | _ => cases h

section Numbers

variable {values : List Value} {f : Fault}

theorem numbers_eq_ok {ns : List Number} :
    numbers values = .ok ns ↔ ∃ found, values.mapM numberOf? = .ok found ∧
      found.filterMap id = ns := by
  unfold numbers
  rw [bind_eq_ok]
  exact exists_congr fun found => and_congr_right fun _ => ⟨Except.ok.inj, congrArg Except.ok⟩

theorem numbers_inRange {ns : List Number} (h : numbers values = .ok ns) :
    ∀ n ∈ ns, n.InRange := by
  obtain ⟨found, hfound, rfl⟩ := numbers_eq_ok.mp h
  intro n hn
  obtain ⟨_, hmem, rfl⟩ := List.mem_filterMap.mp hn
  obtain ⟨v, -, hv⟩ := exists_of_mem_mapM hfound hmem
  exact inRange_of_numberOf? hv

/-- Some value does not count, and those before it do. -/
inductive SomeUncounted : List Value → Fault → Prop
  | at {before : List Value} {v : Value} {after : List Value} {f : Fault} :
      (∀ w ∈ before, ∃ n, numberOf? w = .ok n) → Uncounted v f →
        SomeUncounted (before ++ v :: after) f

theorem numbers_eq_error_iff : numbers values = .error f ↔ SomeUncounted values f := by
  unfold numbers
  rw [bind_eq_error, mapM_eq_error]
  constructor
  · rintro (⟨before, v, after, rfl, hbefore, hv⟩ | ⟨_, -, h⟩)
    · exact .at hbefore (numberOf?_eq_error_iff.mp hv)
    · cases h
  · rintro ⟨hbefore, hv⟩
    exact .inl ⟨_, _, _, rfl, hbefore, numberOf?_eq_error_iff.mpr hv⟩

/-- Where a summary of numbers in range never fails, the numbers are all that can be missing. -/
theorem ofNumbers_eq_error_iff {g : Number → List Number → Except Fault Number}
    (hg : ∀ n ns, (∀ m ∈ n :: ns, m.InRange) → ∃ k, g n ns = .ok k) :
    ofNumbers g values = .error f ↔ SomeUncounted values f := by
  unfold ofNumbers
  rw [bind_eq_error, numbers_eq_error_iff]
  refine or_iff_left ?_
  rintro ⟨ns, hns, h⟩
  cases ns with
  | nil => cases h
  | cons n ns =>
    obtain ⟨k, hk⟩ := hg n ns (numbers_inRange hns)
    dsimp only at h
    rw [hk] at h
    cases h

end Numbers

/-! ## Moments -/

section Moments

variable {before : Timestamp → Timestamp → Except Fault Bool} {t : Timestamp}
  {ts : List Timestamp}

/-- Some of the moments have a zone and others none. -/
def Mixed (ts : List Timestamp) : Prop :=
  ∃ t ∈ ts, ∃ u ∈ ts, t.zone.isSome ≠ u.zone.isSome

theorem not_mixed_iff : ¬ Mixed (t :: ts) ↔ ∀ u ∈ ts, u.zone.isSome = t.zone.isSome := by
  unfold Mixed
  push Not
  constructor
  · intro h u hu
    exact h u (List.mem_cons_of_mem t hu) t List.mem_cons_self
  · intro h
    have hall : ∀ u ∈ t :: ts, u.zone.isSome = t.zone.isSome := List.forall_mem_cons.mpr ⟨rfl, h⟩
    exact fun u hu w hw => (hall u hu).trans (hall w hw).symm

/-- Moments of which all or none have a zone are compared by a key. -/
def Compares (before : Timestamp → Timestamp → Except Fault Bool) (key : Timestamp → Int) : Prop :=
  ∀ t u, before t u =
    if t.zone.isSome = u.zone.isSome then .ok (decide (key t < key u)) else .error .zonesMixed

theorem isBefore_compares : Compares isBefore Timestamp.instant :=
  fun _ _ => rfl

theorem isAfter_compares : Compares (fun t u => isBefore u t) fun t => -t.instant := by
  intro t u
  simp only [isBefore, Int.neg_lt_neg_iff, eq_comm]

theorem firstBy_eq_error {key : Timestamp → Int} (hkey : Compares before key)
    (h : Mixed (t :: ts)) : firstBy before t ts = .error .zonesMixed := by
  have hother : ∃ u ∈ ts, u.zone.isSome ≠ t.zone.isSome := by
    by_contra hnone
    push Not at hnone
    exact not_mixed_iff.mpr hnone h
  clear h
  induction ts generalizing t with
  | nil =>
    obtain ⟨u, hu, -⟩ := hother
    cases hu
  | cons u us ih =>
    rw [firstBy, hkey u t]
    by_cases hu : u.zone.isSome = t.zone.isSome
    · have hother : ∃ w ∈ us, w.zone.isSome ≠ t.zone.isSome := by
        obtain ⟨w, hw, hne⟩ := hother
        rcases List.mem_cons.mp hw with rfl | hw
        · exact absurd hu hne
        · exact ⟨w, hw, hne⟩
      rw [if_pos hu]
      show (if decide (key u < key t) then firstBy before u us else firstBy before t us) = _
      split
      · exact ih (hu ▸ hother)
      · exact ih hother
    · rw [if_neg hu]
      rfl

theorem exists_firstBy_eq_ok {key : Timestamp → Int} (hkey : Compares before key)
    (h : ¬ Mixed (t :: ts)) :
    ∃ u ∈ t :: ts, firstBy before t ts = .ok u ∧ ∀ w ∈ t :: ts, key u ≤ key w := by
  have hsame := not_mixed_iff.mp h
  clear h
  induction ts generalizing t with
  | nil => exact ⟨t, List.mem_cons_self, rfl, List.forall_mem_singleton.mpr (Int.le_refl _)⟩
  | cons u us ih =>
    obtain ⟨hu, hus⟩ := List.forall_mem_cons.mp hsame
    rw [firstBy, hkey u t, if_pos hu]
    show ∃ w ∈ t :: u :: us,
      (if decide (key u < key t) then firstBy before u us else firstBy before t us) = .ok w ∧ _
    split
    · next hlt =>
      obtain ⟨w, hw, hfirst, hleast⟩ := ih (t := u) (hu ▸ hus)
      refine ⟨w, List.mem_cons_of_mem t hw, hfirst, List.forall_mem_cons.mpr ⟨?_, hleast⟩⟩
      have hwu := hleast u List.mem_cons_self
      have hlt := of_decide_eq_true hlt
      omega
    · next hle =>
      obtain ⟨w, hw, hfirst, hleast⟩ := ih hus
      obtain ⟨hwt, hleast⟩ := List.forall_mem_cons.mp hleast
      refine ⟨w, ((List.sublist_cons_self u us).cons_cons t).mem hw, hfirst, ?_⟩
      refine List.forall_mem_cons.mpr ⟨hwt, List.forall_mem_cons.mpr ⟨?_, hleast⟩⟩
      have hle := of_decide_eq_false (Bool.eq_false_iff.mpr hle)
      omega

/-- What comes no later than a moment on the first day lies there too. -/
theorem onFirstDay_of_instant_le {t u : Timestamp} (hzone : t.zone.isSome = u.zone.isSome)
    (hle : t.instant ≤ u.instant) (hu : u.OnFirstDay) : t.OnFirstDay := by
  obtain ⟨hnone, hday⟩ := hu
  have htnone : t.zone = none := by
    rw [hnone, Option.isSome_none] at hzone
    exact Option.isSome_eq_false_iff.mp hzone |> Option.isNone_iff_eq_none.mp
  refine ⟨htnone, Date.ordinal_lt_two_iff.mp ?_⟩
  have hday := Date.ordinal_lt_two_iff.mpr hday
  have hin := u.inDay
  rw [Timestamp.instant, Timestamp.instant, hnone, htnone] at hle
  dsimp only [Timestamp.wall] at hle
  unfold Calendar.dayMicros at hle hin
  omega

theorem spanOf_eq_error_iff {f : Fault} :
    spanOf t ts = .error f ↔ Mixed (t :: ts) ∧ f = .zonesMixed ∨
      ¬ Mixed (t :: ts) ∧ (∃ u ∈ t :: ts, u.OnFirstDay) ∧ f = .yearOutOfRange 0 := by
  by_cases hmixed : Mixed (t :: ts)
  · simp only [hmixed, true_and, not_true_eq_false, false_and, or_false]
    rw [spanOf, firstBy_eq_error isAfter_compares hmixed]
    exact ⟨fun h => (Except.error.inj h).symm, fun h => h ▸ rfl⟩
  · simp only [hmixed, false_and, not_false_eq_true, true_and, false_or]
    obtain ⟨last, hlast, hlastEq, -⟩ := exists_firstBy_eq_ok isAfter_compares hmixed
    obtain ⟨first, hfirst, hfirstEq, hleast⟩ := exists_firstBy_eq_ok isBefore_compares hmixed
    have hspan : spanOf t ts = (do
        let m ← last.epochMillis
        let n ← first.epochMillis
        return .int (m - n)) := by
      rw [spanOf, hlastEq, hfirstEq]
      rfl
    rw [hspan, bind_eq_error, Timestamp.epochMillis_eq_error_iff]
    constructor
    · rintro (⟨hday, rfl⟩ | ⟨_, -, h⟩)
      · exact ⟨⟨last, hlast, hday⟩, rfl⟩
      · obtain ⟨hday, rfl⟩ := Timestamp.epochMillis_eq_error_iff.mp (bind_return_eq_error.mp h)
        exact ⟨⟨first, hfirst, hday⟩, rfl⟩
    · rintro ⟨⟨u, hu, hday⟩, rfl⟩
      have hzone : first.zone.isSome = u.zone.isSome := by
        unfold Mixed at hmixed
        push Not at hmixed
        exact hmixed first hfirst u hu
      have hfirstDay := onFirstDay_of_instant_le hzone (hleast u hu) hday
      cases hmillis : last.epochMillis with
      | error f =>
        obtain ⟨hlastDay, rfl⟩ := Timestamp.epochMillis_eq_error_iff.mp hmillis
        exact .inl ⟨hlastDay, rfl⟩
      | ok m =>
        refine .inr ⟨m, rfl, bind_eq_error.mpr (.inl ?_)⟩
        exact Timestamp.epochMillis_eq_error_iff.mpr ⟨hfirstDay, rfl⟩

theorem moments?_ne_nil (values : List Value) : moments? values ≠ some [] := by
  cases values with
  | nil => nofun
  | cons v vs =>
    intro h
    rw [moments?, if_neg (by nofun), List.mapM_cons] at h
    obtain ⟨t, -, h⟩ := Option.bind_eq_some_iff.mp h
    obtain ⟨ts, -, h⟩ := Option.bind_eq_some_iff.mp h
    cases h

theorem momentBy_eq_error_iff {keyBefore : Int → Int → Bool} {values : List Value} {f : Fault} :
    momentBy keyBefore values = .error f ↔
      ∃ ts, moments? values = some ts ∧ (∃ t ∈ ts, t.OnFirstDay) ∧ f = .yearOutOfRange 0 := by
  unfold momentBy
  cases moments? values with
  | none => exact ⟨nofun, nofun⟩
  | some ts =>
    have hkeyed (t : Timestamp) (f : Fault) :
        (do return (← t.epochMillis, t) : Except Fault (Int × Timestamp)) = .error f ↔
          t.OnFirstDay ∧ f = .yearOutOfRange 0 := by
      rw [bind_return_eq_error, Timestamp.epochMillis_eq_error_iff]
    dsimp only
    rw [map_eq_error, leastBy, bind_eq_error, mapM_eq_error_alike hkeyed]
    constructor
    · rintro (h | ⟨_, -, h⟩)
      · exact ⟨ts, rfl, h⟩
      · cases h
    · rintro ⟨_, hts, h⟩
      cases hts
      exact .inl h

end Moments

/-! ## Summaries -/

/-- The summaries for which every value is turned into a number. -/
inductive Counts : Summary → List Value → Prop
  | sum {values : List Value} : Counts sum values
  | average {values : List Value} : Counts average values
  | least {values : List Value} : Counts least values
  | greatest {values : List Value} : Counts greatest values
  | median {values : List Value} : Counts median values
  | deviation {values : List Value} : Counts deviation values
  | range {values : List Value} : moments? values = none → Counts range values

/-- A summary cannot be made of values: one of them counts as a number that there is not, the
numbers cannot be added up or are too many, moments with and without zone have no order or one of
them has no epoch milliseconds, or a value has no structural key. -/
inductive Obstructed : Summary → List Value → Fault → Prop
  | uncounted {s : Summary} {values : List Value} {f : Fault} : s.Counts values →
      SomeUncounted values f → Obstructed s values f
  | sum {values : List Value} {ns : List Number} : numbers values = .ok ns → Clashing ns →
      Obstructed sum values .integerTooLarge
  | average {values : List Value} {ns : List Number} : numbers values = .ok ns → Clashing ns →
      Obstructed average values .integerTooLarge
  | tooMany {values : List Value} {ns : List Number} {total : Number} :
      numbers values = .ok ns → Number.sum ns = .ok total → total.Clash (.int ns.length) →
        Obstructed average values .integerTooLarge
  | zones {values : List Value} {ts : List Timestamp} : moments? values = some ts → Mixed ts →
      Obstructed range values .zonesMixed
  | span {values : List Value} {ts : List Timestamp} {t : Timestamp} :
      moments? values = some ts → ¬ Mixed ts → t ∈ ts → t.OnFirstDay →
        Obstructed range values (.yearOutOfRange 0)
  | earliest {values : List Value} {ts : List Timestamp} {t : Timestamp} :
      moments? values = some ts → t ∈ ts → t.OnFirstDay →
        Obstructed earliest values (.yearOutOfRange 0)
  | latest {values : List Value} {ts : List Timestamp} {t : Timestamp} :
      moments? values = some ts → t ∈ ts → t.OnFirstDay →
        Obstructed latest values (.yearOutOfRange 0)
  | keyless {before : List Value} {v : Value} {after : List Value} {f : Fault} :
      (∀ w ∈ before, ∃ key, w.stableKey = .ok key) → v.Keyless f →
        Obstructed unique (before ++ v :: after) f

section Apply

variable {values : List Value} {f : Fault}

theorem least_apply_eq_error_iff : least.apply values = .error f ↔ SomeUncounted values f :=
  ofNumbers_eq_error_iff fun n ns _ => ⟨minimum n ns, rfl⟩

theorem greatest_apply_eq_error_iff : greatest.apply values = .error f ↔ SomeUncounted values f :=
  ofNumbers_eq_error_iff fun n ns _ => ⟨maximum n ns, rfl⟩

theorem median_apply_eq_error_iff : median.apply values = .error f ↔ SomeUncounted values f :=
  ofNumbers_eq_error_iff fun _ _ => exists_medianOf_eq_ok

theorem deviation_apply_eq_error_iff :
    deviation.apply values = .error f ↔ SomeUncounted values f :=
  ofNumbers_eq_error_iff fun n ns => exists_deviationOf_eq_ok (List.cons_ne_nil n ns)

theorem sum_apply_eq_error_iff :
    sum.apply values = .error f ↔ SomeUncounted values f ∨
      ∃ ns, numbers values = .ok ns ∧ Clashing ns ∧ f = .integerTooLarge := by
  rw [apply, bind_eq_error, numbers_eq_error_iff]
  refine or_congr_right (exists_congr fun ns => and_congr_right fun _ => ?_)
  rw [bind_return_eq_error, Number.sum_eq_error_iff]

theorem average_apply_eq_error_iff :
    average.apply values = .error f ↔ SomeUncounted values f ∨
      ∃ ns, numbers values = .ok ns ∧ (Clashing ns ∨ ∃ total, Number.sum ns = .ok total ∧
        total.Clash (.int ns.length)) ∧ f = .integerTooLarge := by
  rw [apply, bind_eq_error, numbers_eq_error_iff]
  refine or_congr_right (exists_congr fun ns => and_congr_right fun hns => ?_)
  cases ns with
  | nil =>
    refine iff_of_false nofun ?_
    rintro ⟨hclashing | ⟨total, htotal, hclash⟩, -⟩
    · exact absurd (Number.sum_eq_error_iff.mpr ⟨hclashing, rfl⟩) nofun
    · cases htotal
      cases hclash
  | cons n ns =>
    have hmean {total : Number} (htotal : Number.sum (n :: ns) = .ok total) :=
      div_eq_error_iff (f := f) (List.length_pos_iff.mpr (List.cons_ne_nil n ns))
        (sum_atMost (numbers_inRange hns) htotal)
    show ((do
      let total ← Number.sum (n :: ns)
      let mean ← total.div (.int (n :: ns).length)
      return Value.number mean) : Except Fault Value) = _ ↔ _
    rw [bind_eq_error, Number.sum_eq_error_iff, or_and_right]
    refine or_congr_right ?_
    constructor
    · rintro ⟨total, htotal, h⟩
      obtain ⟨hclash, rfl⟩ := (hmean htotal).mp (bind_return_eq_error.mp h)
      exact ⟨⟨total, htotal, hclash⟩, rfl⟩
    · rintro ⟨⟨total, htotal, hclash⟩, rfl⟩
      exact ⟨total, htotal, bind_eq_error.mpr (.inl ((hmean htotal).mpr ⟨hclash, rfl⟩))⟩

theorem range_apply_eq_error_iff :
    range.apply values = .error f ↔ moments? values = none ∧ SomeUncounted values f ∨
      ∃ ts, moments? values = some ts ∧ (Mixed ts ∧ f = .zonesMixed ∨
        ¬ Mixed ts ∧ (∃ u ∈ ts, u.OnFirstDay) ∧ f = .yearOutOfRange 0) := by
  unfold apply
  have hnil := moments?_ne_nil values
  cases hmoments : moments? values with
  | none =>
    have hrange (n : Number) (ns : List Number) (h : ∀ m ∈ n :: ns, m.InRange) :
        ∃ k, (maximum n ns).sub (minimum n ns) = .ok k :=
      exists_combine_eq_ok ((h _ (maximum_mem n ns)).not_clash (h _ (minimum_mem n ns)))
    simp only [reduceCtorEq, false_and, exists_false, or_false, true_and]
    exact ofNumbers_eq_error_iff hrange
  | some ts =>
    cases ts with
    | nil => exact absurd hmoments hnil
    | cons t ts =>
      simp only [reduceCtorEq, false_and, Option.some.injEq, exists_eq_left', false_or]
      exact spanOf_eq_error_iff

theorem unique_apply_eq_error_iff :
    unique.apply values = .error f ↔ ∃ before v after, values = before ++ v :: after ∧
      (∀ w ∈ before, ∃ key, w.stableKey = .ok key) ∧ v.Keyless f := by
  rw [apply, bind_return_eq_error, mapM_eq_error]
  simp only [Value.stableKey_eq_error_iff]

theorem Obstructed.apply_eq {s : Summary} (h : s.Obstructed values f) :
    s.apply values = .error f := by
  cases h with
  | uncounted hcounts h =>
    cases hcounts with
    | sum => exact sum_apply_eq_error_iff.mpr (.inl h)
    | average => exact average_apply_eq_error_iff.mpr (.inl h)
    | least => exact least_apply_eq_error_iff.mpr h
    | greatest => exact greatest_apply_eq_error_iff.mpr h
    | median => exact median_apply_eq_error_iff.mpr h
    | deviation => exact deviation_apply_eq_error_iff.mpr h
    | range hmoments => exact range_apply_eq_error_iff.mpr (.inl ⟨hmoments, h⟩)
  | sum hns h => exact sum_apply_eq_error_iff.mpr (.inr ⟨_, hns, h, rfl⟩)
  | average hns h => exact average_apply_eq_error_iff.mpr (.inr ⟨_, hns, .inl h, rfl⟩)
  | tooMany hns htotal h =>
    exact average_apply_eq_error_iff.mpr (.inr ⟨_, hns, .inr ⟨_, htotal, h⟩, rfl⟩)
  | zones hts h => exact range_apply_eq_error_iff.mpr (.inr ⟨_, hts, .inl ⟨h, rfl⟩⟩)
  | span hts hmixed ht h =>
    exact range_apply_eq_error_iff.mpr (.inr ⟨_, hts, .inr ⟨hmixed, ⟨_, ht, h⟩, rfl⟩⟩)
  | earliest hts ht h => exact momentBy_eq_error_iff.mpr ⟨_, hts, ⟨_, ht, h⟩, rfl⟩
  | latest hts ht h => exact momentBy_eq_error_iff.mpr ⟨_, hts, ⟨_, ht, h⟩, rfl⟩
  | keyless hbefore h => exact unique_apply_eq_error_iff.mpr ⟨_, _, _, rfl, hbefore, h⟩

theorem obstructed_of_apply {s : Summary} (h : s.apply values = .error f) :
    s.Obstructed values f := by
  cases s with
  | sum =>
    rcases sum_apply_eq_error_iff.mp h with hcount | ⟨ns, hns, hclashing, rfl⟩
    · exact .uncounted .sum hcount
    · exact .sum hns hclashing
  | average =>
    rcases average_apply_eq_error_iff.mp h with hcount | ⟨ns, hns, hmean, rfl⟩
    · exact .uncounted .average hcount
    · rcases hmean with hclashing | ⟨total, htotal, hclash⟩
      · exact .average hns hclashing
      · exact .tooMany hns htotal hclash
  | least => exact .uncounted .least (least_apply_eq_error_iff.mp h)
  | greatest => exact .uncounted .greatest (greatest_apply_eq_error_iff.mp h)
  | median => exact .uncounted .median (median_apply_eq_error_iff.mp h)
  | deviation => exact .uncounted .deviation (deviation_apply_eq_error_iff.mp h)
  | range =>
    rcases range_apply_eq_error_iff.mp h with ⟨hnone, hcount⟩ | ⟨ts, hts, hspan⟩
    · exact .uncounted (.range hnone) hcount
    · rcases hspan with ⟨hmixed, rfl⟩ | ⟨hmixed, ⟨t, ht, hday⟩, rfl⟩
      · exact .zones hts hmixed
      · exact .span hts hmixed ht hday
  | earliest =>
    obtain ⟨ts, hts, ⟨t, ht, hday⟩, rfl⟩ := momentBy_eq_error_iff.mp h
    exact .earliest hts ht hday
  | latest =>
    obtain ⟨ts, hts, ⟨t, ht, hday⟩, rfl⟩ := momentBy_eq_error_iff.mp h
    exact .latest hts ht hday
  | unique =>
    obtain ⟨before, v, after, rfl, hbefore, hv⟩ := unique_apply_eq_error_iff.mp h
    exact .keyless hbefore hv
  | count => cases h
  | checked => cases h
  | unchecked => cases h
  | empty => cases h
  | filled => cases h

/-- A summary fails for these reasons and for no other. -/
theorem apply_eq_error_iff {s : Summary} : s.apply values = .error f ↔ s.Obstructed values f :=
  ⟨obstructed_of_apply, Obstructed.apply_eq⟩

end Apply

end Summary

end NoteQuery
