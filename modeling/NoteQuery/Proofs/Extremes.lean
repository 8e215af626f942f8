/-
Values at the ends of their ranges.

Two things have no number that evaluation can count with.  A moment without a zone on the first
day of the calendar has no epoch milliseconds, since the clock of the day before is looked at
(`epochMillis_eq_error_iff`); and an integer beyond the binary numbers meets none of them in
arithmetic (`Number.Huge`).  Two more have no text: an integer with too many digits, and a value
that contains itself.  Whatever fails below numbers, comparisons, equality and structural keys fails
for one of these.
-/
import NoteQuery.Proofs.Rounding
import NoteQuery.Proofs.StructuralKeys
import NoteQuery.Value.Order
import Mathlib.Data.Nat.Cast.Order.Field
import Mathlib.Tactic.NormNum

namespace NoteQuery

/-- The faults for which values at the ends of their ranges are the cause. -/
inductive Fault.Extreme : Fault → Prop
  | firstDay : Extreme (.yearOutOfRange 0)
  | tooLarge : Extreme .integerTooLarge
  | tooLong : Extreme .integerTooLong
  | circular : Extreme .selfContaining

/-! ## Numbers -/

namespace Number

/-- An integer that no binary number is next to. -/
inductive Huge : Number → Prop
  | int {n : Int} : Binary64.overflowStart ≤ n.natAbs → Huge (.int n)

/-- One number is a binary number, and the other an integer beyond them. -/
inductive Clash : Number → Number → Prop
  | left {m : Number} {y : Binary64} : m.Huge → Clash m (.float y)
  | right {x : Binary64} {n : Number} : n.Huge → Clash (.float x) n

theorem toFloat_eq_error_iff {n : Number} {f : Fault} :
    n.toFloat = .error f ↔ n.Huge ∧ f = .integerTooLarge := by
  cases n with
  | int n =>
    rw [toFloat]
    split
    · next h =>
      rw [Binary64.ofInt_isFinite_iff] at h
      exact ⟨nofun, fun ⟨.int hn, _⟩ => absurd h (Nat.not_lt.mpr hn)⟩
    · next h =>
      rw [Binary64.ofInt_isFinite_iff, Nat.not_lt] at h
      exact ⟨fun hf => ⟨.int h, (Except.error.inj hf).symm⟩, fun ⟨_, hf⟩ => hf ▸ rfl⟩
  | float x => exact ⟨nofun, fun ⟨h, _⟩ => nomatch h⟩

theorem isFinite_eq_error_iff {n : Number} {f : Fault} :
    n.isFinite = .error f ↔ n.Huge ∧ f = .integerTooLarge := by
  cases n with
  | int n => rw [isFinite, map_eq_error, toFloat_eq_error_iff]
  | float x => exact ⟨nofun, fun ⟨h, _⟩ => nomatch h⟩

section Combine

variable {exact : Int → Int → Int} {rounded : Binary64 → Binary64 → Binary64} {m n : Number}
  {f : Fault}

theorem combine_eq_error_iff :
    combine exact rounded m n = .error f ↔ m.Clash n ∧ f = .integerTooLarge := by
  have hrounded (n : Number) (g : Binary64 → Number) :
      (n.toFloat >>= fun a => .ok (g a) : Except Fault Number) = .error f ↔
        n.Huge ∧ f = .integerTooLarge := by
    rw [bind_eq_error, toFloat_eq_error_iff]
    exact or_iff_left (fun ⟨_, _, h⟩ => nomatch h)
  cases m with
  | int m =>
    cases n with
    | int n => exact ⟨nofun, fun ⟨h, _⟩ => nomatch h⟩
    | float y =>
      refine (hrounded (.int m) fun a => .float (rounded a y)).trans (and_congr_left fun _ => ?_)
      constructor
      · exact Clash.left
      · rintro (h | h)
        exact h
  | float x =>
    cases n with
    | int n =>
      refine (hrounded (.int n) fun b => .float (rounded x b)).trans (and_congr_left fun _ => ?_)
      constructor
      · exact Clash.right
      · rintro (h | h)
        exact h
    | float y =>
      refine iff_of_false nofun ?_
      rintro ⟨h | h, -⟩
      · cases h
      · cases h

end Combine

/-- Somewhere in the sum from the left an integer beyond the binary numbers meets one of them. -/
inductive Clashing : List Number → Prop
  | at {before after : List Number} {n total : Number} : sum before = .ok total → total.Clash n →
      Clashing (before ++ n :: after)

theorem sum_eq_error_iff {ns : List Number} {f : Fault} :
    sum ns = .error f ↔ Clashing ns ∧ f = .integerTooLarge := by
  rw [sum, foldlM_eq_error]
  constructor
  · rintro ⟨before, n, after, total, rfl, htotal, h⟩
    obtain ⟨hclash, rfl⟩ := combine_eq_error_iff.mp h
    exact ⟨.at htotal hclash, rfl⟩
  · rintro ⟨⟨htotal, hclash⟩, rfl⟩
    exact ⟨_, _, _, _, rfl, htotal, combine_eq_error_iff.mpr ⟨hclash, rfl⟩⟩

end Number

/-! ## Durations -/

/-- The length of a part in milliseconds. -/
def DurationPart.length (p : DurationPart) : Number :=
  match p.amount with
  | .int n => .int (p.unit.millis * n)
  | .float x => .float ((Binary64.ofInt p.unit.millis).mul x)

theorem DurationPart.length_eq (p : DurationPart) :
    Number.mul (.int p.unit.millis) p.amount = .ok p.length := by
  have hmillis : ((Number.int p.unit.millis).toFloat : Except Fault Binary64) =
      .ok (Binary64.ofInt p.unit.millis) := by
    cases p.unit <;> rfl
  unfold length
  cases p.amount with
  | int n => rfl
  | float x =>
    show ((Number.int p.unit.millis).toFloat >>= _) = _
    rw [hmillis]
    rfl

namespace Duration

theorem toMillis_eq (d : Duration) : d.toMillis = Number.sum (d.parts.map DurationPart.length) := by
  have hlengths : d.parts.mapM (fun p => Number.mul (.int p.unit.millis) p.amount) =
      .ok (d.parts.map DurationPart.length) := by
    simp only [DurationPart.length_eq]
    exact List.mapM_pure
  rw [toMillis, hlengths]
  rfl

/-- The lengths of the parts cannot be added up. -/
def Unsummable (d : Duration) : Prop :=
  Number.Clashing (d.parts.map DurationPart.length)

theorem toMillis_eq_error_iff {d : Duration} {f : Fault} :
    d.toMillis = .error f ↔ d.Unsummable ∧ f = .integerTooLarge := by
  rw [toMillis_eq, Number.sum_eq_error_iff, Unsummable]

end Duration

/-! ## Moments -/

namespace Date

open Calendar

theorem daysInMonth_le (year month : Nat) : daysInMonth year month ≤ 31 := by
  unfold daysInMonth
  grind

theorem daysInMonth_pos (year : Nat) {month : Nat} (h : 1 ≤ month) (h' : month ≤ 12) :
    0 < daysInMonth year month := by
  unfold daysInMonth
  grind

theorem daysOfMonths_le (year months : Nat) : daysOfMonths year months ≤ 31 * months := by
  induction months with
  | zero => exact Nat.le_refl 0
  | succ months ih =>
    have hmonth := daysInMonth_le year (months + 1)
    rw [daysOfMonths]
    omega

theorem le_daysOfMonths (year : Nat) {months : Nat} (h : months ≤ 12) :
    months ≤ daysOfMonths year months := by
  induction months with
  | zero => exact Nat.zero_le _
  | succ months ih =>
    have hpos := daysInMonth_pos year (show 1 ≤ months + 1 by omega) h
    have hbefore := ih (by omega)
    rw [daysOfMonths]
    omega

/-- A year has 366 days at most, so a day of the calendar is counted with 22 binary digits. -/
theorem ordinal_lt (d : Date) : d.ordinal < 2 ^ 22 := by
  have hvalid := d.valid
  have hmonth := daysOfMonths_le d.year (d.month - 1)
  have hday := daysInMonth_le d.year d.month
  unfold ordinal daysBeforeYear
  dsimp only
  omega

theorem ordinal_lt_two_iff {d : Date} : d.ordinal < 2 ↔ d.year = 1 ∧ d.month = 1 ∧ d.day = 1 := by
  have hvalid := d.valid
  have hmonth := le_daysOfMonths d.year (show d.month - 1 ≤ 12 by omega)
  unfold ordinal daysBeforeYear
  constructor
  · intro h
    dsimp only at h
    omega
  · rintro ⟨hyear, hmonth, hday⟩
    rw [hyear, hmonth, hday]
    decide

end Date

namespace Timestamp

open Calendar

theorem natAbs_wall_lt (t : Timestamp) : t.wall.natAbs < 2 ^ 22 * dayMicros := by
  have hdate := t.date.ordinal_lt
  have hday := t.inDay
  unfold wall Date.epochOrdinal
  unfold dayMicros at hday ⊢
  omega

theorem natAbs_instant_lt (t : Timestamp) : t.instant.natAbs < 2 ^ 23 * dayMicros := by
  have hwall := t.natAbs_wall_lt
  unfold instant
  split
  · next z _ =>
    have hzone := z.bounded
    unfold dayMicros at hwall hzone ⊢
    omega
  · unfold dayMicros at hwall ⊢
    omega

/-- The seconds of every moment are counted with 40 binary digits. -/
theorem zonedEpochSeconds_within (t : Timestamp) : t.zonedEpochSeconds.Within 40 := by
  have hinstant := t.natAbs_instant_lt
  have hle : t.instant.natAbs ≤ 2 ^ 40 * 1000000 := by
    unfold dayMicros at hinstant
    omega
  refine Binary64.ofRatio_within (by decide) (by decide) ?_
  rw [div_le_iff₀ (by norm_num)]
  exact_mod_cast hle

theorem localEpochSeconds_within (t : Timestamp) : t.localEpochSeconds.Within 40 := by
  have hwall := t.natAbs_wall_lt
  have hwhole : (Binary64.ofInt (t.wall / 1000000)).Within 39 := by
    refine Binary64.ofInt_within (by decide) ?_
    unfold dayMicros at hwall
    omega
  have hpart : (Binary64.ofRatio false t.microsecond 1000000).Within 39 := by
    have hle : t.microsecond ≤ 2 ^ 39 * 1000000 := by
      unfold microsecond
      omega
    refine Binary64.ofRatio_within (by decide) (by decide) ?_
    rw [div_le_iff₀ (by norm_num)]
    exact_mod_cast hle
  exact hwhole.add hpart (by decide)

/-- The moment has no zone and lies on the first day of the calendar. -/
def OnFirstDay (t : Timestamp) : Prop :=
  t.zone = none ∧ t.date.year = 1 ∧ t.date.month = 1 ∧ t.date.day = 1

/-- The milliseconds of every moment are counted with 50 binary digits. -/
theorem millis_within {seconds : Binary64} (h : seconds.Within 40) :
    (seconds.mul (Binary64.ofInt 1000)).Within 50 :=
  h.mul (Binary64.ofInt_within (k := 10) (by decide) (by decide)) (by decide)

/-- Every moment has epoch milliseconds, except those without a zone on the first day. -/
theorem epochMillis_eq_error_iff {t : Timestamp} {f : Fault} :
    t.epochMillis = .error f ↔ t.OnFirstDay ∧ f = .yearOutOfRange 0 := by
  have hmillis {seconds : Binary64} (h : seconds.Within 40) :
      Number.integerPart .toEven (seconds.mul (Binary64.ofInt 1000)) ≠ .error f := by
    obtain ⟨n, hn⟩ := (millis_within h).toInt? .toEven
    rw [Number.integerPart, hn]
    nofun
  unfold OnFirstDay epochMillis
  cases hzone : t.zone with
  | some z => exact iff_of_false (hmillis t.zonedEpochSeconds_within) nofun
  | none =>
    by_cases hday : t.date.ordinal < 2
    · rw [← Date.ordinal_lt_two_iff]
      simp only [hday, true_and]
      exact ⟨fun h => (Except.error.inj h).symm, fun h => h ▸ rfl⟩
    · rw [← Date.ordinal_lt_two_iff]
      simp only [hday, and_false, false_and, iff_false]
      exact hmillis t.localEpochSeconds_within

theorem epochMillis_le {t : Timestamp} {n : Int} (h : t.epochMillis = .ok n) :
    n.natAbs ≤ 2 ^ 50 := by
  have hmillis {seconds : Binary64} (hseconds : seconds.Within 40)
      (hn : Number.integerPart .toEven (seconds.mul (Binary64.ofInt 1000)) = .ok n) :
      n.natAbs ≤ 2 ^ 50 := by
    unfold Number.integerPart at hn
    split at hn
    · next hpart =>
      cases hn
      exact (millis_within hseconds).natAbs_le hpart
    · cases hn
  unfold epochMillis at h
  cases hzone : t.zone with
  | some z =>
    rw [hzone] at h
    exact hmillis t.zonedEpochSeconds_within h
  | none =>
    rw [hzone] at h
    dsimp only at h
    split at h
    · cases h
    · exact hmillis t.localEpochSeconds_within h

end Timestamp

/-! ## Values -/

namespace Value

theorem extreme_of_display {v : Value} {f : Fault} (h : v.display = .error f) : f.Extreme := by
  rcases display_eq_error h with ⟨rfl, -⟩ | ⟨rfl, -⟩
  · exact .tooLong
  · exact .circular

/-- The value is taken for no number: it is none, and neither a truth value, a point or span of
time, nor missing. -/
def NotNumerical (v : Value) : Prop :=
  v.kind ∉ [.null, .boolean, .number, .date, .duration]

/-- The value stands for a number that there is not: it is a moment without epoch milliseconds, or a
duration whose length cannot be added up.  Where evaluation is strict, a value that is taken for no
number has to be displayed, which fails if it cannot be. -/
inductive Uncountable (strict : Bool) : Value → Fault → Prop
  | moment {v : Value} {t : Timestamp} : v.moment? = some t → t.OnFirstDay →
      Uncountable strict v (.yearOutOfRange 0)
  | duration {d : Duration} : d.Unsummable → Uncountable strict (.duration d) .integerTooLarge
  | quoted {v : Value} {f : Fault} : strict = true → v.NotNumerical → v.display = .error f →
      Uncountable strict v f

theorem Uncountable.extreme {strict : Bool} {v : Value} {f : Fault} (h : v.Uncountable strict f) :
    f.Extreme := by
  cases h with
  | moment _ _ => exact .firstDay
  | duration _ => exact .tooLarge
  | quoted _ _ h => exact extreme_of_display h

theorem withoutNumber_eq_fault_iff {strict : Bool} {v : Value} {f : Fault} :
    withoutNumber strict v = .error (.fault f) ↔ strict = true ∧ v.display = .error f := by
  cases strict with
  | true =>
    rw [withoutNumber, if_pos rfl, and_iff_right rfl, ← Failure.ofFault_eq_fault]
    refine bind_eq_error_left fun text h => ?_
    cases h
  | false => exact iff_of_false nofun fun ⟨h, _⟩ => nomatch h

theorem toNumber_moment {strict : Bool} {v : Value} {t : Timestamp} (h : v.moment? = some t) :
    v.toNumber strict = Failure.ofFault (t.epochMillis.map .int) := by
  cases v with
  | date d =>
    cases h
    rfl
  | timestamp u =>
    cases h
    rfl
  | _ => cases h

theorem toNumber_eq_fault_iff {strict : Bool} {v : Value} {f : Fault} :
    v.toNumber strict = .error (.fault f) ↔ v.Uncountable strict f := by
  constructor
  · intro h
    cases hmoment : v.moment? with
    | some t =>
      rw [toNumber_moment hmoment, Failure.ofFault_eq_fault, map_eq_error,
        Timestamp.epochMillis_eq_error_iff] at h
      obtain ⟨hday, rfl⟩ := h
      exact .moment hmoment hday
    | none =>
      cases v with
      | duration d =>
        rw [toNumber, Failure.ofFault_eq_fault, Duration.toMillis_eq_error_iff] at h
        obtain ⟨hd, rfl⟩ := h
        exact .duration hd
      | string s =>
        rw [toNumber] at h
        split at h
        · cases h
        · cases (withoutNumber_eq_fault_iff.mp h).2
      | date d => cases hmoment
      | timestamp t => cases hmoment
      | null => cases h
      | bool b => cases h
      | number n => cases h
      | _ =>
        obtain ⟨hstrict, hdisplay⟩ := withoutNumber_eq_fault_iff.mp h
        exact .quoted hstrict (by simp [NotNumerical, kind]) hdisplay
  · rintro (⟨ht, hday⟩ | hd | ⟨hstrict, hnumber, hdisplay⟩)
    · rw [toNumber_moment ht, Failure.ofFault_eq_fault, map_eq_error,
        Timestamp.epochMillis_eq_error_iff]
      exact ⟨hday, rfl⟩
    · rw [toNumber, Failure.ofFault_eq_fault, Duration.toMillis_eq_error_iff]
      exact ⟨hd, rfl⟩
    · cases v with
      | null | bool | number | date | timestamp | duration => simp [NotNumerical, kind] at hnumber
      | string => cases hdisplay
      | _ => exact withoutNumber_eq_fault_iff.mpr ⟨hstrict, hdisplay⟩

/-! ### Structural keys -/

/-- The entries of a mapping in the order in which they stand in its key. -/
def inKeyOrder (es : Entries) : Entries :=
  es.mergeSort fun e f => e.1.keyText ≤ f.1.keyText

theorem inKeyOrder_perm (es : Entries) : (inKeyOrder es).Perm es :=
  List.mergeSort_perm es _

/-- The value has no structural key, because it contains a moment without epoch milliseconds,
something that cannot be written or displayed, or itself.  Keys of mappings are written first; then
the first such part decides, of a mapping in the order of its key. -/
inductive Keyless : Value → Fault → Prop
  | moment {v : Value} {t : Timestamp} : v.moment? = some t → t.OnFirstDay →
      Keyless v (.yearOutOfRange 0)
  | duration {d : Duration} {f : Fault} : (Value.duration d).TooLong f → Keyless (.duration d) f
  | number {n : Number} {f : Fault} : (Value.number n).TooLong f → Keyless (.number n) f
  | set {items : List Value} {f : Fault} : (Value.set items).display = .error f →
      Keyless (.set items) f
  | cycle : Keyless .cycle .selfContaining
  | item {before : List Value} {v : Value} {after : List Value} {f : Fault} :
      (∀ w ∈ before, ∃ key, w.stableChars = .ok key) → Keyless v f →
        Keyless (.list (before ++ v :: after)) f
  | key {live : Bool} {es : Entries} {e : Value × Value} {f : Fault} : e ∈ es → e.1.TooLong f →
      Keyless (.mapping live es) f
  | entry {live : Bool} {es before : Entries} {e : Value × Value} {after : Entries} {f : Fault} :
      (∀ e ∈ es, e.1.isWritable = true) → inKeyOrder es = before ++ e :: after →
        (∀ e ∈ before, ∃ key, e.2.stableChars = .ok key) → Keyless e.2 f →
          Keyless (.mapping live es) f

theorem Keyless.extreme {v : Value} {f : Fault} (h : v.Keyless f) : f.Extreme := by
  induction h with
  | moment _ _ => exact .firstDay
  | duration h | number h | key _ h => exact h.1 ▸ .tooLong
  | set h => exact extreme_of_display h
  | cycle => exact .circular
  | item _ _ ih => exact ih
  | entry _ _ _ _ ih => exact ih

/-- The entries of a mapping as they stand in its key, each with the outcome for its value. -/
theorem mapM_entryChars (es : Entries) : (sortByText (stableEntries es)).mapM entryChars =
    (inKeyOrder es).mapM fun e =>
      e.2.stableChars.map fun key => quotedChars e.1.keyText ++ ':' :: key := by
  have hsorted : sortByText (stableEntries es) =
      (inKeyOrder es).map fun e => (e.1.keyText, e.2.stableChars) := by
    rw [stableEntries_eq, sortByText, inKeyOrder]
    refine (List.map_mergeSort ?_).symm
    exact fun _ _ _ _ => rfl
  have hentry (e : Value × Value) : entryChars (e.1.keyText, e.2.stableChars) =
      e.2.stableChars.map fun key => quotedChars e.1.keyText ++ ':' :: key := by
    rw [entryChars]
    cases e.2.stableChars <;> rfl
  rw [hsorted, List.mapM_map]
  exact congrArg (List.mapM · (inKeyOrder es)) (funext hentry)

/-- A mapping has no key if a key in it has no text, or else if a value in it has no key. -/
theorem stableChars_mapping_eq_error_iff {live : Bool} {es : Entries} {f : Fault} :
    (mapping live es).stableChars = .error f ↔ (∃ e ∈ es, e.1.TooLong f) ∨
      (∀ e ∈ es, e.1.isWritable = true) ∧ ∃ before e after, inKeyOrder es = before ++ e :: after ∧
        (∀ e ∈ before, ∃ key, e.2.stableChars = .ok key) ∧ e.2.stableChars = .error f := by
  have hkeys : (es.forM fun e => e.1.checkWritable) = .error f ↔ ∃ e ∈ es, e.1.TooLong f := by
    rw [forM_eq_mapM, map_eq_error,
      mapM_eq_error_alike fun e g => checkWritable_eq_error.trans and_comm]
    constructor
    · rintro ⟨⟨e, he, hkey⟩, rfl⟩
      exact ⟨e, he, rfl, hkey⟩
    · rintro ⟨e, he, rfl, hkey⟩
      exact ⟨⟨e, he, hkey⟩, rfl⟩
  have hvalues : mappingKey (stableEntries es) = .error f ↔ ∃ before e after,
      inKeyOrder es = before ++ e :: after ∧ (∀ e ∈ before, ∃ key, e.2.stableChars = .ok key) ∧
        e.2.stableChars = .error f := by
    rw [mappingKey, mapM_entryChars, bind_return_eq_error, mapM_eq_error]
    simp only [map_eq_ok, map_eq_error, exists_comm (α := List Char), exists_eq_right']
  rw [stableChars, bind_eq_error, hkeys, hvalues]
  refine or_congr_right ⟨?_, ?_⟩
  · rintro ⟨_, hwritable, h⟩
    exact ⟨fun e he => checkWritable_eq_ok.mp (forM_eq_ok.mp hwritable e he), h⟩
  · rintro ⟨hwritable, h⟩
    exact ⟨(), forM_eq_ok.mpr fun e he => checkWritable_eq_ok.mpr (hwritable e he), h⟩

theorem Keyless.stableChars_eq {v : Value} {f : Fault} (h : v.Keyless f) :
    v.stableChars = .error f := by
  induction h with
  | @moment v t ht hday =>
    have hmillis := Timestamp.epochMillis_eq_error_iff.mpr ⟨hday, rfl⟩
    have hkey : momentKey t = .error (.yearOutOfRange 0) := by
      rw [momentKey, hmillis]
      rfl
    cases v with
    | date d =>
      cases ht
      exact hkey
    | timestamp u =>
      cases ht
      exact hkey
    | _ => cases ht
  | duration h =>
    rw [stableChars, durationKey, checkWritable_eq_error.mpr h]
    rfl
  | number h =>
    have hdisplay := display_number_eq_error.mpr h
    simp only [stableChars, hdisplay]
    rfl
  | set h =>
    simp only [stableChars, h]
    rfl
  | cycle => rfl
  | item hbefore _ ih =>
    rw [stableChars, stableItems_eq_mapM, bind_eq_error]
    exact .inl (mapM_eq_error.mpr ⟨_, _, _, rfl, hbefore, ih⟩)
  | key he h => exact stableChars_mapping_eq_error_iff.mpr (.inl ⟨_, he, h⟩)
  | entry hkeys hsorted hbefore _ ih =>
    exact stableChars_mapping_eq_error_iff.mpr (.inr ⟨hkeys, _, _, _, hsorted, hbefore, ih⟩)

theorem keyless_of_moment {t : Timestamp} {v : Value} {f : Fault} (ht : v.moment? = some t)
    (h : momentKey t = .error f) : v.Keyless f := by
  rcases bind_eq_error.mp h with h | ⟨millis, -, h⟩
  · obtain ⟨hday, rfl⟩ := Timestamp.epochMillis_eq_error_iff.mp h
    exact .moment ht hday
  · cases h

theorem keyless_of_stableChars {f : Fault} : ∀ v : Value, v.stableChars = .error f → v.Keyless f
  | date d, h => keyless_of_moment rfl h
  | timestamp t, h => keyless_of_moment rfl h
  | list items, h => by
    rw [stableChars, stableItems_eq_mapM] at h
    rcases bind_eq_error.mp h with h | ⟨keys, -, h⟩
    · obtain ⟨before, v, after, hitems, hbefore, hv⟩ := mapM_eq_error.mp h
      have hlt : sizeOf v < sizeOf items :=
        List.sizeOf_lt_of_mem (hitems ▸ List.mem_append_right before List.mem_cons_self)
      have hkeyless := keyless_of_stableChars v hv
      exact hitems ▸ .item hbefore hkeyless
    · cases h
  | mapping live entries, h => by
    rcases stableChars_mapping_eq_error_iff.mp h with
      ⟨e, he, hkey⟩ | ⟨hkeys, before, e, after, hsorted, hbefore, he⟩
    · exact .key he hkey
    · have hmem : e ∈ entries := (inKeyOrder_perm entries).mem_iff.mp
        (hsorted ▸ List.mem_append_right before List.mem_cons_self)
      have hlt : sizeOf e < sizeOf entries := List.sizeOf_lt_of_mem hmem
      exact .entry hkeys hsorted hbefore (keyless_of_stableChars e.2 he)
  | cycle, h => by
    cases h
    exact .cycle
  | duration d, h => by
    rw [stableChars, durationKey] at h
    exact .duration (checkWritable_eq_error.mp (bind_return_eq_error.mp h))
  | number n, h => .number (display_number_eq_error.mp (bind_return_eq_error.mp h))
  | set items, h => .set (bind_return_eq_error.mp h)
  | link _ _, h => nomatch h
  | file _, h => nomatch h
  | null, h => nomatch h
  | bool _, h => nomatch h
  | string _, h => nomatch h
  | pattern _, h => nomatch h
  | html _, h => nomatch h
  | image _, h => nomatch h
  | icon _, h => nomatch h
  | bytes _, h => nomatch h
termination_by v => sizeOf v
decreasing_by
  · rw [list.sizeOf_spec]
    omega
  · have hpair : sizeOf e = 1 + sizeOf e.1 + sizeOf e.2 := Prod.mk.sizeOf_spec e.1 e.2
    rw [mapping.sizeOf_spec]
    omega

theorem stableKey_eq_error_iff {v : Value} {f : Fault} :
    v.stableKey = .error f ↔ v.Keyless f := by
  rw [stableKey, map_eq_error]
  exact ⟨keyless_of_stableChars v, Keyless.stableChars_eq⟩

end Value

end NoteQuery
