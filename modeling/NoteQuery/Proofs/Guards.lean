/-
What the guards of evaluation catch.

Arithmetic turns numbers out of range and impossible values into errors of the expression; nothing
else goes wrong in it, and no fault passes, unless an operand has to be displayed and leads back to
itself (`ArithmeticFails`).  A call turns every fault within it into an error; only its arguments
are evaluated outside of the guard, where the call does not evaluate them for itself
(`callFunction_eq_fault_iff`, `callMethod_eq_fault_iff`).  Comparison, equality, the taking of
elements and negation are not guarded.
-/
import NoteQuery.Eval.Evaluator
import NoteQuery.Proofs.Comparability

namespace NoteQuery

/-! ## Arithmetic -/

/-- The fault is one that arithmetic takes for an error of the expression. -/
def Fault.IsArithmetic (f : Fault) : Prop :=
  f.kind = .value ∨ f.kind = .overflow

/-- Every fault in the computation is arithmetic. -/
def Arithmetical {α : Type} (r : Except Failure α) : Prop :=
  ∀ f, r = .error (.fault f) → f.IsArithmetic

section Rules

variable {α β : Type}

theorem arithmetical_ok (a : α) : Arithmetical (.ok a) :=
  fun _ h => nomatch h

theorem arithmetical_bind {r : Except Failure α} {g : α → Except Failure β} (h : Arithmetical r)
    (hg : ∀ a, Arithmetical (g a)) : Arithmetical (r >>= g) := by
  intro f hf
  rcases bind_eq_error.mp hf with hf | ⟨a, -, hf⟩
  · exact h f hf
  · exact hg a f hf

theorem arithmetical_ofFault {r : Except Fault α} (h : FailsOnly Fault.IsArithmetic r) :
    Arithmetical (Failure.ofFault r) :=
  fun f hf => h f (Failure.ofFault_eq_fault.mp hf)

end Rules

namespace Number

theorem arithmetic_toFloat (n : Number) : FailsOnly Fault.IsArithmetic n.toFloat := by
  intro f h
  rw [(toFloat_eq_error_iff.mp h).2]
  exact .inr rfl

theorem arithmetic_combine (exact : Int → Int → Int) (rounded : Binary64 → Binary64 → Binary64)
    (m n : Number) : FailsOnly Fault.IsArithmetic (combine exact rounded m n) := by
  intro f h
  rw [(combine_eq_error_iff.mp h).2]
  exact .inr rfl

theorem arithmetic_add (m n : Number) : FailsOnly Fault.IsArithmetic (m.add n) :=
  arithmetic_combine _ _ m n

theorem arithmetic_sub (m n : Number) : FailsOnly Fault.IsArithmetic (m.sub n) :=
  arithmetic_combine _ _ m n

theorem arithmetic_mul (m n : Number) : FailsOnly Fault.IsArithmetic (m.mul n) :=
  arithmetic_combine _ _ m n

theorem arithmetic_div (m n : Number) : FailsOnly Fault.IsArithmetic (m.div n) := by
  have hfloats (m n : Number) : FailsOnly Fault.IsArithmetic (do
      let a ← m.toFloat
      let b ← n.toFloat
      return .float (a.div b) : Except Fault Number) :=
    failsOnly_bind (arithmetic_toFloat m) fun a =>
      failsOnly_bind (arithmetic_toFloat n) fun b => failsOnly_ok _
  cases m with
  | int m =>
    cases n with
    | int n =>
      rw [div]
      split
      · exact failsOnly_ok _
      · exact failsOnly_error (.inr rfl)
    | float y => exact hfloats _ _
  | float x =>
    cases n with
    | int n => exact hfloats _ _
    | float y => exact hfloats _ _

theorem arithmetic_integerPart (direction : Binary64.Direction) (x : Binary64) :
    FailsOnly Fault.IsArithmetic (integerPart direction x) := by
  unfold integerPart
  split
  · exact failsOnly_ok _
  · split
    · exact failsOnly_error (.inl rfl)
    · exact failsOnly_error (.inr rfl)

theorem arithmetic_trunc (n : Number) : FailsOnly Fault.IsArithmetic n.trunc := by
  cases n with
  | int n => exact failsOnly_ok n
  | float x => exact arithmetic_integerPart _ x

theorem arithmetic_rem (m n : Number) : FailsOnly Fault.IsArithmetic (m.rem n) := by
  unfold rem
  refine failsOnly_bind (arithmetic_toFloat m) fun a => ?_
  refine failsOnly_bind (arithmetic_toFloat n) fun b => ?_
  extract_lets r finish
  have hfinish : FailsOnly Fault.IsArithmetic (finish ()) := by
    unfold finish
    split
    · exact failsOnly_bind (arithmetic_integerPart _ _) fun n => failsOnly_ok _
    · exact failsOnly_ok _
  split
  · exact failsOnly_bind (failsOnly_error (.inl rfl)) fun _ => hfinish
  · exact hfinish

end Number

namespace Timestamp

theorem arithmetic_epochMillis (t : Timestamp) : FailsOnly Fault.IsArithmetic t.epochMillis := by
  intro f h
  rw [(epochMillis_eq_error_iff.mp h).2]
  exact .inl rfl

theorem arithmetic_shift (t : Timestamp) (micros : Int) :
    FailsOnly Fault.IsArithmetic (t.shift micros) := by
  unfold shift
  split
  · exact failsOnly_ok _
  · exact failsOnly_error (.inr rfl)

theorem arithmetic_spanMicros (millis : Number) :
    FailsOnly Fault.IsArithmetic (spanMicros millis) := by
  unfold spanMicros
  extract_lets finish
  have hfinish (micros : Int) : FailsOnly Fault.IsArithmetic (finish micros) := by
    unfold finish
    extract_lets days accept
    split
    · exact failsOnly_bind (failsOnly_error (.inr rfl)) fun _ => failsOnly_ok micros
    · exact failsOnly_ok micros
  cases millis with
  | int n => exact hfinish _
  | float x =>
    refine failsOnly_bind (Number.arithmetic_integerPart _ _) fun whole => ?_
    refine failsOnly_bind (Number.arithmetic_integerPart _ _) fun more => ?_
    split
    · exact hfinish _
    · exact hfinish _

theorem arithmetic_shiftMonths (t : Timestamp) (months : Int) :
    FailsOnly Fault.IsArithmetic (t.shiftMonths months) := by
  refine failsOnly_map ?_
  unfold Date.shiftMonths
  dsimp only
  split
  · exact failsOnly_error (.inr rfl)
  · split
    · exact failsOnly_ok _
    · exact failsOnly_error (.inl rfl)

theorem arithmetic_shiftMillis (t : Timestamp) (millis : Number) :
    FailsOnly Fault.IsArithmetic (t.shiftMillis millis) :=
  failsOnly_bind (arithmetic_spanMicros millis) fun micros => arithmetic_shift t micros

theorem arithmetic_applyPart (t : Timestamp) (unit : TimeUnit) (amount : Number) :
    FailsOnly Fault.IsArithmetic (t.applyPart unit amount) := by
  have hmillis (unit : TimeUnit) : FailsOnly Fault.IsArithmetic (do
      t.shiftMillis (← Number.mul (.int unit.millis) amount)) :=
    failsOnly_bind (Number.arithmetic_mul _ _) fun millis => arithmetic_shiftMillis t millis
  cases unit with
  | year =>
    exact failsOnly_bind (Number.arithmetic_trunc amount) fun n => arithmetic_shiftMonths t (n * 12)
  | month =>
    exact failsOnly_bind (Number.arithmetic_trunc amount) fun n => arithmetic_shiftMonths t n
  | week => exact hmillis .week
  | day => exact hmillis .day
  | hour => exact hmillis .hour
  | minute => exact hmillis .minute
  | second => exact hmillis .second
  | millisecond => exact hmillis .millisecond

theorem arithmetic_apply (t : Timestamp) (d : Duration) (sign : Int) :
    FailsOnly Fault.IsArithmetic (t.apply d sign) := by
  refine failsOnly_foldlM fun t p _ => ?_
  exact failsOnly_bind (Number.arithmetic_mul _ _) fun n => arithmetic_applyPart t p.unit n

end Timestamp

theorem Duration.arithmetic_scaled (d : Duration) (factor : Number) :
    FailsOnly Fault.IsArithmetic (d.scaled factor) := by
  refine failsOnly_bind (failsOnly_mapM fun p _ => ?_) fun parts => failsOnly_ok _
  exact failsOnly_bind (Number.arithmetic_mul _ _) fun amount => failsOnly_ok _

theorem Duration.arithmetic_toMillis (d : Duration) : FailsOnly Fault.IsArithmetic d.toMillis := by
  intro f h
  rw [(toMillis_eq_error_iff.mp h).2]
  exact .inr rfl

theorem Fault.Extreme.eq_selfContaining {f : Fault} (h : f.Extreme) (hf : ¬ f.IsArithmetic) :
    f = .selfContaining := by
  cases h with
  | firstDay | tooLong => exact absurd (.inl rfl) hf
  | tooLarge => exact absurd (.inr rfl) hf
  | circular => rfl

namespace Value

variable {v w : Value}

/-- Displaying the value comes to no end. -/
def Endless (v : Value) : Prop :=
  v.display = .error .selfContaining

theorem Endless.kind_mem (h : v.Endless) : v.kind ∈ [.link, .list, .object] := by
  cases v with
  | link | list | mapping | set | bytes | cycle => simp [kind]
  | number n => cases (display_number_eq_error.mp h).1
  | duration d => cases (checkWritable_eq_error.mp (bind_return_eq_error.mp h)).1
  | _ => cases h

theorem endless_of_display {f : Fault} (h : v.display = .error f) (hf : ¬ f.IsArithmetic) :
    v.Endless := by
  obtain rfl := (extreme_of_display h).eq_selfContaining hf
  exact h

theorem Uncountable.endless {strict : Bool} {f : Fault} (h : v.Uncountable strict f)
    (hf : ¬ f.IsArithmetic) : v.Endless := by
  cases h with
  | moment _ _ => exact absurd (.inl rfl) hf
  | duration _ => exact absurd (.inr rfl) hf
  | quoted _ _ h => exact endless_of_display h hf

theorem arithmetic_display (h : ¬ v.Endless) : FailsOnly Fault.IsArithmetic v.display := by
  intro f hf
  by_contra hnot
  exact h (endless_of_display hf hnot)

theorem NumbersFail.endless {strict : Bool} {f : Fault} (h : NumbersFail strict v w f)
    (hf : ¬ f.IsArithmetic) : v.Endless ∨ w.Endless := by
  cases h with
  | left h => exact .inl (h.endless hf)
  | right _ h => exact .inr (h.endless hf)

theorem DisplaysFail.endless {f : Fault} (h : DisplaysFail v w f) (hf : ¬ f.IsArithmetic) :
    v.Endless ∨ w.Endless := by
  rcases h with h | ⟨_, _, h⟩
  · exact .inl (endless_of_display h hf)
  · exact .inr (endless_of_display h hf)

end Value

namespace Scope

variable (s : Scope) (v w : Value)

theorem fail_ne_fault (e : EvalError) (f : Fault) : s.fail e ≠ .error (.fault f) := by
  unfold fail
  split
  · nofun
  · nofun

theorem arithmetical_fail (e : EvalError) : Arithmetical (s.fail e) :=
  fun f h => absurd h (s.fail_ne_fault e f)

section Finite

variable {v w} (hv : ¬ v.Endless) (hw : ¬ w.Endless)
include hv

theorem arithmetical_number : Arithmetical (s.number v) := by
  intro f h
  by_contra hf
  exact hv ((Value.toNumber_eq_fault_iff.mp h).endless hf)

include hw

theorem arithmetical_compute {op : Number → Number → Except Fault Number}
    (hop : ∀ m n, FailsOnly Fault.IsArithmetic (op m n)) : Arithmetical (s.compute op v w) :=
  arithmetical_bind (s.arithmetical_number hv) fun m =>
    arithmetical_bind (s.arithmetical_number hw) fun n =>
      arithmetical_bind (arithmetical_ofFault (hop m n)) fun _ => arithmetical_ok _

omit hv hw in
theorem arithmetical_moved (t : Timestamp) (d : Duration) (sign : Int) :
    Arithmetical (moved t d sign) :=
  arithmetical_ofFault (failsOnly_map (t.arithmetic_apply d sign))

omit hv hw in
theorem arithmetical_shifted (t : Timestamp) (n : Number) : Arithmetical (shifted t n) :=
  arithmetical_ofFault (failsOnly_map (t.arithmetic_shiftMillis n))

theorem arithmetical_addPlain : Arithmetical (s.addPlain v w) := by
  unfold addPlain
  split
  · exact arithmetical_ok _
  · split
    · refine arithmetical_ofFault (failsOnly_bind (Value.arithmetic_display hv) fun text => ?_)
      exact failsOnly_bind (Value.arithmetic_display hw) fun _ => failsOnly_ok _
    · exact s.arithmetical_compute hv hw Number.arithmetic_add

theorem arithmetical_addRight : Arithmetical (s.addRight v w) := by
  unfold addRight
  split
  · exact arithmetical_moved _ _ _
  · exact s.arithmetical_addPlain hv hw

theorem arithmetical_add : Arithmetical (s.add v w) := by
  unfold add
  split
  · exact s.arithmetical_addRight hv hw
  · split
    · exact arithmetical_moved _ _ _
    · exact arithmetical_shifted _ _
    · exact s.arithmetical_addRight hv hw

theorem arithmetical_subtract : Arithmetical (s.subtract v w) := by
  unfold subtract
  split
  · next t u _ _ =>
    refine arithmetical_ofFault (failsOnly_bind t.arithmetic_epochMillis fun m => ?_)
    exact failsOnly_bind u.arithmetic_epochMillis fun n => failsOnly_ok _
  · split
    · exact arithmetical_moved _ _ _
    · exact arithmetical_shifted _ _
    · exact s.arithmetical_compute hv hw Number.arithmetic_sub
  · split
    · refine arithmetical_ofFault (failsOnly_bind (Duration.arithmetic_toMillis _) fun m => ?_)
      refine failsOnly_bind (Duration.arithmetic_toMillis _) fun n => ?_
      exact failsOnly_bind (Number.arithmetic_sub m n) fun _ => failsOnly_ok _
    · exact s.arithmetical_compute hv hw Number.arithmetic_sub

theorem arithmetical_multiply : Arithmetical (s.multiply v w) := by
  unfold multiply
  split
  · exact arithmetical_ofFault (failsOnly_map (Duration.arithmetic_scaled _ _))
  · exact arithmetical_ofFault (failsOnly_map (Duration.arithmetic_scaled _ _))
  · exact s.arithmetical_compute hv hw Number.arithmetic_mul

theorem arithmetical_divide : Arithmetical (s.divide v w) := by
  refine arithmetical_bind (s.arithmetical_number hw) fun divisor => ?_
  split
  · exact s.arithmetical_fail _
  · split
    · refine arithmetical_ofFault (failsOnly_bind (Number.arithmetic_div _ _) fun factor => ?_)
      exact failsOnly_bind (Duration.arithmetic_scaled _ factor) fun _ => failsOnly_ok _
    · refine arithmetical_bind (s.arithmetical_number hv) fun dividend => ?_
      exact arithmetical_bind (arithmetical_ofFault (Number.arithmetic_div dividend divisor))
        fun _ => arithmetical_ok _

theorem arithmetical_modulo : Arithmetical (s.modulo v w) := by
  refine arithmetical_bind (s.arithmetical_number hv) fun dividend => ?_
  refine arithmetical_bind (s.arithmetical_number hw) fun divisor => ?_
  split
  · exact s.arithmetical_fail _
  · exact arithmetical_bind (arithmetical_ofFault (Number.arithmetic_rem dividend divisor))
      fun _ => arithmetical_ok _

end Finite

variable {s v w} {f : Fault}

/-- The faults that pass the guard of arithmetic are those that are not arithmetic. -/
theorem guardArithmetic_eq_fault_iff {r : Except Failure Value} :
    guardArithmetic r = .error (.fault f) ↔ r = .error (.fault f) ∧ ¬ f.IsArithmetic := by
  unfold guardArithmetic
  split
  · next g =>
    split
    · next hg =>
      refine iff_of_false nofun ?_
      rintro ⟨h, hf⟩
      cases h
      exact hf hg
    · next hg =>
      refine ⟨fun h => ⟨h, ?_⟩, fun h => h.1⟩
      cases h
      exact hg
  · next hnot => exact iff_of_false (hnot f) fun ⟨h, _⟩ => hnot f h

/-! ### Operands that lead back to themselves -/

section Endless

theorem not_endless_of_moment {t : Timestamp} (ht : v.moment? = some t) : ¬ v.Endless := by
  intro h
  have hmem := h.kind_mem
  rw [Value.kind_of_moment ht] at hmem
  revert hmem
  decide

theorem not_endless_of_duration {d : Duration} (hd : durationOf? v = some d) : ¬ v.Endless := by
  intro h
  cases v with
  | duration d => exact absurd h.kind_mem (by simp [Value.kind])
  | string t => cases h
  | _ => cases hd

theorem addRight_of_endless (h : v.Endless ∨ w.Endless) : s.addRight v w = s.addPlain v w := by
  unfold addRight
  split
  · next hw hv =>
    rcases h with h | h
    · exact absurd h (not_endless_of_duration hv)
    · exact absurd h (not_endless_of_moment hw)
  · rfl

theorem add_of_endless (h : v.Endless ∨ w.Endless) : s.add v w = s.addPlain v w := by
  unfold add
  split
  · exact addRight_of_endless h
  · next hv =>
    have hw : w.Endless := h.resolve_left (not_endless_of_moment hv)
    split
    · next hd => exact absurd hw (not_endless_of_duration hd)
    · exact absurd hw.kind_mem (by simp [Value.kind])
    · exact addRight_of_endless h

theorem subtract_of_endless (h : v.Endless ∨ w.Endless) :
    s.subtract v w = s.compute Number.sub v w := by
  unfold subtract
  split
  · next hv hw =>
    rcases h with h | h
    · exact absurd h (not_endless_of_moment hv)
    · exact absurd h (not_endless_of_moment hw)
  · next hv _ =>
    have hw : w.Endless := h.resolve_left (not_endless_of_moment hv)
    split
    · next hd => exact absurd hw (not_endless_of_duration hd)
    · exact absurd hw.kind_mem (by simp [Value.kind])
    · rfl
  · split
    · rcases h with h | h
      all_goals exact absurd h.kind_mem (by simp [Value.kind])
    · rfl

theorem multiply_of_endless (h : v.Endless ∨ w.Endless) :
    s.multiply v w = s.compute Number.mul v w := by
  unfold multiply
  split
  · rcases h with h | h
    all_goals exact absurd h.kind_mem (by simp [Value.kind])
  · rcases h with h | h
    all_goals exact absurd h.kind_mem (by simp [Value.kind])
  · rfl

theorem compute_eq_fault_iff {op : Number → Number → Except Fault Number}
    (hop : ∀ m n, FailsOnly Fault.IsArithmetic (op m n)) (hf : ¬ f.IsArithmetic) :
    s.compute op v w = .error (.fault f) ↔ Value.NumbersFail s.strict v w f := by
  unfold compute number
  rw [Value.bind_toNumber_eq_fault]
  refine or_iff_left ?_
  rintro ⟨m, n, -, -, h⟩
  exact hf (hop m n f (Failure.ofFault_eq_fault.mp (bind_return_eq_error.mp h)))

theorem display_of_isText (h : isText v = true) : ∃ text, v.display = .ok text := by
  cases v with
  | string t => exact ⟨t, rfl⟩
  | _ => cases h

theorem displaysFail_of_text {strict : Bool} (htext : (isText v || isText w) = true)
    (h : Value.NumbersFail strict v w f) (hf : ¬ f.IsArithmetic) : Value.DisplaysFail v w f := by
  have hend := h.extreme.eq_selfContaining hf
  subst hend
  cases h with
  | left hv => exact .inl (hv.endless hf)
  | right _ hw =>
    have hw : w.display = _ := hw.endless hf
    rcases (Bool.or_eq_true _ _).mp htext with hv | hw'
    · obtain ⟨text, hv⟩ := display_of_isText hv
      exact .inr ⟨text, hv, hw⟩
    · obtain ⟨text, hw'⟩ := display_of_isText hw'
      rw [hw'] at hw
      cases hw

/-- Next to a text both values are displayed, which fails wherever their numbers do. -/
theorem addPlain_eq_fault_iff (h : v.Endless ∨ w.Endless) (hf : ¬ f.IsArithmetic) :
    s.addPlain v w = .error (.fault f) ↔
      ((isText v || isText w) = true ∧ Value.DisplaysFail v w f) ∨
        Value.NumbersFail s.strict v w f := by
  unfold addPlain
  split
  · rcases h with h | h
    all_goals exact absurd h.kind_mem (by simp [Value.kind])
  · split
    · next htext =>
      rw [Failure.ofFault_eq_fault, Value.bind_display_eq_error, and_iff_right htext]
      exact (or_iff_left_of_imp fun h => displaysFail_of_text htext h hf).symm
    · next htext =>
      rw [compute_eq_fault_iff Number.arithmetic_add hf]
      exact (or_iff_right fun h => htext h.1).symm

theorem divide_eq_fault_iff (hf : ¬ f.IsArithmetic) :
    s.divide v w = .error (.fault f) ↔
      w.Uncountable s.strict f ∨
        ∃ n, w.toNumber s.strict = .ok n ∧ n.isZero = false ∧ v.Uncountable s.strict f := by
  rw [divide, bind_eq_error, number, Value.toNumber_eq_fault_iff]
  refine or_congr_right (exists_congr fun n => and_congr_right fun _ => ?_)
  split
  · next hzero =>
    refine iff_of_false (s.fail_ne_fault _ _) ?_
    rw [hzero]
    exact fun ⟨h, _⟩ => nomatch h
  · next hzero =>
    rw [and_iff_right (Bool.eq_false_iff.mpr hzero)]
    split
    · next d _ =>
      refine iff_of_false ?_ fun h => absurd (h.endless hf).kind_mem (by simp [Value.kind])
      rw [Failure.ofFault_eq_fault]
      intro h
      rcases bind_eq_error.mp h with h | ⟨factor, -, h⟩
      · exact hf (Number.arithmetic_div _ _ _ h)
      · exact hf (Duration.arithmetic_scaled _ factor _ (bind_return_eq_error.mp h))
    · rw [bind_eq_error, number, Value.toNumber_eq_fault_iff]
      refine or_iff_left ?_
      rintro ⟨dividend, -, h⟩
      have h := Failure.ofFault_eq_fault.mp (bind_return_eq_error.mp h)
      exact hf (Number.arithmetic_div _ _ _ h)

theorem modulo_eq_fault_iff (hf : ¬ f.IsArithmetic) :
    s.modulo v w = .error (.fault f) ↔ Value.NumbersFail s.strict v w f := by
  unfold modulo number
  rw [Value.bind_toNumber_eq_fault]
  refine or_iff_left ?_
  rintro ⟨m, n, -, -, h⟩
  split at h
  · exact s.fail_ne_fault _ _ h
  · have h := Failure.ofFault_eq_fault.mp (bind_return_eq_error.mp h)
    exact hf (Number.arithmetic_rem m n _ h)

end Endless

/-- Two operands of an arithmetic operator between them cannot be displayed, next to a text, or have
no numbers.  Of a division the divisor is looked at first, and the dividend only if that is not
zero. -/
inductive ArithmeticFails (strict : Bool) (v w : Value) : BinaryOperator → Fault → Prop
  | text {f : Fault} : (isText v || isText w) = true → Value.DisplaysFail v w f →
      ArithmeticFails strict v w .add f
  | numbers {op : BinaryOperator} {f : Fault} : op ∈ [.add, .subtract, .multiply, .modulo] →
      Value.NumbersFail strict v w f → ArithmeticFails strict v w op f
  | divisor {f : Fault} : w.Uncountable strict f → ArithmeticFails strict v w .divide f
  | dividend {n : Number} {f : Fault} : w.toNumber strict = .ok n → n.isZero = false →
      v.Uncountable strict f → ArithmeticFails strict v w .divide f

theorem ArithmeticFails.extreme {strict : Bool} {op : BinaryOperator}
    (h : ArithmeticFails strict v w op f) : f.Extreme := by
  cases h with
  | text _ h => exact h.extreme
  | numbers _ h => exact h.extreme
  | divisor h => exact h.extreme
  | dividend _ _ h => exact h.extreme

theorem ArithmeticFails.endless {strict : Bool} {op : BinaryOperator}
    (h : ArithmeticFails strict v w op f) (hf : ¬ f.IsArithmetic) : v.Endless ∨ w.Endless := by
  cases h with
  | text _ h => exact h.endless hf
  | numbers _ h => exact h.endless hf
  | divisor h => exact .inr (h.endless hf)
  | dividend _ _ h => exact .inl (h.endless hf)

/-- What fails apart from arithmetic does so with an operand that leads back to itself. -/
theorem guardArithmetic_iff {op : BinaryOperator} {r : Except Failure Value}
    (hfinite : ¬ v.Endless → ¬ w.Endless → Arithmetical r)
    (hendless : v.Endless ∨ w.Endless → ¬ f.IsArithmetic →
      (r = .error (.fault f) ↔ ArithmeticFails s.strict v w op f)) :
    guardArithmetic r = .error (.fault f) ↔
      ¬ f.IsArithmetic ∧ ArithmeticFails s.strict v w op f := by
  rw [guardArithmetic_eq_fault_iff, and_comm]
  refine and_congr_right fun hf => ?_
  by_cases h : v.Endless ∨ w.Endless
  · exact hendless h hf
  · obtain ⟨hv, hw⟩ := not_or.mp h
    exact iff_of_false (fun hr => hf (hfinite hv hw f hr)) fun hop => h (hop.endless hf)

theorem arithmeticFails_numbers_iff {strict : Bool} {op : BinaryOperator}
    (hop : op ∈ [.subtract, .multiply, .modulo]) :
    ArithmeticFails strict v w op f ↔ Value.NumbersFail strict v w f := by
  constructor
  · rintro (_ | ⟨-, h⟩ | _ | _)
    · exact absurd hop (by decide)
    · exact h
    · exact absurd hop (by decide)
    · exact absurd hop (by decide)
  · exact .numbers (List.mem_cons_of_mem _ hop)

theorem arithmeticFails_add_iff {strict : Bool} :
    ArithmeticFails strict v w .add f ↔
      ((isText v || isText w) = true ∧ Value.DisplaysFail v w f) ∨
        Value.NumbersFail strict v w f := by
  constructor
  · rintro (⟨htext, h⟩ | ⟨-, h⟩)
    · exact .inl ⟨htext, h⟩
    · exact .inr h
  · rintro (⟨htext, h⟩ | h)
    · exact .text htext h
    · exact .numbers (by decide) h

theorem arithmeticFails_divide_iff {strict : Bool} :
    ArithmeticFails strict v w .divide f ↔
      w.Uncountable strict f ∨
        ∃ n, w.toNumber strict = .ok n ∧ n.isZero = false ∧ v.Uncountable strict f := by
  constructor
  · rintro (_ | ⟨hop, -⟩ | h | ⟨hn, hzero, h⟩)
    · exact absurd hop (by decide)
    · exact .inl h
    · exact .inr ⟨_, hn, hzero, h⟩
  · rintro (h | ⟨n, hn, hzero, h⟩)
    · exact .divisor h
    · exact .dividend hn hzero h

/-- Two operands of an operator between them that cannot be compared, or not be equal, or not be
displayed for arithmetic, which catches the other faults. -/
inductive OperandsFail (strict : Bool) (v w : Value) : BinaryOperator → Fault → Prop
  | order {op : BinaryOperator} {f : Fault} : op ∈ [.less, .lessEqual, .greater, .greaterEqual] →
      Value.Incomparable strict v w f → OperandsFail strict v w op f
  | equality {op : BinaryOperator} {f : Fault} : op ∈ [.equal, .unequal] →
      Value.Unequatable strict v w f → OperandsFail strict v w op f
  | arithmetic {op : BinaryOperator} {f : Fault} : ¬ f.IsArithmetic →
      ArithmeticFails strict v w op f → OperandsFail strict v w op f

theorem OperandsFail.extreme {strict : Bool} {op : BinaryOperator}
    (h : OperandsFail strict v w op f) : f.Extreme := by
  cases h with
  | order _ h => exact h.extreme
  | equality _ h => exact h.extreme
  | arithmetic _ h => exact h.extreme

theorem compared_eq_fault_iff {holds : Ordering → Bool} :
    s.compared v w holds = .error (.fault f) ↔ Value.Incomparable s.strict v w f := by
  rw [compared, bind_return_eq_error, Value.compare_eq_fault_iff]

theorem bind_equals_eq_fault_iff {g : Bool → Value} :
    (do return g (← v.equals s.strict w) : Except Failure Value) = .error (.fault f) ↔
      Value.Unequatable s.strict v w f := by
  rw [bind_return_eq_error, Value.equals_eq_fault_iff]

theorem ArithmeticFails.arithmetical {strict : Bool} {op : BinaryOperator}
    (h : ArithmeticFails strict v w op f) :
    op ∈ [.add, .subtract, .multiply, .divide, .modulo] := by
  cases h with
  | text => decide
  | numbers hop _ =>
    revert hop
    cases op <;> decide
  | divisor => decide
  | dividend => decide

theorem operate_arithmetic_iff {op : BinaryOperator}
    (hop : op ∈ [.add, .subtract, .multiply, .divide, .modulo]) :
    s.operate op v w = .error (.fault f) ↔
      ¬ f.IsArithmetic ∧ ArithmeticFails s.strict v w op f := by
  cases op with
  | add =>
    refine guardArithmetic_iff s.arithmetical_add fun h hf => ?_
    rw [add_of_endless h, addPlain_eq_fault_iff h hf, arithmeticFails_add_iff]
  | subtract =>
    refine guardArithmetic_iff s.arithmetical_subtract fun h hf => ?_
    rw [subtract_of_endless h, compute_eq_fault_iff Number.arithmetic_sub hf,
      arithmeticFails_numbers_iff (by decide)]
  | multiply =>
    refine guardArithmetic_iff s.arithmetical_multiply fun h hf => ?_
    rw [multiply_of_endless h, compute_eq_fault_iff Number.arithmetic_mul hf,
      arithmeticFails_numbers_iff (by decide)]
  | divide =>
    refine guardArithmetic_iff s.arithmetical_divide fun _ hf => ?_
    rw [divide_eq_fault_iff hf, arithmeticFails_divide_iff]
  | modulo =>
    refine guardArithmetic_iff s.arithmetical_modulo fun _ hf => ?_
    rw [modulo_eq_fault_iff hf, arithmeticFails_numbers_iff (by decide)]
  | _ => exact absurd hop (by decide)

/-- Comparison and equality let a fault pass, and arithmetic that of an operand without end. -/
theorem operate_eq_fault_iff {op : BinaryOperator} :
    s.operate op v w = .error (.fault f) ↔ OperandsFail s.strict v w op f := by
  constructor
  · intro h
    by_cases hop : op ∈ [.add, .subtract, .multiply, .divide, .modulo]
    · obtain ⟨hf, h⟩ := (operate_arithmetic_iff hop).mp h
      exact .arithmetic hf h
    · cases op with
      | or => cases h
      | and => cases h
      | equal => exact .equality (by decide) (bind_equals_eq_fault_iff.mp h)
      | unequal => exact .equality (by decide) (bind_equals_eq_fault_iff.mp h)
      | less => exact .order (by decide) (compared_eq_fault_iff.mp h)
      | lessEqual => exact .order (by decide) (compared_eq_fault_iff.mp h)
      | greater => exact .order (by decide) (compared_eq_fault_iff.mp h)
      | greaterEqual => exact .order (by decide) (compared_eq_fault_iff.mp h)
      | _ => exact absurd (by decide) hop
  · rintro (⟨hop, h⟩ | ⟨hop, h⟩ | ⟨hf, h⟩)
    · simp only [List.mem_cons, List.not_mem_nil, or_false] at hop
      rcases hop with rfl | rfl | rfl | rfl
      all_goals exact compared_eq_fault_iff.mpr h
    · simp only [List.mem_cons, List.not_mem_nil, or_false] at hop
      rcases hop with rfl | rfl
      all_goals exact bind_equals_eq_fault_iff.mpr h
    · exact (operate_arithmetic_iff h.arithmetical).mpr ⟨hf, h⟩

/-! ## Parts of values -/

theorem resolve_ne_fault {name : String} : s.resolve name ≠ .error (.fault f) := by
  unfold resolve
  split
  · nofun
  · exact s.fail_ne_fault _ f

theorem member_ne_fault {name : String} : s.member v name ≠ .error (.fault f) := by
  unfold member
  intro h
  split at h
  · split at h
    · cases h
    · exact s.fail_ne_fault _ f h
  · split at h
    · exact s.fail_ne_fault _ f h
    · split at h
      · cases h
      · exact s.fail_ne_fault _ f h
    · split at h
      · cases h
      · split at h
        · cases h
        · exact s.fail_ne_fault _ f h
    · split at h
      · cases h
      · exact s.fail_ne_fault _ f h
    · split at h
      · cases h
      · cases h
    · cases h
    · exact s.fail_ne_fault _ f h

/-- An index that gives no place: it has no number, or the number is an integer beyond the binary
numbers. -/
inductive IndexFails (s : Scope) (index : Value) : Fault → Prop
  | number {f : Fault} : index.Uncountable s.strict f → IndexFails s index f
  | place {n : Number} : s.number index = .ok n → n.Huge → IndexFails s index .integerTooLarge

theorem IndexFails.extreme {index : Value} (h : s.IndexFails index f) : f.Extreme := by
  cases h with
  | number h => exact h.extreme
  | place _ _ => exact .tooLarge

theorem elementAt_eq_error_iff {items : List Value} {n : Number} :
    elementAt items n = .error f ↔ n.Huge ∧ f = .integerTooLarge := by
  rw [elementAt, bind_eq_error, Number.isFinite_eq_error_iff]
  refine or_iff_left ?_
  rintro ⟨finite, hfinite, h⟩
  split at h
  · next hpos =>
    rcases bind_eq_error.mp h with h | ⟨i, -, h⟩
    · cases n with
      | int n => cases h
      | float x =>
        -- A finite number has an integer part.
        cases x with
        | nan =>
          cases hfinite
          cases hpos
        | infinite negative =>
          cases hfinite
          cases hpos
        | finite negative mant exp canonical => cases h
    · cases h
  · cases h

theorem partAt_ne_fault {key : Option String} : s.partAt v key ≠ .error (.fault f) := by
  unfold partAt
  split
  · nofun
  · nofun
  · exact s.fail_ne_fault _ f

theorem indexKey?_eq_error_iff {index : Value} :
    indexKey? index = .error f ↔ index.kind = .number ∧ index.TooLong f := by
  cases index with
  | number n =>
    rw [indexKey?, map_eq_error, Value.display_number_eq_error]
    exact (and_iff_right rfl).symm
  | _ => exact iff_of_false nofun fun ⟨h, _⟩ => nomatch h

/-- Taking a part lets a fault pass: of a list if the index gives no place, of anything else if the
index is an integer that cannot be written. -/
theorem element_eq_fault_iff {index : Value} :
    s.element v index = .error (.fault f) ↔
      (v.kind = .list ∧ s.IndexFails index f) ∨
        (v.kind ≠ .list ∧ index.kind = .number ∧ index.TooLong f) := by
  unfold element
  split
  · next items =>
    simp only [bind_eq_error, Failure.ofFault_eq_fault, elementAt_eq_error_iff, number,
      Value.toNumber_eq_fault_iff, Value.kind, ne_eq, not_true_eq_false, true_and, false_and,
      or_false]
    constructor
    · rintro (h | ⟨n, hn, hhuge, rfl⟩)
      · exact .number h
      · exact .place hn hhuge
    · rintro (h | ⟨hn, hhuge⟩)
      · exact .inl h
      · exact .inr ⟨_, hn, hhuge, rfl⟩
  · next hlist =>
    have hkind : v.kind ≠ .list := by
      intro hkind
      cases v with
      | list items => exact hlist items rfl
      | _ => cases hkind
    rw [bind_eq_error_left fun _ => s.partAt_ne_fault, Failure.ofFault_eq_fault,
      indexKey?_eq_error_iff]
    simp only [hkind, ne_eq, false_and, not_false_eq_true, true_and, false_or]

theorem operateUnary_eq_fault_iff {op : UnaryOperator} :
    s.operateUnary op v = .error (.fault f) ↔ op = .negate ∧ v.Uncountable s.strict f := by
  cases op with
  | not => exact iff_of_false nofun fun ⟨h, _⟩ => nomatch h
  | negate =>
    rw [operateUnary, bind_return_eq_error, number, Value.toNumber_eq_fault_iff]
    simp only [true_and]

/-! ## Calls -/

theorem guardCall_ne_fault {name : String} {r : Except Failure Value} :
    guardCall name r ≠ .error (.fault f) := by
  intro h
  unfold guardCall at h
  split at h
  · cases h
  · next hnot => exact hnot f h

/-- Of a guarded call only the arguments let a fault pass, where they are evaluated beforehand. -/
theorem guarded_eq_fault_iff {isLazy : Bool} {name : String} {args : List Delayed}
    {r : Except Failure Value} {g : List Value → Except Failure Value} :
    (if isLazy then guardCall name r
      else do
        let args ← args.mapM (· s)
        guardCall name (g args)) = .error (.fault f) ↔
      isLazy = false ∧ args.mapM (· s) = .error (.fault f) := by
  cases isLazy with
  | true => exact iff_of_false guardCall_ne_fault fun ⟨h, _⟩ => nomatch h
  | false =>
    simp only [Bool.false_eq_true, if_false, true_and]
    exact bind_eq_error_left fun _ => guardCall_ne_fault

theorem callFunction_eq_fault_iff {name : String} {args : List Delayed} :
    s.callFunction name args = .error (.fault f) ↔
      ∃ entry, s.library.function? name = some entry ∧ entry.op.isLazy = false ∧
        args.mapM (· s) = .error (.fault f) := by
  unfold callFunction
  cases s.library.function? name with
  | none => exact iff_of_false (s.fail_ne_fault _ f) fun ⟨_, h, _⟩ => nomatch h
  | some entry =>
    simp only [Option.some.injEq, exists_eq_left']
    exact guarded_eq_fault_iff

theorem callMethod_eq_fault_iff {name : String} {args : List Delayed} :
    s.callMethod v name args = .error (.fault f) ↔
      ∃ entry, s.library.method? (some v.kind) name = some entry ∧ entry.op.isLazy = false ∧
        args.mapM (· s) = .error (.fault f) := by
  unfold callMethod
  cases s.library.method? (some v.kind) name with
  | none => exact iff_of_false (s.fail_ne_fault _ f) fun ⟨_, h, _⟩ => nomatch h
  | some entry =>
    simp only [Option.some.injEq, exists_eq_left']
    exact guarded_eq_fault_iff

/-- A function that does not evaluate its arguments for itself is applied to their values, under the
guard. -/
theorem callFunction_eager {name : String} {args : List Delayed} {op : Library.FunctionOp}
    {values : List Value} (hlibrary : (s.library.function? name).map (·.op) = some op)
    (heager : op.isLazy = false) (hargs : args.mapM (· s) = .ok values) :
    s.callFunction name args = guardCall name (op.apply s values) := by
  obtain ⟨entry, hentry, rfl⟩ := Option.map_eq_some_iff.mp hlibrary
  simp only [callFunction, hentry, heager, hargs, Bool.false_eq_true, if_false]
  rfl

/-- A method that does not evaluate its arguments for itself is applied to their values, under the
guard. -/
theorem callMethod_eager {name : String} {args : List Delayed} {op : Library.MethodOp}
    {values : List Value}
    (hlibrary : (s.library.method? (some v.kind) name).map (·.op) = some op)
    (heager : op.isLazy = false) (hargs : args.mapM (· s) = .ok values) :
    s.callMethod v name args = guardCall name (op.apply s v values) := by
  obtain ⟨entry, hentry, rfl⟩ := Option.map_eq_some_iff.mp hlibrary
  simp only [callMethod, hentry, heager, hargs, Bool.false_eq_true, if_false]
  rfl

end Scope

/-! ## Expressions in a scope -/

namespace Expr

/-- A scope without anything but the builtin library. -/
def blankScope : Scope where
  strict := true
  now := default
  library := .builtin

variable {base left right : Expr} {s : Scope} {v w : Value}

theorem eval_int (n : Int) (text : String) (s : Scope) :
    (literal (.number (.int n)) text).eval s = .ok (.int n) :=
  rfl

theorem eval_equal (hleft : left.eval s = .ok v) (hright : right.eval s = .ok w) :
    (binary .equal left right).eval s = do return .bool (← v.equals s.strict w) := by
  have hopen : (binary .equal left right).eval s = (do
      s.operate .equal (← left.eval s) (← right.eval s)) := rfl
  rw [hopen, hleft, hright]
  rfl

theorem mapM_delayed (es : List Expr) : (delayed es).mapM (· s) = es.mapM (·.eval s) := by
  induction es with
  | nil => rfl
  | cons e es ih =>
    show (e.eval :: delayed es).mapM (· s) = (e :: es).mapM (·.eval s)
    rw [List.mapM_cons, List.mapM_cons, ih]

/-- A call of a method with arguments that have values is the call with these. -/
theorem eval_method {name : String} {op : Library.MethodOp} {args : List Expr}
    {values : List Value}
    (hlibrary : (s.library.method? (some v.kind) name).map (·.op) = some op)
    (heager : op.isLazy = false) (hbase : base.eval s = .ok v)
    (hargs : args.mapM (·.eval s) = .ok values) :
    (call (member base name) args).eval s = Scope.guardCall name (op.apply s v values) := by
  have hopen : (call (member base name) args).eval s = (do
      s.callMethod (← base.eval s) name (delayed args)) := rfl
  rw [hopen, hbase]
  exact Scope.callMethod_eager hlibrary heager (by rw [mapM_delayed, hargs])

theorem eval_bare_method {name : String} {op : Library.MethodOp}
    (hlibrary : (s.library.method? (some v.kind) name).map (·.op) = some op)
    (heager : op.isLazy = false) (hbase : base.eval s = .ok v) :
    (call (member base name) []).eval s = Scope.guardCall name (op.apply s v []) :=
  eval_method hlibrary heager hbase rfl

end Expr

end NoteQuery
