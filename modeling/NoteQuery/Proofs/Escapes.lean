/-
Faults that pass the guards of evaluation.

`Expr.Escapes` says where a fault passes: in a comparison, an equality, an index, a negation or the
arithmetic of a value that leads back to itself, outside of what a call evaluates for itself, and
after everything before it has had a value.  Only four faults do so, and evaluation fails with a
fault in no other way (`eval_eq_fault_iff`).
-/
import NoteQuery.Proofs.Guards

namespace NoteQuery

/-- The right operand is evaluated behind a left one of that value. -/
def BinaryOperator.Continues (op : BinaryOperator) (left : Value) : Prop :=
  match op with
  | .or => left.isTruthy = false
  | .and => left.isTruthy = true
  | _ => True

namespace Expr

/-- All of the expressions have values. -/
def AllEvaluate (s : Scope) (es : List Expr) : Prop :=
  ∀ e ∈ es, ∃ v, e.eval s = .ok v

/-- A fault arises where nothing guards against it: between two operands, at an index or in a
negation, whose parts have values, and which is evaluated neither by a call for itself nor behind
anything that has no value. -/
inductive Escapes (s : Scope) : Expr → Fault → Prop
  | operands {op : BinaryOperator} {left right : Expr} {v w : Value} {f : Fault} :
      left.eval s = .ok v → right.eval s = .ok w → Scope.OperandsFail s.strict v w op f →
        Escapes s (.binary op left right) f
  | element {base position : Expr} {v i : Value} {f : Fault} : base.eval s = .ok v →
      v.kind = .list → position.eval s = .ok i → s.IndexFails i f →
        Escapes s (.index base position) f
  | part {base position : Expr} {v i : Value} {f : Fault} : base.eval s = .ok v →
      v.kind ≠ .list → position.eval s = .ok i → i.kind = .number → i.TooLong f →
        Escapes s (.index base position) f
  | negation {operand : Expr} {v : Value} {f : Fault} : operand.eval s = .ok v →
      v.Uncountable s.strict f → Escapes s (.unary .negate operand) f
  | inBase {base : Expr} {field : String} {f : Fault} : Escapes s base f →
      Escapes s (.member base field) f
  | inContainer {base position : Expr} {f : Fault} : Escapes s base f →
      Escapes s (.index base position) f
  | inPosition {base position : Expr} {v : Value} {f : Fault} : base.eval s = .ok v →
      Escapes s position f → Escapes s (.index base position) f
  | inLeft {op : BinaryOperator} {left right : Expr} {f : Fault} : Escapes s left f →
      Escapes s (.binary op left right) f
  | inRight {op : BinaryOperator} {left right : Expr} {v : Value} {f : Fault} :
      left.eval s = .ok v → op.Continues v → Escapes s right f → Escapes s (.binary op left right) f
  | inOperand {op : UnaryOperator} {operand : Expr} {f : Fault} : Escapes s operand f →
      Escapes s (.unary op operand) f
  | inArgument {name : String} {entry : Library.FunctionEntry} {before after : List Expr} {e : Expr}
      {f : Fault} : s.library.function? name = some entry → entry.op.isLazy = false →
        AllEvaluate s before → Escapes s e f →
          Escapes s (.call (.name name) (before ++ e :: after)) f
  | inTarget {base : Expr} {method : String} {arguments : List Expr} {f : Fault} :
      Escapes s base f → Escapes s (.call (.member base method) arguments) f
  | inMethodArgument {base : Expr} {method : String} {target : Value} {entry : Library.MethodEntry}
      {before after : List Expr} {e : Expr} {f : Fault} : base.eval s = .ok target →
        s.library.method? (some target.kind) method = some entry → entry.op.isLazy = false →
          AllEvaluate s before → Escapes s e f →
            Escapes s (.call (.member base method) (before ++ e :: after)) f
  | inElement {before after : List Expr} {e : Expr} {f : Fault} : AllEvaluate s before →
      Escapes s e f → Escapes s (.list (before ++ e :: after)) f
  | inPair {before after : List (String × Expr)} {key : String} {e : Expr} {f : Fault} :
      AllEvaluate s (before.map (·.2)) → Escapes s e f →
        Escapes s (.object (before ++ (key, e) :: after)) f

section Lists

variable (s : Scope)

theorem evalItems_eq_mapM (es : List Expr) : evalItems es s = es.mapM (·.eval s) := by
  induction es with
  | nil => rfl
  | cons e es ih => rw [evalItems, ih, List.mapM_cons]

theorem evalPairs_eq_mapM (ps : List (String × Expr)) :
    evalPairs ps s = ps.mapM fun p => (p.2.eval s).map fun v => (p.1, v) := by
  induction ps with
  | nil => rfl
  | cons p ps ih =>
    rw [evalPairs, ih, List.mapM_cons]
    cases p.2.eval s with
    | error e => rfl
    | ok v => rfl

variable {s}

theorem mapM_eval_eq_fault {before after : List Expr} {e : Expr} {f : Fault}
    (hbefore : AllEvaluate s before) (he : e.eval s = .error (.fault f)) :
    (before ++ e :: after).mapM (·.eval s) = .error (.fault f) :=
  mapM_eq_error.mpr ⟨before, e, after, rfl, hbefore, he⟩

theorem evalPairs_eq_fault_iff {ps : List (String × Expr)} {f : Fault} :
    evalPairs ps s = .error (.fault f) ↔ ∃ before p after, ps = before ++ p :: after ∧
      AllEvaluate s (before.map (·.2)) ∧ p.2.eval s = .error (.fault f) := by
  have hvalues (ps : List (String × Expr)) :
      (∀ p ∈ ps, ∃ pair, (p.2.eval s).map (fun v => (p.1, v)) = .ok pair) ↔
        AllEvaluate s (ps.map (·.2)) := by
    simp only [AllEvaluate, List.forall_mem_map, map_eq_ok, exists_comm (α := String × Value),
      exists_eq_right']
  simp only [evalPairs_eq_mapM, mapM_eq_error, map_eq_error, hvalues]

end Lists

theorem not_operandsFail {strict : Bool} {v w : Value} {op : BinaryOperator} {f : Fault}
    (hop : op ∈ [.or, .and]) : ¬ Scope.OperandsFail strict v w op f := by
  have hnone (h : Scope.OperandsFail strict v w op f) : op ∉ [.or, .and] := by
    cases h with
    | order h _ | equality h _ =>
      revert h
      cases op <;> decide
    | arithmetic _ h =>
      have h := h.arithmetical
      revert h
      cases op <;> decide
  exact fun h => hnone h hop

/-- Operators that fail with their operands evaluate both. -/
theorem continues_of_operandsFail {strict : Bool} {v w : Value} {op : BinaryOperator} {f : Fault}
    (h : Scope.OperandsFail strict v w op f) : op.Continues v := by
  cases op with
  | or => exact absurd h (not_operandsFail (by decide))
  | and => exact absurd h (not_operandsFail (by decide))
  | _ => trivial

section Cases

variable {s : Scope} {f : Fault}

theorem binary_eq_fault_iff {op : BinaryOperator} {left right : Expr} :
    (binary op left right).eval s = .error (.fault f) ↔
      left.eval s = .error (.fault f) ∨
        ∃ v, left.eval s = .ok v ∧ op.Continues v ∧ (right.eval s = .error (.fault f) ∨
          ∃ w, right.eval s = .ok w ∧ Scope.OperandsFail s.strict v w op f) := by
  have hplain : (do
        let v ← left.eval s
        let w ← right.eval s
        s.operate op v w) = .error (.fault f) ↔
      left.eval s = .error (.fault f) ∨ ∃ v, left.eval s = .ok v ∧
        (right.eval s = .error (.fault f) ∨
          ∃ w, right.eval s = .ok w ∧ Scope.OperandsFail s.strict v w op f) := by
    simp only [bind_eq_error, Scope.operate_eq_fault_iff]
  cases op with
  | or =>
    have hnone (v w : Value) := @not_operandsFail s.strict v w .or f (by decide)
    rw [eval, bind_eq_error]
    refine or_congr_right (exists_congr fun v => and_congr_right fun _ => ?_)
    simp only [hnone, and_false, exists_false, or_false, BinaryOperator.Continues]
    cases v.isTruthy with
    | true =>
      refine iff_of_false ?_ ?_
      · intro h
        cases h
      · rintro ⟨h, -⟩
        cases h
    | false => simp only [Bool.false_eq_true, if_false, true_and]
  | and =>
    have hnone (v w : Value) := @not_operandsFail s.strict v w .and f (by decide)
    rw [eval, bind_eq_error]
    refine or_congr_right (exists_congr fun v => and_congr_right fun _ => ?_)
    simp only [hnone, and_false, exists_false, or_false, BinaryOperator.Continues]
    cases v.isTruthy with
    | true => simp only [if_true, true_and]
    | false =>
      refine iff_of_false ?_ ?_
      · intro h
        cases h
      · rintro ⟨h, -⟩
        cases h
  | _ =>
    simp only [BinaryOperator.Continues, true_and]
    rw [eval]
    · exact hplain
    · intro h
      cases h
    · intro h
      cases h

end Cases

theorem Escapes.eval_eq {s : Scope} {e : Expr} {f : Fault} (h : e.Escapes s f) :
    e.eval s = .error (.fault f) := by
  induction h with
  | operands hv hw h =>
    exact binary_eq_fault_iff.mpr (.inr ⟨_, hv, continues_of_operandsFail h, .inr ⟨_, hw, h⟩⟩)
  | element hbase hkind hposition h =>
    rw [eval, hbase, hposition]
    exact Scope.element_eq_fault_iff.mpr (.inl ⟨hkind, h⟩)
  | part hbase hkind hposition hindex h =>
    rw [eval, hbase, hposition]
    exact Scope.element_eq_fault_iff.mpr (.inr ⟨hkind, hindex, h⟩)
  | negation hv h =>
    rw [eval, hv]
    exact Scope.operateUnary_eq_fault_iff.mpr ⟨rfl, h⟩
  | inBase _ ih => rw [eval, ih]; rfl
  | inContainer _ ih => rw [eval, ih]; rfl
  | inPosition hv _ ih => rw [eval, hv, ih]; rfl
  | inLeft _ ih => exact binary_eq_fault_iff.mpr (.inl ih)
  | inRight hv hop _ ih => exact binary_eq_fault_iff.mpr (.inr ⟨_, hv, hop, .inl ih⟩)
  | inOperand _ ih => rw [eval, ih]; rfl
  | inArgument hentry hlazy hbefore _ ih =>
    rw [eval]
    refine Scope.callFunction_eq_fault_iff.mpr ⟨_, hentry, hlazy, ?_⟩
    rw [mapM_delayed]
    exact mapM_eval_eq_fault hbefore ih
  | inTarget _ ih => rw [eval, ih]; rfl
  | inMethodArgument hbase hentry hlazy hbefore _ ih =>
    rw [eval, hbase]
    refine Scope.callMethod_eq_fault_iff.mpr ⟨_, hentry, hlazy, ?_⟩
    rw [mapM_delayed]
    exact mapM_eval_eq_fault hbefore ih
  | inElement hbefore _ ih =>
    rw [eval, evalItems_eq_mapM, mapM_eval_eq_fault hbefore ih]
    rfl
  | inPair hbefore _ ih =>
    rw [eval, evalPairs_eq_fault_iff.mpr ⟨_, (_, _), _, rfl, hbefore, ih⟩]
    rfl

theorem escapes_of_eval {s : Scope} {f : Fault} : ∀ e : Expr, e.eval s = .error (.fault f) →
    e.Escapes s f
  | literal v raw, h => nomatch h
  | name n, h => absurd h Scope.resolve_ne_fault
  | member base field, h => by
    rw [eval] at h
    rcases bind_eq_error.mp h with h | ⟨v, -, h⟩
    · exact .inBase (escapes_of_eval base h)
    · exact absurd h Scope.member_ne_fault
  | index base position, h => by
    rw [eval] at h
    rcases bind_eq_error.mp h with h | ⟨v, hv, h⟩
    · exact .inContainer (escapes_of_eval base h)
    · rcases bind_eq_error.mp h with h | ⟨i, hi, h⟩
      · exact .inPosition hv (escapes_of_eval position h)
      · rcases Scope.element_eq_fault_iff.mp h with ⟨hkind, hindex⟩ | ⟨hkind, hindex, h⟩
        · exact .element hv hkind hi hindex
        · exact .part hv hkind hi hindex h
  | binary op left right, h => by
    rcases binary_eq_fault_iff.mp h with h | ⟨v, hv, hop, h | ⟨w, hw, h⟩⟩
    · exact .inLeft (escapes_of_eval left h)
    · exact .inRight hv hop (escapes_of_eval right h)
    · exact .operands hv hw h
  | unary op operand, h => by
    rw [eval] at h
    rcases bind_eq_error.mp h with h | ⟨v, hv, h⟩
    · exact .inOperand (escapes_of_eval operand h)
    · obtain ⟨rfl, hcount⟩ := Scope.operateUnary_eq_fault_iff.mp h
      exact .negation hv hcount
  | call (.name n) arguments, h => by
    rw [eval] at h
    obtain ⟨entry, hentry, hlazy, h⟩ := Scope.callFunction_eq_fault_iff.mp h
    rw [mapM_delayed] at h
    obtain ⟨before, e, after, harguments, hbefore, he⟩ := mapM_eq_error.mp h
    have hlt : sizeOf e < sizeOf arguments :=
      List.sizeOf_lt_of_mem (harguments ▸ List.mem_append_right before List.mem_cons_self)
    have hescapes := escapes_of_eval e he
    exact harguments ▸ .inArgument hentry hlazy hbefore hescapes
  | call (.member base method) arguments, h => by
    rw [eval] at h
    rcases bind_eq_error.mp h with h | ⟨target, htarget, h⟩
    · exact .inTarget (escapes_of_eval base h)
    · obtain ⟨entry, hentry, hlazy, h⟩ := Scope.callMethod_eq_fault_iff.mp h
      rw [mapM_delayed] at h
      obtain ⟨before, e, after, harguments, hbefore, he⟩ := mapM_eq_error.mp h
      have hlt : sizeOf e < sizeOf arguments :=
        List.sizeOf_lt_of_mem (harguments ▸ List.mem_append_right before List.mem_cons_self)
      have hescapes := escapes_of_eval e he
      exact harguments ▸ .inMethodArgument htarget hentry hlazy hbefore hescapes
  | list elements, h => by
    rw [eval, evalItems_eq_mapM] at h
    rcases bind_eq_error.mp h with h | ⟨vs, -, h⟩
    · obtain ⟨before, e, after, helements, hbefore, he⟩ := mapM_eq_error.mp h
      have hlt : sizeOf e < sizeOf elements :=
        List.sizeOf_lt_of_mem (helements ▸ List.mem_append_right before List.mem_cons_self)
      have hescapes := escapes_of_eval e he
      exact helements ▸ .inElement hbefore hescapes
    · cases h
  | object pairs, h => by
    rw [eval] at h
    rcases bind_eq_error.mp h with h | ⟨vs, -, h⟩
    · obtain ⟨before, p, after, hpairs, hbefore, hp⟩ := evalPairs_eq_fault_iff.mp h
      have hlt : sizeOf p < sizeOf pairs :=
        List.sizeOf_lt_of_mem (hpairs ▸ List.mem_append_right before List.mem_cons_self)
      have hescapes := escapes_of_eval p.2 hp
      exact hpairs ▸ .inPair hbefore hescapes
    · cases h
  | call (.literal v raw) arguments, h => absurd h (s.fail_ne_fault _ f)
  | call (.index base position) arguments, h => absurd h (s.fail_ne_fault _ f)
  | call (.binary op left right) arguments, h => absurd h (s.fail_ne_fault _ f)
  | call (.unary op operand) arguments, h => absurd h (s.fail_ne_fault _ f)
  | call (.call callee inner) arguments, h => absurd h (s.fail_ne_fault _ f)
  | call (.list elements) arguments, h => absurd h (s.fail_ne_fault _ f)
  | call (.object pairs) arguments, h => absurd h (s.fail_ne_fault _ f)
termination_by e => sizeOf e
decreasing_by
  all_goals simp only [member.sizeOf_spec, index.sizeOf_spec, binary.sizeOf_spec,
    unary.sizeOf_spec, call.sizeOf_spec, list.sizeOf_spec, object.sizeOf_spec]
  all_goals try omega
  have hpair : sizeOf p = 1 + sizeOf p.1 + sizeOf p.2 := Prod.mk.sizeOf_spec p.1 p.2
  omega

theorem Escapes.extreme {s : Scope} {e : Expr} {f : Fault} (h : e.Escapes s f) : f.Extreme := by
  induction h with
  | operands _ _ h => exact h.extreme
  | element _ _ _ h => exact h.extreme
  | part _ _ _ _ h => exact h.1 ▸ .tooLong
  | negation _ h => exact h.extreme
  | inBase _ ih => exact ih
  | inContainer _ ih => exact ih
  | inPosition _ _ ih => exact ih
  | inLeft _ ih => exact ih
  | inRight _ _ _ ih => exact ih
  | inOperand _ ih => exact ih
  | inArgument _ _ _ _ ih => exact ih
  | inTarget _ ih => exact ih
  | inMethodArgument _ _ _ _ _ ih => exact ih
  | inElement _ _ ih => exact ih
  | inPair _ _ ih => exact ih

/-- Evaluation gives a value or an error of the expression, unless a fault arises where nothing
guards against it, and there are four faults that do: a moment without a zone on the first day of
the calendar has no epoch milliseconds, an integer is beyond the binary numbers or has too many
digits to be written, or a value contains itself. -/
theorem eval_eq_fault_iff (e : Expr) (s : Scope) (f : Fault) :
    e.eval s = .error (.fault f) ↔ e.Escapes s f ∧ f.Extreme :=
  ⟨fun h => ⟨escapes_of_eval e h, (escapes_of_eval e h).extreme⟩, fun h => h.1.eval_eq⟩

/-- The scope of a note that is due on the first day of the calendar. -/
def dueAtOnce (strict : Bool) : Scope where
  strict := strict
  now := default
  library := .builtin
  note := [(.string "due", .date ⟨1, 1, 1, by decide⟩)]

/-- Such a day has no place in time, and a comparison with it fails in a way that no expression is
meant to. -/
theorem eval_dueAtOnce : ∃ e, parse "due < now()" = .ok e ∧
    e.eval (dueAtOnce true) = .error (.fault (.yearOutOfRange 0)) ∧
    e.eval (dueAtOnce false) = .error (.fault (.yearOutOfRange 0)) := by
  have hparse : parse "due < now()" =
      .ok (.binary .less (.name "due") (.call (.name "now") [])) := by
    decide +kernel
  have hescapes (strict : Bool) : (binary .less (.name "due") (.call (.name "now") [])).Escapes
      (dueAtOnce strict) (.yearOutOfRange 0) :=
    .operands (v := .date ⟨1, 1, 1, by decide⟩) (w := .timestamp default) rfl rfl
      (.order (by decide)
        (.numbers (.inl (by decide)) (.left (.moment rfl ⟨rfl, rfl, rfl, rfl⟩))))
  exact ⟨_, hparse, (hescapes true).eval_eq, (hescapes false).eval_eq⟩

end Expr

end NoteQuery
