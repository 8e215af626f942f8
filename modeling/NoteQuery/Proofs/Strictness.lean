/-
Strict evaluation only adds errors.

`Relaxes r r'` says how an outcome `r` changes when strictness is given up: a value stays the
value that it is, and `r'` is none of the errors that strictness is there for.  An error of `r`
may become anything else.  The relation goes through every way in which evaluation puts
outcomes together (`relaxes_bind` and its companions), so each operation is compared with its
lenient form once, and the induction over expressions has nothing left to compute.

The bodies of `filter`, `map` and `reduce` and the branches of a choice reach their operations
as `Delayed` values, evaluated in scopes that the operation makes.  What the induction hands
down for them is therefore a statement about every scope.
-/
import NoteQuery.Eval.Evaluator

namespace NoteQuery

/-- The error is one that strictness adds: something unknown, a part of a value that has none,
a value that is no number, a divisor that is zero, or a call of what cannot be called. -/
def EvalError.isStrict : EvalError → Bool
  | notANumber _ | unknownIdentifier _ | memberOfNull _ | unknownDateMember _
  | unknownFileMember _ | noMember .. | noIndex _ | divisionByZero | moduloByZero | notCallable
  | unknownFunction _ | unknownMethod .. => true
  | arithmetic _ | call .. | tooFewBranches => false

/-- `r'` is an outcome of a lenient computation of which `r` is the outcome under any
strictness. -/
structure Relaxes {α : Type} (r r' : Except Failure α) : Prop where
  keeps : ∀ a, r = .ok a → r' = .ok a
  forgives : ∀ e, r' = .error (.evaluation e) → e.isStrict = false

section Rules

variable {α β : Type}

theorem relaxes_ok (a : α) : Relaxes (.ok a) (.ok a) :=
  ⟨fun _ h => h, fun _ h => nomatch h⟩

theorem relaxes_fault (f : Fault) : Relaxes (.error (.fault f) : Except Failure α)
    (.error (.fault f)) :=
  ⟨fun _ h => h, fun _ h => nomatch h⟩

/-- An error that strictness does not add is the same in both computations. -/
theorem relaxes_error {e : EvalError} (h : e.isStrict = false) :
    Relaxes (.error (.evaluation e) : Except Failure α) (.error (.evaluation e)) :=
  ⟨fun _ h => h, fun _ he => by cases he; exact h⟩

/-- A strict error may become any value. -/
theorem relaxes_error_ok (e : Failure) (a : α) : Relaxes (.error e) (.ok a) :=
  ⟨fun _ h => (nomatch h), fun _ h => nomatch h⟩

/-- Below evaluation nothing depends on strictness. -/
theorem relaxes_ofFault (r : Except Fault α) :
    Relaxes (Failure.ofFault r) (Failure.ofFault r) := by
  cases r with
  | ok a => exact relaxes_ok a
  | error f => exact relaxes_fault f

theorem relaxes_bind {r r' : Except Failure α} {f f' : α → Except Failure β}
    (h : Relaxes r r') (hf : ∀ a, Relaxes (f a) (f' a)) :
    Relaxes (r >>= f) (r' >>= f') := by
  constructor
  · intro b hb
    cases r with
    | error e => exact nomatch hb
    | ok a =>
        rw [h.keeps a rfl]
        exact (hf a).keeps b hb
  · intro e he
    cases r' with
    | error e' =>
        cases he
        exact h.forgives e rfl
    | ok a => exact (hf a).forgives e he

/-- A value that is returned behind a computation. -/
theorem relaxes_return {r r' : Except Failure α} (f : α → β) (h : Relaxes r r') :
    Relaxes (do return f (← r)) (do return f (← r')) :=
  relaxes_bind h fun a => relaxes_ok (f a)

theorem relaxes_map {r r' : Except Failure α} (f : α → β) (h : Relaxes r r') :
    Relaxes (r.map f) (r'.map f) := by
  constructor
  · intro b hb
    cases r with
    | error e => exact nomatch hb
    | ok a =>
        rw [h.keeps a rfl]
        exact hb
  · intro e he
    cases r' with
    | error e' =>
        cases he
        exact h.forgives e rfl
    | ok a => exact nomatch he

/-- A choice on a condition that strictness has no part in. -/
theorem relaxes_ite {p : Prop} [Decidable p] {r r' t t' : Except Failure α}
    (hr : Relaxes r r') (ht : Relaxes t t') :
    Relaxes (if p then r else t) (if p then r' else t') := by
  split
  · exact hr
  · exact ht

theorem relaxes_mapM {f f' : α → Except Failure β} {as : List α}
    (h : ∀ a ∈ as, Relaxes (f a) (f' a)) : Relaxes (as.mapM f) (as.mapM f') := by
  induction as with
  | nil => exact relaxes_ok []
  | cons a as ih =>
      rw [List.mapM_cons, List.mapM_cons]
      refine relaxes_bind (h a List.mem_cons_self) fun b => ?_
      refine relaxes_bind (ih fun x hx => h x (List.mem_cons_of_mem a hx)) fun bs => ?_
      exact relaxes_ok (b :: bs)

theorem relaxes_anyM {p : α → Except Failure Bool} (h : ∀ a, Relaxes (p a) (p a)) (as : List α) :
    Relaxes (as.anyM p) (as.anyM p) := by
  induction as with
  | nil => exact relaxes_ok false
  | cons a as ih =>
      refine relaxes_bind (h a) fun b => ?_
      cases b with
      | true => exact relaxes_ok true
      | false => exact ih

theorem relaxes_allM {p : α → Except Failure Bool} (h : ∀ a, Relaxes (p a) (p a)) (as : List α) :
    Relaxes (as.allM p) (as.allM p) := by
  induction as with
  | nil => exact relaxes_ok true
  | cons a as ih =>
      refine relaxes_bind (h a) fun b => ?_
      cases b with
      | true => exact ih
      | false => exact relaxes_ok false

theorem relaxes_foldlM {f f' : β → α → Except Failure β} (h : ∀ b a, Relaxes (f b a) (f' b a))
    (b : β) (as : List α) : Relaxes (as.foldlM f b) (as.foldlM f' b) := by
  induction as generalizing b with
  | nil => exact relaxes_ok b
  | cons a as ih =>
      rw [List.foldlM_cons, List.foldlM_cons]
      exact relaxes_bind (h b a) ih

end Rules

/-! ## Numbers, order and equality -/

namespace Value

theorem relaxes_withoutNumber (strict : Bool) (v : Value) :
    Relaxes (v.withoutNumber strict) (v.withoutNumber false) := by
  cases strict with
  | false => exact relaxes_ok _
  | true =>
      -- A number is missing whether or not the value can be displayed.
      unfold withoutNumber
      cases v.display with
      | error f => exact relaxes_error_ok _ _
      | ok text => exact relaxes_error_ok _ _

theorem relaxes_toNumber (strict : Bool) (v : Value) :
    Relaxes (v.toNumber strict) (v.toNumber false) := by
  cases v with
  | null => exact relaxes_ok _
  | bool b => exact relaxes_ok _
  | number n => exact relaxes_ok n
  | date d => exact relaxes_ofFault _
  | timestamp t => exact relaxes_ofFault _
  | duration d => exact relaxes_ofFault _
  | string s =>
      simp only [toNumber]
      split
      · exact relaxes_ok _
      · exact relaxes_withoutNumber strict _
  | _ => exact relaxes_withoutNumber strict _

theorem relaxes_compare (strict : Bool) (v w : Value) :
    Relaxes (compare strict v w) (compare false v w) := by
  simp only [compare]
  split
  · exact relaxes_ofFault _
  · refine relaxes_ite ?_ ?_
    · refine relaxes_bind (relaxes_toNumber strict v) fun m => ?_
      refine relaxes_bind (relaxes_toNumber strict w) fun n => ?_
      exact relaxes_bind (relaxes_ofFault _) fun d => relaxes_ok _
    · split
      · exact relaxes_ok _
      · exact relaxes_ok _
      · exact relaxes_ok _
      · exact relaxes_ofFault _

theorem relaxes_equalParts (strict : Bool) (v w : Value) :
    Relaxes (equalParts strict v w) (equalParts false v w) := by
  simp only [equalParts]
  split
  · exact relaxes_ofFault _
  · split
    · exact relaxes_ok _
    · split
      · exact relaxes_ofFault _
      · refine relaxes_ite ?_ (relaxes_ite (relaxes_ofFault _) (relaxes_ok _))
        refine relaxes_bind (relaxes_toNumber strict v) fun m => ?_
        exact relaxes_bind (relaxes_toNumber strict w) fun n => relaxes_ok _

mutual

theorem relaxes_equals (strict : Bool) :
    ∀ v w : Value, Relaxes (v.equals strict w) (v.equals false w)
  | v, w => by
      cases v with
      | list items =>
          cases w with
          | list others =>
              simp only [equals]
              exact relaxes_ite (relaxes_equalItems strict items others) (relaxes_ok false)
          | _ => simpa only [equals] using relaxes_equalParts strict _ _
      | _ => simpa only [equals] using relaxes_equalParts strict _ _

theorem relaxes_equalItems (strict : Bool) :
    ∀ vs ws : List Value, Relaxes (equalItems strict vs ws) (equalItems false vs ws)
  | v :: vs, w :: ws => by
      simp only [equalItems]
      refine relaxes_bind (relaxes_equals strict v w) fun same => ?_
      exact relaxes_ite (relaxes_equalItems strict vs ws) (relaxes_ok false)
  | [], _ => by simpa only [equalItems] using relaxes_ok true
  | _ :: _, [] => by simpa only [equalItems] using relaxes_ok true

end

end Value

/-! ## Sorting -/

namespace Sorting

variable {α : Type} {less less' : α → α → Except Failure Bool}

theorem relaxes_place (h : ∀ x y, Relaxes (less x y) (less' x y)) (sorted : List α) (x : α)
    (low high : Nat) : Relaxes (place less sorted x low high) (place less' sorted x low high) := by
  induction hn : high - low using Nat.strongRecOn generalizing low high with
  | ind n ih =>
      subst hn
      rw [place, place]
      split
      · dsimp only
        split
        · exact relaxes_ok low
        · refine relaxes_bind (h x _) fun before => relaxes_ite ?_ ?_
          · exact ih _ (by omega) low _ rfl
          · exact ih _ (by omega) _ high rfl
      · exact relaxes_ok low

theorem relaxes_insert (h : ∀ x y, Relaxes (less x y) (less' x y)) (sorted : List α) (x : α) :
    Relaxes (insert less sorted x) (insert less' sorted x) :=
  relaxes_map _ (relaxes_place h sorted x 0 sorted.length)

theorem relaxes_run (h : ∀ x y, Relaxes (less x y) (less' x y)) (falling : Bool) (last : α)
    (xs : List α) : Relaxes (run less falling last xs) (run less' falling last xs) := by
  induction xs generalizing last with
  | nil => exact relaxes_ok _
  | cons x xs ih =>
      refine relaxes_bind (h x last) fun b => relaxes_ite ?_ (relaxes_ok _)
      exact relaxes_bind (ih x) fun _ => relaxes_ok _

theorem relaxes_sort (h : ∀ x y, Relaxes (less x y) (less' x y)) (xs : List α) :
    Relaxes (sort less xs) (sort less' xs) := by
  match xs with
  | [] => exact relaxes_ok []
  | [x] => exact relaxes_ok [x]
  | x :: y :: xs =>
      refine relaxes_bind (h y x) fun falling => ?_
      refine relaxes_bind (relaxes_run h falling y xs) fun _ => ?_
      exact relaxes_foldlM (relaxes_insert h) _ _

end Sorting

/-! ## Scopes -/

namespace Scope

/-- The scope in which nothing is strict. -/
def lenient (s : Scope) : Scope :=
  { s with strict := false }

theorem relaxes_fail (s : Scope) {e : EvalError} :
    Relaxes (s.fail e) (s.lenient.fail e) := by
  simp only [fail, lenient]
  split
  · exact relaxes_error_ok _ _
  · exact relaxes_ok _

theorem relaxes_number (s : Scope) (v : Value) : Relaxes (s.number v) (s.lenient.number v) :=
  Value.relaxes_toNumber s.strict v

theorem relaxes_resolve (s : Scope) (name : String) :
    Relaxes (s.resolve name) (s.lenient.resolve name) := by
  have found : s.lenient.find? name = s.find? name := rfl
  simp only [resolve, found]
  split
  · exact relaxes_ok _
  · exact relaxes_fail s

theorem relaxes_member (s : Scope) (v : Value) (name : String) :
    Relaxes (s.member v name) (s.lenient.member v name) := by
  simp only [member]
  split
  · split
    · exact relaxes_ok _
    · exact relaxes_fail s
  · split
    · exact relaxes_fail s
    · split
      · exact relaxes_ok _
      · exact relaxes_fail s
    · exact relaxes_ite (relaxes_ok _) (relaxes_ite (relaxes_ok _) (relaxes_fail s))
    · exact relaxes_ite (relaxes_ok _) (relaxes_fail s)
    · exact relaxes_ite (relaxes_ok _) (relaxes_ok _)
    · exact relaxes_ok _
    · exact relaxes_fail s

theorem relaxes_partAt (s : Scope) (v : Value) (key : Option String) :
    Relaxes (s.partAt v key) (s.lenient.partAt v key) := by
  unfold partAt
  split
  · exact relaxes_ok _
  · exact relaxes_ok _
  · exact relaxes_fail s

theorem relaxes_element (s : Scope) (v index : Value) :
    Relaxes (s.element v index) (s.lenient.element v index) := by
  simp only [element]
  split
  · exact relaxes_bind (relaxes_number s index) fun n => relaxes_ofFault _
  · exact relaxes_bind (relaxes_ofFault _) fun key => relaxes_partAt s v key

/-! ## Operators -/

theorem relaxes_compute (s : Scope) (op : Number → Number → Except Fault Number) (v w : Value) :
    Relaxes (s.compute op v w) (s.lenient.compute op v w) := by
  refine relaxes_bind (relaxes_number s v) fun m => ?_
  refine relaxes_bind (relaxes_number s w) fun n => ?_
  exact relaxes_bind (relaxes_ofFault _) fun r => relaxes_ok _

theorem relaxes_addPlain (s : Scope) (v w : Value) :
    Relaxes (s.addPlain v w) (s.lenient.addPlain v w) := by
  simp only [addPlain]
  split
  · exact relaxes_ok _
  · exact relaxes_ite (relaxes_ofFault _) (relaxes_compute s _ v w)

theorem relaxes_addRight (s : Scope) (v w : Value) :
    Relaxes (s.addRight v w) (s.lenient.addRight v w) := by
  simp only [addRight]
  split
  · exact relaxes_ofFault _
  · exact relaxes_addPlain s v w

theorem relaxes_add (s : Scope) (v w : Value) : Relaxes (s.add v w) (s.lenient.add v w) := by
  simp only [add]
  split
  · exact relaxes_addRight s v w
  · split
    · exact relaxes_ofFault _
    · exact relaxes_ofFault _
    · exact relaxes_addRight s v _

theorem relaxes_subtract (s : Scope) (v w : Value) :
    Relaxes (s.subtract v w) (s.lenient.subtract v w) := by
  simp only [subtract]
  split
  · exact relaxes_ofFault _
  · split
    · exact relaxes_ofFault _
    · exact relaxes_ofFault _
    · exact relaxes_compute s _ _ _
  · split
    · exact relaxes_ofFault _
    · exact relaxes_compute s _ _ _

theorem relaxes_multiply (s : Scope) (v w : Value) :
    Relaxes (s.multiply v w) (s.lenient.multiply v w) := by
  simp only [multiply]
  split
  · exact relaxes_ofFault _
  · exact relaxes_ofFault _
  · exact relaxes_compute s _ _ _

theorem relaxes_divide (s : Scope) (v w : Value) :
    Relaxes (s.divide v w) (s.lenient.divide v w) := by
  refine relaxes_bind (relaxes_number s w) fun divisor => relaxes_ite (relaxes_fail s) ?_
  split
  · exact relaxes_ofFault _
  · refine relaxes_bind (relaxes_number s v) fun dividend => ?_
    exact relaxes_bind (relaxes_ofFault _) fun q => relaxes_ok _

theorem relaxes_modulo (s : Scope) (v w : Value) :
    Relaxes (s.modulo v w) (s.lenient.modulo v w) := by
  refine relaxes_bind (relaxes_number s v) fun dividend => ?_
  refine relaxes_bind (relaxes_number s w) fun divisor => relaxes_ite (relaxes_fail s) ?_
  exact relaxes_bind (relaxes_ofFault _) fun r => relaxes_ok _

/-- Turning faults into errors adds no strict error. -/
theorem relaxes_guardArithmetic {r r' : Except Failure Value} (h : Relaxes r r') :
    Relaxes (guardArithmetic r) (guardArithmetic r') := by
  constructor
  · intro v hv
    cases r with
    | ok w => rw [h.keeps w rfl]; exact hv
    | error e =>
        cases e with
        | evaluation e => exact nomatch hv
        | fault f =>
            simp only [guardArithmetic] at hv
            split at hv <;> exact nomatch hv
  · intro e he
    cases r' with
    | ok w => exact nomatch he
    | error e' =>
        cases e' with
        | evaluation e' =>
            cases he
            exact h.forgives e rfl
        | fault f =>
            simp only [guardArithmetic] at he
            split at he <;> cases he
            rfl

theorem relaxes_compared (s : Scope) (v w : Value) (holds : Ordering → Bool) :
    Relaxes (s.compared v w holds) (s.lenient.compared v w holds) :=
  relaxes_bind (Value.relaxes_compare s.strict v w) fun _ => relaxes_ok _

theorem relaxes_operate (s : Scope) (op : BinaryOperator) (v w : Value) :
    Relaxes (s.operate op v w) (s.lenient.operate op v w) := by
  cases op with
  | or | and => exact relaxes_ok _
  | equal | unequal =>
      exact relaxes_bind (Value.relaxes_equals s.strict v w) fun _ => relaxes_ok _
  | less | lessEqual | greater | greaterEqual => exact relaxes_compared s v w _
  | add => exact relaxes_guardArithmetic (relaxes_add s v w)
  | subtract => exact relaxes_guardArithmetic (relaxes_subtract s v w)
  | multiply => exact relaxes_guardArithmetic (relaxes_multiply s v w)
  | divide => exact relaxes_guardArithmetic (relaxes_divide s v w)
  | modulo => exact relaxes_guardArithmetic (relaxes_modulo s v w)

theorem relaxes_operateUnary (s : Scope) (op : UnaryOperator) (v : Value) :
    Relaxes (s.operateUnary op v) (s.lenient.operateUnary op v) := by
  cases op with
  | not => exact relaxes_ok _
  | negate => exact relaxes_bind (relaxes_number s v) fun _ => relaxes_ok _

end Scope

/-! ## Delayed arguments -/

/-- The argument relaxes in whatever scope it is evaluated. -/
def Delayed.Relaxes (d : Delayed) : Prop :=
  ∀ s, NoteQuery.Relaxes (d s) (d s.lenient)

theorem relaxes_arguments (s : Scope) {args : List Delayed} (h : ∀ d ∈ args, d.Relaxes) :
    Relaxes (args.mapM (· s)) (args.mapM (· s.lenient)) :=
  relaxes_mapM fun d hd => h d hd s

namespace Library

/-! ## Functions -/

theorem relaxes_wrongCount {α : Type} : Relaxes (wrongCount : Except Failure α) wrongCount :=
  relaxes_fault .argumentCount

theorem relaxes_optional {f f' : Value → Except Failure Value} (h : ∀ v, Relaxes (f v) (f' v))
    (args : List Value) : Relaxes (optional f args) (optional f' args) := by
  match args with
  | [] => exact h .null
  | [v] => exact h v
  | _ :: _ :: _ => exact relaxes_wrongCount

theorem relaxes_displayed (v : Value) : Relaxes (displayed v) (displayed v) :=
  relaxes_ofFault v.display

theorem relaxes_numbers (s : Scope) (vs : List Value) :
    Relaxes (numbers s vs) (numbers s.lenient vs) :=
  relaxes_mapM fun v _ => Scope.relaxes_number s v

theorem relaxes_totalOf (s : Scope) (vs : List Value) :
    Relaxes (totalOf s vs) (totalOf s.lenient vs) :=
  relaxes_bind (relaxes_numbers s vs) fun ns => relaxes_ofFault (Number.sum ns)

theorem relaxes_averageOf (s : Scope) (vs : List Value) :
    Relaxes (averageOf s vs) (averageOf s.lenient vs) := by
  refine relaxes_ite (relaxes_ok 0) ?_
  exact relaxes_bind (relaxes_totalOf s vs) fun total => relaxes_ofFault _

theorem relaxes_bestOf (pick : Number → List Number → Number) (s : Scope) (vs : List Value) :
    Relaxes (bestOf pick s vs) (bestOf pick s.lenient vs) := by
  refine relaxes_bind (relaxes_numbers s vs) fun ns => ?_
  split
  · exact relaxes_ok _
  · exact relaxes_ok _

theorem relaxes_anyEqual (strict : Bool) (needle : Value) (vs : List Value) :
    Relaxes (anyEqual strict needle vs) (anyEqual false needle vs) := by
  induction vs with
  | nil => exact relaxes_ok false
  | cons v vs ih =>
      exact relaxes_bind (Value.relaxes_equals strict v needle) fun _ =>
        relaxes_ite (relaxes_ok true) ih

theorem relaxes_containerHas (s : Scope) (container needle : Value) :
    Relaxes (containerHas s container needle) (containerHas s.lenient container needle) := by
  simp only [containerHas]
  split
  · exact relaxes_return _ (relaxes_displayed needle)
  · exact relaxes_anyEqual s.strict needle _
  · split
    · exact relaxes_ok _
    · exact relaxes_return _ (relaxes_displayed _)
  · exact relaxes_ok _

/-- Only the branch that is taken is evaluated, and the same one is taken. -/
theorem relaxes_chooseFrom (s : Scope) {args : List Delayed} (h : ∀ d ∈ args, d.Relaxes) :
    Relaxes (chooseFrom s args) (chooseFrom s.lenient args) := by
  match args with
  | [] => exact relaxes_error rfl
  | [_] => exact relaxes_error rfl
  | condition :: first :: rest =>
      refine relaxes_bind (h condition (by simp) s) fun v => ?_
      refine relaxes_ite (h first (by simp) s) ?_
      match rest with
      | [] => exact relaxes_ok _
      | second :: _ => exact h second (by simp) s

theorem relaxes_function (op : FunctionOp) (s : Scope) (args : List Value) :
    Relaxes (op.apply s args) (op.apply s.lenient args) := by
  cases op with
  | escapeMarkup | markup | picture | symbol =>
      simp only [FunctionOp.apply]
      exact relaxes_optional (fun v => relaxes_return _ (relaxes_displayed v)) args
  | findFile =>
      simp only [FunctionOp.apply]
      exact relaxes_optional (fun _ => relaxes_ok _) args
  | makePattern =>
      simp only [FunctionOp.apply]
      split
      · exact relaxes_ofFault _
      · exact relaxes_ofFault _
      · exact relaxes_wrongCount
  | toDate | toDuration =>
      simp only [FunctionOp.apply]
      split
      · exact relaxes_ofFault _
      · exact relaxes_wrongCount
  | now | today => exact relaxes_ite (relaxes_ok _) relaxes_wrongCount
  | toNumber => exact relaxes_optional (fun v => relaxes_map _ (Scope.relaxes_number s v)) args
  | maximum | minimum => exact relaxes_bestOf _ s _
  | collect => exact relaxes_ok _
  | contains =>
      simp only [FunctionOp.apply]
      split
      · exact relaxes_map _ (relaxes_containerHas s _ _)
      · exact relaxes_map _ (relaxes_containerHas s _ _)
      · exact relaxes_wrongCount
  | total =>
      simp only [FunctionOp.apply]
      refine relaxes_optional (fun v => ?_) args
      split
      · exact relaxes_map _ (relaxes_totalOf s _)
      · exact relaxes_ok _
  | average =>
      simp only [FunctionOp.apply]
      refine relaxes_optional (fun v => ?_) args
      split
      · exact relaxes_map _ (relaxes_averageOf s _)
      · exact relaxes_ok _
  | count =>
      simp only [FunctionOp.apply]
      refine relaxes_optional (fun v => ?_) args
      split <;> exact relaxes_ok _
  | choose => exact relaxes_error rfl
  | makeLink =>
      simp only [FunctionOp.apply]
      split
      · exact relaxes_ok _
      · exact relaxes_return _ (relaxes_displayed _)
      · exact relaxes_return _ (relaxes_displayed _)
      · exact relaxes_wrongCount

theorem relaxes_lazyFunction (op : FunctionOp) (s : Scope) {args : List Delayed}
    (h : ∀ d ∈ args, d.Relaxes) :
    Relaxes (op.applyLazy s args) (op.applyLazy s.lenient args) := by
  cases op with
  | choose => exact relaxes_chooseFrom s h
  | _ => exact relaxes_bind (relaxes_arguments s h) fun vs => relaxes_function _ s vs

/-! ## Methods

The bodies of the lazy methods are evaluated in the scopes of the elements.  Making such a scope
lenient and making it from a lenient scope is the same, by `rfl`. -/

theorem relaxes_elements (v : Value) : Relaxes (elements v) (elements v) := by
  cases v with
  | list | string | mapping | set | bytes => exact relaxes_ok _
  | _ => exact relaxes_fault _

theorem relaxes_sequence (v : Value) : Relaxes (sequence v) (sequence v) := by
  cases v with
  | list | string | bytes => exact relaxes_ok _
  | _ => exact relaxes_fault _

theorem relaxes_textOf (v : Value) : Relaxes (textOf v) (textOf v) := by
  cases v with
  | string => exact relaxes_ok _
  | _ => exact relaxes_fault _

theorem relaxes_twoOf (args : List Value) : Relaxes (twoOf args) (twoOf args) := by
  match args with
  | [] => exact relaxes_ok _
  | [_] => exact relaxes_ok _
  | [_, _] => exact relaxes_ok _
  | _ :: _ :: _ :: _ => exact relaxes_wrongCount

theorem relaxes_bare {r r' : Except Failure Value} (args : List Value) (h : Relaxes r r') :
    Relaxes (bare args r) (bare args r') :=
  relaxes_ite h relaxes_wrongCount

theorem relaxes_onFile (target : Value) {f f' : FileRecord Value → Except Failure Value}
    (h : ∀ r, Relaxes (f r) (f' r)) : Relaxes (onFile target f) (onFile target f') := by
  cases target with
  | file r => exact h r
  | _ => exact relaxes_fault _

theorem relaxes_onMoment (target : Value) {f f' : Timestamp → Except Failure Value}
    (h : ∀ t, Relaxes (f t) (f' t)) : Relaxes (onMoment target f) (onMoment target f') :=
  relaxes_bind (relaxes_ofFault _) h

theorem relaxes_bound (s : Scope) (v : Value) : Relaxes (bound? s v) (bound? s.lenient v) := by
  cases v with
  | null => exact relaxes_ok none
  | _ =>
      refine relaxes_bind (Scope.relaxes_number s _) fun n => ?_
      exact relaxes_bind (relaxes_ofFault _) fun i => relaxes_ok _

theorem relaxes_places (s : Scope) (v : Value) : Relaxes (places s v) (places s.lenient v) := by
  cases v with
  | null => exact relaxes_ok 0
  | _ =>
      refine relaxes_bind (Scope.relaxes_number s _) fun n => ?_
      exact relaxes_bind (relaxes_ofFault _) fun i => relaxes_ok _

theorem relaxes_bounds (s : Scope) (args : List Value) :
    Relaxes (bounds s args) (bounds s.lenient args) := by
  refine relaxes_bind (relaxes_twoOf args) fun given => ?_
  refine relaxes_bind (relaxes_bound s given.1) fun start => ?_
  exact relaxes_bind (relaxes_bound s given.2) fun stop => relaxes_ok _

theorem relaxes_displayHas (whole part : Value) :
    Relaxes (displayHas whole part) (displayHas whole part) :=
  relaxes_bind (relaxes_displayed part) fun _ => relaxes_return _ (relaxes_displayed whole)

theorem relaxes_splitText (source : String) (separator : Value) :
    Relaxes (splitText source separator) (splitText source separator) := by
  unfold splitText
  split
  · exact relaxes_ok _
  · exact relaxes_return _ (relaxes_displayed _)

theorem relaxes_splitLimited (s : Scope) (source : String) (separator limit : Value) :
    Relaxes (splitLimited s source separator limit)
      (splitLimited s.lenient source separator limit) := by
  refine relaxes_bind (relaxes_splitText source separator) fun parts => ?_
  refine relaxes_bind (relaxes_bound s limit) fun n => ?_
  split <;> exact relaxes_ok _

theorem relaxes_replaced (source : String) (part : Value) (new : String) :
    Relaxes (replaced source part new) (replaced source part new) := by
  unfold replaced
  split
  · exact relaxes_ok _
  · exact relaxes_return _ (relaxes_displayed _)

theorem relaxes_fileLinksTo (r : FileRecord Value) (other : Value) :
    Relaxes (fileLinksTo r other) (fileLinksTo r other) := by
  unfold fileLinksTo
  split
  · exact relaxes_ok _
  · refine relaxes_ite (relaxes_ok _) (relaxes_anyM (fun l => ?_) r.links)
    exact relaxes_return _ (relaxes_displayed l)

theorem relaxes_folderPath (folder : Value) : Relaxes (folderPath folder) (folderPath folder) :=
  relaxes_return _ (relaxes_displayed folder)

theorem relaxes_repeated (s : Scope) (source : String) (count : Value) :
    Relaxes (repeated s source count) (repeated s.lenient source count) := by
  refine relaxes_bind (Scope.relaxes_number s count) fun n => ?_
  refine relaxes_bind (relaxes_ofFault _) fun times => ?_
  exact relaxes_ite (relaxes_fault _) (relaxes_ok _)

theorem relaxes_allEqual (strict : Bool) (items vs : List Value) :
    Relaxes (allEqual strict items vs) (allEqual false items vs) := by
  induction vs with
  | nil => exact relaxes_ok true
  | cons v vs ih =>
      exact relaxes_bind (relaxes_anyEqual strict v items) fun _ =>
        relaxes_ite ih (relaxes_ok false)

theorem relaxes_someEqual (strict : Bool) (items vs : List Value) :
    Relaxes (someEqual strict items vs) (someEqual false items vs) := by
  induction vs with
  | nil => exact relaxes_ok false
  | cons v vs ih =>
      exact relaxes_bind (relaxes_anyEqual strict v items) fun _ =>
        relaxes_ite (relaxes_ok true) ih

theorem relaxes_sorted (strict : Bool) (items : List Value) :
    Relaxes (sorted strict items) (sorted false items) :=
  Sorting.relaxes_sort (fun v w => relaxes_map _ (Value.relaxes_compare strict v w)) items

theorem relaxes_method (op : MethodOp) (s : Scope) (target : Value) (args : List Value) :
    Relaxes (op.apply s target args) (op.apply s.lenient target args) := by
  cases op with
  | isTruthy | never =>
      simp only [MethodOp.apply]
      exact relaxes_bare args (relaxes_ok _)
  | toText | title =>
      simp only [MethodOp.apply]
      exact relaxes_bare args (relaxes_return _ (relaxes_displayed target))
  | isType =>
      simp only [MethodOp.apply]
      exact relaxes_optional (fun v => relaxes_return _ (relaxes_displayed v)) args
  | textContains =>
      simp only [MethodOp.apply]
      exact relaxes_optional (fun v => relaxes_return _ (relaxes_displayHas target v)) args
  | endsWith | startsWith =>
      simp only [MethodOp.apply]
      refine relaxes_optional (fun v => relaxes_bind (relaxes_displayed target) fun _ => ?_) args
      exact relaxes_return _ (relaxes_displayed v)
  | textContainsAll =>
      simp only [MethodOp.apply]
      exact relaxes_return _ (relaxes_allM (relaxes_displayHas target) args)
  | textContainsAny =>
      simp only [MethodOp.apply]
      exact relaxes_return _ (relaxes_anyM (relaxes_displayHas target) args)
  | isEmpty =>
      simp only [MethodOp.apply]
      refine relaxes_bare args ?_
      split <;> exact relaxes_ok _
  | hasNoParts =>
      simp only [MethodOp.apply]
      exact relaxes_bare args (relaxes_map _ (relaxes_elements target))
  | lower | upper | trim =>
      simp only [MethodOp.apply]
      exact relaxes_bare args (relaxes_map _ (relaxes_textOf target))
  | replace =>
      simp only [MethodOp.apply]
      refine relaxes_bind (relaxes_twoOf args) fun given => ?_
      refine relaxes_bind (relaxes_displayed target) fun source => ?_
      refine relaxes_bind (relaxes_displayed given.2) fun new => ?_
      exact relaxes_return _ (relaxes_replaced source given.1 new)
  | times =>
      simp only [MethodOp.apply]
      refine relaxes_optional (fun v => relaxes_bind (relaxes_displayed target) fun _ => ?_) args
      exact relaxes_repeated s _ v
  | reverseText =>
      simp only [MethodOp.apply]
      exact relaxes_bare args (relaxes_map _ (relaxes_sequence target))
  | sliceText =>
      simp only [MethodOp.apply]
      refine relaxes_bind (relaxes_bounds s args) fun _ => ?_
      exact relaxes_return _ (relaxes_displayed target)
  | split =>
      simp only [MethodOp.apply]
      refine relaxes_bind (relaxes_twoOf args) fun given => ?_
      exact relaxes_bind (relaxes_displayed target) fun _ => relaxes_splitLimited s _ _ _
  | abs =>
      simp only [MethodOp.apply]
      exact relaxes_bare args (relaxes_bind (Scope.relaxes_number s target) fun _ => relaxes_ok _)
  | ceil | floor =>
      simp only [MethodOp.apply]
      refine relaxes_bare args (relaxes_bind (Scope.relaxes_number s target) fun n => ?_)
      exact relaxes_bind (relaxes_ofFault _) fun _ => relaxes_ok _
  | round | toFixed =>
      simp only [MethodOp.apply]
      refine relaxes_optional (fun v => relaxes_bind (relaxes_places s v) fun p => ?_) args
      refine relaxes_bind (Scope.relaxes_number s target) fun n => ?_
      exact relaxes_bind (relaxes_ofFault _) fun _ => relaxes_ok _
  | startOfDay | clockTime =>
      simp only [MethodOp.apply]
      exact relaxes_bare args (relaxes_onMoment target fun t => relaxes_ok _)
  | format =>
      simp only [MethodOp.apply]
      refine relaxes_optional (fun v => relaxes_onMoment target fun t => ?_) args
      exact relaxes_return _ (relaxes_displayed v)
  | relative =>
      simp only [MethodOp.apply]
      refine relaxes_bare args (relaxes_onMoment target fun t => ?_)
      exact relaxes_bind (relaxes_ofFault _) fun _ => relaxes_ok _
  | listContains =>
      simp only [MethodOp.apply]
      refine relaxes_optional (fun v => ?_) args
      refine relaxes_bind (relaxes_elements target) fun items => ?_
      exact relaxes_bind (relaxes_anyEqual s.strict v items) fun _ => relaxes_ok _
  | listContainsAll =>
      simp only [MethodOp.apply]
      refine relaxes_bind (relaxes_elements target) fun items => ?_
      exact relaxes_bind (relaxes_allEqual s.strict items args) fun _ => relaxes_ok _
  | listContainsAny =>
      simp only [MethodOp.apply]
      refine relaxes_bind (relaxes_elements target) fun items => ?_
      exact relaxes_bind (relaxes_someEqual s.strict items args) fun _ => relaxes_ok _
  | flat | reverseList =>
      simp only [MethodOp.apply]
      exact relaxes_bare args (relaxes_bind (relaxes_elements target) fun _ => relaxes_ok _)
  | join =>
      simp only [MethodOp.apply]
      have hjoined (separator : String) : Relaxes
          (do return Value.string (Text.join separator (← (← elements target).mapM displayed)))
          (do return Value.string (Text.join separator (← (← elements target).mapM displayed))) :=
        relaxes_bind (relaxes_elements target) fun _ =>
          relaxes_return _ (relaxes_mapM fun v _ => relaxes_displayed v)
      refine relaxes_optional (fun v => ?_) args
      split
      · exact hjoined ","
      · exact relaxes_bind (relaxes_displayed _) hjoined
  | sliceList =>
      simp only [MethodOp.apply]
      refine relaxes_bind (relaxes_bounds s args) fun _ => ?_
      exact relaxes_return _ (relaxes_sequence target)
  | sort =>
      simp only [MethodOp.apply]
      refine relaxes_bare args (relaxes_bind (relaxes_elements target) fun items => ?_)
      exact relaxes_bind (relaxes_sorted s.strict items) fun _ => relaxes_ok _
  | unique =>
      simp only [MethodOp.apply]
      refine relaxes_bare args (relaxes_bind (relaxes_elements target) fun items => ?_)
      exact relaxes_bind (relaxes_ofFault _) fun _ => relaxes_ok _
  | asFile =>
      simp only [MethodOp.apply]
      refine relaxes_bare args ?_
      cases target with
      | link | file => exact relaxes_ok _
      | _ => exact relaxes_fault _
  | linksTo =>
      simp only [MethodOp.apply]
      refine relaxes_optional (fun v => ?_) args
      cases target with
      | link | file => exact relaxes_return _ (relaxes_fileLinksTo _ v)
      | _ => exact relaxes_fault _
  | asLink =>
      simp only [MethodOp.apply]
      refine relaxes_optional (fun v => ?_) args
      cases target with
      | link | file => exact relaxes_ok _
      | _ => exact relaxes_fault _
  | hasLink =>
      simp only [MethodOp.apply]
      refine relaxes_optional (fun v => relaxes_ite (relaxes_ok _) ?_) args
      exact relaxes_onFile target fun r => relaxes_return _ (relaxes_fileLinksTo r v)
  | inFolder =>
      simp only [MethodOp.apply]
      refine relaxes_optional (fun v => relaxes_bind (relaxes_folderPath v) fun _ => ?_) args
      exact relaxes_ite (relaxes_ok _) (relaxes_onFile target fun r => relaxes_ok _)
  | hasProperty =>
      simp only [MethodOp.apply]
      refine relaxes_optional (fun v => relaxes_bind (relaxes_displayed v) fun _ => ?_) args
      exact relaxes_onFile target fun r => relaxes_ok _
  | hasTag =>
      simp only [MethodOp.apply]
      refine relaxes_onFile target fun r => relaxes_return _ (relaxes_mapM fun v _ => ?_)
      exact relaxes_displayed v
  | keys | values =>
      simp only [MethodOp.apply]
      refine relaxes_bare args ?_
      cases target with
      | mapping => exact relaxes_ok _
      | _ => exact relaxes_fault _
  | matchesText =>
      simp only [MethodOp.apply]
      refine relaxes_optional (fun v => ?_) args
      cases target with
      | pattern => exact relaxes_return _ (relaxes_displayed v)
      | _ => exact relaxes_fault _
  | filter | map | reduce => exact relaxes_wrongCount

theorem relaxes_filtered (s : Scope) {body : Delayed} (h : body.Relaxes) (i : Nat)
    (vs : List Value) : Relaxes (filtered s body i vs) (filtered s.lenient body i vs) := by
  induction vs generalizing i with
  | nil => exact relaxes_ok []
  | cons v vs ih =>
      refine relaxes_bind (h (elementScope s i v)) fun w => ?_
      exact relaxes_bind (ih (i + 1)) fun rest => relaxes_ok _

theorem relaxes_mapped (s : Scope) {body : Delayed} (h : body.Relaxes) (i : Nat)
    (vs : List Value) : Relaxes (mapped s body i vs) (mapped s.lenient body i vs) := by
  induction vs generalizing i with
  | nil => exact relaxes_ok []
  | cons v vs ih =>
      refine relaxes_bind (h (elementScope s i v)) fun w => ?_
      exact relaxes_bind (ih (i + 1)) fun rest => relaxes_ok _

theorem relaxes_reduced (s : Scope) {body : Delayed} (h : body.Relaxes) (i : Nat) (acc : Value)
    (vs : List Value) : Relaxes (reduced s body i acc vs) (reduced s.lenient body i acc vs) := by
  induction vs generalizing i acc with
  | nil => exact relaxes_ok acc
  | cons v vs ih =>
      exact relaxes_bind (h ((elementScope s i v).withBindings [("acc", acc)]))
        fun acc => ih (i + 1) acc

theorem relaxes_lazyMethod (op : MethodOp) (s : Scope) (target : Value) {args : List Delayed}
    (h : ∀ d ∈ args, d.Relaxes) :
    Relaxes (op.applyLazy s target args) (op.applyLazy s.lenient target args) := by
  cases op with
  | filter =>
      match args with
      | [] => exact relaxes_bind (relaxes_elements target) fun _ => relaxes_ok _
      | body :: _ =>
          refine relaxes_bind (relaxes_elements target) fun items => ?_
          refine relaxes_bind (relaxes_filtered s (h body List.mem_cons_self) 0 items) fun _ => ?_
          exact relaxes_ok _
  | map =>
      match args with
      | [] => exact relaxes_bind (relaxes_elements target) fun _ => relaxes_ok _
      | body :: _ =>
          refine relaxes_bind (relaxes_elements target) fun items => ?_
          refine relaxes_bind (relaxes_mapped s (h body List.mem_cons_self) 0 items) fun _ => ?_
          exact relaxes_ok _
  | reduce =>
      match args with
      | [] => exact relaxes_ok _
      | [body] =>
          refine relaxes_bind (relaxes_elements target) fun items => ?_
          exact relaxes_reduced s (h body List.mem_cons_self) 0 .null items
      | body :: seed :: _ =>
          refine relaxes_bind (h seed (by simp) s) fun acc => ?_
          refine relaxes_bind (relaxes_elements target) fun items => ?_
          exact relaxes_reduced s (h body List.mem_cons_self) 0 acc items
  | _ => exact relaxes_bind (relaxes_arguments s h) fun vs => relaxes_method _ s target vs

end Library

/-! ## Expressions -/

namespace Scope

/-- A fault within a call becomes an error of the call, which is no strict error. -/
theorem relaxes_guardCall (name : String) {r r' : Except Failure Value} (h : Relaxes r r') :
    Relaxes (guardCall name r) (guardCall name r') := by
  constructor
  · intro v hv
    cases r with
    | ok w => rw [h.keeps w rfl]; exact hv
    | error e => cases e <;> exact nomatch hv
  · intro e he
    cases r' with
    | ok w => exact nomatch he
    | error e' =>
        cases e' with
        | evaluation e' =>
            cases he
            exact h.forgives e rfl
        | fault f =>
            cases he
            rfl

theorem relaxes_callFunction (s : Scope) (name : String) {args : List Delayed}
    (h : ∀ d ∈ args, d.Relaxes) :
    Relaxes (s.callFunction name args) (s.lenient.callFunction name args) := by
  have found : s.lenient.library.function? name = s.library.function? name := rfl
  simp only [callFunction, found]
  split
  · exact relaxes_fail s
  · refine relaxes_ite (relaxes_guardCall name (Library.relaxes_lazyFunction _ s h)) ?_
    refine relaxes_bind (relaxes_arguments s h) fun vs => ?_
    exact relaxes_guardCall name (Library.relaxes_function _ s vs)

theorem relaxes_callMethod (s : Scope) (target : Value) (name : String) {args : List Delayed}
    (h : ∀ d ∈ args, d.Relaxes) :
    Relaxes (s.callMethod target name args) (s.lenient.callMethod target name args) := by
  have found : s.lenient.library.method? (some target.kind) name
      = s.library.method? (some target.kind) name := rfl
  simp only [callMethod, found]
  split
  · exact relaxes_fail s
  · refine relaxes_ite (relaxes_guardCall name (Library.relaxes_lazyMethod _ s target h)) ?_
    refine relaxes_bind (relaxes_arguments s h) fun vs => ?_
    exact relaxes_guardCall name (Library.relaxes_method _ s target vs)

end Scope

namespace Expr

mutual

theorem relaxes_eval : ∀ (e : Expr) (s : Scope), Relaxes (e.eval s) (e.eval s.lenient)
  | literal v _, s => by simpa only [eval] using relaxes_ok v.value
  | name n, s => by simpa only [eval] using s.relaxes_resolve n
  | member base field, s => by
      simp only [eval]
      exact relaxes_bind (relaxes_eval base s) fun v => s.relaxes_member v field
  | index base position, s => by
      simp only [eval]
      refine relaxes_bind (relaxes_eval base s) fun v => ?_
      exact relaxes_bind (relaxes_eval position s) fun i => s.relaxes_element v i
  | binary op left right, s => by
      have hl := relaxes_eval left s
      have hr := relaxes_eval right s
      cases op with
      | or =>
          simp only [eval]
          exact relaxes_bind hl fun v => relaxes_ite (relaxes_ok v) hr
      | and =>
          simp only [eval]
          exact relaxes_bind hl fun v => relaxes_ite hr (relaxes_ok v)
      | _ =>
          simp only [eval]
          exact relaxes_bind hl fun v => relaxes_bind hr fun w => s.relaxes_operate _ v w
  | unary op operand, s => by
      simp only [eval]
      exact relaxes_bind (relaxes_eval operand s) fun v => s.relaxes_operateUnary op v
  | call callee args, s => by
      have ha := relaxes_delayed args
      cases callee with
      | name f =>
          simp only [eval]
          exact s.relaxes_callFunction f ha
      | member base method =>
          simp only [eval]
          exact relaxes_bind (relaxes_eval base s) fun target =>
            s.relaxes_callMethod target method ha
      | _ => simpa only [eval] using s.relaxes_fail
  | list elements, s => by
      simp only [eval]
      exact relaxes_bind (relaxes_evalItems elements s) fun vs => relaxes_ok _
  | object pairs, s => by
      simp only [eval]
      exact relaxes_bind (relaxes_evalPairs pairs s) fun vs => relaxes_ok _

theorem relaxes_evalItems : ∀ (es : List Expr) (s : Scope),
    Relaxes (evalItems es s) (evalItems es s.lenient)
  | [], s => by simpa only [evalItems] using relaxes_ok []
  | e :: es, s => by
      simp only [evalItems]
      refine relaxes_bind (relaxes_eval e s) fun v => ?_
      exact relaxes_bind (relaxes_evalItems es s) fun vs => relaxes_ok _

theorem relaxes_evalPairs : ∀ (pairs : List (String × Expr)) (s : Scope),
    Relaxes (evalPairs pairs s) (evalPairs pairs s.lenient)
  | [], s => by simpa only [evalPairs] using relaxes_ok []
  | (k, e) :: pairs, s => by
      simp only [evalPairs]
      refine relaxes_bind (relaxes_eval e s) fun v => ?_
      exact relaxes_bind (relaxes_evalPairs pairs s) fun vs => relaxes_ok _

theorem relaxes_delayed : ∀ (es : List Expr), ∀ d ∈ delayed es, d.Relaxes
  | [], d, hd => by simp only [delayed, List.not_mem_nil] at hd
  | e :: es, d, hd => by
      simp only [delayed, List.mem_cons] at hd
      rcases hd with rfl | hd
      · exact relaxes_eval e
      · exact relaxes_delayed es d hd

end

/-- What strict evaluation gives, lenient evaluation gives too, and none of the errors that
strictness adds arises without it, however deep in the expression. -/
theorem eval_lenient (e : Expr) (s : Scope) :
    (∀ v, e.eval { s with strict := true } = .ok v → e.eval { s with strict := false } = .ok v) ∧
      ∀ error, e.eval { s with strict := false } = .error (.evaluation error) →
        error.isStrict = false :=
  have h := relaxes_eval e { s with strict := true }
  ⟨h.keeps, h.forgives⟩

end Expr

end NoteQuery
