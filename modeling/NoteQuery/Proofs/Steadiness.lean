/-
Outcomes that stay the same.

What an expression comes to is told of two scopes at once.  `Steady P r r'` tells of two outcomes
that they are the same and of a value among them that it has the property `P`; it goes through every
way in which evaluation puts outcomes together.  Operations, functions and methods take nothing from
a scope but its strictness, its clock, its library and its files, and so give the same wherever
these are the same (`Scope.Beside.steady`); that what they give has the property is told of one
scope only (`Gives`), once for each of them.  There remain the arguments of functions and methods
that are evaluated later, in scopes that bind more, and the expressions that say what they read from
a scope.  If all of these are steady in scopes that are linked, so is every expression that is
composed of them (`Expr.Composed.steady`).
-/
import NoteQuery.Eval.Evaluator
import NoteQuery.Proofs.Hereditary
import NoteQuery.Proofs.Sorting

namespace NoteQuery

open Value

/-! ## Outcomes -/

/-- The outcome, if it is a value, has the property. -/
def Gives {α : Type} (P : α → Prop) (r : Except Failure α) : Prop :=
  ∀ a, r = .ok a → P a

/-- The outcomes are the same, and the value has the property. -/
structure Steady {α : Type} (P : α → Prop) (r r' : Except Failure α) : Prop where
  same : r' = r
  gives : Gives P r

section Rules

variable {α β : Type} {P : α → Prop} {Q : β → Prop}

theorem gives_any (r : Except Failure α) : Gives (fun _ => True) r :=
  fun _ _ => trivial

theorem gives_ok {a : α} (h : P a) : Gives P (.ok a) :=
  fun _ ha => Except.ok.inj ha ▸ h

theorem gives_error (e : Failure) : Gives P (.error e) :=
  nofun

theorem gives_bind {r : Except Failure α} {f : α → Except Failure β} (h : Gives P r)
    (hf : ∀ a, P a → Gives Q (f a)) : Gives Q (r >>= f) := by
  cases r with
  | error e => exact gives_error e
  | ok a => exact hf a (h a rfl)

theorem gives_map {r : Except Failure α} {f : α → β} (h : Gives P r) (hf : ∀ a, P a → Q (f a)) :
    Gives Q (r.map f) := by
  cases r with
  | error e => exact gives_error e
  | ok a => exact gives_ok (hf a (h a rfl))

/-- A value of one form, whatever it is made from. -/
theorem gives_form {f : α → β} (r : Except Failure α) (hf : ∀ a, Q (f a)) : Gives Q (r.map f) :=
  gives_map (gives_any r) fun a _ => hf a

/-- The same, where the value is returned behind a computation. -/
theorem gives_return {f : α → β} (r : Except Failure α) (hf : ∀ a, Q (f a)) :
    Gives Q (do return f (← r)) :=
  gives_bind (gives_any r) fun a _ => gives_ok (hf a)

theorem gives_below {r : Except Fault α} (h : ∀ a, r = .ok a → P a) :
    Gives P (Failure.ofFault r) := by
  cases r with
  | error e => exact gives_error (.fault e)
  | ok a => exact gives_ok (h a rfl)

/-- A value of one form, from a computation below evaluation. -/
theorem gives_ofFault {f : α → β} (r : Except Fault α) (hf : ∀ a, Q (f a)) :
    Gives Q (Failure.ofFault (r.map f)) := by
  refine gives_below fun b hb => ?_
  obtain ⟨a, -, rfl⟩ := map_eq_ok.mp hb
  exact hf a

theorem gives_ite {p : Prop} [Decidable p] {r t : Except Failure α} (hr : Gives P r)
    (ht : Gives P t) : Gives P (if p then r else t) := by
  split
  · exact hr
  · exact ht

theorem steady_ok {a : α} (h : P a) : Steady P (.ok a) (.ok a) :=
  ⟨rfl, gives_ok h⟩

theorem steady_error (e : Failure) : Steady P (.error e) (.error e) :=
  ⟨rfl, gives_error e⟩

theorem steady_bind {r r' : Except Failure α} {f f' : α → Except Failure β}
    (h : Steady P r r') (hf : ∀ a, P a → Steady Q (f a) (f' a)) :
    Steady Q (r >>= f) (r' >>= f') := by
  obtain ⟨rfl, hgives⟩ := h
  cases r' with
  | error e => exact steady_error e
  | ok a => exact hf a (hgives a rfl)

theorem steady_ite {p : Prop} [Decidable p] {r r' t t' : Except Failure α}
    (hr : Steady P r r') (ht : Steady P t t') :
    Steady P (if p then r else t) (if p then r' else t') := by
  split
  · exact hr
  · exact ht

theorem steady_mapM {f f' : α → Except Failure β} {as : List α}
    (h : ∀ a ∈ as, Steady Q (f a) (f' a)) :
    Steady (fun bs => ∀ b ∈ bs, Q b) (as.mapM f) (as.mapM f') := by
  induction as with
  | nil => exact steady_ok (List.forall_mem_nil _)
  | cons a as ih =>
    rw [List.forall_mem_cons] at h
    rw [List.mapM_cons, List.mapM_cons]
    refine steady_bind h.1 fun b hb => ?_
    refine steady_bind (ih h.2) fun bs hbs => ?_
    exact steady_ok (List.forall_mem_cons.mpr ⟨hb, hbs⟩)

end Rules

section Operations

variable {P : Value → Prop} (hP : Hereditary P) {s : Scope}
include hP

/-! ## Members and elements -/

namespace Scope

theorem gives_fail (s : Scope) (e : EvalError) : Gives P (s.fail e) :=
  gives_ite (gives_error _) (gives_ok hP.null)

theorem gives_member {v : Value} (hv : P v) (name : String) : Gives P (s.member v name) := by
  simp only [member]
  split
  · split
    · exact gives_ok (hP.number _)
    · exact gives_fail hP s _
  · split
    · exact gives_fail hP s _
    · split
      · next hfield => exact gives_ok (FileRecord.field?_of_hereditary hP hv hfield)
      · exact gives_fail hP s _
    · exact gives_ite (gives_ok (hP.string _))
        (gives_ite (gives_ok (hP.shown hv)) (gives_fail hP s _))
    · exact gives_ite (gives_ok (hP.number _)) (gives_fail hP s _)
    · exact gives_ite (gives_ok (hP.number _)) (gives_ok hP.null)
    · exact gives_ok (Entries.taken_getD hP hv name)
    · exact gives_fail hP s _

theorem gives_elementAt {items : List Value} (h : ∀ v ∈ items, P v) (n : Number) :
    Gives P (Failure.ofFault (elementAt items n)) := by
  refine gives_below fun v hv => ?_
  obtain ⟨finite, -, hv⟩ := bind_eq_ok.mp hv
  split at hv
  · obtain ⟨i, -, hv⟩ := bind_eq_ok.mp hv
    cases hv
    split
    · exact hP.null
    · exact hP.getD_of_mem h i.toNat
  · cases hv
    exact hP.null

theorem gives_partAt {v : Value} (hv : P v) (key : Option String) : Gives P (s.partAt v key) := by
  unfold partAt
  split
  · exact gives_ok (Entries.taken_getD hP hv _)
  · exact gives_ok (hP.getD fun _ => FileRecord.field?_of_hereditary hP hv)
  · exact gives_fail hP s _

theorem gives_element {v : Value} (hv : P v) (index : Value) : Gives P (s.element v index) := by
  simp only [element]
  split
  · exact gives_bind (gives_any (s.number index)) fun n _ => gives_elementAt hP (hP.items hv) n
  · exact gives_bind (gives_any (Failure.ofFault (indexKey? index))) fun key _ =>
      gives_partAt hP hv key

/-! ## Operators -/

theorem gives_compute (op : Number → Number → Except Fault Number) (v w : Value) :
    Gives P (s.compute op v w) := by
  refine gives_bind (gives_any (s.number v)) fun m _ => ?_
  refine gives_bind (gives_any (s.number w)) fun n _ => ?_
  exact gives_bind (gives_any (Failure.ofFault (op m n))) fun r _ => gives_ok (hP.number r)

theorem gives_addPlain (v w : Value) :
    Gives P (s.addPlain v w) := by
  simp only [addPlain]
  split
  · exact gives_ok (hP.duration _)
  · refine gives_ite (gives_below fun text h => ?_) (gives_compute hP _ v w)
    obtain ⟨_, -, h⟩ := bind_eq_ok.mp h
    obtain ⟨_, -, h⟩ := bind_eq_ok.mp h
    cases h
    exact hP.string _

theorem gives_addRight (v w : Value) :
    Gives P (s.addRight v w) := by
  simp only [addRight]
  split
  · exact gives_ofFault _ hP.timestamp
  · exact gives_addPlain hP v w

theorem gives_add (v w : Value) :
    Gives P (s.add v w) := by
  simp only [add]
  split
  · exact gives_addRight hP v w
  · split
    · exact gives_ofFault _ hP.timestamp
    · exact gives_ofFault _ hP.timestamp
    · exact gives_addRight hP v _

theorem gives_subtract (v w : Value) :
    Gives P (s.subtract v w) := by
  simp only [subtract]
  split
  · refine gives_below fun difference h => ?_
    obtain ⟨m, -, h⟩ := bind_eq_ok.mp h
    obtain ⟨n, -, h⟩ := bind_eq_ok.mp h
    cases h
    exact hP.number _
  · split
    · exact gives_ofFault _ hP.timestamp
    · exact gives_ofFault _ hP.timestamp
    · exact gives_compute hP _ _ _
  · split
    · refine gives_below fun difference h => ?_
      obtain ⟨m, -, h⟩ := bind_eq_ok.mp h
      obtain ⟨n, -, h⟩ := bind_eq_ok.mp h
      obtain ⟨k, -, h⟩ := bind_eq_ok.mp h
      cases h
      exact hP.number _
    · exact gives_compute hP _ _ _

theorem gives_multiply (v w : Value) :
    Gives P (s.multiply v w) := by
  simp only [multiply]
  split
  · exact gives_ofFault _ hP.duration
  · exact gives_ofFault _ hP.duration
  · exact gives_compute hP _ _ _

theorem gives_divide (v w : Value) :
    Gives P (s.divide v w) := by
  refine gives_bind (gives_any (s.number w)) fun divisor _ => ?_
  refine gives_ite (gives_fail hP s _) ?_
  split
  · refine gives_below fun quotient h => ?_
    obtain ⟨factor, -, h⟩ := bind_eq_ok.mp h
    obtain ⟨d, -, h⟩ := bind_eq_ok.mp h
    cases h
    exact hP.duration _
  · refine gives_bind (gives_any (s.number v)) fun dividend _ => ?_
    exact gives_bind (gives_any (Failure.ofFault _)) fun q _ => gives_ok (hP.number q)

theorem gives_modulo (v w : Value) :
    Gives P (s.modulo v w) := by
  refine gives_bind (gives_any (s.number v)) fun dividend _ => ?_
  refine gives_bind (gives_any (s.number w)) fun divisor _ => ?_
  refine gives_ite (gives_fail hP s _) ?_
  exact gives_bind (gives_any (Failure.ofFault _)) fun r _ => gives_ok (hP.number r)

omit hP in
theorem gives_guardArithmetic {r : Except Failure Value} (h : Gives P r) :
    Gives P (guardArithmetic r) := by
  refine fun v hv => h v ?_
  unfold guardArithmetic at hv
  split at hv
  · split at hv
    · cases hv
    · exact hv
  · exact hv

theorem gives_operate (op : BinaryOperator) {v w : Value} (hv : P v) (hw : P w) :
    Gives P (s.operate op v w) := by
  cases op with
  | or | and =>
    refine gives_ok ?_
    split <;> assumption
  | equal | unequal =>
    exact gives_bind (gives_any (v.equals s.strict w)) fun _ _ => gives_ok (hP.bool _)
  | less | lessEqual | greater | greaterEqual =>
    exact gives_bind (gives_any (Value.compare s.strict v w)) fun _ _ => gives_ok (hP.bool _)
  | add => exact gives_guardArithmetic (gives_add hP v w)
  | subtract => exact gives_guardArithmetic (gives_subtract hP v w)
  | multiply => exact gives_guardArithmetic (gives_multiply hP v w)
  | divide => exact gives_guardArithmetic (gives_divide hP v w)
  | modulo => exact gives_guardArithmetic (gives_modulo hP v w)

theorem gives_operateUnary (op : UnaryOperator) (v : Value) :
    Gives P (s.operateUnary op v) := by
  cases op with
  | not => exact gives_ok (hP.bool _)
  | negate => exact gives_bind (gives_any (s.number v)) fun n _ => gives_ok (hP.number _)

end Scope

namespace Library

variable {args : List Value}

/-! ## Functions -/

omit hP in
theorem gives_wrongCount {α : Type} {Q : α → Prop} : Gives Q (wrongCount : Except Failure α) :=
  gives_error _

theorem gives_optional {f : Value → Except Failure Value} (hargs : ∀ v ∈ args, P v)
    (h : ∀ v, P v → Gives P (f v)) : Gives P (optional f args) := by
  match args with
  | [] => exact h .null hP.null
  | [v] => exact h v (hargs v List.mem_cons_self)
  | _ :: _ :: _ => exact gives_wrongCount

theorem gives_patternFrom (body flags : Value) :
    Gives P (Failure.ofFault (patternFrom body flags)) := by
  refine gives_below fun v h => ?_
  unfold patternFrom at h
  split at h
  · cases h
    exact hP.pattern _
  · obtain ⟨_, -, h⟩ := bind_eq_ok.mp h
    obtain ⟨p, -, h⟩ := bind_eq_ok.mp h
    cases h
    exact hP.pattern p
  · obtain ⟨_, -, h⟩ := bind_eq_ok.mp h
    obtain ⟨_, -, h⟩ := bind_eq_ok.mp h
    obtain ⟨p, -, h⟩ := bind_eq_ok.mp h
    cases h
    exact hP.pattern p

theorem gives_durationFrom (v : Value) : Gives P (Failure.ofFault (durationFrom v)) := by
  refine gives_below fun w h => ?_
  unfold durationFrom at h
  split at h
  · cases h
    exact hP.duration _
  · obtain ⟨d, -, rfl⟩ := map_eq_ok.mp h
    exact hP.duration d
  · cases h

theorem listOrArguments_of (h : ∀ v ∈ args, P v) : ∀ v ∈ listOrArguments args, P v := by
  unfold listOrArguments
  split
  · exact hP.items (h _ List.mem_cons_self)
  · exact h

theorem fileAt_of (hs : ∀ f ∈ s.files, P (.file f.2)) (path : String) :
    P (.file (s.fileAt path)) := by
  rw [Scope.fileAt]
  cases hfound : s.lookupFile? path with
  | none => exact FileRecord.ofPath_of_hereditary hP path
  | some r =>
    obtain ⟨key, -, hkey⟩ := List.exists_of_findSome?_eq_some hfound
    obtain ⟨before, after, hfiles, -⟩ := List.lookup_eq_some_iff.mp hkey
    exact hs (key, r) (hfiles ▸ List.mem_append_right _ List.mem_cons_self)

theorem resolveFile_of (hs : ∀ f ∈ s.files, P (.file f.2)) {v : Value} (hv : P v) :
    P (s.resolveFile v) := by
  unfold Scope.resolveFile
  split
  · exact hv
  · exact fileAt_of hP hs _
  · exact fileAt_of hP hs _
  · exact hP.null

theorem gives_function (op : FunctionOp) (hs : ∀ f ∈ s.files, P (.file f.2))
    (hargs : ∀ v ∈ args, P v) :
    Gives P (op.apply s args) := by
  cases op with
  | escapeMarkup =>
    simp only [FunctionOp.apply]
    exact gives_optional hP hargs fun v _ => gives_return (displayed v) fun _ => hP.string _
  | makePattern =>
    simp only [FunctionOp.apply]
    split
    · exact gives_patternFrom hP _ _
    · exact gives_patternFrom hP _ _
    · exact gives_wrongCount
  | toDate =>
    simp only [FunctionOp.apply]
    split
    · exact gives_ofFault _ hP.timestamp
    · exact gives_wrongCount
  | toDuration =>
    simp only [FunctionOp.apply]
    split
    · exact gives_durationFrom hP _
    · exact gives_wrongCount
  | now | today => exact gives_ite (gives_ok (hP.timestamp _)) gives_wrongCount
  | toNumber => exact gives_optional hP hargs fun v _ => gives_form (s.number v) hP.number
  | maximum | minimum =>
    refine gives_bind (gives_any (numbers s _)) fun ns _ => ?_
    split
    · exact gives_ok hP.null
    · exact gives_ok (hP.number _)
  | collect => exact gives_ok (hP.list (listOrArguments_of hP hargs))
  | contains =>
    simp only [FunctionOp.apply]
    split
    · exact gives_form (containerHas s _ _) hP.bool
    · exact gives_form (containerHas s _ _) hP.bool
    · exact gives_wrongCount
  | total =>
    simp only [FunctionOp.apply]
    refine gives_optional hP hargs fun v _ => ?_
    split
    · exact gives_form (totalOf s _) hP.number
    · exact gives_ok (hP.number _)
  | average =>
    simp only [FunctionOp.apply]
    refine gives_optional hP hargs fun v _ => ?_
    split
    · exact gives_form (averageOf s _) hP.number
    · exact gives_ok (hP.number _)
  | count =>
    simp only [FunctionOp.apply]
    refine gives_optional hP hargs fun v _ => ?_
    split <;> exact gives_ok (hP.number _)
  | choose => exact gives_error _
  | findFile =>
    simp only [FunctionOp.apply]
    exact gives_optional hP hargs fun v hv => gives_ok (resolveFile_of hP hs hv)
  | makeLink =>
    simp only [FunctionOp.apply]
    split
    · exact gives_ok (hP.link _ hP.null)
    · exact gives_return (displayed _) fun _ => hP.link _ hP.null
    · have hdisplay := hargs _ (List.mem_cons_of_mem _ List.mem_cons_self)
      exact gives_return (displayed _) fun _ => hP.link _ hdisplay
    · exact gives_wrongCount
  | markup =>
    simp only [FunctionOp.apply]
    exact gives_optional hP hargs fun v _ => gives_return (displayed v) fun _ => hP.html _
  | picture =>
    simp only [FunctionOp.apply]
    exact gives_optional hP hargs fun v _ => gives_return (displayed v) fun _ => hP.image _
  | symbol =>
    simp only [FunctionOp.apply]
    exact gives_optional hP hargs fun v _ => gives_return (displayed v) fun _ => hP.icon _

/-! ## Methods

A method gives a value of one form, or takes it from its target and its arguments. -/

variable {target : Value}

theorem gives_elements (h : P target) : Gives (∀ v ∈ ·, P v) (elements target) := by
  cases target with
  | list items => exact gives_ok (hP.items h)
  | string t =>
    refine gives_ok fun v hv => ?_
    obtain ⟨c, -, rfl⟩ := List.mem_map.mp hv
    exact hP.string _
  | mapping live entries => exact gives_ok (List.forall_mem_map.mpr (hP.keys h))
  | set items => exact gives_ok (hP.members h)
  | bytes octets =>
    refine gives_ok fun v hv => ?_
    obtain ⟨b, -, rfl⟩ := List.mem_map.mp hv
    exact hP.number _
  | _ => exact gives_error _

theorem gives_sequence (h : P target) :
    Gives (∀ v ∈ ·, P v) (sequence target) := by
  unfold sequence
  split
  · exact gives_error _
  · exact gives_error _
  · exact gives_elements hP h

theorem regroup_of {parts : List Value} (h : ∀ v ∈ parts, P v) :
    P (regroup target parts) := by
  unfold regroup
  split
  · exact hP.string _
  · exact hP.list h

theorem gives_splitText (source : String) (separator : Value) :
    Gives (∀ v ∈ ·, P v) (splitText source separator) := by
  unfold splitText
  split
  · refine gives_ok (List.forall_mem_map.mpr fun piece _ => ?_)
    cases piece with
    | none => exact hP.null
    | some piece => exact hP.string piece
  · refine gives_return (displayed _) fun text => ?_
    split
    · exact List.forall_mem_map.mpr fun c _ => hP.string _
    · exact List.forall_mem_map.mpr fun cs _ => hP.string _

theorem gives_splitLimited (source : String) (separator limit : Value) :
    Gives P (splitLimited s source separator limit) := by
  refine gives_bind (gives_splitText hP source separator) fun parts hparts => ?_
  refine gives_bind (gives_any (bound? s limit)) fun n _ => ?_
  split
  · exact gives_ok (hP.list hparts)
  · exact gives_ok (hP.list fun v hv => hparts v (List.mem_of_mem_take hv))

theorem gives_repeated (source : String) (count : Value) :
    Gives P (repeated s source count) := by
  refine gives_bind (gives_any (s.number count)) fun n _ => ?_
  refine gives_bind (gives_any (Failure.ofFault n.floor)) fun times _ => ?_
  exact gives_ite (gives_error _) (gives_ok (hP.string _))

theorem flattened_of (v : Value) (h : P v) : ∀ w ∈ flattened v, P w := by
  have hitems {vs : List Value} (h : ∀ v ∈ vs, ∀ w ∈ flattened v, P w) :
      ∀ w ∈ flattened.flattenedItems vs, P w := by
    induction vs with
    | nil => exact List.forall_mem_nil _
    | cons v vs ih =>
      obtain ⟨hv, hvs⟩ := List.forall_mem_cons.mp h
      rw [flattened.flattenedItems]
      exact List.forall_mem_append.mpr ⟨hv, ih hvs⟩
  cases v with
  | list items =>
    rw [flattened]
    refine hitems fun v hv => ?_
    have hlt := List.sizeOf_lt_of_mem hv
    exact flattened_of v (hP.items h v hv)
  | _ => exact List.forall_mem_singleton.mpr h
termination_by sizeOf v
decreasing_by
  subst_vars
  rw [Value.list.sizeOf_spec]
  omega

omit hP in
theorem distinct_subset {seen : List String} {vs ws : List Value}
    (h : distinct seen vs = .ok ws) : ws ⊆ vs := by
  induction vs generalizing seen ws with
  | nil =>
    cases h
    exact List.Subset.refl []
  | cons v vs ih =>
    obtain ⟨key, -, h⟩ := bind_eq_ok.mp h
    split at h
    · exact List.subset_cons_of_subset v (ih h)
    · obtain ⟨rest, hrest, h⟩ := bind_eq_ok.mp h
      cases h
      exact List.cons_subset_cons v (ih hrest)

omit hP in
theorem cut_subset {α : Type} (start stop : Option Int) (xs : List α) : cut start stop xs ⊆ xs :=
  fun _ h => List.mem_of_mem_take (List.mem_of_mem_drop h)

omit hP in
theorem gives_bare {r : Except Failure Value} (args : List Value)
    (h : Gives P r) : Gives P (bare args r) :=
  gives_ite h gives_wrongCount

omit hP in
theorem gives_onMoment {f : Timestamp → Except Failure Value}
    (h : ∀ t, Gives P (f t)) :
    Gives P (onMoment target f) :=
  gives_bind (gives_any (Failure.ofFault target.toTimestamp)) fun t _ => h t

omit hP in
theorem gives_onFile {f : FileRecord Value → Except Failure Value}
    (h : ∀ r, Gives P (f r)) :
    Gives P (onFile target f) := by
  unfold onFile
  split
  · exact h _
  · exact gives_error _

theorem gives_method (op : MethodOp) (hs : ∀ f ∈ s.files, P (.file f.2)) (ht : P target)
    (hargs : ∀ v ∈ args, P v) :
    Gives P (op.apply s target args) := by
  cases op with
  | isTruthy | never =>
    simp only [MethodOp.apply]
    exact gives_bare args (gives_ok (hP.bool _))
  | toText | title =>
    simp only [MethodOp.apply]
    exact gives_bare args (gives_return (displayed target) fun _ => hP.string _)
  | isType =>
    simp only [MethodOp.apply]
    exact gives_optional hP hargs fun v _ => gives_return (displayed v) fun _ => hP.bool _
  | textContains =>
    simp only [MethodOp.apply]
    exact gives_optional hP hargs fun v _ => gives_return (displayHas target v) fun _ => hP.bool _
  | endsWith | startsWith =>
    simp only [MethodOp.apply]
    refine gives_optional hP hargs fun v _ => ?_
    refine gives_bind (gives_any (displayed target)) fun _ _ => ?_
    exact gives_return (displayed v) fun _ => hP.bool _
  | textContainsAll | textContainsAny =>
    simp only [MethodOp.apply]
    exact gives_return _ fun _ => hP.bool _
  | isEmpty =>
    simp only [MethodOp.apply]
    refine gives_bare args ?_
    split <;> exact gives_ok (hP.bool _)
  | hasNoParts =>
    simp only [MethodOp.apply]
    exact gives_bare args (gives_form (elements target) fun _ => hP.bool _)
  | lower | upper | trim =>
    simp only [MethodOp.apply]
    exact gives_bare args (gives_form (textOf target) fun _ => hP.string _)
  | replace =>
    simp only [MethodOp.apply]
    refine gives_bind (gives_any (twoOf args)) fun parts _ => ?_
    refine gives_bind (gives_any (displayed target)) fun source _ => ?_
    refine gives_bind (gives_any (displayed parts.2)) fun new _ => ?_
    exact gives_return (replaced source parts.1 new) fun _ => hP.string _
  | times =>
    simp only [MethodOp.apply]
    exact gives_optional hP hargs fun v _ =>
      gives_bind (gives_any (displayed target)) fun _ _ => gives_repeated hP _ v
  | reverseText =>
    simp only [MethodOp.apply]
    refine gives_bare args (gives_map (gives_sequence hP ht) fun vs hvs => ?_)
    exact regroup_of hP fun v hv => hvs v (List.mem_reverse.mp hv)
  | sliceText =>
    simp only [MethodOp.apply]
    refine gives_bind (gives_any (bounds s args)) fun between _ => ?_
    exact gives_return (displayed target) fun _ => hP.string _
  | split =>
    simp only [MethodOp.apply]
    refine gives_bind (gives_any (twoOf args)) fun parts _ => ?_
    exact gives_bind (gives_any (displayed target)) fun _ _ => gives_splitLimited hP _ _ _
  | abs =>
    simp only [MethodOp.apply]
    exact gives_bare args (gives_bind (gives_any (s.number target)) fun _ _ =>
      gives_ok (hP.number _))
  | ceil | floor =>
    simp only [MethodOp.apply]
    refine gives_bare args (gives_bind (gives_any (s.number target)) fun n _ => ?_)
    exact gives_bind (gives_any (Failure.ofFault _)) fun _ _ => gives_ok (hP.number _)
  | round =>
    simp only [MethodOp.apply]
    refine gives_optional hP hargs fun v _ => gives_bind (gives_any (places s v)) fun p _ => ?_
    refine gives_bind (gives_any (s.number target)) fun n _ => ?_
    exact gives_bind (gives_any (Failure.ofFault _)) fun _ _ => gives_ok (hP.number _)
  | toFixed =>
    simp only [MethodOp.apply]
    refine gives_optional hP hargs fun v _ => gives_bind (gives_any (places s v)) fun p _ => ?_
    refine gives_bind (gives_any (s.number target)) fun n _ => ?_
    exact gives_bind (gives_any (Failure.ofFault _)) fun _ _ => gives_ok (hP.string _)
  | startOfDay =>
    simp only [MethodOp.apply]
    exact gives_bare args (gives_onMoment fun t => gives_ok (hP.timestamp _))
  | clockTime =>
    simp only [MethodOp.apply]
    exact gives_bare args (gives_onMoment fun t => gives_ok (hP.string _))
  | format =>
    simp only [MethodOp.apply]
    exact gives_optional hP hargs fun v _ => gives_onMoment fun t =>
      gives_return (displayed v) fun _ => hP.string _
  | relative =>
    simp only [MethodOp.apply]
    refine gives_bare args (gives_onMoment fun t => ?_)
    exact gives_bind (gives_any (Failure.ofFault _)) fun _ _ => gives_ok (hP.string _)
  | listContains =>
    simp only [MethodOp.apply]
    refine gives_optional hP hargs fun v _ => ?_
    refine gives_bind (gives_any (elements target)) fun items _ => ?_
    exact gives_bind (gives_any (anyEqual s.strict v items)) fun _ _ => gives_ok (hP.bool _)
  | listContainsAll =>
    simp only [MethodOp.apply]
    refine gives_bind (gives_any (elements target)) fun items _ => ?_
    exact gives_bind (gives_any (allEqual s.strict items args)) fun _ _ => gives_ok (hP.bool _)
  | listContainsAny =>
    simp only [MethodOp.apply]
    refine gives_bind (gives_any (elements target)) fun items _ => ?_
    exact gives_bind (gives_any (someEqual s.strict items args)) fun _ _ => gives_ok (hP.bool _)
  | flat =>
    simp only [MethodOp.apply]
    refine gives_bare args (gives_bind (gives_elements hP ht) fun items hitems => ?_)
    refine gives_ok (hP.list fun v hv => ?_)
    obtain ⟨w, hw, hv⟩ := List.mem_flatMap.mp hv
    exact flattened_of hP w (hitems w hw) v hv
  | join =>
    simp only [MethodOp.apply]
    have hjoined (separator : String) : Gives P (do
        return .string (Text.join separator (← (← elements target).mapM displayed))) :=
      gives_bind (gives_any (elements target)) fun items _ =>
        gives_return (items.mapM displayed) fun _ => hP.string _
    refine gives_optional hP hargs fun v _ => ?_
    split
    · exact hjoined ","
    · exact gives_bind (gives_any (displayed v)) fun separator _ => hjoined separator
  | reverseList =>
    simp only [MethodOp.apply]
    refine gives_bare args (gives_bind (gives_elements hP ht) fun items hitems => ?_)
    exact gives_ok (hP.list fun v hv => hitems v (List.mem_reverse.mp hv))
  | sliceList =>
    simp only [MethodOp.apply]
    refine gives_bind (gives_any (bounds s args)) fun between _ => ?_
    refine gives_bind (gives_sequence hP ht) fun items hitems => ?_
    exact gives_ok (hP.list fun v hv => hitems v (cut_subset _ _ _ hv))
  | sort =>
    simp only [MethodOp.apply]
    refine gives_bare args (gives_bind (gives_elements hP ht) fun items hitems => ?_)
    have hsorted : Gives (∀ v ∈ ·, P v) (sorted s.strict items) :=
      fun ordered h v hv => hitems v ((Sorting.sort_perm h).mem_iff.mp hv)
    exact gives_bind hsorted fun _ hordered => gives_ok (hP.list hordered)
  | unique =>
    simp only [MethodOp.apply]
    refine gives_bare args (gives_bind (gives_elements hP ht) fun items hitems => ?_)
    have hdistinct : Gives (∀ v ∈ ·, P v) (Failure.ofFault (distinct [] items)) :=
      gives_below fun _ h v hv => hitems v (distinct_subset h hv)
    exact gives_bind hdistinct fun _ hkept => gives_ok (hP.list hkept)
  | asFile =>
    simp only [MethodOp.apply]
    refine gives_bare args ?_
    split
    · exact gives_ok (fileAt_of hP hs _)
    · exact gives_ok (fileAt_of hP hs _)
    · exact gives_error _
  | linksTo =>
    simp only [MethodOp.apply]
    refine gives_optional hP hargs fun v _ => ?_
    split
    · exact gives_return (fileLinksTo _ v) fun _ => hP.bool _
    · exact gives_return (fileLinksTo _ v) fun _ => hP.bool _
    · exact gives_error _
  | asLink =>
    simp only [MethodOp.apply]
    refine gives_optional hP hargs fun v hv => ?_
    split
    · exact gives_ok (hP.link _ hv)
    · exact gives_ok (hP.link _ hv)
    · exact gives_error _
  | hasLink =>
    simp only [MethodOp.apply]
    refine gives_optional hP hargs fun v _ => gives_ite (gives_ok (hP.bool _)) ?_
    exact gives_onFile fun r => gives_return (fileLinksTo r v) fun _ => hP.bool _
  | inFolder =>
    simp only [MethodOp.apply]
    refine gives_optional hP hargs fun v _ => ?_
    refine gives_bind (gives_any (folderPath v)) fun wanted _ => ?_
    exact gives_ite (gives_ok (hP.bool _)) (gives_onFile fun r => gives_ok (hP.bool _))
  | hasProperty =>
    simp only [MethodOp.apply]
    refine gives_optional hP hargs fun v _ => gives_bind (gives_any (displayed v)) fun name _ => ?_
    exact gives_onFile fun r => gives_ok (hP.bool _)
  | hasTag =>
    simp only [MethodOp.apply]
    exact gives_onFile fun r => gives_return (args.mapM displayed) fun _ => hP.bool _
  | keys =>
    simp only [MethodOp.apply]
    refine gives_bare args ?_
    split
    · exact gives_ok (hP.list (List.forall_mem_map.mpr (hP.keys ht)))
    · exact gives_error _
  | values =>
    simp only [MethodOp.apply]
    refine gives_bare args ?_
    split
    · exact gives_ok (hP.list (List.forall_mem_map.mpr (hP.values ht)))
    · exact gives_error _
  | matchesText =>
    simp only [MethodOp.apply]
    refine gives_optional hP hargs fun v _ => ?_
    split
    · exact gives_return (displayed v) fun _ => hP.bool _
    · exact gives_error _
  | filter | map | reduce => exact gives_wrongCount

end Library

end Operations

/-! ## Linked scopes -/

namespace Scope

/-- What the other scope binds, in the surroundings of this one. -/
def within (s t : Scope) : Scope :=
  { t with strict := s.strict, now := s.now, library := s.library, files := s.files }

/-- The scopes may differ in what they bind, and in nothing else. -/
def Beside (s s' : Scope) : Prop :=
  s' = s.within s'

/-- The scopes are beside one another, and stay linked when the same values of which the property
holds are bound in both; it holds of the files, too. -/
structure Linked (P : Value → Prop) (R : Scope → Scope → Prop) : Prop where
  beside : ∀ {s s'}, R s s' → s.Beside s'
  files : ∀ {s s'}, R s s' → ∀ f ∈ s.files, P (.file f.2)
  bind : ∀ {s s'} {bindings : List (String × Value)}, R s s' → (∀ b ∈ bindings, P b.2) →
    R (s.withBindings bindings) (s'.withBindings bindings)

theorem Beside.same {α : Type} {s s' : Scope} {f : Scope → α} (h : s.Beside s')
    (hf : ∀ s t : Scope, f (s.within t) = f s) : f s' = f s := by
  rw [h]
  exact hf s s'

/-- Everything that names stand for has the property, with the formulas left out. -/
structure Filled (P : Value → Prop) (s : Scope) : Prop where
  note : ∀ v ∈ Entries.parts s.note, P v
  file : ∀ r, s.file = some r → P (.file r)
  identity : ∀ entries, s.identity = some entries → ∀ v ∈ Entries.parts entries, P v
  projected : ∀ entries, s.projected = some entries → ∀ v ∈ Entries.parts entries, P v
  bindings : ∀ b ∈ s.bindings, P b.2

theorem Filled.withBindings {P : Value → Prop} {s : Scope} (h : s.Filled P)
    {bindings : List (String × Value)} (hb : ∀ b ∈ bindings, P b.2) :
    (s.withBindings bindings).Filled P :=
  { h with bindings := List.forall_mem_append.mpr ⟨hb, h.bindings⟩ }

/-- What is found has the property, if the formulas have it where they are found. -/
theorem Filled.find? {P : Value → Prop} (hP : Hereditary P) {s : Scope} (h : s.Filled P)
    {name : String} (hname : name = "formula" → P (.mapping true s.formula)) {v : Value}
    (hv : s.find? name = some v) : P v := by
  unfold Scope.find? at hv
  split at hv
  · next hb =>
    cases hv
    obtain ⟨before, after, hbindings, -⟩ := List.lookup_eq_some_iff.mp hb
    exact h.bindings (name, _) (hbindings ▸ List.mem_append_right _ List.mem_cons_self)
  · split at hv
    · next hpart =>
      cases hv
      unfold part? at hpart
      split at hpart
      · cases hpart
        exact hP.mapping h.note
      · obtain ⟨r, hr, rfl⟩ := Option.map_eq_some_iff.mp hpart
        exact h.file r hr
      · cases hpart
        exact hname rfl
      · obtain ⟨entries, hentries, rfl⟩ := Option.map_eq_some_iff.mp hpart
        exact hP.mapping (h.identity entries hentries)
      · obtain ⟨entries, hentries, rfl⟩ := Option.map_eq_some_iff.mp hpart
        exact hP.mapping (h.projected entries hentries)
      · cases hpart
    · exact Entries.find?_of_parts h.note hv

/-- What looks only at the surroundings is the same. -/
theorem Beside.steady {α : Type} {P : α → Prop} {s s' : Scope} {f : Scope → Except Failure α}
    (h : s.Beside s') (hf : ∀ s t : Scope, f (s.within t) = f s) (hgives : Gives P (f s)) :
    Steady P (f s) (f s') :=
  ⟨h.same hf, hgives⟩

end Scope

/-- Wherever it is evaluated, the argument is steady. -/
def Delayed.Steady (P : Value → Prop) (R : Scope → Scope → Prop) (d : Delayed) : Prop :=
  ∀ {s s' : Scope}, R s s' → NoteQuery.Steady P (d s) (d s')

section Calls

variable {P : Value → Prop} (hP : Hereditary P) {R : Scope → Scope → Prop}
  (hR : Scope.Linked P R) {s s' : Scope} {args : List Delayed} {target : Value}

namespace Library

theorem steady_arguments (h : R s s') (hargs : ∀ d ∈ args, d.Steady P R) :
    Steady (∀ v ∈ ·, P v) (args.mapM (· s)) (args.mapM (· s')) :=
  steady_mapM fun d hd => hargs d hd h

include hP

theorem steady_chooseFrom (h : R s s') (hargs : ∀ d ∈ args, d.Steady P R) :
    Steady P (chooseFrom s args) (chooseFrom s' args) := by
  match args with
  | [] => exact steady_error _
  | [_] => exact steady_error _
  | condition :: first :: rest =>
    simp only [List.forall_mem_cons] at hargs
    obtain ⟨hcondition, hfirst, hrest⟩ := hargs
    refine steady_bind (hcondition h) fun v _ => steady_ite (hfirst h) ?_
    match rest with
    | [] => exact steady_ok hP.null
    | second :: _ => exact hrest second List.mem_cons_self h

include hR

theorem steady_function (op : FunctionOp) (h : R s s') {vs : List Value} (hvs : ∀ v ∈ vs, P v) :
    Steady P (op.apply s vs) (op.apply s' vs) :=
  (hR.beside h).steady (f := (op.apply · vs)) (fun s t => by cases op <;> rfl)
    (gives_function hP op (hR.files h) hvs)

theorem steady_lazyFunction (op : FunctionOp) (h : R s s') (hargs : ∀ d ∈ args, d.Steady P R) :
    Steady P (op.applyLazy s args) (op.applyLazy s' args) := by
  cases op with
  | choose => exact steady_chooseFrom hP h hargs
  | _ => exact steady_bind (steady_arguments h hargs) fun vs hvs => steady_function hP hR _ h hvs

theorem steady_method (op : MethodOp) (h : R s s') (ht : P target) {vs : List Value}
    (hvs : ∀ v ∈ vs, P v) : Steady P (op.apply s target vs) (op.apply s' target vs) :=
  (hR.beside h).steady (f := (op.apply · target vs)) (fun s t => by cases op <;> rfl)
    (gives_method hP op (hR.files h) ht hvs)

/-! The bodies of the lazy methods are evaluated in the scopes of the elements, which stay
linked. -/

omit hP in
theorem linked_elementScope (hnumber : ∀ n, P (.number n)) (h : R s s') (i : Nat) {v : Value}
    (hv : P v) : R (elementScope s i v) (elementScope s' i v) :=
  hR.bind h (List.forall_mem_cons.mpr ⟨hv, List.forall_mem_singleton.mpr (hnumber _)⟩)

theorem steady_filtered {body : Delayed} (hbody : body.Steady P R) (h : R s s') (i : Nat)
    {vs : List Value} (hvs : ∀ v ∈ vs, P v) :
    Steady (∀ v ∈ ·, P v) (filtered s body i vs) (filtered s' body i vs) := by
  induction vs generalizing i with
  | nil => exact steady_ok (List.forall_mem_nil _)
  | cons v vs ih =>
    obtain ⟨hv, hrest⟩ := List.forall_mem_cons.mp hvs
    refine steady_bind (hbody (linked_elementScope hR hP.number h i hv)) fun w _ => ?_
    refine steady_bind (ih (i + 1) hrest) fun kept hkept => steady_ok ?_
    split
    · exact List.forall_mem_cons.mpr ⟨hv, hkept⟩
    · exact hkept

theorem steady_mapped {body : Delayed} (hbody : body.Steady P R) (h : R s s') (i : Nat)
    {vs : List Value} (hvs : ∀ v ∈ vs, P v) :
    Steady (∀ v ∈ ·, P v) (mapped s body i vs) (mapped s' body i vs) := by
  induction vs generalizing i with
  | nil => exact steady_ok (List.forall_mem_nil _)
  | cons v vs ih =>
    obtain ⟨hv, hrest⟩ := List.forall_mem_cons.mp hvs
    refine steady_bind (hbody (linked_elementScope hR hP.number h i hv)) fun w hw => ?_
    refine steady_bind (ih (i + 1) hrest) fun ws hws => ?_
    exact steady_ok (List.forall_mem_cons.mpr ⟨hw, hws⟩)

theorem steady_reduced {body : Delayed} (hbody : body.Steady P R) (h : R s s') (i : Nat)
    {acc : Value} (hacc : P acc) {vs : List Value} (hvs : ∀ v ∈ vs, P v) :
    Steady P (reduced s body i acc vs) (reduced s' body i acc vs) := by
  induction vs generalizing i acc with
  | nil => exact steady_ok hacc
  | cons v vs ih =>
    obtain ⟨hv, hrest⟩ := List.forall_mem_cons.mp hvs
    have hbound : ∀ b ∈ [("acc", acc)], P b.2 := List.forall_mem_singleton.mpr hacc
    have hlinked := hR.bind (linked_elementScope hR hP.number h i hv) hbound
    exact steady_bind (hbody hlinked) fun w hw => ih (i + 1) hw hrest

theorem steady_lazyMethod (op : MethodOp) (h : R s s') (ht : P target)
    (hargs : ∀ d ∈ args, d.Steady P R) :
    Steady P (op.applyLazy s target args) (op.applyLazy s' target args) := by
  have helements : Steady (∀ v ∈ ·, P v) (elements target) (elements target) :=
    ⟨rfl, gives_elements hP ht⟩
  cases op with
  | filter =>
    match args with
    | [] => exact steady_bind helements fun _ hitems => steady_ok (hP.list hitems)
    | body :: _ =>
      have hbody : body.Steady P R := hargs body List.mem_cons_self
      refine steady_bind helements fun items hitems => ?_
      refine steady_bind (steady_filtered hP hR hbody h 0 hitems) fun _ hkept => ?_
      exact steady_ok (hP.list hkept)
  | map =>
    match args with
    | [] => exact steady_bind helements fun _ hitems => steady_ok (hP.list hitems)
    | body :: _ =>
      have hbody : body.Steady P R := hargs body List.mem_cons_self
      refine steady_bind helements fun items hitems => ?_
      refine steady_bind (steady_mapped hP hR hbody h 0 hitems) fun _ hws => ?_
      exact steady_ok (hP.list hws)
  | reduce =>
    match args with
    | [] => exact steady_ok hP.null
    | [body] =>
      have hbody : body.Steady P R := hargs body List.mem_cons_self
      refine steady_bind helements fun items hitems => ?_
      exact steady_reduced hP hR hbody h 0 hP.null hitems
    | body :: seed :: _ =>
      simp only [List.forall_mem_cons] at hargs
      refine steady_bind (hargs.2.1 h) fun acc hacc => ?_
      refine steady_bind helements fun items hitems => ?_
      exact steady_reduced hP hR hargs.1 h 0 hacc hitems
  | _ => exact steady_bind (steady_arguments h hargs) fun vs hvs => steady_method hP hR _ h ht hvs

end Library

namespace Scope

theorem steady_guardCall (name : String) {r r' : Except Failure Value} (h : Steady P r r') :
    Steady P (guardCall name r) (guardCall name r') := by
  obtain ⟨rfl, hgives⟩ := h
  refine ⟨rfl, fun v hv => hgives v ?_⟩
  unfold guardCall at hv
  split at hv
  · cases hv
  · exact hv

include hP hR

theorem steady_fail (h : R s s') (e : EvalError) : Steady P (s.fail e) (s'.fail e) :=
  (hR.beside h).steady (f := (·.fail e)) (fun _ _ => rfl) (gives_fail hP s e)

theorem steady_callFunction (name : String) (h : R s s') (hargs : ∀ d ∈ args, d.Steady P R) :
    Steady P (s.callFunction name args) (s'.callFunction name args) := by
  have hfound : s'.library.function? name = s.library.function? name :=
    (hR.beside h).same (f := (·.library.function? name)) fun _ _ => rfl
  simp only [callFunction, hfound]
  split
  · exact steady_fail hP hR h _
  · refine steady_ite (steady_guardCall name (Library.steady_lazyFunction hP hR _ h hargs)) ?_
    refine steady_bind (Library.steady_arguments h hargs) fun vs hvs => ?_
    exact steady_guardCall name (Library.steady_function hP hR _ h hvs)

theorem steady_callMethod (name : String) (h : R s s') (ht : P target)
    (hargs : ∀ d ∈ args, d.Steady P R) :
    Steady P (s.callMethod target name args) (s'.callMethod target name args) := by
  have hfound : s'.library.method? (some target.kind) name =
      s.library.method? (some target.kind) name :=
    (hR.beside h).same (f := (·.library.method? (some target.kind) name)) fun _ _ => rfl
  simp only [callMethod, hfound]
  split
  · exact steady_fail hP hR h _
  · refine steady_ite (steady_guardCall name (Library.steady_lazyMethod hP hR _ h ht hargs)) ?_
    refine steady_bind (Library.steady_arguments h hargs) fun vs hvs => ?_
    exact steady_guardCall name (Library.steady_method hP hR _ h ht hvs)

end Scope

end Calls

/-! ## Expressions -/

namespace Expr

/-- The expression is composed of those that read from the scope and of literals. -/
inductive Composed (reads : Expr → Prop) : Expr → Prop
  | reading {e : Expr} : reads e → Composed reads e
  | literal (value : Literal) (raw : String) : Composed reads (.literal value raw)
  | member {e : Expr} (n : String) : Composed reads e → Composed reads (.member e n)
  | index {e position : Expr} : Composed reads e → Composed reads position →
      Composed reads (.index e position)
  | binary (op : BinaryOperator) {left right : Expr} : Composed reads left →
      Composed reads right → Composed reads (.binary op left right)
  | unary (op : UnaryOperator) {e : Expr} : Composed reads e → Composed reads (.unary op e)
  | call (f : String) {args : List Expr} : (∀ a ∈ args, Composed reads a) →
      Composed reads (.call (.name f) args)
  | method {base : Expr} (m : String) {args : List Expr} : Composed reads base →
      (∀ a ∈ args, Composed reads a) → Composed reads (.call (.member base m) args)
  /-- What cannot be called is not evaluated. -/
  | notCallable {callee : Expr} {args : List Expr} : (∀ f, callee ≠ .name f) →
      (∀ base m, callee ≠ .member base m) → Composed reads (.call callee args)
  | list {es : List Expr} : (∀ e ∈ es, Composed reads e) → Composed reads (.list es)
  | object {ps : List (String × Expr)} : (∀ p ∈ ps, Composed reads p.2) →
      Composed reads (.object ps)

section Steady

variable {P : Value → Prop} (hP : Hereditary P) {R : Scope → Scope → Prop}
  (hR : Scope.Linked P R)

/-- The expression, evaluated later, is steady. -/
def Steady (P : Value → Prop) (R : Scope → Scope → Prop) (e : Expr) : Prop :=
  Delayed.Steady P R e.eval

theorem delayed_steady {es : List Expr} (h : ∀ e ∈ es, e.Steady P R) :
    ∀ d ∈ delayed es, d.Steady P R := by
  induction es with
  | nil =>
    rw [delayed]
    exact List.forall_mem_nil _
  | cons e es ih =>
    obtain ⟨he, hes⟩ := List.forall_mem_cons.mp h
    rw [delayed]
    exact List.forall_mem_cons.mpr ⟨he, ih hes⟩

theorem steady_evalItems {es : List Expr} (h : ∀ e ∈ es, e.Steady P R) {s s' : Scope}
    (hs : R s s') : NoteQuery.Steady (∀ v ∈ ·, P v) (evalItems es s) (evalItems es s') := by
  induction es with
  | nil =>
    rw [evalItems, evalItems]
    exact steady_ok (List.forall_mem_nil _)
  | cons e es ih =>
    obtain ⟨he, hes⟩ := List.forall_mem_cons.mp h
    rw [evalItems, evalItems]
    refine steady_bind (he hs) fun v hv => ?_
    exact steady_bind (ih hes) fun vs hvs => steady_ok (List.forall_mem_cons.mpr ⟨hv, hvs⟩)

theorem steady_evalPairs {ps : List (String × Expr)} (h : ∀ p ∈ ps, p.2.Steady P R)
    {s s' : Scope} (hs : R s s') :
    NoteQuery.Steady (∀ p ∈ ·, P p.2) (evalPairs ps s) (evalPairs ps s') := by
  induction ps with
  | nil =>
    rw [evalPairs, evalPairs]
    exact steady_ok (List.forall_mem_nil _)
  | cons p ps ih =>
    obtain ⟨hp, hps⟩ := List.forall_mem_cons.mp h
    rw [evalPairs, evalPairs]
    refine steady_bind (hp hs) fun v hv => ?_
    exact steady_bind (ih hps) fun vs hvs => steady_ok (List.forall_mem_cons.mpr ⟨hv, hvs⟩)

include hP hR

/-- What is composed of steady expressions is steady. -/
theorem Composed.steady {reads : Expr → Prop} (hreads : ∀ e, reads e → e.Steady P R) {e : Expr}
    (h : e.Composed reads) : e.Steady P R := by
  induction h with
  | reading h => exact hreads _ h
  | literal value raw =>
    intro s s' hs
    simp only [eval]
    refine steady_ok ?_
    cases value with
    | null => exact hP.null
    | bool b => exact hP.bool b
    | number n => exact hP.number n
    | string t => exact hP.string t
    | pattern p => exact hP.pattern p
  | member n _ ih =>
    intro s s' hs
    simp only [eval]
    refine steady_bind (ih hs) fun v hv => ?_
    exact (hR.beside hs).steady (f := (·.member v n)) (fun _ _ => rfl) (Scope.gives_member hP hv n)
  | index _ _ ih ihp =>
    intro s s' hs
    simp only [eval]
    refine steady_bind (ih hs) fun v hv => steady_bind (ihp hs) fun i _ => ?_
    exact (hR.beside hs).steady (f := (·.element v i)) (fun _ _ => rfl)
      (Scope.gives_element hP hv i)
  | binary op _ _ ihl ihr =>
    intro s s' hs
    have hl := ihl hs
    have hr := ihr hs
    have hoperate {v w : Value} (hv : P v) (hw : P w) :
        NoteQuery.Steady P (s.operate op v w) (s'.operate op v w) :=
      (hR.beside hs).steady (f := (·.operate op v w)) (fun _ _ => by cases op <;> rfl)
        (Scope.gives_operate hP op hv hw)
    cases op with
    | or =>
      simp only [eval]
      exact steady_bind hl fun v hv => steady_ite (steady_ok hv) hr
    | and =>
      simp only [eval]
      exact steady_bind hl fun v hv => steady_ite hr (steady_ok hv)
    | _ =>
      simp only [eval]
      exact steady_bind hl fun v hv => steady_bind hr fun w hw => hoperate hv hw
  | unary op _ ih =>
    intro s s' hs
    simp only [eval]
    refine steady_bind (ih hs) fun v _ => ?_
    exact (hR.beside hs).steady (f := (·.operateUnary op v)) (fun _ _ => by cases op <;> rfl)
      (Scope.gives_operateUnary hP op v)
  | call f _ ih =>
    intro s s' hs
    simp only [eval]
    exact Scope.steady_callFunction hP hR f hs (delayed_steady ih)
  | method m _ _ ih ihargs =>
    intro s s' hs
    simp only [eval]
    refine steady_bind (ih hs) fun target ht => ?_
    exact Scope.steady_callMethod hP hR m hs ht (delayed_steady ihargs)
  | @notCallable callee args hname hmember =>
    intro s s' hs
    cases callee with
    | name f => exact absurd rfl (hname f)
    | member base m => exact absurd rfl (hmember base m)
    | _ =>
      simp only [eval]
      exact Scope.steady_fail hP hR hs _
  | list _ ih =>
    intro s s' hs
    simp only [eval]
    exact steady_bind (steady_evalItems ih hs) fun vs hvs => steady_ok (hP.list hvs)
  | object _ ih =>
    intro s s' hs
    simp only [eval]
    refine steady_bind (steady_evalPairs ih hs) fun pairs hpairs => ?_
    exact steady_ok (hP.mapping (Entries.ofTexts_parts hP hpairs))

end Steady

end Expr

end NoteQuery
