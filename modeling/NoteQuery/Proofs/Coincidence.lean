/-
Expressions depend on the names in them.

The outcome of an expression is fixed by its strictness, the clock, the library, the files, and what
the names that are evaluated in it stand for (`Expr.eval_of_names`): no operation, function or
method reads a scope by another way.  What a scope binds besides is not noticed, and of variables of
one name an expression sees the one that was bound last, also in what is evaluated for the elements
of a list.
-/
import NoteQuery.Proofs.Steadiness

namespace NoteQuery

open Value

/-! ## Names -/

namespace Expr

mutual

/-- The names that are evaluated in an expression.  The name of a function that is called is not,
nor is anything in the place of a function that cannot be called. -/
def names : Expr → List String
  | literal _ _ => []
  | name n => [n]
  | member base _ => base.names
  | index base position => base.names ++ position.names
  | binary _ left right => left.names ++ right.names
  | unary _ operand => operand.names
  | call (.member base _) arguments => base.names ++ namesOf arguments
  | call (.name _) arguments => namesOf arguments
  | call _ _ => []
  | list elements => namesOf elements
  | object pairs => namesOfPairs pairs

def namesOf : List Expr → List String
  | [] => []
  | e :: es => e.names ++ namesOf es

def namesOfPairs : List (String × Expr) → List String
  | [] => []
  | (_, e) :: pairs => e.names ++ namesOfPairs pairs

end

/-- The expression is one of the names. -/
def IsNameIn (names : List String) (e : Expr) : Prop :=
  ∃ n ∈ names, e = .name n

theorem composed_of_call {names : List String} (callee : Expr) {args : List Expr}
    (hargs : namesOf args ⊆ names → ∀ a ∈ args, a.Composed (IsNameIn names))
    (hbase : ∀ base m, callee = .member base m → base.names ⊆ names →
      base.Composed (IsNameIn names)) (h : (call callee args).names ⊆ names) :
    (call callee args).Composed (IsNameIn names) := by
  cases callee with
  | name f => exact .call f (hargs (by simpa only [Expr.names] using h))
  | member base m =>
    rw [Expr.names, List.append_subset] at h
    exact .method m (hbase base m rfl h.1) (hargs h.2)
  | _ => exact .notCallable nofun nofun

mutual

/-- An expression is composed of the names in it. -/
theorem composed_of_names {names : List String} : (e : Expr) → e.names ⊆ names →
    e.Composed (IsNameIn names)
  | literal value raw, _ => .literal value raw
  | name n, h => .reading ⟨n, h (by rw [Expr.names]; exact List.mem_cons_self), rfl⟩
  | member base n, h => .member n (composed_of_names base (by simpa only [Expr.names] using h))
  | index base position, h => by
    rw [Expr.names, List.append_subset] at h
    exact .index (composed_of_names base h.1) (composed_of_names position h.2)
  | binary op left right, h => by
    rw [Expr.names, List.append_subset] at h
    exact .binary op (composed_of_names left h.1) (composed_of_names right h.2)
  | unary op e, h => .unary op (composed_of_names e (by simpa only [Expr.names] using h))
  | call callee args, h => by
    refine composed_of_call callee (composed_of_namesOf args) (fun base m hcallee => ?_) h
    exact composed_of_names base
  | list es, h => .list (composed_of_namesOf es (by simpa only [Expr.names] using h))
  | object ps, h => .object (composed_of_namesOfPairs ps (by simpa only [Expr.names] using h))

theorem composed_of_namesOf {names : List String} : (es : List Expr) → namesOf es ⊆ names →
    ∀ e ∈ es, e.Composed (IsNameIn names)
  | [], _ => List.forall_mem_nil _
  | e :: es, h => by
    rw [namesOf, List.append_subset] at h
    exact List.forall_mem_cons.mpr ⟨composed_of_names e h.1, composed_of_namesOf es h.2⟩

theorem composed_of_namesOfPairs {names : List String} : (ps : List (String × Expr)) →
    namesOfPairs ps ⊆ names → ∀ p ∈ ps, p.2.Composed (IsNameIn names)
  | [], _ => List.forall_mem_nil _
  | (_, e) :: ps, h => by
    rw [namesOfPairs, List.append_subset] at h
    exact List.forall_mem_cons.mpr ⟨composed_of_names e h.1, composed_of_namesOfPairs ps h.2⟩

end

end Expr

/-! ## Scopes -/

theorem Value.hereditary_any : Hereditary fun _ => True := by
  constructor <;> intros <;> trivial

namespace Scope

/-- The scopes are alike in everything but what they bind, and each of the names stands for the same
in both or for nothing in both. -/
structure Agree (names : List String) (s s' : Scope) : Prop where
  strict : s.strict = s'.strict
  now : s.now = s'.now
  library : s.library = s'.library
  files : s.files = s'.files
  found : ∀ n ∈ names, s.find? n = s'.find? n

variable {names : List String} {s s' : Scope}

theorem find?_withBindings (s : Scope) (bindings : List (String × Value)) (name : String) :
    (s.withBindings bindings).find? name = (bindings.lookup name).or (s.find? name) := by
  rw [find?, withBindings, List.lookup_append]
  cases bindings.lookup name <;> rfl

theorem Agree.beside (h : s.Agree names s') : s.Beside s' := by
  rw [Beside, within, h.strict, h.now, h.library, h.files]

theorem agree_linked (names : List String) : Linked (fun _ => True) (Agree names) where
  beside := Agree.beside
  files _ _ _ := trivial
  bind {s s' bindings} h _ :=
    { strict := h.strict, now := h.now, library := h.library, files := h.files
      found := fun n hn => by rw [find?_withBindings, find?_withBindings, h.found n hn] }

theorem steady_resolve_name (h : s.Agree names s') {n : String} (hn : n ∈ names) :
    Steady (fun _ => True) (s.resolve n) (s'.resolve n) := by
  rw [resolve, resolve, h.found n hn]
  cases s'.find? n with
  | none => exact steady_fail hereditary_any (agree_linked names) h _
  | some v => exact steady_ok trivial

/-- Of variables of one name, the one that is bound last hides the others. -/
theorem agree_hidden (s : Scope) {outer inner : List (String × Value)}
    (h : ∀ b ∈ outer, b.1 ∉ names ∨ b.1 ∈ inner.map Prod.fst) :
    ((s.withBindings outer).withBindings inner).Agree names (s.withBindings inner) where
  strict := rfl
  now := rfl
  library := rfl
  files := rfl
  found n hn := by
    rw [find?_withBindings, find?_withBindings, find?_withBindings]
    cases hinner : inner.lookup n with
    | some v => rfl
    | none =>
      have houter : outer.lookup n = none := by
        refine List.lookup_eq_none_iff.mpr fun b hb => ?_
        rw [bne_iff_ne]
        rintro rfl
        rcases h b hb with hname | hname
        · exact hname hn
        · obtain ⟨b', hb', hn'⟩ := List.mem_map.mp hname
          exact bne_iff_ne.mp (List.lookup_eq_none_iff.mp hinner b' hb') hn'.symm
      rw [houter]
      rfl

end Scope

/-! ## Outcomes -/

namespace Expr

/-- Scopes that agree on the names in an expression give it the same outcome. -/
theorem eval_of_names {e : Expr} {s s' : Scope} (h : s.Agree e.names s') :
    e.eval s = e.eval s' := by
  have hnames (a : Expr) (ha : a.IsNameIn e.names) :
      a.Steady (fun _ => True) (Scope.Agree e.names) := by
    obtain ⟨n, hn, rfl⟩ := ha
    intro s s' hs
    simp only [eval]
    exact Scope.steady_resolve_name hs hn
  have hcomposed := composed_of_names e (List.Subset.refl e.names)
  exact (hcomposed.steady hereditary_any (Scope.agree_linked e.names) hnames h).same.symm

theorem eval_of_hidden (e : Expr) (s : Scope) (outer inner : List (String × Value))
    (h : ∀ b ∈ outer, b.1 ∉ e.names ∨ b.1 ∈ inner.map Prod.fst) :
    e.eval ((s.withBindings outer).withBindings inner) = e.eval (s.withBindings inner) :=
  eval_of_names (Scope.agree_hidden s h)

end Expr

namespace Library

variable {s : Scope} {e : Expr} {outer : List (String × Value)}

/-- What is bound around a list method is not noticed by what is evaluated for each element, if the
method binds the same name or the expression does not have it. -/
theorem eval_elementScope (h : ∀ b ∈ outer, b.1 ∉ e.names ∨ b.1 = "value" ∨ b.1 = "index")
    (i : Nat) (v : Value) :
    e.eval (elementScope (s.withBindings outer) i v) = e.eval (elementScope s i v) := by
  refine e.eval_of_hidden s outer _ fun b hb => ?_
  rcases h b hb with hname | hvalue | hindex
  · exact .inl hname
  · exact .inr (hvalue ▸ List.mem_cons_self)
  · exact .inr (hindex ▸ List.mem_cons_of_mem _ List.mem_cons_self)

theorem filtered_of_hidden (h : ∀ b ∈ outer, b.1 ∉ e.names ∨ b.1 = "value" ∨ b.1 = "index")
    (i : Nat) (vs : List Value) :
    filtered (s.withBindings outer) e.eval i vs = filtered s e.eval i vs := by
  induction vs generalizing i with
  | nil => rfl
  | cons v vs ih => rw [filtered, filtered, eval_elementScope h, ih]

theorem mapped_of_hidden (h : ∀ b ∈ outer, b.1 ∉ e.names ∨ b.1 = "value" ∨ b.1 = "index") (i : Nat)
    (vs : List Value) : mapped (s.withBindings outer) e.eval i vs = mapped s e.eval i vs := by
  induction vs generalizing i with
  | nil => rfl
  | cons v vs ih => rw [mapped, mapped, eval_elementScope h, ih]

theorem reduced_of_hidden
    (h : ∀ b ∈ outer, b.1 ∉ e.names ∨ b.1 = "value" ∨ b.1 = "index" ∨ b.1 = "acc") (i : Nat)
    (acc : Value) (vs : List Value) :
    reduced (s.withBindings outer) e.eval i acc vs = reduced s e.eval i acc vs := by
  have hstep (i : Nat) (acc v : Value) :
      e.eval ((elementScope (s.withBindings outer) i v).withBindings [("acc", acc)]) =
        e.eval ((elementScope s i v).withBindings [("acc", acc)]) := by
    refine e.eval_of_hidden s outer [("acc", acc), ("value", v), ("index", .int i)] fun b hb => ?_
    have hbound : b.1 = "value" ∨ b.1 = "index" ∨ b.1 = "acc" →
        b.1 ∈ [("acc", acc), ("value", v), ("index", .int i)].map Prod.fst := by
      rintro (hb | hb | hb) <;> simp only [hb, List.map_cons, List.mem_cons, true_or, or_true]
    exact (h b hb).imp id hbound
  induction vs generalizing i acc with
  | nil => rfl
  | cons v vs ih =>
    rw [reduced, reduced, hstep]
    exact bind_congr fun acc => ih (i + 1) acc

end Library

namespace Expr

open Library

/-- The outcome of an expression depends on the names in it.  It is the same in scopes that agree on
them; variables of other names change nothing; each name stands for the variable that is bound last,
and others of that name change nothing; so nothing that is bound around a list method changes what
its body gives for each element, as long as the body does not have its name or the method binds the
name itself. -/
theorem eval_depends_on_names :
    (∀ (e : Expr) (s s' : Scope), s.Agree e.names s' → e.eval s = e.eval s') ∧
      (∀ (e : Expr) (s : Scope) (bindings : List (String × Value)),
        (∀ b ∈ bindings, b.1 ∉ e.names) → e.eval (s.withBindings bindings) = e.eval s) ∧
      (∀ (s : Scope) (outer inner : List (String × Value)) (n : String) (v : Value),
        inner.lookup n = some v →
          (name n).eval ((s.withBindings outer).withBindings inner) = .ok v) ∧
      (∀ (e : Expr) (s : Scope) (outer inner : List (String × Value)),
        (∀ b ∈ outer, b.1 ∉ e.names ∨ b.1 ∈ inner.map Prod.fst) →
          e.eval ((s.withBindings outer).withBindings inner) = e.eval (s.withBindings inner)) ∧
      (∀ (body : Expr) (s : Scope) (outer : List (String × Value)) (i : Nat) (vs : List Value),
        (∀ b ∈ outer, b.1 ∉ body.names ∨ b.1 = "value" ∨ b.1 = "index") →
          filtered (s.withBindings outer) body.eval i vs = filtered s body.eval i vs ∧
            mapped (s.withBindings outer) body.eval i vs = mapped s body.eval i vs) ∧
      ∀ (body : Expr) (s : Scope) (outer : List (String × Value)) (i : Nat) (acc : Value)
        (vs : List Value),
        (∀ b ∈ outer, b.1 ∉ body.names ∨ b.1 = "value" ∨ b.1 = "index" ∨ b.1 = "acc") →
          reduced (s.withBindings outer) body.eval i acc vs = reduced s body.eval i acc vs := by
  refine ⟨fun e s s' h => eval_of_names h, fun e s bindings h => ?_, fun s outer inner n v h => ?_,
    fun e s outer inner h => e.eval_of_hidden s outer inner h,
    fun body s outer i vs h => ⟨filtered_of_hidden h i vs, mapped_of_hidden h i vs⟩,
    fun body s outer i acc vs h => reduced_of_hidden h i acc vs⟩
  · exact e.eval_of_hidden s bindings [] fun b hb => .inl (h b hb)
  · rw [eval, Scope.resolve, Scope.find?_withBindings, h]
    rfl

/-- `[x].map(value + y)` in a note with `x` and `y`, and within another list method in a note with
other properties. -/
theorem map_depends_on_names :
    let body : Expr := .binary .add (.name "value") (.name "y")
    let e : Expr := .call (.member (.list [.name "x"]) "map") [body]
    let note (others : List (String × Value)) : Scope :=
      { strict := true, now := .midnight default, library := .builtin,
        note := .ofTexts (("x", .int 1) :: ("y", .int 2) :: others) }
    let s := note [("value", .string "none")]
    let s' := (note [("z", .null)]).withBindings [("value", .string "none"), ("index", .int 0)]
    let outer : List (String × Value) := [("value", .int 7), ("index", .int 8), ("acc", .int 9)]
    s.Agree e.names s' ∧ e.eval s = e.eval s' ∧ e.eval s = .ok (.list [.int 3]) ∧
      e.eval (s.withBindings [("acc", .int 9)]) = e.eval s ∧
      body.eval ((s.withBindings outer).withBindings [("value", .int 1)]) =
        body.eval (s.withBindings [("value", .int 1)]) ∧
      mapped (s.withBindings outer) body.eval 0 [.int 1] = mapped s body.eval 0 [.int 1] ∧
      reduced (s.withBindings outer) body.eval 0 .null [.int 1] =
        reduced s body.eval 0 .null [.int 1] := by
  intro body e note s s' outer
  obtain ⟨hagree, hother, -, hhidden, hlist, hreduced⟩ := eval_depends_on_names
  have hbody : body.names = ["value", "y"] := rfl
  have hnames : e.names = ["x", "value", "y"] := rfl
  have h : s.Agree e.names s' := by
    refine ⟨rfl, rfl, rfl, rfl, ?_⟩
    simp only [hnames, List.forall_mem_cons]
    exact ⟨rfl, rfl, rfl, List.forall_mem_nil _⟩
  refine ⟨h, hagree e s s' h, rfl, hother e s _ ?_, hhidden body s outer _ ?_,
    (hlist body s outer 0 _ ?_).2, hreduced body s outer 0 _ _ ?_⟩
  · rw [hnames]
    decide
  · rw [hbody]
    decide
  · rw [hbody]
    decide
  · rw [hbody]
    decide

end Expr

end NoteQuery
