/-
Expressions read formulas by name.

Formulas are collected in a mapping that expressions can reach under one name only.  An expression
that takes nothing from it but members of given names has the same outcome in any two scopes that
agree on these (`Expr.eval_steady`), whatever else has been collected in the one and not in the
other.

This needs the values that evaluation meets to be settled: in one that is not, the mapping itself
might be found.
-/
import NoteQuery.Proofs.Settled
import NoteQuery.Proofs.Steadiness

namespace NoteQuery

open Value

/-! ## Scopes -/

namespace Scope

/-- The scope with another mapping of formulas. -/
def withFormula (s : Scope) (formula : Entries) : Scope :=
  { s with formula }

/-- Everything that can be found in the scope is settled, and the other mapping of formulas has
the same under all names that may be read. -/
structure Frames (allowed : String → Prop) (formula : Entries) (s : Scope) : Prop
    extends Filled Settled s where
  formulas : AllSettled (Entries.parts s.formula)
  files : ∀ f ∈ s.files, (Value.file f.2).Settled
  agrees : ∀ name, allowed name → Entries.get? formula name = Entries.get? s.formula name

/-- The second scope is the first one with another mapping of formulas. -/
def Reframed (allowed : String → Prop) (formula : Entries) (s s' : Scope) : Prop :=
  s.Frames allowed formula ∧ s' = s.withFormula formula

variable {allowed : String → Prop} {formula : Entries} {s : Scope}

theorem reframed_linked : Linked Settled (Reframed allowed formula) where
  beside h := h.2 ▸ rfl
  files h := h.1.files
  bind h hb := ⟨{ h.1 with toFilled := h.1.toFilled.withBindings hb }, h.2 ▸ rfl⟩

theorem find?_withFormula {name : String} (hname : name ≠ "formula") :
    (s.withFormula formula).find? name = s.find? name := by
  have hpart : (s.withFormula formula).part? name = s.part? name := by
    unfold part?
    split
    · rfl
    · rfl
    · exact absurd rfl hname
    · rfl
    · rfl
    · rfl
  unfold find?
  rw [hpart]
  rfl

theorem steady_resolve (h : s.Frames allowed formula) {name : String} (hname : name ≠ "formula") :
    Steady Settled (s.resolve name) ((s.withFormula formula).resolve name) := by
  rw [resolve, resolve, find?_withFormula hname]
  cases hv : s.find? name with
  | none => exact steady_fail Settled.hereditary reframed_linked ⟨h, rfl⟩ _
  | some v =>
    exact steady_ok (h.toFilled.find? Settled.hereditary (fun hformula => absurd hformula hname) hv)

/-- What is taken from settled formulas under a name that may be read is the same. -/
theorem steady_taken (h : s.Frames allowed formula) {name : String} (hname : allowed name) :
    Steady Settled (.ok (takenFrom true s.formula ((Entries.get? s.formula name).getD .null)))
      (.ok (takenFrom true formula ((Entries.get? formula name).getD .null))) := by
  have hv : ((Entries.get? s.formula name).getD .null).Settled :=
    Settled.hereditary.getD fun v hv => Entries.find?_of_parts h.formulas hv
  rw [h.agrees name hname, takenFrom, takenFrom, if_pos rfl, if_pos rfl, hv.unroll_eq,
    hv.unroll_eq]
  exact steady_ok hv

/-- A formula by its name, unless a variable hides the formulas. -/
theorem steady_resolve_formula (hs : s.Frames allowed formula) {name : String}
    (hname : allowed name) (f : Scope → Value → Except Failure Value)
    (hbound : ∀ v, v.Settled → Steady Settled (f s v) (f (s.withFormula formula) v))
    (hfound : ∀ (s : Scope) entries, f s (.mapping true entries) =
      .ok (takenFrom true entries ((Entries.get? entries name).getD .null))) :
    Steady Settled (s.resolve "formula" >>= f s)
      ((s.withFormula formula).resolve "formula" >>= f (s.withFormula formula)) := by
  cases hb : s.bindings.lookup "formula" with
  | some v =>
    have hv : v.Settled := by
      obtain ⟨before, after, hbindings, -⟩ := List.lookup_eq_some_iff.mp hb
      exact hs.bindings (_, v) (hbindings ▸ List.mem_append_right _ List.mem_cons_self)
    have hsame (formula : Entries) : (s.withFormula formula).resolve "formula" = .ok v := by
      rw [resolve, find?, show (s.withFormula formula).bindings = s.bindings from rfl, hb]
    rw [hsame, show s.resolve "formula" = .ok v from hsame s.formula]
    exact hbound v hv
  | none =>
    have hmapping (formula : Entries) : (s.withFormula formula).resolve "formula" >>=
        f (s.withFormula formula) =
          .ok (takenFrom true formula ((Entries.get? formula name).getD .null)) := by
      rw [resolve, find?, show (s.withFormula formula).bindings = s.bindings from rfl, hb]
      exact hfound (s.withFormula formula) formula
    have hs' := hmapping s.formula
    rw [show s.withFormula s.formula = s from rfl] at hs'
    rw [hs', hmapping]
    exact steady_taken hs hname

end Scope

/-! ## Expressions -/

namespace Expr

/-- The expression takes nothing from the mapping of formulas but members of certain names, those
behind a dot and those in brackets. -/
inductive ReadsOnly (byName byIndex : String → Prop) : Expr → Prop
  | literal (value : Literal) (raw : String) : ReadsOnly byName byIndex (.literal value raw)
  | name {n : String} : n ≠ "formula" → ReadsOnly byName byIndex (.name n)
  | formulaMember {n : String} : byName n →
      ReadsOnly byName byIndex (.member (.name "formula") n)
  | formulaIndex {n raw : String} : byIndex n →
      ReadsOnly byName byIndex (.index (.name "formula") (.literal (.string n) raw))
  | member {e : Expr} (n : String) : ReadsOnly byName byIndex e →
      ReadsOnly byName byIndex (.member e n)
  | index {e position : Expr} : ReadsOnly byName byIndex e → ReadsOnly byName byIndex position →
      ReadsOnly byName byIndex (.index e position)
  | binary (op : BinaryOperator) {left right : Expr} : ReadsOnly byName byIndex left →
      ReadsOnly byName byIndex right → ReadsOnly byName byIndex (.binary op left right)
  | unary (op : UnaryOperator) {e : Expr} : ReadsOnly byName byIndex e →
      ReadsOnly byName byIndex (.unary op e)
  | call (f : String) {args : List Expr} : (∀ a ∈ args, ReadsOnly byName byIndex a) →
      ReadsOnly byName byIndex (.call (.name f) args)
  | method {base : Expr} (m : String) {args : List Expr} : ReadsOnly byName byIndex base →
      (∀ a ∈ args, ReadsOnly byName byIndex a) →
      ReadsOnly byName byIndex (.call (.member base m) args)
  /-- What cannot be called is not evaluated. -/
  | notCallable {callee : Expr} {args : List Expr} : (∀ f, callee ≠ .name f) →
      (∀ base m, callee ≠ .member base m) → ReadsOnly byName byIndex (.call callee args)
  | list {es : List Expr} : (∀ e ∈ es, ReadsOnly byName byIndex e) →
      ReadsOnly byName byIndex (.list es)
  | object {ps : List (String × Expr)} : (∀ p ∈ ps, ReadsOnly byName byIndex p.2) →
      ReadsOnly byName byIndex (.object ps)

theorem ReadsOnly.mono {byName byName' byIndex byIndex' : String → Prop} {e : Expr}
    (h : e.ReadsOnly byName byIndex) (hname : ∀ n, byName n → byName' n)
    (hindex : ∀ n, byIndex n → byIndex' n) : e.ReadsOnly byName' byIndex' := by
  induction h with
  | literal value raw => exact .literal value raw
  | name hn => exact .name hn
  | formulaMember hn => exact .formulaMember (hname _ hn)
  | formulaIndex hn => exact .formulaIndex (hindex _ hn)
  | member n _ ih => exact .member n ih
  | index _ _ ih ihp => exact .index ih ihp
  | binary op _ _ ihl ihr => exact .binary op ihl ihr
  | unary op _ ih => exact .unary op ih
  | call f _ ih => exact .call f ih
  | method m _ _ ih ihs => exact .method m ih ihs
  | notCallable hf hm => exact .notCallable hf hm
  | list _ ih => exact .list ih
  | object _ ih => exact .object ih

/-- The expression is a name other than that of the formulas, or takes one of them by its name. -/
inductive ReadsByName (allowed : String → Prop) : Expr → Prop
  | name {n : String} : n ≠ "formula" → ReadsByName allowed (.name n)
  | member {n : String} : allowed n → ReadsByName allowed (.member (.name "formula") n)
  | index {n raw : String} : allowed n →
      ReadsByName allowed (.index (.name "formula") (.literal (.string n) raw))

theorem ReadsOnly.composed {allowed : String → Prop} {e : Expr} (h : e.ReadsOnly allowed allowed) :
    e.Composed (ReadsByName allowed) := by
  induction h with
  | literal value raw => exact .literal value raw
  | name hn => exact .reading (.name hn)
  | formulaMember hn => exact .reading (.member hn)
  | formulaIndex hn => exact .reading (.index hn)
  | member n _ ih => exact .member n ih
  | index _ _ ih ihp => exact .index ih ihp
  | binary op _ _ ihl ihr => exact .binary op ihl ihr
  | unary op _ ih => exact .unary op ih
  | call f _ ih => exact .call f ih
  | method m _ _ ih ihs => exact .method m ih ihs
  | notCallable hf hm => exact .notCallable hf hm
  | list _ ih => exact .list ih
  | object _ ih => exact .object ih

variable {allowed : String → Prop} {formula : Entries}

theorem ReadsByName.steady {e : Expr} (h : e.ReadsByName allowed) :
    e.Steady Settled (Scope.Reframed allowed formula) := by
  rintro s _ ⟨hs, rfl⟩
  have hbeside {f : Scope → Except Failure Value}
      (hf : ∀ s t : Scope, f (s.within t) = f s) (hgives : Gives Settled (f s)) :
      NoteQuery.Steady Settled (f s) (f (s.withFormula formula)) :=
    (Scope.reframed_linked.beside ⟨hs, rfl⟩).steady hf hgives
  cases h with
  | name hn =>
    simp only [eval]
    exact Scope.steady_resolve hs hn
  | @member n hn =>
    simp only [eval]
    exact Scope.steady_resolve_formula hs hn (fun s v => s.member v n)
      (fun v hv => hbeside (f := (·.member v n)) (fun _ _ => rfl)
        (Scope.gives_member Settled.hereditary hv n))
      fun _ _ => rfl
  | @index n raw hn =>
    simp only [eval]
    exact Scope.steady_resolve_formula hs hn (fun s v => s.element v (.string n))
      (fun v hv => hbeside (f := (·.element v (.string n))) (fun _ _ => rfl)
        (Scope.gives_element Settled.hereditary hv _))
      fun _ _ => rfl

/-- Two scopes that agree on the formulas that an expression may read give it the same outcome,
and a settled value if it has one. -/
theorem eval_steady {e : Expr} (h : e.ReadsOnly allowed allowed) :
    e.Steady Settled (Scope.Reframed allowed formula) :=
  h.composed.steady Settled.hereditary Scope.reframed_linked fun _ => ReadsByName.steady

end Expr

end NoteQuery
