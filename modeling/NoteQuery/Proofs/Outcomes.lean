/-
Computations that may fail.

A computation that has a value has one at each of its steps, on whatever level the step is computed;
one that failed did so at its first step that has no value.  These lemmas take such computations
apart, and put together of the steps in which ways the whole can fail.
-/
import NoteQuery.Query.Failure
import Mathlib.Data.List.Forall2

namespace NoteQuery

variable {α β ε : Type}

theorem bind_eq_ok {x : Except ε α} {f : α → Except ε β} {b : β} :
    (x >>= f) = .ok b ↔ ∃ a, x = .ok a ∧ f a = .ok b := by
  cases x with
  | error e => simp only [bind, Except.bind, reduceCtorEq, false_and, exists_false]
  | ok a => simp only [bind, Except.bind, Except.ok.injEq, exists_eq_left']

theorem bind_eq_error {x : Except ε α} {f : α → Except ε β} {e : ε} :
    (x >>= f) = .error e ↔ x = .error e ∨ ∃ a, x = .ok a ∧ f a = .error e := by
  cases x with
  | error e =>
    simp only [bind, Except.bind, Except.error.injEq, reduceCtorEq, false_and, exists_false,
      or_false]
  | ok a => simp only [bind, Except.bind, Except.ok.injEq, exists_eq_left', reduceCtorEq, false_or]

/-- What cannot fail in this way does not matter for the failure. -/
theorem bind_eq_error_left {x : Except ε α} {f : α → Except ε β} {e : ε}
    (h : ∀ a, f a ≠ .error e) : (x >>= f) = .error e ↔ x = .error e := by
  rw [bind_eq_error]
  refine or_iff_left ?_
  rintro ⟨a, -, ha⟩
  exact h a ha

theorem bind_return_eq_error {x : Except ε α} {g : α → β} {e : ε} :
    (do return g (← x) : Except ε β) = .error e ↔ x = .error e := by
  refine bind_eq_error_left fun a h => ?_
  cases h

theorem map_eq_ok {x : Except ε α} {f : α → β} {b : β} :
    x.map f = .ok b ↔ ∃ a, x = .ok a ∧ f a = b := by
  cases x with
  | error e => simp only [Except.map, reduceCtorEq, false_and, exists_false]
  | ok a => simp only [Except.map, Except.ok.injEq, exists_eq_left']

theorem toOption_eq_some {x : Except ε α} {a : α} : x.toOption = some a ↔ x = .ok a := by
  cases x with
  | error e => exact ⟨nofun, nofun⟩
  | ok b => exact ⟨fun h => congrArg Except.ok (Option.some.inj h), fun h => h ▸ rfl⟩

theorem mapError_eq_ok {δ : Type} {g : δ → ε} {x : Except δ α} {a : α} :
    x.mapError g = .ok a ↔ x = .ok a := by
  cases x with
  | error e => exact ⟨nofun, nofun⟩
  | ok b => exact ⟨fun h => congrArg Except.ok (Except.ok.inj h), fun h => h ▸ rfl⟩

theorem Failure.ofFault_eq_ok {x : Except Fault α} {a : α} :
    Failure.ofFault x = .ok a ↔ x = .ok a := by
  cases x with
  | error e => simp only [Failure.ofFault, reduceCtorEq]
  | ok b => simp only [Failure.ofFault, Except.ok.injEq]

theorem map_eq_error {x : Except ε α} {f : α → β} {e : ε} : x.map f = .error e ↔ x = .error e := by
  cases x with
  | error e' => simp only [Except.map, Except.error.injEq]
  | ok a => simp only [Except.map, reduceCtorEq]

theorem mapError_eq_error {δ : Type} {g : δ → ε} {x : Except δ α} {e : ε} :
    x.mapError g = .error e ↔ ∃ d, x = .error d ∧ g d = e := by
  cases x with
  | error d =>
    have herror : (Except.error d : Except δ α).mapError g = .error (g d) := rfl
    simp only [herror, Except.error.injEq, exists_eq_left']
  | ok a => exact ⟨nofun, nofun⟩

theorem Failure.ofFault_eq_fault {x : Except Fault α} {f : Fault} :
    Failure.ofFault x = .error (.fault f) ↔ x = .error f := by
  cases x with
  | error g => simp only [Failure.ofFault, Except.error.injEq, Failure.fault.injEq]
  | ok a => simp only [Failure.ofFault, reduceCtorEq]

/-- What a test of the failure shows. -/
theorem eq_error_of_test [DecidableEq ε] {x : Except ε α} {e : ε}
    (h : (match x with
      | .error d => decide (d = e)
      | .ok _ => false) = true) : x = .error e := by
  cases x with
  | ok a => cases h
  | error d => rw [of_decide_eq_true h]

/-- Where every test has an outcome, one that succeeds makes that of all succeed. -/
theorem anyM_eq_true {p : α → Except ε Bool} {as : List α} {a : α}
    (hall : ∀ a ∈ as, ∃ b, p a = .ok b) (ha : a ∈ as) (h : p a = .ok true) :
    as.anyM p = .ok true := by
  induction as with
  | nil => cases ha
  | cons first as ih =>
    obtain ⟨⟨b, hb⟩, hall⟩ := List.forall_mem_cons.mp hall
    rw [List.anyM, hb]
    cases b with
    | true => rfl
    | false =>
      rcases List.mem_cons.mp ha with rfl | ha
      · cases hb.symm.trans h
      · exact ih hall ha

/-- What is computed for each element is what is computed for it. -/
theorem mapM_eq_ok {f : α → Except ε β} {as : List α} {bs : List β} :
    as.mapM f = .ok bs ↔ List.Forall₂ (fun a b => f a = .ok b) as bs := by
  induction as generalizing bs with
  | nil => exact ⟨fun h => Except.ok.inj h ▸ .nil, fun h => by cases h; rfl⟩
  | cons a as ih =>
    rw [List.mapM_cons, bind_eq_ok]
    constructor
    · rintro ⟨b, hb, h⟩
      obtain ⟨bs', hbs', h⟩ := bind_eq_ok.mp h
      cases h
      exact .cons hb (ih.mp hbs')
    · rintro (_ | ⟨hb, hbs⟩)
      exact ⟨_, hb, bind_eq_ok.mpr ⟨_, ih.mpr hbs, rfl⟩⟩

/-- A computation for each element has a value where it has one for every element. -/
theorem exists_mapM_eq_ok {f : α → Except ε β} {as : List α} :
    (∃ bs, as.mapM f = .ok bs) ↔ ∀ a ∈ as, ∃ b, f a = .ok b := by
  induction as with
  | nil => exact ⟨fun _ => List.forall_mem_nil _, fun _ => ⟨[], rfl⟩⟩
  | cons a as ih =>
    rw [List.forall_mem_cons, ← ih, List.mapM_cons]
    constructor
    · rintro ⟨bs, h⟩
      obtain ⟨b, hb, h⟩ := bind_eq_ok.mp h
      obtain ⟨bs', hbs', -⟩ := bind_eq_ok.mp h
      exact ⟨⟨b, hb⟩, bs', hbs'⟩
    · rintro ⟨⟨b, hb⟩, bs, hbs⟩
      exact ⟨b :: bs, bind_eq_ok.mpr ⟨b, hb, bind_eq_ok.mpr ⟨bs, hbs, rfl⟩⟩⟩

/-- What a computation for each element gives, it gives for one of them. -/
theorem exists_of_mem_mapM {f : α → Except ε β} {as : List α} {bs : List β} {b : β}
    (h : as.mapM f = .ok bs) (hb : b ∈ bs) : ∃ a ∈ as, f a = .ok b := by
  induction as generalizing bs with
  | nil =>
    cases h
    cases hb
  | cons a as ih =>
    rw [List.mapM_cons] at h
    obtain ⟨b', hb', h⟩ := bind_eq_ok.mp h
    obtain ⟨bs', hbs', h⟩ := bind_eq_ok.mp h
    cases h
    rcases List.mem_cons.mp hb with rfl | hb
    · exact ⟨a, List.mem_cons_self, hb'⟩
    · obtain ⟨c, hc, hfc⟩ := ih hbs' hb
      exact ⟨c, List.mem_cons_of_mem a hc, hfc⟩

/-- A check of each element passes where each element does. -/
theorem forM_eq_ok {f : α → Except ε Unit} {as : List α} :
    as.forM f = .ok () ↔ ∀ a ∈ as, f a = .ok () := by
  induction as with
  | nil => exact ⟨fun _ => List.forall_mem_nil _, fun _ => rfl⟩
  | cons a as ih =>
    rw [List.forM, List.forall_mem_cons, ← ih, bind_eq_ok]
    exact ⟨fun ⟨_, ha, h⟩ => ⟨ha, h⟩, fun ⟨ha, h⟩ => ⟨_, ha, h⟩⟩

/-- A computation for each element fails with the first element for which it fails. -/
theorem mapM_eq_error {f : α → Except ε β} {as : List α} {e : ε} :
    as.mapM f = .error e ↔ ∃ before a after, as = before ++ a :: after ∧
      (∀ b ∈ before, ∃ c, f b = .ok c) ∧ f a = .error e := by
  induction as with
  | nil =>
    refine ⟨nofun, ?_⟩
    rintro ⟨before, a, after, has, -⟩
    exact absurd has.symm (List.append_ne_nil_of_right_ne_nil _ (List.cons_ne_nil a after))
  | cons a as ih =>
    rw [List.mapM_cons, bind_eq_error]
    constructor
    · rintro (h | ⟨b, hb, h⟩)
      · exact ⟨[], a, as, rfl, List.forall_mem_nil _, h⟩
      · rcases bind_eq_error.mp h with h | ⟨bs, -, h⟩
        · obtain ⟨before, a', after, rfl, hbefore, ha'⟩ := ih.mp h
          exact ⟨a :: before, a', after, rfl, List.forall_mem_cons.mpr ⟨⟨b, hb⟩, hbefore⟩, ha'⟩
        · cases h
    · rintro ⟨before, a', after, has, hbefore, ha'⟩
      cases before with
      | nil =>
        cases has
        exact .inl ha'
      | cons c before =>
        cases has
        obtain ⟨⟨b, hb⟩, hbefore⟩ := List.forall_mem_cons.mp hbefore
        refine .inr ⟨b, hb, bind_eq_error.mpr (.inl ?_)⟩
        exact ih.mpr ⟨before, a', after, rfl, hbefore, ha'⟩

/-- A computation for each element fails where it fails for one of them. -/
theorem exists_mapM_eq_error {f : α → Except ε β} {as : List α} :
    (∃ e, as.mapM f = .error e) ↔ ∃ a ∈ as, ∃ e, f a = .error e := by
  constructor
  · rintro ⟨e, he⟩
    obtain ⟨before, a, after, rfl, -, ha⟩ := mapM_eq_error.mp he
    exact ⟨a, List.mem_append_right before List.mem_cons_self, e, ha⟩
  · rintro ⟨a, ha, e, he⟩
    cases h : as.mapM f with
    | error e' => exact ⟨e', rfl⟩
    | ok bs =>
      obtain ⟨b, hb⟩ := exists_mapM_eq_ok.mp ⟨bs, h⟩ a ha
      rw [he] at hb
      cases hb

/-- Where all elements fail alike, it does not matter which is the first to fail. -/
theorem mapM_eq_error_alike {f : α → Except ε β} {P : α → Prop} {e₀ : ε}
    (hf : ∀ a e, f a = .error e ↔ P a ∧ e = e₀) {as : List α} {e : ε} :
    as.mapM f = .error e ↔ (∃ a ∈ as, P a) ∧ e = e₀ := by
  constructor
  · intro h
    obtain ⟨before, a, after, rfl, -, ha⟩ := mapM_eq_error.mp h
    obtain ⟨ha, he⟩ := (hf a e).mp ha
    exact ⟨⟨a, List.mem_append_right before List.mem_cons_self, ha⟩, he⟩
  · rintro ⟨⟨a, hmem, ha⟩, rfl⟩
    cases h : as.mapM f with
    | ok bs =>
      obtain ⟨b, hb⟩ := exists_mapM_eq_ok.mp ⟨bs, h⟩ a hmem
      cases hb.symm.trans ((hf a e).mpr ⟨ha, rfl⟩)
    | error e' =>
      obtain ⟨before, a', after, -, -, ha'⟩ := mapM_eq_error.mp h
      rw [((hf a' e').mp ha').2]

/-- A check of each element is a computation for each of which nothing is kept. -/
theorem forM_eq_mapM (f : α → Except ε Unit) (as : List α) :
    as.forM f = (as.mapM f).map fun _ => () := by
  induction as with
  | nil => rfl
  | cons a as ih =>
    rw [List.forM, ih, List.mapM_cons]
    cases f a with
    | error e => rfl
    | ok _ => cases as.mapM f <;> rfl

/-- A fold fails with the first element at which its step fails. -/
theorem foldlM_eq_error {f : β → α → Except ε β} {as : List α} {b : β} {e : ε} :
    as.foldlM f b = .error e ↔ ∃ before a after c, as = before ++ a :: after ∧
      before.foldlM f b = .ok c ∧ f c a = .error e := by
  induction as generalizing b with
  | nil =>
    refine ⟨nofun, ?_⟩
    rintro ⟨before, a, after, c, has, -⟩
    exact absurd has.symm (List.append_ne_nil_of_right_ne_nil _ (List.cons_ne_nil a after))
  | cons a as ih =>
    rw [List.foldlM_cons, bind_eq_error]
    constructor
    · rintro (h | ⟨b', hb', h⟩)
      · exact ⟨[], a, as, b, rfl, rfl, h⟩
      · obtain ⟨before, a', after, c, rfl, hc, ha'⟩ := ih.mp h
        refine ⟨a :: before, a', after, c, rfl, ?_, ha'⟩
        rw [List.foldlM_cons]
        exact bind_eq_ok.mpr ⟨b', hb', hc⟩
    · rintro ⟨before, a', after, c, has, hc, ha'⟩
      cases before with
      | nil =>
        cases has
        cases hc
        exact .inl ha'
      | cons d before =>
        cases has
        rw [List.foldlM_cons] at hc
        obtain ⟨b', hb', hc⟩ := bind_eq_ok.mp hc
        exact .inr ⟨b', hb', ih.mpr ⟨before, a', after, c, rfl, hc, ha'⟩⟩

/-! ## Kinds of failure -/

/-- The computation has a value, or fails in a way that `P` admits. -/
def FailsOnly (P : ε → Prop) (x : Except ε α) : Prop :=
  ∀ e, x = .error e → P e

section FailsOnly

variable {P : ε → Prop}

theorem failsOnly_ok (a : α) : FailsOnly P (.ok a : Except ε α) :=
  fun _ h => nomatch h

theorem failsOnly_error {e : ε} (h : P e) : FailsOnly P (.error e : Except ε α) :=
  fun _ he => Except.error.inj he ▸ h

theorem FailsOnly.mono {Q : ε → Prop} {x : Except ε α} (h : FailsOnly P x)
    (hPQ : ∀ e, P e → Q e) : FailsOnly Q x :=
  fun e he => hPQ e (h e he)

/-- The next step need only be looked at for the values that there can be. -/
theorem failsOnly_bind_of_ok {x : Except ε α} {f : α → Except ε β} (hx : FailsOnly P x)
    (hf : ∀ a, x = .ok a → FailsOnly P (f a)) : FailsOnly P (x >>= f) := by
  intro e he
  rcases bind_eq_error.mp he with he | ⟨a, ha, he⟩
  · exact hx e he
  · exact hf a ha e he

theorem failsOnly_bind {x : Except ε α} {f : α → Except ε β} (hx : FailsOnly P x)
    (hf : ∀ a, FailsOnly P (f a)) : FailsOnly P (x >>= f) :=
  failsOnly_bind_of_ok hx fun a _ => hf a

theorem failsOnly_mapError {δ : Type} {g : δ → ε} {x : Except δ α}
    (h : FailsOnly (fun d => P (g d)) x) : FailsOnly P (x.mapError g) := by
  intro e he
  obtain ⟨d, hd, rfl⟩ := mapError_eq_error.mp he
  exact h d hd

theorem failsOnly_map {x : Except ε α} {f : α → β} (hx : FailsOnly P x) : FailsOnly P (x.map f) :=
  fun e he => hx e (map_eq_error.mp he)

theorem failsOnly_mapM {f : α → Except ε β} {as : List α} (hf : ∀ a ∈ as, FailsOnly P (f a)) :
    FailsOnly P (as.mapM f) := by
  intro e he
  obtain ⟨before, a, after, rfl, -, ha⟩ := mapM_eq_error.mp he
  exact hf a (List.mem_append_right before List.mem_cons_self) e ha

theorem failsOnly_forM {f : α → Except ε Unit} {as : List α} (hf : ∀ a ∈ as, FailsOnly P (f a)) :
    FailsOnly P (as.forM f) := by
  induction as with
  | nil => exact failsOnly_ok _
  | cons a as ih =>
    obtain ⟨ha, has⟩ := List.forall_mem_cons.mp hf
    rw [List.forM]
    exact failsOnly_bind ha fun _ => ih has

theorem failsOnly_foldlM {f : β → α → Except ε β} {as : List α} {b : β}
    (hf : ∀ b, ∀ a ∈ as, FailsOnly P (f b a)) : FailsOnly P (as.foldlM f b) := by
  intro e he
  obtain ⟨before, a, after, c, rfl, -, ha⟩ := foldlM_eq_error.mp he
  exact hf c a (List.mem_append_right before List.mem_cons_self) e ha

end FailsOnly

/-- The failure is a fault that escaped, and no error of an expression. -/
def Failure.IsFault (failure : Failure) : Prop :=
  ∃ f, failure = .fault f

theorem failsOnly_ofFault {α : Type} (x : Except Fault α) :
    FailsOnly Failure.IsFault (Failure.ofFault x) := by
  cases x with
  | ok a => exact failsOnly_ok a
  | error f => exact failsOnly_error ⟨f, rfl⟩

end NoteQuery
