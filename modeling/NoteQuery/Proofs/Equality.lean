/-
Equality from either side, and from structural keys.

What decides whether two values are equal goes by their kinds: points in time, paths, durations,
numbers, structural keys, items, or else the way the values are written (`decided`).  Each of these
looks at both sides alike, so equality is symmetric, down to whether it has an answer at all
(`equals_symmetric`).  Values with one structural key are of one kind, and where that kind tells
them apart by their key or by something that the key shows in full, they are equal
(`equals_of_same_key`).  Numbers that are no integers are left out there: the key of `NaN` is that
of `NaN`, which does not equal itself.  Neither does an object whose key cannot be written.
-/
import NoteQuery.Proofs.Comparability
import NoteQuery.Proofs.StructuralKeys

namespace NoteQuery

/-! ## Outcomes that agree -/

/-- The outcomes are one value, or none is a value. -/
def SameOutcome {α ε : Type} (x y : Except ε α) : Prop :=
  ∀ a, x = .ok a ↔ y = .ok a

section SameOutcome

variable {α β ε : Type} {x y : Except ε α}

theorem SameOutcome.refl (x : Except ε α) : SameOutcome x x :=
  fun _ => Iff.rfl

theorem SameOutcome.bind {f g : α → Except ε β} (h : SameOutcome x y)
    (hfg : ∀ a, SameOutcome (f a) (g a)) : SameOutcome (x >>= f) (y >>= g) := by
  intro b
  simp only [bind_eq_ok, h _, hfg _ b]

theorem SameOutcome.ofFault {x y : Except Fault α} (h : SameOutcome x y) :
    SameOutcome (Failure.ofFault x) (Failure.ofFault y) := by
  intro a
  rw [Failure.ofFault_eq_ok, Failure.ofFault_eq_ok]
  exact h a

/-- It does not matter which of two operands is computed first. -/
theorem sameOutcome_swap {f g : α → α → β} (h : ∀ a b, f a b = g b a) :
    SameOutcome (do return f (← x) (← y)) (do return g (← y) (← x)) := by
  intro c
  simp only [bind_eq_ok, h]
  constructor
  · rintro ⟨a, ha, b, hb, hc⟩
    exact ⟨b, hb, a, ha, hc⟩
  · rintro ⟨b, hb, a, ha, hc⟩
    exact ⟨a, ha, b, hb, hc⟩

theorem SameOutcome.cases (h : SameOutcome x y) :
    (∃ a, x = .ok a ∧ y = .ok a) ∨ ∃ e f, x = .error e ∧ y = .error f := by
  cases hx : x with
  | ok a => exact .inl ⟨a, rfl, (h a).mp hx⟩
  | error e =>
    cases hy : y with
    | ok b => cases hx.symm.trans ((h b).mpr hy)
    | error f => exact .inr ⟨e, f, rfl, rfl⟩

end SameOutcome

theorem Number.same_comm (m n : Number) : m.same n = n.same m := by
  rw [same, same, compare?_swap m n]
  cases m.compare? n with
  | none => rfl
  | some o => cases o <;> rfl

namespace Value

variable {strict : Bool} {v w : Value}

/-! ## What decides -/

/-- The values are told apart by how they are written. -/
structure Written (v w : Value) : Prop where
  moments : v.moment? = none ∨ w.moment? = none
  paths : v.comparablePath? = none ∨ w.comparablePath? = none
  durations : v.kind ≠ .duration ∨ w.kind ≠ .duration
  numbers : v.kind ≠ .number ∧ w.kind ≠ .number
  objects : v.kind ≠ .object ∨ w.kind ≠ .object
  lists : NotLists v w

theorem NotLists.symm (h : NotLists v w) : NotLists w v :=
  fun items others hw hv => h others items hv hw

theorem notLists_of_kind (h : v.kind ≠ .list ∨ w.kind ≠ .list) : NotLists v w := by
  rintro items others rfl rfl
  rcases h with h | h <;> exact h rfl

theorem Written.symm (h : Written v w) : Written w v where
  moments := h.moments.symm
  paths := h.paths.symm
  durations := h.durations.symm
  numbers := h.numbers.symm
  objects := h.objects.symm
  lists := h.lists.symm

/-- What decides whether two values are equal. -/
inductive Decided : Value → Value → Prop
  | moments {v w : Value} {t u : Timestamp} : v.moment? = some t → w.moment? = some u → Decided v w
  | paths {v w : Value} {p q : String} : v.comparablePath? = some p →
      w.comparablePath? = some q → Decided v w
  | durations (d e : Duration) : Decided (.duration d) (.duration e)
  | numbers {v w : Value} : v.kind = .number ∨ w.kind = .number → Decided v w
  | objects {v w : Value} : v.kind = .object → w.kind = .object → Decided v w
  | items (vs ws : List Value) : Decided (.list vs) (.list ws)
  | written {v w : Value} : Written v w → Decided v w

theorem decided (v w : Value) : Decided v w := by
  by_cases hmoments : v.moment? = none ∨ w.moment? = none
  swap
  · obtain ⟨hv, hw⟩ := not_or.mp hmoments
    obtain ⟨t, ht⟩ := Option.ne_none_iff_exists'.mp hv
    obtain ⟨u, hu⟩ := Option.ne_none_iff_exists'.mp hw
    exact .moments ht hu
  by_cases hpaths : v.comparablePath? = none ∨ w.comparablePath? = none
  swap
  · obtain ⟨hv, hw⟩ := not_or.mp hpaths
    obtain ⟨p, hp⟩ := Option.ne_none_iff_exists'.mp hv
    obtain ⟨q, hq⟩ := Option.ne_none_iff_exists'.mp hw
    exact .paths hp hq
  by_cases hdurations : v.kind = .duration ∧ w.kind = .duration
  · obtain ⟨d, rfl⟩ := eq_duration_of_kind hdurations.1
    obtain ⟨e, rfl⟩ := eq_duration_of_kind hdurations.2
    exact .durations d e
  by_cases hnumbers : v.kind = .number ∨ w.kind = .number
  · exact .numbers hnumbers
  by_cases hobjects : v.kind = .object ∧ w.kind = .object
  · exact .objects hobjects.1 hobjects.2
  by_cases hlists : NotLists v w
  · exact .written ⟨hmoments, hpaths, not_and_or.mp hdurations, not_or.mp hnumbers,
      not_and_or.mp hobjects, hlists⟩
  · simp only [NotLists, ne_eq, not_forall, not_not, exists_prop] at hlists
    obtain ⟨items, others, rfl, rfl⟩ := hlists
    exact .items items others

/-! ## How it decides -/

theorem equals_of_moments {t u : Timestamp} (ht : v.moment? = some t) (hu : w.moment? = some u) :
    v.equals strict w = Failure.ofFault (do return (← t.epochMillis) == (← u.epochMillis)) := by
  rw [equals_of_notLists (notLists_of_kind (.inl (kind_of_moment ht ▸ nofun)))]
  simp only [equalParts, ht, hu]

theorem equals_of_paths {p q : String} (hp : v.comparablePath? = some p)
    (hq : w.comparablePath? = some q) : v.equals strict w = .ok (p == q) := by
  cases v with
  | string | link | file =>
    rw [equals_of_notLists]
    · simp only [equalParts, moment?, hp, hq]
    · exact notLists_of_kind (.inl nofun)
  | _ => cases hp

theorem equals_durations (d e : Duration) : (duration d).equals strict (duration e) =
    Failure.ofFault (do return (← d.toMillis).same (← e.toMillis)) := by
  rw [equals_of_notLists]
  · rfl
  · exact notLists_of_kind (.inl nofun)

theorem equals_of_numbers (h : v.kind = .number ∨ w.kind = .number) :
    v.equals strict w = (do return (← v.toNumber strict).same (← w.toNumber strict)) := by
  have hlists : NotLists v w := by
    rintro items others rfl rfl
    rcases h with h | h <;> cases h
  rw [equals_of_notLists hlists]
  unfold equalParts
  split
  · next ht hu =>
    rw [kind_of_moment ht, kind_of_moment hu] at h
    rcases h with h | h <;> cases h
  · split
    · next hp hq =>
      exact absurd h (not_or.mpr ⟨(kind_of_path hp).2.1, (kind_of_path hq).2.1⟩)
    · split
      · rcases h with h | h <;> cases h
      · rw [if_pos h]

theorem equals_of_objects (hv : v.kind = .object) (hw : w.kind = .object) :
    v.equals strict w = Failure.ofFault (do return (← v.stableKey) == (← w.stableKey)) := by
  cases v with
  | mapping | set | bytes | cycle =>
    rw [equals_of_notLists]
    · simp only [equalParts, moment?, comparablePath?, hw]
      rfl
    · exact notLists_of_kind (.inl nofun)
  | _ => cases hv

theorem equals_lists (vs ws : List Value) : (list vs).equals strict (list ws) =
    if vs.length = ws.length then equalItems strict vs ws else .ok false := by
  rw [equals]

theorem Written.equals_eq (h : Written v w) : v.equals strict w = .ok (plainlyEqual v w) := by
  rw [equals_of_notLists h.lists]
  unfold equalParts
  split
  · next ht hu =>
    rcases h.moments with hnone | hnone
    · cases ht.symm.trans hnone
    · cases hu.symm.trans hnone
  · split
    · next hp hq =>
      rcases h.paths with hnone | hnone
      · cases hp.symm.trans hnone
      · cases hq.symm.trans hnone
    · split
      · rcases h.durations with hkind | hkind <;> exact absurd rfl hkind
      · rw [if_neg (not_or.mpr h.numbers), if_neg (not_and_or.mpr h.objects)]

/-! ## Symmetry -/

theorem plainlyEqual_comm (v w : Value) : plainlyEqual v w = plainlyEqual w v := by
  cases v with
  | bool a =>
    cases w with
    | bool b => exact Bool.beq_comm
    | _ => rfl
  | pattern p =>
    cases w with
    | pattern q =>
      rw [plainlyEqual, plainlyEqual, Bool.beq_comm (a := p.body), Bool.beq_comm (a := p.flags)]
    | _ => rfl
  | html s =>
    cases w with
    | html t => exact Bool.beq_comm
    | _ => rfl
  | image s =>
    cases w with
    | image t => exact Bool.beq_comm
    | _ => rfl
  | icon s =>
    cases w with
    | icon t => exact Bool.beq_comm
    | _ => rfl
  | _ => cases w <;> rfl

/-- Items are compared in the same places from either side, so a pair without an answer or a pair
that is unequal comes first for both. -/
theorem sameOutcome_equalItems {vs : List Value}
    (h : ∀ v ∈ vs, ∀ w, SameOutcome (v.equals strict w) (w.equals strict v)) (ws : List Value) :
    SameOutcome (equalItems strict vs ws) (equalItems strict ws vs) := by
  induction vs generalizing ws with
  | nil => cases ws <;> exact .refl _
  | cons v vs ih =>
    cases ws with
    | nil => exact .refl _
    | cons w ws =>
      obtain ⟨hv, hvs⟩ := List.forall_mem_cons.mp h
      rw [equalItems, equalItems]
      refine (hv w).bind fun same => ?_
      cases same with
      | false => exact .refl _
      | true => exact ih hvs ws

theorem sameOutcome_equals (v w : Value) :
    SameOutcome (v.equals strict w) (w.equals strict v) := by
  cases decided v w with
  | moments ht hu =>
    rw [equals_of_moments ht hu, equals_of_moments hu ht]
    exact (sameOutcome_swap fun _ _ => Bool.beq_comm).ofFault
  | paths hp hq =>
    rw [equals_of_paths hp hq, equals_of_paths hq hp, Bool.beq_comm]
    exact .refl _
  | durations d e =>
    rw [equals_durations, equals_durations]
    exact (sameOutcome_swap Number.same_comm).ofFault
  | numbers h =>
    rw [equals_of_numbers h, equals_of_numbers h.symm]
    exact sameOutcome_swap Number.same_comm
  | objects hv hw =>
    rw [equals_of_objects hv hw, equals_of_objects hw hv]
    exact (sameOutcome_swap fun _ _ => Bool.beq_comm).ofFault
  | items vs ws =>
    rw [equals_lists, equals_lists]
    by_cases hlength : vs.length = ws.length
    · rw [if_pos hlength, if_pos hlength.symm]
      exact sameOutcome_equalItems (fun x hx y => sameOutcome_equals x y) ws
    · rw [if_neg hlength, if_neg (Ne.symm hlength)]
      exact .refl _
  | written h =>
    rw [h.equals_eq, h.symm.equals_eq, plainlyEqual_comm]
    exact .refl _
termination_by sizeOf v
decreasing_by
  have := List.sizeOf_lt_of_mem hx
  rw [list.sizeOf_spec]
  omega

/-- Two values are equal or not whichever of them is asked, or neither side has an answer. -/
theorem equals_symmetric (strict : Bool) (v w : Value) :
    (∃ same, v.equals strict w = .ok same ∧ w.equals strict v = .ok same) ∨
      ∃ e f, v.equals strict w = .error e ∧ w.equals strict v = .error f :=
  (sameOutcome_equals v w).cases

/-! ## Exact values -/

/-- The value is told by its structural key: its numbers and the amounts of its durations are
integers, the flags of its patterns cannot be taken for a part of the body, its points in time have
epoch milliseconds, and it does not contain itself. -/
inductive Exact : Value → Prop
  | shown {v : Value} {s : String} : v.shown? = some s → v.kind ≠ .number → v.kind ≠ .regexp →
      Exact v
  | int (n : Int) : Exact (.int n)
  | pattern {p : Pattern} : '/' ∉ p.flags.toList → Exact (.pattern p)
  | moment {v : Value} {t : Timestamp} {millis : Int} : v.moment? = some t →
      t.epochMillis = .ok millis → Exact v
  | duration {d : Duration} : (∀ p ∈ d.parts, ∃ n, p.amount = .int n) → Exact (.duration d)
  | list {vs : List Value} : (∀ v ∈ vs, Exact v) → Exact (.list vs)
  | mapping {live : Bool} {es : Entries} : (∀ e ∈ es, Exact e.2) → Exact (.mapping live es)
  | set {items : List Value} : (Value.set items).display ≠ .error .selfContaining →
      Exact (.set items)

theorem Exact.int_of_number {n : Number} (h : Exact (.number n)) : ∃ m, n = .int m := by
  cases h with
  | shown _ hnumber _ => exact absurd rfl hnumber
  | int m => exact ⟨m, rfl⟩
  | moment ht _ => cases ht

theorem Exact.flags {p : Pattern} (h : Exact (.pattern p)) : '/' ∉ p.flags.toList := by
  cases h with
  | shown _ _ hpattern => exact absurd rfl hpattern
  | pattern hp => exact hp
  | moment ht _ => cases ht

theorem Exact.amounts {d : Duration} (h : Exact (.duration d)) :
    ∀ p ∈ d.parts, ∃ n, p.amount = .int n := by
  cases h with
  | shown hs _ _ => cases hs
  | moment ht _ => cases ht
  | duration hd => exact hd

theorem Exact.items {vs : List Value} (h : Exact (.list vs)) : ∀ v ∈ vs, Exact v := by
  cases h with
  | shown hs _ _ => cases hs
  | moment ht _ => cases ht
  | list hvs => exact hvs

theorem Exact.entries {live : Bool} {es : Entries} (h : Exact (.mapping live es)) :
    ∀ e ∈ es, Exact e.2 := by
  cases h with
  | shown hs _ _ => cases hs
  | moment ht _ => cases ht
  | mapping hes => exact hes

theorem Exact.epochMillis {t : Timestamp} (h : Exact v) (ht : v.moment? = some t) :
    ∃ millis, t.epochMillis = .ok millis := by
  cases h with
  | shown hs _ _ =>
    obtain ⟨-, hdate, -, -⟩ := shown_shape hs
    exact absurd (kind_of_moment ht) hdate
  | moment hu hmillis =>
    obtain rfl := Option.some.inj (hu.symm.trans ht)
    exact ⟨_, hmillis⟩
  | int | pattern | duration | list | mapping | set => cases ht

end Value

theorem Number.same_int (n : Int) : (Number.int n).same (.int n) = true := by
  simp [same, compare?]

theorem Number.int_of_display {m n : Int} (h : (Number.int m).display = (Number.int n).display) :
    m = n :=
  integerText_inj (String.ofList_injective h)

/-- Integers have an integer for their sum. -/
theorem Number.exists_sum_int {ns : List Number} (h : ∀ n ∈ ns, ∃ m, n = .int m) :
    ∃ m, Number.sum ns = .ok (.int m) := by
  have hfold (total : Int) : ∃ m, ns.foldlM add (.int total) = .ok (.int m) := by
    induction ns generalizing total with
    | nil => exact ⟨total, rfl⟩
    | cons n ns ih =>
      obtain ⟨⟨m, rfl⟩, hns⟩ := List.forall_mem_cons.mp h
      exact ih hns (total + m)
  exact hfold 0

theorem Duration.exists_toMillis_int {d : Duration} (h : ∀ p ∈ d.parts, ∃ n, p.amount = .int n) :
    ∃ m, d.toMillis = .ok (.int m) := by
  rw [toMillis_eq]
  refine Number.exists_sum_int (List.forall_mem_map.mpr fun p hp => ?_)
  obtain ⟨n, hn⟩ := h p hp
  exact ⟨p.unit.millis * n, by rw [DurationPart.length, hn]⟩

/-- Without a slash in the flags, the last slash stands behind the body. -/
theorem Pattern.eq_of_display {p q : Pattern} (hp : '/' ∉ p.flags.toList)
    (hq : '/' ∉ q.flags.toList) (h : p.display = q.display) :
    p.body = q.body ∧ p.flags = q.flags := by
  have hsplit {b c f g after : List Char} (hf : '/' ∉ f) (hc : c = b ++ after)
      (hrest : '/' :: f = after ++ '/' :: g) : b = c ∧ f = g := by
    cases after with
    | nil => exact ⟨by rw [hc, List.append_nil], (List.cons.inj hrest).2⟩
    | cons x after =>
      obtain ⟨-, rfl⟩ := List.cons.inj hrest
      exact absurd (List.mem_append_right after List.mem_cons_self) hf
  have hlists :
      p.body.toList ++ '/' :: p.flags.toList = q.body.toList ++ '/' :: q.flags.toList := by
    have hshown := congrArg String.toList h
    simp only [display, String.toList_append, List.append_assoc] at hshown
    exact List.append_cancel_left hshown
  rcases List.append_eq_append_iff.mp hlists with ⟨after, hbody, hflags⟩ | ⟨after, hbody, hflags⟩
  · obtain ⟨hb, hf⟩ := hsplit hp hbody hflags
    exact ⟨String.toList_injective hb, String.toList_injective hf⟩
  · obtain ⟨hb, hf⟩ := hsplit hq hbody hflags
    exact ⟨(String.toList_injective hb).symm, (String.toList_injective hf).symm⟩

/-- The flags of a pattern that was read are letters. -/
theorem Pattern.slash_not_mem_flags {body flags : String} {p : Pattern}
    (h : Pattern.create body flags = .ok p) : '/' ∉ p.flags.toList := by
  unfold Pattern.create at h
  split at h
  · cases h
  · next hknown =>
    obtain ⟨parts, -, rfl⟩ := map_eq_ok.mp h
    intro hslash
    rw [List.find?_eq_none] at hknown
    exact absurd (hknown '/' hslash) (by decide)

namespace Value

variable {strict : Bool} {v w : Value}

/-! ## Equality without an error -/

theorem Exact.exists_toNumber (h : Exact v) : ∃ n, v.toNumber false = .ok n := by
  by_cases hdate : v.kind = .date
  · obtain ⟨t, ht⟩ := exists_moment_of_kind hdate
    obtain ⟨millis, hmillis⟩ := h.epochMillis ht
    exact ⟨.int millis, by rw [toNumber_moment ht, hmillis]; rfl⟩
  · cases v with
    | date | timestamp => exact absurd rfl hdate
    | duration d =>
      obtain ⟨m, hm⟩ := Duration.exists_toMillis_int h.amounts
      exact ⟨.int m, by rw [toNumber, hm]; rfl⟩
    | string s =>
      rw [toNumber]
      split
      · exact ⟨_, rfl⟩
      · exact ⟨_, rfl⟩
    | _ => exact ⟨_, rfl⟩

theorem exists_equalItems {vs : List Value}
    (h : ∀ v ∈ vs, ∀ w, Exact w ∧ HasKey w → ∃ same, v.equals strict w = .ok same)
    {ws : List Value} (hws : ∀ w ∈ ws, Exact w ∧ HasKey w) :
    ∃ same, equalItems strict vs ws = .ok same := by
  induction vs generalizing ws with
  | nil => cases ws <;> exact ⟨true, rfl⟩
  | cons v vs ih =>
    cases ws with
    | nil => exact ⟨true, rfl⟩
    | cons w ws =>
      obtain ⟨hv, hvs⟩ := List.forall_mem_cons.mp h
      obtain ⟨hw, hws⟩ := List.forall_mem_cons.mp hws
      obtain ⟨same, hsame⟩ := hv w hw
      rw [equalItems, hsame]
      cases same with
      | false => exact ⟨false, rfl⟩
      | true => exact ih hvs hws

/-- Exact values with keys are equal or not, unless equality is strict. -/
theorem exists_equals (v w : Value) (hv : Exact v) (hw : Exact w) (hkv : HasKey v)
    (hkw : HasKey w) : ∃ same, v.equals false w = .ok same := by
  cases decided v w with
  | moments ht hu =>
    obtain ⟨m, hm⟩ := hv.epochMillis ht
    obtain ⟨n, hn⟩ := hw.epochMillis hu
    exact ⟨_, by rw [equals_of_moments ht hu, hm, hn]; rfl⟩
  | paths hp hq => exact ⟨_, equals_of_paths hp hq⟩
  | durations d e =>
    obtain ⟨m, hm⟩ := Duration.exists_toMillis_int hv.amounts
    obtain ⟨n, hn⟩ := Duration.exists_toMillis_int hw.amounts
    exact ⟨_, by rw [equals_durations, hm, hn]; rfl⟩
  | numbers h =>
    obtain ⟨m, hm⟩ := hv.exists_toNumber
    obtain ⟨n, hn⟩ := hw.exists_toNumber
    exact ⟨_, by rw [equals_of_numbers h, hm, hn]; rfl⟩
  | objects hvkind hwkind =>
    exact ⟨_, by
      rw [equals_of_objects hvkind hwkind, hkv.stableKey_eq, hkw.stableKey_eq]
      rfl⟩
  | items vs ws =>
    rw [equals_lists]
    split
    · exact exists_equalItems (fun x hx y hy => exists_equals x y (hv.items x hx) hy.1
        (hkv.items x hx) hy.2) fun y hy => ⟨hw.items y hy, hkw.items y hy⟩
    · exact ⟨_, rfl⟩
  | written h => exact ⟨_, h.equals_eq⟩
termination_by sizeOf v
decreasing_by
  subst_vars
  have := List.sizeOf_lt_of_mem hx
  rw [list.sizeOf_spec]
  omega

/-! ## Equality from structural keys -/

/-- Objects are equal by their keys, whatever else is in them. -/
theorem equals_of_objects_keyChars (hv : HasKey v) (hw : HasKey w) (hvkind : v.kind = .object)
    (hwkind : w.kind = .object) (h : v.keyChars = w.keyChars) : v.equals strict w = .ok true := by
  rw [equals_of_objects hvkind hwkind, hv.stableKey_eq, hw.stableKey_eq, h]
  exact congrArg Except.ok (beq_self_eq_true _)

/-- Values that a text tells from others of their kind are equal if it is the same text. -/
theorem equals_of_shown {s : String} (hkind : v.kind = w.kind) (hs : v.shown? = some s)
    (ht : w.shown? = some s) (hnumber : v.kind ≠ .number) (hpattern : v.kind ≠ .regexp)
    (hobject : v.kind ≠ .object) : v.equals strict w = .ok true := by
  cases v with
  | number n => exact absurd rfl hnumber
  | pattern p => exact absurd rfl hpattern
  | mapping | set | bytes | cycle => exact absurd rfl hobject
  | date | timestamp | duration | list => cases hs
  | null =>
    obtain rfl := eq_null_iff.mpr hkind.symm
    rfl
  | bool a =>
    cases w <;> cases hkind
    next b =>
      have hsame : a = b := by
        have htext : boolText a = boolText b := Option.some.inj (hs.trans ht.symm)
        revert htext
        cases a <;> cases b <;> decide
      rw [hsame]
      exact congrArg Except.ok (beq_self_eq_true b)
  | link =>
    cases w <;> cases hkind
    have hpath := Option.some.inj (hs.trans ht.symm)
    rw [equals_of_paths rfl rfl, Path.comparable, Path.comparable, hpath, beq_self_eq_true]
  | file =>
    cases w <;> cases hkind
    have hpath := Option.some.inj (hs.trans ht.symm)
    rw [equals_of_paths rfl rfl, Path.comparable, Path.comparable, hpath, beq_self_eq_true]
  | string | html | image | icon =>
    cases w <;> cases hkind
    cases hs
    cases ht
    exact congrArg Except.ok (beq_self_eq_true _)

/-- Patterns whose flags can be told from their bodies are equal if they are displayed alike. -/
theorem equals_patterns {p q : Pattern} (hp : '/' ∉ p.flags.toList) (hq : '/' ∉ q.flags.toList)
    (h : p.display = q.display) : (pattern p).equals strict (pattern q) = .ok true := by
  obtain ⟨hbody, hflags⟩ := Pattern.eq_of_display hp hq h
  have hplain : plainlyEqual (pattern p) (pattern q) = true := by
    rw [plainlyEqual, hbody, hflags, beq_self_eq_true, beq_self_eq_true]
    rfl
  exact congrArg Except.ok hplain

theorem equals_of_epochMillis {t u : Timestamp} {millis : Int} (ht : v.moment? = some t)
    (hu : w.moment? = some u) (hmillis : t.epochMillis = .ok millis)
    (hmillis' : u.epochMillis = .ok millis) : v.equals strict w = .ok true := by
  rw [equals_of_moments ht hu, hmillis, hmillis']
  exact congrArg Except.ok (beq_self_eq_true millis)

theorem equals_duration_self {d : Duration} (h : ∀ p ∈ d.parts, ∃ n, p.amount = .int n) :
    (duration d).equals strict (duration d) = .ok true := by
  obtain ⟨m, hm⟩ := Duration.exists_toMillis_int h
  rw [equals_durations, hm]
  exact congrArg Except.ok (Number.same_int m)

/-- Durations in integers with the same key have the same parts. -/
theorem eq_of_durationKeys {d e : Duration} (hd : ∀ p ∈ d.parts, ∃ n, p.amount = .int n)
    (he : ∀ p ∈ e.parts, ∃ n, p.amount = .int n) (hkd : HasKey (.duration d))
    (hke : HasKey (.duration e)) (h : (duration d).keyChars = (duration e).keyChars) : d = e := by
  obtain ⟨hlength, hparts⟩ :=
    List.forall₂_iff_zip.mp (parts_of_keyChars hkd.amounts hke.amounts h)
  have hsame : List.Forall₂ Eq d.parts e.parts := by
    refine List.forall₂_iff_zip.mpr ⟨hlength, fun {p q} hpq => ?_⟩
    obtain ⟨hp, hq⟩ := List.of_mem_zip hpq
    obtain ⟨m, hm⟩ := hd p hp
    obtain ⟨n, hn⟩ := he q hq
    obtain ⟨hamount, hunit⟩ := hparts hpq
    rw [hm, hn] at hamount
    obtain rfl := Number.int_of_display hamount
    cases p
    cases q
    simp_all
  rw [List.forall₂_eq_eq_eq] at hsame
  exact congrArg Duration.mk hsame

theorem equalItems_of_forall₂ {vs ws : List Value}
    (h : List.Forall₂ (fun v w => v.equals strict w = .ok true) vs ws) :
    equalItems strict vs ws = .ok true := by
  induction h with
  | nil => rfl
  | cons hvw _ ih =>
    rw [equalItems, hvw]
    exact ih

theorem HasKey.exists_shown (h : HasKey v) (hdate : v.kind ≠ .date) (hduration : v.kind ≠ .duration)
    (hlist : v.kind ≠ .list) (hobject : v.kind ≠ .object) : ∃ s, v.shown? = some s := by
  cases v with
  | date | timestamp => exact absurd rfl hdate
  | duration => exact absurd rfl hduration
  | list => exact absurd rfl hlist
  | mapping | set | bytes | cycle => exact absurd rfl hobject
  | number n => exact ⟨_, h.shown_number⟩
  | _ => exact ⟨_, rfl⟩

/-- Exact values with the same key are equal. -/
theorem equals_of_keyChars (hv : Exact v) (hw : Exact w) (hkv : HasKey v) (hkw : HasKey w)
    (h : v.keyChars = w.keyChars) : v.equals strict w = .ok true := by
  -- The keys begin with the kinds, so no two values of different kinds are left to compare.
  have hshape := shape_eq hkv hkw h
  have hkind := kind_of_shape hshape
  induction hv generalizing w with
  | @shown v s hs hnumber hpattern =>
    by_cases hobject : v.kind = .object
    · exact equals_of_objects_keyChars hkv hkw hobject (hkind.symm.trans hobject) h
    · obtain ⟨-, hdate, hduration, hlist⟩ := shown_shape hs
      obtain ⟨t, ht⟩ := hkw.exists_shown (hkind ▸ hdate) (hkind ▸ hduration) (hkind ▸ hlist)
        (hkind ▸ hobject)
      obtain ⟨-, hw'⟩ := shown_of_keyChars hs ht hshape h
      exact equals_of_shown hkind hs hw' hnumber hpattern hobject
  | int m =>
    cases w <;> cases hkind
    next n =>
      obtain ⟨n, rfl⟩ := hw.int_of_number
      obtain ⟨-, hshown⟩ := shown_of_keyChars hkv.shown_number hkw.shown_number hshape h
      have hdisplay := Option.some.inj (hkw.shown_number.symm.trans hshown)
      obtain rfl := Number.int_of_display hdisplay.symm
      rw [equals_of_numbers (.inl rfl)]
      exact congrArg Except.ok (Number.same_int _)
  | pattern hp =>
    cases w <;> cases hkind
    obtain ⟨-, hshown⟩ := shown_of_keyChars rfl rfl hshape h
    exact equals_patterns hp hw.flags (Option.some.inj hshown).symm
  | moment ht hmillis =>
    obtain ⟨u, hu⟩ := exists_moment_of_kind (hkind.symm.trans (kind_of_moment ht))
    obtain ⟨millis', hmillis'⟩ := hw.epochMillis hu
    obtain rfl := millis_of_keyChars ht hmillis hu hmillis' h
    exact equals_of_epochMillis ht hu hmillis hmillis'
  | duration hd =>
    cases w <;> cases hkind
    obtain rfl := eq_of_durationKeys hd hw.amounts hkv hkw h
    exact equals_duration_self hd
  | @list vs hvs ih =>
    cases w <;> cases hkind
    next ws =>
      obtain ⟨hlength, hkeys⟩ := List.forall₂_iff_zip.mp (items_of_keyChars hkv.items hkw.items h)
      rw [equals_lists, if_pos hlength]
      refine equalItems_of_forall₂ (List.forall₂_iff_zip.mpr ⟨hlength, fun {v w} hpair => ?_⟩)
      obtain ⟨hv, hw'⟩ := List.of_mem_zip hpair
      have hshape := shape_eq (hkv.items v hv) (hkw.items w hw') (hkeys hpair)
      exact ih v hv (hw.items w hw') (hkv.items v hv) (hkw.items w hw') (hkeys hpair) hshape
        (kind_of_shape hshape)
  | mapping _ | set _ => exact equals_of_objects_keyChars hkv hkw rfl hkind.symm h

/-! ## Equality with itself -/

/-- What an exact value lacks a key for is an integer that cannot be written. -/
theorem Keyless.tooLong {f : Fault} (h : v.Keyless f) (hv : Exact v) : v.TooLong f := by
  induction h with
  | moment ht hday =>
    obtain ⟨millis, hmillis⟩ := hv.epochMillis ht
    cases hmillis.symm.trans (Timestamp.epochMillis_eq_error_iff.mpr ⟨hday, rfl⟩)
  | duration h => exact h
  | number h => exact h
  | set h =>
    rcases display_eq_error h with h | ⟨rfl, -⟩
    · exact h
    · cases hv with
      | shown hs _ _ => cases (toOption_eq_some.mp hs).symm.trans h
      | moment ht _ => cases ht
      | set hself => exact absurd h hself
  | cycle =>
    cases hv with
    | shown hs _ _ => cases hs
    | moment ht _ => cases ht
  | @item before v after _ _ _ ih =>
    have hmem : v ∈ before ++ v :: after := List.mem_append_right before List.mem_cons_self
    exact (ih (hv.items v hmem)).list hmem
  | key he h => exact h.mapping (Entries.mem_parts he).1
  | @entry live es before e after f _ hsorted _ _ ih =>
    have he : e ∈ es := (inKeyOrder_perm es).mem_iff.mp
      (hsorted ▸ List.mem_append_right before List.mem_cons_self)
    exact (ih (hv.entries e he)).mapping (Entries.mem_parts he).2

theorem Exact.hasKey_or (h : Exact v) : HasKey v ∨ v.Keyless .integerTooLong := by
  cases hkey : v.stableChars with
  | ok k => exact .inl (hasKey_of_stableChars v hkey)
  | error f =>
    have hkeyless := keyless_of_stableChars v hkey
    exact .inr ((hkeyless.tooLong h).1 ▸ hkeyless)

/-- All items have one of two properties, or the first that has the other one can be told. -/
theorem forall_or_first {α : Type} {P Q : α → Prop} {as : List α} (h : ∀ a ∈ as, P a ∨ Q a) :
    (∀ a ∈ as, P a) ∨
      ∃ before a after, as = before ++ a :: after ∧ (∀ b ∈ before, P b) ∧ Q a := by
  induction as with
  | nil => exact .inl (List.forall_mem_nil _)
  | cons a as ih =>
    obtain ⟨ha, has⟩ := List.forall_mem_cons.mp h
    rcases ha with ha | ha
    · rcases ih has with hall | ⟨before, b, after, rfl, hbefore, hb⟩
      · exact .inl (List.forall_mem_cons.mpr ⟨ha, hall⟩)
      · exact .inr ⟨a :: before, b, after, rfl, List.forall_mem_cons.mpr ⟨ha, hbefore⟩, hb⟩
    · exact .inr ⟨[], a, as, rfl, List.forall_mem_nil _, ha⟩

/-- An object equals itself where it has a key. -/
theorem equals_object_self (h : Exact v) (hkind : v.kind = .object) :
    v.equals strict v = .ok true ∨ Unequatable strict v v .integerTooLong :=
  h.hasKey_or.imp (fun hkey => equals_of_objects_keyChars hkey hkey hkind hkind rfl)
    (.leftKey hkind hkind)

/-- An exact value equals itself, unless an integer in an object cannot be written. -/
theorem equals_self (h : Exact v) :
    v.equals strict v = .ok true ∨ Unequatable strict v v .integerTooLong := by
  induction h with
  | shown hs hnumber hpattern =>
    have hkey := hasKey_of_shown hs
    exact .inl (equals_of_keyChars (.shown hs hnumber hpattern) (.shown hs hnumber hpattern) hkey
      hkey rfl)
  | int n =>
    rw [equals_of_numbers (.inl rfl)]
    exact .inl (congrArg Except.ok (Number.same_int n))
  | pattern hp => exact .inl (equals_patterns hp hp rfl)
  | moment ht hmillis => exact .inl (equals_of_epochMillis ht ht hmillis hmillis)
  | duration hd => exact .inl (equals_duration_self hd)
  | @list vs hvs ih =>
    rw [equals_lists, if_pos rfl]
    rcases forall_or_first ih with hall | ⟨before, v, after, rfl, hbefore, hv⟩
    · exact .inl (equalItems_of_forall₂ (List.forall₂_same.mpr hall))
    · exact .inr (.items (List.forall₂_same.mpr hbefore) rfl hv)
  | mapping hes _ => exact equals_object_self (.mapping hes) rfl
  | set hself => exact equals_object_self (.set hself) rfl

/-- Exact values with the same structural key are equal, strictly or not.  They have keys unless an
integer cannot be written, and each of them is equal to itself, or else an object in it has no key
for that reason. -/
theorem equals_of_same_key {v w : Value} (hv : Exact v) (hw : Exact w) :
    (∀ k, v.stableKey = .ok k → w.stableKey = .ok k → ∀ strict, v.equals strict w = .ok true) ∧
      (v.isWritable = true → ∃ k, v.stableKey = .ok k) ∧
      ∀ strict, v.equals strict v = .ok true ∨ Unequatable strict v v .integerTooLong := by
  refine ⟨fun k hk hl strict => ?_, fun hwritable => ?_, fun strict => equals_self hv⟩
  · obtain ⟨cs, hcs, rfl⟩ := map_eq_ok.mp hk
    obtain ⟨ds, hds, hsame⟩ := map_eq_ok.mp hl
    refine equals_of_keyChars hv hw (hasKey_of_stableChars v hcs) (hasKey_of_stableChars w hds) ?_
    rw [keyChars_eq hcs, keyChars_eq hds, String.ofList_injective hsame]
  · rcases hv.hasKey_or with hkey | hkeyless
    · exact ⟨_, hkey.stableKey_eq⟩
    · exact absurd hwritable (Bool.eq_false_iff.mp (hkeyless.tooLong hv).2)

/-- A link and a number. -/
def linkFirst : Value :=
  object [(.string "at", .link "./a" .null), (.string "every", .int 1)]

/-- The same with the path written otherwise, the other way round. -/
def linkLast : Value :=
  object [(.string "every", .int 1), (.string "at", .link "a" (.string "shown"))]

theorem equals_of_same_key_reordered :
    (list [linkFirst, .int 2]).equals true (list [linkLast, .int 2]) = .ok true := by
  have hlink (path : String) (display : Value) : Exact (.link path display) :=
    .shown rfl nofun nofun
  have hfirst : Exact linkFirst :=
    .mapping (List.forall_mem_cons.mpr ⟨hlink _ _, List.forall_mem_singleton.mpr (.int 1)⟩)
  have hlast : Exact linkLast :=
    .mapping (List.forall_mem_cons.mpr ⟨.int 1, List.forall_mem_singleton.mpr (hlink _ _)⟩)
  have hswap {α : Type} (k l : α) :
      sortByText [("at", k), ("every", l)] = sortByText [("every", l), ("at", k)] :=
    Sorting.mergeSort_eq_of_perm (by simp) (List.Perm.swap _ _ _)
  have hchars : linkFirst.stableChars = linkLast.stableChars := by
    have hmapping (k l : Except Fault (List Char)) :
        mappingKey [("at", k), ("every", l)] = mappingKey [("every", l), ("at", k)] := by
      rw [mappingKey, hswap, mappingKey]
    exact hmapping (.ok ("link:".toList ++ quotedChars "a")) (.ok (taggedChars .number "1"))
  have hsame : (list [linkFirst, .int 2]).stableKey = (list [linkLast, .int 2]).stableKey := by
    simp only [stableKey, stableChars, stableItems, hchars]
  obtain ⟨hequal, hkey, -⟩ := equals_of_same_key
    (.list (List.forall_mem_cons.mpr ⟨hfirst, List.forall_mem_singleton.mpr (.int 2)⟩))
    (.list (List.forall_mem_cons.mpr ⟨hlast, List.forall_mem_singleton.mpr (.int 2)⟩))
  obtain ⟨k, hk⟩ := hkey (by decide)
  exact hequal k hk (hsame ▸ hk) true

/-- A mapping with an integer that cannot be written. -/
def withUnwritable : Value :=
  object [(.string "k", unwritable)]

/-- It has no key, and so it is not equal to itself. -/
theorem equals_withUnwritable : withUnwritable.Exact ∧
    ∀ strict, withUnwritable.equals strict withUnwritable = .error (.fault .integerTooLong) := by
  refine ⟨.mapping (List.forall_mem_singleton.mpr (.int _)), fun strict => ?_⟩
  have hsorted : inKeyOrder [(.string "k", unwritable)] = [] ++ [(.string "k", unwritable)] :=
    List.mergeSort_singleton _
  have hkeyless : withUnwritable.Keyless .integerTooLong :=
    .entry (List.forall_mem_singleton.mpr rfl) hsorted (List.forall_mem_nil _)
      (.number ⟨rfl, isWritable_unwritable⟩)
  exact equals_eq_fault_iff.mpr (.leftKey rfl rfl hkeyless)

end Value

end NoteQuery
