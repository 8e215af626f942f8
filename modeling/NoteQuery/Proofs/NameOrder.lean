/-
Names of formulas in their order.

Names may be texts, but also days, moments, octets or numbers, and only names of one sort have an
order.  A list that could be sorted at all has names of one sort only, since sorting compares each
element with others (`alike_of_sort`); and the names of one sort are ordered by a key of theirs, NaN
apart.  So names are in order where they are sorted without a failure (`inOrder_of_sort`).
-/
import NoteQuery.Proofs.Differences
import NoteQuery.Proofs.FormulaOrder
import Mathlib.Data.List.Lex

namespace NoteQuery

/-! ## What sorting compares -/

namespace Sorting

variable {α β ε : Type} {less : α → α → Except ε Bool} {kind : α → β}

/-- To find the place of an element among others it is compared with one of them. -/
theorem exists_compared_of_place {ys : List α} {x : α} {p : Nat} (hne : ys ≠ [])
    (h : place less ys x 0 ys.length = .ok p) : ∃ y ∈ ys, ∃ c, less x y = .ok c := by
  have hpos : 0 < ys.length := List.length_pos_iff.mpr hne
  have hmiddle : 0 + (ys.length - 0) / 2 < ys.length := by omega
  rw [place, if_pos hpos] at h
  simp only [List.getElem?_eq_getElem hmiddle] at h
  obtain ⟨c, hc, -⟩ := bind_eq_ok.mp h
  exact ⟨_, List.getElem_mem hmiddle, c, hc⟩

section Kinds

variable (hkind : ∀ a b c, less a b = .ok c → kind a = kind b)
include hkind

theorem alike_of_insertAll {xs ys zs : List α} {k : β} (hne : ys ≠ []) (hys : ∀ y ∈ ys, kind y = k)
    (h : xs.foldlM (insert less) ys = .ok zs) : ∀ x ∈ xs, kind x = k := by
  induction xs generalizing ys with
  | nil => exact List.forall_mem_nil _
  | cons x xs ih =>
    rw [List.foldlM_cons] at h
    obtain ⟨us, hinsert, h⟩ := bind_eq_ok.mp h
    obtain ⟨p, hplace, -⟩ := map_eq_ok.mp hinsert
    obtain ⟨y, hy, c, hc⟩ := exists_compared_of_place hne hplace
    have hx : kind x = k := (hkind x y c hc).trans (hys y hy)
    have hall : ∀ u ∈ x :: ys, kind u = k := List.forall_mem_cons.mpr ⟨hx, hys⟩
    have hperm : us.Perm (x :: ys) := insert_perm hinsert
    refine List.forall_mem_cons.mpr ⟨hx, ih ?_ (fun u hu => hall u (hperm.mem_iff.mp hu)) h⟩
    rintro rfl
    exact List.cons_ne_nil x ys hperm.nil_eq.symm

theorem alike_of_run {falling : Bool} {last : α} {xs more rest : List α}
    (h : run less falling last xs = .ok (more, rest)) : ∀ x ∈ more, kind x = kind last := by
  induction xs generalizing last more rest with
  | nil =>
    cases h
    exact List.forall_mem_nil _
  | cons x xs ih =>
    obtain ⟨c, hc, h⟩ := bind_eq_ok.mp h
    split at h
    · obtain ⟨⟨more', rest'⟩, hrun, h⟩ := bind_eq_ok.mp h
      cases h
      have hx : kind x = kind last := hkind x last c hc
      exact List.forall_mem_cons.mpr ⟨hx, fun z hz => (ih hrun z hz).trans hx⟩
    · cases h
      exact List.forall_mem_nil _

/-- Where only elements of one kind can be compared, all that are sorted are of the kind of the
first. -/
theorem alike_of_sort {x : α} {xs ys : List α} (h : sort less (x :: xs) = .ok ys) :
    ∀ z ∈ x :: xs, kind z = kind x := by
  cases xs with
  | nil => exact List.forall_mem_singleton.mpr rfl
  | cons y xs =>
    obtain ⟨falling, hc, h⟩ := bind_eq_ok.mp h
    obtain ⟨⟨more, rest⟩, hrun, hrest⟩ := bind_eq_ok.mp h
    obtain rfl := run_append hrun
    have hy : kind y = kind x := hkind y x falling hc
    have hmore : ∀ z ∈ x :: y :: more, kind z = kind x :=
      List.forall_mem_cons.mpr ⟨rfl, List.forall_mem_cons.mpr ⟨hy, fun z hz =>
        (alike_of_run hkind hrun z hz).trans hy⟩⟩
    have hperm := turned_perm falling (x :: y :: more)
    have hrest' : ∀ z ∈ rest, kind z = kind x := by
      refine alike_of_insertAll hkind ?_ (fun z hz => hmore z (hperm.mem_iff.mp hz)) hrest
      exact fun hnil => List.cons_ne_nil _ _ (hnil ▸ hperm).nil_eq.symm
    rw [← List.cons_append, ← List.cons_append, List.forall_mem_append]
    exact ⟨hmore, hrest'⟩

end Kinds

/-- Comparing by keys in a linear order is an order of all that has a key. -/
theorem orders_of_key {κ : Type} [LinearOrder κ] {HasKey : α → κ → Prop}
    (h : ∀ a b k l, HasKey a k → HasKey b l → ∃ c, less a b = .ok c ∧ (c = true ↔ k < l)) :
    Orders less fun a => ∃ k, HasKey a k := by
  have hno {a b : α} {k l : κ} (ha : HasKey a k) (hb : HasKey b l) :
      less a b = .ok false ↔ l ≤ k := by
    obtain ⟨c, hc, hlt⟩ := h a b k l ha hb
    rw [hc, Except.ok.injEq, ← Bool.not_eq_true, hlt, not_lt]
  constructor
  · rintro a b ⟨k, ha⟩ ⟨l, hb⟩
    obtain ⟨c, hc, -⟩ := h a b k l ha hb
    exact ⟨c, hc⟩
  · rintro a b ⟨k, ha⟩ ⟨l, hb⟩ hab
    obtain ⟨c, hc, hlt⟩ := h a b k l ha hb
    obtain rfl := Except.ok.inj (hc.symm.trans hab)
    exact (hno hb ha).mpr (hlt.mp rfl).le
  · rintro a b c ⟨k, ha⟩ ⟨l, hb⟩ ⟨m, hc⟩ hab hbc
    exact (hno ha hc).mpr (((hno hb hc).mp hbc).trans ((hno ha hb).mp hab))

end Sorting

/-! ## Sorts of names -/

namespace FormulaOrder

/-- The sorts of names that have an order. -/
inductive NameSort where
  | text
  | day
  | moment (zoned : Bool)
  | octets
  | number

namespace NameSort

/-- The sort of a name. -/
def of? (name : Value) : Option NameSort :=
  match name with
  | .string _ => some text
  | .date _ => some day
  | .timestamp t => some (moment t.zone.isSome)
  | .bytes _ => some octets
  | .bool _ | .number _ => some number
  | _ => none

theorem of?_eq_number {v : Value} {n : Number} (h : v.keyNumber? = some n) :
    of? v = some number := by
  cases v with
  | bool b => rfl
  | number m => rfl
  | _ => cases h

theorem exists_number {v : Value} (h : of? v = some number) : ∃ n, v.keyNumber? = some n := by
  cases v with
  | bool b => exact ⟨_, rfl⟩
  | number n => exact ⟨n, rfl⟩
  | _ => cases h

theorem of?_of_nameBefore {v w : Value} {before : Bool} (h : nameBefore v w = .ok before) :
    of? v = of? w ∧ of? v ≠ none := by
  unfold nameBefore at h
  split at h
  · exact ⟨rfl, nofun⟩
  · exact ⟨rfl, nofun⟩
  · next t u =>
    rw [ite_eq_iff] at h
    rcases h with ⟨hzone, -⟩ | ⟨-, h⟩
    · rw [of?, of?, hzone]
      exact ⟨rfl, nofun⟩
    · cases h
  · exact ⟨rfl, nofun⟩
  · split at h
    · next m n hm hn =>
      rw [of?_eq_number hm, of?_eq_number hn]
      exact ⟨rfl, nofun⟩
    · cases h

end NameSort

/-- The name is no number that is none. -/
def IsOrdered (name : Value) : Prop :=
  ∀ n, name.keyNumber? = some n → n.isNan = false

theorem octetsBefore_iff {xs ys : List UInt8} :
    octetsBefore xs ys = true ↔ xs.map UInt8.toNat < ys.map UInt8.toNat := by
  induction xs generalizing ys with
  | nil =>
    cases ys with
    | nil => exact ⟨nofun, fun h => absurd h (List.not_lt_nil _)⟩
    | cons y ys => exact ⟨fun _ => List.nil_lt_cons _ _, fun _ => rfl⟩
  | cons x xs ih =>
    cases ys with
    | nil => exact ⟨nofun, fun h => absurd h (List.not_lt_nil _)⟩
    | cons y ys =>
      rw [octetsBefore, List.map_cons, List.map_cons, List.cons_lt_cons_iff]
      split
      · next h => rw [ih, h, lt_self_iff_false, false_or, eq_self, true_and]
      · next h =>
        have hne : x.toNat ≠ y.toNat := fun heq => h (UInt8.toNat_inj.mp heq)
        rw [decide_eq_true_eq, UInt8.lt_iff_toNat_lt, or_iff_left fun h => hne h.1]

theorem number_lt_iff {m n : Number} (hm : m.isNan = false) (hn : n.isNan = false) :
    m.lt n = true ↔ m.place < n.place := by
  rw [Number.lt, Number.compare?_eq hm hn, beq_iff_eq, Option.some.injEq, cmp_eq_lt_iff]

theorem nameBefore_numbers {v w : Value} {m n : Number} (hm : v.keyNumber? = some m)
    (hn : w.keyNumber? = some n) : nameBefore v w = .ok (m.lt n) := by
  cases v with
  | bool _ | number _ =>
    cases w with
    | bool _ | number _ =>
      cases hm
      cases hn
      rfl
    | _ => cases hn
  | _ => cases hm

/-- Days are compared by their places in the calendar. -/
theorem nameBefore_orders_days :
    Sorting.Orders nameBefore fun name => ∃ place d, name = .date d ∧ d.ordinal = place := by
  refine Sorting.orders_of_key ?_
  rintro _ _ _ _ ⟨d, rfl, rfl⟩ ⟨e, rfl, rfl⟩
  exact ⟨_, rfl, decide_eq_true_iff⟩

/-- Moments are compared by their instants where all of them have a zone or none has one. -/
theorem nameBefore_orders_moments (zoned : Bool) :
    Sorting.Orders nameBefore fun name =>
      ∃ instant t, name = .timestamp t ∧ t.zone.isSome = zoned ∧ t.instant = instant := by
  refine Sorting.orders_of_key ?_
  rintro _ _ _ _ ⟨t, rfl, ht, rfl⟩ ⟨u, rfl, hu, rfl⟩
  exact ⟨_, if_pos (ht.trans hu.symm), decide_eq_true_iff⟩

theorem nameBefore_orders_octets :
    Sorting.Orders nameBefore fun name =>
      ∃ octets xs, name = .bytes xs ∧ xs.map UInt8.toNat = octets := by
  refine Sorting.orders_of_key ?_
  rintro _ _ _ _ ⟨xs, rfl, rfl⟩ ⟨ys, rfl, rfl⟩
  exact ⟨_, rfl, octetsBefore_iff⟩

theorem nameBefore_orders_numbers :
    Sorting.Orders nameBefore fun name =>
      ∃ place n, name.keyNumber? = some n ∧ n.isNan = false ∧ n.place = place := by
  refine Sorting.orders_of_key ?_
  rintro _ _ _ _ ⟨m, hm, hmNan, rfl⟩ ⟨n, hn, hnNan, rfl⟩
  exact ⟨_, nameBefore_numbers hm hn, number_lt_iff hmNan hnNan⟩

/-- The names of one sort have an order. -/
theorem nameBefore_orders_sort (sort : NameSort) :
    Sorting.Orders nameBefore fun name => NameSort.of? name = some sort ∧ IsOrdered name := by
  cases sort with
  | text =>
    refine FormulaTexts.nameBefore_orders.mono ?_
    rintro name ⟨hsort, -⟩
    cases name with
    | string s => exact ⟨s, rfl⟩
    | _ => cases hsort
  | day =>
    refine nameBefore_orders_days.mono ?_
    rintro name ⟨hsort, -⟩
    cases name with
    | date d => exact ⟨_, d, rfl, rfl⟩
    | _ => cases hsort
  | moment zoned =>
    refine (nameBefore_orders_moments zoned).mono ?_
    rintro name ⟨hsort, -⟩
    cases name with
    | timestamp t => exact ⟨_, t, rfl, NameSort.moment.inj (Option.some.inj hsort), rfl⟩
    | _ => cases hsort
  | octets =>
    refine nameBefore_orders_octets.mono ?_
    rintro name ⟨hsort, -⟩
    cases name with
    | bytes xs => exact ⟨_, xs, rfl, rfl⟩
    | _ => cases hsort
  | number =>
    refine nameBefore_orders_numbers.mono ?_
    rintro name ⟨hsort, hordered⟩
    obtain ⟨n, hn⟩ := NameSort.exists_number hsort
    exact ⟨_, n, hn, hordered n hn, rfl⟩

/-- Names that could be sorted are in order. -/
theorem inOrder_of_sort {names sorted : List Value}
    (h : Sorting.sort nameBefore names = .ok sorted) (hnames : ∀ name ∈ names, IsOrdered name) :
    Sorting.InOrder nameBefore sorted := by
  match names, h, hnames with
  | [], h, _ =>
    cases h
    exact List.Pairwise.nil
  | [name], h, _ =>
    cases h
    exact List.pairwise_singleton _ _
  | name :: other :: names, h, hnames =>
    have halike := Sorting.alike_of_sort
      (fun v w _ (hc : nameBefore v w = _) => (NameSort.of?_of_nameBefore hc).1) h
    obtain ⟨before, hcompared, -⟩ := bind_eq_ok.mp h
    obtain ⟨hsame, hsome⟩ := NameSort.of?_of_nameBefore hcompared
    obtain ⟨sort, hsort⟩ := Option.ne_none_iff_exists'.mp (hsame ▸ hsome)
    obtain ⟨sorted', hsorted, -, hinOrder⟩ := Sorting.sort_inOrder (nameBefore_orders_sort sort)
      fun a ha => ⟨(halike a ha).trans hsort, hnames a ha⟩
    rw [h, Except.ok.injEq] at hsorted
    exact hsorted ▸ hinOrder

end FormulaOrder

end NoteQuery
