/-
Sorting puts elements in order.

A comparison need not be one on all elements: `Orders less S` asks it only of those that `S`
holds of, and there it never fails.  The front of a list is in order as it is found or turned
round (`run_pairwise`), and an element that is put in by halving stands behind everything that is
not larger and before everything that is (`place_between`).  Where elements that do not come
before one another are the same, the sorted list is determined by its elements alone
(`sort_eq_of_perm`).  That sorting loses no element holds of every comparison (`sort_perm`), and so
does that it fails only as comparing two of the elements does (`failsOnly_sort`).
-/
import NoteQuery.Proofs.Outcomes
import NoteQuery.Sorting
import Mathlib.Data.List.Nodup

namespace NoteQuery.Sorting

variable {α ε : Type} {less : α → α → Except ε Bool} {S : α → Prop}

/-- On certain elements, the comparison says which of two comes strictly before the other. -/
structure Orders (less : α → α → Except ε Bool) (S : α → Prop) : Prop where
  decides : ∀ {a b}, S a → S b → ∃ c, less a b = .ok c
  asymm : ∀ {a b}, S a → S b → less a b = .ok true → less b a = .ok false
  trans : ∀ {a b c}, S a → S b → S c →
    less a b = .ok false → less b c = .ok false → less a c = .ok false

/-- No element comes strictly before one that it stands behind. -/
def InOrder (less : α → α → Except ε Bool) (xs : List α) : Prop :=
  xs.Pairwise fun a b => less b a = .ok false

/-! ## What sorting keeps

Whatever the comparison says, and even where it is no order, a list that was sorted has the
elements of the list that was given. -/

theorem insert_perm {ys zs : List α} {x : α} (h : insert less ys x = .ok zs) :
    zs.Perm (x :: ys) := by
  obtain ⟨p, -, rfl⟩ := map_eq_ok.mp h
  have hmiddle : (ys.take p ++ x :: ys.drop p).Perm (x :: (ys.take p ++ ys.drop p)) :=
    List.perm_middle
  rwa [List.take_append_drop] at hmiddle

theorem insertAll_perm {xs ys zs : List α} (h : xs.foldlM (insert less) ys = .ok zs) :
    zs.Perm (xs ++ ys) := by
  induction xs generalizing ys with
  | nil =>
    cases h
    exact .refl _
  | cons x xs ih =>
    rw [List.foldlM_cons] at h
    obtain ⟨us, hinsert, h⟩ := bind_eq_ok.mp h
    exact (ih h).trans (((insert_perm hinsert).append_left xs).trans List.perm_middle)

/-- A run and what is left of the elements are the elements. -/
theorem run_append {falling : Bool} {last : α} {xs more rest : List α}
    (h : run less falling last xs = .ok (more, rest)) : xs = more ++ rest := by
  induction xs generalizing last more rest with
  | nil =>
    cases h
    rfl
  | cons x xs ih =>
    obtain ⟨c, -, h⟩ := bind_eq_ok.mp h
    split at h
    · obtain ⟨⟨more', rest'⟩, hrun, h⟩ := bind_eq_ok.mp h
      cases h
      exact congrArg (x :: ·) (ih hrun)
    · cases h
      rfl

/-- A rising front is taken as it is, a falling one turned round; no element is lost. -/
theorem turned_perm (falling : Bool) (front : List α) :
    (if falling then front.reverse else front).Perm front := by
  cases falling with
  | false => exact .refl _
  | true => exact List.reverse_perm _

theorem sort_perm {xs ys : List α} (h : sort less xs = .ok ys) : ys.Perm xs := by
  match xs with
  | [] =>
    cases h
    exact .nil
  | [x] =>
    cases h
    exact .refl _
  | x :: y :: xs =>
    obtain ⟨falling, -, h⟩ := bind_eq_ok.mp h
    obtain ⟨⟨more, rest⟩, hrun, hrest⟩ := bind_eq_ok.mp h
    obtain rfl := run_append hrun
    have hparts : (rest ++ (x :: y :: more)).Perm (x :: y :: (more ++ rest)) :=
      List.perm_append_comm
    exact (insertAll_perm hrest).trans (((turned_perm falling _).append_left rest).trans hparts)

/-! ## How sorting fails

Sorting fails only in ways in which comparing two of the elements fails. -/

section Failures

variable {P : ε → Prop}

theorem failsOnly_place {ys : List α} {x : α} (h : ∀ y ∈ ys, FailsOnly P (less x y))
    (low high : Nat) : FailsOnly P (place less ys x low high) := by
  rw [place]
  split
  · dsimp only
    split
    · exact failsOnly_ok _
    · next y hy =>
      refine failsOnly_bind (h y (List.mem_of_getElem? hy)) fun before => ?_
      cases before with
      | true => exact failsOnly_place h low _
      | false => exact failsOnly_place h _ high
  · exact failsOnly_ok _
termination_by high - low

theorem failsOnly_insertAll {xs ys : List α}
    (h : ∀ a ∈ xs ++ ys, ∀ b ∈ xs ++ ys, FailsOnly P (less a b)) :
    FailsOnly P (xs.foldlM (insert less) ys) := by
  induction xs generalizing ys with
  | nil => exact failsOnly_ok ys
  | cons x xs ih =>
    rw [List.foldlM_cons]
    have hplace : ∀ y ∈ ys, FailsOnly P (less x y) := fun y hy =>
      h x List.mem_cons_self y (List.mem_append_right _ hy)
    refine failsOnly_bind_of_ok (failsOnly_map (failsOnly_place hplace 0 _)) fun zs hzs => ih ?_
    have hperm : (xs ++ zs).Perm (x :: xs ++ ys) :=
      ((insert_perm hzs).append_left xs).trans List.perm_middle
    exact fun a ha b hb => h a (hperm.mem_iff.mp ha) b (hperm.mem_iff.mp hb)

theorem failsOnly_run {falling : Bool} {last : α} {xs : List α}
    (h : ∀ a ∈ last :: xs, ∀ b ∈ last :: xs, FailsOnly P (less a b)) :
    FailsOnly P (run less falling last xs) := by
  induction xs generalizing last with
  | nil => exact failsOnly_ok _
  | cons x xs ih =>
    have hx : x ∈ last :: x :: xs := List.mem_cons_of_mem last List.mem_cons_self
    refine failsOnly_bind (h x hx last List.mem_cons_self) fun before => ?_
    split
    · refine failsOnly_bind (ih fun a ha b hb => ?_) fun _ => failsOnly_ok _
      exact h a (List.mem_cons_of_mem last ha) b (List.mem_cons_of_mem last hb)
    · exact failsOnly_ok _

theorem failsOnly_sort {xs : List α} (h : ∀ a ∈ xs, ∀ b ∈ xs, FailsOnly P (less a b)) :
    FailsOnly P (sort less xs) := by
  match xs with
  | [] => exact failsOnly_ok _
  | [x] => exact failsOnly_ok _
  | x :: y :: xs =>
    have hy : y ∈ x :: y :: xs := List.mem_cons_of_mem x List.mem_cons_self
    refine failsOnly_bind (h y hy x List.mem_cons_self) fun falling => ?_
    refine failsOnly_bind_of_ok (failsOnly_run fun a ha b hb => ?_) ?_
    · exact h a (List.mem_cons_of_mem x ha) b (List.mem_cons_of_mem x hb)
    · rintro ⟨more, rest⟩ hrun
      obtain rfl := run_append hrun
      have hperm : (rest ++ if falling then (x :: y :: more).reverse else x :: y :: more).Perm
          (x :: y :: (more ++ rest)) :=
        ((turned_perm falling _).append_left rest).trans List.perm_append_comm
      refine failsOnly_insertAll fun a ha b hb => ?_
      exact h a (hperm.mem_iff.mp ha) b (hperm.mem_iff.mp hb)

end Failures
/-! ## Comparisons -/

namespace Orders

theorem irrefl (h : Orders less S) {a : α} (ha : S a) : less a a = .ok false := by
  obtain ⟨c, hc⟩ := h.decides ha ha
  cases c with
  | false => exact hc
  | true => exact h.asymm ha ha hc

/-- Strictly before is transitive as well, because of two elements one is not before the other. -/
theorem chain (h : Orders less S) {a b c : α} {before : Bool} (ha : S a) (hb : S b) (hc : S c)
    (hab : less a b = .ok before) (hbc : less b c = .ok before) : less a c = .ok before := by
  cases before with
  | false => exact h.trans ha hb hc hab hbc
  | true =>
    obtain ⟨d, hd⟩ := h.decides ha hc
    cases d with
    | true => exact hd
    | false =>
      have hcb : less c b = .ok false := h.asymm hb hc hbc
      have : less a b = .ok false := h.trans ha hc hb hd hcb
      rw [this] at hab
      cases hab

theorem mono {T : α → Prop} (h : Orders less S) (hT : ∀ a, T a → S a) : Orders less T where
  decides ha hb := h.decides (hT _ ha) (hT _ hb)
  asymm ha hb := h.asymm (hT _ ha) (hT _ hb)
  trans ha hb hc := h.trans (hT _ ha) (hT _ hb) (hT _ hc)

end Orders

/-- In a list that is in order, an element is not strictly before itself or an earlier one. -/
theorem InOrder.getElem (sorted : InOrder less ys) (h : Orders less S) (hys : ∀ y ∈ ys, S y)
    {i j : Nat} (hi : i < ys.length) (hj : j < ys.length) (hij : i ≤ j) :
    less ys[j] ys[i] = .ok false := by
  rcases Nat.eq_or_lt_of_le hij with rfl | hlt
  · exact h.irrefl (hys _ (List.getElem_mem hi))
  · exact List.pairwise_iff_getElem.mp sorted i j hi hj hlt

/-! ## Putting an element in -/

/-- The search closes in on a place with nothing larger before it and only larger elements
behind it, which hold of the two bounds all the time. -/
theorem place_between (h : Orders less S) {ys : List α} {x : α} (hx : S x)
    (hys : ∀ y ∈ ys, S y) (sorted : InOrder less ys) (low high : Nat) (hle : low ≤ high)
    (hhigh : high ≤ ys.length)
    (before : ∀ j (_ : j < ys.length), j < low → less x ys[j] = .ok false)
    (behind : ∀ j (_ : j < ys.length), high ≤ j → less x ys[j] = .ok true) :
    ∃ p ≤ ys.length, place less ys x low high = .ok p ∧
      (∀ j (_ : j < ys.length), j < p → less x ys[j] = .ok false) ∧
      (∀ j (_ : j < ys.length), p ≤ j → less x ys[j] = .ok true) := by
  rw [place]
  by_cases hlt : low < high
  · have hm : low + (high - low) / 2 < ys.length := by omega
    rw [if_pos hlt]
    simp only [List.getElem?_eq_getElem hm]
    have hy : S ys[low + (high - low) / 2] := hys _ (List.getElem_mem hm)
    obtain ⟨c, hc⟩ := h.decides hx hy
    rw [hc]
    cases c with
    | true =>
      refine place_between h hx hys sorted low _ (by omega) (by omega) before ?_
      intro j hj hmj
      have hz : S ys[j] := hys _ (List.getElem_mem hj)
      obtain ⟨d, hd⟩ := h.decides hx hz
      cases d with
      | true => exact hd
      | false =>
        -- `x` would not be before the middle element either
        have := h.trans hx hz hy hd (sorted.getElem h hys hm hj hmj)
        rw [this] at hc
        cases hc
    | false =>
      refine place_between h hx hys sorted _ high (by omega) hhigh ?_ behind
      intro j hj hjm
      have hz : S ys[j] := hys _ (List.getElem_mem hj)
      exact h.trans hx hy hz hc (sorted.getElem h hys hj hm (by omega))
  · rw [if_neg hlt]
    exact ⟨low, by omega, rfl, before, fun j hj hlj => behind j hj (by omega)⟩
termination_by high - low

theorem insert_inOrder (h : Orders less S) {ys : List α} {x : α} (hx : S x)
    (hys : ∀ y ∈ ys, S y) (sorted : InOrder less ys) :
    ∃ zs, insert less ys x = .ok zs ∧ zs.Perm (x :: ys) ∧ InOrder less zs := by
  obtain ⟨p, hp, hplace, before, behind⟩ :=
    place_between h hx hys sorted 0 ys.length (Nat.zero_le _) (Nat.le_refl _)
      (fun _ _ hj => absurd hj (Nat.not_lt_zero _)) (fun _ hj hle => absurd hj (by omega))
  refine ⟨ys.take p ++ x :: ys.drop p, by rw [insert, hplace]; rfl, ?_, ?_⟩
  · have hmiddle : (ys.take p ++ x :: ys.drop p).Perm (x :: (ys.take p ++ ys.drop p)) :=
      List.perm_middle
    rwa [List.take_append_drop] at hmiddle
  · have hfront : InOrder less (ys.take p) := List.Pairwise.sublist (List.take_sublist p ys) sorted
    have hback : InOrder less (ys.drop p) := List.Pairwise.sublist (List.drop_sublist p ys) sorted
    have hx_front : ∀ a ∈ ys.take p, less x a = .ok false := by
      intro a ha
      obtain ⟨j, hj, rfl⟩ := List.mem_take_iff_getElem.mp ha
      exact before j (by omega) (by omega)
    have hx_back : ∀ b ∈ ys.drop p, less b x = .ok false := by
      intro b hb
      obtain ⟨j, hj, rfl⟩ := List.mem_drop_iff_getElem.mp hb
      exact h.asymm hx (hys _ (List.getElem_mem _)) (behind (p + j) (by omega) (by omega))
    refine List.pairwise_append.mpr ⟨hfront, List.pairwise_cons.mpr ⟨hx_back, hback⟩, ?_⟩
    intro a ha b hb
    rcases List.mem_cons.mp hb with rfl | hb
    · exact hx_front a ha
    · rw [← List.take_append_drop p ys] at sorted
      exact (List.pairwise_append.mp sorted).2.2 a ha b hb

theorem insertAll_inOrder (h : Orders less S) {xs ys : List α} (hxs : ∀ x ∈ xs, S x)
    (hys : ∀ y ∈ ys, S y) (sorted : InOrder less ys) :
    ∃ zs, xs.foldlM (insert less) ys = .ok zs ∧ zs.Perm (xs ++ ys) ∧ InOrder less zs := by
  induction xs generalizing ys with
  | nil => exact ⟨ys, rfl, .refl ys, sorted⟩
  | cons x xs ih =>
    rw [List.forall_mem_cons] at hxs
    obtain ⟨zs, hinsert, hperm, hzs⟩ := insert_inOrder h hxs.1 hys sorted
    have hmem : ∀ z ∈ zs, S z := by
      intro z hz
      rcases List.mem_cons.mp (hperm.mem_iff.mp hz) with rfl | hz
      · exact hxs.1
      · exact hys z hz
    obtain ⟨us, hfold, hperm', hus⟩ := ih hxs.2 hmem hzs
    refine ⟨us, by rw [List.foldlM_cons, hinsert]; exact hfold, ?_, hus⟩
    exact hperm'.trans ((hperm.append_left xs).trans List.perm_middle)

/-! ## The run at the front -/

/-- The elements of a run go on as it began, and it takes them from the front. -/
theorem run_pairwise (h : Orders less S) (falling : Bool) {last : α} {xs : List α}
    (hlast : S last) (hxs : ∀ x ∈ xs, S x) :
    ∃ more rest, run less falling last xs = .ok (more, rest) ∧ xs = more ++ rest ∧
      (last :: more).Pairwise fun a b => less b a = .ok falling := by
  induction xs generalizing last with
  | nil => exact ⟨[], [], rfl, rfl, List.pairwise_singleton _ _⟩
  | cons x xs ih =>
    rw [List.forall_mem_cons] at hxs
    obtain ⟨c, hc⟩ := h.decides hxs.1 hlast
    rw [run, hc]
    by_cases hfalling : c = falling
    · subst hfalling
      obtain ⟨more, rest, hrun, hsplit, hmore⟩ := ih hxs.1 hxs.2
      refine ⟨x :: more, rest, by simp [bind, Except.bind, hrun, pure, Except.pure], by
        rw [hsplit, List.cons_append], List.pairwise_cons.mpr ⟨?_, hmore⟩⟩
      intro b hb
      rcases List.mem_cons.mp hb with rfl | hb
      · exact hc
      · have hbx : less b x = .ok c := (List.pairwise_cons.mp hmore).1 b hb
        have hS : S b := hxs.2 b (hsplit ▸ List.mem_append_left rest hb)
        exact h.chain hS hxs.1 hlast hbx hc
    · refine ⟨[], x :: xs, ?_, rfl, List.pairwise_singleton _ _⟩
      simp [bind, Except.bind, hfalling, pure, Except.pure]

/-- A rising front is in order, and a strictly falling one is when it is turned round. -/
theorem front_inOrder (h : Orders less S) {falling : Bool} {front : List α}
    (hfront : ∀ x ∈ front, S x)
    (hrun : front.Pairwise fun a b => less b a = .ok falling) :
    InOrder less (if falling then front.reverse else front) := by
  cases falling with
  | false => exact hrun
  | true =>
    refine List.pairwise_reverse.mpr (hrun.imp_of_mem ?_)
    intro a b ha hb hba
    exact h.asymm (hfront b hb) (hfront a ha) hba

/-! ## Sorting -/

/-- Elements that a comparison orders are sorted: none fails, none is lost, and the outcome is
in order. -/
theorem sort_inOrder (h : Orders less S) {xs : List α} (hxs : ∀ x ∈ xs, S x) :
    ∃ ys, sort less xs = .ok ys ∧ ys.Perm xs ∧ InOrder less ys := by
  match xs, hxs with
  | [], _ => exact ⟨[], rfl, .nil, List.Pairwise.nil⟩
  | [x], _ => exact ⟨[x], rfl, .refl _, List.pairwise_singleton _ _⟩
  | x :: y :: xs, hxs =>
    simp only [List.forall_mem_cons] at hxs
    obtain ⟨hx, hy, hxs⟩ := hxs
    obtain ⟨falling, hc⟩ := h.decides hy hx
    obtain ⟨more, rest, hrun, rfl, hmore⟩ := run_pairwise h falling hy hxs
    have hmoreS : ∀ z ∈ more, S z := fun z hz => hxs z (List.mem_append_left rest hz)
    have hpairs : (x :: y :: more).Pairwise fun a b => less b a = .ok falling := by
      refine List.pairwise_cons.mpr ⟨?_, hmore⟩
      intro b hb
      rcases List.mem_cons.mp hb with rfl | hb
      · exact hc
      · exact h.chain (hmoreS b hb) hy hx ((List.pairwise_cons.mp hmore).1 b hb) hc
    have hfrontS : ∀ z ∈ x :: y :: more, S z := by
      simp only [List.forall_mem_cons]
      exact ⟨hx, hy, hmoreS⟩
    have hfront := front_inOrder h hfrontS hpairs
    have hperm := turned_perm falling (x :: y :: more)
    obtain ⟨zs, hfold, hzs, hsorted⟩ :=
      insertAll_inOrder h (fun z hz => hxs z (List.mem_append_right more hz))
        (fun z hz => hfrontS z (hperm.mem_iff.mp hz)) hfront
    refine ⟨zs, by simp only [sort, hc, bind, Except.bind, hrun]; exact hfold, ?_, hsorted⟩
    have hparts : (rest ++ (x :: y :: more)).Perm (x :: y :: (more ++ rest)) :=
      List.perm_append_comm
    exact hzs.trans ((hperm.append_left rest).trans hparts)

/-- Where only equal elements are not before one another, sorting forgets the order of what it
is given. -/
theorem sort_eq_of_perm (h : Orders less S) {xs ys : List α} (hxs : ∀ x ∈ xs, S x)
    (separates : ∀ a b, S a → S b → less a b = .ok false → less b a = .ok false → a = b)
    (hperm : xs.Perm ys) : sort less xs = sort less ys := by
  obtain ⟨zs, hzs, hzsperm, hzsorder⟩ := sort_inOrder h hxs
  have hys : ∀ y ∈ ys, S y := fun y hy => hxs y (hperm.mem_iff.mpr hy)
  obtain ⟨us, hus, husperm, husorder⟩ := sort_inOrder h hys
  have : zs.Perm us := hzsperm.trans (hperm.trans husperm.symm)
  rw [hzs, hus, this.eq_of_pairwise ?_ hzsorder husorder]
  intro a b ha hb hba hab
  exact separates a b (hxs a (hzsperm.mem_iff.mp ha)) (hys b (husperm.mem_iff.mp hb)) hab hba

/-! ## Sorting by a decided order -/

section Stability

variable {le : α → α → Bool} (htrans : ∀ a b c, le a b → le b c → le a c)
  (htotal : ∀ a b, le a b || le b a)
include htrans htotal

/-- Elements that are in order stay in place towards each other. -/
theorem filter_mergeSort {p : α → Bool} {xs : List α}
    (h : (xs.filter p).Pairwise fun a b => le a b) : (xs.mergeSort le).filter p = xs.filter p := by
  have hkept := (List.sublist_mergeSort htrans htotal h List.filter_sublist).filter p
  simp only [List.filter_filter, Bool.and_self] at hkept
  exact (hkept.eq_of_length ((List.mergeSort_perm xs le).filter p).length_eq.symm).symm

/-- Of two elements that may stand either way round the one that was first is. -/
theorem mergeSort_stable {R : α → α → Prop} {xs : List α} (h : xs.Pairwise R) :
    (xs.mergeSort le).Pairwise fun a b => le a b ∧ (le b a → R a b) := by
  refine List.pairwise_iff_forall_sublist.mpr fun {a b} hsub => ?_
  have hsorted := List.pairwise_mergeSort htrans htotal xs
  have hle : le a b := List.pairwise_iff_forall_sublist.mp hsorted hsub
  refine ⟨hle, fun hge => ?_⟩
  let tied (c : α) : Bool := le a c && le c a
  have htied : (xs.filter tied).Pairwise fun c d => le c d := by
    refine List.pairwise_of_forall_mem_list fun c hc d hd => ?_
    have hca := (Bool.and_eq_true_iff.mp (List.mem_filter.mp hc).2).2
    have had := (Bool.and_eq_true_iff.mp (List.mem_filter.mp hd).2).1
    exact htrans c a d hca had
  have hrefl : le a a := by simpa using htotal a a
  have hpair := hsub.filter tied
  have hboth : [a, b].filter tied = [a, b] := by simp [tied, hle, hge, hrefl]
  rw [filter_mergeSort htrans htotal htied, hboth] at hpair
  exact List.pairwise_iff_forall_sublist.mp h (hpair.trans List.filter_sublist)

end Stability
/-- Elements sorted by texts stand in the order of these. -/
theorem mergeSort_pairwise (key : α → String) (xs : List α) :
    (xs.mergeSort fun a b => key a ≤ key b).Pairwise fun a b => key a ≤ key b := by
  refine (List.pairwise_mergeSort (fun a b c hab hbc => ?_) (fun a b => ?_) xs).imp
    of_decide_eq_true
  · rw [decide_eq_true_eq] at *
    exact String.le_trans hab hbc
  · rw [Bool.or_eq_true, decide_eq_true_eq, decide_eq_true_eq]
    exact String.le_total (key a) (key b)

/-- Elements under distinct texts, sorted by these, forget their order too. -/
theorem mergeSort_eq_of_perm {key : α → String} {xs ys : List α} (hkeys : (xs.map key).Nodup)
    (hperm : xs.Perm ys) :
    xs.mergeSort (fun a b => key a ≤ key b) = ys.mergeSort (fun a b => key a ≤ key b) := by
  have hsame : (xs.mergeSort fun a b => key a ≤ key b).Perm
      (ys.mergeSort fun a b => key a ≤ key b) :=
    (List.mergeSort_perm xs _).trans (hperm.trans (List.mergeSort_perm ys _).symm)
  refine hsame.eq_of_pairwise ?_ (mergeSort_pairwise key xs) (mergeSort_pairwise key ys)
  intro a b ha hb hab hba
  have hax : a ∈ xs := (List.mergeSort_perm xs _).mem_iff.mp ha
  have hbx : b ∈ xs := hperm.mem_iff.mpr ((List.mergeSort_perm ys _).mem_iff.mp hb)
  exact List.inj_on_of_nodup_map hkeys hax hbx (String.le_antisymm hab hba)

end NoteQuery.Sorting
