/-
How far values are in an order.

Sorting asks of a comparison that it be turned round with its arguments, and that coming not behind
one another be transitive.  The first holds of all values that can be compared at all.  The second
holds where the comparisons among three values are all made in one way (`ComparedAlike`): by
their numbers, or by their display forms.  A missing value is shown as the empty text, which comes
before everything that can be displayed, so it may stand among values of other kinds, too.

It does not hold of all values (`compare_not_transitive`).  The numbers 9 and 10 are compared as
numbers, and both are compared with the text `9` as texts.  And durations are compared by a
difference for which an integer may have to be rounded, so that a duration may tie with two numbers
of which one is less.
-/
import NoteQuery.Proofs.Comparability
import NoteQuery.Proofs.Differences
import NoteQuery.Proofs.RowOrder
import Mathlib.Data.String.Basic

namespace NoteQuery

/-! ## Display forms that are not empty -/

theorem ofList_ne_empty {cs : List Char} (h : cs ≠ []) : String.ofList cs ≠ "" :=
  fun hempty => h (String.toList_ofList.symm.trans (congrArg String.toList hempty))

theorem Date.iso_ne_empty (d : Date) : d.iso ≠ "" := by
  refine ofList_ne_empty ?_
  rw [Date.isoChars]
  exact List.append_ne_nil_of_right_ne_nil _ (List.cons_ne_nil _ _)

theorem Timestamp.iso_ne_empty (t : Timestamp) : t.iso ≠ "" := by
  refine ofList_ne_empty ?_
  simp only [List.append_assoc]
  exact List.append_ne_nil_of_right_ne_nil _ (List.cons_ne_nil _ _)

theorem Binary64.literal_ne_empty {s : Bool} {m : Nat} {e : Int} (h : Binary64.Canonical m e) :
    (Binary64.finite s m e h).literal ≠ "" := by
  have hpositional (digits : List Char) (point : Int) : positional digits point ≠ [] := by
    unfold positional
    split
    · nofun
    · split
      · exact List.append_ne_nil_of_right_ne_nil _ (List.cons_ne_nil _ _)
      · exact List.append_ne_nil_of_right_ne_nil _ (List.cons_ne_nil _ _)
  have hscientific (digits : List Char) (exp : Int) : scientific digits exp ≠ [] :=
    List.append_ne_nil_of_right_ne_nil _ (List.cons_ne_nil _ _)
  refine ofList_ne_empty ?_
  split
  · nofun
  · split
    · nofun
    · split
      dsimp only
      split
      · exact hpositional _ _
      · exact hscientific _ _

theorem Number.display_ne_empty (n : Number) : n.display ≠ "" := by
  have hinteger (n : Int) : String.ofList (integerText n) ≠ "" := by
    refine ofList_ne_empty ?_
    unfold integerText
    split
    · nofun
    · exact Nat.toDigits_ne_nil
  cases n with
  | int n => exact hinteger n
  | float x =>
    cases x with
    | nan => decide
    | infinite s => cases s <;> decide
    | finite s m e h =>
      rw [display]
      split
      · exact hinteger _
      · exact Binary64.literal_ne_empty h

namespace Value

/-! ## Ways of comparing -/

/-- The value converts to that number, which is one. -/
def HasNumber (v : Value) (n : Number) : Prop :=
  v.toNumber false = .ok n ∧ n.isNan = false

/-- The values are compared by their numbers, which they have: both are moments, numbers or truth
values, or one is a duration, and then the difference of the numbers can be taken and is not
lost by rounding one of them. -/
inductive ComparedByNumber (v w : Value) : Prop
  | exact {m n : Number} : v.HasNumber m → w.HasNumber n → v.kind = w.kind →
      v.kind = .date ∨ v.kind = .number ∨ v.kind = .boolean → ComparedByNumber v w
  | difference {m n : Number} : v.HasNumber m → w.HasNumber n →
      v.kind = .duration ∨ w.kind = .duration → ¬ m.Clash n → ¬ m.Merged n → ¬ n.Merged m →
      ComparedByNumber v w

/-- All comparisons among three values are made in one way, or one of the values is shown as
nothing and the last of them can be shown. -/
inductive ComparedAlike (u v w : Value) : Prop
  | byNumber : ComparedByNumber u v → ComparedByNumber v w → ComparedByNumber u w →
      ComparedAlike u v w
  | asShown : ComparedAsShown u v → ComparedAsShown v w → ComparedAsShown u w →
      ComparedAlike u v w
  | withBlank {text : String} : u.display = .ok "" ∨ v.display = .ok "" ∨ w.display = .ok "" →
      w.display = .ok text → u.kind ≠ .duration ∧ v.kind ≠ .duration ∧ w.kind ≠ .duration →
      ComparedAlike u v w

section Ways

variable {u v w : Value} {m n : Number}

theorem HasNumber.unique (hm : v.HasNumber m) (hn : v.HasNumber n) : m = n :=
  Except.ok.inj (hm.1.symm.trans hn.1)

theorem moment_eq_none (h : v.kind ≠ .date) : v.moment? = none := by
  cases ht : v.moment? with
  | none => rfl
  | some t => exact absurd (kind_of_moment ht) h

/-- Values of one kind that has numbers are ordered as these. -/
theorem compare_of_same_kind (hm : v.HasNumber m) (hn : w.HasNumber n) (hkind : v.kind = w.kind)
    (h : v.kind = .date ∨ v.kind = .number ∨ v.kind = .boolean) :
    compare false v w = .ok (cmp m.place n.place) := by
  rcases h with h | h | h
  · obtain ⟨t, ht⟩ := exists_moment_of_kind h
    obtain ⟨s, hs⟩ := exists_moment_of_kind (hkind ▸ h)
    have hm := hm.1
    have hn := hn.1
    rw [toNumber_moment ht, Failure.ofFault_eq_ok, map_eq_ok] at hm
    rw [toNumber_moment hs, Failure.ofFault_eq_ok, map_eq_ok] at hn
    obtain ⟨i, hi, rfl⟩ := hm
    obtain ⟨j, hj, rfl⟩ := hn
    rw [← Number.order_eq rfl rfl]
    simp only [compare, ht, hs, Failure.ofFault_eq_ok]
    rw [hi, hj]
    rfl
  · cases v with
    | number k =>
      cases w with
      | number l =>
        obtain rfl : k = m := Except.ok.inj hm.1
        obtain rfl : l = n := Except.ok.inj hn.1
        exact congrArg Except.ok (Number.order_eq hm.2 hn.2)
      | _ => cases hkind
    | _ => cases h
  · cases v with
    | bool a =>
      cases w with
      | bool b =>
        obtain rfl : Number.int (if a then 1 else 0) = m := Except.ok.inj hm.1
        obtain rfl : Number.int (if b then 1 else 0) = n := Except.ok.inj hn.1
        rw [← Number.order_eq rfl rfl]
        cases a <;> cases b <;> rfl
      | _ => cases hkind
    | _ => cases h

/-- A duration and anything else are ordered as their numbers, if the difference shows it. -/
theorem compare_of_duration (hm : v.HasNumber m) (hn : w.HasNumber n)
    (h : v.kind = .duration ∨ w.kind = .duration) (hclash : ¬ m.Clash n) (hmn : ¬ m.Merged n)
    (hnm : ¬ n.Merged m) : compare false v w = .ok (cmp m.place n.place) := by
  have hnone {v : Value} (h : v.kind = .duration) : v.moment? = none :=
    moment_eq_none (by rw [h]; nofun)
  have hmoment : v.moment? = none ∨ w.moment? = none := h.imp hnone hnone
  rw [compare_of_no_moment false hmoment, if_pos h, hm.1, hn.1]
  obtain ⟨d, hd⟩ : ∃ d, m.sub n = .ok d := by
    cases hsub : m.sub n with
    | error f => exact absurd (Number.combine_eq_error_iff.mp hsub).1 hclash
    | ok d => exact ⟨d, rfl⟩
  rw [← Number.signOf_sub hm.2 hn.2 hmn hnm hd]
  show (Failure.ofFault (m.sub n) >>= fun d => .ok (signOf d)) = _
  rw [hd]
  rfl

theorem ComparedByNumber.compare_eq (h : ComparedByNumber v w) (hm : v.HasNumber m)
    (hn : w.HasNumber n) : compare false v w = .ok (cmp m.place n.place) := by
  cases h with
  | exact hm' hn' hkind h => exact compare_of_same_kind hm hn hkind h
  | difference hm' hn' h hclash hmn hnm =>
    obtain rfl := hm.unique hm'
    obtain rfl := hn.unique hn'
    exact compare_of_duration hm hn h hclash hmn hnm

theorem ComparedByNumber.numbers (h : ComparedByNumber v w) :
    ∃ m n, v.HasNumber m ∧ w.HasNumber n := by
  cases h with
  | exact hm hn => exact ⟨_, _, hm, hn⟩
  | difference hm hn => exact ⟨_, _, hm, hn⟩

theorem ComparedAsShown.compare_eq (h : ComparedAsShown v w) : compare false v w =
    Failure.ofFault (do return compareTexts (← v.display) (← w.display)) := by
  obtain ⟨⟨hv, hw⟩, hdates, hnumbers⟩ := h
  have hmoment : v.moment? = none ∨ w.moment? = none := by
    by_contra hmoments
    rw [not_or] at hmoments
    obtain ⟨t, ht⟩ := Option.ne_none_iff_exists'.mp hmoments.1
    obtain ⟨s, hs⟩ := Option.ne_none_iff_exists'.mp hmoments.2
    exact hdates ⟨kind_of_moment ht, kind_of_moment hs⟩
  rw [compare_of_no_moment false hmoment, if_neg (not_or.mpr ⟨hv, hw⟩)]
  congr 1
  unfold orderAsWritten
  split
  · rfl
  · exact absurd ⟨rfl, rfl⟩ hnumbers
  · next a b => cases a <;> cases b <;> decide
  · rfl

/-- What is shown as nothing is neither a number nor a date. -/
theorem kind_of_blank (h : v.display = .ok "") : v.kind ≠ .number ∧ v.kind ≠ .date := by
  have htext : v.displayText = "" := (display_eq_ok.mp h).2
  cases v with
  | number n =>
    rw [displayText] at htext
    exact absurd htext n.display_ne_empty
  | date d =>
    rw [displayText] at htext
    exact absurd htext d.iso_ne_empty
  | timestamp t =>
    rw [displayText] at htext
    exact absurd htext t.iso_ne_empty
  | _ => exact ⟨nofun, nofun⟩

theorem ComparedAsShown.of_blank (h : v.display = .ok "" ∨ w.display = .ok "")
    (hv : v.kind ≠ .duration) (hw : w.kind ≠ .duration) : ComparedAsShown v w := by
  rcases h with h | h
  · obtain ⟨hnumber, hdate⟩ := kind_of_blank h
    exact ⟨⟨hv, hw⟩, fun hdates => hdate hdates.1, fun hnumbers => hnumber hnumbers.1⟩
  · obtain ⟨hnumber, hdate⟩ := kind_of_blank h
    exact ⟨⟨hv, hw⟩, fun hdates => hdate hdates.2, fun hnumbers => hnumber hnumbers.2⟩

theorem ComparedAsShown.notBehind_iff (h : ComparedAsShown v w) :
    NotBehind v w ↔ ∃ s t, v.display = .ok s ∧ w.display = .ok t ∧ s ≤ t := by
  rw [NotBehind, h.compare_eq]
  constructor
  · rintro ⟨o, ho, hgt⟩
    obtain ⟨s, hs, ho⟩ := bind_eq_ok.mp (Failure.ofFault_eq_ok.mp ho)
    obtain ⟨t, ht, ho⟩ := bind_eq_ok.mp ho
    cases ho
    exact ⟨s, t, hs, ht, String.not_lt.mp (mt compareTexts_eq_gt_iff.mpr hgt)⟩
  · rintro ⟨s, t, hs, ht, hle⟩
    rw [hs, ht]
    exact ⟨_, rfl, mt compareTexts_eq_gt_iff.mp (String.not_lt.mpr hle)⟩

theorem ComparedByNumber.notBehind_iff (h : ComparedByNumber v w) (hm : v.HasNumber m)
    (hn : w.HasNumber n) : NotBehind v w ↔ m.place ≤ n.place := by
  rw [NotBehind, h.compare_eq hm hn, ← not_lt, ← cmp_eq_gt_iff]
  constructor
  · rintro ⟨o, ho, hgt⟩
    cases ho
    exact hgt
  · intro hgt
    exact ⟨_, rfl, hgt⟩

theorem empty_le (s : String) : "" ≤ s := by
  rw [← String.not_lt, String.lt_iff_toList_lt]
  exact List.not_lt_nil _

theorem eq_empty_of_le {s : String} (h : s ≤ "") : s = "" :=
  String.le_antisymm h (empty_le s)

/-- Not to come behind is transitive where comparisons are made in one way. -/
theorem ComparedAlike.trans (h : ComparedAlike u v w) (huv : NotBehind u v)
    (hvw : NotBehind v w) : NotBehind u w := by
  cases h with
  | byNumber hcuv hcvw hcuw =>
    obtain ⟨k, m, hk, hm⟩ := hcuv.numbers
    obtain ⟨-, n, -, hn⟩ := hcvw.numbers
    rw [hcuw.notBehind_iff hk hn]
    rw [hcuv.notBehind_iff hk hm] at huv
    rw [hcvw.notBehind_iff hm hn] at hvw
    exact huv.trans hvw
  | asShown hcuv hcvw hcuw =>
    obtain ⟨a, b, ha, hb, hab⟩ := hcuv.notBehind_iff.mp huv
    obtain ⟨b', c, hb', hc, hbc⟩ := hcvw.notBehind_iff.mp hvw
    obtain rfl : b = b' := Except.ok.inj (hb.symm.trans hb')
    exact hcuw.notBehind_iff.mpr ⟨a, c, ha, hc, String.le_trans hab hbc⟩
  | withBlank hblank hlast hkinds =>
    obtain ⟨hu, hv, hw⟩ := hkinds
    -- What does not come behind a blank is blank itself, so the first of the three is.
    have hfirst : u.display = .ok "" := by
      have hback {v w : Value} (hv : v.kind ≠ .duration) (hw : w.kind ≠ .duration)
          (hvw : NotBehind v w) (h : w.display = .ok "") : v.display = .ok "" := by
        obtain ⟨s, t, hs, ht, hle⟩ :=
          (ComparedAsShown.of_blank (.inr h) hv hw).notBehind_iff.mp hvw
        obtain rfl : t = "" := Except.ok.inj (ht.symm.trans h)
        rw [hs, eq_empty_of_le hle]
      rcases hblank with h | h | h
      · exact h
      · exact hback hu hv huv h
      · exact hback hu hv huv (hback hv hw hvw h)
    exact (ComparedAsShown.of_blank (.inl hfirst) hu hw).notBehind_iff.mpr
      ⟨_, _, hfirst, hlast, empty_le _⟩

end Ways

/-! ## The order -/

/-- Two values that can be compared stand in opposite orders from either side, and among three
that are compared alike not to come behind one another is transitive. -/
theorem compare_orders :
    (∀ v w, (∃ f, Incomparable false v w f) ∨
      ∃ o, compare false v w = .ok o ∧ compare false w v = .ok o.swap) ∧
    ∀ u v w, ComparedAlike u v w → NotBehind u v → NotBehind v w → NotBehind u w := by
  refine ⟨fun v w => ?_, fun u v w => ComparedAlike.trans⟩
  cases h : compare false v w with
  | ok o => exact .inr ⟨o, rfl, compare_swap h⟩
  | error e =>
    obtain ⟨f, -, hf⟩ := incomparable_of_compare h
    exact .inl ⟨f, hf⟩

/-- An hour lies between two and a half milliseconds and a number of five million of them. -/
theorem compare_orders_anHour :
    ComparedAlike (float (.ofRatio false 5 2)) (duration ⟨[⟨.hour, 1⟩]⟩) (int 5000000) ∧
      NotBehind (float (.ofRatio false 5 2)) (int 5000000) := by
  have hbefore : HasNumber (float (.ofRatio false 5 2)) (.float (.ofRatio false 5 2)) :=
    ⟨rfl, rfl⟩
  have hhour : HasNumber (duration ⟨[⟨.hour, 1⟩]⟩) (.int 3600000) := ⟨rfl, rfl⟩
  have hafter : HasNumber (int 5000000) (.int 5000000) := ⟨rfl, rfl⟩
  have halike : ComparedAlike (float (.ofRatio false 5 2)) (duration ⟨[⟨.hour, 1⟩]⟩)
      (int 5000000) := by
    refine .byNumber ?_ ?_ ?_
    · refine .difference hbefore hhour (.inr rfl) ?_ nofun ?_
      · rintro (_ | ⟨⟨hhuge⟩⟩)
        exact absurd (hhuge.trans (show _ ≤ 2 ^ 22 by decide))
          (Nat.not_le.mpr (Binary64.two_pow_lt_overflowStart (by decide)))
      · rintro ⟨hfloat, hsame, -⟩
        obtain rfl : Binary64.ofInt 3600000 = _ := Except.ok.inj hfloat
        exact absurd hsame (by decide)
    · exact .difference hhour hafter (.inl rfl) nofun nofun nofun
    · exact .exact hbefore hafter rfl (.inr (.inl rfl))
  exact ⟨halike, compare_orders.2 _ _ _ halike ⟨.lt, rfl, nofun⟩ ⟨.lt, rfl, nofun⟩⟩

theorem not_notBehind {v w : Value} (h : compare false v w = .ok .gt) : ¬ NotBehind v w := by
  rintro ⟨o, ho, hgt⟩
  rw [h] at ho
  cases ho
  exact hgt rfl

/-- Ten does not come behind the text `9` and that not behind nine; and a duration whose length is
a binary number ties with the lengths 2⁵³ and 2⁵³ + 1. -/
theorem compare_not_transitive :
    (NotBehind (int 10) (string "9") ∧ NotBehind (string "9") (int 9) ∧
      ¬ NotBehind (int 10) (int 9)) ∧
    let longer := duration ⟨[⟨.millisecond, .int 9007199254740992⟩, ⟨.millisecond, 1⟩]⟩
    let half : DurationPart := ⟨.millisecond, .float (.ofRatio false 1 2)⟩
    let rounded := duration ⟨[half, ⟨.millisecond, .int 9007199254740991⟩, half]⟩
    let shorter := duration ⟨[⟨.millisecond, .int 9007199254740992⟩]⟩
    NotBehind longer rounded ∧ NotBehind rounded shorter ∧ ¬ NotBehind longer shorter := by
  refine ⟨⟨⟨.lt, ?_, nofun⟩, ⟨.eq, ?_, nofun⟩, not_notBehind ?_⟩,
    ⟨.eq, ?_, nofun⟩, ⟨.eq, ?_, nofun⟩, not_notBehind ?_⟩
  · rfl
  · rfl
  · rfl
  · decide +kernel
  · decide +kernel
  · decide +kernel

end Value

end NoteQuery
