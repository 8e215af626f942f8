/-
Values that can be displayed.

What stands in the way of displaying a value is an integer in it that has more digits than are
written, or that the value leads back to itself through a link; nothing else does
(`display_eq_error`).  Whatever is made from display forms, or from the texts of keys, is missing
for one of these reasons too.
-/
import NoteQuery.Proofs.Outcomes
import NoteQuery.Proofs.Whole
import NoteQuery.Value.Display

namespace NoteQuery

namespace Value

/-! ## Integers that can be written -/

theorem areWritable_iff {items : List Value} :
    areWritable items = true ↔ ∀ v ∈ items, v.isWritable = true := by
  induction items with
  | nil => exact ⟨fun _ => List.forall_mem_nil _, fun _ => rfl⟩
  | cons v items ih => rw [areWritable, Bool.and_eq_true, ih, List.forall_mem_cons]

theorem entriesAreWritable_iff {entries : Entries} :
    entriesAreWritable entries = true ↔ ∀ v ∈ Entries.parts entries, v.isWritable = true := by
  rw [Entries.forall_parts]
  induction entries with
  | nil => exact ⟨fun _ => List.forall_mem_nil _, fun _ => rfl⟩
  | cons e entries ih =>
    rw [entriesAreWritable, Bool.and_eq_true, Bool.and_eq_true, ih, List.forall_mem_cons]

/-- An integer in the value has too many digits to be written. -/
def TooLong (v : Value) (f : Fault) : Prop :=
  f = .integerTooLong ∧ v.isWritable = false

theorem checkWritable_eq_ok {v : Value} : v.checkWritable = .ok () ↔ v.isWritable = true := by
  unfold checkWritable
  split
  · next h => exact iff_of_true rfl h
  · next h => exact iff_of_false nofun h

theorem checkWritable_eq_error {v : Value} {f : Fault} :
    v.checkWritable = .error f ↔ v.TooLong f := by
  unfold checkWritable
  split
  · next h => exact iff_of_false nofun fun hv => Bool.eq_false_iff.mp hv.2 h
  · next h =>
    rw [TooLong, Bool.eq_false_iff, and_iff_left h, Except.error.injEq]
    exact eq_comm

theorem failsOnly_checkWritable (v : Value) : FailsOnly v.TooLong v.checkWritable :=
  fun _ => checkWritable_eq_error.mp

theorem TooLong.list {v : Value} {f : Fault} (h : v.TooLong f) {items : List Value}
    (hv : v ∈ items) : (Value.list items).TooLong f := by
  refine ⟨h.1, Bool.eq_false_iff.mpr fun hitems => Bool.eq_false_iff.mp h.2 ?_⟩
  exact areWritable_iff.mp hitems v hv

theorem TooLong.set {v : Value} {f : Fault} (h : v.TooLong f) {items : List Value}
    (hv : v ∈ items) : (Value.set items).TooLong f := by
  refine ⟨h.1, Bool.eq_false_iff.mpr fun hitems => Bool.eq_false_iff.mp h.2 ?_⟩
  exact areWritable_iff.mp hitems v hv

theorem TooLong.mapping {v : Value} {f : Fault} (h : v.TooLong f) {live : Bool} {entries : Entries}
    (hv : v ∈ Entries.parts entries) : (Value.mapping live entries).TooLong f := by
  refine ⟨h.1, Bool.eq_false_iff.mpr fun hentries => Bool.eq_false_iff.mp h.2 ?_⟩
  exact entriesAreWritable_iff.mp hentries v hv

/-! ## What can be displayed -/

theorem itemsHaveData_ok {entered within : Bool} {items : List Value}
    (h : ∀ v ∈ items, ∃ b, v.hasData entered within = .ok b) :
    ∃ b, itemsHaveData entered within items = .ok b := by
  induction items with
  | nil => exact ⟨true, rfl⟩
  | cons v items ih =>
    obtain ⟨⟨b, hb⟩, hrest⟩ := List.forall_mem_cons.mp h
    rw [itemsHaveData, hb]
    cases b with
    | true => exact ih hrest
    | false => exact ⟨false, rfl⟩

theorem entriesHaveData_ok {entered within : Bool} {entries : Entries}
    (h : ∀ e ∈ entries, ∃ b, e.2.hasData entered within = .ok b) :
    ∃ b, entriesHaveData entered within entries = .ok b := by
  induction entries with
  | nil => exact ⟨true, rfl⟩
  | cons e entries ih =>
    obtain ⟨⟨b, hb⟩, hrest⟩ := List.forall_mem_cons.mp h
    rw [entriesHaveData, hb]
    split
    · exact ⟨false, rfl⟩
    · cases b with
      | true => exact ih hrest
      | false => exact ⟨false, rfl⟩

theorem hasDataIf_ok {r : Except Fault Unit} {v : Value} (h : FailsOnly v.TooLong r) :
    ∃ b, hasDataIf r = .ok b := by
  cases r with
  | ok _ => exact ⟨true, rfl⟩
  | error f =>
    obtain ⟨rfl, -⟩ := h f rfl
    exact ⟨false, rfl⟩

theorem failsOnly_checkAllShown {entered : Bool} {items : List Value}
    (h : ∀ v ∈ items, FailsOnly v.TooLong (v.checkShown entered)) :
    FailsOnly (Value.set items).TooLong (checkAllShown entered items) := by
  have hall (vs : List Value) (hvs : ∀ v ∈ vs, v ∈ items) :
      FailsOnly (Value.set items).TooLong (checkAllShown entered vs) := by
    induction vs with
    | nil => exact failsOnly_ok ()
    | cons v vs ih =>
      obtain ⟨hv, hvs⟩ := List.forall_mem_cons.mp hvs
      exact failsOnly_bind ((h v hv).mono fun f hf => hf.set hv) fun _ => ih hvs
  exact hall items fun _ => id

/-- Showing a whole value comes to an end, and what keeps it from being shown is an integer that is
too long. -/
theorem Whole.checkShown_hasData {v : Value} (h : v.Whole) :
    (∀ entered, FailsOnly v.TooLong (v.checkShown entered)) ∧
      ∀ entered within, ∃ b, v.hasData entered within = .ok b := by
  induction h with
  | number n => exact ⟨fun _ => failsOnly_checkWritable _, fun _ _ => ⟨_, rfl⟩⟩
  | duration d => exact ⟨fun _ => failsOnly_checkWritable _, fun _ _ => ⟨_, rfl⟩⟩
  | link path _ ih =>
    refine ⟨fun entered => ?_, fun entered within => ?_⟩
    · rw [checkShown]
      exact ih.1 entered
    · rw [hasData]
      exact hasDataIf_ok (ih.1 entered)
  | @list items _ ih =>
    have hdata (entered within : Bool) : ∃ b, itemsHaveData entered within items = .ok b :=
      itemsHaveData_ok fun v hv => (ih v hv).2 entered within
    refine ⟨fun entered => ?_, fun entered within => ?_⟩
    · obtain ⟨b, hb⟩ := hdata entered false
      rw [checkShown, hb]
      cases b with
      | true => exact failsOnly_ok ()
      | false => exact failsOnly_checkWritable _
    · rw [hasData]
      exact hdata entered within
  | @mapping live entries _ ih =>
    have hdata (entered within : Bool) : ∃ b, entriesHaveData entered within entries = .ok b :=
      entriesHaveData_ok fun e he => (ih e.2 (Entries.mem_parts he).2).2 entered within
    refine ⟨fun entered => ?_, fun entered within => ?_⟩
    · obtain ⟨b, hb⟩ := hdata (entered || live) live
      rw [checkShown, hb]
      cases b with
      | true => exact failsOnly_ok ()
      | false => exact failsOnly_checkWritable _
    · rw [hasData]
      exact hdata (entered || live) (within || live)
  | @set items _ ih =>
    have hall (entered : Bool) :
        FailsOnly (Value.set items).TooLong (checkAllShown entered items) :=
      failsOnly_checkAllShown fun v hv => (ih v hv).1 entered
    refine ⟨fun entered => ?_, fun entered within => ?_⟩
    · rw [checkShown]
      exact hall entered
    · rw [hasData]
      exact hasDataIf_ok (hall entered)
  | _ => exact ⟨fun _ => failsOnly_ok (), fun _ _ => ⟨true, rfl⟩⟩

theorem Whole.failsOnly_display {v : Value} (h : v.Whole) : FailsOnly v.TooLong v.display :=
  failsOnly_bind (h.checkShown_hasData.1 false) fun _ => failsOnly_ok _

/-! ## Ways in which displays are missing -/

theorem failsOnly_hasDataIf (r : Except Fault Unit) :
    FailsOnly (· = Fault.selfContaining) (hasDataIf r) := by
  intro f h
  unfold hasDataIf at h
  split at h
  · cases h
  · cases h
    rfl
  · cases h

mutual

/-- Whether there is compact data is always known, unless there is no end to it. -/
theorem failsOnly_hasData (entered within : Bool) :
    (v : Value) → FailsOnly (· = Fault.selfContaining) (v.hasData entered within)
  | link _ _ | set _ => by
    rw [hasData]
    exact failsOnly_hasDataIf _
  | list items => by
    rw [hasData]
    exact failsOnly_itemsHaveData entered within items
  | mapping live entries => by
    rw [hasData]
    exact failsOnly_entriesHaveData (entered || live) (within || live) entries
  | cycle => by
    rw [hasData]
    split
    · exact failsOnly_error rfl
    · exact failsOnly_ok false
  | number _ | duration _ | null | bool _ | string _ | date _ | timestamp _ | pattern _ | file _
  | html _ | image _ | icon _ | bytes _ => failsOnly_ok _

theorem failsOnly_itemsHaveData (entered within : Bool) :
    (items : List Value) → FailsOnly (· = Fault.selfContaining) (itemsHaveData entered within items)
  | [] => failsOnly_ok true
  | v :: vs => by
    rw [itemsHaveData]
    refine failsOnly_bind (failsOnly_hasData entered within v) fun hasData => ?_
    cases hasData with
    | true => exact failsOnly_itemsHaveData entered within vs
    | false => exact failsOnly_ok false

theorem failsOnly_entriesHaveData (entered within : Bool) :
    (entries : Entries) →
      FailsOnly (· = Fault.selfContaining) (entriesHaveData entered within entries)
  | [] => failsOnly_ok true
  | (k, v) :: rest => by
    rw [entriesHaveData]
    split
    · exact failsOnly_ok false
    · refine failsOnly_bind (failsOnly_hasData entered within v) fun hasData => ?_
      cases hasData with
      | true => exact failsOnly_entriesHaveData entered within rest
      | false => exact failsOnly_ok false

end

/-- The value has no end, or an integer in it is too long. -/
def Undisplayable (v : Value) (f : Fault) : Prop :=
  f = .selfContaining ∨ v.TooLong f

mutual

theorem failsOnly_checkShown (entered : Bool) :
    (v : Value) → FailsOnly v.Undisplayable (v.checkShown entered)
  | number _ | duration _ => (failsOnly_checkWritable _).mono fun _ => .inr
  | link path shown => by
    rw [checkShown]
    exact failsOnly_checkShown entered shown
  | list items => by
    rw [checkShown]
    refine failsOnly_bind ((failsOnly_itemsHaveData _ _ items).mono fun _ => .inl) fun hasData => ?_
    cases hasData with
    | true => exact failsOnly_ok ()
    | false => exact (failsOnly_checkWritable _).mono fun _ => .inr
  | mapping live entries => by
    rw [checkShown]
    refine failsOnly_bind ((failsOnly_entriesHaveData _ _ entries).mono fun _ => .inl)
      fun hasData => ?_
    cases hasData with
    | true => exact failsOnly_ok ()
    | false => exact (failsOnly_checkWritable _).mono fun _ => .inr
  | set items => by
    rw [checkShown]
    exact failsOnly_checkAll entered items
  | cycle => by
    rw [checkShown]
    split
    · exact failsOnly_error (.inl rfl)
    · exact failsOnly_ok ()
  | null | bool _ | string _ | date _ | timestamp _ | pattern _ | file _ | html _ | image _
  | icon _ | bytes _ => failsOnly_ok ()

theorem failsOnly_checkAll (entered : Bool) :
    (items : List Value) → FailsOnly (Value.set items).Undisplayable (checkAllShown entered items)
  | [] => failsOnly_ok ()
  | v :: vs => by
    rw [checkAllShown]
    refine failsOnly_bind ((failsOnly_checkShown entered v).mono fun f hf => ?_) fun _ => ?_
    · exact hf.imp_right (·.set List.mem_cons_self)
    · refine (failsOnly_checkAll entered vs).mono fun f hf => hf.imp_right fun h => ⟨h.1, ?_⟩
      refine Bool.eq_false_iff.mpr fun hall => Bool.eq_false_iff.mp h.2 (areWritable_iff.mpr ?_)
      exact fun w hw => areWritable_iff.mp hall w (List.mem_cons_of_mem v hw)

end

/-- A value that is not displayed has an integer that is too long, or leads back to itself. -/
theorem display_eq_error {v : Value} {f : Fault} (h : v.display = .error f) :
    v.TooLong f ∨ f = .selfContaining ∧ ¬ v.Whole := by
  by_cases hwhole : v.Whole
  · exact .inl (hwhole.failsOnly_display f h)
  · have h := bind_return_eq_error.mp h
    exact ((failsOnly_checkShown false v f h).imp_left (⟨·, hwhole⟩)).symm

theorem display_eq_ok {v : Value} {text : String} :
    v.display = .ok text ↔ v.checkShown false = .ok () ∧ v.displayText = text := by
  rw [display, bind_eq_ok]
  constructor
  · rintro ⟨_, h, htext⟩
    exact ⟨h, Except.ok.inj htext⟩
  · rintro ⟨h, htext⟩
    exact ⟨(), h, congrArg Except.ok htext⟩

theorem checkAllShown_eq_ok {entered : Bool} {items : List Value} :
    checkAllShown entered items = .ok () ↔ ∀ v ∈ items, v.checkShown entered = .ok () := by
  induction items with
  | nil => exact iff_of_true rfl (List.forall_mem_nil _)
  | cons v vs ih =>
    rw [checkAllShown, bind_eq_ok, List.forall_mem_cons, ← ih]
    exact ⟨fun ⟨_, hv, hvs⟩ => ⟨hv, hvs⟩, fun ⟨hv, hvs⟩ => ⟨(), hv, hvs⟩⟩

theorem exists_of_checkAllShown {entered : Bool} {items : List Value} {f : Fault}
    (h : checkAllShown entered items = .error f) :
    ∃ v ∈ items, v.checkShown entered = .error f := by
  induction items with
  | nil => cases h
  | cons v vs ih =>
    rw [checkAllShown] at h
    rcases bind_eq_error.mp h with h | ⟨_, -, h⟩
    · exact ⟨v, List.mem_cons_self, h⟩
    · obtain ⟨w, hw, hshown⟩ := ih h
      exact ⟨w, List.mem_cons_of_mem v hw, hshown⟩

theorem display_eq_error_iff {v : Value} {f : Fault} :
    v.display = .error f ↔ v.checkShown false = .error f := by
  rw [display, bind_return_eq_error]

theorem display_number_eq_error {n : Number} {f : Fault} :
    (number n).display = .error f ↔ (number n).TooLong f := by
  rw [display_eq_error_iff, checkShown, checkWritable_eq_error]

theorem display_number {n : Number} (h : n.isWritable = true) :
    (number n).display = .ok n.display := by
  have hshown : (number n).checkShown false = .ok () := checkWritable_eq_ok.mpr h
  exact display_eq_ok.mpr ⟨hshown, rfl⟩

theorem display_duration {d : Duration} (h : (duration d).isWritable = true) :
    (duration d).display = .ok d.display := by
  have hshown : (duration d).checkShown false = .ok () := checkWritable_eq_ok.mpr h
  exact display_eq_ok.mpr ⟨hshown, rfl⟩

/-- The least integer that is too long to be written. -/
def unwritable : Value :=
  .int (pow10 4300)

theorem isWritable_unwritable : unwritable.isWritable = false := by
  decide +kernel

theorem display_unwritable : unwritable.display = .error .integerTooLong :=
  display_number_eq_error.mpr ⟨rfl, isWritable_unwritable⟩

end Value

end NoteQuery
