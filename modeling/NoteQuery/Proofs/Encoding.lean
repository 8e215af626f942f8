/-
Results have texts.

A whole value can be displayed and turned into plain data, unless an integer in it has more digits
than are written, or a set in it has a member without a structural key.  So each format has a text
for every result whose values are whole, but for these obstacles and for columns that the format has
no form for.  A value that contains itself is the one obstacle that a query can bring about with any
documents: by a formula that has a value that holds the mapping in which it is put.
-/
import NoteQuery.Output.Encoding
import NoteQuery.Proofs.WholeResults

namespace NoteQuery

open Value

namespace Value

/-! ## Plain data -/

/-- A set in the value has a member that has no structural key, and why. -/
inductive Unkeyed (f : Fault) : Value → Prop
  | set {items : List Value} {v : Value} : v ∈ items → v.stableChars = .error f →
      Unkeyed f (.set items)
  | member {items : List Value} {v : Value} : v ∈ items → Unkeyed f v → Unkeyed f (.set items)
  | item {items : List Value} {v : Value} : v ∈ items → Unkeyed f v → Unkeyed f (.list items)
  | entry {live : Bool} {entries : Entries} {e : Value × Value} : e ∈ entries → Unkeyed f e.2 →
      Unkeyed f (.mapping live entries)

/-- There is no plain data for the value. -/
def Hindered (v : Value) (f : Fault) : Prop :=
  v.TooLong f ∨ Unkeyed f v

theorem Hindered.item {v : Value} {f : Fault} (h : v.Hindered f) {items : List Value}
    (hv : v ∈ items) : (Value.list items).Hindered f :=
  h.imp (·.list hv) (.item hv)

theorem Hindered.member {v : Value} {f : Fault} (h : v.Hindered f) {items : List Value}
    (hv : v ∈ items) : (Value.set items).Hindered f :=
  h.imp (·.set hv) (.member hv)

theorem Hindered.entry {e : Value × Value} {f : Fault} (h : e.2.Hindered f) {live : Bool}
    {entries : Entries} (he : e ∈ entries) : (Value.mapping live entries).Hindered f :=
  h.imp (·.mapping (Entries.mem_parts he).2) (.entry he)

theorem failsOnly_plainItems {P : Fault → Prop} {whole : Value} {items : List Value}
    (h : ∀ v ∈ items, FailsOnly P (v.plainWithin whole)) :
    FailsOnly P (plainItems items whole) := by
  induction items with
  | nil => exact failsOnly_ok []
  | cons v items ih =>
    obtain ⟨hv, hrest⟩ := List.forall_mem_cons.mp h
    exact failsOnly_bind hv fun p => failsOnly_bind (ih hrest) fun ps => failsOnly_ok (p :: ps)

theorem failsOnly_plainEntries {P : Fault → Prop} {whole : Value} {entries : Entries}
    (h : ∀ e ∈ entries, FailsOnly P e.1.checkWritable ∧ FailsOnly P (e.2.plainWithin whole)) :
    FailsOnly P (plainEntries entries whole) := by
  induction entries with
  | nil => exact failsOnly_ok []
  | cons e entries ih =>
    obtain ⟨⟨hkey, hv⟩, hrest⟩ := List.forall_mem_cons.mp h
    refine failsOnly_bind hkey fun _ => failsOnly_bind hv fun p => ?_
    exact failsOnly_bind (ih hrest) fun ps => failsOnly_ok _

theorem failsOnly_stableItems {items : List Value} :
    FailsOnly (fun f => Unkeyed f (.set items)) (stableItems items) := by
  have hall (vs : List Value) (hvs : ∀ v ∈ vs, v ∈ items) :
      FailsOnly (fun f => Unkeyed f (.set items)) (stableItems vs) := by
    induction vs with
    | nil => exact failsOnly_ok []
    | cons v vs ih =>
      obtain ⟨hv, hvs⟩ := List.forall_mem_cons.mp hvs
      refine failsOnly_bind (fun f hf => .set hv hf) fun key => ?_
      exact failsOnly_bind (ih hvs) fun keys => failsOnly_ok (key :: keys)
  exact hall items fun _ => id

/-- A mapping becomes plain data if its keys can be written and its values become plain data. -/
theorem failsOnly_mapping {live : Bool} {entries : Entries} {whole : Value}
    (h : ∀ e ∈ entries, ∀ whole, FailsOnly e.2.Hindered (e.2.plainWithin whole)) :
    FailsOnly (Value.mapping live entries).Hindered
      ((Value.mapping live entries).plainWithin whole) := by
  rw [plainWithin]
  refine failsOnly_bind (failsOnly_plainEntries fun e he => ⟨?_, ?_⟩) fun ps => failsOnly_ok _
  · exact (failsOnly_checkWritable e.1).mono fun f hf => .inl (hf.mapping (Entries.mem_parts he).1)
  · exact (h e he _).mono fun f hf => hf.entry he

theorem Whole.failsOnly_plainWithin {v : Value} (h : v.Whole) (whole : Value) :
    FailsOnly v.Hindered (v.plainWithin whole) := by
  have htext {v : Value} (hv : v.Whole) :
      FailsOnly v.Hindered (v.display >>= fun text => .ok (Value.string text)) :=
    failsOnly_bind (hv.failsOnly_display.mono fun _ => .inl) fun _ => failsOnly_ok _
  induction h generalizing whole with
  | null | bool | number | string => exact failsOnly_ok _
  | link path h _ =>
    rw [plainWithin, h.unroll_eq]
    exact htext (.link path h)
  | list _ ih =>
    rw [plainWithin]
    refine failsOnly_bind (failsOnly_plainItems fun v hv => ?_) fun ps => failsOnly_ok _
    exact (ih v hv whole).mono fun f hf => hf.item hv
  | mapping _ ih => exact failsOnly_mapping fun e he => ih e.2 (Entries.mem_parts he).2
  | @set items _ ih =>
    rw [plainWithin]
    refine failsOnly_bind (failsOnly_stableItems.mono fun _ => .inr) fun keys => ?_
    refine failsOnly_bind (failsOnly_plainItems fun v hv => ?_) fun ps => failsOnly_ok _
    exact (ih v hv whole).mono fun f hf => hf.member hv
  | date d => exact htext (.date d)
  | timestamp t => exact htext (.timestamp t)
  | duration d => exact htext (.duration d)
  | pattern p => exact htext (.pattern p)
  | html markup => exact htext (.html markup)
  | image source => exact htext (.image source)
  | icon name => exact htext (.icon name)
  | bytes octets => exact htext (.bytes octets)
  | file h => exact htext (.file h)

/-! ## Integers in plain data -/

theorem mem_plainItems {items ps : List Value} {whole : Value}
    (h : plainItems items whole = .ok ps) {p : Value} (hp : p ∈ ps) :
    ∃ v ∈ items, v.plainWithin whole = .ok p := by
  induction items generalizing ps with
  | nil =>
    cases h
    cases hp
  | cons v items ih =>
    obtain ⟨q, hq, h⟩ := bind_eq_ok.mp h
    obtain ⟨qs, hqs, h⟩ := bind_eq_ok.mp h
    cases h
    rcases List.mem_cons.mp hp with rfl | hp
    · exact ⟨v, List.mem_cons_self, hq⟩
    · obtain ⟨w, hw, hplain⟩ := ih hqs hp
      exact ⟨w, List.mem_cons_of_mem v hw, hplain⟩

theorem mem_plainEntries {entries : Entries} {ps : List (String × Value)} {whole : Value}
    (h : plainEntries entries whole = .ok ps) {p : String × Value} (hp : p ∈ ps) :
    ∃ e ∈ entries, e.2.plainWithin whole = .ok p.2 := by
  induction entries generalizing ps with
  | nil =>
    cases h
    cases hp
  | cons e entries ih =>
    obtain ⟨_, -, h⟩ := bind_eq_ok.mp h
    obtain ⟨q, hq, h⟩ := bind_eq_ok.mp h
    obtain ⟨qs, hqs, h⟩ := bind_eq_ok.mp h
    cases h
    rcases List.mem_cons.mp hp with rfl | hp
    · exact ⟨e, List.mem_cons_self, hq⟩
    · obtain ⟨w, hw, hplain⟩ := ih hqs hp
      exact ⟨w, List.mem_cons_of_mem e hw, hplain⟩

/-- Plain data of a mapping has the integers of the mapping. -/
theorem plainMapping_isWritable {live : Bool} {entries : Entries} {whole p : Value}
    (h : ∀ e ∈ entries, ∀ whole p, e.2.plainWithin whole = .ok p → e.2.isWritable = true →
      p.isWritable = true)
    (hp : (Value.mapping live entries).plainWithin whole = .ok p)
    (hentries : (Value.mapping live entries).isWritable = true) : p.isWritable = true := by
  obtain ⟨ps, hps, hp⟩ := bind_eq_ok.mp hp
  cases hp
  refine entriesAreWritable_iff.mpr (Entries.ofList_parts (List.forall_mem_map.mpr fun q hq => ?_))
  obtain ⟨e, he, hplain⟩ := mem_plainEntries hps hq
  have he' := entriesAreWritable_iff.mp hentries e.2 (Entries.mem_parts he).2
  exact ⟨rfl, h e he _ q.2 hplain he'⟩

theorem Whole.plainWithin_isWritable {v : Value} (h : v.Whole) {whole p : Value}
    (hp : v.plainWithin whole = .ok p) (hv : v.isWritable = true) : p.isWritable = true := by
  have htext {r : Except Fault String} {p : Value}
      (hp : (r >>= fun text => .ok (Value.string text)) = .ok p) : p.isWritable = true := by
    obtain ⟨text, -, hp⟩ := bind_eq_ok.mp hp
    cases hp
    rfl
  induction h generalizing whole p with
  | null | bool | number | string =>
    cases hp
    exact hv
  | list _ ih =>
    obtain ⟨ps, hps, hp⟩ := bind_eq_ok.mp hp
    cases hp
    refine areWritable_iff.mpr fun q hq => ?_
    obtain ⟨v, hmem, hplain⟩ := mem_plainItems hps hq
    exact ih v hmem hplain (areWritable_iff.mp hv v hmem)
  | mapping _ ih =>
    refine plainMapping_isWritable (fun e he whole p hplain hwritable => ?_) hp hv
    exact ih e.2 (Entries.mem_parts he).2 hplain hwritable
  | set _ ih =>
    obtain ⟨keys, -, hp⟩ := bind_eq_ok.mp hp
    obtain ⟨ps, hps, hp⟩ := bind_eq_ok.mp hp
    cases hp
    refine areWritable_iff.mpr fun q hq => ?_
    obtain ⟨kq, hkq, rfl⟩ := List.mem_map.mp hq
    have hmem := (List.of_mem_zip ((List.mergeSort_perm _ _).mem_iff.mp hkq)).2
    obtain ⟨v, hv', hplain⟩ := mem_plainItems hps hmem
    exact ih v hv' hplain (areWritable_iff.mp hv v hv')
  | _ => exact htext hp

end Value

/-! ## Results -/

namespace Result

/-- What a result is written from: its columns, its counts, its rows, its groups and summaries. -/
def sources (r : Result) : List Value :=
  [.list r.columns, statsData r.stats] ++ r.rows.map (fun row => .object row.projected) ++
    (r.groups.getD []).flatMap
      (fun group => group.key :: group.rows.map fun row => .object row.projected) ++
    r.summaries.toList.map .object

/-- The formats for which values become plain data. -/
def dataFormats : List OutputFormat :=
  [.json, .jsonLines, .yaml]

/-- Why a result has no text in a format: an integer is too long, the format has no form for a
column, or a set among the values has a member without a structural key. -/
inductive Obstacle (r : Result) : OutputFormat → Fault → Prop
  | integer {format : OutputFormat} {v : Value} : v ∈ r.sources → v.isWritable = false →
      Obstacle r format .integerTooLong
  | jsonColumn {column : Value} : column ∈ r.columns → isJsonColumn column = false →
      Obstacle r .json .wrongKind
  | yamlColumn {column : Value} : column ∈ r.columns → isYamlColumn column = false →
      Obstacle r .yaml .wrongKind
  | member {format : OutputFormat} {f : Fault} {v : Value} : format ∈ dataFormats → v ∈ r.values →
      Unkeyed f v → Obstacle r format f

section Obstacles

variable {r : Result} {format : OutputFormat}

theorem Obstacle.of_tooLong {v : Value} {f : Fault} (hv : v ∈ r.sources) (h : v.TooLong f) :
    r.Obstacle format f := by
  obtain ⟨rfl, hlong⟩ := h
  exact .integer hv hlong

/-- What can be written if all sources can is no obstacle of its own. -/
theorem failsOnly_checkWritable {v : Value}
    (h : (∀ w ∈ r.sources, w.isWritable = true) → v.isWritable = true) :
    FailsOnly (r.Obstacle format) v.checkWritable := by
  refine (Value.failsOnly_checkWritable v).mono fun f hf => ?_
  by_contra hnone
  refine Bool.eq_false_iff.mp hf.2 (h fun w hw => ?_)
  by_contra hlong
  exact hnone (.of_tooLong hw ⟨hf.1, Bool.eq_false_iff.mpr hlong⟩)

/-! ### Sources -/

theorem columns_mem : .list r.columns ∈ r.sources :=
  List.mem_append_left _ (List.mem_append_left _ (List.mem_append_left _ List.mem_cons_self))

theorem stats_mem : statsData r.stats ∈ r.sources :=
  List.mem_append_left _ (List.mem_append_left _ (List.mem_append_left _
    (List.mem_cons_of_mem _ List.mem_cons_self)))

theorem row_mem {row : Row} (h : row ∈ r.rows) : .object row.projected ∈ r.sources :=
  List.mem_append_left _ (List.mem_append_left _ (List.mem_append_right _
    (List.mem_map_of_mem (f := fun row : Row => Value.object row.projected) h)))

section Groups

variable {groups : List Group} (hgroups : r.groups = some groups) {group : Group}
  (hgroup : group ∈ groups)
include hgroups hgroup

theorem group_subset :
    group.key :: group.rows.map (fun row => .object row.projected) ⊆ r.sources := by
  intro v hv
  refine List.mem_append_left _ (List.mem_append_right _ (List.mem_flatMap.mpr ⟨group, ?_, hv⟩))
  rw [hgroups]
  exact hgroup

theorem group_values : group.key :: group.rows.flatMap Row.values ⊆ r.values := by
  intro v hv
  refine List.mem_append_left _ (List.mem_append_right _ (List.mem_flatMap.mpr ⟨group, ?_, hv⟩))
  rw [hgroups]
  exact hgroup

end Groups

theorem row_values {row : Row} (h : row ∈ r.rows) : row.values ⊆ r.values := fun _ hv =>
  List.mem_append_left _ (List.mem_append_left _ (List.mem_append_right _
    (List.mem_flatMap.mpr ⟨row, h, hv⟩)))

section Summaries

variable {entries : Entries} (h : r.summaries = some entries)
include h

theorem summaries_mem : .object entries ∈ r.sources := by
  refine List.mem_append_right _ ?_
  rw [h]
  exact List.mem_singleton_self _

theorem summary_values : entries.map (·.2) ⊆ r.values := by
  refine fun v hv => List.mem_append_right _ ?_
  rw [h]
  exact hv

end Summaries

theorem own_rows : ∀ row ∈ r.rows, .object row.projected ∈ r.sources ∧ row.values ⊆ r.values :=
  fun _ hrow => ⟨row_mem hrow, row_values hrow⟩

theorem group_rows {groups : List Group} (hgroups : r.groups = some groups) {group : Group}
    (hgroup : group ∈ groups) :
    ∀ row ∈ group.rows, .object row.projected ∈ r.sources ∧ row.values ⊆ r.values := by
  intro row hrow
  constructor
  · refine group_subset hgroups hgroup (List.mem_cons_of_mem _ ?_)
    exact List.mem_map_of_mem (f := fun row : Row => Value.object row.projected) hrow
  · refine fun v hv => group_values hgroups hgroup (List.mem_cons_of_mem _ ?_)
    exact List.mem_flatMap.mpr ⟨row, hrow, hv⟩

/-! ### Plain data of whole values -/

section Data

variable (hwhole : ∀ v ∈ r.values, v.Whole) (hformat : format ∈ dataFormats)
include hwhole hformat

theorem failsOnly_plain {v : Value} (hsource : v ∈ r.sources) (hv : v ∈ r.values) :
    FailsOnly (r.Obstacle format) v.plain := by
  refine ((hwhole v hv).failsOnly_plainWithin _).mono fun f hf => ?_
  rcases hf with hlong | hunkeyed
  · exact .of_tooLong hsource hlong
  · exact .member hformat hv hunkeyed

theorem failsOnly_plain_object {entries : Entries} (hsource : .object entries ∈ r.sources)
    (hvalues : entries.map (·.2) ⊆ r.values) :
    FailsOnly (r.Obstacle format) (Value.object entries).plain := by
  have hentries : ∀ e ∈ entries, e.2 ∈ r.values := fun e he =>
    hvalues (List.mem_map_of_mem (f := fun e : Value × Value => e.2) he)
  refine (failsOnly_mapping fun e he whole =>
    (hwhole e.2 (hentries e he)).failsOnly_plainWithin whole).mono fun f hf => ?_
  rcases hf with hlong | hunkeyed
  · exact .of_tooLong hsource hlong
  · cases hunkeyed with
    | entry he hunkeyed => exact .member hformat (hentries _ he) hunkeyed

theorem failsOnly_rowsData {rows : List Row}
    (hrows : ∀ row ∈ rows, .object row.projected ∈ r.sources ∧ row.values ⊆ r.values) :
    FailsOnly (r.Obstacle format) (rowsData rows) := by
  refine failsOnly_bind (failsOnly_mapM fun row hrow => ?_) fun _ => failsOnly_ok _
  exact failsOnly_plain_object hwhole hformat (hrows row hrow).1 (hrows row hrow).2

theorem failsOnly_groupsData : FailsOnly (r.Obstacle format) (groupsData r.groups) := by
  cases hgroups : r.groups with
  | none => exact failsOnly_ok _
  | some groups =>
    refine failsOnly_bind (failsOnly_mapM fun group hgroup => ?_) fun _ => failsOnly_ok _
    refine failsOnly_bind (failsOnly_plain hwhole hformat ?_ ?_) fun key => ?_
    · exact group_subset hgroups hgroup List.mem_cons_self
    · exact group_values hgroups hgroup List.mem_cons_self
    · refine failsOnly_bind ?_ fun rows => failsOnly_ok _
      exact failsOnly_rowsData hwhole hformat (group_rows hgroups hgroup)

theorem failsOnly_summariesData : FailsOnly (r.Obstacle format) (summariesData r.summaries) := by
  cases hentries : r.summaries with
  | none => exact failsOnly_ok _
  | some entries =>
    exact failsOnly_plain_object hwhole hformat (summaries_mem hentries) (summary_values hentries)

theorem failsOnly_resultData : FailsOnly (r.Obstacle format) r.resultData := by
  refine failsOnly_bind (failsOnly_groupsData hwhole hformat) fun groups => ?_
  refine failsOnly_bind (failsOnly_rowsData hwhole hformat own_rows) fun rows => ?_
  exact failsOnly_bind (failsOnly_summariesData hwhole hformat) fun summaries => failsOnly_ok _

end Data

/-! ### Integers in plain data -/

theorem data_isWritable {fields : List (String × Value)}
    (h : ∀ field ∈ fields, field.2.isWritable = true) : (data fields).isWritable = true := by
  refine entriesAreWritable_iff.mpr (Entries.forall_parts.mpr (List.forall_mem_map.mpr ?_))
  exact fun field hfield => ⟨rfl, h field hfield⟩

section Written

variable (hwhole : ∀ v ∈ r.values, v.Whole) (hsources : ∀ v ∈ r.sources, v.isWritable = true)
include hwhole hsources

theorem plain_object_isWritable {entries : Entries} (hsource : .object entries ∈ r.sources)
    (hvalues : entries.map (·.2) ⊆ r.values) {p : Value}
    (hp : (Value.object entries).plain = .ok p) : p.isWritable = true := by
  refine plainMapping_isWritable (fun e he whole p hplain => ?_) hp (hsources _ hsource)
  have hv := hvalues (List.mem_map_of_mem (f := fun e : Value × Value => e.2) he)
  exact (hwhole e.2 hv).plainWithin_isWritable hplain

theorem rowsData_isWritable {rows : List Row}
    (hrows : ∀ row ∈ rows, .object row.projected ∈ r.sources ∧ row.values ⊆ r.values) {p : Value}
    (hp : rowsData rows = .ok p) : p.isWritable = true := by
  obtain ⟨ps, hps, hp⟩ := bind_eq_ok.mp hp
  cases hp
  refine areWritable_iff.mpr fun q hq => ?_
  obtain ⟨row, hrow, hplain⟩ := exists_of_mem_mapM hps hq
  exact plain_object_isWritable hwhole hsources (hrows row hrow).1 (hrows row hrow).2 hplain

theorem groupsData_isWritable {p : Value} (hp : groupsData r.groups = .ok p) :
    p.isWritable = true := by
  cases hgroups : r.groups with
  | none =>
    rw [hgroups] at hp
    cases hp
    rfl
  | some groups =>
    rw [hgroups] at hp
    obtain ⟨ps, hps, hp⟩ := bind_eq_ok.mp hp
    cases hp
    refine areWritable_iff.mpr fun q hq => ?_
    obtain ⟨group, hgroup, hq⟩ := exists_of_mem_mapM hps hq
    obtain ⟨key, hkey, hq⟩ := bind_eq_ok.mp hq
    obtain ⟨rows, hrows, hq⟩ := bind_eq_ok.mp hq
    cases hq
    have hwholeKey := hwhole group.key (group_values hgroups hgroup List.mem_cons_self)
    have hkey := hwholeKey.plainWithin_isWritable hkey
      (hsources _ (group_subset hgroups hgroup List.mem_cons_self))
    have hrows := rowsData_isWritable hwhole hsources (group_rows hgroups hgroup) hrows
    exact data_isWritable (List.forall_mem_cons.mpr ⟨hkey, List.forall_mem_singleton.mpr hrows⟩)

theorem summariesData_isWritable {p : Value} (hp : summariesData r.summaries = .ok p) :
    p.isWritable = true := by
  cases hentries : r.summaries with
  | none =>
    rw [hentries] at hp
    cases hp
    rfl
  | some entries =>
    rw [hentries] at hp
    exact plain_object_isWritable hwhole hsources (summaries_mem hentries)
      (summary_values hentries) hp

/-- If all that a result is written from can be written, so can it as plain data. -/
theorem resultData_isWritable {rows v : Value} (h : r.resultData = .ok (rows, v)) :
    rows.isWritable = true ∧ v.isWritable = true := by
  obtain ⟨groups, hgroups, h⟩ := bind_eq_ok.mp h
  obtain ⟨rows, hrows, h⟩ := bind_eq_ok.mp h
  obtain ⟨summaries, hsummaries, h⟩ := bind_eq_ok.mp h
  cases h
  have hrows := rowsData_isWritable hwhole hsources own_rows hrows
  have htexts (texts : List String) : (textsData texts).isWritable = true :=
    areWritable_iff.mpr (List.forall_mem_map.mpr fun _ _ => rfl)
  have hdiagnostics : (diagnosticsData r.diagnostics).isWritable = true :=
    data_isWritable (List.forall_mem_cons.mpr ⟨htexts _, List.forall_mem_singleton.mpr (htexts _)⟩)
  refine ⟨hrows, data_isWritable ?_⟩
  simp only [List.forall_mem_cons]
  exact ⟨rfl, hrows, hsources _ columns_mem, groupsData_isWritable hwhole hsources hgroups,
    summariesData_isWritable hwhole hsources hsummaries, hsources _ stats_mem, hdiagnostics,
    List.forall_mem_nil _⟩

end Written

/-! ### Texts -/

theorem failsOnly_checkColumns {hasForm : Value → Bool}
    (hform : ∀ column ∈ r.columns, hasForm column = false → r.Obstacle format .wrongKind) :
    FailsOnly (r.Obstacle format) (checkColumns hasForm r.columns) := by
  have hall (columns : List Value) (hcolumns : ∀ column ∈ columns, column ∈ r.columns) :
      FailsOnly (r.Obstacle format) (checkColumns hasForm columns) := by
    induction columns with
    | nil => exact failsOnly_ok ()
    | cons column columns ih =>
      obtain ⟨hcolumn, hrest⟩ := List.forall_mem_cons.mp hcolumns
      rw [checkColumns]
      split
      · refine failsOnly_bind (failsOnly_checkWritable fun hsources => ?_) fun _ => ih hrest
        exact areWritable_iff.mp (hsources _ columns_mem) column hcolumn
      · next hnone => exact failsOnly_error (hform column hcolumn (Bool.eq_false_iff.mpr hnone))
  exact hall r.columns fun _ => id

variable (hwhole : ∀ v ∈ r.values, v.Whole)
include hwhole

theorem failsOnly_checkedData (hformat : format ∈ dataFormats) {hasForm : Value → Bool}
    (hform : ∀ column ∈ r.columns, hasForm column = false → r.Obstacle format .wrongKind) :
    FailsOnly (r.Obstacle format) (r.checkedData hasForm) := by
  refine failsOnly_bind_of_ok (failsOnly_resultData hwhole hformat) fun p hp => ?_
  refine failsOnly_bind (failsOnly_checkWritable fun hsources => ?_) fun _ => ?_
  · exact (resultData_isWritable hwhole hsources hp).1
  · refine failsOnly_bind (failsOnly_checkColumns hform) fun _ => ?_
    refine failsOnly_bind (failsOnly_checkWritable fun hsources => ?_) fun _ => failsOnly_ok _
    exact (resultData_isWritable hwhole hsources hp).2

theorem failsOnly_displayRows : FailsOnly (r.Obstacle format) r.shownRows := by
  refine failsOnly_mapM fun row hrow => failsOnly_mapM fun column _ => ?_
  cases hfound : row.projected.find? column with
  | none => exact (Whole.null.failsOnly_display).mono fun f hf => absurd hf.2 nofun
  | some v =>
    obtain ⟨e, he, rfl⟩ := Option.map_eq_some_iff.mp hfound
    have he := List.mem_of_find?_eq_some he
    have hv : e.2 ∈ r.values :=
      row_values hrow (List.mem_map_of_mem (f := fun e : Value × Value => e.2) he)
    refine (hwhole e.2 hv).failsOnly_display.mono fun f hf => ?_
    exact .of_tooLong (row_mem hrow) (hf.mapping (Entries.mem_parts he).2)

/-- A result of whole values has a text in each format, unless there is an obstacle. -/
theorem failsOnly_encode (format : OutputFormat) :
    FailsOnly (r.Obstacle format) (r.encode format) := by
  cases format with
  | json =>
    refine failsOnly_bind (failsOnly_checkedData hwhole (by decide) ?_) fun _ => failsOnly_ok _
    exact fun column hcolumn hform => .jsonColumn hcolumn hform
  | yaml =>
    refine failsOnly_bind (failsOnly_checkedData hwhole (by decide) ?_) fun _ => failsOnly_ok _
    exact fun column hcolumn hform => .yamlColumn hcolumn hform
  | jsonLines =>
    refine failsOnly_bind_of_ok (failsOnly_mapM fun row hrow => ?_) fun ps hps => ?_
    · exact failsOnly_plain_object hwhole (by decide) (row_mem hrow) (row_values hrow)
    · refine failsOnly_bind (failsOnly_checkWritable fun hsources => ?_) fun _ => failsOnly_ok _
      refine rowsData_isWritable hwhole hsources own_rows ?_
      rw [rowsData, hps]
      rfl
  | csv =>
    refine failsOnly_bind (failsOnly_checkWritable fun hsources => ?_) fun _ => ?_
    · exact hsources _ columns_mem
    · exact failsOnly_bind (failsOnly_displayRows hwhole) fun _ => failsOnly_ok _
  | markdown =>
    refine failsOnly_bind (failsOnly_mapM fun column hcolumn => ?_) fun _ => ?_
    · have hv : column ∈ r.values :=
        List.mem_append_left _ (List.mem_append_left _ (List.mem_append_left _ hcolumn))
      exact (hwhole column hv).failsOnly_display.mono fun f hf =>
        .of_tooLong columns_mem (hf.list hcolumn)
    · exact failsOnly_bind (failsOnly_displayRows hwhole) fun _ => failsOnly_ok _

end Obstacles

end Result

/-! ## Runs -/

namespace Run

/-- Unless a formula has a value that holds the mapping in which it is put, nothing in the rows, the
group keys and the summaries of a result contains itself, and each format has a text for the result
but for an obstacle; and a column that is no text, for which there may be no form, is a key in the
note of some document. -/
theorem result_encodes {r : Run} {name : Option String} {res : Result}
    (hdocs : ∀ doc ∈ r.documents, doc.Whole) (hnames : ∀ f ∈ r.query.orderedFormulas, f.1.Whole)
    (hself : ¬ r.StoresItself) (h : r.result name = .ok res) :
    (∀ v ∈ res.values, v.Whole ∧ v.hasCycle = false) ∧
      (∀ column ∈ res.columns,
        (∃ t, column = .string t) ∨ ∃ doc ∈ r.documents, ∃ e ∈ doc.note, column = e.1) ∧
      ∀ format, (∃ text, res.encode format = .ok text) ∨
        ∃ f, res.encode format = .error f ∧ res.Obstacle format f := by
  have hwhole := result_whole hdocs hnames hself h
  refine ⟨fun v hv => ⟨hwhole v hv, (hwhole v hv).hasCycle_eq⟩, fun column => mem_columns h,
    fun format => ?_⟩
  cases hencode : res.encode format with
  | ok text => exact .inl ⟨text, rfl⟩
  | error f => exact .inr ⟨f, rfl, Result.failsOnly_encode hwhole format f hencode⟩

/-- One formula, and a view that shows the mapping of formulas for one document. -/
def showingFormulas (text : String) (e : Expr) : Run where
  query := {
    spec := {
      views := [{ name := "all", columns := some ["formula"] }]
      formulas := [(.string "f", text)] }
    strict := true
    globalFilter := none
    viewFilters := [("all", none)]
    formulas := [(.string "f", e)]
    formulaOrder := [.string "f"]
    summaries := [] }
  documents := [onlyDocument]
  now := default
  library := .builtin

theorem parse_formula : Expr.parse "formula" = .ok (.name "formula") := by
  decide +kernel

/-- The query is what is prepared for it, if the formula reads none by its name. -/
theorem ofSpec_showingFormulas {text : String} {e : Expr}
    (hnone : FormulaOrder.references text = []) (hparse : Expr.parse text = .ok e) :
    PreparedQuery.ofSpec (showingFormulas text e).query.spec true =
      .ok (showingFormulas text e).query := by
  have horder : FormulaOrder.order [(.string "f", text)] = .ok [.string "f"] := by
    have hrefs : FormulaOrder.declaredReferences [(.string "f", text)] = [(.string "f", [])] := by
      simp only [FormulaOrder.declaredReferences, List.map_cons, List.map_nil, hnone,
        List.filter_nil]
    rw [FormulaOrder.order, hrefs]
    rfl
  have hread : PreparedQuery.readNamed [(.string "f", text)] = .ok [(.string "f", e)] := by
    simp only [PreparedQuery.readNamed, List.mapM_cons, List.mapM_nil, hparse]
    rfl
  simp only [PreparedQuery.ofSpec, PreparedQuery.withoutGlobalFilter, showingFormulas, horder,
    hread]
  rfl

/-- The result, from the value of the formula as it is stored. -/
theorem result_showingFormulas {text : String} {e : Expr} {v : Value}
    (hv : e.eval ((showingFormulas text e).scope (showingFormulas text e).files onlyDocument.start
      none) = .ok v) :
    (showingFormulas text e).result none = .ok {
      view := "all"
      columns := [.string "formula"]
      rows := [{ onlyDocument.start with
        formula := [(.string "f", v.closeCycles)]
        projected := [(.string "formula", .mapping true [(.string "f", v.closeCycles)])] }]
      groups := none
      summaries := none
      stats := ⟨1, 1, none⟩
      diagnostics := ⟨[], []⟩ } := by
  let r := showingFormulas text e
  let row : Row := { onlyDocument.start with formula := [(.string "f", v.closeCycles)] }
  let shown : Row := { row with projected := [(.string "formula", .mapping true row.formula)] }
  have hrow : r.rowOf r.files [] onlyDocument = .ok (some row) := by
    rw [rowOf_of_computes (.step hv (.done row))]
    rfl
  have hcell : cell (r.scope r.files row none) row (.string "formula") =
      .ok (.mapping true row.formula, []) := by
    show expressionCell _ row "formula" = _
    rw [expressionCell, parse_formula]
    rfl
  refine result_eq_ok.mpr ⟨{ name := "all", columns := some ["formula"] }, rfl, ?_, ?_⟩
  · exact {
      chosen := [row]
      errors := []
      rowsOf_eq := by
        show r.rowsOf r.files [] [onlyDocument] = _
        rw [rowsOf, hrow]
        rfl
      ordered := [row]
      sortWarnings := []
      sorted_eq := rfl
      kept := [row]
      limited_eq := rfl
      columns := [.string "formula"]
      columnsOf_eq := rfl
      rows := [shown]
      cellWarnings := []
      projected_eq := by
        rw [forRows, projectedRow, cells, hcell]
        rfl
      groups := none
      groupWarnings := []
      grouped_eq := rfl
      summaries := []
      summaryWarnings := []
      summarized_eq := rfl }
  · simp only [Stages.result, sortErrors, List.mergeSort_nil]
    rfl

theorem onlyDocument_settled : onlyDocument.Settled := by
  refine ⟨List.forall_mem_nil _, .file fun v hv => ?_⟩
  simp only [onlyDocument, FileRecord.parts, Entries.parts, List.map_nil, List.append_nil,
    List.not_mem_nil] at hv

theorem onlyDocument_whole : onlyDocument.Whole :=
  ⟨fun v hv => (onlyDocument_settled.1 v hv).whole, onlyDocument_settled.2.whole⟩

/-- A formula that is 1 can be shown with all others, which are none. -/
theorem result_encodes_one :
    let r := showingFormulas "1" (.literal (.number (.int 1)) "1")
    (∀ doc ∈ r.documents, doc.Whole) ∧ (∀ f ∈ r.query.orderedFormulas, f.1.Whole) ∧
      ¬ r.StoresItself ∧ ∃ res, r.result none = .ok res ∧
        (∀ v ∈ res.values, v.Whole ∧ v.hasCycle = false) ∧
        ∀ format, ∃ text, res.encode format = .ok text := by
  intro r
  have hdocs : ∀ doc ∈ r.documents, doc.Whole := List.forall_mem_singleton.mpr onlyDocument_whole
  have hnames : ∀ f ∈ r.query.orderedFormulas, f.1.Whole :=
    List.forall_mem_singleton.mpr (.string "f")
  have hself : ¬ r.StoresItself :=
    not_storesItself (List.forall_mem_singleton.mpr onlyDocument_settled)
      (List.forall_mem_singleton.mpr ⟨.string "f", .literal _ _⟩)
  have hres : r.result none = .ok _ := result_showingFormulas rfl
  obtain ⟨hvalues, -, hencode⟩ := result_encodes hdocs hnames hself hres
  refine ⟨hdocs, hnames, hself, _, hres, hvalues, fun format => (hencode format).resolve_right ?_⟩
  rintro ⟨f, hf, -⟩
  cases format <;> cases hf

/-- A formula that has the mapping of formulas as its value is put into it, and then the mapping can
be shown, but there is no plain data for it. -/
theorem result_storesItself :
    let r := showingFormulas "formula" (.name "formula")
    PreparedQuery.ofSpec r.query.spec true = .ok r.query ∧ (∀ doc ∈ r.documents, doc.Whole) ∧
      ∃ res, r.result none = .ok res ∧ (∃ v ∈ res.values, v.hasCycle = true) ∧
        ∀ format ∈ Result.dataFormats, res.encode format = .error .selfContaining := by
  refine ⟨ofSpec_showingFormulas (by decide) parse_formula,
    List.forall_mem_singleton.mpr onlyDocument_whole, _, result_showingFormulas rfl,
    ⟨_, List.mem_cons_of_mem _ List.mem_cons_self, rfl⟩, ?_⟩
  decide

end Run

end NoteQuery
