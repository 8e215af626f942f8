/-
Groups divide the rows.

The rows of a view that groups go into buckets one by one.  At every step the buckets are those of
the rows so far: one for each structural key, in the order of the first rows, with the rows of that
key in their order (`addToGroup_bucketsOf`).  Then the buckets are sorted by how their keys are
displayed, and sorting keeps those in order that are displayed alike (`heads_pairwise`).  So each
row of a result is in one of its groups, and in one with another row exactly if both have the same
structural key (`groups_divide`).
-/
import NoteQuery.Proofs.Representatives
import NoteQuery.Proofs.Stages

namespace NoteQuery

namespace Run

/-! ## Buckets -/

section Buckets

variable {structural : String} {key : Value} {row : Row}

theorem addToGroup_of_not_mem {buckets : List (String × Group)}
    (h : structural ∉ buckets.map (·.1)) : addToGroup structural key row buckets =
      buckets ++ [(structural, ⟨key, [row]⟩)] := by
  induction buckets with
  | nil => rfl
  | cons bucket buckets ih =>
    rw [List.map_cons, List.mem_cons, not_or] at h
    rw [addToGroup, if_neg (Ne.symm h.1), ih h.2, List.cons_append]

/-- The bucket with a further row, if that is where the row belongs. -/
def withRow (structural : String) (row : Row) (bucket : String × Group) : String × Group :=
  (bucket.1, { bucket.2 with
    rows := bucket.2.rows ++ if structural = bucket.1 then [row] else [] })

theorem withRow_of_ne {bucket : String × Group} (h : structural ≠ bucket.1) :
    withRow structural row bucket = bucket := by
  rw [withRow, if_neg h, List.append_nil]

theorem addToGroup_of_mem {buckets : List (String × Group)} (hnodup : (buckets.map (·.1)).Nodup)
    (h : structural ∈ buckets.map (·.1)) :
    addToGroup structural key row buckets = buckets.map (withRow structural row) := by
  induction buckets with
  | nil => cases h
  | cons bucket buckets ih =>
    obtain ⟨hother, hnodup⟩ := List.nodup_cons.mp hnodup
    rw [addToGroup, List.map_cons]
    by_cases hsame : structural = bucket.1
    · -- No other bucket has this key.
      have hrest : buckets.map (withRow structural row) = buckets := by
        rw [List.map_congr_left (g := id), List.map_id]
        refine fun other hmem => withRow_of_ne fun h => ?_
        exact hother (List.mem_map.mpr ⟨other, hmem, h.symm.trans hsame⟩)
      rw [if_pos hsame.symm, hrest, withRow, if_pos hsame]
    · rw [if_neg (Ne.symm hsame), withRow_of_ne hsame,
        ih hnodup ((List.mem_cons.mp h).resolve_left hsame)]

/-- The rows of a structural key, in their order. -/
def rowsUnder (structural : String) (keyed : List ((String × Value) × Row)) : List Row :=
  (keyed.filter (·.1.1 = structural)).map (·.2)

theorem rowsUnder_concat (keyed : List ((String × Value) × Row)) (p : (String × Value) × Row) :
    rowsUnder structural (keyed ++ [p]) =
      rowsUnder structural keyed ++ if p.1.1 = structural then [p.2] else [] := by
  rw [rowsUnder, rowsUnder, List.filter_append, List.map_append, List.filter_singleton]
  by_cases h : p.1.1 = structural
  · rw [if_pos h, decide_eq_true h]
    rfl
  · rw [if_neg h, decide_eq_false h]
    rfl

theorem rowsUnder_eq (structural : String) (keyed : List ((String × Value) × Row)) :
    rowsUnder structural keyed =
      ((List.finRange keyed.length).filter (keyed[·].1.1 = structural)).map (keyed[·].2) := by
  have hkeyed := List.map_getElem_finRange keyed
  refine (congrArg (rowsUnder structural) hkeyed.symm).trans ?_
  rw [rowsUnder, List.filter_map, List.map_map]
  rfl

/-- The group of the rows that have the structural key of a row. -/
def groupOf (keyed : List ((String × Value) × Row)) (p : (String × Value) × Row) : Group :=
  ⟨p.1.2, rowsUnder p.1.1 keyed⟩

/-- The rows by their structural keys, in the order of the first rows. -/
def bucketsOf (keyed : List ((String × Value) × Row)) : List (String × Group) :=
  (newcomers (·.1.1) [] keyed).map fun p => (p.1.1, groupOf keyed p)

theorem keys_bucketsOf (keyed : List ((String × Value) × Row)) :
    (bucketsOf keyed).map (·.1) = (newcomers (·.1.1) [] keyed).map (·.1.1) := by
  rw [bucketsOf, List.map_map]
  rfl

/-- A further row goes to the rows of its structural key, or behind all others if it is the first
of its key. -/
theorem addToGroup_bucketsOf (keyed : List ((String × Value) × Row))
    (p : (String × Value) × Row) :
    addToGroup p.1.1 p.1.2 p.2 (bucketsOf keyed) = bucketsOf (keyed ++ [p]) := by
  have hnodup : ((bucketsOf keyed).map (·.1)).Nodup :=
    keys_bucketsOf keyed ▸ nodup_newcomers [] keyed
  have hmem : p.1.1 ∈ (bucketsOf keyed).map (·.1) ↔ p.1.1 ∈ keyed.map (·.1.1) :=
    keys_bucketsOf keyed ▸ mem_labels_newcomers List.not_mem_nil
  rw [bucketsOf.eq_def (keyed ++ [p]), newcomers_concat]
  by_cases hold : p.1.1 ∈ keyed.map (·.1.1)
  · rw [if_pos (.inr hold), List.append_nil, addToGroup_of_mem hnodup (hmem.mpr hold), bucketsOf,
      List.map_map]
    refine List.map_congr_left fun q _ => ?_
    simp only [Function.comp_apply, withRow, groupOf, rowsUnder_concat]
  · rw [if_neg (not_or.mpr ⟨List.not_mem_nil, hold⟩), addToGroup_of_not_mem (mt hmem.mp hold),
      bucketsOf, List.map_append]
    have hfirst : rowsUnder p.1.1 keyed = [] := by
      rw [rowsUnder, List.map_eq_nil_iff, List.filter_eq_nil_iff]
      intro q hq hsame
      exact hold (of_decide_eq_true hsame ▸ List.mem_map_of_mem (f := (·.1.1)) hq)
    congr 1
    · refine List.map_congr_left fun q hq => ?_
      have hother : p.1.1 ≠ q.1.1 :=
        fun hsame => hold (hsame ▸ List.mem_map_of_mem (f := (·.1.1)) (newcomers_subset hq))
      rw [groupOf, groupOf, rowsUnder_concat, if_neg hother, List.append_nil]
    · rw [List.map_singleton, groupOf, rowsUnder_concat, if_pos rfl, hfirst, List.nil_append]

theorem bucketed_eq (keyed : List ((String × Value) × Row)) :
    bucketed keyed = (newcomers (·.1.1) [] keyed).map (groupOf keyed) := by
  have hfold : keyed.foldl (fun buckets p => addToGroup p.1.1 p.1.2 p.2 buckets) [] =
      bucketsOf keyed := by
    -- The last row is the one that goes in last.
    induction keyed using List.reverseRecOn with
    | nil => rfl
    | append_singleton keyed p ih =>
      rw [List.foldl_append, ih]
      exact addToGroup_bucketsOf keyed p
  exact (congrArg (List.map Prod.snd) hfold).trans List.map_map

end Buckets

/-! ## The order of groups -/

/-- The text comes before the other or is the same, as the direction goes. -/
def NotBehind (direction : SortDirection) (s t : String) : Bool :=
  match direction with
  | .rising => s ≤ t
  | .falling => t ≤ s

/-- The text comes before the other, as the direction goes. -/
def Before (direction : SortDirection) (s t : String) : Prop :=
  match direction with
  | .rising => s < t
  | .falling => t < s

section Order

variable {direction : SortDirection} {s t u : String}

theorem notBehind_trans (hst : NotBehind direction s t) (htu : NotBehind direction t u) :
    NotBehind direction s u := by
  have hle {s t u : String} (hst : decide (s ≤ t)) (htu : decide (t ≤ u)) : decide (s ≤ u) :=
    decide_eq_true (String.le_trans (of_decide_eq_true hst) (of_decide_eq_true htu))
  cases direction with
  | rising => exact hle hst htu
  | falling => exact hle htu hst

theorem notBehind_total (direction : SortDirection) (s t : String) :
    NotBehind direction s t || NotBehind direction t s := by
  rw [Bool.or_eq_true]
  cases direction with
  | rising => exact (String.le_total s t).imp decide_eq_true decide_eq_true
  | falling => exact (String.le_total t s).imp decide_eq_true decide_eq_true

theorem before_or_eq (h : NotBehind direction s t) :
    Before direction s t ∨ s = t ∧ NotBehind direction t s := by
  have hcases {s t : String} (h : s ≤ t) : s < t ∨ s = t ∧ t ≤ s := by
    by_cases hge : t ≤ s
    · exact .inr ⟨String.le_antisymm h hge, hge⟩
    · exact .inl (String.not_le.mp hge)
  cases direction with
  | rising => exact (hcases (of_decide_eq_true h)).imp_right (And.imp_right decide_eq_true)
  | falling =>
    exact (hcases (of_decide_eq_true h)).imp_right (And.imp Eq.symm decide_eq_true)

/-- Sorted by texts, elements stand as their texts go, and those with the same text as before. -/
theorem pairwise_mergeSort_texts {α : Type} (direction : SortDirection) (text : α → String)
    {R : α → α → Prop} {as : List α} (h : as.Pairwise R) :
    (as.mergeSort fun a b => NotBehind direction (text a) (text b)).Pairwise fun a b =>
      Before direction (text a) (text b) ∨ text a = text b ∧ R a b := by
  have hstable := Sorting.mergeSort_stable
    (fun a b c => notBehind_trans (s := text a) (t := text b) (u := text c))
    (fun a b => notBehind_total direction (text a) (text b)) h
  exact hstable.imp fun ⟨hle, htied⟩ => (before_or_eq hle).imp_right (And.imp_right htied)

end Order

theorem sortGroups_eq (direction : SortDirection) (groups : List Group) :
    sortGroups direction groups =
      groups.mergeSort fun a b => NotBehind direction a.key.displayText b.key.displayText := by
  cases direction <;> rfl

/-! ## Groups and rows -/

section Groups

variable {direction : SortDirection} {keyed : List ((String × Value) × Row)} {groups : List Group}

/-- The groups divide rows among them: `place` says of each row, which comes with its structural key
and its value to group by, in which group it is.  A group has its rows in their order and the value
of the first of them for its key.  The groups stand in the order in which their keys are displayed,
and those that are displayed alike in the order of their first rows. -/
structure Divides (direction : SortDirection) (keyed : List ((String × Value) × Row))
    (groups : List Group) (place : Fin keyed.length → Fin groups.length) : Prop where
  rows_eq : ∀ g, groups[g].rows =
    ((List.finRange keyed.length).filter (place · = g)).map (keyed[·].2)
  place_eq_iff : ∀ i j, place i = place j ↔ keyed[i].1.2.stableKey = keyed[j].1.2.stableKey
  first : ∀ g, ∃ i, place i = g ∧ (∀ j < i, place j ≠ g) ∧ groups[g].key = keyed[i].1.2
  inOrder : ∀ g h, g < h → Before direction groups[g].key.displayText groups[h].key.displayText ∨
    groups[g].key.displayText = groups[h].key.displayText ∧
      ∃ i, place i = g ∧ ∀ j, place j = h → i < j

/-- The places of the first rows of each structural key, in the order of their groups. -/
def heads (direction : SortDirection) (keyed : List ((String × Value) × Row)) :
    List (Fin keyed.length) :=
  (firstPlaces (·.1.1) keyed).mergeSort fun i j =>
    NotBehind direction keyed[i].1.2.displayText keyed[j].1.2.displayText

theorem sortGroups_bucketed : sortGroups direction (bucketed keyed) =
    (heads direction keyed).map fun i => groupOf keyed keyed[i] := by
  rw [sortGroups_eq, bucketed_eq, newcomers_nil_eq, List.map_map, heads]
  exact (List.map_mergeSort (f := fun i : Fin keyed.length => groupOf keyed keyed[i])
    fun _ _ _ _ => rfl).symm

theorem mem_heads {i : Fin keyed.length} :
    i ∈ heads direction keyed ↔ i ∈ firstPlaces (·.1.1) keyed :=
  (List.mergeSort_perm _ _).mem_iff

theorem ne_of_lt_head {i j : Fin keyed.length} (hi : i ∈ heads direction keyed) (hj : j < i) :
    keyed[j].1.1 ≠ keyed[i].1.1 :=
  of_decide_eq_true (List.mem_filter.mp (mem_heads.mp hi)).2 j hj

theorem nodup_heads : (heads direction keyed).Nodup :=
  (List.mergeSort_perm _ _).nodup_iff.mpr ((List.nodup_finRange _).filter _)

theorem exists_head (direction : SortDirection) (i : Fin keyed.length) :
    ∃ j ∈ heads direction keyed, keyed[j].1.1 = keyed[i].1.1 := by
  have hlabel : keyed[i].1.1 ∈ (newcomers (·.1.1) [] keyed).map (·.1.1) :=
    (mem_labels_newcomers List.not_mem_nil).mpr
      (List.mem_map_of_mem (f := (·.1.1)) (List.getElem_mem i.isLt))
  rw [newcomers_nil_eq, List.map_map] at hlabel
  obtain ⟨j, hj, hsame⟩ := List.mem_map.mp hlabel
  exact ⟨j, mem_heads.mpr hj, hsame⟩

theorem heads_pairwise : (heads direction keyed).Pairwise fun i j =>
    Before direction keyed[i].1.2.displayText keyed[j].1.2.displayText ∨
      keyed[i].1.2.displayText = keyed[j].1.2.displayText ∧ i < j :=
  pairwise_mergeSort_texts direction (fun i : Fin keyed.length => keyed[i].1.2.displayText)
    ((List.pairwise_lt_finRange _).filter _)

/-- Each group is that of a row, the first one with its structural key. -/
structure Headed (direction : SortDirection) (keyed : List ((String × Value) × Row))
    (groups : List Group) (head : Fin groups.length → Fin keyed.length) : Prop where
  group_eq : ∀ g, groups[g] = groupOf keyed keyed[head g]
  injective : Function.Injective head
  ne_of_lt : ∀ g, ∀ j < head g, keyed[j].1.1 ≠ keyed[head g].1.1
  exists_head : ∀ i : Fin keyed.length, ∃ g, keyed[head g].1.1 = keyed[i].1.1
  inOrder : ∀ g h, g < h →
    Before direction keyed[head g].1.2.displayText keyed[head h].1.2.displayText ∨
      keyed[head g].1.2.displayText = keyed[head h].1.2.displayText ∧ head g < head h

theorem exists_headed (direction : SortDirection) (keyed : List ((String × Value) × Row)) :
    ∃ head, Headed direction keyed (sortGroups direction (bucketed keyed)) head := by
  rw [sortGroups_bucketed]
  have hlt (g : Fin ((heads direction keyed).map fun i => groupOf keyed keyed[i]).length) :
      g.val < (heads direction keyed).length :=
    g.isLt.trans_eq (List.length_map _)
  exact ⟨fun g => (heads direction keyed).get ⟨g.val, hlt g⟩, {
    group_eq := fun g => List.getElem_map _
    injective := fun g h hgh => Fin.ext (nodup_heads.getElem_inj_iff.mp hgh)
    ne_of_lt := fun g j => ne_of_lt_head (List.getElem_mem (hlt g))
    exists_head := fun i => by
      obtain ⟨j, hj, hsame⟩ := exists_head direction i
      obtain ⟨n, hn, rfl⟩ := List.getElem_of_mem hj
      exact ⟨⟨n, hn.trans_eq (List.length_map _).symm⟩, hsame⟩
    inOrder := fun g h hgh =>
      List.pairwise_iff_getElem.mp heads_pairwise g.val h.val _ _ hgh }⟩

theorem Headed.exists_divides {head : Fin groups.length → Fin keyed.length}
    (h : Headed direction keyed groups head) (hkeys : ∀ p ∈ keyed, p.1.2.stableKey = .ok p.1.1) :
    ∃ place, Divides direction keyed groups place := by
  choose place hplace using h.exists_head
  have hkey (i : Fin keyed.length) : keyed[i].1.2.stableKey = .ok keyed[i].1.1 :=
    hkeys _ (List.getElem_mem i.isLt)
  have hle {i : Fin keyed.length} {g : Fin groups.length}
      (hsame : keyed[i].1.1 = keyed[head g].1.1) : head g ≤ i :=
    not_lt.mp fun hlt => h.ne_of_lt g i hlt hsame
  have hplace_iff {i : Fin keyed.length} {g : Fin groups.length} :
      place i = g ↔ keyed[i].1.1 = keyed[head g].1.1 := by
    constructor
    · rintro rfl
      exact (hplace i).symm
    · intro hsame
      have hheads := (hplace i).trans hsame
      exact h.injective (le_antisymm (hle hheads.symm) (hle hheads))
  refine ⟨place, ?rows_eq, ?place_eq_iff, ?first, ?inOrder⟩
  case rows_eq =>
    intro g
    rw [h.group_eq, groupOf, rowsUnder_eq]
    simp only [hplace_iff]
  case place_eq_iff =>
    intro i j
    rw [hkey, hkey, Except.ok.injEq, hplace_iff, hplace]
  case first =>
    intro g
    refine ⟨head g, hplace_iff.mpr rfl, fun j hj hsame => ?_, ?_⟩
    · exact h.ne_of_lt g j hj (hplace_iff.mp hsame)
    · rw [h.group_eq, groupOf]
  case inOrder =>
    intro g g' hlt
    rw [h.group_eq, h.group_eq, groupOf, groupOf]
    refine (h.inOrder g g' hlt).imp_right (And.imp_right fun hbefore => ?_)
    exact ⟨head g, hplace_iff.mpr rfl, fun j hj => hbefore.trans_le (hle (hplace_iff.mp hj))⟩

/-- There are as many groups as the summary counts structural keys. -/
theorem apply_unique_keys (direction : SortDirection)
    (hkeys : ∀ p ∈ keyed, p.1.2.stableKey = .ok p.1.1) :
    Summary.unique.apply (keyed.map (·.1.2)) =
      .ok (.int (sortGroups direction (bucketed keyed)).length) := by
  have hlabels {ps : List ((String × Value) × Row)} (hps : ps ⊆ keyed) :
      (ps.map (·.1.2)).map Value.stableKey = (ps.map (·.1.1)).map .ok := by
    rw [List.map_map, List.map_map]
    exact List.map_congr_left fun p hp => hkeys p (hps hp)
  have hlength : (sortGroups direction (bucketed keyed)).length =
      ((newcomers (·.1.1) [] keyed).map (·.1.2)).length := by
    rw [sortGroups_eq, List.length_mergeSort, bucketed_eq, List.length_map, List.length_map]
  rw [hlength]
  refine Value.apply_unique ?_ ?_ fun k => ?_
  · exact List.forall_mem_map.mpr fun p hp => ⟨p.1.1, hkeys p hp⟩
  · rw [hlabels newcomers_subset]
    exact (nodup_newcomers [] keyed).map fun _ _ => Except.ok.inj
  · rw [hlabels newcomers_subset, hlabels (List.Subset.refl _), List.mem_map, List.mem_map]
    simp only [mem_labels_newcomers List.not_mem_nil]

end Groups

/-! ## Grouped results -/

theorem groupKey_eq_ok {s : Scope} {row : Row} {property : Value} {p : String × Value}
    {found : List String} (h : groupKey s row property = .ok (p, found)) :
    cell s row property = .ok (p.2, found) ∧ p.2.stableKey = .ok p.1 := by
  simp only [groupKey, bind_eq_ok, Prod.exists] at h
  obtain ⟨key, warnings, hcell, structural, hstructural, h⟩ := h
  cases h
  exact ⟨hcell, hstructural⟩

theorem grouped_eq_ok {r : Run} {files : FileIndex} {key : SortKey} {rows : List Row}
    {groups : Option (List Group)} {warnings : List String}
    (h : r.grouped files (some key) rows = .ok (groups, warnings)) :
    ∃ keyed : List ((String × Value) × Row), keyed.map (·.2) = rows ∧
      (∀ p ∈ keyed, ∃ found,
        cell (r.projectedScope files p.2) p.2 (.string key.property) = .ok (p.1.2, found) ∧
          p.1.2.stableKey = .ok p.1.1) ∧
      (∀ group ∈ bucketed keyed, group.key.display = .ok group.key.displayText) ∧
      groups = some (sortGroups key.direction (bucketed keyed)) := by
  simp only [grouped, bind_eq_ok, Prod.exists] at h
  obtain ⟨keys, found, hkeys, _, hshown, h⟩ := h
  cases h
  refine ⟨keys.zip rows, rows_of_zip hkeys, fun p hp => ?_, fun group hgroup => ?_, rfl⟩
  · obtain ⟨found, hfound⟩ := mem_zip_forRows hkeys hp
    exact ⟨found, groupKey_eq_ok hfound⟩
  · exact Value.display_eq_ok.mpr
      ⟨Value.checkAllShown_eq_ok.mp hshown _ (List.mem_map_of_mem hgroup), rfl⟩

/-- A view that groups divides the rows of its result among groups by the structural keys of their
values to group by, and there are as many groups as the summary counts among these values. -/
theorem groups_divide {r : Run} {name : Option String} {view : View} {key : SortKey}
    {res : Result} (hview : viewOf r.query name = .ok view) (hkey : view.groupBy = some key)
    (h : r.result name = .ok res) :
    ∃ (groups : List Group) (keyed : List ((String × Value) × Row)),
      res.groups = some groups ∧ keyed.map (·.2) = res.rows ∧
      (∀ p ∈ keyed, ∃ found,
        cell (r.projectedScope r.files p.2) p.2 (.string key.property) = .ok (p.1.2, found) ∧
          p.1.2.stableKey = .ok p.1.1) ∧
      (∀ group ∈ groups, group.key.display = .ok group.key.displayText) ∧
      (∃ place, Divides key.direction keyed groups place) ∧
      Summary.unique.apply (keyed.map (·.1.2)) = .ok (.int groups.length) := by
  obtain ⟨view', hview', x, rfl⟩ := result_eq_ok.mp h
  obtain rfl := Except.ok.inj (hview.symm.trans hview')
  have hgrouped := x.grouped_eq
  rw [hkey] at hgrouped
  obtain ⟨keyed, hrows, hkeyed, hshown, hgroups⟩ := grouped_eq_ok hgrouped
  have hkeys : ∀ p ∈ keyed, p.1.2.stableKey = .ok p.1.1 := fun p hp =>
    have ⟨_, _, hkey⟩ := hkeyed p hp
    hkey
  obtain ⟨head, hheaded⟩ := exists_headed key.direction keyed
  refine ⟨_, keyed, hgroups, hrows, hkeyed, fun group hgroup => ?_, hheaded.exists_divides hkeys,
    apply_unique_keys key.direction hkeys⟩
  exact hshown group ((List.mergeSort_perm _ _).mem_iff.mp hgroup)

/-- A document with a shelf. -/
def shelvedDocument (path : String) (shelf : Value) : Document where
  note := [(.string "shelf", shelf)]
  file := .ofPath path

/-- Documents by their shelves from the last, of which two are displayed alike. -/
def shelved : Run where
  query := {
    spec := { views := [{
      name := "shelves", columns := some ["shelf"],
      groupBy := some { property := "shelf", direction := .falling } }] }
    strict := true
    globalFilter := none
    viewFilters := []
    formulas := []
    formulaOrder := []
    summaries := [] }
  documents := [shelvedDocument "a" (.int 1), shelvedDocument "b" (.string "1"),
    shelvedDocument "c" (.int 2), shelvedDocument "d" (.int 1)]
  now := default
  library := .empty

theorem groups_divide_shelved :
    ∃ res groups keyed place, shelved.result none = .ok res ∧ res.groups = some groups ∧
      groups.length = 3 ∧ keyed.map (·.2) = res.rows ∧ Divides .falling keyed groups place := by
  obtain ⟨res, h⟩ : ∃ res, shelved.result none = .ok res := ⟨_, rfl⟩
  obtain ⟨view, hview⟩ : ∃ view, viewOf shelved.query none = .ok view := ⟨_, rfl⟩
  have hkey : view.groupBy = some { property := "shelf", direction := .falling } := by
    cases hview
    rfl
  have hshelves : res.rows.map (fun row => row.note.find? (.string "shelf")) =
      ([.int 1, .string "1", .int 2, .int 1] : List Value).map some := by
    cases h
    rfl
  obtain ⟨groups, keyed, hgroups, hrows, hcells, -, ⟨place, hdivides⟩, hcount⟩ :=
    groups_divide hview hkey h
  have hvalues : keyed.map (·.1.2) = [.int 1, .string "1", .int 2, .int 1] := by
    refine List.map_injective_iff.mpr (Option.some_injective Value) ?_
    rw [← hshelves, ← hrows, List.map_map, List.map_map]
    refine List.map_congr_left fun p hp => ?_
    have hmem := List.mem_map_of_mem (f := fun row : Row => row.note.find? (.string "shelf"))
      (hrows ▸ List.mem_map_of_mem hp)
    rw [hshelves] at hmem
    obtain ⟨v, -, hv⟩ := List.mem_map.mp hmem
    obtain ⟨found, hcell, -⟩ := hcells p hp
    rw [cell, ← hv] at hcell
    cases hcell
    exact hv
  rw [hvalues] at hcount
  have hthree : Summary.unique.apply [.int 1, .string "1", .int 2, .int 1] = .ok (.int 3) := rfl
  rw [hthree] at hcount
  refine ⟨res, groups, keyed, place, h, hgroups, ?_, hrows, hdivides⟩
  simp only [Except.ok.injEq, Value.int, Value.number.injEq, Number.int.injEq] at hcount
  omega

end Run

end NoteQuery
