/-
Files by path, name and name without ending.

One table holds the files of all documents under all their names.  Paths are put in first, so no
name of another file hides them; behind them a name goes to the file that comes first in the order
of paths (`Document.lookup_index_of_no_path`).  As the files are gone through in that order, the
order of the documents leaves no trace in the table, and a path in normal form leads to its own
file, with its ending or without it, unless the text without ending means something else
(`Document.index_prefers_paths`).
-/
import NoteQuery.Proofs.Backlinks
import NoteQuery.Proofs.DocumentOrder

namespace NoteQuery

variable {key : String} {file : FileRecord Value}

/-! ## Names of files -/

/-- The key is the file's name, or its name without ending if there is one. -/
def FileRecord.HasName (r : FileRecord Value) (key : String) : Prop :=
  key = r.name ∨ r.basename ≠ "" ∧ key = r.basename

instance (r : FileRecord Value) (key : String) : Decidable (r.HasName key) :=
  inferInstanceAs (Decidable (key = r.name ∨ r.basename ≠ "" ∧ key = r.basename))

namespace FileIndex

variable {index : FileIndex}

theorem lookup_putNew_eq (index : FileIndex) (name : String) (file : FileRecord Value)
    (key : String) : (index.putNew name file).lookup key =
      (index.lookup key).or (if key = name then some file else none) := by
  unfold putNew
  split
  · next hthere =>
    split
    · next hname =>
      obtain ⟨f, hf⟩ := Option.isSome_iff_exists.mp (hname ▸ hthere)
      rw [hf, Option.some_or]
    · rw [Option.or_none]
  · rw [List.lookup_append, lookup_cons]
    rfl

/-- The names of a file lead to it where nothing stands under them yet. -/
theorem lookup_putNames_eq (index : FileIndex) (file : FileRecord Value) (key : String) :
    (index.putNames file).lookup key =
      (index.lookup key).or (if file.HasName key then some file else none) := by
  unfold putNames FileRecord.HasName
  dsimp only
  split
  · next hbase =>
    simp only [lookup_putNew_eq, hbase, ne_eq, not_true_eq_false, false_and, or_false]
  · next hbase =>
    rw [lookup_putNew_eq, lookup_putNew_eq, Option.or_assoc]
    simp only [ne_eq, hbase, not_false_eq_true, true_and]
    by_cases hname : key = file.name
    · rw [if_pos hname, Option.some_or, if_pos (.inl hname)]
    · simp only [hname, if_false, Option.none_or, false_or]

/-- Of files whose names are put in one after the other, the first that has a name gets it. -/
theorem lookup_putAllNames (files : List (FileRecord Value)) (index : FileIndex) (key : String) :
    (files.foldl putNames index).lookup key =
      (index.lookup key).or (files.find? fun f => f.HasName key) := by
  induction files generalizing index with
  | nil => rw [List.foldl_nil, List.find?_nil, Option.or_none]
  | cons f files ih =>
    rw [List.foldl_cons, ih, lookup_putNames_eq, Option.or_assoc, List.find?_cons]
    by_cases hname : f.HasName key
    · rw [if_pos hname, decide_eq_true hname, Option.some_or]
    · rw [if_neg hname, decide_eq_false hname, Option.none_or]

theorem lookup_putAllPaths {files : List (FileRecord Value)} (h : ∀ f ∈ files, f.path ≠ key)
    (index : FileIndex) :
    (files.foldl (fun index f => FileIndex.put index f.path f) index).lookup key =
      index.lookup key := by
  induction files generalizing index with
  | nil => rfl
  | cons f files ih =>
    rw [List.forall_mem_cons] at h
    rw [List.foldl_cons, ih h.2, lookup_put, if_neg h.1.symm]

end FileIndex

/-! ## The index of documents -/

namespace Document

variable {docs : List Document}

/-- The document comes first in the order of paths among those whose file has the name. -/
structure FirstNamed (docs : List Document) (key : String) (d : Document) : Prop where
  mem : d ∈ docs
  named : d.file.HasName key
  least : ∀ e ∈ docs, e.file.HasName key → d.file.path ≤ e.file.path

theorem mem_sortByPath {d : Document} : d ∈ sortByPath docs ↔ d ∈ docs :=
  (List.mergeSort_perm docs _).mem_iff

/-- What is looked for in the order of paths is the least by path. -/
theorem find?_sortByPath (hpaths : (docs.map fun d => d.file.path).Nodup) {d : Document} :
    (sortByPath docs).find? (fun e => e.file.HasName key) = some d ↔ FirstNamed docs key d := by
  have hsorted : (sortByPath docs).Pairwise fun d e => d.file.path ≤ e.file.path :=
    Sorting.mergeSort_pairwise (fun d => d.file.path) docs
  rw [List.find?_eq_some_iff_append, decide_eq_true_eq]
  constructor
  · rintro ⟨hnamed, before, after, hdocs, hbefore⟩
    rw [hdocs, List.pairwise_append, List.pairwise_cons] at hsorted
    refine ⟨mem_sortByPath.mp (hdocs ▸ List.mem_append_right _ List.mem_cons_self), hnamed, ?_⟩
    intro e he hname
    rw [← mem_sortByPath, hdocs, List.mem_append, List.mem_cons] at he
    rcases he with he | rfl | he
    · have hnot := hbefore e he
      rw [decide_eq_true hname] at hnot
      cases hnot
    · exact String.le_refl _
    · exact hsorted.2.1.1 e he
  · rintro ⟨hd, hnamed, hleast⟩
    obtain ⟨before, after, hdocs⟩ := List.append_of_mem (mem_sortByPath.mpr hd)
    refine ⟨hnamed, before, after, hdocs, fun e he => ?_⟩
    -- a named document in front would be no greater by path and no smaller, so it would be `d`
    have hmem : e ∈ docs := mem_sortByPath.mp (hdocs ▸ List.mem_append_left _ he)
    rw [Bool.not_eq_true', decide_eq_false_iff_not]
    intro hname
    rw [hdocs, List.pairwise_append] at hsorted
    have hle := hsorted.2.2 e he d List.mem_cons_self
    have heq : e = d := List.inj_on_of_nodup_map hpaths hmem hd
      (String.le_antisymm hle (hleast e hmem hname))
    have hnodup : ((sortByPath docs).map fun d => d.file.path).Nodup :=
      ((List.mergeSort_perm docs _).map _).nodup_iff.mpr hpaths
    rw [hdocs, List.map_append, List.map_cons, List.nodup_append] at hnodup
    exact hnodup.2.2 _ (List.mem_map_of_mem he) _ List.mem_cons_self (congrArg (·.file.path) heq)

/-- A key that is no path leads to the first document in the order of paths that has it for a
name. -/
theorem lookup_index_of_no_path (hpaths : (docs.map fun d => d.file.path).Nodup)
    (hkey : ∀ d ∈ docs, d.file.path ≠ key) :
    (index docs).lookup key = some file ↔ ∃ d, FirstNamed docs key d ∧ d.file = file := by
  have hfiles : ∀ f ∈ (sortByPath docs).map Document.file, f.path ≠ key := by
    rw [List.forall_mem_map]
    exact fun d hd => hkey d (mem_sortByPath.mp hd)
  unfold index
  dsimp only
  rw [FileIndex.lookup_putAllNames, FileIndex.lookup_putAllPaths hfiles, List.lookup_nil,
    Option.none_or, List.find?_map, Option.map_eq_some_iff]
  exact exists_congr fun d => and_congr_left fun _ => find?_sortByPath hpaths

/-- A path without its ending leads to its file, unless it is the path or a name of another. -/
theorem lookupFile?_without_ending {s : Scope} {p : String} {d : Document}
    (hpaths : (docs.map fun d => d.file.path).Nodup) (hfiles : s.files = index docs)
    (hd : d ∈ docs) (hpath : d.file.path = p ++ ".md") (hnormal : Path.normalize p = p)
    (hothers : ∀ e ∈ docs, e.file.path ≠ d.file.path →
      e.file.path ≠ p ∧ e.file.name ≠ p ∧ e.file.basename ≠ p) :
    s.lookupFile? p = some d.file := by
  have hlonger : d.file.path ≠ p := by
    intro h
    have hlength := congrArg String.length (hpath.symm.trans h)
    rw [String.length_append] at hlength
    exact absurd (show ".md".length = 0 by omega) (by decide)
  have hnopath : ∀ e ∈ docs, e.file.path ≠ p := by
    intro e he hp
    by_cases hsame : e.file.path = d.file.path
    · exact hlonger (hsame ▸ hp)
    · exact (hothers e he hsame).1 hp
  have hdirect := lookup_index hpaths hd
  rw [Scope.lookupFile?, Scope.fileKeys, hfiles, hnormal, List.findSome?_cons]
  cases hfound : (index docs).lookup p with
  | none => rw [List.findSome?_cons, ← hpath, hdirect]
  | some f =>
    -- what stands under the text can only be a name of the document itself
    obtain ⟨e, hfirst, rfl⟩ := (lookup_index_of_no_path hpaths hnopath).mp hfound
    by_cases hsame : e.file.path = d.file.path
    · rw [List.inj_on_of_nodup_map hpaths hfirst.mem hd hsame]
    · obtain ⟨-, hname, hbase⟩ := hothers e hfirst.mem hsame
      rcases hfirst.named with h | ⟨-, h⟩
      · exact absurd h.symm hname
      · exact absurd h.symm hbase

/-- In the index of documents under distinct paths every path leads to its document, and every other
key to the first document in the order of paths that has it for a name; the order of the documents
does not matter.  A path in normal form is found to mean its file, and so is a path without its
ending that is in normal form and neither the path nor a name of another document. -/
theorem index_prefers_paths (hpaths : (docs.map fun d => d.file.path).Nodup) :
    (∀ d ∈ docs, (index docs).lookup d.file.path = some d.file) ∧
    (∀ key, (∀ d ∈ docs, d.file.path ≠ key) → ∀ file,
      (index docs).lookup key = some file ↔ ∃ d, FirstNamed docs key d ∧ d.file = file) ∧
    (∀ docs', docs.Perm docs' → index docs' = index docs) ∧
    ∀ s : Scope, s.files = index docs → ∀ d ∈ docs,
      (Path.normalize d.file.path = d.file.path → s.lookupFile? d.file.path = some d.file) ∧
      ∀ p, d.file.path = p ++ ".md" → Path.normalize p = p →
        (∀ e ∈ docs, e.file.path ≠ d.file.path →
          e.file.path ≠ p ∧ e.file.name ≠ p ∧ e.file.basename ≠ p) →
        s.lookupFile? p = some d.file := by
  refine ⟨fun d hd => lookup_index hpaths hd, fun key hkey file => ?_, fun docs' hperm => ?_,
    fun s hfiles d hd => ⟨fun hnormal => ?_, fun p hpath hnormal hothers => ?_⟩⟩
  · exact lookup_index_of_no_path hpaths hkey
  · exact (index_of_perm hpaths hperm).symm
  · refine Scope.lookupFile?_of_path ?_
    rw [hnormal, hfiles]
    exact lookup_index hpaths hd
  · exact lookupFile?_without_ending hpaths hfiles hd hpath hnormal hothers

/-- Two notes of one file name, so that the path of the one at the root is a name of the other, and
a third note. -/
def sharedNames : List Document := [
  ⟨[], { name := "a.md", path := "b/a.md", basename := "a" }⟩,
  ⟨[], { name := "a.md", path := "a.md", basename := "a" }⟩,
  ⟨[], { name := "c.md", path := "c.md", basename := "c" }⟩]

theorem index_prefers_paths_sharedNames :
    let s : Scope :=
      { strict := true, now := default, library := .empty, files := index sharedNames }
    (sharedNames.map fun d => d.file.path).Nodup ∧
    ((index sharedNames).lookup "a.md").map (·.path) = some "a.md" ∧
    ((index sharedNames).lookup "a").map (·.path) = some "a.md" ∧
    (index sharedNames).lookup "b" = none ∧
    index sharedNames.reverse = index sharedNames ∧
    (s.lookupFile? "b/a.md").map (·.path) = some "b/a.md" ∧
    (s.lookupFile? "c").map (·.path) = some "c.md" := by
  intro s
  have hpaths : (sharedNames.map fun d => d.file.path).Nodup := by decide
  obtain ⟨hdirect, hnamed, hperm, hlookup⟩ := index_prefers_paths hpaths
  have hfolder : sharedNames[0] ∈ sharedNames := List.getElem_mem _
  have hroot : sharedNames[1] ∈ sharedNames := List.getElem_mem _
  have hlast : sharedNames[2] ∈ sharedNames := List.getElem_mem _
  have hfirst : FirstNamed sharedNames "a" sharedNames[1] := ⟨hroot, by decide, by decide⟩
  refine ⟨hpaths, ?_, ?_, ?_, hperm _ (List.reverse_perm _).symm, ?_, ?_⟩
  · exact congrArg (Option.map (·.path)) (hdirect _ hroot)
  · exact congrArg (Option.map (·.path))
      ((hnamed "a" (by decide) sharedNames[1].file).mpr ⟨_, hfirst, rfl⟩)
  · refine Option.eq_none_iff_forall_ne_some.mpr fun file hfile => ?_
    obtain ⟨d, ⟨hd, hname, -⟩, -⟩ := (hnamed "b" (by decide) file).mp hfile
    have hnone : ∀ d ∈ sharedNames, ¬ d.file.HasName "b" := by decide
    exact hnone d hd hname
  · exact congrArg (Option.map (·.path)) ((hlookup s rfl _ hfolder).1 (by decide +kernel))
  · exact congrArg (Option.map (·.path))
      ((hlookup s rfl _ hlast).2 "c" (by decide) (by decide +kernel) (by decide))

end Document

end NoteQuery
