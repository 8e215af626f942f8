/-
Links between notes.

A link leads to a note by a name: the path of the note, its file name, or its file name without
ending.  Two tables say which note a name stands for.  The index of files asks for paths first; the
directory of backlinks does not tell the names of a note apart, and where several notes have a name
it gives the last of them (`LastNamed`).  `LeadsTo` says where links lead without either table.

So a link that spells the path of a note is found by the index to mean that note, whatever else has
the path for a name, while the backlink goes to the last note that has it: a note at the root loses
its backlinks to a note of the same file name in a folder (`fill_links`, `linksPastRoot`).
-/
import NoteQuery.Eval.Scope
import NoteQuery.Proofs.Mappings
import NoteQuery.Proofs.Sorting
import NoteQuery.Vault.Backlinks
import Mathlib.Data.List.DropRight

namespace NoteQuery

/-! ## The index of files -/

namespace FileIndex

variable {index : FileIndex} {file : FileRecord Value} {key name : String}

theorem lookup_cons (entry : String × FileRecord Value) :
    List.lookup name (entry :: index) =
      if name = entry.1 then some entry.2 else index.lookup name := by
  rw [List.lookup_cons]
  by_cases h : name = entry.1
  · rw [if_pos h, beq_iff_eq.mpr h]
  · rw [if_neg h, beq_false_of_ne h]

theorem lookup_put :
    (index.put key file).lookup name = if name = key then some file else index.lookup name := by
  induction index with
  | nil => exact lookup_cons _
  | cons entry index ih =>
    obtain ⟨k, f⟩ := entry
    rw [put]
    split
    · next hk =>
      rw [lookup_cons, lookup_cons, ← hk]
      split
      · rfl
      · rfl
    · next hk =>
      rw [lookup_cons, lookup_cons, ih]
      dsimp only
      split
      · next hname => rw [if_neg (hname ▸ hk)]
      · rfl

/-- What is found stays found where names are put in that are new. -/
theorem lookup_putNew (h : index.lookup name = some file) (f : FileRecord Value) :
    (index.putNew key f).lookup name = some file := by
  unfold putNew
  split
  · exact h
  · rw [List.lookup_append, h]
    rfl

theorem lookup_putNames (h : index.lookup name = some file) (f : FileRecord Value) :
    (index.putNames f).lookup name = some file := by
  unfold putNames
  dsimp only
  split
  · exact lookup_putNew h f
  · exact lookup_putNew (lookup_putNew h f) f

/-- Of files under distinct paths each is found under its own. -/
theorem lookup_paths {files : List (FileRecord Value)} (hpaths : (files.map (·.path)).Nodup)
    (hfile : file ∈ files) (index : FileIndex) :
    (files.foldl (fun index f => FileIndex.put index f.path f) index).lookup file.path =
      some file := by
  -- what is there under a path stays there until something else has the path
  have hkept (files : List (FileRecord Value)) (hnew : file.path ∉ files.map (·.path))
      (index : FileIndex) (h : index.lookup file.path = some file) :
      (files.foldl (fun index f => FileIndex.put index f.path f) index).lookup file.path =
        some file := by
    induction files generalizing index with
    | nil => exact h
    | cons f files ih =>
      rw [List.map_cons, List.mem_cons, not_or] at hnew
      refine ih hnew.2 _ ?_
      rw [lookup_put, if_neg hnew.1, h]
  induction files generalizing index with
  | nil => cases hfile
  | cons f files ih =>
    rw [List.map_cons, List.nodup_cons] at hpaths
    rw [List.foldl_cons]
    rcases List.mem_cons.mp hfile with rfl | hfile
    · exact hkept files hpaths.1 _ (by rw [lookup_put, if_pos rfl])
    · exact ih hpaths.2 hfile _

end FileIndex

/-- Documents under distinct paths are found by their paths, whatever names others have. -/
theorem Document.lookup_index {docs : List Document}
    (hpaths : (docs.map fun d => d.file.path).Nodup) {d : Document} (hd : d ∈ docs) :
    (index docs).lookup d.file.path = some d.file := by
  have hperm : ((sortByPath docs).map Document.file).Perm (docs.map Document.file) :=
    (List.mergeSort_perm docs _).map _
  have hnodup : (((sortByPath docs).map Document.file).map (·.path)).Nodup := by
    rw [(hperm.map _).nodup_iff, List.map_map]
    exact hpaths
  have hfile : d.file ∈ (sortByPath docs).map Document.file :=
    hperm.mem_iff.mpr (List.mem_map_of_mem hd)
  have hfound := FileIndex.lookup_paths hnodup hfile []
  unfold index
  dsimp only
  generalize (sortByPath docs).map Document.file = files at hfound ⊢
  generalize List.foldl _ [] files = byPath at hfound ⊢
  induction files generalizing byPath with
  | nil => exact hfound
  | cons f files ih => exact ih _ (FileIndex.lookup_putNames hfound f)

/-- A path that is spelled out leads to the file that has it. -/
theorem Scope.lookupFile?_of_path {s : Scope} {pathLike : String} {file : FileRecord Value}
    (h : s.files.lookup (Path.normalize pathLike) = some file) :
    s.lookupFile? pathLike = some file := by
  rw [lookupFile?, fileKeys, List.findSome?_cons, h]

/-! ## Normal forms -/

namespace Text

theorem isPrefix_trimChars (cs : List Char) : trimChars cs <+: trimLeft cs :=
  List.rdropWhile_prefix isBlank (trimLeft cs)

theorem trimChars_subset (cs : List Char) : trimChars cs ⊆ cs :=
  List.Subset.trans (isPrefix_trimChars cs).subset (List.dropWhile_sublist isBlank).subset

/-- There is nothing to remove at the ends once it is removed. -/
theorem trimChars_trimChars (cs : List Char) : trimChars (trimChars cs) = trimChars cs := by
  have hleft : trimLeft (trimChars cs) = trimChars cs := by
    cases h : trimChars cs with
    | nil => rfl
    | cons c rest =>
      obtain ⟨behind, hbehind⟩ := isPrefix_trimChars cs
      have hhead := List.head?_dropWhile_not isBlank cs
      rw [h] at hbehind
      rw [show cs.dropWhile isBlank = c :: (rest ++ behind) from hbehind.symm] at hhead
      exact List.dropWhile_cons_of_neg (by simpa using hhead)
  have hright : trimChars (trimChars cs) = List.rdropWhile isBlank (trimLeft (trimChars cs)) := rfl
  rw [hright, hleft]
  exact List.rdropWhile_idempotent isBlank (trimLeft cs)

end Text

namespace Path

/-- The path starts with no `./`. -/
def StartsElsewhere (path : String) : Prop :=
  dropHere path.toList = path.toList

instance (path : String) : Decidable (StartsElsewhere path) :=
  inferInstanceAs (Decidable (dropHere path.toList = path.toList))

theorem dropHere_subset (cs : List Char) : dropHere cs ⊆ cs := by
  unfold dropHere
  split
  · exact fun c hc => List.mem_cons_of_mem _ (List.mem_cons_of_mem _ hc)
  · exact List.Subset.refl _

theorem backslash_notMem_normalChars (cs : List Char) : '\\' ∉ normalChars cs := by
  intro hmem
  have hmap := dropHere_subset _ (Text.trimChars_subset _ hmem)
  obtain ⟨c, -, hc⟩ := List.mem_map.mp hmap
  split at hc
  · cases hc
  · next hne => exact hne hc

theorem normalChars_of_slashes {cs : List Char} (h : '\\' ∉ cs) :
    normalChars cs = Text.trimChars (dropHere cs) := by
  have hmap : (cs.map fun c => if c = '\\' then '/' else c) = cs := by
    refine (List.map_congr_left fun c hc => ?_).trans (List.map_id _)
    have hne : c ≠ '\\' := fun heq => h (heq ▸ hc)
    exact if_neg hne
  rw [normalChars, hmap]

/-- The normal form of a path is its own normal form, unless it starts with `./` again. -/
theorem normalize_normalize {path : String} (h : StartsElsewhere (normalize path)) :
    normalize (normalize path) = normalize path := by
  unfold StartsElsewhere at h
  rw [normalize, String.toList_ofList] at h
  rw [normalize, normalize, String.toList_ofList,
    normalChars_of_slashes (backslash_notMem_normalChars path.toList), h, normalChars,
    Text.trimChars_trimChars]

end Path

namespace Backlinks

/-! ## Names -/

variable {docs : List Document} {name link path : String}

/-- The last of the documents that have the name has the path. -/
def LastNamed (docs : List Document) (name path : String) : Prop :=
  ∃ before d after, docs = before ++ d :: after ∧ d.file.path = path ∧ name ∈ names d.file ∧
    ∀ e ∈ after, name ∉ names e.file

/-- No document has the name. -/
def Unnamed (docs : List Document) (name : String) : Prop :=
  ∀ d ∈ docs, name ∉ names d.file

theorem LastNamed.cons (h : LastNamed docs name path) (d : Document) :
    LastNamed (d :: docs) name path := by
  obtain ⟨before, e, after, rfl, he⟩ := h
  exact ⟨d :: before, e, after, rfl, he⟩

theorem lastNamed_cons {d : Document} : LastNamed (d :: docs) name path ↔
    LastNamed docs name path ∨ (Unnamed docs name ∧ name ∈ names d.file ∧ d.file.path = path) := by
  constructor
  · rintro ⟨before, e, after, hdocs, hpath, hname, hlast⟩
    cases before with
    | nil =>
      cases hdocs
      exact .inr ⟨hlast, hname, hpath⟩
    | cons f before =>
      cases hdocs
      exact .inl ⟨before, e, after, rfl, hpath, hname, hlast⟩
  · rintro (h | ⟨hlast, hname, hpath⟩)
    · exact h.cons d
    · exact ⟨[], d, docs, rfl, hpath, hname, hlast⟩

theorem lookup_directory_cons (d : Document) (docs : List Document) (name : String) :
    (directory (d :: docs)).lookup name = ((directory docs).lookup name).or
      (if name ∈ names d.file then some d.file.path else none) := by
  have hnames (ns : List String) :
      ((ns.map fun n => (n, d.file.path)).reverse).lookup name =
        if name ∈ ns then some d.file.path else none := by
    rw [← List.map_reverse]
    have hmem : name ∈ ns ↔ name ∈ ns.reverse := List.mem_reverse.symm
    simp only [hmem]
    generalize ns.reverse = ns
    induction ns with
    | nil => rfl
    | cons n ns ih =>
      rw [List.map_cons, List.lookup_cons]
      by_cases h : name = n
      · rw [beq_iff_eq.mpr h, if_pos (List.mem_cons.mpr (.inl h))]
      · rw [beq_false_of_ne h, ih]
        simp only [List.mem_cons, h, false_or]
  rw [directory, List.flatMap_cons, List.reverse_append, List.lookup_append, hnames]
  rfl

theorem lookup_directory_eq_none : (directory docs).lookup name = none ↔ Unnamed docs name := by
  induction docs with
  | nil => exact ⟨fun _ => List.forall_mem_nil _, fun _ => rfl⟩
  | cons d docs ih =>
    rw [lookup_directory_cons, Option.or_eq_none_iff, ih, ite_eq_right_iff, and_comm]
    simp only [Unnamed, List.forall_mem_cons, reduceCtorEq, imp_false]

/-- The directory gives for a name the path of the last document that has it. -/
theorem lookup_directory : (directory docs).lookup name = some path ↔ LastNamed docs name path := by
  induction docs with
  | nil =>
    refine ⟨nofun, ?_⟩
    rintro ⟨before, d, after, hdocs, -⟩
    exact absurd hdocs.symm (List.append_ne_nil_of_right_ne_nil _ (List.cons_ne_nil d after))
  | cons d docs ih =>
    rw [lookup_directory_cons, Option.or_eq_some_iff, ih, lookup_directory_eq_none, lastNamed_cons,
      Option.ite_none_right_eq_some, Option.some.injEq]

/-! ## Links -/

/-- The link leads to the path: it has the last document that has the link's name, or, if there is
none and the link leaves out the ending, the last one that has the name with the ending. -/
inductive LeadsTo (docs : List Document) (link path : String) : Prop
  | byName : LastNamed docs (Path.normalize link) path → LeadsTo docs link path
  | byEnding : Unnamed docs (Path.normalize link) →
      Text.endsWith (Path.normalize link) ".md" = false →
      LastNamed docs (Path.normalize link ++ ".md") path → LeadsTo docs link path

theorem target?_directory : target? (directory docs) link = some path ↔ LeadsTo docs link path := by
  rw [target?, Option.or_eq_some_iff, lookup_directory, lookup_directory_eq_none]
  constructor
  · rintro (h | ⟨hnone, h⟩)
    · exact .byName h
    · split at h
      · cases h
      · next hend => exact .byEnding hnone (by simpa using hend) (lookup_directory.mp h)
  · rintro (h | ⟨hnone, hend, h⟩)
    · exact .inl h
    · refine .inr ⟨hnone, ?_⟩
      rw [hend]
      exact lookup_directory.mpr h

theorem mem_targets {r : FileRecord Value} :
    path ∈ targets (directory docs) r ↔ ∃ link ∈ linkTexts r, LeadsTo docs link path := by
  simp only [targets, List.mem_filterMap, target?_directory]

theorem mem_sources {source : String} : source ∈ sources docs path ↔
    ∃ s ∈ docs, s.file.path = source ∧ ∃ link ∈ linkTexts s.file, LeadsTo docs link path := by
  unfold sources
  dsimp only
  rw [(List.mergeSort_perm _ _).mem_iff, List.mem_eraseDups, List.mem_map]
  simp only [List.mem_filter, List.contains_iff_mem, mem_targets]
  constructor
  · rintro ⟨s, ⟨hs, hlink⟩, rfl⟩
    exact ⟨s, hs, rfl, hlink⟩
  · rintro ⟨s, hs, rfl, hlink⟩
    exact ⟨s, ⟨hs, hlink⟩, rfl⟩

/-- The paths from which a note is linked to stand in order, each once. -/
theorem sources_pairwise (docs : List Document) (path : String) :
    (sources docs path).Pairwise (· < ·) := by
  have hsorted := Sorting.mergeSort_pairwise id
    ((docs.filter fun d => (targets (directory docs) d.file).contains path).map
      fun d => d.file.path).eraseDups
  have hdistinct : (sources docs path).Nodup :=
    (List.mergeSort_perm _ _).nodup_iff.mpr (nodup_eraseDups _)
  refine (hsorted.and hdistinct).imp ?_
  rintro p q ⟨hle, hne⟩
  exact String.not_le.mp fun hge => hne (String.le_antisymm hle hge)

/-! ## Documents of a vault -/

/-- The documents stand in the order of their paths, of which no two have one normal form and none
starts with `./`, as scanning a directory gives them. -/
structure Indexed (docs : List Document) : Prop where
  ordered : docs.Pairwise fun d e => d.file.path < e.file.path
  distinct : (docs.map fun d => Path.normalize d.file.path).Nodup
  elsewhere : ∀ d ∈ docs, Path.StartsElsewhere d.file.path

/-- The names of a note but for its path. -/
def otherNames (r : FileRecord Value) : List String :=
  [r.name, r.basename, r.basename ++ ".md"].map Path.normalize

/-- No note further down has the path for a name. -/
def Unclaimed (docs : List Document) (path : String) : Prop :=
  ∀ e ∈ docs, path < e.file.path → path ∉ otherNames e.file

instance (docs : List Document) (path : String) : Decidable (Unclaimed docs path) :=
  inferInstanceAs (Decidable (∀ e ∈ docs, path < e.file.path → path ∉ otherNames e.file))

theorem mem_names {r : FileRecord Value} :
    name ∈ names r ↔ name = Path.normalize r.path ∨ name ∈ otherNames r :=
  List.mem_cons

section Indexed

variable (h : Indexed docs)
include h

theorem Indexed.nodup_paths : (docs.map fun d => d.file.path).Nodup := by
  refine List.pairwise_map.mpr (h.ordered.imp ?_)
  intro d e hlt heq
  rw [heq] at hlt
  exact String.lt_irrefl _ hlt

/-- A link that spells the path of a note leads there unless a note further down has the path for a
name. -/
theorem leadsTo_path {d : Document} (hd : d ∈ docs) (hlink : Path.normalize link = d.file.path) :
    LeadsTo docs link d.file.path ↔ Unclaimed docs d.file.path := by
  have hnormal : Path.normalize d.file.path = d.file.path := by
    have helsewhere := h.elsewhere d hd
    rw [← hlink] at helsewhere ⊢
    exact Path.normalize_normalize helsewhere
  have hown : d.file.path ∈ names d.file := mem_names.mpr (.inl hnormal.symm)
  constructor
  · intro hleads e he hlt hname
    rcases hleads with hlast | ⟨hnone, -, -⟩
    · rw [hlink] at hlast
      obtain ⟨before, d', after, rfl, hpath, -, hlast⟩ := hlast
      have hordered := h.ordered
      rw [List.pairwise_append, List.pairwise_cons] at hordered
      rcases List.mem_append.mp he with he | he
      · have hbefore := hordered.2.2 e he d' List.mem_cons_self
        rw [hpath] at hbefore
        exact String.lt_irrefl _ (String.lt_trans hlt hbefore)
      · rcases List.mem_cons.mp he with rfl | he
        · rw [hpath] at hlt
          exact String.lt_irrefl _ hlt
        · exact hlast e he (mem_names.mpr (.inr hname))
    · rw [hlink] at hnone
      exact hnone d hd hown
  · intro hunclaimed
    obtain ⟨before, after, rfl⟩ := List.append_of_mem hd
    refine .byName ?_
    rw [hlink]
    refine ⟨before, d, after, rfl, rfl, hown, fun e he hname => ?_⟩
    have hbehind : e ∈ before ++ d :: after :=
      List.mem_append_right before (List.mem_cons_of_mem d he)
    rcases mem_names.mp hname with hpath | hname
    · have hdistinct := h.distinct
      rw [List.map_append, List.map_cons, List.nodup_append, List.nodup_cons] at hdistinct
      refine hdistinct.2.1.1 ?_
      rw [hnormal, hpath]
      exact List.mem_map_of_mem he
    · have hordered := h.ordered
      rw [List.pairwise_append, List.pairwise_cons] at hordered
      exact hunclaimed e hbehind (hordered.2.1.1 e he) hname

/-- A note has those for backlinks that have a link which leads to it. -/
theorem mem_sources_iff {s : Document} (hs : s ∈ docs) : s.file.path ∈ sources docs path ↔
    ∃ link ∈ linkTexts s.file, LeadsTo docs link path := by
  rw [mem_sources]
  constructor
  · rintro ⟨t, ht, hpath, hlink⟩
    rwa [← List.inj_on_of_nodup_map h.nodup_paths ht hs hpath]
  · exact fun hlink => ⟨s, hs, rfl, hlink⟩

end Indexed

theorem paths_fill (docs : List Document) :
    (fill docs).map (fun d => d.file.path) = docs.map fun d => d.file.path := by
  rw [fill, List.map_map]
  rfl

section Filled

variable {docs : List Document} {source d : Document} {link : String}

theorem mem_backlinks_fill (h : Indexed docs) (hsource : source ∈ fill docs) (hd : d ∈ fill docs) :
    Value.string source.file.path ∈ d.file.backlinks ↔
      ∃ link ∈ linkTexts source.file, LeadsTo docs link d.file.path := by
  obtain ⟨source, hfrom, rfl⟩ := List.mem_map.mp hsource
  obtain ⟨d, -, rfl⟩ := List.mem_map.mp hd
  have hlinks : source.file.path ∈ sources docs d.file.path ↔
      ∃ link ∈ linkTexts source.file, LeadsTo docs link d.file.path := mem_sources_iff h hfrom
  exact (List.mem_map_of_injective fun _ _ => Value.string.inj).trans hlinks

/-- The index of files knows a path to mean its note. -/
theorem lookupFile?_fill (h : Indexed docs) (hd : d ∈ fill docs)
    (hlink : Path.normalize link = d.file.path) {s : Scope}
    (hfiles : s.files = Document.index (fill docs)) : s.lookupFile? link = some d.file := by
  refine Scope.lookupFile?_of_path ?_
  rw [hfiles, hlink]
  exact Document.lookup_index (paths_fill docs ▸ h.nodup_paths) hd

theorem leadsTo_path_fill (h : Indexed docs) (hd : d ∈ fill docs)
    (hlink : Path.normalize link = d.file.path) :
    LeadsTo docs link d.file.path ↔ Unclaimed docs d.file.path := by
  obtain ⟨d, hd', rfl⟩ := List.mem_map.mp hd
  have hleads : LeadsTo docs link d.file.path ↔ Unclaimed docs d.file.path :=
    leadsTo_path h hd' hlink
  exact hleads

theorem backlinks_fill (hd : d ∈ fill docs) : ∃ paths : List String,
    d.file.backlinks = paths.map Value.string ∧ paths.Pairwise (· < ·) ∧
      ∀ path ∈ paths, ∃ source ∈ docs, source.file.path = path ∧ source.file.links ≠ [] := by
  obtain ⟨d, -, rfl⟩ := List.mem_map.mp hd
  refine ⟨sources docs d.file.path, rfl, sources_pairwise docs d.file.path, fun path hpath => ?_⟩
  obtain ⟨source, hsource, rfl, link, hlink, -⟩ := mem_sources.mp hpath
  refine ⟨source, hsource, rfl, fun hnil => ?_⟩
  rw [linkTexts, hnil] at hlink
  cases hlink

end Filled

/-- In a filled vault a note links back to exactly those that link to it; a path that is spelled out
is found to mean its note, and leads there as a link unless a note further down has it for a name;
backlinks stand in order, each once, and all come from notes with links. -/
theorem fill_links (h : Indexed docs) :
    (∀ source ∈ fill docs, ∀ d ∈ fill docs,
      (Value.string source.file.path ∈ d.file.backlinks ↔
        ∃ link ∈ linkTexts source.file, LeadsTo docs link d.file.path)) ∧
    (∀ d ∈ fill docs, ∀ link, Path.normalize link = d.file.path →
      (∀ s : Scope, s.files = Document.index (fill docs) → s.lookupFile? link = some d.file) ∧
      (LeadsTo docs link d.file.path ↔ Unclaimed docs d.file.path)) ∧
    ∀ d ∈ fill docs, ∃ paths : List String, d.file.backlinks = paths.map Value.string ∧
      paths.Pairwise (· < ·) ∧
      ∀ path ∈ paths, ∃ source ∈ docs, source.file.path = path ∧ source.file.links ≠ [] := by
  refine ⟨?_, ?_, ?_⟩
  · intro source hsource d hd
    exact mem_backlinks_fill h hsource hd
  · intro d hd link hlink
    exact ⟨fun s hfiles => lookupFile?_fill h hd hlink hfiles, leadsTo_path_fill h hd hlink⟩
  · intro d hd
    exact backlinks_fill hd

/-! ## Two notes of one file name -/

/-- A note at the root and one in a folder, of one file name, that link to each other by path. -/
def namesakes : List Document := [
  ⟨[], { name := "a.md", path := "a.md", basename := "a", links := [.string "b/a.md"] }⟩,
  ⟨[], { name := "a.md", path := "b/a.md", basename := "a", links := [.string "a.md"] }⟩]

theorem indexed_namesakes : Indexed namesakes where
  ordered := by decide +kernel
  distinct := by decide +kernel
  elsewhere := by decide +kernel

/-- The link to the folder is a backlink there. -/
theorem fill_links_namesakes : Indexed namesakes ∧
    ∃ source ∈ fill namesakes, source.file.path = "a.md" ∧
      ∃ d ∈ fill namesakes, d.file.path = "b/a.md" ∧
        Value.string source.file.path ∈ d.file.backlinks := by
  obtain ⟨hlinks, hpaths, -⟩ := fill_links indexed_namesakes
  refine ⟨indexed_namesakes, _, .head _, rfl, _, .tail _ (.head _), rfl, ?_⟩
  refine (hlinks _ (.head _) _ (.tail _ (.head _))).mpr ⟨"b/a.md", .head _, ?_⟩
  exact (hpaths _ (.tail _ (.head _)) "b/a.md" (by decide +kernel)).2.mpr (by decide +kernel)

/-- The link to the root is no backlink there, though the index of files finds that note for it. -/
theorem linksPastRoot : Indexed namesakes ∧
    ∃ source ∈ fill namesakes, ∃ link ∈ linkTexts source.file,
      ∃ d ∈ fill namesakes, Path.normalize link = d.file.path ∧
        (∀ s : Scope, s.files = Document.index (fill namesakes) →
          s.lookupFile? link = some d.file) ∧
        Value.string source.file.path ∉ d.file.backlinks := by
  have hspelled : Path.normalize "a.md" = "a.md" := by decide +kernel
  refine ⟨indexed_namesakes, _, .tail _ (.head _), "a.md", .head _, _, .head _, hspelled, ?_, ?_⟩
  · intro s hfiles
    exact lookupFile?_fill indexed_namesakes (.head _) hspelled hfiles
  · intro hmem
    obtain ⟨link, hlink, hleads⟩ :=
      (mem_backlinks_fill indexed_namesakes (.tail _ (.head _)) (.head _)).mp hmem
    obtain rfl : link = "a.md" := List.mem_singleton.mp hlink
    have hunclaimed := (leadsTo_path_fill indexed_namesakes (.head _) hspelled).mp hleads
    exact absurd hunclaimed (by decide +kernel)

end Backlinks

end NoteQuery
