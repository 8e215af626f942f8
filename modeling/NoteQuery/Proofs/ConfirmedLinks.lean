/-
Backlinks confirmed by the method for links.

Two matchers tell where links lead.  Backlinks look up the normal form of a link in a table of
names, where the case of letters counts.  The method `hasLink` has no table: it drops endings of
notes and compares paths or their last segments in small letters.  What the first finds, the second
confirms (`hasLink_of_backlink`), because a name under which a note stands in the table differs from
its path only by the lead and by `.md` (`withoutNoteEnding_of_mem_names`).

For that the documents have to come from a scan and their names be in normal form (`WellNamed`); and
a name like `a.md.md` would lose its ending twice.
-/
import NoteQuery.Proofs.Guards
import NoteQuery.Proofs.ScannedDocuments

namespace NoteQuery

namespace Library

/-- A link leads to a target if without endings it is the target or the last segment of it. -/
theorem leadsTo_of_segment {link target : String} {lead base : List Char}
    (hlead : Path.IsLead lead) (hbase : '/' ∉ base)
    (htarget : Path.comparable target = String.ofList (lead ++ base))
    (hlink : Path.comparable link = String.ofList (lead ++ base) ∨
      Path.comparable link = String.ofList base) : leadsTo link target = true := by
  rw [leadsTo, foldedPath, foldedPath, htarget, Bool.or_eq_true, beq_iff_eq, beq_iff_eq]
  rcases hlink with hlink | hlink
  · exact .inl (congrArg Text.lower hlink)
  · rw [hlink, Path.name_lower, Path.name_lower, Path.name_of_lead hlead hbase,
      Path.name_of_segment hbase]
    exact .inr rfl

end Library

namespace Backlinks

/-! ## Names that come from paths -/

/-- The name of a note is the last segment of its path and the basename is the name without `.md`,
in whatever case.  All of them are in normal form, and the basename has no further `.md`. -/
structure WellNamed (r : FileRecord Value) : Prop where
  path_normal : Path.normalize r.path = r.path
  name_normal : Path.normalize r.name = r.name
  basename_normal : Path.normalize r.basename = r.basename
  name_eq : r.name = Path.name r.path
  basename_eq : r.basename = Path.withoutNoteEnding r.name
  basename_plain : Path.withoutNoteEnding r.basename = r.basename

section WellNamed

variable {r : FileRecord Value} {name : String} (h : WellNamed r)
include h

/-- Without the ending the path is a lead and the basename. -/
theorem WellNamed.exists_lead : ∃ lead, Path.IsLead lead ∧ '/' ∉ r.basename.toList ∧
    Path.withoutNoteEnding r.path = String.ofList (lead ++ r.basename.toList) ∧
    Path.normalize (Path.withoutNoteEnding r.path) = Path.withoutNoteEnding r.path ∧
    Path.withoutNoteEnding (Path.withoutNoteEnding r.path) = Path.withoutNoteEnding r.path := by
  obtain ⟨lead, hlead, hpath, hname⟩ := Path.exists_lead r.path
  rw [← h.name_eq] at hpath hname
  have hbase : Path.dropNoteEnding r.name.toList = r.basename.toList := by
    rw [h.basename_eq, Path.withoutNoteEnding, String.toList_ofList]
  have hplain : Path.dropNoteEnding r.basename.toList = r.basename.toList := by
    have hplain := congrArg String.toList h.basename_plain
    rwa [Path.withoutNoteEnding, String.toList_ofList] at hplain
  have hnormal : Path.normalChars (lead ++ r.basename.toList) = lead ++ r.basename.toList :=
    Path.normalChars_lead hlead (hpath ▸ Path.normalize_eq_self_iff.mp h.path_normal)
      (Path.normalize_eq_self_iff.mp h.basename_normal)
  have hstripped : Path.withoutNoteEnding r.path = String.ofList (lead ++ r.basename.toList) := by
    rw [Path.withoutNoteEnding, hpath, Path.dropNoteEnding_lead hlead, hbase]
  refine ⟨lead, hlead, fun hmem => hname (Path.dropNoteEnding_subset _ (hbase ▸ hmem)), hstripped,
    ?_, ?_⟩
  · rw [hstripped, Path.normalize, String.toList_ofList, hnormal]
  · rw [hstripped, Path.withoutNoteEnding, String.toList_ofList, Path.dropNoteEnding_lead hlead,
      hplain]

theorem WellNamed.names_eq : names r = [r.path, r.name, r.basename, r.basename ++ ".md"] := by
  have hended : Path.normalize (r.basename ++ ".md") = r.basename ++ ".md" := by
    rw [Path.normalize_eq_self_iff, String.toList_append]
    exact Path.normalChars_append (Path.normalize_eq_self_iff.mp h.basename_normal)
  simp only [names, List.map_cons, List.map_nil, h.path_normal, h.name_normal, h.basename_normal,
    hended]

/-- Without endings the names of a note are its path and its basename. -/
theorem WellNamed.withoutNoteEnding_of_mem_names (hname : name ∈ names r) :
    Path.withoutNoteEnding name = Path.withoutNoteEnding r.path ∨
      Path.withoutNoteEnding name = r.basename := by
  rw [h.names_eq] at hname
  simp only [List.mem_cons, List.not_mem_nil, or_false] at hname
  rcases hname with rfl | rfl | rfl | rfl
  · exact .inl rfl
  · exact .inr h.basename_eq.symm
  · exact .inr h.basename_plain
  · exact .inr (Path.withoutNoteEnding_append _)

end WellNamed

/-! ## Links -/

theorem mem_linkTexts {r : FileRecord Value} {link : String} :
    link ∈ linkTexts r ↔ Value.string link ∈ r.links := by
  rw [linkTexts, List.mem_filterMap]
  constructor
  · rintro ⟨v, hv, hmatch⟩
    cases v with
    | string text =>
      cases hmatch
      exact hv
    | _ => cases hmatch
  · exact fun h => ⟨_, h, rfl⟩

/-- Where the method for links is the builtin one, a call of it gives what the matcher says. -/
theorem eval_hasLink {s : Scope} {a b : Expr} {r target : FileRecord Value}
    (hlibrary : (s.library.method? (some .file) "hasLink").map (·.op) = some .hasLink)
    (ha : a.eval s = .ok (.file r)) (hb : b.eval s = .ok (.file target))
    (h : Library.fileLinksTo r (.file target) = .ok true) :
    (Expr.call (.member a "hasLink") [b]).eval s = .ok (.bool true) := by
  have hwanted : Path.comparable target.path ≠ "" := by
    intro hempty
    rw [Library.fileLinksTo, Value.comparablePath?] at h
    dsimp only at h
    rw [if_pos hempty] at h
    cases h
  have happly : Library.MethodOp.hasLink.apply s (.file r) [.file target] = .ok (.bool true) := by
    rw [Library.MethodOp.apply, Library.optional, Value.comparablePath?, Option.getD_some,
      if_neg hwanted, Library.onFile, h]
    rfl
  have hargs : [b].mapM (·.eval s) = .ok [.file target] := by
    rw [List.mapM_cons, List.mapM_nil, hb]
    rfl
  rw [Expr.eval_method hlibrary rfl ha hargs, happly]
  rfl

section Links

variable {docs : List Document} (hnames : ∀ d ∈ docs, WellNamed d.file)
include hnames

/-- A link that leads to a note is the path or the basename of it, without endings. -/
theorem comparable_of_leadsTo {d : Document} (hd : d ∈ docs) {link : String}
    (h : LeadsTo docs link d.file.path) :
    Path.comparable link = Path.withoutNoteEnding d.file.path ∨
      Path.comparable link = d.file.basename := by
  -- a note of the same path has the same names
  have hall {name : String} (hlast : LastNamed docs name d.file.path) :
      Path.withoutNoteEnding name = Path.withoutNoteEnding d.file.path ∨
        Path.withoutNoteEnding name = d.file.basename := by
    obtain ⟨before, e, after, hdocs, hpath, hname, -⟩ := hlast
    have he : e ∈ docs := hdocs ▸ List.mem_append_right before List.mem_cons_self
    have hbasename : e.file.basename = d.file.basename := by
      rw [(hnames e he).basename_eq, (hnames d hd).basename_eq, (hnames e he).name_eq,
        (hnames d hd).name_eq, hpath]
    rw [← hpath, ← hbasename]
    exact (hnames e he).withoutNoteEnding_of_mem_names hname
  rcases h with hlast | ⟨-, -, hlast⟩
  · exact hall hlast
  · have hended := hall hlast
    rw [Path.withoutNoteEnding_append] at hended
    rw [Path.comparable]
    rcases hended with heq | heq
    · obtain ⟨lead, -, -, -, -, hstripped⟩ := (hnames d hd).exists_lead
      rw [heq]
      exact .inl hstripped
    · rw [heq]
      exact .inr (hnames d hd).basename_plain

theorem leadsTo_of_leadsTo {d : Document} (hd : d ∈ docs) {link : String}
    (h : LeadsTo docs link d.file.path) :
    Library.leadsTo link (Path.comparable d.file.path) = true := by
  obtain ⟨lead, hlead, hbase, hpath, hnormal, hstripped⟩ := (hnames d hd).exists_lead
  have hwanted : Path.comparable d.file.path = Path.withoutNoteEnding d.file.path := by
    rw [Path.comparable, (hnames d hd).path_normal]
  have hlink := (comparable_of_leadsTo hnames hd h).imp (·.trans hpath)
    (·.trans String.ofList_toList.symm)
  rw [hwanted]
  refine Library.leadsTo_of_segment hlead hbase ?_ hlink
  rw [Path.comparable, hnormal, hstripped, hpath]

theorem fileLinksTo_of_leadsTo {d : Document} (hd : d ∈ docs) (hne : d.file.basename ≠ "")
    {r : FileRecord Value} (htexts : ∀ l ∈ r.links, ∃ t, l = .string t) {link : String}
    (hlink : link ∈ linkTexts r) (h : LeadsTo docs link d.file.path) :
    Library.fileLinksTo r (.file d.file) = .ok true := by
  obtain ⟨lead, -, -, hpath, -, -⟩ := (hnames d hd).exists_lead
  have hwanted : Path.comparable d.file.path ≠ "" := by
    rw [Path.comparable, (hnames d hd).path_normal, hpath]
    intro hempty
    have hnil := List.append_eq_nil_iff.mp (String.ofList_eq_empty_iff.mp hempty)
    exact hne (String.toList_eq_nil_iff.mp hnil.2)
  rw [Library.fileLinksTo, Value.comparablePath?]
  dsimp only
  rw [if_neg hwanted]
  refine anyM_eq_true (fun l hl => ?_) (mem_linkTexts.mp hlink) ?_
  · obtain ⟨t, rfl⟩ := htexts l hl
    exact ⟨_, rfl⟩
  · exact congrArg Except.ok (leadsTo_of_leadsTo hnames hd h)

/-- Every backlink is confirmed: a note from which another is linked back to has a link to it. -/
theorem hasLink_of_backlink (hscanned : VaultIndex.Scanned docs) {source d : Document}
    (hsource : source ∈ fill docs) (hd : d ∈ fill docs)
    (hback : Value.string source.file.path ∈ d.file.backlinks) {s : Scope}
    (hlibrary : (s.library.method? (some .file) "hasLink").map (·.op) = some .hasLink) {a b : Expr}
    (ha : a.eval s = .ok (.file source.file)) (hb : b.eval s = .ok (.file d.file)) :
    (Expr.call (.member a "hasLink") [b]).eval s = .ok (.bool true) := by
  obtain ⟨source, hfrom, rfl⟩ := List.mem_map.mp hsource
  obtain ⟨d, hto, rfl⟩ := List.mem_map.mp hd
  obtain ⟨t, ht, hpath, link, hlink, hleads⟩ :=
    mem_sources.mp ((List.mem_map_of_injective fun _ _ => Value.string.inj).mp hback)
  obtain rfl : t = source := List.inj_on_of_nodup_map hscanned.distinct ht hfrom hpath
  have htexts := hscanned.links_texts hfrom
  exact eval_hasLink hlibrary ha hb
    (fileLinksTo_of_leadsTo hnames hto (hscanned.basename_ne hto) htexts hlink hleads)

end Links

/-- A note with nothing but links. -/
def noteOfLinks (path : String) (links : List String) : Document where
  note := []
  file := VaultIndex.recordOf { path, octets := [], ctime := default, mtime := default } ""
    { properties := [], tags := [], links, embeds := [] }

/-- A note in a folder, whose name ends in capitals, and a note that links to it by its basename. -/
def capitals : List Document := [noteOfLinks "work/Plan.MD" [], noteOfLinks "todo.md" ["Plan"]]

theorem scanned_capitals : VaultIndex.Scanned capitals where
  distinct := by decide
  exists_file := by
    refine List.forall_mem_cons.mpr ⟨?_, List.forall_mem_singleton.mpr ?_⟩
    · exact ⟨_, _, _, by decide +kernel, rfl⟩
    · exact ⟨_, _, _, by decide +kernel, rfl⟩

theorem wellNamed_capitals : ∀ d ∈ capitals, WellNamed d.file := by
  refine List.forall_mem_cons.mpr ⟨?_, List.forall_mem_singleton.mpr ?_⟩
  · constructor <;> decide +kernel
  · constructor <;> decide +kernel

theorem builtin_hasLink :
    (Library.Registry.builtin.method? (some .file) "hasLink").map (·.op) = some .hasLink := by
  decide +kernel

/-- A scope with two files in it. -/
def scopeOfFiles (source target : Document) : Scope where
  strict := true
  now := default
  library := .builtin
  bindings := [("source", .file source.file), ("target", .file target.file)]

theorem hasLink_of_backlink_capitals : ∃ source ∈ fill capitals, ∃ target ∈ fill capitals,
    source.file.path = "todo.md" ∧ target.file.path = "work/Plan.MD" ∧
    (Expr.call (.member (.name "source") "hasLink") [.name "target"]).eval
      (scopeOfFiles source target) = .ok (.bool true) := by
  have hleads : LeadsTo capitals "Plan" "work/Plan.MD" :=
    target?_directory.mp (by decide +kernel)
  have hback := mem_sources.mpr ⟨_, .tail _ (.head _), rfl, "Plan", .head _, hleads⟩
  refine ⟨_, .tail _ (.head _), _, .head _, rfl, rfl, ?_⟩
  refine hasLink_of_backlink wellNamed_capitals scanned_capitals (.tail _ (.head _)) (.head _)
    (List.mem_map_of_mem hback) builtin_hasLink ?_ ?_
  · rw [Expr.eval]
    rfl
  · rw [Expr.eval]
    rfl

end Backlinks

end NoteQuery
