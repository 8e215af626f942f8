/-
Tags and folders by their segments.

A tag lies under another one, and a folder below another one, if its segments begin with those of
that one.  The tests do not cut anything into segments: they compare the texts, and look for the
one text with a slash behind it at the start of the other.  Both say the same (`Path.isWithin_iff`),
whatever slashes stand at the ends of the texts or side by side, since every slash ends a segment,
be it an empty one.  So whoever has a tag has those above it, and a text that breaks off within a
segment is above nothing.
-/
import NoteQuery.Proofs.Escapes

namespace NoteQuery

/-! ## Pieces between separators -/

namespace Text

variable {sep : Char} {as bs : List Char}

theorem pieces_eq_splitOn (sep : Char) (cs : List Char) : pieces [sep] cs = cs.splitOn sep := by
  rw [pieces]
  induction cs with
  | nil => rfl
  | cons c cs ih =>
    rw [piecesFrom, List.splitOn_cons_eq_if_modifyHead, ← ih]
    by_cases hc : c = sep
    · simp [hc]
    · obtain ⟨piece, more, hmore⟩ := List.exists_cons_of_ne_nil (piecesFrom_ne_nil [sep] 0 cs)
      simp [hc, Ne.symm hc, hmore, consFirst]

theorem intercalate_append {pieces more : List (List Char)} (hpieces : pieces ≠ [])
    (hmore : more ≠ []) :
    [sep].intercalate (pieces ++ more) =
      [sep].intercalate pieces ++ sep :: [sep].intercalate more := by
  induction pieces with
  | nil => exact absurd rfl hpieces
  | cons piece pieces ih =>
    rcases List.eq_nil_or_concat pieces with rfl | hconcat
    · rw [List.singleton_append, List.intercalate_cons_of_ne_nil hmore, List.intercalate_singleton,
        List.append_assoc, List.singleton_append]
    · have hne : pieces ≠ [] := by
        obtain ⟨front, last, rfl⟩ := hconcat
        simp
      have happend := List.append_ne_nil_of_left_ne_nil hne more
      rw [List.cons_append, List.intercalate_cons_of_ne_nil happend,
        List.intercalate_cons_of_ne_nil hne, ih hne, List.append_assoc, List.append_assoc,
        List.append_assoc]

/-- The pieces of one text are the first pieces of another just if the texts are the same or the
other goes on behind a separator. -/
theorem splitOn_prefix_iff :
    as.splitOn sep <+: bs.splitOn sep ↔ bs = as ∨ as ++ [sep] <+: bs := by
  constructor
  · rintro ⟨more, hmore⟩
    have hjoined : [sep].intercalate (bs.splitOn sep) = bs := List.intercalate_splitOn sep
    rw [← hmore] at hjoined
    by_cases hnil : more = []
    · rw [hnil, List.append_nil, List.intercalate_splitOn] at hjoined
      exact .inl hjoined.symm
    · rw [intercalate_append (List.splitOn_ne_nil sep as) hnil, List.intercalate_splitOn] at hjoined
      refine .inr ⟨[sep].intercalate more, ?_⟩
      rw [← hjoined, List.append_assoc, List.singleton_append]
  · rintro (rfl | ⟨rest, rfl⟩)
    · exact List.prefix_refl _
    · rw [List.append_assoc, List.singleton_append, List.splitOn_append_cons_self]
      exact List.prefix_append _ _

end Text

namespace Path

variable {outer inner path : String}

theorem segments_eq_splitOn (path : String) : segments path = path.toList.splitOn '/' :=
  Text.pieces_eq_splitOn '/' path.toList

/-- The path `inner` is `outer` or lies below it: it has the segments of `outer` in front. -/
def IsAbove (outer inner : String) : Prop :=
  segments outer <+: segments inner

instance (outer inner : String) : Decidable (IsAbove outer inner) :=
  inferInstanceAs (Decidable (_ <+: _))

theorem isAbove_iff :
    IsAbove outer inner ↔ inner = outer ∨ outer.toList ++ ['/'] <+: inner.toList := by
  rw [IsAbove, segments_eq_splitOn, segments_eq_splitOn, Text.splitOn_prefix_iff, String.toList_inj]

/-- The test for paths below another compares segments. -/
theorem isWithin_iff : Library.isWithin outer inner = true ↔ IsAbove outer inner := by
  rw [isAbove_iff, Library.isWithin, Bool.or_eq_true, beq_iff_eq, Text.startsWith,
    List.isPrefixOf_iff_prefix, String.toList_append]
  rfl

theorem IsAbove.trans (h : IsAbove outer inner) (h' : IsAbove inner path) : IsAbove outer path :=
  List.IsPrefix.trans h h'

/-- Only the empty path is above the empty path. -/
theorem IsAbove.eq_empty (h : IsAbove outer "") : outer = "" := by
  rcases isAbove_iff.mp h with heq | ⟨rest, hrest⟩
  · exact heq.symm
  · simp at hrest

/-- A path that breaks off within a segment of another is not above that. -/
theorem not_isAbove_of_broken {c : Char} {rest : List Char}
    (h : inner.toList = outer.toList ++ c :: rest) (hc : c ≠ '/') : ¬ IsAbove outer inner := by
  intro habove
  rcases isAbove_iff.mp habove with rfl | hprefix
  · simp at h
  · rw [h, List.prefix_append_right_inj, List.cons_prefix_cons] at hprefix
    exact hc hprefix.1.symm

end Path

/-! ## Tags and folders of a file -/

namespace FileRecord

open NoteQuery.Path

variable {r : FileRecord Value} {name : String}

/-- The file has a tag of that name or one under it.  The empty name is no tag. -/
def HasTag (r : FileRecord Value) (name : String) : Prop :=
  name ≠ "" ∧ ∃ tag, Value.string tag ∈ r.tags ∧ IsAbove name (Library.tagName tag)

/-- The file lies in the folder of that name or below it.  The empty name is that of all folders. -/
def InFolder (r : FileRecord Value) (name : String) : Prop :=
  name = "" ∨ IsAbove name (normalize r.folder)

theorem mem_tagTexts : name ∈ Library.tagTexts r ↔
    ∃ tag, Value.string tag ∈ r.tags ∧ Library.tagName tag = name := by
  rw [Library.tagTexts, List.mem_filterMap]
  constructor
  · rintro ⟨v, hv, hmatch⟩
    cases v with
    | string tag =>
      cases hmatch
      exact ⟨tag, hv, rfl⟩
    | _ => cases hmatch
  · rintro ⟨tag, htag, rfl⟩
    exact ⟨_, htag, rfl⟩

theorem fileHasTag_iff {names : List String} : Library.fileHasTag r names = true ↔
    ∃ text ∈ names, r.HasTag (Library.tagName text) := by
  simp only [Library.fileHasTag, List.any_eq_true, List.mem_filter, List.mem_map, bne_iff_ne,
    isWithin_iff, mem_tagTexts, HasTag]
  constructor
  · rintro ⟨_, ⟨⟨text, htext, rfl⟩, hne⟩, _, ⟨tag, htag, rfl⟩, habove⟩
    exact ⟨text, htext, hne, tag, htag, habove⟩
  · rintro ⟨text, htext, hne, tag, htag, habove⟩
    exact ⟨_, ⟨⟨text, htext, rfl⟩, hne⟩, _, ⟨tag, htag, rfl⟩, habove⟩

theorem fileInFolder_iff : Library.fileInFolder r name = true ↔ r.InFolder name := by
  rw [Library.fileInFolder, Bool.or_eq_true, beq_iff_eq, isWithin_iff, InFolder]

theorem HasTag.above {outer : String} (h : r.HasTag name) (habove : IsAbove outer name)
    (hne : outer ≠ "") : r.HasTag outer := by
  obtain ⟨-, tag, htag, hname⟩ := h
  exact ⟨hne, tag, htag, habove.trans hname⟩

theorem InFolder.above {outer : String} (h : r.InFolder name) (habove : IsAbove outer name) :
    r.InFolder outer := by
  rcases h with rfl | hname
  · exact .inl habove.eq_empty
  · exact .inr (habove.trans hname)

/-- A name that breaks off within a segment of each tag is no tag of the file. -/
theorem not_hasTag_of_broken (h : ∀ tag, Value.string tag ∈ r.tags → ∃ c rest,
    (Library.tagName tag).toList = name.toList ++ c :: rest ∧ c ≠ '/') : ¬ r.HasTag name := by
  rintro ⟨-, tag, htag, habove⟩
  obtain ⟨c, rest, htext, hc⟩ := h tag htag
  exact not_isAbove_of_broken htext hc habove

/-- A name that breaks off within a segment of the folder is no folder that the file lies in. -/
theorem not_inFolder_of_broken {c : Char} {rest : List Char} (hne : name ≠ "")
    (h : (normalize r.folder).toList = name.toList ++ c :: rest) (hc : c ≠ '/') :
    ¬ r.InFolder name := by
  rintro (hempty | habove)
  · exact hne hempty
  · exact not_isAbove_of_broken h hc habove

end FileRecord

/-! ## Calls of the methods -/

namespace Expr

open Library NoteQuery.Path

variable {s : Scope} {base : Expr} {r : FileRecord Value}

theorem mapM_displayed (values : List Value) :
    values.mapM displayed = Failure.ofFault (values.mapM Value.display) := by
  induction values with
  | nil => rfl
  | cons v values ih =>
    rw [List.mapM_cons, List.mapM_cons, ih, displayed]
    cases v.display with
    | error f => rfl
    | ok text => cases values.mapM Value.display <;> rfl

theorem apply_hasTag (values : List Value) : MethodOp.hasTag.apply s (.file r) values =
    Failure.ofFault (do return .bool (fileHasTag r (← values.mapM Value.display))) := by
  simp only [MethodOp.apply, onFile, mapM_displayed]
  cases values.mapM Value.display <;> rfl

theorem folderPath_eq_ok {v : Value} {text : String} (h : v.display = .ok text) :
    folderPath v = .ok (withoutEndSlashes (normalize text)) := by
  rw [folderPath, displayed, h]
  rfl

theorem apply_inFolder_ok {v : Value} {wanted : String} (h : folderPath v = .ok wanted) :
    MethodOp.inFolder.apply s (.file r) [v] = .ok (.bool (fileInFolder r wanted)) := by
  have hfound : MethodOp.inFolder.apply s (.file r) [v] =
      if wanted = "" then .ok (.bool true) else .ok (.bool (fileInFolder r wanted)) := by
    simp only [MethodOp.apply, Library.optional, h]
    rfl
  rw [hfound]
  split
  · next hempty => simp [fileInFolder, hempty]
  · rfl

theorem apply_inFolder_error {v : Value} {f : Fault} (h : v.display = .error f) :
    MethodOp.inFolder.apply s (.file r) [v] = .error (.fault f) := by
  have hpath : folderPath v = .error (.fault f) := by
    rw [folderPath, displayed, h]
    rfl
  simp only [MethodOp.apply, Library.optional, hpath]
  rfl

/-- Asked for tags that can be displayed, a file says whether one of the names has segments, and
they are the first segments of one of its tags; asked for a folder, whether its segments are the
first segments of the folder that the file lies in.  What cannot be displayed is an error of the
call.  So the file has all tags above a tag that it has, and lies in all folders above one that it
lies in, but a name that breaks off within a segment says nothing of it. -/
theorem eval_hasTag_inFolder
    (htag : (s.library.method? (some .file) "hasTag").map (·.op) = some .hasTag)
    (hfolder : (s.library.method? (some .file) "inFolder").map (·.op) = some .inFolder)
    (hbase : base.eval s = .ok (.file r)) :
    (∀ names values, names.mapM (·.eval s) = .ok values →
      (∀ texts, values.mapM Value.display = .ok texts →
        ∃ b, (call (member base "hasTag") names).eval s = .ok (.bool b) ∧
          (b = true ↔ ∃ text ∈ texts, r.HasTag (tagName text))) ∧
      ∀ f, values.mapM Value.display = .error f →
        (call (member base "hasTag") names).eval s = .error (.evaluation (.call "hasTag" f))) ∧
    (∀ folder v, folder.eval s = .ok v →
      (∀ text, v.display = .ok text →
        ∃ b, (call (member base "inFolder") [folder]).eval s = .ok (.bool b) ∧
          (b = true ↔ r.InFolder (withoutEndSlashes (normalize text)))) ∧
      ∀ f, v.display = .error f → (call (member base "inFolder") [folder]).eval s =
        .error (.evaluation (.call "inFolder" f))) ∧
    (∀ outer inner, IsAbove outer inner →
      (r.HasTag inner → outer ≠ "" → r.HasTag outer) ∧ (r.InFolder inner → r.InFolder outer)) ∧
    (∀ name, (∀ tag, Value.string tag ∈ r.tags → ∃ c rest,
      (tagName tag).toList = name.toList ++ c :: rest ∧ c ≠ '/') → ¬ r.HasTag name) ∧
    ∀ name c rest, name ≠ "" → (normalize r.folder).toList = name.toList ++ c :: rest → c ≠ '/' →
      ¬ r.InFolder name := by
  refine ⟨fun names values hnames => ?_, fun folder v hv => ?_, fun outer inner habove => ?_, ?_,
    ?_⟩
  · rw [eval_method htag rfl hbase hnames, apply_hasTag]
    refine ⟨fun texts htexts => ⟨fileHasTag r texts, ?_, FileRecord.fileHasTag_iff⟩, fun f hf => ?_⟩
    · rw [htexts]
      rfl
    · rw [hf]
      rfl
  · have hargs : [folder].mapM (·.eval s) = .ok [v] := by
      rw [List.mapM_cons, List.mapM_nil, hv]
      rfl
    rw [eval_method hfolder rfl hbase hargs]
    refine ⟨fun text htext => ⟨_, ?_, FileRecord.fileInFolder_iff⟩, fun f hf => ?_⟩
    · rw [apply_inFolder_ok (folderPath_eq_ok htext)]
      rfl
    · rw [apply_inFolder_error hf]
      rfl
  · exact ⟨fun htag hne => htag.above habove hne, fun hfolder => hfolder.above habove⟩
  · exact fun name => FileRecord.not_hasTag_of_broken
  · exact fun name c rest => FileRecord.not_inFolder_of_broken

/-- A file with a nested tag in a nested folder. -/
def nested : FileRecord Value where
  name := "a.md"
  path := "work/2024/a.md"
  folder := "work/2024"
  tags := [.int 7, .string " #project/active "]

def nestedScope : Scope where
  __ := blankScope
  file := some nested

theorem builtin_hasTag_inFolder :
    (Registry.builtin.method? (some .file) "hasTag").map (·.op) = some .hasTag ∧
      (Registry.builtin.method? (some .file) "inFolder").map (·.op) = some .inFolder := by
  decide +kernel

theorem eval_hasTag_inFolder_nested :
    (call (member (name "file") "hasTag") [literal (.string "#project") ""]).eval nestedScope =
        .ok (.bool true) ∧
      (call (member (name "file") "hasTag") [literal (.string "proj") ""]).eval nestedScope =
        .ok (.bool false) ∧
      (call (member (name "file") "inFolder") [literal (.string "./work/") ""]).eval nestedScope =
        .ok (.bool true) := by
  have hfile : (name "file").eval nestedScope = .ok (.file nested) := rfl
  obtain ⟨htags, hfolders, habove, hbroken, -⟩ :=
    eval_hasTag_inFolder builtin_hasTag_inFolder.1 builtin_hasTag_inFolder.2 hfile
  have hactive : nested.HasTag "project/active" :=
    ⟨by decide, _, List.mem_cons_of_mem _ (List.mem_singleton_self _), by
      rw [show tagName " #project/active " = "project/active" by decide +kernel]
      exact List.prefix_refl _⟩
  have hproject : nested.HasTag "project" :=
    (habove _ _ (by decide +kernel : IsAbove "project" "project/active")).1 hactive (by decide)
  refine ⟨?_, ?_, ?_⟩
  · obtain ⟨b, heval, hiff⟩ :=
      (htags [literal (.string "#project") ""] [.string "#project"] rfl).1 ["#project"] rfl
    rw [heval, hiff.mpr ⟨_, List.mem_singleton_self _, by
      rwa [show tagName "#project" = "project" by decide +kernel]⟩]
  · obtain ⟨b, heval, hiff⟩ :=
      (htags [literal (.string "proj") ""] [.string "proj"] rfl).1 ["proj"] rfl
    have hnot : ¬ nested.HasTag "proj" := by
      refine hbroken "proj" fun tag htag => ?_
      obtain rfl : tag = " #project/active " := by
        rcases List.mem_cons.mp htag with hint | hlast
        · cases hint
        · exact Value.string.inj (List.mem_singleton.mp hlast)
      exact ⟨'e', "ct/active".toList, by decide +kernel, by decide⟩
    have hfalse : b ≠ true := by
      intro hb
      obtain ⟨text, htext, htag⟩ := hiff.mp hb
      rw [List.mem_singleton.mp htext, show tagName "proj" = "proj" by decide +kernel] at htag
      exact hnot htag
    rw [heval, Bool.eq_false_of_not_eq_true hfalse]
  · obtain ⟨b, heval, hiff⟩ :=
      (hfolders (literal (.string "./work/") "") (.string "./work/") rfl).1 "./work/" rfl
    rw [heval, hiff.mpr (.inr _)]
    rw [show withoutEndSlashes (normalize "./work/") = "work" by decide +kernel]
    decide +kernel

/-- Beside a number that cannot be written the name of a tag that the file has is not looked for. -/
theorem eval_hasTag_unwritable : nested.HasTag "project" ∧
    (call (member (name "file") "hasTag")
      [literal (.string "project") "", literal (.number (.int (pow10 4300))) ""]).eval nestedScope =
        .error (.evaluation (.call "hasTag" .integerTooLong)) := by
  refine ⟨⟨by decide, " #project/active ", List.mem_cons_of_mem _ (List.mem_singleton_self _), by
    decide +kernel⟩, ?_⟩
  have hvalues : [literal (.string "project") "", literal (.number (.int (pow10 4300))) ""].mapM
      (·.eval nestedScope) = .ok [.string "project", Value.unwritable] := rfl
  rw [eval_method builtin_hasTag_inFolder.1 rfl rfl hvalues, apply_hasTag, List.mapM_cons,
    List.mapM_cons, Value.display_unwritable]
  rfl

end Expr

end NoteQuery
