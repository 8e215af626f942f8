/-
What comes of the notes of a vault.

A text gives metadata: the tags, links and embeds that are found in it and the properties of its
front matter, or none where that is malformed or no mapping (`Markdown.told_read`).  But front
matter can be well formed and still not be had as data, like a day that the calendar does not have
(`FrontMatter.Breaks`), and then, and only then, nothing at all is read of the text
(`Markdown.read_eq_error_iff`).  An index goes through its notes in order, writes a warning for each
whose front matter is passed over, and breaks off at the first of which nothing is read
(`VaultIndex.told_ofPlace`).
-/
import NoteQuery.Proofs.Outcomes
import NoteQuery.Proofs.Yaml.Values
import NoteQuery.Vault.Index

namespace NoteQuery

/-! ## Logs -/

namespace Logged

variable {ε α β : Type} {c : Logged ε α} {f : α → Logged ε β} {entries entries' : Log}

/-- The computation has the outcome, and writes the entries behind whatever log there is. -/
def Writes (c : Logged ε α) (outcome : Except ε α) (entries : Log) : Prop :=
  ∀ log, (ExceptT.run c).run log = (outcome, log ++ entries)

theorem writes_pure (a : α) : (pure a : Logged ε α).Writes (.ok a) [] := by
  intro log
  rw [List.append_nil]
  rfl

theorem writes_note (level : LogLevel) (source : LogSource) (message : String) :
    (note level source message : Logged ε Unit).Writes (.ok ()) [⟨level, source, message⟩] :=
  fun _ => rfl

theorem writes_bind {a : α} {outcome : Except ε β} (hc : c.Writes (.ok a) entries)
    (hf : (f a).Writes outcome entries') : (c >>= f).Writes outcome (entries ++ entries') := by
  intro log
  rw [ExceptT.run_bind, StateT.run_bind, hc log, ← List.append_assoc]
  exact hf (log ++ entries)

theorem writes_bind_pure {a : α} (g : α → β) (hc : c.Writes (.ok a) entries) :
    (c >>= fun a => pure (g a)).Writes (.ok (g a)) entries := by
  have h := writes_bind (f := fun a => pure (g a)) hc (writes_pure (g a))
  rwa [List.append_nil] at h

theorem writes_bind_error {e : ε} (hc : c.Writes (.error e) entries) :
    (c >>= f).Writes (.error e) entries := by
  intro log
  rw [ExceptT.run_bind, StateT.run_bind, hc log]
  rfl

theorem writes_ofExcept_bind {x : Except ε α} {a : α} {outcome : Except ε β} (hx : x = .ok a)
    (hf : (f a).Writes outcome entries) : (ofExcept x >>= f).Writes outcome entries := by
  subst hx
  exact hf

theorem writes_ofExcept_bind_error {x : Except ε α} {e : ε} (hx : x = .error e) :
    (ofExcept x >>= f).Writes (.error e) [] := by
  subst hx
  intro log
  rw [List.append_nil]
  rfl

theorem Writes.outcome_eq {result : Except ε α} (h : c.Writes result entries) :
    c.outcome = (result, entries) :=
  h []

end Logged

/-! ## Front matter -/

namespace FrontMatter

variable {raw text : String} {e : FrontMatterError} {f : Fault}

/-- The text begins with such a block, in which there is something to be read. -/
def HasBlock (raw : String) (text : String) : Prop :=
  ∃ block, block? raw.toList = some block ∧ ¬ block.all Text.isBlank = true ∧
    String.ofList block = text

/-- The front matter of the text gives no properties: it is malformed, or data of another sort. -/
inductive PassedOver (raw : String) : FrontMatterError → Prop
  | malformed {text reason : String} : HasBlock raw text →
      Yaml.read text = .error (.malformed reason) → PassedOver raw (.malformed reason)
  | notAMapping {text : String} {v : Value} : HasBlock raw text → Yaml.read text = .ok v →
      v ≠ .null → (∀ live entries, v ≠ .mapping live entries) →
        PassedOver raw (.notAMapping (sortWord v))

/-- The front matter of the text is well formed, but not to be had: its data is not, or a key of it
is an integer with too many digits to be the name of a property. -/
inductive Breaks (raw : String) : Fault → Prop
  | data {text : String} {f : Fault} : HasBlock raw text → Yaml.read text = .error (.fault f) →
      Yaml.Unreadable text f → Breaks raw f
  | key {text : String} {live : Bool} {entries : Entries} {entry : Value × Value} :
      HasBlock raw text → Yaml.read text = .ok (.mapping live entries) → entry ∈ entries →
        entry.1.isWritable = false → Breaks raw .integerTooLong

/-! ### What a block gives -/

section Blocks

variable {live : Bool} {entries : Entries} {v : Value} {reason : String}

theorem ofBlock_malformed (h : Yaml.read text = .error (.malformed reason)) :
    ofBlock text = .ok (.error (.malformed reason)) := by
  simp only [ofBlock, h]

theorem ofBlock_fault (h : Yaml.read text = .error (.fault f)) : ofBlock text = .error f := by
  simp only [ofBlock, h]

theorem ofBlock_null (h : Yaml.read text = .ok .null) : ofBlock text = .ok (.ok []) := by
  simp only [ofBlock, h]

theorem ofBlock_mapping (h : Yaml.read text = .ok (.mapping live entries)) :
    ofBlock text = if entries.all (·.1.isWritable) then
      .ok (.ok (Entries.ofTexts (entries.map fun (k, v) => (k.keyText, v))))
    else .error .integerTooLong := by
  simp only [ofBlock, h]

theorem ofBlock_other (h : Yaml.read text = .ok v) (hnull : v ≠ .null)
    (hmapping : ∀ live entries, v ≠ .mapping live entries) :
    ofBlock text = .ok (.error (.notAMapping (sortWord v))) := by
  cases v with
  | null => exact absurd rfl hnull
  | mapping live entries => exact absurd rfl (hmapping live entries)
  | _ => simp only [ofBlock, h]

end Blocks

/-- What comes of a text whose block has something to be read. -/
theorem read_of_hasBlock (h : HasBlock raw text) : read raw = ofBlock text := by
  obtain ⟨block, hblock, hsome, rfl⟩ := h
  simp only [read, hblock, if_neg hsome]

/-- A text either gives no properties because it has no block to be read, or its block decides. -/
theorem read_eq_none_or (raw : String) :
    read raw = .ok (.ok []) ∨ ∃ text, HasBlock raw text ∧ read raw = ofBlock text := by
  cases hblock : block? raw.toList with
  | none => exact .inl (by simp only [read, hblock])
  | some block =>
    by_cases hblank : block.all Text.isBlank = true
    · exact .inl (by simp only [read, hblock, if_pos hblank])
    · have hhas : HasBlock raw (String.ofList block) := ⟨block, hblock, hblank, rfl⟩
      exact .inr ⟨_, hhas, read_of_hasBlock hhas⟩

/-! ### Every text -/

/-- A text has properties, or its front matter is passed over, or nothing of it is to be had. -/
theorem read_cases (raw : String) :
    (∃ properties, read raw = .ok (.ok properties)) ∨
      (∃ e, PassedOver raw e ∧ read raw = .ok (.error e)) ∨
        ∃ f, Breaks raw f ∧ read raw = .error f := by
  rcases read_eq_none_or raw with h | ⟨text, hblock, h⟩
  · exact .inl ⟨[], h⟩
  rw [h]
  cases hread : Yaml.read text with
  | error trouble =>
    cases trouble with
    | malformed reason => exact .inr (.inl ⟨_, .malformed hblock hread, ofBlock_malformed hread⟩)
    | fault f =>
      have hbreaks : Breaks raw f := .data hblock hread (Yaml.unreadable_of_read hread)
      exact .inr (.inr ⟨f, hbreaks, ofBlock_fault hread⟩)
  | ok v =>
    by_cases hnull : v = .null
    · exact .inl ⟨[], ofBlock_null (hnull ▸ hread)⟩
    by_cases hmapping : ∃ live entries, v = .mapping live entries
    · obtain ⟨live, entries, rfl⟩ := hmapping
      by_cases hall : entries.all (·.1.isWritable) = true
      · exact .inl ⟨_, (ofBlock_mapping hread).trans (if_pos hall)⟩
      · obtain ⟨entry, hentry, hkey⟩ : ∃ entry ∈ entries, ¬ entry.1.isWritable = true := by
          simpa only [List.all_eq_true, not_forall, exists_prop] using hall
        have hbreaks : Breaks raw .integerTooLong :=
          .key hblock hread hentry (Bool.not_eq_true _ ▸ hkey)
        exact .inr (.inr ⟨_, hbreaks, (ofBlock_mapping hread).trans (if_neg hall)⟩)
    · have hother : ∀ live entries, v ≠ .mapping live entries :=
        fun live entries h => hmapping ⟨live, entries, h⟩
      have hpassed : PassedOver raw (.notAMapping (sortWord v)) :=
        .notAMapping hblock hread hnull hother
      exact .inr (.inl ⟨_, hpassed, ofBlock_other hread hnull hother⟩)

theorem read_of_breaks (h : Breaks raw f) : read raw = .error f := by
  cases h with
  | data hblock hread _ => exact (read_of_hasBlock hblock).trans (ofBlock_fault hread)
  | key hblock hread hentry hkey =>
    rw [read_of_hasBlock hblock, ofBlock_mapping hread]
    refine if_neg fun hall => ?_
    have hwritable := List.all_eq_true.mp hall _ hentry
    rw [hkey] at hwritable
    cases hwritable

end FrontMatter

/-! ## Texts -/

namespace Markdown

/-- What a text gives: what is found in it beside the properties of its front matter, or beside
none where that is passed over; and nothing where it breaks. -/
inductive Told (raw : String) : Except Fault (Metadata × Option FrontMatterError) → Prop
  | had {properties : Entries} : FrontMatter.read raw = .ok (.ok properties) →
      Told raw (.ok (⟨properties, tags raw properties, links raw, embeds raw⟩, none))
  | passedOver {e : FrontMatterError} : FrontMatter.PassedOver raw e →
      Told raw (.ok (⟨[], tags raw [], links raw, embeds raw⟩, some e))
  | broken {f : Fault} : FrontMatter.Breaks raw f → Told raw (.error f)

theorem told_read (raw : String) : Told raw (read raw) := by
  rcases FrontMatter.read_cases raw with ⟨properties, h⟩ | ⟨e, he, h⟩ | ⟨f, hf, h⟩
  · have hread : read raw =
        .ok (⟨properties, tags raw properties, links raw, embeds raw⟩, none) := by
      rw [read, h]
      rfl
    rw [hread]
    exact .had h
  · have hread : read raw = .ok (⟨[], tags raw [], links raw, embeds raw⟩, some e) := by
      rw [read, h]
      rfl
    rw [hread]
    exact .passedOver he
  · have hread : read raw = .error f := by
      rw [read, h]
      rfl
    rw [hread]
    exact .broken hf

/-- Nothing is read of a text exactly where its front matter breaks. -/
theorem read_eq_error_iff {raw : String} {f : Fault} :
    read raw = .error f ↔ FrontMatter.Breaks raw f := by
  constructor
  · intro h
    have htold := told_read raw
    rw [h] at htold
    cases htold with
    | broken hf => exact hf
  · intro h
    rw [read, FrontMatter.read_of_breaks h]
    rfl

theorem exists_read_iff {raw : String} :
    (∃ found, read raw = .ok found) ↔ ∀ f, ¬ FrontMatter.Breaks raw f := by
  constructor
  · rintro ⟨found, h⟩ f hf
    rw [read_eq_error_iff.mpr hf] at h
    cases h
  · intro h
    cases hread : read raw with
    | ok found => exact ⟨found, rfl⟩
    | error f => exact absurd (read_eq_error_iff.mp hread) (h f)

end Markdown

/-! ## Notes of a vault -/

namespace VaultIndex

variable {f : StoredFile} {files : List StoredFile} {m : Markdown.Metadata}
  {trouble : Option FrontMatterError} {fault : Fault}

/-- The warning for a note whose front matter is passed over. -/
def warning (f : StoredFile) (e : FrontMatterError) : LogEntry :=
  ⟨.warning, .notes, f.path ++ ": " ++ e.message⟩

/-- The notes can all be read; these are their documents, and the warnings on the way. -/
inductive ReadAll : List StoredFile → List Document → Log → Prop
  | nil : ReadAll [] [] []
  | cons {f : StoredFile} {files : List StoredFile} {docs : List Document} {log : Log}
      {m : Markdown.Metadata} {trouble : Option FrontMatterError} :
      Markdown.read f.looseText = .ok (m, trouble) → ReadAll files docs log →
        ReadAll (f :: files) (⟨m.properties, recordOf f f.looseText m⟩ :: docs)
          ((trouble.map (warning f)).toList ++ log)

/-- What comes of notes that are gone through in order: a document for each, or the failure of the
first that breaks. -/
inductive GoneThrough (files : List StoredFile) : Except Fault (List Document) → Log → Prop
  | read {docs : List Document} {log : Log} : ReadAll files docs log →
      GoneThrough files (.ok docs) log
  | broken {before after : List StoredFile} {f : StoredFile} {docs : List Document} {log : Log}
      {fault : Fault} : files = before ++ f :: after → ReadAll before docs log →
        FrontMatter.Breaks f.looseText fault → GoneThrough files (.error fault) log

theorem ReadAll.not_breaks {docs : List Document} {log : Log} (h : ReadAll files docs log) :
    ∀ f ∈ files, ∀ fault, ¬ FrontMatter.Breaks f.looseText fault := by
  induction h with
  | nil => exact List.forall_mem_nil _
  | cons hread _ ih =>
    exact List.forall_mem_cons.mpr ⟨Markdown.exists_read_iff.mp ⟨_, hread⟩, ih⟩

theorem writes_documentOf (h : Markdown.read f.looseText = .ok (m, trouble)) :
    (documentOf f).Writes (.ok ⟨m.properties, recordOf f f.looseText m⟩)
      (trouble.map (warning f)).toList := by
  refine Logged.writes_ofExcept_bind h ?_
  cases trouble with
  | none => exact Logged.writes_pure _
  | some e =>
    exact Logged.writes_bind (Logged.writes_note _ _ _) (Logged.writes_pure _)

theorem writes_documentOf_error (h : Markdown.read f.looseText = .error fault) :
    (documentOf f).Writes (.error fault) [] :=
  Logged.writes_ofExcept_bind_error h

theorem exists_writes_documentsOf (files : List StoredFile) :
    ∃ outcome log, GoneThrough files outcome log ∧ (documentsOf files).Writes outcome log := by
  induction files with
  | nil => exact ⟨.ok [], [], .read .nil, Logged.writes_pure []⟩
  | cons f files ih =>
    cases hread : Markdown.read f.looseText with
    | error fault =>
      have hbreaks := Markdown.read_eq_error_iff.mp hread
      exact ⟨.error fault, [], .broken rfl .nil hbreaks,
        Logged.writes_bind_error (writes_documentOf_error hread)⟩
    | ok found =>
      obtain ⟨m, trouble⟩ := found
      have hfirst := writes_documentOf hread
      obtain ⟨outcome, log, hgone, hwrites⟩ := ih
      cases hgone with
      | read hall =>
        exact ⟨_, _, .read (.cons hread hall),
          Logged.writes_bind hfirst (Logged.writes_bind_pure _ hwrites)⟩
      | broken hfiles hall hbreaks =>
        have hfiles' := congrArg (f :: ·) hfiles
        exact ⟨_, _, .broken hfiles' (.cons hread hall) hbreaks,
          Logged.writes_bind hfirst (Logged.writes_bind_error hwrites)⟩

/-- What comes of a place, and what the log tells of it. -/
inductive Told (root : String) (place : Place) (selection : Selection) :
    Except Fault VaultIndex × Log → Prop
  | unopened {fault : Fault} : place.openDirectory (Path.tidy root) = .error fault →
      Told root place selection (.error fault, [])
  | indexed {files : List StoredFile} {docs : List Document} {log : Log} {index : VaultIndex} :
      place.openDirectory (Path.tidy root) = .ok files →
      ReadAll (notes files selection) docs log →
      index = ⟨Backlinks.fill docs, files.length⟩ →
        Told root place selection
          (.ok index, log ++ [⟨.debug, .vault, summary (Path.tidy root) index⟩])
  | broken {files before after : List StoredFile} {f : StoredFile} {docs : List Document}
      {log : Log} {fault : Fault} : place.openDirectory (Path.tidy root) = .ok files →
      notes files selection = before ++ f :: after → ReadAll before docs log →
      FrontMatter.Breaks f.looseText fault → Told root place selection (.error fault, log)

theorem told_ofPlace (root : String) (place : Place) (selection : Selection) :
    Told root place selection (ofPlace root place selection).outcome := by
  cases hopen : place.openDirectory (Path.tidy root) with
  | error fault =>
    have hwrites : (ofPlace root place selection).Writes (.error fault) [] :=
      Logged.writes_ofExcept_bind_error hopen
    rw [hwrites.outcome_eq]
    exact .unopened hopen
  | ok files =>
    obtain ⟨outcome, log, hgone, hnotes⟩ := exists_writes_documentsOf (notes files selection)
    cases hgone with
    | @read docs _ hall =>
      let index : VaultIndex := ⟨Backlinks.fill docs, files.length⟩
      have hlast : (do
          Logged.note .debug .vault (summary (Path.tidy root) index)
          return index : Logged Fault VaultIndex).Writes (.ok index)
            [⟨.debug, .vault, summary (Path.tidy root) index⟩] :=
        Logged.writes_bind (Logged.writes_note _ _ _) (Logged.writes_pure index)
      have hwrites : (ofPlace root place selection).Writes (.ok index)
          (log ++ [⟨.debug, .vault, summary (Path.tidy root) index⟩]) :=
        Logged.writes_ofExcept_bind hopen (Logged.writes_bind hnotes hlast)
      rw [hwrites.outcome_eq]
      exact .indexed hopen hall rfl
    | @broken before after f docs _ fault hfiles hall hbreaks =>
      have hwrites : (ofPlace root place selection).Writes (.error fault) log :=
        Logged.writes_ofExcept_bind hopen (Logged.writes_bind_error hnotes)
      rw [hwrites.outcome_eq]
      exact .broken hopen hfiles hall hbreaks

/-- There is an index exactly where the directory can be opened and none of its notes breaks. -/
theorem exists_index_iff (root : String) (place : Place) (selection : Selection) :
    (∃ index, (ofPlace root place selection).outcome.1 = .ok index) ↔
      ∃ files, place.openDirectory (Path.tidy root) = .ok files ∧
        ∀ f ∈ notes files selection, ∀ fault, ¬ FrontMatter.Breaks f.looseText fault := by
  have htold := told_ofPlace root place selection
  generalize (ofPlace root place selection).outcome = outcome at htold
  cases htold with
  | unopened hopen =>
    refine iff_of_false nofun ?_
    rintro ⟨files, hfiles, -⟩
    cases hopen.symm.trans hfiles
  | indexed hopen hall _ => exact iff_of_true ⟨_, rfl⟩ ⟨_, hopen, hall.not_breaks⟩
  | broken hopen hnotes _ hbreaks =>
    refine iff_of_false nofun ?_
    rintro ⟨files, hfiles, hsound⟩
    cases hopen.symm.trans hfiles
    refine hsound _ ?_ _ hbreaks
    rw [hnotes]
    exact List.mem_append_right _ List.mem_cons_self

/-- What comes of any text and of any place: metadata of a text unless it breaks, and an index of
a directory unless one of its notes does. -/
theorem told_of_notes (raw root : String) (place : Place) (selection : Selection) :
    Markdown.Told raw (Markdown.read raw) ∧
      ((∃ found, Markdown.read raw = .ok found) ↔ ∀ fault, ¬ FrontMatter.Breaks raw fault) ∧
      Told root place selection (ofPlace root place selection).outcome ∧
      ((∃ index, (ofPlace root place selection).outcome.1 = .ok index) ↔
        ∃ files, place.openDirectory (Path.tidy root) = .ok files ∧
          ∀ f ∈ notes files selection, ∀ fault, ¬ FrontMatter.Breaks f.looseText fault) :=
  ⟨Markdown.told_read raw, Markdown.exists_read_iff, told_ofPlace root place selection,
    exists_index_iff root place selection⟩

/-- A note with a day that the calendar does not have. -/
def undatedText : String :=
  "---\nd: 2024-13-45\n---\n#todo [[b]]\n"

/-- A file that holds the text in octets of their own. -/
def plainFile (path text : String) : StoredFile :=
  let time := Timestamp.midnight ⟨2024, 1, 1, by decide⟩
  ⟨path, text.toList.map fun c => UInt8.ofNat c.toNat, time, time⟩

/-- For such a day nothing is read of the note, and its neighbour is lost with it. -/
theorem impossible_day_breaks :
    Markdown.read undatedText = .error (.partOutOfRange "month" 1 12) ∧
      Markdown.tags undatedText [] = ["todo"] ∧ Markdown.links undatedText = ["b"] ∧
      (ofPlace "." (.directory [plainFile "a.md" undatedText, plainFile "b.md" "fine\n"])
        ⟨[], []⟩).outcome = (.error (.partOutOfRange "month" 1 12), []) := by
  let a := plainFile "a.md" undatedText
  let b := plainFile "b.md" "fine\n"
  have hread : Markdown.read a.looseText = .error (.partOutOfRange "month" 1 12) :=
    eq_error_of_test (by decide +kernel)
  have hfilter : [a, b].filter (fun f => (Selection.mk [] []).has f.path && isNote f.path) =
      [a, b] := by
    refine List.filter_eq_self.mpr (List.forall_mem_cons.mpr ⟨?_, List.forall_mem_singleton.mpr ?_⟩)
    · decide +kernel
    · decide +kernel
  have hnotes : notes [a, b] ⟨[], []⟩ = [a, b] := by
    unfold notes
    dsimp only
    rw [hfilter]
    exact List.mergeSort_of_pairwise (List.pairwise_pair.mpr (by decide +kernel))
  have hwrites : (documentsOf (notes [a, b] ⟨[], []⟩)).Writes
      (.error (.partOutOfRange "month" 1 12)) [] := by
    rw [hnotes]
    exact Logged.writes_bind_error (writes_documentOf_error hread)
  refine ⟨eq_error_of_test (by decide +kernel), by decide +kernel, by decide +kernel, ?_⟩
  exact (Logged.writes_ofExcept_bind rfl (Logged.writes_bind_error hwrites)).outcome_eq

end VaultIndex

end NoteQuery
