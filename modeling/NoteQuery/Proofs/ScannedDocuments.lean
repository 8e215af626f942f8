/-
Documents of a scan.

Whatever is written in the notes of a directory, a scan that comes to its end gives each of them a
document with the record of its file (`forall₂_documentsOf`).  So the documents stand under distinct
paths (`exists_scanned_of_ofPlace`), and each of them has a basename (`Scanned.basename_ne`).
-/
import NoteQuery.Proofs.Paths
import NoteQuery.Vault.Index

namespace NoteQuery

namespace Logged

variable {ε α β : Type} {c : Logged ε α} {f : α → Logged ε β}

/-- The computation gives the value behind some log. -/
def Returns (c : Logged ε α) (a : α) : Prop :=
  ∃ log log', (ExceptT.run c).run log = (.ok a, log')

theorem returns_pure {a b : α} : (pure a : Logged ε α).Returns b ↔ a = b := by
  constructor
  · rintro ⟨log, log', h⟩
    exact Except.ok.inj (Prod.mk.inj h).1
  · rintro rfl
    exact ⟨[], [], rfl⟩

theorem exists_of_returns_bind {b : β} (h : (c >>= f).Returns b) :
    ∃ a, c.Returns a ∧ (f a).Returns b := by
  obtain ⟨log, log', h⟩ := h
  rw [ExceptT.run_bind, StateT.run_bind] at h
  cases hc : (ExceptT.run c).run log with
  | mk outcome written =>
    rw [hc] at h
    cases outcome with
    | error e => cases h
    | ok a => exact ⟨a, ⟨log, written, hc⟩, ⟨written, log', h⟩⟩

end Logged

namespace VaultIndex

variable {files : List StoredFile} {selection : Selection} {docs : List Document}

/-! ## Records of files -/

theorem exists_recordOf {f : StoredFile} {d : Document} (h : (documentOf f).Returns d) :
    ∃ raw m, d.file = recordOf f raw m := by
  obtain ⟨⟨m, trouble⟩, -, h⟩ := Logged.exists_of_returns_bind h
  dsimp only at h
  split at h
  · obtain ⟨-, -, h⟩ := Logged.exists_of_returns_bind h
    cases Logged.returns_pure.mp h
    exact ⟨_, m, rfl⟩
  · cases Logged.returns_pure.mp h
    exact ⟨_, m, rfl⟩

theorem forall₂_documentsOf (h : (documentsOf files).Returns docs) :
    List.Forall₂ (fun f d => ∃ raw m, d.file = recordOf f raw m) files docs := by
  induction files generalizing docs with
  | nil =>
    cases Logged.returns_pure.mp h
    exact .nil
  | cons f files ih =>
    obtain ⟨d, hd, h⟩ := Logged.exists_of_returns_bind h
    obtain ⟨rest, hrest, h⟩ := Logged.exists_of_returns_bind h
    cases Logged.returns_pure.mp h
    exact .cons (exists_recordOf hd) (ih hrest)

/-! ## Scans -/

/-- The documents are those of notes under distinct paths, not yet linked with each other. -/
structure Scanned (docs : List Document) : Prop where
  distinct : (docs.map fun d => d.file.path).Nodup
  exists_file : ∀ d ∈ docs, ∃ f raw m, isNote f.path = true ∧ d.file = recordOf f raw m

theorem scanned_of_documentsOf (hfiles : (files.map StoredFile.path).Nodup)
    (h : (documentsOf (notes files selection)).Returns docs) : Scanned docs := by
  have hall := forall₂_documentsOf h
  have hnotes : (notes files selection).Perm
      (files.filter fun f => selection.has f.path && isNote f.path) := List.mergeSort_perm _ _
  constructor
  · have hpaths : List.Forall₂ (fun f d => f.path = d.file.path) (notes files selection) docs := by
      refine hall.imp fun f d hrecord => ?_
      obtain ⟨raw, m, hrecord⟩ := hrecord
      rw [hrecord]
      rfl
    have hmap : (notes files selection).map StoredFile.path = docs.map fun d => d.file.path := by
      rw [← List.forall₂_eq_eq_eq, List.forall₂_map_left_iff, List.forall₂_map_right_iff]
      exact hpaths
    rw [← hmap]
    exact (hnotes.map _).nodup_iff.mpr (hfiles.sublist (List.filter_sublist.map _))
  · intro d hd
    rw [← List.map_snd_zip (Nat.le_of_eq hall.length_eq.symm)] at hd
    obtain ⟨⟨f, d⟩, hzip, rfl⟩ := List.mem_map.mp hd
    obtain ⟨raw, m, hrecord⟩ := (List.forall₂_iff_zip.mp hall).2 hzip
    have hf := hnotes.mem_iff.mp (List.of_mem_zip hzip).1
    rw [List.mem_filter, Bool.and_eq_true] at hf
    exact ⟨f, raw, m, hf.2.2, hrecord⟩

/-- The index of a directory with files under distinct paths holds scanned documents, linked with
each other. -/
theorem exists_scanned_of_ofPlace {root : String} {place : Place} {index : VaultIndex}
    (hfiles : ∀ files, place.openDirectory (Path.tidy root) = .ok files →
      (files.map StoredFile.path).Nodup)
    (h : (ofPlace root place selection).Returns index) :
    ∃ docs, Scanned docs ∧ index.documents = Backlinks.fill docs := by
  obtain ⟨files, ⟨_, _, hopen⟩, h⟩ := Logged.exists_of_returns_bind h
  obtain ⟨docs, hdocs, h⟩ := Logged.exists_of_returns_bind h
  obtain ⟨-, -, h⟩ := Logged.exists_of_returns_bind h
  cases Logged.returns_pure.mp h
  exact ⟨docs, scanned_of_documentsOf (hfiles files (Prod.mk.inj hopen).1) hdocs, rfl⟩

/-- The links of a note are texts. -/
theorem Scanned.links_texts (h : Scanned docs) {d : Document} (hd : d ∈ docs) :
    ∀ l ∈ d.file.links, ∃ t, l = .string t := by
  obtain ⟨f, raw, m, -, hrecord⟩ := h.exists_file d hd
  rw [hrecord]
  exact List.forall_mem_map.mpr fun t _ => ⟨t, rfl⟩

/-- A note has a basename: where there is nothing before the ending, the ending belongs to it. -/
theorem Scanned.basename_ne (h : Scanned docs) {d : Document} (hd : d ∈ docs) :
    d.file.basename ≠ "" := by
  obtain ⟨f, raw, m, hnote, hrecord⟩ := h.exists_file d hd
  have hname : Path.name f.path ≠ "" := by
    intro hempty
    refine Path.name_ne_of_endsWith hnote ?_
    rw [Path.name_lower, hempty]
    rfl
  rw [hrecord]
  simp only [recordOf]
  unfold Path.innerStemAndEnding
  split
  · exact fun hstem => List.cons_ne_nil _ _ (String.ofList_eq_empty_iff.mp hstem)
  · exact hname

end VaultIndex

end NoteQuery
