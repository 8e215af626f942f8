/-
Plain data has the form of what it was made from.

Plain data is made of null, truth values, numbers, texts, lists, and mappings under texts
(`IsPlain`); made into plain data once more, it stays as it is.  A list keeps its elements in their
order, a set is a list of its elements in the order of their structural keys, a mapping whose keys
have texts of their own keeps its entries in their order, and everything else is the text that it
shows (`Keeps`), at any depth.  Elements of a set with keys of their own have one order by these, so
it does not matter in which one they were given (`Reenumerated`).

Not every value is made into plain data: a set with an element that has no structural key is not.
-/
import NoteQuery.Proofs.Encoding
import NoteQuery.Proofs.StructuralKeys

namespace NoteQuery

open Value

section Related

variable {α β γ : Type} {R : α → β → Prop} {as : List α} {bs : List β}

theorem map_eq_map_of_forall₂ {f : α → γ} {g : β → γ} (h : List.Forall₂ R as bs)
    (hfg : ∀ a b, R a b → f a = g b) : as.map f = bs.map g := by
  rw [← List.forall₂_eq_eq_eq, List.forall₂_map_left_iff, List.forall₂_map_right_iff]
  exact h.imp hfg

theorem map_eq_map_of_zip {f : α → γ} {g : β → γ} (hlength : as.length = bs.length)
    (h : ∀ pair ∈ as.zip bs, f pair.1 = g pair.2) : as.map f = bs.map g :=
  map_eq_map_of_forall₂ (List.forall₂_iff_zip.mpr ⟨hlength, fun hab => h _ hab⟩) fun _ _ h => h

theorem forall₂_imp_of_mem {S : α → β → Prop} (h : List.Forall₂ R as bs)
    (hS : ∀ a ∈ as, ∀ b, R a b → S a b) : List.Forall₂ S as bs :=
  ((List.forall₂_and_left as bs).mpr ⟨hS, h⟩).imp fun _ b h => h.1 b h.2

theorem forall_mem_right {P : β → Prop} (h : List.Forall₂ R as bs)
    (hP : ∀ a ∈ as, ∀ b, R a b → P b) : ∀ b ∈ bs, P b := by
  intro b hb
  obtain ⟨a, ha, hab⟩ := exists_of_mem_left h.flip hb
  exact hP a ha b hab

/-- What the elements of one list are related to, those beside them are. -/
theorem forall₂_beside {T : γ → β → Prop} {cs : List γ} (h : List.Forall₂ R as bs)
    (hlength : as.length = cs.length)
    (hT : ∀ pair ∈ as.zip cs, ∀ b, R pair.1 b → T pair.2 b) : List.Forall₂ T cs bs := by
  induction h generalizing cs with
  | nil =>
    rw [List.eq_nil_of_length_eq_zero hlength.symm]
    exact .nil
  | @cons a b as bs hab _ ih =>
    cases cs with
    | nil => cases hlength
    | cons c cs =>
      rw [List.zip_cons_cons, List.forall_mem_cons] at hT
      exact .cons (hT.1 b hab) (ih (Nat.succ.inj hlength) hT.2)

theorem exists_sources (h : ∀ b ∈ bs, ∃ a ∈ as, R a b) :
    ∃ sources ⊆ as, List.Forall₂ R sources bs := by
  induction bs with
  | nil => exact ⟨[], List.nil_subset as, .nil⟩
  | cons b bs ih =>
    obtain ⟨⟨a, ha, hR⟩, hrest⟩ := List.forall_mem_cons.mp h
    obtain ⟨sources, hsources, hall⟩ := ih hrest
    exact ⟨a :: sources, List.cons_subset.mpr ⟨ha, hsources⟩, .cons hR hall⟩

end Related

/-! ## Entries under texts -/

namespace Entries

/-- The entries stand under texts, and no two of them under the same. -/
structure Named (entries : Entries) : Prop where
  texts : ∀ e ∈ entries, ∃ name, e.1 = .string name
  nodup : (keyTexts entries).Nodup

theorem named_nil : Named [] :=
  ⟨List.forall_mem_nil _, List.nodup_nil⟩

theorem named_cons {name : String} {v : Value} {entries : Entries} :
    Named ((.string name, v) :: entries) ↔ name ∉ keyTexts entries ∧ Named entries := by
  constructor
  · rintro ⟨htexts, hnodup⟩
    obtain ⟨hnew, hrest⟩ := List.nodup_cons.mp hnodup
    exact ⟨hnew, fun e he => htexts e (List.mem_cons_of_mem _ he), hrest⟩
  · rintro ⟨hnew, htexts, hnodup⟩
    exact ⟨List.forall_mem_cons.mpr ⟨⟨name, rfl⟩, htexts⟩, List.nodup_cons.mpr ⟨hnew, hnodup⟩⟩

/-- What is put under a text takes the place of what stood there, or the last one. -/
theorem mem_put {entries : Entries} {name : String} {v : Value} {e : Value × Value}
    (h : e ∈ entries.put (.string name) v) : e = (.string name, v) ∨ e ∈ entries := by
  induction entries with
  | nil => exact .inl (List.mem_singleton.mp h)
  | cons first entries ih =>
    obtain ⟨k, a⟩ := first
    rw [put, Keyed.put] at h
    split at h
    · next hkey =>
      rw [sameKey_string.mp hkey] at h
      exact (List.mem_cons.mp h).imp_right (List.mem_cons_of_mem _)
    · rcases List.mem_cons.mp h with rfl | h
      · exact .inr List.mem_cons_self
      · exact (ih h).imp_right (List.mem_cons_of_mem _)

theorem Named.put {entries : Entries} (h : entries.Named) (name : String) (v : Value) :
    (entries.put (.string name) v).Named := by
  induction entries with
  | nil => exact named_cons.mpr ⟨List.not_mem_nil, named_nil⟩
  | cons first entries ih =>
    obtain ⟨k, a⟩ := first
    obtain ⟨other, rfl⟩ := h.texts _ List.mem_cons_self
    obtain ⟨hnew, hrest⟩ := named_cons.mp h
    rw [Entries.put, Keyed.put]
    split
    · exact named_cons.mpr ⟨hnew, hrest⟩
    · next hkey =>
      refine named_cons.mpr ⟨fun hmem => ?_, ih hrest⟩
      obtain ⟨e, he, htext⟩ := List.mem_map.mp hmem
      rcases mem_put he with rfl | he
      · exact hkey (sameKey_string.mpr (congrArg Value.string htext.symm))
      · exact hnew (htext ▸ List.mem_map_of_mem he)

/-- No text is lost. -/
theorem mem_keyTexts_put {entries : Entries} {name text : String} {v : Value}
    (h : text = name ∨ text ∈ keyTexts entries) :
    text ∈ keyTexts (entries.put (.string name) v) := by
  induction entries with
  | nil => exact List.mem_singleton.mpr (h.resolve_right List.not_mem_nil)
  | cons first entries ih =>
    obtain ⟨k, a⟩ := first
    rw [Entries.put, Keyed.put]
    split
    · next hkey =>
      rw [sameKey_string.mp hkey] at h ⊢
      exact List.mem_cons.mpr (h.elim .inl List.mem_cons.mp)
    · rcases h with rfl | h
      · exact List.mem_cons_of_mem _ (ih (.inl rfl))
      · exact List.mem_cons.mpr ((List.mem_cons.mp h).imp_right fun h => ih (.inr h))

/-- Entries put under texts one by one stand under texts, those that were put there, and no
others. -/
theorem named_ofTexts (pairs : List (String × Value)) :
    (ofTexts pairs).Named ∧ (∀ e ∈ ofTexts pairs, ∃ p ∈ pairs, e = (.string p.1, p.2)) ∧
      ∀ p ∈ pairs, p.1 ∈ keyTexts (ofTexts pairs) := by
  have hfold (before : Entries) (pairs : List (String × Value)) (hbefore : before.Named) :
      let after := (pairs.map fun p => (Value.string p.1, p.2)).foldl
        (fun entries e => entries.put e.1 e.2) before
      after.Named ∧ (∀ e ∈ after, e ∈ before ∨ ∃ p ∈ pairs, e = (.string p.1, p.2)) ∧
        ∀ text, (text ∈ keyTexts before ∨ ∃ p ∈ pairs, p.1 = text) → text ∈ keyTexts after := by
    induction pairs generalizing before with
    | nil => exact ⟨hbefore, fun e he => .inl he, fun text h => h.resolve_right (by simp)⟩
    | cons pair pairs ih =>
      obtain ⟨hnamed, hmem, htexts⟩ := ih _ (hbefore.put pair.1 pair.2)
      refine ⟨hnamed, fun e he => ?_, fun text h => htexts text ?_⟩
      · rcases hmem e he with hput | ⟨p, hp, rfl⟩
        · rcases mem_put hput with rfl | he
          · exact .inr ⟨pair, List.mem_cons_self, rfl⟩
          · exact .inl he
        · exact .inr ⟨p, List.mem_cons_of_mem _ hp, rfl⟩
      · rcases h with h | ⟨p, hp, rfl⟩
        · exact .inl (mem_keyTexts_put (.inr h))
        · rcases List.mem_cons.mp hp with rfl | hp
          · exact .inl (mem_keyTexts_put (.inl rfl))
          · exact .inr ⟨p, hp, rfl⟩
  obtain ⟨hnamed, hmem, htexts⟩ := hfold [] pairs named_nil
  exact ⟨hnamed, fun e he => (hmem e he).resolve_left List.not_mem_nil,
    fun p hp => htexts p.1 (.inr ⟨p, hp, rfl⟩)⟩

/-- Entries under texts are what is made by putting them there. -/
theorem Named.ofTexts_eq {entries : Entries} (h : entries.Named) :
    ofTexts (entries.map fun e => (e.1.keyText, e.2)) = entries := by
  rw [ofTexts_eq_map (by rw [List.map_map]; exact h.nodup), List.map_map]
  refine (List.map_congr_left fun e he => ?_).trans (List.map_id entries)
  obtain ⟨name, hname⟩ := h.texts e he
  refine Prod.ext ?_ rfl
  show Value.string e.1.keyText = e.1
  rw [hname]
  rfl

end Entries

namespace Value

variable {v w p whole : Value}

/-! ## Making plain data -/

theorem plainItems_eq_ok {items ps : List Value} : plainItems items whole = .ok ps ↔
    List.Forall₂ (fun v p => v.plainWithin whole = .ok p) items ps := by
  have heq : plainItems items whole = items.mapM (·.plainWithin whole) := by
    induction items with
    | nil => rfl
    | cons v items ih => rw [plainItems, ih, List.mapM_cons]
  rw [heq, mapM_eq_ok]

/-- The entry can be made into plain data, and the pair is that. -/
structure PlainEntry (whole : Value) (e : Value × Value) (pair : String × Value) : Prop where
  writable : e.1.isWritable = true
  text : e.1.keyText = pair.1
  plain : e.2.plainWithin whole = .ok pair.2

theorem plainEntries_eq_ok {entries : Entries} {pairs : List (String × Value)} :
    plainEntries entries whole = .ok pairs ↔ List.Forall₂ (PlainEntry whole) entries pairs := by
  induction entries generalizing pairs with
  | nil => rw [plainEntries, List.forall₂_nil_left_iff, Except.ok.injEq, eq_comm]
  | cons e entries ih =>
    rw [plainEntries, List.forall₂_cons_left_iff, bind_eq_ok]
    constructor
    · rintro ⟨_, hkey, h⟩
      obtain ⟨p, hp, h⟩ := bind_eq_ok.mp h
      obtain ⟨ps, hps, h⟩ := bind_eq_ok.mp h
      cases h
      exact ⟨_, ps, ⟨checkWritable_eq_ok.mp hkey, rfl, hp⟩, ih.mp hps, rfl⟩
    · rintro ⟨⟨text, p⟩, ps, ⟨hkey, rfl, hp⟩, hps, rfl⟩
      exact ⟨(), checkWritable_eq_ok.mpr hkey,
        bind_eq_ok.mpr ⟨p, hp, bind_eq_ok.mpr ⟨ps, ih.mpr hps, rfl⟩⟩⟩

theorem plain_list_eq_ok {items : List Value} : (list items).plainWithin whole = .ok p ↔
    ∃ ps, List.Forall₂ (fun v p => v.plainWithin whole = .ok p) items ps ∧ .list ps = p := by
  rw [plainWithin, bind_eq_ok]
  exact exists_congr fun ps => and_congr plainItems_eq_ok ⟨Except.ok.inj, congrArg Except.ok⟩

theorem plain_mapping_eq_ok {live : Bool} {entries : Entries} :
    (mapping live entries).plainWithin whole = .ok p ↔ ∃ pairs,
      List.Forall₂ (PlainEntry (if live then mapping live entries else whole)) entries pairs ∧
        .object (Entries.ofTexts pairs) = p := by
  rw [plainWithin, bind_eq_ok]
  exact exists_congr fun pairs => and_congr plainEntries_eq_ok ⟨Except.ok.inj, congrArg Except.ok⟩

/-- The member of a set has a structural key and plain data, and the pair is these. -/
structure PlainMember (whole v : Value) (pair : List Char × Value) : Prop where
  key : v.stableChars = .ok pair.1
  plain : v.plainWithin whole = .ok pair.2

theorem plain_set_eq_ok {items : List Value} : (set items).plainWithin whole = .ok p ↔
    ∃ pairs, List.Forall₂ (PlainMember whole) items pairs ∧ .list (sortKeyed pairs) = p := by
  rw [plainWithin, bind_eq_ok, stableItems_eq_mapM]
  constructor
  · rintro ⟨keys, hkeys, h⟩
    obtain ⟨ps, hps, h⟩ := bind_eq_ok.mp h
    obtain ⟨hlength, hkey⟩ := List.forall₂_iff_get.mp (mapM_eq_ok.mp hkeys)
    obtain ⟨hlength', hplain⟩ := List.forall₂_iff_get.mp (plainItems_eq_ok.mp hps)
    refine ⟨keys.zip ps, List.forall₂_iff_get.mpr ⟨?_, ?_⟩, Except.ok.inj h⟩
    · rw [List.length_zip, ← hlength, ← hlength', Nat.min_self]
    · intro i hi hi'
      rw [List.get_eq_getElem, List.get_eq_getElem, List.getElem_zip]
      exact ⟨hkey i hi (hlength ▸ hi), hplain i hi (hlength' ▸ hi)⟩
  · rintro ⟨pairs, hpairs, rfl⟩
    refine ⟨pairs.map Prod.fst, mapM_eq_ok.mpr ?_, ?_⟩
    · exact List.forall₂_map_right_iff.mpr (hpairs.imp fun _ _ h => h.key)
    · refine bind_eq_ok.mpr ⟨pairs.map Prod.snd, plainItems_eq_ok.mpr ?_, ?_⟩
      · exact List.forall₂_map_right_iff.mpr (hpairs.imp fun _ _ h => h.plain)
      · rw [← List.zip_of_prod rfl rfl]
        rfl

/-- A set with an element that has no structural key keeps a value from being plain data. -/
theorem Unkeyed.plainWithin_ne {f : Fault} (h : Unkeyed f v) : v.plainWithin whole ≠ .ok p := by
  induction h generalizing whole p with
  | set hv hkey =>
    intro hp
    obtain ⟨pairs, hpairs, -⟩ := plain_set_eq_ok.mp hp
    obtain ⟨pair, -, hmember⟩ := exists_of_mem_left hpairs hv
    cases hkey.symm.trans hmember.key
  | member hv _ ih =>
    intro hp
    obtain ⟨pairs, hpairs, -⟩ := plain_set_eq_ok.mp hp
    obtain ⟨pair, -, hmember⟩ := exists_of_mem_left hpairs hv
    exact ih hmember.plain
  | item hv _ ih =>
    intro hp
    obtain ⟨ps, hps, -⟩ := plain_list_eq_ok.mp hp
    obtain ⟨q, -, hq⟩ := exists_of_mem_left hps hv
    exact ih hq
  | entry he _ ih =>
    intro hp
    obtain ⟨pairs, hpairs, -⟩ := plain_mapping_eq_ok.mp hp
    obtain ⟨pair, -, hentry⟩ := exists_of_mem_left hpairs he
    exact ih hentry.plain

/-! ## The form of plain data -/

/-- Null, truth values, numbers and texts, and lists and mappings under texts of such data. -/
inductive IsPlain : Value → Prop
  | null : IsPlain .null
  | bool (b : Bool) : IsPlain (.bool b)
  | number (n : Number) : IsPlain (.number n)
  | string (s : String) : IsPlain (.string s)
  | list {items : List Value} : (∀ v ∈ items, IsPlain v) → IsPlain (.list items)
  | object {entries : Entries} : entries.Named → (∀ e ∈ entries, IsPlain e.2) →
      IsPlain (.object entries)

/-- Plain data stays as it is. -/
theorem IsPlain.plainWithin_eq (h : p.IsPlain) (whole : Value) : p.plainWithin whole = .ok p := by
  induction h generalizing whole with
  | null | bool | number | string => rfl
  | list _ ih =>
    refine plain_list_eq_ok.mpr ⟨_, ?_, rfl⟩
    exact List.forall₂_same.mpr fun v hv => ih v hv whole
  | @object entries hnamed _ ih =>
    refine plain_mapping_eq_ok.mpr ⟨_, List.forall₂_map_right_iff.mpr ?_,
      congrArg Value.object hnamed.ofTexts_eq⟩
    refine List.forall₂_same.mpr fun e he => ⟨?_, rfl, ih e he _⟩
    obtain ⟨name, hname⟩ := hnamed.texts e he
    rw [hname]
    rfl

/-- The value is itself in plain data. -/
def isScalar : Value → Bool
  | null | bool _ | number _ | string _ => true
  | _ => false

/-- The value is put by what it shows in plain data. -/
def isShown : Value → Bool
  | date _ | timestamp _ | duration _ | pattern _ | link .. | file _ | html _ | image _ | icon _
  | bytes _ => true
  | _ => false

/-- The structure of the value is in the data: all elements of a list in their order, all elements
of a set in the order of their structural keys, and entries of a mapping under the texts of their
keys.  These are all entries in their order, unless keys have the same text; of such one is kept. -/
inductive Keeps : Value → Value → Prop
  | scalar {v : Value} : v.isScalar = true → Keeps v v
  | shown {v : Value} {text : String} : v.isShown = true → v.display = .ok text →
      Keeps v (.string text)
  | list {vs ps : List Value} : vs.length = ps.length → (∀ pair ∈ vs.zip ps, Keeps pair.1 pair.2) →
      Keeps (.list vs) (.list ps)
  | set {vs ordered ps : List Value} : ordered.Perm vs →
      (ordered.map fun v => String.ofList v.keyChars).Pairwise (· ≤ ·) →
      ordered.length = ps.length → (∀ pair ∈ ordered.zip ps, Keeps pair.1 pair.2) →
      Keeps (.set vs) (.list ps)
  | mapping {live : Bool} {es kept fields : Entries} : kept ⊆ es →
      ((keyTexts es).Nodup → kept = es) → keyTexts es ⊆ keyTexts fields →
      keyTexts kept = keyTexts fields → (∀ pair ∈ kept.zip fields, Keeps pair.1.2 pair.2.2) →
      Keeps (.mapping live es) (.object fields)

/-- The elements of a set, in the order in which their plain data stands. -/
theorem exists_ordered {vs : List Value} {pairs : List (List Char × Value)}
    (h : List.Forall₂ (PlainMember whole) vs pairs) : ∃ ordered, ordered.Perm vs ∧
      (ordered.map fun v => String.ofList v.keyChars).Pairwise (· ≤ ·) ∧
      List.Forall₂ (fun v p => v.plainWithin whole = .ok p) ordered (sortKeyed pairs) := by
  let sorted := pairs.mergeSort fun a b => String.ofList a.1 ≤ String.ofList b.1
  obtain ⟨ordered, hordered, hperm⟩ :=
    List.perm_comp_forall₂ (List.mergeSort_perm pairs _ : sorted.Perm pairs) h.flip
  have hmembers : List.Forall₂ (PlainMember whole) ordered sorted := hordered.flip
  refine ⟨ordered, hperm, ?_, List.forall₂_map_right_iff.mpr (hmembers.imp fun _ _ h => h.plain)⟩
  have hkeys : ordered.map (fun v => String.ofList v.keyChars) =
      sorted.map fun pair => String.ofList pair.1 :=
    map_eq_map_of_forall₂ hmembers fun v pair h => by rw [keyChars_eq h.key]
  rw [hkeys, List.pairwise_map]
  exact Sorting.mergeSort_pairwise (fun pair : List Char × Value => String.ofList pair.1) pairs

/-- The entries of a mapping, in the order in which their plain data stands. -/
theorem exists_kept {es : Entries} {pairs : List (String × Value)}
    (h : List.Forall₂ (PlainEntry whole) es pairs) : ∃ kept ⊆ es,
      ((keyTexts es).Nodup → kept = es) ∧ keyTexts es ⊆ keyTexts (Entries.ofTexts pairs) ∧
      List.Forall₂ (fun e field => e.1.keyText = field.1.keyText ∧
        e.2.plainWithin whole = .ok field.2) kept (Entries.ofTexts pairs) := by
  have htexts : keyTexts es = pairs.map Prod.fst :=
    map_eq_map_of_forall₂ h fun _ _ h => h.text
  obtain ⟨-, hmem, hall⟩ := Entries.named_ofTexts pairs
  have hsubset : keyTexts es ⊆ keyTexts (Entries.ofTexts pairs) := by
    rw [htexts]
    exact List.forall_mem_map.mpr hall
  by_cases hnodup : (keyTexts es).Nodup
  · refine ⟨es, List.Subset.refl es, fun _ => rfl, hsubset, ?_⟩
    rw [Entries.ofTexts_eq_map (htexts ▸ hnodup), List.forall₂_map_right_iff]
    exact h.imp fun _ _ h => ⟨h.text, h.plain⟩
  · have hsources : ∀ field ∈ Entries.ofTexts pairs, ∃ e ∈ es,
        e.1.keyText = field.1.keyText ∧ e.2.plainWithin whole = .ok field.2 := by
      intro field hfield
      obtain ⟨pair, hpair, rfl⟩ := hmem field hfield
      obtain ⟨e, he, hentry⟩ := exists_of_mem_left h.flip hpair
      exact ⟨e, he, hentry.text, hentry.plain⟩
    obtain ⟨kept, hkept, hfields⟩ := exists_sources hsources
    exact ⟨kept, hkept, fun hnodup' => absurd hnodup' hnodup, hsubset, hfields⟩

/-- What the elements are made into is plain and keeps them, if it does so for each of them. -/
theorem keeps_items {vs ps : List Value}
    (ih : ∀ v ∈ vs, ∀ p, v.plainWithin whole = .ok p → p.IsPlain ∧ Keeps v p)
    (h : List.Forall₂ (fun v p => v.plainWithin whole = .ok p) vs ps) :
    (∀ p ∈ ps, p.IsPlain) ∧ List.Forall₂ Keeps vs ps := by
  exact ⟨forall_mem_right h fun v hv p hp => (ih v hv p hp).1,
    forall₂_imp_of_mem h fun v hv p hp => (ih v hv p hp).2⟩

theorem keeps_mapping {live : Bool} {es : Entries}
    (ih : ∀ e ∈ es, ∀ whole p, e.2.plainWithin whole = .ok p → p.IsPlain ∧ Keeps e.2 p)
    (hp : (mapping live es).plainWithin whole = .ok p) :
    p.IsPlain ∧ Keeps (.mapping live es) p := by
  obtain ⟨pairs, hpairs, rfl⟩ := plain_mapping_eq_ok.mp hp
  obtain ⟨kept, hkept, hall, htexts, hfields⟩ := exists_kept hpairs
  have hvalues : List.Forall₂
      (fun v p => v.plainWithin (if live then mapping live es else whole) = .ok p)
      (kept.map Prod.snd) ((Entries.ofTexts pairs).map Prod.snd) :=
    List.forall₂_map_left_iff.mpr (List.forall₂_map_right_iff.mpr (hfields.imp fun _ _ h => h.2))
  obtain ⟨hplain, hkeeps⟩ :=
    keeps_items (List.forall_mem_map.mpr fun e he => ih e (hkept he) _) hvalues
  rw [List.forall₂_map_left_iff, List.forall₂_map_right_iff] at hkeeps
  refine ⟨.object (Entries.named_ofTexts pairs).1 (List.forall_mem_map.mp hplain), ?_⟩
  exact .mapping hkept hall htexts (map_eq_map_of_forall₂ hfields fun _ _ h => h.1)
    fun _ => List.forall₂_zip hkeeps

/-- What a whole value is made into has the form of plain data, and that of the value. -/
theorem Whole.plainWithin_keeps (h : v.Whole) (hp : v.plainWithin whole = .ok p) :
    p.IsPlain ∧ Keeps v p := by
  have htext {v p : Value} (hshown : v.isShown = true)
      (hp : (v.display >>= fun text => .ok (Value.string text)) = .ok p) :
      p.IsPlain ∧ Keeps v p := by
    obtain ⟨text, htext, hp⟩ := bind_eq_ok.mp hp
    cases hp
    exact ⟨.string text, .shown hshown htext⟩
  induction h generalizing whole p with
  | null | bool | number | string =>
    cases hp
    exact ⟨by constructor, .scalar rfl⟩
  | link path h _ =>
    rw [plainWithin, h.unroll_eq] at hp
    exact htext rfl hp
  | list _ ih =>
    obtain ⟨ps, hps, rfl⟩ := plain_list_eq_ok.mp hp
    obtain ⟨hplain, hkeeps⟩ := keeps_items (fun v hv _ => ih v hv) hps
    exact ⟨.list hplain, .list hkeeps.length_eq fun _ => List.forall₂_zip hkeeps⟩
  | mapping _ ih => exact keeps_mapping (fun e he _ _ => ih e.2 (Entries.mem_parts he).2) hp
  | set _ ih =>
    obtain ⟨pairs, hpairs, rfl⟩ := plain_set_eq_ok.mp hp
    obtain ⟨ordered, hperm, hsorted, hps⟩ := exists_ordered hpairs
    obtain ⟨hplain, hkeeps⟩ := keeps_items (fun v hv _ => ih v (hperm.mem_iff.mp hv)) hps
    exact ⟨.list hplain, .set hperm hsorted hkeeps.length_eq fun _ => List.forall₂_zip hkeeps⟩
  | _ => exact htext rfl hp

/-! ## Sets in another order -/

/-- A value without mappings, as the elements of sets are. -/
inductive Unmapped : Value → Prop
  | single {v : Value} : (v.isScalar || v.isShown) = true → Unmapped v
  | list {items : List Value} : (∀ v ∈ items, Unmapped v) → Unmapped (.list items)
  | set {items : List Value} : (∀ v ∈ items, Unmapped v) → Unmapped (.set items)

/-- The same value, with elements of sets in another order.  The elements of such a set have
structural keys of their own, which stay the same, as they do without mappings in them. -/
inductive Reenumerated : Value → Value → Prop
  | refl (v : Value) : Reenumerated v v
  | list {vs ws : List Value} : vs.length = ws.length →
      (∀ pair ∈ vs.zip ws, Reenumerated pair.1 pair.2) → Reenumerated (.list vs) (.list ws)
  | mapping {live : Bool} {es fs : Entries} : es.length = fs.length →
      (∀ pair ∈ es.zip fs, pair.1.1 = pair.2.1) →
      (∀ pair ∈ es.zip fs, Reenumerated pair.1.2 pair.2.2) →
      Reenumerated (.mapping live es) (.mapping live fs)
  | set {vs us ws : List Value} : (vs.map keyChars).Nodup → vs.length = us.length →
      (∀ pair ∈ vs.zip us, Unmapped pair.1 ∨ pair.1.stableChars = pair.2.stableChars) →
      (∀ pair ∈ vs.zip us, Reenumerated pair.1 pair.2) → us.Perm ws →
      Reenumerated (.set vs) (.set ws)

theorem displayTexts_eq (items : List Value) : displayTexts items = items.map displayText := by
  induction items with
  | nil => rfl
  | cons v items ih => rw [displayTexts, ih, List.map_cons]

theorem dataItems?_eq (items : List Value) : dataItems? items = (items.map data?).mapM id := by
  induction items with
  | nil => rfl
  | cons v items ih => rw [dataItems?, ih, List.map_cons, List.mapM_cons, id]

theorem stableItems_eq_map (items : List Value) :
    stableItems items = (items.map stableChars).mapM id := by
  rw [stableItems_eq_mapM, List.mapM_map]
  rfl

theorem exists_dataItems {items : List Value} (h : ∀ v ∈ items, ∃ text, v.data? = some text) :
    ∃ texts, dataItems? items = some texts := by
  induction items with
  | nil => exact ⟨[], rfl⟩
  | cons v items ih =>
    obtain ⟨⟨text, htext⟩, hrest⟩ := List.forall_mem_cons.mp h
    obtain ⟨texts, htexts⟩ := ih hrest
    exact ⟨text :: texts, by rw [dataItems?, htext, htexts]; rfl⟩

/-- Values without mappings have a form as compact data. -/
theorem Unmapped.exists_data (h : Unmapped v) : ∃ text, v.data? = some text := by
  induction h with
  | @single v h =>
    cases v with
    | link path shown => cases shown <;> exact ⟨_, rfl⟩
    | list | mapping | set | cycle => cases h
    | _ => exact ⟨_, rfl⟩
  | list _ ih =>
    obtain ⟨texts, htexts⟩ := exists_dataItems ih
    exact ⟨dataList texts, by rw [data?, htexts]; rfl⟩
  | set => exact ⟨_, rfl⟩

theorem sortTexts_eq_of_perm {texts texts' : List String} (h : texts.Perm texts') :
    sortTexts texts = sortTexts texts' := by
  have hperm : (sortTexts texts).Perm (sortTexts texts') :=
    (List.mergeSort_perm texts _).trans (h.trans (List.mergeSort_perm texts' _).symm)
  exact hperm.eq_of_pairwise (fun _ _ _ _ hle hge => String.le_antisymm hle hge)
    (Sorting.mergeSort_pairwise id texts) (Sorting.mergeSort_pairwise id texts')

theorem areWritable_eq (items : List Value) :
    areWritable items = (items.map isWritable).all id := by
  induction items with
  | nil => rfl
  | cons v items ih => rw [areWritable, ih, List.map_cons, List.all_cons, id]

theorem checkAllShown_eq_forM (entered : Bool) (items : List Value) :
    checkAllShown entered items = (items.map (·.checkShown entered)).forM id := by
  induction items with
  | nil => rfl
  | cons v items ih =>
    rw [checkAllShown, ih]
    rfl

theorem itemsHaveData_congr {entered within : Bool} {vs ws : List Value}
    (h : vs.map (·.hasData entered within) = ws.map (·.hasData entered within)) :
    itemsHaveData entered within vs = itemsHaveData entered within ws := by
  induction vs generalizing ws with
  | nil => rw [List.map_eq_nil_iff.mp h.symm]
  | cons v vs ih =>
    obtain ⟨w, ws, rfl, hv, hvs⟩ := List.map_eq_cons_iff.mp h.symm
    rw [itemsHaveData, itemsHaveData, hv, ih hvs.symm]

/-- Where only one thing can keep values from being shown, their order does not matter to it. -/
theorem checkAllShown_eq_of_perm {entered : Bool} {vs ws : List Value} (hwhole : ∀ v ∈ vs, v.Whole)
    (hperm : vs.Perm ws) : checkAllShown entered vs = checkAllShown entered ws := by
  have hfails {vs : List Value} (hwhole : ∀ v ∈ vs, v.Whole) :
      checkAllShown entered vs = .ok () ∨ checkAllShown entered vs = .error .integerTooLong := by
    cases hshown : checkAllShown entered vs with
    | ok _ => exact .inl rfl
    | error f =>
      obtain ⟨v, hv, hf⟩ := exists_of_checkAllShown hshown
      obtain ⟨rfl, -⟩ := (hwhole v hv).checkShown_hasData.1 entered f hf
      exact .inr rfl
  have hok : checkAllShown entered vs = .ok () ↔ checkAllShown entered ws = .ok () := by
    rw [checkAllShown_eq_ok, checkAllShown_eq_ok]
    exact forall_congr' fun v => imp_congr_left hperm.mem_iff
  rcases hfails hwhole with hv | hv
  · rw [hv, hok.mp hv]
  · rcases hfails fun w hw => hwhole w (hperm.mem_iff.mpr hw) with hw | hw
    · rw [hok.mpr hw] at hv
      cases hv
    · rw [hv, hw]

/-- The values are displayed alike, in compact data too, and have the same structural key. -/
structure ShownAlike (v w : Value) : Prop where
  writable : v.isWritable = w.isWritable
  shown (entered : Bool) : v.checkShown entered = w.checkShown entered
  hasData (entered within : Bool) : v.hasData entered within = w.hasData entered within
  text : v.displayText = w.displayText
  data : v.data? = w.data?
  key : v.stableChars = w.stableChars

/-- A whole value without mappings is displayed alike in whichever order the elements of sets are
given, and it has the same structural key.  With a mapping it might have no form as compact data,
and the literal form shows the order. -/
theorem Reenumerated.shownAlike (h : Reenumerated v w) (hv : Unmapped v) (hwhole : v.Whole)
    (hwhole' : w.Whole) : ShownAlike v w := by
  induction h with
  | refl => exact ⟨rfl, fun _ => rfl, fun _ _ => rfl, rfl, rfl, rfl⟩
  | @list vs ws hlength _ ih =>
    cases hv with
    | single h => cases h
    | list hvs =>
      have hparts : ∀ pair ∈ vs.zip ws, ShownAlike pair.1 pair.2 := fun pair hpair =>
        have hmem := List.of_mem_zip hpair
        ih pair hpair (hvs _ hmem.1) (Whole.hereditary.items hwhole _ hmem.1)
          (Whole.hereditary.items hwhole' _ hmem.2)
      have hwritable : areWritable vs = areWritable ws := by
        rw [areWritable_eq, areWritable_eq]
        exact congrArg (List.all · id) (map_eq_map_of_zip hlength fun _ hpair =>
          (hparts _ hpair).writable)
      have hdata (entered within : Bool) :
          itemsHaveData entered within vs = itemsHaveData entered within ws :=
        itemsHaveData_congr (map_eq_map_of_zip hlength fun _ hpair =>
          (hparts _ hpair).hasData entered within)
      have hkeys := map_eq_map_of_zip hlength fun pair hpair => (hparts pair hpair).key
      obtain ⟨texts, htexts⟩ := exists_dataItems fun v hv => (hvs v hv).exists_data
      have htexts' : dataItems? ws = some texts := by
        rw [dataItems?_eq, ← map_eq_map_of_zip hlength fun pair hpair => (hparts pair hpair).data,
          ← dataItems?_eq, htexts]
      refine ⟨hwritable, fun entered => ?_, hdata, ?_, ?_, ?_⟩
      · rw [checkShown, checkShown, hdata, checkWritable, checkWritable, isWritable, isWritable,
          hwritable]
      · rw [displayText, displayText, htexts, htexts']
      · rw [data?, data?, htexts, htexts']
      · rw [stableChars, stableChars, stableItems_eq_map, stableItems_eq_map, hkeys]
  | mapping =>
    cases hv with
    | single h => cases h
  | @set vs us ws _ hlength _ _ hperm ih =>
    cases hv with
    | single h => cases h
    | set hvs =>
      have hus : ∀ u ∈ us, u.Whole := fun u hu =>
        Whole.hereditary.members hwhole' u (hperm.mem_iff.mp hu)
      have hparts : ∀ pair ∈ vs.zip us, ShownAlike pair.1 pair.2 := fun pair hpair =>
        have hmem := List.of_mem_zip hpair
        ih pair hpair (hvs _ hmem.1) (Whole.hereditary.members hwhole _ hmem.1) (hus _ hmem.2)
      have hwritable : areWritable vs = areWritable ws := by
        rw [areWritable_eq, areWritable_eq, ← (hperm.map isWritable).all_eq]
        exact congrArg (List.all · id) (map_eq_map_of_zip hlength fun _ hpair =>
          (hparts _ hpair).writable)
      have hshown (entered : Bool) : checkAllShown entered vs = checkAllShown entered ws := by
        rw [← checkAllShown_eq_of_perm hus hperm, checkAllShown_eq_forM, checkAllShown_eq_forM]
        exact congrArg (List.forM · id) (map_eq_map_of_zip hlength fun _ hpair =>
          (hparts _ hpair).shown entered)
      have hset : setDisplay (displayTexts vs) = setDisplay (displayTexts ws) := by
        have htexts := map_eq_map_of_zip hlength fun pair hpair => (hparts pair hpair).text
        rw [displayTexts_eq, displayTexts_eq, setDisplay, htexts,
          sortTexts_eq_of_perm (hperm.map displayText), ← setDisplay]
      refine ⟨hwritable, fun entered => ?_, fun entered within => ?_, ?_, ?_, ?_⟩
      · rw [checkShown, checkShown, hshown]
      · rw [hasData, hasData, hshown]
      · rw [displayText, displayText, hset]
      · rw [data?, data?, hset]
      · show (do return taggedChars .object (← (Value.set vs).display)) =
          (do return taggedChars .object (← (Value.set ws).display))
        rw [display, display, checkShown, checkShown, displayText, displayText, hshown, hset]

/-- The plain data of a whole value does not depend on what a cycle would stand for. -/
theorem Whole.plainWithin_ok (h : v.Whole) {whole' : Value} (hp : v.plainWithin whole = .ok p) :
    v.plainWithin whole' = .ok p := by
  induction h generalizing whole whole' p with
  | link path h _ =>
    rw [plainWithin, h.unroll_eq] at hp ⊢
    exact hp
  | list _ ih =>
    obtain ⟨ps, hps, rfl⟩ := plain_list_eq_ok.mp hp
    exact plain_list_eq_ok.mpr ⟨ps, forall₂_imp_of_mem hps fun v hv _ => ih v hv, rfl⟩
  | mapping _ ih =>
    obtain ⟨pairs, hpairs, rfl⟩ := plain_mapping_eq_ok.mp hp
    refine plain_mapping_eq_ok.mpr ⟨pairs, forall₂_imp_of_mem hpairs fun e he _ h => ?_, rfl⟩
    exact ⟨h.writable, h.text, ih e.2 (Entries.mem_parts he).2 h.plain⟩
  | set _ ih =>
    obtain ⟨pairs, hpairs, rfl⟩ := plain_set_eq_ok.mp hp
    refine plain_set_eq_ok.mpr ⟨pairs, forall₂_imp_of_mem hpairs fun v hv _ h => ?_, rfl⟩
    exact ⟨h.key, ih v hv h.plain⟩
  | _ => exact hp

/-- Elements under keys of their own are sorted in one way. -/
theorem sortKeyed_eq_of_perm {pairs pairs' : List (List Char × Value)}
    (hkeys : (pairs.map Prod.fst).Nodup) (hperm : pairs.Perm pairs') :
    sortKeyed pairs = sortKeyed pairs' := by
  have htexts : (pairs.map fun pair => String.ofList pair.1).Nodup := by
    have hinjective : Function.Injective String.ofList := fun _ _ h => String.ofList_inj.mp h
    have hmap := hkeys.map hinjective
    rwa [List.map_map] at hmap
  exact congrArg (List.map Prod.snd) (Sorting.mergeSort_eq_of_perm htexts hperm)

/-- A value and the same with sets in another order have the same plain data. -/
theorem Reenumerated.plainWithin_ok (h : Reenumerated v w) (hv : v.Whole) (hw : w.Whole)
    {whole' : Value} (hp : v.plainWithin whole = .ok p) : w.plainWithin whole' = .ok p := by
  induction h generalizing whole whole' p with
  | refl => exact hv.plainWithin_ok hp
  | list hlength _ ih =>
    have hvs := Whole.hereditary.items hv
    have hws := Whole.hereditary.items hw
    obtain ⟨ps, hps, rfl⟩ := plain_list_eq_ok.mp hp
    refine plain_list_eq_ok.mpr ⟨ps, forall₂_beside hps hlength fun pair hpair _ h => ?_, rfl⟩
    obtain ⟨hv, hw⟩ := List.of_mem_zip hpair
    exact ih pair hpair (hvs _ hv) (hws _ hw) h
  | mapping hlength hkeys _ ih =>
    cases hv with | mapping hes => ?_
    cases hw with | mapping hfs => ?_
    obtain ⟨pairs, hpairs, rfl⟩ := plain_mapping_eq_ok.mp hp
    refine plain_mapping_eq_ok.mpr
      ⟨pairs, forall₂_beside hpairs hlength fun pair hpair _ h => ?_, rfl⟩
    obtain ⟨he, hf⟩ := List.of_mem_zip hpair
    refine ⟨hkeys pair hpair ▸ h.writable, hkeys pair hpair ▸ h.text, ?_⟩
    exact ih pair hpair (hes _ (Entries.mem_parts he).2) (hfs _ (Entries.mem_parts hf).2) h.plain
  | set hnodup hlength hsame hmembers hperm ih =>
    have hvs := Whole.hereditary.members hv
    have hws := Whole.hereditary.members hw
    obtain ⟨pairs, hpairs, rfl⟩ := plain_set_eq_ok.mp hp
    have hus : List.Forall₂ (PlainMember whole') _ pairs :=
      forall₂_beside hpairs hlength fun pair hpair _ h => by
        obtain ⟨hv, hu⟩ := List.of_mem_zip hpair
        have hu := hws _ (hperm.mem_iff.mp hu)
        have hkey := (hsame pair hpair).elim
          (fun h => ((hmembers pair hpair).shownAlike h (hvs _ hv) hu).key) id
        exact ⟨hkey ▸ h.key, ih pair hpair (hvs _ hv) hu h.plain⟩
    obtain ⟨pairs', hpairs', hperm'⟩ := List.perm_comp_forall₂ hperm.symm hus
    have hdistinct : (pairs.map Prod.fst).Nodup := by
      rwa [← map_eq_map_of_forall₂ hpairs fun v pair h => keyChars_eq h.key]
    refine plain_set_eq_ok.mpr ⟨pairs', hpairs', ?_⟩
    rw [sortKeyed_eq_of_perm hdistinct hperm'.symm]

/-- What keeps a whole value from having plain data is an integer that is too long or an element of
a set without a structural key, and this does.  Plain data, where there is any, is made of null,
truth values, numbers, texts, lists and mappings under texts, stays as it is when it is made into
plain data again, has all of the structure of the value, and does not depend on the order in which
the elements of sets are given. -/
theorem Whole.plain_keeps (h : v.Whole) :
    (∀ f, v.plain = .error f → v.Hindered f) ∧ (∀ f, Unkeyed f v → ∃ g, v.plain = .error g) ∧
      ∀ p, v.plain = .ok p → p.IsPlain ∧ p.plain = .ok p ∧ Keeps v p ∧
        ∀ w, w.Whole → Reenumerated v w → w.plain = .ok p := by
  refine ⟨h.failsOnly_plainWithin .null, fun f hf => ?_, fun p hp => ?_⟩
  · cases hplain : v.plain with
    | ok p => exact absurd hplain hf.plainWithin_ne
    | error g => exact ⟨g, rfl⟩
  · obtain ⟨hform, hkeeps⟩ := h.plainWithin_keeps hp
    exact ⟨hform, hform.plainWithin_eq .null, hkeeps, fun w hw hvw => hvw.plainWithin_ok h hw hp⟩

/-- A mapping with a set of those elements. -/
def tagged (tags : List Value) : Value :=
  .object [(.int 1, .set tags), (.string "due", .list [.date ⟨2024, 2, 29, by decide⟩])]

theorem tagged_whole {tags : List Value} (h : ∀ v ∈ tags, v.Whole) : (tagged tags).Whole := by
  refine .mapping (Entries.forall_parts.mpr ?_)
  simp only [List.forall_mem_cons]
  exact ⟨⟨.number _, .set h⟩, ⟨.string _, .list (List.forall_mem_singleton.mpr (.date _))⟩,
    List.forall_mem_nil _⟩

theorem plain_tagged : (tagged [.string "a", .string "b"]).plain = .ok (.object
    [(.string "1", .list [.string "a", .string "b"]),
      (.string "due", .list [.string "2024-02-29"])]) := by
  have hset : (Value.set [.string "a", .string "b"]).plainWithin .null =
      .ok (.list [.string "a", .string "b"]) := by
    refine plain_set_eq_ok.mpr ⟨[(taggedChars .string "a", .string "a"),
      (taggedChars .string "b", .string "b")], .cons ⟨rfl, rfl⟩ (.cons ⟨rfl, rfl⟩ .nil), ?_⟩
    rw [sortKeyed, List.mergeSort_of_pairwise (List.pairwise_pair.mpr (by decide +kernel))]
    rfl
  exact plain_mapping_eq_ok.mpr
    ⟨[("1", .list [.string "a", .string "b"]), ("due", .list [.string "2024-02-29"])],
      .cons ⟨rfl, rfl, hset⟩ (.cons ⟨rfl, rfl, rfl⟩ .nil), rfl⟩

theorem plain_keeps_tagged : ∃ p, (tagged [.string "a", .string "b"]).plain = .ok p ∧
    p.IsPlain ∧ p.plain = .ok p ∧ Keeps (tagged [.string "a", .string "b"]) p ∧
      (tagged [.string "b", .string "a"]).plain = .ok p := by
  have hwhole (s t : String) : (tagged [.string s, .string t]).Whole :=
    tagged_whole (List.forall_mem_cons.mpr ⟨.string s, List.forall_mem_singleton.mpr (.string t)⟩)
  obtain ⟨-, -, hplain⟩ := (hwhole "a" "b").plain_keeps
  obtain ⟨hform, hsame, hkeeps, hall⟩ := hplain _ plain_tagged
  refine ⟨_, plain_tagged, hform, hsame, hkeeps, hall _ (hwhole "b" "a") ?_⟩
  have hset : Reenumerated (.set [.string "a", .string "b"]) (.set [.string "b", .string "a"]) := by
    have hperm : [Value.string "a", .string "b"].Perm [.string "b", .string "a"] := .swap _ _ _
    refine .set (by decide +kernel) rfl ?_ ?_ hperm
    · simp
    · simp only [List.zip_cons_cons, List.zip_nil_right, List.forall_mem_cons]
      exact ⟨.refl _, .refl _, List.forall_mem_nil _⟩
  refine .mapping rfl ?_ ?_
  · simp
  · simp only [List.zip_cons_cons, List.zip_nil_right, List.forall_mem_cons]
    exact ⟨hset, .refl _, List.forall_mem_nil _⟩

/-- The first day of the calendar has no structural key, so a set that holds it has no plain data,
while a list that holds it does. -/
theorem plain_firstDay :
    (Value.set [.date ⟨1, 1, 1, by decide⟩]).Whole ∧
      (Value.set [.date ⟨1, 1, 1, by decide⟩]).plain = .error (.yearOutOfRange 0) ∧
      (Value.list [.date ⟨1, 1, 1, by decide⟩]).plain = .ok (.list [.string "0001-01-01"]) :=
  ⟨.set (List.forall_mem_singleton.mpr (.date _)), rfl, rfl⟩

end Value

end NoteQuery
