/-
Structural keys are canonical.

Values with the same structure have the same structural key, and no others do
(`stableKey_eq_iff`).  A key is a flat text, so the one direction is that it can be read in one way
only: keys are texts of a language (`KeyText`) in which every text can be told from what follows it,
whether that is the end or one of the marks between and behind the parts of lists and mappings
(`KeyText.separate`).  By its head a key tells the kind of the value and whether it is a mapping;
what stands behind the head then tells the rest.
-/
import NoteQuery.Proofs.Displays
import NoteQuery.Proofs.Separation
import NoteQuery.Proofs.Sorting
import NoteQuery.Value.StableKey

namespace NoteQuery

theorem map_eq_map_iff_forall₂ {α β : Type} {f : α → β} {as bs : List α} :
    as.map f = bs.map f ↔ List.Forall₂ (fun a b => f a = f b) as bs := by
  rw [← List.forall₂_eq_eq_eq, List.forall₂_map_left_iff, List.forall₂_map_right_iff]

namespace Value

/-! ## Structure -/

/-- What tells a value from others of its kind: the normal path of a link or a file, and the display
form otherwise, if there is one.  Days, timestamps, durations, lists and mappings are told by their
parts. -/
def shown? : Value → Option String
  | link path _ => some (Path.normalize path)
  | file r => some (Path.normalize r.path)
  | date _ | timestamp _ | duration _ | list _ | mapping .. | cycle => none
  | v => v.display.toOption

/-- The texts of the keys of entries. -/
def keyTexts (entries : Entries) : List String :=
  entries.map fun e => e.1.keyText

/-- The values are structurally equal: points in time by their epoch milliseconds, durations by
their parts, lists item by item, mappings by the texts of their keys in any order, and values of
every other kind by what tells them from others of that kind. -/
inductive Alike : Value → Value → Prop
  | shown {v w : Value} {s : String} : v.kind = w.kind → v.shown? = some s → w.shown? = some s →
      Alike v w
  | moment {v w : Value} {t u : Timestamp} {millis : Int} : v.moment? = some t →
      w.moment? = some u → t.epochMillis = .ok millis → u.epochMillis = .ok millis → Alike v w
  | duration {d e : Duration} : d.parts.map (fun p => (p.amount.display, p.unit)) =
      e.parts.map (fun p => (p.amount.display, p.unit)) → Alike (.duration d) (.duration e)
  | list {vs ws : List Value} : vs.length = ws.length → (∀ p ∈ vs.zip ws, Alike p.1 p.2) →
      Alike (.list vs) (.list ws)
  | mapping {live live' : Bool} {es fs : Entries} :
      (∀ text, text ∈ keyTexts es ↔ text ∈ keyTexts fs) →
      (∀ e ∈ es, ∀ f ∈ fs, e.1.keyText = f.1.keyText → Alike e.2 f.2) →
      Alike (.mapping live es) (.mapping live' fs)

/-- The value has a structural key that does not depend on the order of entries: timestamps in it
have epoch milliseconds, integers that show in the key have no more digits than are written, and
keys of one mapping have texts of their own. -/
inductive Keyable : Value → Prop
  | shown {v : Value} {s : String} : v.shown? = some s → Keyable v
  | moment {v : Value} {t : Timestamp} {millis : Int} : v.moment? = some t →
      t.epochMillis = .ok millis → Keyable v
  | duration {d : Duration} : (Value.duration d).isWritable = true → Keyable (.duration d)
  | list {vs : List Value} : (∀ v ∈ vs, Keyable v) → Keyable (.list vs)
  | mapping {live : Bool} {es : Entries} : (∀ e ∈ es, e.1.isWritable = true) →
      (keyTexts es).Nodup → (∀ e ∈ es, Keyable e.2) → Keyable (.mapping live es)

/-! ## The language of keys -/

/-- What may stand behind a key within another. -/
def closers : List Char :=
  [',', ']', '\x7d']

/-- The characters that give keys their structure. -/
def marks : List Char :=
  closers ++ ['"', '[', '\x7b']

/-- An entry of a mapping as it stands in the key. -/
def entryText (e : String × List Char) : List Char :=
  quotedChars e.1 ++ ':' :: e.2

/-- The texts that can be keys. -/
inductive KeyText : List Char → Prop
  | plain {lead : List Char} : lead ≠ [] → Text.Unmarked marks lead → KeyText lead
  | quoted {lead : List Char} (s : String) : lead ≠ [] → Text.Unmarked marks lead →
      KeyText (lead ++ quotedChars s)
  | list {keys : List (List Char)} : (∀ k ∈ keys, KeyText k) →
      KeyText ('[' :: Text.joinChars [','] keys ++ [']'])
  | mapping {keyed : List (String × List Char)} : (∀ e ∈ keyed, KeyText e.2) →
      KeyText ('\x7b' :: Text.joinChars [','] (keyed.map entryText) ++ ['\x7d'])

theorem atMark_of_closers {cs : List Char} (h : Text.AtMark closers cs) : Text.AtMark marks cs :=
  fun c hc => List.mem_append_left _ (h c hc)

theorem atMark_quotedChars (t : String) (rest : List Char) :
    Text.AtMark marks (quotedChars t ++ rest) := by
  rw [quotedChars, Text.dataQuoted, String.toList_ofList]
  exact Text.atMark_cons (by decide) _

theorem not_atMark_quotedChars (t : String) (rest : List Char) :
    ¬ Text.AtMark closers (quotedChars t ++ rest) := by
  rw [quotedChars, Text.dataQuoted, String.toList_ofList]
  exact fun h => absurd (h '"' rfl) (by decide)

section Lead

variable {lead : List Char} (hne : lead ≠ []) (hlead : Text.Unmarked marks lead)
include hne hlead

theorem lead_ne_mark {c : Char} (hc : c ∈ marks) (rest after : List Char) :
    lead ++ rest ≠ c :: after := by
  cases lead with
  | nil => exact absurd rfl hne
  | cons d lead =>
    intro h
    obtain ⟨rfl, -⟩ := List.cons.inj h
    exact hlead d List.mem_cons_self hc

theorem not_atMark_lead (rest : List Char) : ¬ Text.AtMark closers (lead ++ rest) := by
  cases lead with
  | nil => exact absurd rfl hne
  | cons c lead => exact fun h => hlead c List.mem_cons_self (atMark_of_closers h c rfl)

end Lead

/-- Keys start with no mark that stands behind keys. -/
theorem KeyText.not_atMark {k : List Char} (h : KeyText k) : ¬ Text.AtMark closers k := by
  cases h with
  | plain hne hlead =>
    have hnot := not_atMark_lead hne hlead []
    rwa [List.append_nil] at hnot
  | quoted s hne hlead => exact not_atMark_lead hne hlead _
  | list _ => exact fun h => absurd (h '[' rfl) (by decide)
  | mapping _ => exact fun h => absurd (h '\x7b' rfl) (by decide)

/-! ## Entries -/

theorem entryText_inj {e f : String × List Char} {r s : List Char}
    (h : entryText e ++ r = entryText f ++ s) : e.1 = f.1 ∧ e.2 ++ r = f.2 ++ s := by
  rw [entryText, entryText, List.append_assoc, List.append_assoc] at h
  obtain ⟨hkey, hrest⟩ := Text.dataQuoted_inj h
  exact ⟨hkey, (List.cons.inj hrest).2⟩

theorem entryText_injective : Function.Injective entryText := by
  intro e f h
  obtain ⟨hkey, hvalue⟩ := entryText_inj (congrArg (· ++ []) h)
  exact Prod.ext hkey (List.append_cancel_right hvalue)

theorem not_atMark_entries (keyed : List (String × List Char)) :
    ∀ k ∈ keyed.map entryText, ¬ Text.AtMark closers k :=
  List.forall_mem_map.mpr fun e _ => not_atMark_quotedChars e.1 _

theorem entryText_separate {e f : String × List Char} (h : Text.Separate closers e.2 f.2) :
    Text.Separate closers (entryText e) (entryText f) := by
  intro r s hr hs heq
  obtain ⟨hkey, hrest⟩ := entryText_inj heq
  obtain ⟨hvalue, hrs⟩ := h r s hr hs hrest
  exact ⟨congrArg entryText (Prod.ext hkey hvalue), hrs⟩

/-! ## Reading keys -/

/-- Parts between brackets can be told from each other and from what follows. -/
theorem enclosed_inj {first last : Char} (hlast : last ∈ closers) (hne : ',' ≠ last)
    {ks ls : List (List Char)} (hks : ∀ k ∈ ks, ¬ Text.AtMark closers k)
    (hls : ∀ l ∈ ls, ¬ Text.AtMark closers l)
    (hcode : ∀ k ∈ ks, ∀ l ∈ ls, Text.Separate closers k l) {r s : List Char}
    (h : first :: Text.joinChars [','] ks ++ [last] ++ r =
      first :: Text.joinChars [','] ls ++ [last] ++ s) : ks = ls ∧ r = s := by
  simp only [List.cons_append, List.append_assoc, List.nil_append, List.cons.injEq,
    true_and] at h
  exact Text.joinChars_inj (by decide) hlast hne hks hls hcode h

/-- A key can be told from what follows it. -/
theorem KeyText.separate {k l : List Char} (hk : KeyText k) (hl : KeyText l) :
    Text.Separate closers k l := by
  induction hk generalizing l with
  | @plain lead hne hlead =>
    intro r s hr hs h
    have hr' := atMark_of_closers hr
    cases hl with
    | plain _ hlead' => exact Text.split_at_mark hlead hlead' hr' (atMark_of_closers hs) h
    | quoted t _ hlead' =>
      rw [List.append_assoc] at h
      obtain ⟨-, hquoted⟩ := Text.split_at_mark hlead hlead' hr' (atMark_quotedChars t s) h
      exact absurd (hquoted ▸ hr) (not_atMark_quotedChars t s)
    | list _ => exact absurd h (lead_ne_mark hne hlead (by decide) _ _)
    | mapping _ => exact absurd h (lead_ne_mark hne hlead (by decide) _ _)
  | @quoted lead t hne hlead =>
    intro r s hr hs h
    rw [List.append_assoc] at h
    cases hl with
    | plain _ hlead' =>
      obtain ⟨-, hquoted⟩ :=
        Text.split_at_mark hlead hlead' (atMark_quotedChars t r) (atMark_of_closers hs) h
      exact absurd (hquoted ▸ hs) (not_atMark_quotedChars t r)
    | quoted u _ hlead' =>
      rw [List.append_assoc] at h
      obtain ⟨rfl, hquoted⟩ :=
        Text.split_at_mark hlead hlead' (atMark_quotedChars t r) (atMark_quotedChars u s) h
      obtain ⟨rfl, hrs⟩ := Text.dataQuoted_inj hquoted
      exact ⟨rfl, hrs⟩
    | list _ => exact absurd h (lead_ne_mark hne hlead (by decide) _ _)
    | mapping _ => exact absurd h (lead_ne_mark hne hlead (by decide) _ _)
  | @list keys hkeys ih =>
    intro r s hr hs h
    cases hl with
    | plain hne hlead => exact absurd h.symm (lead_ne_mark hne hlead (c := '[') (by decide) _ _)
    | quoted t hne hlead =>
      have hlead' := (List.append_assoc _ _ _).symm.trans h.symm
      exact absurd hlead' (lead_ne_mark hne hlead (c := '[') (by decide) _ _)
    | @list keys' hkeys' =>
      obtain ⟨rfl, hrs⟩ := enclosed_inj (by decide) (by decide)
        (fun k hk => (hkeys k hk).not_atMark) (fun l hl => (hkeys' l hl).not_atMark)
        (fun k hk l hl => ih k hk (hkeys' l hl)) h
      exact ⟨rfl, hrs⟩
    | mapping _ =>
      have hopener : '[' = '\x7b' := (List.cons.inj h).1
      exact absurd hopener (by decide)
  | @mapping keyed hkeyed ih =>
    intro r s hr hs h
    cases hl with
    | plain hne hlead => exact absurd h.symm (lead_ne_mark hne hlead (c := '\x7b') (by decide) _ _)
    | quoted t hne hlead =>
      have hlead' := (List.append_assoc _ _ _).symm.trans h.symm
      exact absurd hlead' (lead_ne_mark hne hlead (c := '\x7b') (by decide) _ _)
    | list _ =>
      have hopener : '\x7b' = '[' := (List.cons.inj h).1
      exact absurd hopener (by decide)
    | @mapping keyed' hkeyed' =>
      have hcode : ∀ k ∈ keyed.map entryText, ∀ l ∈ keyed'.map entryText,
          Text.Separate closers k l := by
        intro k hk l hl
        obtain ⟨e, he, rfl⟩ := List.mem_map.mp hk
        obtain ⟨f, hf, rfl⟩ := List.mem_map.mp hl
        exact entryText_separate (ih e he (hkeyed' f hf))
      obtain ⟨hentries, hrs⟩ := enclosed_inj (by decide) (by decide) (not_atMark_entries keyed)
        (not_atMark_entries keyed') hcode h
      exact ⟨by rw [hentries], hrs⟩

/-! ## Keys of values -/

/-- The key of a value that has one. -/
def keyChars (v : Value) : List Char :=
  match v.stableChars with
  | .ok k => k
  | .error _ => []

/-- An entry with the text of its key and the key of its value. -/
def keyedEntry (e : Value × Value) : String × List Char :=
  (e.1.keyText, e.2.keyChars)

theorem keyTexts_eq (es : Entries) : keyTexts es = (es.map keyedEntry).map Prod.fst := by
  rw [keyTexts, List.map_map]
  rfl

theorem sortByText_perm (keyed : List (String × List Char)) : (sortByText keyed).Perm keyed :=
  List.mergeSort_perm keyed _

theorem keyChars_eq {v : Value} {k : List Char} (h : v.stableChars = .ok k) : v.keyChars = k := by
  rw [keyChars, h]

theorem stableItems_eq {vs : List Value} (h : ∀ v ∈ vs, v.stableChars = .ok v.keyChars) :
    stableItems vs = .ok (vs.map keyChars) := by
  induction vs with
  | nil => rfl
  | cons v vs ih =>
    obtain ⟨hv, hvs⟩ := List.forall_mem_cons.mp h
    rw [stableItems, hv, ih hvs]
    rfl

theorem stableEntries_eq (es : Entries) :
    stableEntries es = es.map fun e => (e.1.keyText, e.2.stableChars) := by
  induction es with
  | nil => rfl
  | cons e es ih => rw [stableEntries, ih, List.map_cons]

/-- An entry whose value has that key. -/
def keyFound (e : String × List Char) : String × Except Fault (List Char) :=
  (e.1, .ok e.2)

/-- Where all values have keys, so has the mapping. -/
theorem mappingKey_eq (keyed : List (String × List Char)) :
    mappingKey (keyed.map keyFound) =
      .ok ('\x7b' :: Text.joinChars [','] ((sortByText keyed).map entryText) ++ ['\x7d']) := by
  have hsorted : sortByText (keyed.map keyFound) = (sortByText keyed).map keyFound := by
    rw [sortByText, sortByText]
    refine (List.map_mergeSort ?_).symm
    exact fun _ _ _ _ => rfl
  have htexts : ((sortByText keyed).map keyFound).mapM entryChars =
      .ok ((sortByText keyed).map entryText) := by
    rw [mapM_eq_ok, List.forall₂_map_left_iff, List.forall₂_map_right_iff, List.forall₂_same]
    exact fun _ _ => rfl
  rw [mappingKey, hsorted, htexts]
  rfl

/-- The kind of a value, but none for a mapping. -/
def shape : Value → Option Kind
  | mapping .. => none
  | v => some v.kind

/-- How the keys of values of a shape begin. -/
def head : Option Kind → List Char
  | none => ['\x7b']
  | some .null => "null".toList
  | some .list => ['[']
  | some k => k.name.toList ++ [':']

theorem stableChars_of_shown {v : Value} {s : String} (hs : v.shown? = some s) (hne : v ≠ .null) :
    v.stableChars = .ok (head v.shape ++ quotedChars s) := by
  cases v with
  | null => exact absurd rfl hne
  | date | timestamp | duration | list | mapping | cycle => cases hs
  | link path shown =>
    cases hs
    have hhead : "link:".toList = head (some .link) := by decide
    simp only [stableChars, hhead]
    rfl
  | file r =>
    cases hs
    have hhead : "file:".toList = head (some .file) := by decide
    simp only [stableChars, hhead]
    rfl
  | _ =>
    simp only [shown?, toOption_eq_some] at hs
    simp only [stableChars, hs]
    exact congrArg Except.ok (List.append_cons _ _ _)

theorem stableChars_of_moment {v : Value} {t : Timestamp} {millis : Int}
    (ht : v.moment? = some t) (hmillis : t.epochMillis = .ok millis) :
    v.stableChars = .ok (head (some .date) ++ Number.integerText millis) := by
  have hkey : momentKey t = .ok (head (some .date) ++ Number.integerText millis) := by
    rw [momentKey, hmillis]
    rfl
  cases v with
  | date | timestamp =>
    cases ht
    exact hkey
  | _ => cases ht

/-- The texts of the parts of a duration. -/
def partTexts (d : Duration) : List (List Char) :=
  d.parts.map fun p => (Duration.partText p).toList

theorem stableChars_duration {d : Duration} (h : (duration d).isWritable = true) :
    (duration d).stableChars =
      .ok (head (some .duration) ++ Text.joinChars ['|'] (partTexts d)) := by
  rw [stableChars, durationKey, checkWritable_eq_ok.mpr h]
  rfl

theorem stableChars_list {vs : List Value} (h : ∀ v ∈ vs, v.stableChars = .ok v.keyChars) :
    (list vs).stableChars = .ok ('[' :: Text.joinChars [','] (vs.map keyChars) ++ [']']) := by
  rw [stableChars, stableItems_eq h]
  rfl

theorem stableChars_mapping {live : Bool} {es : Entries} (hkeys : ∀ e ∈ es, e.1.isWritable = true)
    (h : ∀ e ∈ es, e.2.stableChars = .ok e.2.keyChars) : (mapping live es).stableChars =
      .ok ('\x7b' :: Text.joinChars [','] ((sortByText (es.map keyedEntry)).map entryText) ++
        ['\x7d']) := by
  have hwritable : (es.forM fun e => e.1.checkWritable) = .ok ⟨⟩ :=
    forM_eq_ok.mpr fun e he => checkWritable_eq_ok.mpr (hkeys e he)
  have hentries : stableEntries es = (es.map keyedEntry).map keyFound := by
    rw [stableEntries_eq, List.map_map]
    exact List.map_congr_left fun e he => Prod.ext rfl (h e he)
  rw [stableChars, hwritable, hentries]
  exact mappingKey_eq _

/-! ## Shapes -/

theorem unmarked_head {k : Kind} (hne : k ≠ .list) : Text.Unmarked marks (head (some k)) := by
  cases k with
  | list => exact absurd rfl hne
  | _ => decide

theorem head_ne_nil (x : Option Kind) : head x ≠ [] := by
  rcases x with _ | k
  · decide
  · cases k <;> decide

/-- No head is the beginning of another. -/
theorem head_injective {x y : Option Kind} (h : head x <+: head y) : x = y := by
  revert h
  rcases x with _ | x
  · rcases y with _ | y
    · decide
    · cases y <;> decide
  · rcases y with _ | y
    · cases x <;> decide
    · cases x <;> cases y <;> decide

theorem eq_null_iff {v : Value} : v = .null ↔ v.kind = .null := by
  cases v with
  | null => exact ⟨fun _ => rfl, fun _ => rfl⟩
  | _ => exact ⟨nofun, nofun⟩

theorem shown_shape {v : Value} {s : String} (hs : v.shown? = some s) :
    v.shape = some v.kind ∧ v.kind ≠ .date ∧ v.kind ≠ .duration ∧ v.kind ≠ .list := by
  cases v with
  | date | timestamp | duration | list | mapping | cycle => cases hs
  | _ => exact ⟨rfl, nofun, nofun, nofun⟩

theorem kind_of_shape {v w : Value} (h : v.shape = w.shape) : v.kind = w.kind := by
  cases v with
  | mapping =>
    cases w with
    | mapping => rfl
    | _ => cases h
  | _ =>
    cases w with
    | mapping => cases h
    | _ => exact Option.some.inj h

theorem moment_shape {v : Value} {t : Timestamp} (ht : v.moment? = some t) :
    v.shape = some .date := by
  cases v with
  | date | timestamp => rfl
  | _ => cases ht

theorem unmarked_partTexts (d : Duration) :
    ∀ text ∈ partTexts d, Text.Unmarked ('|' :: marks) text :=
  List.forall_mem_map.mpr fun p _ =>
    Text.unmarked_of_plain (Duration.partText_plain p) (by decide)

/-- The value has a key, which begins with the head of its shape. -/
structure HasKey (v : Value) : Prop where
  chars : v.stableChars = .ok v.keyChars
  text : KeyText v.keyChars
  begins : head v.shape <+: v.keyChars

theorem hasKey_of {v : Value} {k : List Char} (hk : v.stableChars = .ok k) (htext : KeyText k)
    (hbegins : head v.shape <+: k) : HasKey v := by
  obtain rfl := keyChars_eq hk
  exact ⟨hk, htext, hbegins⟩

theorem hasKey_of_shown {v : Value} {s : String} (hs : v.shown? = some s) : HasKey v := by
  by_cases hnull : v = .null
  · subst hnull
    exact hasKey_of rfl (.plain (by decide) (by decide)) List.prefix_rfl
  · obtain ⟨hshape, -, -, hlist⟩ := shown_shape hs
    refine hasKey_of (stableChars_of_shown hs hnull) (.quoted s (head_ne_nil _) ?_) ⟨_, rfl⟩
    rw [hshape]
    exact unmarked_head hlist

theorem hasKey_of_moment {v : Value} {t : Timestamp} {millis : Int} (ht : v.moment? = some t)
    (hmillis : t.epochMillis = .ok millis) : HasKey v := by
  refine hasKey_of (stableChars_of_moment ht hmillis) (.plain ?_ ?_) ?_
  · exact List.append_ne_nil_of_left_ne_nil (head_ne_nil _) _
  · exact List.forall_mem_append.mpr
      ⟨unmarked_head (by decide), Text.unmarked_of_plain (IsNumeral.integerText _).plain rfl⟩
  · rw [moment_shape ht]
    exact ⟨_, rfl⟩

theorem hasKey_duration {d : Duration} (h : (duration d).isWritable = true) :
    HasKey (.duration d) := by
  refine hasKey_of (stableChars_duration h) (.plain ?_ ?_) ⟨_, rfl⟩
  · exact List.append_ne_nil_of_left_ne_nil (head_ne_nil _) _
  · have hparts : ∀ text ∈ partTexts d, Text.Unmarked marks text :=
      fun text htext c hc hmark =>
        unmarked_partTexts d text htext c hc (List.mem_cons_of_mem _ hmark)
    exact List.forall_mem_append.mpr
      ⟨unmarked_head (by decide), Text.unmarked_joinChars (by decide) hparts⟩

theorem hasKey_list {vs : List Value} (h : ∀ v ∈ vs, HasKey v) : HasKey (.list vs) := by
  refine hasKey_of (stableChars_list fun v hv => (h v hv).chars) (.list ?_) ⟨_, rfl⟩
  exact List.forall_mem_map.mpr fun v hv => (h v hv).text

/-- Keys of entries need not differ for a mapping to have a key. -/
theorem hasKey_mapping {live : Bool} {es : Entries} (hkeys : ∀ e ∈ es, e.1.isWritable = true)
    (h : ∀ e ∈ es, HasKey e.2) : HasKey (.mapping live es) := by
  refine hasKey_of (stableChars_mapping hkeys fun e he => (h e he).chars) (.mapping ?_) ⟨_, rfl⟩
  intro k hk
  obtain ⟨e, he, rfl⟩ := List.mem_map.mp ((sortByText_perm _).mem_iff.mp hk)
  exact (h e he).text

theorem stableItems_eq_mapM (vs : List Value) : stableItems vs = vs.mapM stableChars := by
  induction vs with
  | nil => rfl
  | cons v vs ih => rw [stableItems, ih, List.mapM_cons]

/-- Where a list has a key, so have its items. -/
theorem exists_stableChars_items {vs : List Value} {k : List Char}
    (h : (list vs).stableChars = .ok k) : ∀ v ∈ vs, ∃ k, v.stableChars = .ok k := by
  rw [stableChars] at h
  obtain ⟨keys, hkeys, -⟩ := bind_eq_ok.mp h
  rw [stableItems_eq_mapM] at hkeys
  exact exists_mapM_eq_ok.mp ⟨keys, hkeys⟩

/-- Where a mapping has a key, so have its values, and its own keys can be written. -/
theorem exists_stableChars_entries {live : Bool} {es : Entries} {k : List Char}
    (h : (mapping live es).stableChars = .ok k) :
    (∀ e ∈ es, e.1.isWritable = true) ∧ ∀ e ∈ es, ∃ k, e.2.stableChars = .ok k := by
  rw [stableChars] at h
  obtain ⟨_, hwritable, h⟩ := bind_eq_ok.mp h
  obtain ⟨texts, htexts, -⟩ := bind_eq_ok.mp h
  refine ⟨fun e he => checkWritable_eq_ok.mp (forM_eq_ok.mp hwritable e he), fun e he => ?_⟩
  have hmem : (e.1.keyText, e.2.stableChars) ∈ sortByText (stableEntries es) := by
    rw [sortByText, List.mem_mergeSort, stableEntries_eq]
    exact List.mem_map_of_mem he
  obtain ⟨_, htext⟩ := exists_mapM_eq_ok.mp ⟨texts, htexts⟩ _ hmem
  obtain ⟨key, hkey, -⟩ := bind_eq_ok.mp htext
  exact ⟨key, hkey⟩

/-- What has characters for a key has a key in the language of keys. -/
theorem hasKey_of_stableChars : ∀ (v : Value) {k : List Char}, v.stableChars = .ok k → HasKey v
  | date d, k, h => by
    obtain ⟨millis, hmillis, -⟩ := bind_eq_ok.mp h
    exact hasKey_of_moment rfl hmillis
  | timestamp t, k, h => by
    obtain ⟨millis, hmillis, -⟩ := bind_eq_ok.mp h
    exact hasKey_of_moment rfl hmillis
  | duration d, k, h => by
    rw [stableChars, durationKey] at h
    obtain ⟨_, hwritable, -⟩ := bind_eq_ok.mp h
    exact hasKey_duration (checkWritable_eq_ok.mp hwritable)
  | list vs, k, h => hasKey_list fun v hv => by
    obtain ⟨key, hkey⟩ := exists_stableChars_items h v hv
    have hlt := List.sizeOf_lt_of_mem hv
    exact hasKey_of_stableChars v hkey
  | mapping live es, k, h => hasKey_mapping (exists_stableChars_entries h).1 fun e he => by
    obtain ⟨key, hkey⟩ := (exists_stableChars_entries h).2 e he
    have hlt := List.sizeOf_lt_of_mem he
    exact hasKey_of_stableChars e.2 hkey
  | number n, k, h => by
    obtain ⟨text, htext, -⟩ := bind_eq_ok.mp h
    exact hasKey_of_shown (toOption_eq_some.mpr htext)
  | set items, k, h => by
    obtain ⟨text, htext, -⟩ := bind_eq_ok.mp h
    exact hasKey_of_shown (toOption_eq_some.mpr htext)
  | null, _, _ => hasKey_of_shown rfl
  | bool _, _, _ => hasKey_of_shown rfl
  | string _, _, _ => hasKey_of_shown rfl
  | link .., _, _ => hasKey_of_shown rfl
  | file _, _, _ => hasKey_of_shown rfl
  | pattern _, _, _ => hasKey_of_shown rfl
  | html _, _, _ => hasKey_of_shown rfl
  | image _, _, _ => hasKey_of_shown rfl
  | icon _, _, _ => hasKey_of_shown rfl
  | bytes _, _, _ => hasKey_of_shown rfl
  | cycle, _, h => nomatch h
termination_by v => sizeOf v
decreasing_by
  · rw [list.sizeOf_spec]
    omega
  · have hpair : sizeOf e = 1 + sizeOf e.1 + sizeOf e.2 := Prod.mk.sizeOf_spec e.1 e.2
    rw [mapping.sizeOf_spec]
    omega

theorem HasKey.items {vs : List Value} (h : HasKey (.list vs)) : ∀ v ∈ vs, HasKey v := by
  intro v hv
  obtain ⟨k, hk⟩ := exists_stableChars_items h.chars v hv
  exact hasKey_of_stableChars v hk

theorem HasKey.amounts {d : Duration} (h : HasKey (.duration d)) :
    (duration d).isWritable = true := by
  have hchars := h.chars
  rw [stableChars, durationKey] at hchars
  obtain ⟨_, hwritable, -⟩ := bind_eq_ok.mp hchars
  exact checkWritable_eq_ok.mp hwritable

theorem HasKey.shown_number {n : Number} (h : HasKey (.number n)) :
    (number n).shown? = some n.display := by
  obtain ⟨text, htext, -⟩ := bind_eq_ok.mp h.chars
  obtain ⟨-, rfl⟩ := display_eq_ok.mp htext
  exact toOption_eq_some.mpr htext

/-- Every value that can have a key has one. -/
theorem Keyable.hasKey {v : Value} (h : Keyable v) : HasKey v := by
  induction h with
  | shown hs => exact hasKey_of_shown hs
  | moment ht hmillis => exact hasKey_of_moment ht hmillis
  | duration hd => exact hasKey_duration hd
  | list _ ih => exact hasKey_list ih
  | mapping hkeys _ _ ih => exact hasKey_mapping hkeys ih

theorem HasKey.stableKey_eq {v : Value} (h : HasKey v) :
    v.stableKey = .ok (String.ofList v.keyChars) := by
  rw [stableKey, h.chars]
  rfl

/-- By its head a key tells the shape of the value. -/
theorem shape_eq {v w : Value} (hv : HasKey v) (hw : HasKey w) (h : v.keyChars = w.keyChars) :
    v.shape = w.shape := by
  rcases List.prefix_or_prefix_of_prefix hv.begins (h ▸ hw.begins) with hle | hle
  · exact head_injective hle
  · exact (head_injective hle).symm

/-! ## From keys to structure -/

theorem shown_of_keyChars {v w : Value} {s t : String} (hs : v.shown? = some s)
    (ht : w.shown? = some t) (hshape : v.shape = w.shape) (h : v.keyChars = w.keyChars) :
    v.kind = w.kind ∧ w.shown? = some s := by
  obtain ⟨hv, -⟩ := shown_shape hs
  obtain ⟨hw, -⟩ := shown_shape ht
  have hkind : v.kind = w.kind := Option.some.inj (hv.symm.trans (hshape.trans hw))
  refine ⟨hkind, ?_⟩
  by_cases hv : v = .null
  · obtain rfl := hv
    obtain rfl := eq_null_iff.mpr hkind.symm
    exact hs
  · have hw : w ≠ .null := by rwa [Ne, eq_null_iff, ← hkind, ← eq_null_iff]
    rw [keyChars_eq (stableChars_of_shown hs hv), keyChars_eq (stableChars_of_shown ht hw),
      hshape] at h
    have hquoted := congrArg (· ++ []) (List.append_cancel_left h)
    obtain ⟨rfl, -⟩ := Text.dataQuoted_inj hquoted
    exact ht

theorem alike_of_shown {v w : Value} {s t : String} (hs : v.shown? = some s)
    (ht : w.shown? = some t) (hshape : v.shape = w.shape) (h : v.keyChars = w.keyChars) :
    Alike v w :=
  have hsame := shown_of_keyChars hs ht hshape h
  .shown hsame.1 hs hsame.2

theorem separate_of_unmarked {k l : List Char} (hk : Text.Unmarked ('|' :: marks) k)
    (hl : Text.Unmarked ('|' :: marks) l) : Text.Separate ('|' :: marks) k l :=
  fun _ _ hr hs h => Text.split_at_mark hk hl hr hs h

theorem parts_of_keyChars {d e : Duration} (hd : (duration d).isWritable = true)
    (he : (duration e).isWritable = true) (h : (duration d).keyChars = (duration e).keyChars) :
    List.Forall₂ (fun p q => p.amount.display = q.amount.display ∧ p.unit = q.unit)
      d.parts e.parts := by
  rw [keyChars_eq (stableChars_duration hd), keyChars_eq (stableChars_duration he)] at h
  have hstart (d : Duration) : ∀ text ∈ partTexts d, ¬ Text.AtMark ('|' :: marks) text := by
    intro text htext hmark
    obtain ⟨p, -, hp⟩ := List.mem_map.mp htext
    cases text with
    | nil => exact Duration.partText_ne_nil p hp
    | cons c text => exact unmarked_partTexts d _ htext c List.mem_cons_self (hmark c rfl)
  have hjoined := congrArg (· ++ [',']) (List.append_cancel_left h)
  obtain ⟨htexts, -⟩ := Text.joinChars_inj (by decide) (by decide) (by decide) (hstart d)
    (hstart e) (fun k hk l hl =>
      separate_of_unmarked (unmarked_partTexts d k hk) (unmarked_partTexts e l hl)) hjoined
  rw [partTexts, partTexts, map_eq_map_iff_forall₂] at htexts
  exact htexts.imp fun p q hpq => Duration.partText_inj (String.toList_injective hpq)

theorem alike_of_durations {d e : Duration} (hd : (duration d).isWritable = true)
    (he : (duration e).isWritable = true) (h : (duration d).keyChars = (duration e).keyChars) :
    Alike (.duration d) (.duration e) :=
  .duration (map_eq_map_iff_forall₂.mpr
    ((parts_of_keyChars hd he h).imp fun _ _ hpq => Prod.ext hpq.1 hpq.2))

theorem millis_of_keyChars {v w : Value} {t u : Timestamp} {m n : Int} (ht : v.moment? = some t)
    (hm : t.epochMillis = .ok m) (hu : w.moment? = some u) (hn : u.epochMillis = .ok n)
    (h : v.keyChars = w.keyChars) : m = n := by
  rw [keyChars_eq (stableChars_of_moment ht hm), keyChars_eq (stableChars_of_moment hu hn)] at h
  exact Number.integerText_inj (List.append_cancel_left h)

theorem items_of_keyChars {vs ws : List Value} (hvs : ∀ v ∈ vs, HasKey v)
    (hws : ∀ w ∈ ws, HasKey w) (h : (list vs).keyChars = (list ws).keyChars) :
    List.Forall₂ (fun v w => v.keyChars = w.keyChars) vs ws := by
  rw [keyChars_eq (stableChars_list fun v hv => (hvs v hv).chars),
    keyChars_eq (stableChars_list fun w hw => (hws w hw).chars)] at h
  have htexts {vs : List Value} (hvs : ∀ v ∈ vs, HasKey v) : ∀ k ∈ vs.map keyChars, KeyText k :=
    List.forall_mem_map.mpr fun v hv => (hvs v hv).text
  obtain ⟨hkeys, -⟩ := enclosed_inj (by decide) (by decide)
    (fun k hk => (htexts hvs k hk).not_atMark) (fun l hl => (htexts hws l hl).not_atMark)
    (fun k hk l hl => (htexts hvs k hk).separate (htexts hws l hl)) (congrArg (· ++ []) h)
  exact map_eq_map_iff_forall₂.mp hkeys

theorem alike_of_lists {vs ws : List Value} (hvs : ∀ v ∈ vs, HasKey v) (hws : ∀ w ∈ ws, HasKey w)
    (ih : ∀ v ∈ vs, ∀ w ∈ ws, v.keyChars = w.keyChars → Alike v w)
    (h : (list vs).keyChars = (list ws).keyChars) : Alike (.list vs) (.list ws) := by
  obtain ⟨hlength, hpairs⟩ := List.forall₂_iff_zip.mp (items_of_keyChars hvs hws h)
  refine .list hlength fun p hp => ?_
  obtain ⟨hv, hw⟩ := List.of_mem_zip hp
  exact ih p.1 hv p.2 hw (hpairs hp)

theorem alike_of_mappings {live live' : Bool} {es fs : Entries}
    (heskeys : ∀ e ∈ es, e.1.isWritable = true) (hfskeys : ∀ f ∈ fs, f.1.isWritable = true)
    (hes : ∀ e ∈ es, HasKey e.2) (hfs : ∀ f ∈ fs, HasKey f.2) (hdistinct : (keyTexts fs).Nodup)
    (ih : ∀ e ∈ es, ∀ f ∈ fs, e.2.keyChars = f.2.keyChars → Alike e.2 f.2)
    (h : (mapping live es).keyChars = (mapping live' fs).keyChars) :
    Alike (.mapping live es) (.mapping live' fs) := by
  rw [keyChars_eq (stableChars_mapping heskeys fun e he => (hes e he).chars),
    keyChars_eq (stableChars_mapping hfskeys fun f hf => (hfs f hf).chars)] at h
  have htexts {es : Entries} (hes : ∀ e ∈ es, HasKey e.2) :
      ∀ k ∈ sortByText (es.map keyedEntry), KeyText k.2 := by
    intro k hk
    obtain ⟨e, he, rfl⟩ := List.mem_map.mp ((sortByText_perm _).mem_iff.mp hk)
    exact (hes e he).text
  have hcode : ∀ k ∈ (sortByText (es.map keyedEntry)).map entryText,
      ∀ l ∈ (sortByText (fs.map keyedEntry)).map entryText, Text.Separate closers k l := by
    intro k hk l hl
    obtain ⟨e, he, rfl⟩ := List.mem_map.mp hk
    obtain ⟨f, hf, rfl⟩ := List.mem_map.mp hl
    exact entryText_separate ((htexts hes e he).separate (htexts hfs f hf))
  obtain ⟨hsorted, -⟩ := enclosed_inj (by decide) (by decide) (not_atMark_entries _)
    (not_atMark_entries _) hcode (congrArg (· ++ []) h)
  have hsame : sortByText (es.map keyedEntry) = sortByText (fs.map keyedEntry) :=
    List.map_injective_iff.mpr entryText_injective hsorted
  have hperm : (es.map keyedEntry).Perm (fs.map keyedEntry) := by
    have hes := (sortByText_perm (es.map keyedEntry)).symm
    rw [hsame] at hes
    exact hes.trans (sortByText_perm _)
  rw [keyTexts_eq] at hdistinct
  refine .mapping (fun text => ?_) fun e he f hf htext => ih e he f hf ?_
  · rw [keyTexts_eq, keyTexts_eq]
    exact (hperm.map Prod.fst).mem_iff
  · have he : keyedEntry e ∈ fs.map keyedEntry := hperm.mem_iff.mp (List.mem_map_of_mem he)
    exact (Prod.mk.inj (List.inj_on_of_nodup_map hdistinct he (List.mem_map_of_mem hf) htext)).2

/-- Values with the same key are structurally equal. -/
theorem alike_of_keyChars {v w : Value} (hv : Keyable v) (hw : Keyable w)
    (h : v.keyChars = w.keyChars) : Alike v w := by
  induction hv generalizing w with
  | @shown v s hs =>
    have hshape := shape_eq (Keyable.shown hs).hasKey hw.hasKey h
    obtain ⟨hv, hdate, hduration, hlist⟩ := shown_shape hs
    cases hw with
    | shown ht => exact alike_of_shown hs ht hshape h
    | moment ht _ =>
      exact absurd (Option.some.inj (hv.symm.trans (hshape.trans (moment_shape ht)))) hdate
    | duration => exact absurd (Option.some.inj (hv.symm.trans hshape)) hduration
    | list _ => exact absurd (Option.some.inj (hv.symm.trans hshape)) hlist
    | mapping => cases hv.symm.trans hshape
  | @moment v t millis ht hmillis =>
    have hshape := shape_eq (Keyable.moment ht hmillis).hasKey hw.hasKey h
    rw [moment_shape ht] at hshape
    cases hw with
    | shown hs =>
      obtain ⟨hw, hdate, -⟩ := shown_shape hs
      exact absurd (Option.some.inj (hshape.trans hw)).symm hdate
    | moment hu hmillis' =>
      obtain rfl := millis_of_keyChars ht hmillis hu hmillis' h
      exact .moment ht hu hmillis hmillis'
    | duration | list | mapping => cases hshape
  | duration hd =>
    have hshape := shape_eq (Keyable.duration hd).hasKey hw.hasKey h
    cases hw with
    | shown hs =>
      obtain ⟨hw, -, hduration, -⟩ := shown_shape hs
      exact absurd (Option.some.inj (hshape.trans hw)).symm hduration
    | moment hu _ => cases hshape.trans (moment_shape hu)
    | duration he => exact alike_of_durations hd he h
    | list | mapping => cases hshape
  | @list vs hvs ih =>
    have hshape := shape_eq (Keyable.list hvs).hasKey hw.hasKey h
    cases hw with
    | shown hs =>
      obtain ⟨hw, -, -, hlist⟩ := shown_shape hs
      exact absurd (Option.some.inj (hshape.trans hw)).symm hlist
    | moment hu _ => cases hshape.trans (moment_shape hu)
    | list hws =>
      exact alike_of_lists (fun v hv => (hvs v hv).hasKey) (fun w hw => (hws w hw).hasKey)
        (fun v hv w hw => ih v hv (hws w hw)) h
    | duration | mapping => cases hshape
  | @mapping live es hkeys hdistinct hes ih =>
    have hshape := shape_eq (Keyable.mapping hkeys hdistinct hes).hasKey hw.hasKey h
    cases hw with
    | shown hs => cases hshape.trans (shown_shape hs).1
    | moment hu _ => cases hshape.trans (moment_shape hu)
    | mapping hkeys' hdistinct' hfs =>
      exact alike_of_mappings hkeys hkeys' (fun e he => (hes e he).hasKey)
        (fun f hf => (hfs f hf).hasKey) hdistinct' (fun e he f hf => ih e he (hfs f hf)) h
    | duration | list => cases hshape

/-! ## From structure to keys -/

theorem keyChars_of_shown {v w : Value} {s : String} (hkind : v.kind = w.kind)
    (hs : v.shown? = some s) (ht : w.shown? = some s) : v.keyChars = w.keyChars := by
  by_cases hv : v = .null
  · obtain rfl := hv
    obtain rfl := eq_null_iff.mpr hkind.symm
    rfl
  · have hw : w ≠ .null := by rwa [Ne, eq_null_iff, ← hkind, ← eq_null_iff]
    rw [keyChars_eq (stableChars_of_shown hs hv), keyChars_eq (stableChars_of_shown ht hw),
      (shown_shape hs).1, (shown_shape ht).1, hkind]

theorem partTexts_eq {d e : Duration} (h : d.parts.map (fun p => (p.amount.display, p.unit)) =
    e.parts.map (fun p => (p.amount.display, p.unit))) : partTexts d = partTexts e := by
  rw [map_eq_map_iff_forall₂] at h
  refine map_eq_map_iff_forall₂.mpr (h.imp fun p q hpq => ?_)
  obtain ⟨hamount, hunit⟩ := Prod.mk.inj hpq
  rw [Duration.partText, Duration.partText, hamount, hunit]

/-- The order of entries does not show in the key. -/
theorem sortByText_eq {es fs : Entries} (hes : (keyTexts es).Nodup) (hfs : (keyTexts fs).Nodup)
    (htexts : ∀ text, text ∈ keyTexts es ↔ text ∈ keyTexts fs)
    (hvalues : ∀ e ∈ es, ∀ f ∈ fs, e.1.keyText = f.1.keyText → e.2.keyChars = f.2.keyChars) :
    sortByText (es.map keyedEntry) = sortByText (fs.map keyedEntry) := by
  have hsub {es fs : Entries} (htexts : ∀ text ∈ keyTexts es, text ∈ keyTexts fs)
      (hvalues : ∀ e ∈ es, ∀ f ∈ fs, e.1.keyText = f.1.keyText → e.2.keyChars = f.2.keyChars) :
      es.map keyedEntry ⊆ fs.map keyedEntry := by
    intro k hk
    obtain ⟨e, he, rfl⟩ := List.mem_map.mp hk
    obtain ⟨f, hf, hfe⟩ := List.mem_map.mp (htexts e.1.keyText (List.mem_map.mpr ⟨e, he, rfl⟩))
    exact List.mem_map.mpr ⟨f, hf, Prod.ext hfe (hvalues e he f hf hfe.symm).symm⟩
  rw [keyTexts_eq] at hes hfs
  have hperm : (es.map keyedEntry).Perm (fs.map keyedEntry) :=
    (List.perm_ext_iff_of_nodup hes.of_map hfs.of_map).mpr fun k =>
      ⟨fun hk => hsub (fun text => (htexts text).mp) hvalues hk,
        fun hk => hsub (fun text => (htexts text).mpr)
          (fun f hf e he h => (hvalues e he f hf h.symm).symm) hk⟩
  exact Sorting.mergeSort_eq_of_perm hes hperm

theorem Keyable.items {vs : List Value} (h : Keyable (.list vs)) : ∀ v ∈ vs, Keyable v := by
  cases h with
  | list h => exact h
  | shown h | moment h _ => cases h

theorem Keyable.entries {live : Bool} {es : Entries} (h : Keyable (.mapping live es)) :
    (∀ e ∈ es, e.1.isWritable = true) ∧ (keyTexts es).Nodup ∧ ∀ e ∈ es, Keyable e.2 := by
  cases h with
  | mapping hkeys hdistinct h => exact ⟨hkeys, hdistinct, h⟩
  | shown h | moment h _ => cases h

theorem Keyable.amounts {d : Duration} (h : Keyable (.duration d)) :
    (Value.duration d).isWritable = true := by
  cases h with
  | duration hd => exact hd
  | shown h | moment h _ => cases h

/-- Structurally equal values have the same key. -/
theorem keyChars_of_alike {v w : Value} (h : Alike v w) (hv : Keyable v) (hw : Keyable w) :
    v.keyChars = w.keyChars := by
  induction h with
  | shown hkind hs ht => exact keyChars_of_shown hkind hs ht
  | moment ht hu hmillis hmillis' =>
    rw [keyChars_eq (stableChars_of_moment ht hmillis),
      keyChars_eq (stableChars_of_moment hu hmillis')]
  | @duration d e h =>
    rw [keyChars_eq (stableChars_duration hv.amounts),
      keyChars_eq (stableChars_duration hw.amounts), partTexts_eq h]
  | @list vs ws hlength _ ih =>
    have hkeys : vs.map keyChars = ws.map keyChars := by
      refine map_eq_map_iff_forall₂.mpr (List.forall₂_iff_zip.mpr ⟨hlength, fun {v w} hp => ?_⟩)
      obtain ⟨hvmem, hwmem⟩ := List.of_mem_zip hp
      exact ih (v, w) hp (hv.items v hvmem) (hw.items w hwmem)
    rw [keyChars_eq (stableChars_list fun v h => (hv.items v h).hasKey.chars),
      keyChars_eq (stableChars_list fun w h => (hw.items w h).hasKey.chars), hkeys]
  | @mapping live live' es fs htexts _ ih =>
    obtain ⟨hkeys, hdistinct, hes⟩ := hv.entries
    obtain ⟨hkeys', hdistinct', hfs⟩ := hw.entries
    rw [keyChars_eq (stableChars_mapping hkeys fun e he => (hes e he).hasKey.chars),
      keyChars_eq (stableChars_mapping hkeys' fun f hf => (hfs f hf).hasKey.chars),
      sortByText_eq hdistinct hdistinct' htexts fun e he f hf htext =>
        ih e he f hf htext (hes e he) (hfs f hf)]

/-! ## Canonical keys -/

/-- Values have the same structural key exactly if they are structurally equal. -/
theorem stableKey_eq_iff {v w : Value} (hv : Keyable v) (hw : Keyable w) :
    ∃ k l, v.stableKey = .ok k ∧ w.stableKey = .ok l ∧ (k = l ↔ Alike v w) := by
  have hkey {v : Value} (hv : Keyable v) : v.stableKey = .ok (String.ofList v.keyChars) := by
    rw [stableKey, hv.hasKey.chars]
    rfl
  refine ⟨_, _, hkey hv, hkey hw, fun h => ?_, fun h => ?_⟩
  · exact alike_of_keyChars hv hw (String.ofList_injective h)
  · exact congrArg String.ofList (keyChars_of_alike h hv hw)

/-- A day and tags. -/
def dayFirst : Value :=
  object [(.string "on", .date default), (.string "tags", .list [.string "a", .null])]

/-- The same with the start of the day, the other way round. -/
def dayLast : Value :=
  object [(.string "tags", .list [.string "a", .null]),
    (.string "on", .timestamp (.midnight default))]

theorem stableKey_eq_iff_reordered :
    ∃ k, dayFirst.stableKey = .ok k ∧ dayLast.stableKey = .ok k := by
  have hmillis : (Timestamp.midnight default).epochMillis = .ok 0 := by decide +kernel
  have hdate : Keyable (.date default) := .moment rfl hmillis
  have htime : Keyable (.timestamp (.midnight default)) := .moment rfl hmillis
  have htags : Keyable (.list [.string "a", .null]) :=
    .list (List.forall_mem_cons.mpr ⟨.shown rfl, List.forall_mem_singleton.mpr (.shown rfl)⟩)
  have hfirst : Keyable dayFirst :=
    .mapping (by decide) (by decide)
      (List.forall_mem_cons.mpr ⟨hdate, List.forall_mem_singleton.mpr htags⟩)
  have hlast : Keyable dayLast :=
    .mapping (by decide) (by decide)
      (List.forall_mem_cons.mpr ⟨htags, List.forall_mem_singleton.mpr htime⟩)
  have hsame : Alike (.list [.string "a", .null]) (.list [.string "a", .null]) :=
    .list rfl (List.forall_mem_cons.mpr
      ⟨.shown rfl rfl rfl, List.forall_mem_singleton.mpr (.shown rfl rfl rfl)⟩)
  have halike : Alike dayFirst dayLast := by
    refine .mapping (fun _ => (List.Perm.swap _ _ _).mem_iff) fun e he f hf htext => ?_
    simp only [List.mem_cons, List.not_mem_nil, or_false] at he hf
    rcases he with rfl | rfl
    · rcases hf with rfl | rfl
      · exact absurd htext (by decide)
      · exact .moment rfl rfl hmillis hmillis
    · rcases hf with rfl | rfl
      · exact hsame
      · exact absurd htext (by decide)
  obtain ⟨k, l, hk, hl, hiff⟩ := stableKey_eq_iff hfirst hlast
  obtain rfl := hiff.mpr halike
  exact ⟨k, hk, hl⟩

/-- An integer contains nothing else, but one that cannot be written has no key. -/
theorem stableKey_unwritable :
    unwritable.Whole ∧ unwritable.stableKey = .error .integerTooLong := by
  have hchars : unwritable.stableChars = .error .integerTooLong :=
    bind_eq_error.mpr (.inl display_unwritable)
  refine ⟨.number _, ?_⟩
  rw [stableKey, hchars]
  rfl

end Value

end NoteQuery
