/-
Reading YAML into a value ends in a complaint, or for a reason that the text shows.

A node makes a fault only where its tag asks for a truth value, a number or a moment that its
text does not write (`Unfit`); collections pass on what their parts have.  So a text that is
not told to be malformed has such a node, or asks for what cannot be scanned
(`unreadable_of_read`).
-/
import NoteQuery.Proofs.Yaml.Nodes
import NoteQuery.Yaml.Data

namespace NoteQuery.Yaml

/-! ## What has no value -/

/-- The text of a node with such a form cannot be had as the sort of data that the tag asks for. -/
inductive Refuses (form : String) : (tag text : String) → Fault → Prop
  | truth {text : String} {f : Fault} : boolOf text = .error f → Refuses form Tag.bool text f
  | integer {text : String} {f : Fault} : intOf text = .error f → Refuses form Tag.int text f
  | float {text : String} {f : Fault} : floatOf text = .error f → Refuses form Tag.float text f
  | moment {text : String} {f : Fault} :
      form = "scalar" → momentOf text = .error f → Refuses form Tag.timestamp text f
  | formless {text : String} : form ≠ "scalar" → Refuses form Tag.timestamp text .wrongKind

/-- A node has a part that refuses its tag. -/
inductive Unfit : Node → Fault → Prop
  | here {n : Node} {text : String} {f : Fault} : (build n).part.text = .ok text →
      Refuses (build n).part.form (build n).part.tag text f → Unfit n f
  | item {tag : String} {items : List Node} {mark : Mark} {n : Node} {f : Fault} :
      n ∈ items → Unfit n f → Unfit (.sequence tag items mark) f
  | key {tag : String} {pairs : List (Node × Node)} {mark : Mark} {p : Node × Node} {f : Fault} :
      p ∈ pairs → Unfit p.1 f → Unfit (.mapping tag pairs mark) f
  | value {tag : String} {pairs : List (Node × Node)} {mark : Mark} {p : Node × Node} {f : Fault} :
      p ∈ pairs → Unfit p.2 f → Unfit (.mapping tag pairs mark) f

section Building

variable {α β : Type} {P : Fault → Prop}

/-- A fault among the troubles has the reason `P`. -/
def Flaw.Sound (P : Fault → Prop) (x : Except Flaw α) : Prop :=
  ∀ ⦃flaw f⦄, x = .error flaw → flaw.trouble = .fault f → P f

/-- Neither the text nor the value of a part fails for want of a reason; the text has none. -/
structure Part.Sound (P : Fault → Prop) (p : Part) : Prop where
  text : Ends (fun _ => False) (fun _ => True) p.text
  value : Flaw.Sound P p.value

/-- Both parts of each pair are sound. -/
def ArePairsSound (P : Fault → Prop) (pairs : List (Part × Part)) : Prop :=
  ∀ p ∈ pairs, p.1.Sound P ∧ p.2.Sound P

theorem ArePairsSound.nil : ArePairsSound P [] :=
  fun _ hnil => absurd hnil List.not_mem_nil

/-- What becomes of a node is sound, and so is what it gives to others. -/
structure Built.Sound (P : Fault → Prop) (b : Built) : Prop where
  part : b.part.Sound P
  pairs : ArePairsSound P b.pairs
  merged (start : Mark) : Ends (fun _ => False) (ArePairsSound P) (b.merged start)

/-! ## Flaws -/

namespace Flaw.Sound

theorem ok (a : α) : Flaw.Sound P (.ok a) := by
  intro flaw f h
  cases h

theorem complaint (depth : Nat) (c : Complaint) :
    Flaw.Sound P (α := α) (.error ⟨depth, .complaint c⟩) := by
  intro flaw f h hfault
  cases h
  cases hfault

theorem here {Q : α → Prop} {x : Except Trouble α} (h : Ends P Q x) :
    Flaw.Sound P (Flaw.here x) := by
  intro flaw f hx hfault
  cases h with
  | value => cases hx
  | complaint =>
    cases hx
    cases hfault
  | fault hreason =>
    cases hx
    cases hfault
    exact hreason

theorem within {x : Except Flaw α} (h : Flaw.Sound P x) : Flaw.Sound P (Flaw.within x) := by
  intro flaw f hx hfault
  cases x with
  | ok a => cases hx
  | error inner =>
    cases hx
    exact h rfl hfault

theorem bind {x : Except Flaw α} {g : α → Except Flaw β} (hx : Flaw.Sound P x)
    (hg : ∀ a, x = .ok a → Flaw.Sound P (g a)) : Flaw.Sound P (x.bind g) := by
  intro flaw f h hfault
  cases x with
  | ok a => exact hg a rfl h hfault
  | error inner =>
    cases h
    exact hx rfl hfault

theorem map {x : Except Flaw α} (g : α → β) (hx : Flaw.Sound P x) : Flaw.Sound P (x.map g) := by
  intro flaw f h hfault
  cases x with
  | ok a => cases h
  | error inner =>
    cases h
    exact hx rfl hfault

theorem ends {x : Except Flaw α} (h : Flaw.Sound P x) :
    Ends P (fun _ => True) (x.mapError Flaw.trouble) := by
  cases x with
  | ok a => exact .value trivial
  | error flaw =>
    obtain ⟨depth, trouble⟩ := flaw
    cases trouble with
    | complaint c => exact .complaint c
    | fault f => exact .fault (h rfl rfl)

theorem gather {xs : List (Except Flaw α)} (h : ∀ x ∈ xs, Flaw.Sound P x) :
    Flaw.Sound P (Flaw.gather xs) := by
  induction xs with
  | nil => exact ok _
  | cons x xs ih =>
    obtain ⟨hx, hxs⟩ := List.forall_mem_cons.mp h
    intro flaw f hgather hfault
    unfold Flaw.gather at hgather
    split at hgather
    · cases hgather
    · next hrest =>
      cases hgather
      exact ih hxs hrest hfault
    · cases hgather
      exact hx rfl hfault
    · next hrest =>
      cases hgather
      split at hfault
      · exact ih hxs hrest hfault
      · exact hx rfl hfault

end Flaw.Sound

/-! ## Pairs and collections -/

theorem sound_pairValue {mark : Mark} {pair : Part × Part} (hkey : pair.1.Sound P)
    (hvalue : pair.2.Sound P) : Flaw.Sound P (pairValue mark pair) := by
  have hgathered : Flaw.Sound P (Flaw.gather
      [if mutableTags.contains pair.1.tag then
          Flaw.here (complain .mapping mark .unhashableKey pair.1.mark)
        else pair.1.value, pair.2.value]) := by
    refine .gather (List.forall_mem_cons.mpr ⟨?_, List.forall_mem_singleton.mpr hvalue.value⟩)
    split
    · exact .complaint _ _
    · exact hkey.value
  unfold pairValue
  dsimp only
  split
  · exact .ok _
  · exact .ok _
  · next hflaw =>
    rw [hflaw] at hgathered
    intro flaw f h hfault
    cases h
    exact hgathered rfl hfault

theorem ends_mergedPairs {mark : Mark} {pairs : List (Built × Built)}
    (h : ∀ p ∈ pairs, p.1.Sound P ∧ p.2.Sound P) :
    Ends (fun _ => False) (ArePairsSound P) (mergedPairs mark pairs) := by
  unfold mergedPairs
  refine (Ends.mapM fun p hp => (h p (List.mem_filter.mp hp).1).2.merged mark).bind ?_
  intro taken htaken
  refine .value ?_
  intro pair hpair
  rcases List.mem_append.mp hpair with hmerged | hown
  · obtain ⟨given, hgiven, hmem⟩ := List.mem_flatten.mp hmerged
    exact htaken given hgiven pair hmem
  · obtain ⟨p, hp, rfl⟩ := List.mem_map.mp hown
    obtain ⟨hkey, hvalue⟩ := h p (List.mem_filter.mp hp).1
    dsimp only
    split
    · -- The sign of a value is a key with the text that it has.
      have htext : Ends P (fun _ => True) (p.1.part.text.map Value.string) :=
        hkey.part.text.faultless.map fun _ ht => ht
      exact ⟨⟨hkey.part.text, .here htext⟩, hvalue.part⟩
    · exact ⟨hkey.part, hvalue.part⟩

theorem sound_entries {mark : Mark} {x : Except Trouble (List (Part × Part))}
    (h : Ends (fun _ => False) (ArePairsSound P) x) :
    Flaw.Sound P ((Flaw.here x).bind fun pairs =>
      (Flaw.gather (pairs.map (pairValue mark))).map Entries.ofList) := by
  cases h with
  | fault hnone => exact hnone.elim
  | complaint c => exact .complaint _ _
  | value hpairs =>
    refine .map _ (.gather ?_)
    intro x hx
    obtain ⟨p, hp, rfl⟩ := List.mem_map.mp hx
    exact sound_pairValue (hpairs p hp).1 (hpairs p hp).2

theorem sound_items {items : List Built} (h : ∀ b ∈ items, b.Sound P) :
    Flaw.Sound P ((Flaw.gather (items.map (·.part.value))).map Value.list) := by
  refine .map _ (.gather ?_)
  intro x hx
  obtain ⟨b, hb, rfl⟩ := List.mem_map.mp hx
  exact (h b hb).part.value

theorem sound_orderedPairs {task : Task} {mark : Mark} {items : List Built}
    (h : ∀ b ∈ items, b.Sound P) : Flaw.Sound P (orderedPairs task mark items) := by
  refine .bind (.gather ?_) fun _ _ => .ok _
  intro x hx
  obtain ⟨b, hb, rfl⟩ := List.mem_map.mp hx
  split
  · exact .complaint _ _
  · split
    · next key value hpairs =>
      have hpair := (h b hb).pairs (key, value) (hpairs ▸ List.mem_singleton_self _)
      refine .map _ (.gather (List.forall_mem_cons.mpr ⟨hpair.1.value, ?_⟩))
      exact List.forall_mem_singleton.mpr hpair.2.value
    · exact .complaint _ _

/-! ## Scalars -/

theorem ends_bytesOf {mark : Mark} {text : String} :
    Ends P (fun _ => True) (bytesOf mark text) := by
  unfold bytesOf
  split
  · split
    · exact .value trivial
    · exact .complaint _
  · exact .complaint _

theorem ends_orFault {x : Except Fault Value} (h : ∀ f, x = .error f → P f) :
    Ends P (fun _ => True) (orFault x) := by
  cases x with
  | ok v => exact .value trivial
  | error f => exact .fault (h f rfl)

theorem ends_scalarValue {tag form : String} {mark : Mark} {text : Except Trouble String}
    (htext : Ends (fun _ => False) (fun _ => True) text)
    (hrefuses : ∀ t f, text = .ok t → Refuses form tag t f → P f) :
    Ends P (fun _ => True) (scalarValue tag mark form text) := by
  cases htext with
  | fault hnone => exact hnone.elim
  | complaint c =>
    unfold scalarValue
    repeat' (refine .ite (.complaint c) ?_)
    exact .complaint _
  | @value t _ =>
    unfold scalarValue
    split
    · exact .value trivial
    split
    · next htag => exact ends_orFault fun f hf => hrefuses t f rfl (htag ▸ .truth hf)
    split
    · next htag => exact ends_orFault fun f hf => hrefuses t f rfl (htag ▸ .integer hf)
    split
    · next htag => exact ends_orFault fun f hf => hrefuses t f rfl (htag ▸ .float hf)
    split
    · exact ends_bytesOf
    split
    · next htag =>
      refine ends_orFault fun f hf => hrefuses t f rfl (htag ▸ ?_)
      split at hf
      · next hform => exact .moment hform hf
      · next hform =>
        cases hf
        exact .formless hform
    split
    · exact .value trivial
    · exact .complaint _

theorem sound_valueFor {tag form : String} {mark : Mark} {text : Except Trouble String}
    {items : Option (List Built)} {entries : Option (Except Trouble (List (Part × Part)))}
    (htext : Ends (fun _ => False) (fun _ => True) text)
    (hrefuses : ∀ t f, text = .ok t → Refuses form tag t f → P f)
    (hitems : ∀ b ∈ items.getD [], b.Sound P)
    (hentries : Ends (fun _ => False) (ArePairsSound P) (entries.getD (.ok []))) :
    Flaw.Sound P (valueFor tag mark form text items entries) := by
  unfold valueFor
  extract_lets refused filled ordered
  have hfilled : Flaw.Sound P filled := by
    cases entries with
    | none => exact .complaint _ _
    | some es => exact sound_entries hentries
  have hordered (task : Task) : Flaw.Sound P (ordered task) := by
    cases items with
    | none => exact .complaint _ _
    | some bs => exact sound_orderedPairs hitems
  split
  · refine .within ?_
    cases items with
    | none => exact .complaint _ _
    | some bs => exact sound_items hitems
  split
  · exact .within (.map _ hfilled)
  split
  · exact .within (.map _ hfilled)
  split
  · exact .within (hordered _)
  split
  · exact .within (hordered _)
  · exact .here (ends_scalarValue htext hrefuses)

theorem ends_mappingText {mark : Mark} {pairs : List (Part × Part)} (h : ArePairsSound P pairs) :
    Ends (fun _ => False) (fun _ => True) (mappingText mark pairs) := by
  unfold mappingText
  split
  · next hfound => exact (h _ (List.mem_of_find?_eq_some hfound)).2.text
  · exact .complaint _

/-! ## Nodes -/

theorem ends_mergedItems {start : Mark} {items : List Built} (h : ∀ b ∈ items, b.Sound P) :
    Ends (fun _ => False) (ArePairsSound P) (do
      let taken ← items.mapM fun item =>
        if item.part.form = "mapping" then item.merged start
        else complain .mapping start (.notForMergingOne item.part.form) item.part.mark
      return taken.reverse.flatten) := by
  refine (Ends.mapM (R := ArePairsSound P) fun item hitem => ?_).bind ?_
  · exact .ite ((h item hitem).merged start) (.complaint _)
  · intro taken htaken
    refine .value ?_
    intro pair hpair
    obtain ⟨given, hgiven, hmem⟩ := List.mem_flatten.mp hpair
    exact htaken given (List.mem_reverse.mp hgiven) pair hmem

mutual

theorem sound_build : ∀ n : Node, (∀ f, Unfit n f → P f) → (build n).Sound P
  | .scalar tag text mark, h => by
    have hhere (t : String) (f : Fault) (ht : (build (.scalar tag text mark)).part.text = .ok t)
        (hr : Refuses "scalar" tag t f) : P f := by
      refine h f (.here ht ?_)
      rw [build]
      exact hr
    rw [build] at hhere ⊢
    have hvalue : Flaw.Sound P (valueFor tag mark "scalar" (.ok text) none none) :=
      sound_valueFor (.value trivial) hhere (fun _ hnil => absurd hnil List.not_mem_nil)
        (.value .nil)
    exact ⟨⟨.value trivial, hvalue⟩, .nil, fun _ => .complaint _⟩
  | .sequence tag items mark, h => by
    have hitems := sound_buildAll items fun n hn f hf => h f (.item hn hf)
    rw [build]
    have hvalue : Flaw.Sound P (valueFor tag mark "sequence"
        (complainAt mark (.nodeKind "a scalar node" "sequence")) (some (buildAll items)) none) := by
      refine sound_valueFor (.complaint _) ?_ hitems (.value .nil)
      intro t f hnone
      cases hnone
    exact ⟨⟨.complaint _, hvalue⟩, .nil, fun _ => ends_mergedItems hitems⟩
  | .mapping tag pairs mark, h => by
    have hpairs := sound_buildPairs pairs fun p hp f hf => h f (hf.elim (.key hp) (.value hp))
    have hparts : ArePairsSound P ((buildPairs pairs).map fun p => (p.1.part, p.2.part)) := by
      intro _ hmem
      obtain ⟨p, hp, rfl⟩ := List.mem_map.mp hmem
      exact ⟨(hpairs p hp).1.part, (hpairs p hp).2.part⟩
    have hhere (t : String) (f : Fault) (ht : (build (.mapping tag pairs mark)).part.text = .ok t)
        (hr : Refuses "mapping" tag t f) : P f := by
      refine h f (.here ht ?_)
      rw [build]
      exact hr
    rw [build] at hhere ⊢
    have htext := @ends_mappingText P mark _ hparts
    have hvalue : Flaw.Sound P (valueFor tag mark "mapping" (mappingText mark _) none
        (some (mergedPairs mark (buildPairs pairs)))) :=
      sound_valueFor htext hhere (fun _ hnil => absurd hnil List.not_mem_nil)
        (ends_mergedPairs hpairs)
    exact ⟨⟨htext, hvalue⟩, hparts, fun _ => ends_mergedPairs hpairs⟩
  | .loop isMapping mark, _ => by
    rw [build]
    exact ⟨⟨.complaint _, .ok _⟩, .nil, fun _ => .value .nil⟩

theorem sound_buildAll :
    ∀ ns : List Node, (∀ n ∈ ns, ∀ f, Unfit n f → P f) → ∀ b ∈ buildAll ns, b.Sound P
  | [], _ => by
    rw [buildAll]
    exact fun _ hnil => absurd hnil List.not_mem_nil
  | n :: ns, h => by
    obtain ⟨hn, hns⟩ := List.forall_mem_cons.mp h
    rw [buildAll]
    exact List.forall_mem_cons.mpr ⟨sound_build n hn, sound_buildAll ns hns⟩

theorem sound_buildPairs :
    ∀ ps : List (Node × Node), (∀ p ∈ ps, ∀ f, Unfit p.1 f ∨ Unfit p.2 f → P f) →
      ∀ b ∈ buildPairs ps, b.1.Sound P ∧ b.2.Sound P
  | [], _ => by
    rw [buildPairs]
    exact fun _ hnil => absurd hnil List.not_mem_nil
  | (k, v) :: ps, h => by
    obtain ⟨hp, hps⟩ := List.forall_mem_cons.mp h
    rw [buildPairs]
    refine List.forall_mem_cons.mpr ⟨⟨?_, ?_⟩, sound_buildPairs ps hps⟩
    · exact sound_build k fun f hf => hp f (.inl hf)
    · exact sound_build v fun f hf => hp f (.inr hf)

end

end Building

/-! ## Texts -/

/-- What a text of YAML asks for cannot be had. -/
inductive Unreadable (text : String) : Fault → Prop
  | scan {f : Fault} : Unscannable text.toList f → Unreadable text f
  | node {ts : List Token} {stop : Option Trouble} {n : Node} {f : Fault} :
      tokens text.toList = (ts, stop) → Node.ofTokens? ts stop = .ok (some n) → Unfit n f →
        Unreadable text f

/-- The value that the tokens of a text give. -/
theorem ends_value {text : String} {ts : List Token} {stop : Option Trouble}
    (htokens : tokens text.toList = (ts, stop)) :
    Ends (Unreadable text) (fun _ => True) (do
      match ← Node.ofTokens? ts stop with
      | none => return Value.null
      | some n => (build n).part.value.mapError Flaw.trouble) := by
  cases hnode : Node.ofTokens? ts stop with
  | error trouble =>
    cases trouble with
    | complaint c => exact .complaint c
    | fault f =>
      rw [Node.ending_of_ofTokens? hnode] at htokens
      exact .fault (.scan (unscannable_of_tokens htokens))
  | ok found =>
    cases found with
    | none => exact .value trivial
    | some n => exact (sound_build n fun _ hf => .node htokens hnode hf).part.value.ends

theorem unreadable_of_read {text : String} {f : Fault} (h : read text = .error (.fault f)) :
    Unreadable text f := by
  rcases htokens : tokens text.toList with ⟨ts, stop⟩
  have hvalue := ends_value htokens
  unfold read at h
  dsimp only at h
  rw [htokens] at h
  dsimp only at h
  split at h
  · cases h
  · split at h
    · cases h
    · cases h
    · next hfault =>
      cases h
      exact hvalue.reason hfault

end NoteQuery.Yaml
