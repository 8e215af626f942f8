/-
Leads and last segments.

A path is a lead and its last segment; the lead is empty or ends with a slash.  What is done to
paths before they are compared goes on behind the lead.  Only the last segment can end in `.md`
(`dropNoteEnding_lead`), what is in normal form as a whole stays so with another last segment
(`normalChars_lead`), and the small letters of a segment do not depend on other segments, since no
letter has its small form by what stands beyond a slash (`lowerFrom_slash`).
-/
import NoteQuery.Proofs.Backlinks
import NoteQuery.Text.Case

namespace NoteQuery

namespace Text

/-! ## The last place of a character -/

section Cut

variable {sep : Char} {front tail cs : List Char}

theorem takeWhile_ne_reverse (h : sep ∉ tail) (rest : List Char) :
    (tail.reverse ++ rest).takeWhile (· != sep) = tail.reverse ++ rest.takeWhile (· != sep) := by
  refine List.takeWhile_append_of_pos fun c hc => bne_iff_ne.mpr ?_
  rintro rfl
  exact h (List.mem_reverse.mp hc)

theorem cutLast?_append (h : sep ∉ tail) :
    cutLast? sep (front ++ sep :: tail) = some (front, tail) := by
  have hreverse : (front ++ sep :: tail).reverse = tail.reverse ++ sep :: front.reverse := by
    rw [List.reverse_append, List.reverse_cons, List.append_assoc]
    rfl
  rw [cutLast?, hreverse, takeWhile_ne_reverse h, List.takeWhile_cons_of_neg (by simp),
    List.append_nil, List.drop_left]
  dsimp only
  rw [List.reverse_reverse, List.reverse_reverse]

theorem cutLast?_of_not_mem (h : sep ∉ cs) : cutLast? sep cs = none := by
  have htake := takeWhile_ne_reverse h []
  rw [List.takeWhile_nil, List.append_nil] at htake
  rw [cutLast?, htake, List.drop_length]

end Cut

/-! ## Blanks at the ends -/

/-- Nothing is removed at the ends if no blanks are there, and only then. -/
theorem trimChars_eq_self_iff {cs : List Char} :
    trimChars cs = cs ↔
      (∀ c ∈ cs.head?, isBlank c = false) ∧ ∀ c ∈ cs.getLast?, isBlank c = false := by
  have hends : List.dropWhile isBlank cs = cs ∧ List.rdropWhile isBlank cs = cs ↔
      (∀ c ∈ cs.head?, isBlank c = false) ∧ ∀ c ∈ cs.getLast?, isBlank c = false := by
    rw [List.dropWhile_eq_self_iff, List.rdropWhile_eq_self_iff]
    cases cs with
    | nil => simp
    | cons c cs => simp [List.getLast?_eq_some_getLast (List.cons_ne_nil c cs)]
  rw [← hends]
  have hright : trimChars cs = List.rdropWhile isBlank (trimLeft cs) := rfl
  constructor
  · intro h
    have hleft : List.dropWhile isBlank cs = cs := by
      refine (List.dropWhile_suffix isBlank).eq_of_length_le ?_
      exact (congrArg List.length h).symm.trans_le (isPrefix_trimChars cs).length_le
    rw [hright, trimLeft, hleft] at h
    exact ⟨hleft, h⟩
  · rintro ⟨hleft, h⟩
    rw [hright, trimLeft, hleft, h]

/-! ## Small letters -/

/-- No text that goes on beyond a slash tells anything about the case of letters. -/
theorem meetsCased_slash (xs ys : List Char) : meetsCased (xs ++ '/' :: ys) = meetsCased xs := by
  have hpassed : inRanges caseIgnorableRanges '/' = false := by decide +kernel
  have hcased : inRanges casedRanges '/' = false := by decide +kernel
  induction xs with
  | nil => simp [meetsCased, hpassed, hcased]
  | cons x xs ih =>
    rw [List.cons_append, meetsCased, meetsCased]
    by_cases hx : inRanges caseIgnorableRanges x
    · rw [List.dropWhile_cons_of_pos hx, List.dropWhile_cons_of_pos hx]
      exact ih
    · rw [List.dropWhile_cons_of_neg hx, List.dropWhile_cons_of_neg hx]

theorem lowerFrom_behind_slash (xs before cs : List Char) :
    lowerFrom (xs ++ '/' :: before) cs = lowerFrom xs cs := by
  induction cs generalizing xs with
  | nil => rfl
  | cons c cs ih => simp only [lowerFrom, meetsCased_slash, ← List.cons_append, ih]

/-- Before and behind a slash the small letters are the same as by themselves. -/
theorem lowerFrom_slash (before folder cs : List Char) :
    lowerFrom before (folder ++ '/' :: cs) = lowerFrom before folder ++ '/' :: lowerFrom [] cs := by
  induction folder generalizing before with
  | nil =>
    rw [← lowerFrom_behind_slash [] before cs]
    rfl
  | cons c folder ih =>
    simp only [List.cons_append, lowerFrom, meetsCased_slash, ih, List.append_assoc]

theorem shiftBy_lowerRuns_ne_slash {c : Char} (h : c ≠ '/') : shiftBy lowerRuns c ≠ '/' := by
  have hruns : ∀ r ∈ lowerRuns, 47 < r.first + r.shift := by decide +kernel
  unfold shiftBy
  split
  · next r hr =>
    have hshift := hruns r (List.mem_of_find?_eq_some hr)
    have hholds := List.find?_some hr
    simp only [CaseRun.holds, Bool.and_eq_true, decide_eq_true_eq] at hholds
    intro heq
    by_cases hvalid : (Int.toNat (c.toNat + r.shift)).isValidChar
    · rw [Char.ofNat, dif_pos hvalid] at heq
      have hnat : Int.toNat (c.toNat + r.shift) = 47 := congrArg Char.toNat heq
      omega
    · rw [Char.ofNat, dif_neg hvalid] at heq
      cases heq
  · exact h

theorem lowerChar_ne_slash {c : Char} (h : c ≠ '/') : lowerChar c ≠ '/' := by
  unfold lowerChar
  split
  · next hascii =>
    have hall : ∀ n < 128, Char.ofNat n ≠ '/' → (Char.ofNat n).toLower ≠ '/' := by decide
    have hc := hall c.toNat hascii
    rw [Char.ofNat_toNat] at hc
    exact hc h
  · split
    · decide
    · exact shiftBy_lowerRuns_ne_slash h

theorem slash_notMem_lowerFrom (before : List Char) {cs : List Char} (h : '/' ∉ cs) :
    '/' ∉ lowerFrom before cs := by
  induction cs generalizing before with
  | nil => exact List.not_mem_nil
  | cons c cs ih =>
    rw [List.mem_cons, not_or] at h
    rw [lowerFrom, List.mem_append, not_or]
    refine ⟨?_, ih _ h.2⟩
    split
    · split <;> decide
    · split
      · decide
      · exact fun hmem => lowerChar_ne_slash (Ne.symm h.1) (List.mem_singleton.mp hmem).symm

end Text

namespace Path

/-! ## Segments -/

/-- What stands before the last segment of a path: nothing, or something that ends with a slash. -/
def IsLead (lead : List Char) : Prop :=
  lead = [] ∨ ∃ folder, lead = folder ++ ['/']

variable {lead cs : List Char}

theorem name_of_segment (h : '/' ∉ cs) : name (String.ofList cs) = String.ofList cs := by
  rw [name, String.toList_ofList, Text.cutLast?_of_not_mem h]

theorem name_of_lead (hlead : IsLead lead) (h : '/' ∉ cs) :
    name (String.ofList (lead ++ cs)) = String.ofList cs := by
  rcases hlead with rfl | ⟨folder, rfl⟩
  · exact name_of_segment h
  · rw [name, String.toList_ofList, List.append_assoc, List.singleton_append,
      Text.cutLast?_append h]

/-- A path is a lead and its last segment. -/
theorem exists_lead (path : String) :
    ∃ lead, IsLead lead ∧ path.toList = lead ++ (name path).toList ∧ '/' ∉ (name path).toList := by
  obtain ⟨lead, tail, hlead, hpath, htail⟩ :
      ∃ lead tail, IsLead lead ∧ path.toList = lead ++ tail ∧ '/' ∉ tail := by
    by_cases h : '/' ∈ path.toList
    · obtain ⟨tail, folder, hreverse, htail⟩ :=
        List.eq_append_cons_of_mem (List.mem_reverse.mpr h)
      refine ⟨folder.reverse ++ ['/'], tail.reverse, .inr ⟨_, rfl⟩, ?_,
        mt List.mem_reverse.mp htail⟩
      rw [← List.reverse_reverse path.toList, hreverse, List.reverse_append, List.reverse_cons]
    · exact ⟨[], path.toList, .inl rfl, rfl, h⟩
  have hname : name path = String.ofList tail := by
    rw [← name_of_lead hlead htail, ← hpath, String.ofList_toList]
  rw [hname, String.toList_ofList]
  exact ⟨lead, hlead, hpath, htail⟩

/-- The small letters of the last segment are those of the segment by itself. -/
theorem name_lower (path : String) : name (Text.lower path) = Text.lower (name path) := by
  obtain ⟨lead, hlead, hpath, hname⟩ := exists_lead path
  have hsmall := Text.slash_notMem_lowerFrom [] hname
  rw [Text.lower, Text.lower, hpath]
  rcases hlead with rfl | ⟨folder, rfl⟩
  · exact name_of_segment hsmall
  · rw [List.append_assoc, List.singleton_append, Text.lowerFrom_slash, List.append_cons]
    exact name_of_lead (.inr ⟨_, rfl⟩) hsmall

theorem name_ne_of_endsWith {path : String} (h : Text.endsWith path ".md" = true) :
    name path ≠ "" := by
  intro hname
  obtain ⟨lead, hlead, hpath, -⟩ := exists_lead path
  rw [hname, String.toList_empty, List.append_nil] at hpath
  rw [Text.endsWith, hpath] at h
  rcases hlead with rfl | ⟨folder, rfl⟩
  · exact absurd h (by decide)
  · rw [List.reverse_append] at h
    exact Bool.false_ne_true h

/-! ## Endings of notes -/

/-- The letters of `.md` in any case, perhaps with a line end behind them. -/
def IsNoteEnding (cs : List Char) : Prop :=
  ∃ m d rest, cs = '.' :: m :: d :: rest ∧ m.toLower = 'm' ∧ d.toLower = 'd' ∧
    (rest = [] ∨ rest = ['\n'])

theorem IsNoteEnding.slash_notMem (h : IsNoteEnding cs) : '/' ∉ cs := by
  obtain ⟨m, d, rest, rfl, hm, hd, hrest⟩ := h
  simp only [List.mem_cons, not_or]
  refine ⟨by decide, ?_, ?_, ?_⟩
  · rintro rfl
    exact absurd hm (by decide)
  · rintro rfl
    exact absurd hd (by decide)
  · rcases hrest with rfl | rfl <;> decide

theorem dropNoteEnding_cons {c : Char} (h : ¬ IsNoteEnding (c :: cs)) :
    dropNoteEnding (c :: cs) = c :: dropNoteEnding cs := by
  rw [dropNoteEnding.eq_def]
  split
  · next heq => cases heq
  · next m d rest heq =>
    cases heq
    rw [if_neg]
    intro hend
    simp only [Bool.and_eq_true, decide_eq_true_eq, Bool.or_eq_true] at hend
    exact h ⟨m, d, rest, rfl, hend.1.1, hend.1.2, hend.2⟩
  · next heq =>
    cases heq
    rfl

/-- Only the last segment ends in `.md`. -/
theorem dropNoteEnding_lead (hlead : IsLead lead) (cs : List Char) :
    dropNoteEnding (lead ++ cs) = lead ++ dropNoteEnding cs := by
  rcases hlead with rfl | ⟨folder, rfl⟩
  · rfl
  · rw [List.append_assoc, List.append_assoc, List.singleton_append, List.singleton_append]
    induction folder with
    | nil => exact dropNoteEnding_cons fun h => h.slash_notMem List.mem_cons_self
    | cons c folder ih =>
      have hno : ¬ IsNoteEnding (c :: (folder ++ '/' :: cs)) := fun h =>
        h.slash_notMem (List.mem_cons_of_mem c (List.mem_append_right folder List.mem_cons_self))
      rw [List.cons_append, List.cons_append, dropNoteEnding_cons hno, ih]

theorem dropNoteEnding_subset (cs : List Char) : dropNoteEnding cs ⊆ cs := by
  induction cs with
  | nil => exact List.Subset.refl _
  | cons c cs ih =>
    by_cases h : IsNoteEnding (c :: cs)
    · obtain ⟨m, d, rest, heq, hm, hd, hrest⟩ := h
      cases heq
      rw [dropNoteEnding, if_pos (by simp [hm, hd, hrest])]
      exact fun x hx =>
        List.mem_cons_of_mem _ (List.mem_cons_of_mem _ (List.mem_cons_of_mem _ hx))
    · rw [dropNoteEnding_cons h]
      exact List.cons_subset_cons c ih

/-- What `.md` was put behind is there without it. -/
theorem dropNoteEnding_append (cs : List Char) : dropNoteEnding (cs ++ ['.', 'm', 'd']) = cs := by
  induction cs with
  | nil => rfl
  | cons c cs ih =>
    rw [List.cons_append, dropNoteEnding_cons, ih]
    rintro ⟨m, d, rest, heq, hm, hd, hrest⟩
    -- the point of the ending would be a letter of the other, or behind it
    match cs, heq with
    | [], heq =>
      cases heq
      exact absurd hm (by decide)
    | [x], heq =>
      cases heq
      exact absurd hd (by decide)
    | x :: y :: cs, heq =>
      cases heq
      rcases hrest with hrest | hrest
      · exact absurd hrest (List.append_ne_nil_of_right_ne_nil _ (List.cons_ne_nil _ _))
      · have hlength : (cs ++ ['.', 'm', 'd']).length = 1 := congrArg List.length hrest
        rw [List.length_append] at hlength
        exact absurd hlength (by simp)

/-! ## Normal forms -/

theorem dropHere_suffix (cs : List Char) : dropHere cs <:+ cs := by
  unfold dropHere
  split
  · exact List.suffix_append ['.', '/'] _
  · exact List.suffix_refl _

theorem dropHere_eq_self_iff : dropHere cs = cs ↔ ¬ ['.', '/'] <+: cs := by
  unfold dropHere
  split
  · refine iff_of_false (fun h => ?_) fun h => h (List.prefix_append ['.', '/'] _)
    have hlength := congrArg List.length h
    rw [List.length_cons, List.length_cons] at hlength
    omega
  · next hother =>
    refine iff_of_true rfl ?_
    rintro ⟨rest, rfl⟩
    exact hother rest rfl

/-- A text is in normal form if it has no backslash, does not start with `./` and has no blanks at
its ends. -/
theorem normalChars_eq_self_iff :
    normalChars cs = cs ↔ '\\' ∉ cs ∧ dropHere cs = cs ∧ Text.trimChars cs = cs := by
  constructor
  · intro h
    have hslashes : '\\' ∉ cs := h ▸ backslash_notMem_normalChars cs
    rw [normalChars_of_slashes hslashes] at h
    have hlength : cs.length ≤ (dropHere cs).length := by
      refine (congrArg List.length h).symm.trans_le ?_
      exact (Text.isPrefix_trimChars _).length_le.trans (List.dropWhile_suffix _).length_le
    have hhere := (dropHere_suffix cs).eq_of_length_le hlength
    rw [hhere] at h
    exact ⟨hslashes, hhere, h⟩
  · rintro ⟨hslashes, hhere, htrim⟩
    rw [normalChars_of_slashes hslashes, hhere, htrim]

/-- Behind the lead of a path in normal form the path goes on with anything in normal form. -/
theorem normalChars_lead {cs' : List Char} (hlead : IsLead lead)
    (hpath : normalChars (lead ++ cs) = lead ++ cs) (hcs' : normalChars cs' = cs') :
    normalChars (lead ++ cs') = lead ++ cs' := by
  rcases hlead with rfl | ⟨folder, rfl⟩
  · exact hcs'
  · rw [normalChars_eq_self_iff, dropHere_eq_self_iff, Text.trimChars_eq_self_iff] at hpath hcs' ⊢
    obtain ⟨hslashes, hhere, hhead, -⟩ := hpath
    obtain ⟨hslashes', -, -, hlast⟩ := hcs'
    have hnil : folder ++ ['/'] ≠ [] := List.append_ne_nil_of_right_ne_nil _ (List.cons_ne_nil _ _)
    rw [List.mem_append, not_or] at hslashes ⊢
    rw [List.head?_append_of_ne_nil _ hnil] at hhead ⊢
    refine ⟨⟨hslashes.1, hslashes'⟩, fun hdot => ?_, hhead, ?_⟩
    · cases folder with
      | nil => cases (List.cons_prefix_cons.mp hdot).1
      | cons c folder =>
        have hlength : ['.', '/'].length ≤ (c :: folder ++ ['/']).length := by
          rw [List.length_append, List.length_cons]
          exact Nat.le_add_left _ _
        have hdotLead := List.prefix_of_prefix_length_le hdot (List.prefix_append _ cs') hlength
        exact hhere (hdotLead.trans (List.prefix_append _ cs))
    · by_cases hend : cs' = []
      · rw [hend, List.append_nil, List.getLast?_concat]
        rintro _ ⟨⟩
        rfl
      · rwa [List.getLast?_append_of_ne_nil _ hend]

/-- With `.md` behind it, what is in normal form stays so. -/
theorem normalChars_append (h : normalChars cs = cs) :
    normalChars (cs ++ ['.', 'm', 'd']) = cs ++ ['.', 'm', 'd'] := by
  cases cs with
  | nil => rfl
  | cons c cs =>
    rw [normalChars_eq_self_iff, dropHere_eq_self_iff, Text.trimChars_eq_self_iff] at h ⊢
    obtain ⟨hslashes, hhere, hhead, -⟩ := h
    rw [List.mem_append, not_or, List.head?_append_of_ne_nil _ (List.cons_ne_nil c cs),
      List.getLast?_append_of_ne_nil _ (List.cons_ne_nil _ _)]
    refine ⟨⟨hslashes, by decide⟩, fun hdot => ?_, hhead, fun d hd => ?_⟩
    · cases cs with
      | nil => cases (List.cons_prefix_cons.mp (List.cons_prefix_cons.mp hdot).2).1
      | cons d cs =>
        have hlength : ['.', '/'].length ≤ (c :: d :: cs).length := Nat.le_add_left 2 cs.length
        exact hhere (List.prefix_of_prefix_length_le hdot (List.prefix_append _ _) hlength)
    · obtain rfl : 'd' = d := Option.some.inj hd
      rfl

/-! ## Paths as texts -/

theorem normalize_eq_self_iff {path : String} :
    normalize path = path ↔ normalChars path.toList = path.toList := by
  rw [normalize, ← String.toList_inj, String.toList_ofList]

theorem withoutNoteEnding_append (path : String) : withoutNoteEnding (path ++ ".md") = path := by
  have hchars : (path ++ ".md").toList = path.toList ++ ['.', 'm', 'd'] := String.toList_append
  rw [withoutNoteEnding, hchars, dropNoteEnding_append, String.ofList_toList]

end Path

end NoteQuery
