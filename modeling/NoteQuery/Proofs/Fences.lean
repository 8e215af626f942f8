/-
Where front matter ends.

A block of front matter is its lines up to the first fence (`block?_fenced`), and what stands behind
the fence is not looked at.  But a fence is looked for behind a line end only, and the first line of
the block has its line end in the line that opens the block.  So the first line is never taken for
a fence: two fences with no line between them open a block that goes on to a third one, and where
there is none, there is no block (`block?_unclosed`).
-/
import NoteQuery.Proofs.Separation
import NoteQuery.Vault.FrontMatter

namespace NoteQuery.FrontMatter

open Text (AtMark Unmarked atMark_cons)

/-! ## Fences -/

/-- The hyphens that open and close a block. -/
def hyphens : List Char := ['-', '-', '-']

/-- A character that may stand behind the hyphens. -/
def isGap (c : Char) : Bool :=
  c == ' ' || c == '\t'

/-- The line can close a block: nothing but spaces and tabs stands behind its hyphens, or else a
carriage return at its end. -/
def IsFence (line : List Char) : Prop :=
  ∃ gap ending, line = hyphens ++ gap ++ ending ∧ (∀ c ∈ gap, isGap c = true) ∧
    (ending = [] ∨ ending = ['\r'])

theorem behindHyphens?_eq_some {cs tail : List Char} :
    behindHyphens? cs = some tail ↔ cs = hyphens ++ tail := by
  constructor
  · intro h
    unfold behindHyphens? at h
    split at h
    · cases h
      rfl
    · cases h
  · rintro rfl
    rfl

/-- A line end is a line feed, or a carriage return before one. -/
theorem behindLineEnd?_eq_some {cs tail : List Char} :
    behindLineEnd? cs = some tail ↔ cs = '\n' :: tail ∨ cs = '\r' :: '\n' :: tail := by
  constructor
  · intro h
    unfold behindLineEnd? at h
    split at h
    · cases h
      exact .inr rfl
    · cases h
      exact .inl rfl
    · cases h
  · rintro (rfl | rfl)
    · rfl
    · rfl

theorem closesHere_lineFeed (cs : List Char) : closesHere ('\n' :: cs) = true ↔
    ∃ tail, cs = hyphens ++ tail ∧ (tail.dropWhile isGap = [] ∨
      ∃ after, behindLineEnd? (tail.dropWhile isGap) = some after) := by
  have hopen : behindLineEnd? ('\n' :: cs) = some cs := rfl
  simp only [closesHere, hopen, Option.bind_some]
  split
  · next tail htail =>
    rw [behindHyphens?_eq_some] at htail
    subst htail
    simp only [Bool.or_eq_true, List.isEmpty_iff, Option.isSome_iff_exists,
      List.append_cancel_left_eq, exists_eq_left']
    rfl
  · next hnone =>
    refine iff_of_false Bool.false_ne_true ?_
    rintro ⟨tail, htail, -⟩
    exact absurd (behindHyphens?_eq_some.mpr htail) (by rw [hnone]; nofun)

/-- A carriage return belongs to the line end behind it. -/
theorem closesHere_carriageReturn {cs : List Char} (h : closesHere ('\r' :: cs) = true) :
    ∃ rest, cs = '\n' :: rest ∧ closesHere cs = true := by
  cases hopen : behindLineEnd? ('\r' :: cs) with
  | none =>
    simp only [closesHere, hopen, Option.bind_none] at h
    cases h
  | some rest =>
    obtain hfeed | hreturn := behindLineEnd?_eq_some.mp hopen
    · cases hfeed
    · cases hreturn
      exact ⟨rest, rfl, h⟩

theorem closesHere_of_ne {c : Char} (cs : List Char) (hfeed : c ≠ '\n') (hreturn : c ≠ '\r') :
    closesHere (c :: cs) = false := by
  cases hopen : behindLineEnd? (c :: cs) with
  | none => simp only [closesHere, hopen, Option.bind_none]
  | some rest =>
    rcases behindLineEnd?_eq_some.mp hopen with h | h
    · exact absurd (List.cons.inj h).1 hfeed
    · exact absurd (List.cons.inj h).1 hreturn

section Lines

variable {line rest : List Char}

theorem exists_gap (hline : Unmarked ['\n'] line) (h : (line ++ rest).dropWhile isGap = [] ∨
      ∃ after, behindLineEnd? ((line ++ rest).dropWhile isGap) = some after) :
    ∃ gap ending, line = gap ++ ending ∧ (∀ c ∈ gap, isGap c = true) ∧
      (ending = [] ∨ ending = ['\r']) := by
  induction line with
  | nil => exact ⟨[], [], rfl, nofun, .inl rfl⟩
  | cons c line ih =>
    have hfeed : '\n' ∉ c :: line := fun hmem => hline '\n' hmem (List.mem_singleton_self _)
    by_cases hc : isGap c = true
    · rw [List.cons_append, List.dropWhile_cons_of_pos hc] at h
      obtain ⟨gap, ending, rfl, hgap, hending⟩ :=
        ih (fun d hd => hline d (List.mem_cons_of_mem c hd)) h
      exact ⟨c :: gap, ending, rfl, List.forall_mem_cons.mpr ⟨hc, hgap⟩, hending⟩
    · rw [List.cons_append, List.dropWhile_cons_of_neg hc] at h
      obtain hnil | ⟨after, hafter⟩ := h
      · cases hnil
      · rcases behindLineEnd?_eq_some.mp hafter with h | h
        · cases h
          exact absurd List.mem_cons_self hfeed
        · obtain ⟨rfl, hbehind⟩ := List.cons.inj h
          cases line with
          | nil => exact ⟨[], ['\r'], rfl, nofun, .inr rfl⟩
          | cons d line =>
            obtain ⟨rfl, -⟩ := List.cons.inj hbehind
            exact absurd (List.mem_cons_of_mem _ List.mem_cons_self) hfeed

/-- What comes behind a line end closes the block only if it is a fence. -/
theorem isFence_of_closesHere (hline : Unmarked ['\n'] line) (hrest : AtMark ['\n'] rest)
    (h : closesHere ('\n' :: (line ++ rest)) = true) : IsFence line := by
  obtain ⟨tail, hsplit, hclosed⟩ := (closesHere_lineFeed _).mp h
  rcases List.append_eq_append_iff.mp hsplit with ⟨front, hfront, rfl⟩ | ⟨after, rfl, rfl⟩
  · cases front with
    | nil => exact ⟨[], [], by simp [hfront], nofun, .inl rfl⟩
    | cons c front =>
      -- the line is shorter than the hyphens, so that its end would be one of them
      obtain rfl : c = '\n' := List.mem_singleton.mp (hrest c rfl)
      have hmem : '\n' ∈ hyphens := hfront ▸ List.mem_append_right line List.mem_cons_self
      exact absurd hmem (by decide)
  · obtain ⟨gap, ending, rfl, hgap, hending⟩ :=
      exists_gap (fun c hc => hline c (List.mem_append_right hyphens hc)) hclosed
    exact ⟨gap, ending, (List.append_assoc _ _ _).symm, hgap, hending⟩

/-! ## The end of the block -/

/-- A line is passed over to its end. -/
theorem untilClosed?_line (hline : Unmarked ['\n', '\r'] line) :
    untilClosed? (line ++ rest) = (untilClosed? rest).map (line ++ ·) := by
  induction line with
  | nil => exact (Option.map_id_apply).symm
  | cons c line ih =>
    have hc := hline c List.mem_cons_self
    have hopen : closesHere (c :: (line ++ rest)) = false := by
      refine closesHere_of_ne _ ?_ ?_
      · rintro rfl
        exact hc List.mem_cons_self
      · rintro rfl
        exact hc (List.mem_cons_of_mem _ (List.mem_singleton_self _))
    rw [List.cons_append, untilClosed?, hopen, if_neg Bool.false_ne_true,
      ih fun d hd => hline d (List.mem_cons_of_mem c hd), Option.map_map]
    rfl

/-- Behind a line without an end of the block there is none either. -/
theorem untilClosed?_line_none (hline : Unmarked ['\n'] line) (hrest : AtMark ['\n'] rest)
    (h : untilClosed? rest = none) : untilClosed? (line ++ rest) = none := by
  induction line with
  | nil => exact h
  | cons c line ih =>
    have hfeed : '\n' ∉ c :: line := fun hmem => hline '\n' hmem (List.mem_singleton_self _)
    have hopen : ¬ closesHere (c :: (line ++ rest)) = true := by
      intro hcloses
      have hreturn : c = '\r' := by
        by_contra hne
        rw [closesHere_of_ne _ (fun hc => hfeed (hc ▸ List.mem_cons_self)) hne] at hcloses
        cases hcloses
      subst hreturn
      obtain ⟨after, hafter, hcloses⟩ := closesHere_carriageReturn hcloses
      cases line with
      | nil =>
        -- the carriage return is the last of the line, and the end of the block was there
        obtain rfl : rest = '\n' :: after := hafter
        rw [List.nil_append] at hcloses
        rw [untilClosed?, if_pos hcloses] at h
        cases h
      | cons d line =>
        obtain ⟨rfl, -⟩ := List.cons.inj hafter
        exact hfeed (List.mem_cons_of_mem _ List.mem_cons_self)
    rw [List.cons_append, untilClosed?, if_neg hopen,
      ih fun d hd => hline d (List.mem_cons_of_mem c hd)]
    rfl

end Lines

/-! ## Lines with fences -/

/-- Lines as a text, each with its line feed. -/
def unlines (lines : List (List Char)) : List Char :=
  lines.flatMap (· ++ ['\n'])

/-- A text that begins with a block: a fence, the lines of the block, a fence, and the body. -/
def fenced (lines : List (List Char)) (body : List Char) : List Char :=
  unlines (hyphens :: lines) ++ unlines [hyphens] ++ body

theorem lineFeed_unlines (lines : List (List Char)) :
    '\n' :: unlines lines = lines.flatMap ('\n' :: ·) ++ ['\n'] := by
  induction lines with
  | nil => rfl
  | cons line lines ih =>
    calc '\n' :: unlines (line :: lines) = '\n' :: line ++ '\n' :: unlines lines := by
          simp [unlines]
      _ = (line :: lines).flatMap ('\n' :: ·) ++ ['\n'] := by simp [ih]

theorem atMark_lines (lines : List (List Char)) {rest : List Char} (h : AtMark ['\n'] rest) :
    AtMark ['\n'] (lines.flatMap ('\n' :: ·) ++ rest) := by
  cases lines with
  | nil => exact h
  | cons line lines => exact atMark_cons (List.mem_singleton_self _) _

section Blocks

variable {first : List Char} {lines : List (List Char)} (body : List Char)

/-- A row of lines among which there is no fence is passed over up to the fence behind them. -/
theorem untilClosed?_lines
    (hlines : ∀ line ∈ lines, Unmarked ['\n', '\r'] line ∧ ¬ IsFence line) :
    untilClosed? (lines.flatMap ('\n' :: ·) ++ '\n' :: (hyphens ++ '\n' :: body)) =
      some (lines.flatMap ('\n' :: ·)) := by
  induction lines with
  | nil => rfl
  | cons line lines ih =>
    obtain ⟨⟨hline, hfence⟩, hlines⟩ := List.forall_mem_cons.mp hlines
    have hfeed : Unmarked ['\n'] line := fun c hc hmem =>
      hline c hc (List.mem_cons.mpr (.inl (List.mem_singleton.mp hmem)))
    have hrest := atMark_lines lines (atMark_cons (List.mem_singleton_self '\n')
      (hyphens ++ '\n' :: body))
    have hopen : ¬ closesHere ('\n' :: (line ++ (lines.flatMap ('\n' :: ·) ++
        '\n' :: (hyphens ++ '\n' :: body)))) = true :=
      fun hcloses => hfence (isFence_of_closesHere hfeed hrest hcloses)
    rw [List.flatMap_cons, List.cons_append, List.cons_append, List.append_assoc, untilClosed?,
      if_neg hopen, untilClosed?_line hline, ih hlines]
    rfl

/-- A row of lines among which there is no fence goes on to the end of the text. -/
theorem untilClosed?_lines_none (hlines : ∀ line ∈ lines, Unmarked ['\n'] line ∧ ¬ IsFence line) :
    untilClosed? (lines.flatMap ('\n' :: ·)) = none := by
  induction lines with
  | nil => rfl
  | cons line lines ih =>
    obtain ⟨⟨hline, hfence⟩, hlines⟩ := List.forall_mem_cons.mp hlines
    have hrest : AtMark ['\n'] (lines.flatMap ('\n' :: ·)) := by
      rw [← List.append_nil (lines.flatMap _)]
      exact atMark_lines lines nofun
    have hopen : ¬ closesHere ('\n' :: (line ++ lines.flatMap ('\n' :: ·))) = true :=
      fun hcloses => hfence (isFence_of_closesHere hline hrest hcloses)
    rw [List.flatMap_cons, List.cons_append, untilClosed?, if_neg hopen,
      untilClosed?_line_none hline hrest (ih hlines)]
    rfl

theorem joinChars_lines : Text.joinChars ['\n'] (first :: lines) =
    first ++ lines.flatMap ('\n' :: ·) :=
  (List.cons.inj (Text.joinChars_cons '\n' first lines)).2

/-- The block consists of its first line, whatever that is, and the lines up to the first fence
behind it. -/
theorem block?_fenced (hfirst : Unmarked ['\n', '\r'] first)
    (hlines : ∀ line ∈ lines, Unmarked ['\n', '\r'] line ∧ ¬ IsFence line) :
    block? (fenced (first :: lines) body) = some (Text.joinChars ['\n'] (first :: lines)) := by
  have htext : fenced (first :: lines) body = hyphens ++ '\n' :: (first ++
      (lines.flatMap ('\n' :: ·) ++ '\n' :: (hyphens ++ '\n' :: body))) := by
    have hfeeds := lineFeed_unlines lines
    simp only [fenced, unlines, List.flatMap_cons, List.flatMap_nil] at hfeeds ⊢
    simp [hfeeds]
  have hopen : block? (fenced (first :: lines) body) = untilClosed? (first ++
      (lines.flatMap ('\n' :: ·) ++ '\n' :: (hyphens ++ '\n' :: body))) := by
    rw [htext]
    rfl
  rw [hopen, untilClosed?_line hfirst, untilClosed?_lines body hlines, joinChars_lines]
  rfl

/-- Behind two fences with nothing between them there is no block without another fence. -/
theorem block?_unclosed (hlines : ∀ line ∈ lines, Unmarked ['\n'] line ∧ ¬ IsFence line) :
    block? (fenced [] (Text.joinChars ['\n'] lines)) = none := by
  have hopen (body : List Char) :
      block? (fenced [] body) = untilClosed? (hyphens ++ '\n' :: body) := rfl
  have hbehind : untilClosed? ('\n' :: Text.joinChars ['\n'] lines) = none := by
    cases lines with
    | nil => rfl
    | cons line lines =>
      rw [Text.joinChars_cons]
      exact untilClosed?_lines_none hlines
  rw [hopen, untilClosed?_line (by decide), hbehind]
  rfl

end Blocks

/-! ## What a block gives -/

/-- What the lines of a block give: no properties if they are blank, else what their YAML gives. -/
def ofLines (lines : List (List Char)) : Except Fault (Except FrontMatterError Entries) :=
  if ∀ line ∈ lines, line.all Text.isBlank = true then .ok (.ok [])
  else ofBlock (String.ofList (Text.joinChars ['\n'] lines))

theorem all_isBlank_joinChars (lines : List (List Char)) :
    (Text.joinChars ['\n'] lines).all Text.isBlank = true ↔
      ∀ line ∈ lines, line.all Text.isBlank = true := by
  cases lines with
  | nil => exact iff_of_true rfl nofun
  | cons first lines =>
    have hfeed : Text.isBlank '\n' = true := by decide
    rw [joinChars_lines]
    simp [hfeed, List.all_append, List.all_flatMap]

theorem read_of_block? {raw : List Char} {lines : List (List Char)}
    (h : block? raw = some (Text.joinChars ['\n'] lines)) :
    read (String.ofList raw) = ofLines lines := by
  simp only [read, String.toList_ofList, h, all_isBlank_joinChars, ofLines]

/-- The front matter is read from the lines between two fences, and from nothing else, if there are
such lines.  If there are none, then what stands behind the second fence is taken for front matter
up to the next one, together with the second fence; without a next one there is no front matter. -/
theorem read_fenced {lines : List (List Char)}
    (hlines : ∀ line ∈ lines, Unmarked ['\n', '\r'] line ∧ ¬ IsFence line) (body : List Char) :
    (lines ≠ [] → read (String.ofList (fenced lines body)) = ofLines lines) ∧
      read (String.ofList (fenced [] (unlines lines ++ unlines [hyphens] ++ body))) =
        ofLines (hyphens :: lines) ∧
      ∀ others : List (List Char), (∀ line ∈ others, Unmarked ['\n'] line ∧ ¬ IsFence line) →
        read (String.ofList (fenced [] (Text.joinChars ['\n'] others))) = .ok (.ok []) := by
  refine ⟨fun hne => ?_, ?_, fun others hothers => ?_⟩
  · obtain ⟨first, rest, rfl⟩ := List.exists_cons_of_ne_nil hne
    obtain ⟨hfirst, hrest⟩ := List.forall_mem_cons.mp hlines
    exact read_of_block? (block?_fenced body hfirst.1 hrest)
  · have htext : fenced [] (unlines lines ++ unlines [hyphens] ++ body) =
        fenced (hyphens :: lines) body := by
      simp [fenced, unlines]
    rw [htext]
    exact read_of_block? (block?_fenced body (by decide) hlines)
  · simp only [read, String.toList_ofList, block?_unclosed hothers]

/-- What a test of the properties shows. -/
theorem eq_property_of_test {x : Except Fault (Except FrontMatterError Entries)} {key : String}
    {n : Int} (h : (match x with
      | .ok (.ok [(.string k, .number (.int m))]) => decide (k = key ∧ m = n)
      | _ => false) = true) : x = .ok (.ok [(.string key, .int n)]) := by
  split at h
  · next k m =>
    obtain ⟨rfl, rfl⟩ := of_decide_eq_true h
    rfl
  · cases h

/-- A rule in the body is not front matter, and hyphens within a line are no fence. -/
theorem read_fenced_rule :
    read (String.ofList (fenced ["a: 1".toList, "# ---".toList] "b\n---\nc: 2\n---\n".toList)) =
      .ok (.ok [(.string "a", .int 1)]) := by
  have hlines : ∀ line ∈ ["a: 1".toList, "# ---".toList],
      Unmarked ['\n', '\r'] line ∧ ¬ IsFence line := by
    refine List.forall_mem_cons.mpr ⟨⟨by decide +kernel, ?_⟩,
      List.forall_mem_singleton.mpr ⟨by decide +kernel, ?_⟩⟩
    · rintro ⟨gap, ending, h, -⟩
      cases h
    · rintro ⟨gap, ending, h, -⟩
      cases h
  exact ((read_fenced hlines _).1 (List.cons_ne_nil _ _)).trans
    (eq_property_of_test (by decide +kernel))

/-- An empty block takes the front of the body for front matter, where there is a rule in it. -/
theorem emptyBlock_goes_on :
    read (String.ofList (fenced [] "x: 1\n---\n".toList)) = .ok (.ok [(.string "x", .int 1)]) ∧
      read (String.ofList (fenced [] [])) = .ok (.ok []) :=
  ⟨eq_property_of_test (by decide +kernel), rfl⟩

end NoteQuery.FrontMatter
