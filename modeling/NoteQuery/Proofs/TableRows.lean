/-
Tables of Markdown can be read back.

A reader of a line drops the bars at its ends, cuts it at every bar before which no backslash
stands, leaves out one blank at each side of a cell, and takes a bar behind a backslash for a bar
(`Table.readRow`).

Writing puts a backslash before every bar within a cell, so that no such bar is an end of the cell,
and a blank behind the cell, so that no backslash in it reaches the bar that is one
(`Table.splitBars_padded`).  Backslashes are not escaped, but none of them can come to stand before
a bare bar, since none is left (`Table.unescape_escaped`).  Every row is therefore read from its
line as it was shown, with blanks for line feeds (`Result.read_table`), if there is a table: what
leads back to itself cannot be shown in one (`Run.no_table_of_linkBack`).
-/
import NoteQuery.Proofs.PathEquality
import NoteQuery.Proofs.Records

namespace NoteQuery

namespace Table

/-! ## Reading -/

/-- The characters without the first of them if it is the given one. -/
def dropOne (c : Char) : List Char → List Char
  | [] => []
  | d :: ds => if d = c then ds else d :: ds

/-- The characters without the given one at each end, where it stands there. -/
def trimOne (c : Char) (cs : List Char) : List Char :=
  (dropOne c (dropOne c cs).reverse).reverse

/-- The pieces between the bars before which no backslash stands. -/
def splitBars : (escaped : Bool) → List Char → List (List Char)
  | _, [] => [[]]
  | escaped, c :: cs =>
    if c = '|' && !escaped then [] :: splitBars false cs
    else Text.consFirst c (splitBars (c = '\\') cs)

/-- What a cell holds. -/
def readCell (cs : List Char) : String :=
  String.ofList (Text.replaceChars ['\\', '|'] ['|'] (trimOne ' ' cs))

/-- The cells of a line. -/
def readRow (cs : List Char) : List String :=
  (splitBars false (trimOne '|' cs)).map readCell

example : readRow "| a\\|b |  \\ ||".toList = ["a|b", " \\", ""] := by decide

/-! ## Cells -/

/-- The text on one line, with blanks for line feeds. -/
def flat (s : String) : String :=
  Text.replace "\n" " " s

/-- A bar gets a backslash. -/
def escapeBar (c : Char) : List Char :=
  if c = '|' then ['\\', '|'] else [c]

/-- The characters of a cell with the blanks around them. -/
def padded (s : String) : List Char :=
  ' ' :: ((flat s).toList.flatMap escapeBar ++ [' '])

section Cells

variable {cs rest : List Char} {c : Char}

theorem replaceChars_singleton (c : Char) (new cs : List Char) :
    Text.replaceChars [c] new cs = cs.flatMap fun d => if d = c then new else [d] := by
  show Text.replaceFrom [c] new 0 cs = _
  induction cs with
  | nil => rfl
  | cons d ds ih =>
    rw [Text.replaceFrom, List.flatMap_cons, ← ih]
    by_cases h : d = c
    · simp [h]
    · simp [h, Ne.symm h]

theorem toList_flat (s : String) :
    (flat s).toList = s.toList.flatMap fun c => if c = '\n' then [' '] else [c] := by
  rw [flat, Text.replace, String.toList_ofList]
  exact replaceChars_singleton '\n' [' '] s.toList

theorem lineFeed_not_mem_flat (s : String) : '\n' ∉ (flat s).toList := by
  rw [toList_flat, List.mem_flatMap]
  rintro ⟨c, -, hc⟩
  split at hc
  · simp at hc
  · next h => exact h (List.mem_singleton.mp hc).symm

/-- It does not matter whether bars are escaped or line feeds are replaced first. -/
theorem toList_cell (s : String) : (cell s).toList = (flat s).toList.flatMap escapeBar := by
  have hbars : (Text.replace "|" "\\|" s).toList = s.toList.flatMap escapeBar := by
    rw [Text.replace, String.toList_ofList]
    exact replaceChars_singleton '|' ['\\', '|'] s.toList
  rw [cell, ← flat, toList_flat, toList_flat, hbars, List.flatMap_assoc, List.flatMap_assoc]
  congr 1
  funext c
  unfold escapeBar
  by_cases hbar : c = '|'
  · subst hbar
    rfl
  · by_cases hfeed : c = '\n'
    · subst hfeed
      rfl
    · simp [hbar, hfeed]

/-- A bare bar is never the first of escaped characters. -/
theorem isPrefixOf_escaped (cs : List Char) :
    ['\\', '|'].isPrefixOf ('\\' :: cs.flatMap escapeBar) = false := by
  cases cs with
  | nil => rfl
  | cons c cs =>
    rw [List.flatMap_cons, escapeBar]
    split
    · rfl
    · next h => simp [List.isPrefixOf, Ne.symm h]

/-- Reading bars behind backslashes as bars takes back their escapes, and nothing else. -/
theorem unescape_escaped (cs : List Char) :
    Text.replaceChars ['\\', '|'] ['|'] (cs.flatMap escapeBar) = cs := by
  show Text.replaceFrom ['\\', '|'] ['|'] 0 (cs.flatMap escapeBar) = cs
  induction cs with
  | nil => rfl
  | cons c cs ih =>
    rw [List.flatMap_cons]
    by_cases hbar : c = '|'
    · subst hbar
      exact congrArg ('|' :: ·) ih
    · have hfirst : ['\\', '|'].isPrefixOf (c :: cs.flatMap escapeBar) = false := by
        by_cases hc : c = '\\'
        · rw [hc]
          exact isPrefixOf_escaped cs
        · simp [List.isPrefixOf, Ne.symm hc]
      rw [escapeBar, if_neg hbar, List.singleton_append, Text.replaceFrom, hfirst,
        if_neg Bool.false_ne_true, ih]

theorem trimOne_enclosed (c : Char) (cs : List Char) : trimOne c (c :: (cs ++ [c])) = cs := by
  simp [trimOne, dropOne]

/-- A cell holds the text that was put into it. -/
theorem readCell_padded (s : String) : readCell (padded s) = flat s := by
  rw [readCell, padded, trimOne_enclosed, unescape_escaped, String.ofList_toList]

/-! ## Lines -/

theorem foldr_consFirst (piece next : List Char) (pieces : List (List Char)) :
    piece.foldr Text.consFirst (next :: pieces) = (piece ++ next) :: pieces := by
  induction piece with
  | nil => rfl
  | cons c piece ih =>
    rw [List.foldr_cons, ih]
    rfl

theorem splitBars_cons {escaped : Bool} (h : c ≠ '|') :
    splitBars escaped (c :: cs) = Text.consFirst c (splitBars (c = '\\') cs) := by
  rw [splitBars, if_neg (by simp [h])]

/-- Whatever stands before escaped characters, none of their bars ends a piece; and the blank
behind them keeps a backslash from the bar that follows. -/
theorem splitBars_escaped (escaped : Bool) (cs rest : List Char) :
    splitBars escaped (cs.flatMap escapeBar ++ ' ' :: rest) =
      (cs.flatMap escapeBar ++ [' ']).foldr Text.consFirst (splitBars false rest) := by
  induction cs generalizing escaped with
  | nil => exact splitBars_cons (by decide)
  | cons c cs ih =>
    rw [List.flatMap_cons, escapeBar]
    split
    · rw [List.cons_append, List.cons_append, splitBars_cons (by decide), List.cons_append]
      exact congrArg (fun pieces => Text.consFirst '\\' (Text.consFirst '|' pieces)) (ih false)
    · next h =>
      rw [List.singleton_append, List.cons_append, splitBars_cons h, ih]
      rfl

theorem splitBars_padded (s : String) (rest : List Char) :
    splitBars false (padded s ++ rest) =
      (padded s).foldr Text.consFirst (splitBars false rest) := by
  rw [padded, List.cons_append, splitBars_cons (by decide), List.append_assoc,
    List.singleton_append, splitBars_escaped]
  rfl

/-- Cells with bars between them are cut into these cells. -/
theorem splitBars_cells (s : String) (cells : List String) :
    splitBars false (['|'].intercalate ((s :: cells).map padded)) = (s :: cells).map padded := by
  induction cells generalizing s with
  | nil =>
    have hsplit := splitBars_padded s []
    rw [List.append_nil, splitBars, foldr_consFirst, List.append_nil] at hsplit
    rw [List.map_singleton, List.intercalate_singleton, hsplit]
  | cons t cells ih =>
    rw [List.map_cons, List.map_cons, List.intercalate_cons_cons, ← List.map_cons,
      List.append_assoc, splitBars_padded, List.singleton_append]
    show (padded s).foldr Text.consFirst ([] :: splitBars false _) = _
    rw [foldr_consFirst, List.append_nil, ih]

/-- A line of cells without its end. -/
def rowChars (cells : List String) : List Char :=
  '|' :: (['|'].intercalate (cells.map padded) ++ ['|'])

/-- The cells of a line are read as they were written. -/
theorem readRow_rowChars {cells : List String} (h : cells ≠ []) :
    readRow (rowChars cells) = cells.map flat := by
  obtain ⟨s, more, rfl⟩ := List.exists_cons_of_ne_nil h
  rw [readRow, rowChars, trimOne_enclosed, splitBars_cells, List.map_map]
  exact List.map_congr_left fun t _ => readCell_padded t

/-- The blanks between cells belong to the cells. -/
theorem intercalate_padded (s : String) (cells : List String) :
    ' ' :: ([' ', '|', ' '].intercalate (((s :: cells).map cell).map String.toList) ++ [' ']) =
      ['|'].intercalate ((s :: cells).map padded) := by
  induction cells generalizing s with
  | nil => simp [padded, toList_cell]
  | cons t cells ih =>
    simp only [List.map_cons, List.intercalate_cons_cons] at ih ⊢
    rw [← ih t, padded, toList_cell]
    simp only [List.append_assoc, List.cons_append, List.nil_append]

theorem toList_line {cells : List String} (h : cells ≠ []) :
    (line (cells.map cell)).toList = rowChars cells ++ ['\n'] := by
  obtain ⟨s, more, rfl⟩ := List.exists_cons_of_ne_nil h
  rw [line, String.toList_append, String.toList_append, Text.join, String.toList_intercalate,
    rowChars, ← intercalate_padded]
  simp

theorem lineFeed_not_mem_padded (s : String) : '\n' ∉ padded s := by
  have hescaped : '\n' ∉ (flat s).toList.flatMap escapeBar := by
    rw [List.mem_flatMap]
    rintro ⟨c, hc, hfeed⟩
    unfold escapeBar at hfeed
    split at hfeed
    · simp at hfeed
    · exact lineFeed_not_mem_flat s (List.mem_singleton.mp hfeed ▸ hc)
  simp [padded, hescaped]

theorem lineFeed_not_mem_rowChars (cells : List String) : '\n' ∉ rowChars cells := by
  have hcells : '\n' ∉ ['|'].intercalate (cells.map padded) := by
    induction cells with
    | nil => simp
    | cons s cells ih =>
      cases cells with
      | nil => simpa using lineFeed_not_mem_padded s
      | cons t cells =>
        simp only [List.map_cons, List.intercalate_cons_cons] at ih ⊢
        simp [ih, lineFeed_not_mem_padded s]
  simp [rowChars, hcells]

/-! ## Tables -/

/-- Without anything between them, pieces are put one behind the other. -/
theorem intercalate_nothing (pieces : List (List Char)) :
    [].intercalate pieces = pieces.flatten := by
  induction pieces with
  | nil => rfl
  | cons piece pieces ih =>
    cases pieces with
    | nil => simp
    | cons next pieces => rw [List.intercalate_cons_cons, ih, List.append_nil, ← List.flatten_cons]

/-- Ends behind lines are separators before an empty last one. -/
theorem intercalate_lineFeed (rows : List (List Char)) :
    ['\n'].intercalate (rows ++ [[]]) = rows.flatMap (· ++ ['\n']) := by
  induction rows with
  | nil => rfl
  | cons row rows ih =>
    obtain ⟨next, more, hmore⟩ := List.exists_cons_of_ne_nil
      (show rows ++ [[]] ≠ [] by simp)
    rw [List.cons_append, hmore, List.intercalate_cons_cons, ← hmore, ih, List.flatMap_cons]

/-- The lines of a table are the heading, a rule and the rows, and behind the end of the last line
stands nothing. -/
theorem splitOn_write {heading : List String} {rows : List (List String)} (h : heading ≠ [])
    (hrows : ∀ row ∈ rows, row ≠ []) :
    (write heading rows).toList.splitOn '\n' =
      (heading :: (heading.map fun _ => "---") :: rows).map rowChars ++ [[]] := by
  obtain ⟨table, htable⟩ :
      ∃ table, table = heading :: (heading.map fun _ => "---") :: rows := ⟨_, rfl⟩
  have hcells : ∀ row ∈ table, row ≠ [] := by
    rw [htable]
    refine List.forall_mem_cons.mpr ⟨h, List.forall_mem_cons.mpr ⟨?_, hrows⟩⟩
    exact fun hnil => h (List.map_eq_nil_iff.mp hnil)
  have hwrite : write heading rows = Text.join "" (table.map fun row => line (row.map cell)) := by
    have hrule : cell "---" = "---" := rfl
    simp only [write, htable, List.map_cons, List.map_map, Function.comp_def, hrule]
  have hchars : (write heading rows).toList = (table.map rowChars).flatMap (· ++ ['\n']) := by
    have hlines : table.map (String.toList ∘ fun row => line (row.map cell)) =
        table.map fun row => rowChars row ++ ['\n'] :=
      List.map_congr_left fun row hrow => toList_line (hcells row hrow)
    rw [hwrite, Text.join, String.toList_intercalate, List.map_map, hlines, List.flatMap_map,
      String.toList_empty, intercalate_nothing, List.flatMap_def]
  rw [hchars, ← intercalate_lineFeed, ← htable]
  refine List.splitOn_intercalate '\n' (fun chars hchars => ?_) (by simp)
  rcases List.mem_append.mp hchars with hrow | hlast
  · obtain ⟨row, -, rfl⟩ := List.mem_map.mp hrow
    exact lineFeed_not_mem_rowChars row
  · rw [List.mem_singleton.mp hlast]
    exact List.not_mem_nil

end Cells

end Table

/-! ## Results -/

namespace Result

open Table (flat readRow rowChars)

variable {r : Result}

/-- A column or a cell that cannot be shown: an integer too long to be written, or a value that
leads back to itself. -/
def Unshown (r : Result) : Prop :=
  (∃ column ∈ r.columns, ∃ f, column.display = .error f) ∨
    ∃ row ∈ r.rows, ∃ column ∈ r.columns, ∃ f, (cellOf row column).display = .error f

theorem unshown_iff : r.Unshown ↔ ∃ f, r.encode .markdown = .error f := by
  rw [Unshown, ← exists_mapM_eq_error, ← exists_shownRows_eq_error, encode]
  simp only [bind_eq_error]
  constructor
  · rintro (⟨f, hf⟩ | ⟨f, hf⟩)
    · exact ⟨f, .inl hf⟩
    · cases hheading : r.columns.mapM Value.display with
      | error g => exact ⟨g, .inl rfl⟩
      | ok heading => exact ⟨f, .inr ⟨heading, rfl, .inl hf⟩⟩
  · rintro ⟨f, hf | ⟨heading, -, hf | ⟨records, -, hf⟩⟩⟩
    · exact .inl ⟨f, hf⟩
    · exact .inr ⟨f, hf⟩
    · cases hf

/-- The table of a result is missing only where a column or a cell cannot be shown.  Otherwise it
consists of a line for the heading, a rule and a line for each row, and from them are read the names
of the columns, dashes, and what the cells of each row show, with blanks for line feeds. -/
theorem read_table (h : r.columns ≠ []) :
    (r.Unshown ↔ ∃ f, r.encode .markdown = .error f) ∧
    ∀ text, r.encode .markdown = .ok text → ∃ lines heading records,
      text.toList.splitOn '\n' = lines ++ [[]] ∧ (∀ line ∈ lines, line ≠ []) ∧
      lines.length = 2 + r.rows.length ∧
      lines.map readRow =
        heading.map flat :: (r.columns.map fun _ => "---") :: records.map (·.map flat) ∧
      List.Forall₂ (fun column name => column.display = .ok name) r.columns heading ∧
      (∀ names : List String, r.columns = names.map Value.string → heading = names) ∧
      List.Forall₂ (Shows r.columns) r.rows records := by
  refine ⟨unshown_iff, fun text htext => ?_⟩
  obtain ⟨heading, hheading, htext⟩ := bind_eq_ok.mp htext
  obtain ⟨records, hrecords, htext⟩ := bind_eq_ok.mp htext
  cases htext
  have hnames := mapM_eq_ok.mp hheading
  have hshown := shownRows_eq_ok.mp hrecords
  have hheading : heading ≠ [] := by
    rintro rfl
    exact h (List.forall₂_nil_right_iff.mp hnames)
  have hcells : ∀ record ∈ records, record ≠ [] := by
    rintro record hrecord rfl
    obtain ⟨row, -, hrow⟩ := exists_of_mem_left hshown.flip hrecord
    exact h (List.forall₂_nil_right_iff.mp hrow)
  have hrule : (heading.map fun _ => "---").map flat = r.columns.map fun _ => "---" := by
    have hflat : flat "---" = "---" := rfl
    rw [List.map_map, Function.comp_def, hflat, List.map_const', List.map_const', hnames.length_eq]
  have hread : ∀ row ∈ heading :: (heading.map fun _ => "---") :: records,
      readRow (rowChars row) = row.map flat := by
    refine List.forall_mem_cons.mpr ⟨Table.readRow_rowChars hheading,
      List.forall_mem_cons.mpr ⟨Table.readRow_rowChars ?_, fun record hrecord => ?_⟩⟩
    · exact fun hnil => hheading (List.map_eq_nil_iff.mp hnil)
    · exact Table.readRow_rowChars (hcells record hrecord)
  refine ⟨_, heading, records, Table.splitOn_write hheading hcells, ?_, ?_, ?_, hnames, ?_, hshown⟩
  · exact List.forall_mem_map.mpr fun row _ => List.cons_ne_nil _ _
  · rw [List.length_map, List.length_cons, List.length_cons, ← hshown.length_eq]
    omega
  · rw [List.map_map, Function.comp_def, List.map_congr_left hread, List.map_cons, List.map_cons,
      hrule]
  · rintro names hcolumns
    rw [hcolumns, List.forall₂_map_left_iff] at hnames
    have hsame : List.Forall₂ (fun n m => n = m) names heading :=
      hnames.imp fun name text htext => Except.ok.inj htext
    exact (List.forall₂_eq_eq_eq ▸ hsame).symm

/-- Bars, a backslash before one of them and one at the end, blanks, and a line feed. -/
theorem read_table_barred :
    let r := pairOf "a|b" "c" (.string " \\|\n\\") (.string "| ")
    r.columns ≠ [] ∧ ∃ text lines, r.encode .markdown = .ok text ∧
      text.toList.splitOn '\n' = lines ++ [[]] ∧ lines.length = 3 ∧
      lines.map readRow = [["a|b", "c"], ["---", "---"], [" \\| \\", "| "]] := by
  intro r
  have hcolumns : r.columns ≠ [] := nofun
  obtain ⟨-, hread⟩ := read_table hcolumns
  obtain ⟨lines, heading, records, hlines, -, hlength, hcells, -, hheading, hshown⟩ := hread _ rfl
  obtain ⟨record, _, hrecord, hnone, rfl⟩ := List.forall₂_cons_left_iff.mp hshown
  obtain ⟨first, _, hfirst, hrest, rfl⟩ := List.forall₂_cons_left_iff.mp hrecord
  obtain ⟨second, _, hsecond, hend, rfl⟩ := List.forall₂_cons_left_iff.mp hrest
  cases hnone
  cases hend
  obtain rfl : " \\|\n\\" = first := Except.ok.inj hfirst
  obtain rfl : "| " = second := Except.ok.inj hsecond
  refine ⟨hcolumns, _, lines, rfl, hlines, hlength, ?_⟩
  rw [hcells, hheading ["a|b", "c"] rfl]
  rfl

end Result

namespace Run

/-- A link that displays the mapping of formulas. -/
def linkBack : Expr :=
  .call (.name "link") [.literal (.string "p") "\"p\"", .name "formula"]

/-- A formula that is such a link is put into the mapping that the link displays, and then the
mapping can neither be shown in a table nor in records. -/
theorem no_table_of_linkBack :
    let r := showingFormulas "link(\"p\", formula)" linkBack
    PreparedQuery.ofSpec r.query.spec true = .ok r.query ∧
      ∃ res, r.result none = .ok res ∧ res.columns ≠ [] ∧
        res.encode .markdown = .error .selfContaining ∧
        res.encode .csv = .error .selfContaining := by
  have hparse : Expr.parse "link(\"p\", formula)" = .ok linkBack := by decide +kernel
  exact ⟨ofSpec_showingFormulas (by decide) hparse, _,
    result_showingFormulas (Expr.eval_link Expr.builtin_link rfl rfl), List.cons_ne_nil _ _, rfl,
    rfl⟩

end Run

end NoteQuery
