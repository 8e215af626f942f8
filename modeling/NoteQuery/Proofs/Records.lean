/-
Comma-separated records can be read back.

The reader goes through a text once, character by character (`readFrom`).  Between quotes a quote
that is written twice is one, and everything else stands for itself; elsewhere a comma ends a field,
and a line feed, a return, or both ends a record.  A line with nothing on it is a record without
fields.

Writing quotes a field in which a comma, a quote or a line feed stands, so none of these is taken
for an end of it (`readFrom_field`), and a record of one empty field is told from a record without
fields by its quotes.  A return is left bare if there is no other reason for quotes, and it ends the
record too early (`readFrom_bareReturn`).  What a result shows as records is therefore read from its
text exactly if no field has such a return (`read_encode`).
-/
import NoteQuery.Proofs.Encoding
import Mathlib.Data.List.Forall2

namespace NoteQuery

namespace Csv

/-! ## Reading -/

/-- Where reading stands: before a record, there but behind a return that a line feed may still
belong to, before a field, in a field without quotes, between quotes, or behind a quote that may
close them. -/
inductive Place where
  | record | behindReturn | field | plain | quoted | closing
deriving DecidableEq

namespace Place

/-- No field has begun, and none need. -/
def isBetween : Place → Bool
  | record | behindReturn => true
  | _ => false

/-- A quote opens a field here. -/
def opensQuotes : Place → Bool
  | record | behindReturn | field => true
  | _ => false

end Place

/-- The record that ends at the place, with the fields before the last and the characters of it. -/
def finished (place : Place) (fields : List String) (chars : List Char) : List String :=
  if place.isBetween then [] else fields ++ [String.ofList chars]

/-- The records of a text from a place within it. -/
def readFrom : Place → List String → List Char → List Char → List (List String)
  | place, fields, chars, [] => if place.isBetween then [] else [finished place fields chars]
  | .quoted, fields, chars, c :: cs =>
    if c = '"' then readFrom .closing fields chars cs
    else readFrom .quoted fields (chars ++ [c]) cs
  | place, fields, chars, c :: cs =>
    if c = '"' && place.opensQuotes then readFrom .quoted fields [] cs
    else if c = '"' && place = .closing then readFrom .quoted fields (chars ++ [c]) cs
    else if c = ',' then readFrom .field (fields ++ [String.ofList chars]) [] cs
    else if c = '\n' && place = .behindReturn then readFrom .record [] [] cs
    else if c = '\n' then finished place fields chars :: readFrom .record [] [] cs
    else if c = '\r' then finished place fields chars :: readFrom .behindReturn [] [] cs
    else readFrom .plain fields (chars ++ [c]) cs

/-- The records of a text. -/
def read (text : String) : List (List String) :=
  readFrom .record [] [] text.toList

example : read "a,\"b\"\"c\n\"\r\n\r\"\"\nd," = [["a", "b\"c\n"], [], [""], ["d", ""]] := by decide

/-! ## Fields -/

section Fields

variable {place : Place} {fields : List String} {chars cs rest : List Char}

/-- A comma ends a field, unless it stands between quotes. -/
theorem readFrom_comma (h : place ≠ .quoted) : readFrom place fields chars (',' :: rest) =
    readFrom .field (fields ++ [String.ofList chars]) [] rest := by
  cases place <;> first | exact absurd rfl h | rfl

/-- A line feed ends a record, unless it stands between quotes or belongs to a return. -/
theorem readFrom_lineFeed (h : place ≠ .quoted) (h' : place ≠ .behindReturn) :
    readFrom place fields chars ('\n' :: rest) =
      finished place fields chars :: readFrom .record [] [] rest := by
  cases place <;> first | exact absurd rfl h | exact absurd rfl h' | rfl

/-- A return ends a record, unless it stands between quotes. -/
theorem readFrom_return (h : place ≠ .quoted) : readFrom place fields chars ('\r' :: rest) =
    finished place fields chars :: readFrom .behindReturn [] [] rest := by
  cases place <;> first | exact absurd rfl h | rfl

/-- A character that needs no quotes stands for itself, but for a return. -/
theorem readFrom_cons {c : Char} (h : place ≠ .quoted) (hc : needsQuotes c = false)
    (hreturn : c ≠ '\r') :
    readFrom place fields chars (c :: rest) = readFrom .plain fields (chars ++ [c]) rest := by
  simp only [needsQuotes, Bool.or_eq_false_iff, beq_eq_false_iff_ne] at hc
  obtain ⟨⟨hcomma, hquote⟩, hfeed⟩ := hc
  cases place <;> first
    | exact absurd rfl h
    | simp only [readFrom, hcomma, hquote, hfeed, hreturn, decide_false, Bool.false_and,
        Bool.false_eq_true, ↓reduceIte]

theorem readFrom_plain (hcs : cs.any needsQuotes = false) (hreturn : '\r' ∉ cs) :
    readFrom .plain fields chars (cs ++ rest) = readFrom .plain fields (chars ++ cs) rest := by
  induction cs generalizing chars with
  | nil => rw [List.append_nil, List.nil_append]
  | cons c cs ih =>
    rw [List.any_cons, Bool.or_eq_false_iff] at hcs
    rw [List.mem_cons, not_or] at hreturn
    rw [List.cons_append, readFrom_cons (by decide) hcs.1 (Ne.symm hreturn.1),
      ih hcs.2 hreturn.2, List.append_assoc, List.singleton_append]

/-- Characters that need no quotes leave themselves behind; without any, the reader has not
moved. -/
theorem readFrom_bare (hplace : place = .record ∨ place = .field)
    (hcs : cs.any needsQuotes = false) (hreturn : '\r' ∉ cs) :
    ∃ place', place' ≠ .quoted ∧ place' ≠ .behindReturn ∧
      (place'.isBetween = true → cs = [] ∧ place = .record) ∧
      readFrom place fields [] (cs ++ rest) = readFrom place' fields cs rest := by
  have hquoted : place ≠ .quoted := by rcases hplace with rfl | rfl <;> decide
  cases cs with
  | nil =>
    refine ⟨place, hquoted, ?_, fun hbetween => ⟨rfl, ?_⟩, rfl⟩
    · rcases hplace with rfl | rfl <;> decide
    · exact hplace.resolve_right fun h => by rw [h] at hbetween; cases hbetween
  | cons c cs =>
    rw [List.any_cons, Bool.or_eq_false_iff] at hcs
    rw [List.mem_cons, not_or] at hreturn
    refine ⟨.plain, by decide, by decide, nofun, ?_⟩
    rw [List.cons_append, readFrom_cons hquoted hcs.1 (Ne.symm hreturn.1),
      readFrom_plain hcs.2 hreturn.2]
    rfl

/-- What is quoted is read up to its closing quote. -/
theorem readFrom_doubled (cs : List Char) :
    readFrom .quoted fields chars (doubled cs ++ '"' :: rest) =
      readFrom .closing fields (chars ++ cs) rest := by
  induction cs generalizing chars with
  | nil =>
    rw [List.append_nil]
    rfl
  | cons c cs ih =>
    have happend : chars ++ c :: cs = chars ++ [c] ++ cs := by
      rw [List.append_assoc, List.singleton_append]
    rw [happend, ← ih, doubled]
    split
    · next hc =>
      -- the first of two quotes may close the field, the second shows that it does not
      subst hc
      rfl
    · next hc =>
      rw [List.cons_append, readFrom, if_neg hc]

/-- There is a return in the text, and nothing for which the field would be quoted. -/
def BareReturn (s : String) : Prop :=
  '\r' ∈ s.toList ∧ s.toList.any needsQuotes = false

/-- A field that is read leaves its characters behind; without any, the reader has not moved. -/
theorem readFrom_field (fields : List String) (rest : List Char) {s : String}
    (hs : ¬ BareReturn s) (hplace : place = .record ∨ place = .field) :
    ∃ place', place' ≠ .quoted ∧ place' ≠ .behindReturn ∧
      (place'.isBetween = true → s = "" ∧ place = .record) ∧
      readFrom place fields [] (field s ++ rest) = readFrom place' fields s.toList rest := by
  rw [field]
  split
  · refine ⟨.closing, by decide, by decide, nofun, ?_⟩
    have hopen (cs : List Char) :
        readFrom place fields [] ('"' :: cs) = readFrom .quoted fields [] cs := by
      rcases hplace with rfl | rfl
      · rfl
      · rfl
    rw [List.cons_append, List.cons_append, List.append_assoc, hopen]
    exact readFrom_doubled s.toList
  · next hplain =>
    have hplain : s.toList.any needsQuotes = false := Bool.eq_false_iff.mpr hplain
    have hreturn : '\r' ∉ s.toList := fun hreturn => hs ⟨hreturn, hplain⟩
    obtain ⟨place', hquoted, hbehind, hbetween, hread⟩ := readFrom_bare hplace hplain hreturn
    refine ⟨place', hquoted, hbehind, fun h => ?_, hread⟩
    exact (hbetween h).imp_left String.toList_eq_nil_iff.mp

/-- A bare return ends the record within its field, so it is not the one that was written. -/
theorem readFrom_bareReturn (fields : List String) (rest : List Char) {s : String}
    (hs : BareReturn s) (hplace : place = .record ∨ place = .field) :
    ∃ first others, readFrom place fields [] (field s ++ rest) = first :: others ∧
      ∀ more, first ≠ fields ++ s :: more := by
  obtain ⟨hreturn, hplain⟩ := hs
  obtain ⟨start, last, hchars, hstart⟩ := List.eq_append_cons_of_mem hreturn
  have hbare : start.any needsQuotes = false := by
    rw [hchars, List.any_append, Bool.or_eq_false_iff] at hplain
    exact hplain.1
  obtain ⟨place', hquoted, -, -, hread⟩ := readFrom_bare hplace hbare hstart
  refine ⟨finished place' fields start, readFrom .behindReturn [] [] (last ++ rest), ?_,
    fun more hsame => ?_⟩
  · rw [field, if_neg (Bool.eq_false_iff.mp hplain), hchars, List.append_assoc, hread,
      List.cons_append, readFrom_return hquoted]
  · unfold finished at hsame
    split at hsame
    · exact List.append_ne_nil_of_right_ne_nil _ (List.cons_ne_nil s more) hsame.symm
    · obtain ⟨hs, -⟩ := List.cons_eq_cons.mp (List.append_cancel_left hsame)
      rw [← hs, String.toList_ofList] at hreturn
      exact hstart hreturn

end Fields

/-! ## Records -/

section Records

variable {rest : List Char}

section Fields

variable {place : Place} {before : List String} {s : String} {more : List String}
  (hplace : place = .record ∨ place = .field)
include hplace

/-- Fields with commas between them, behind others. -/
theorem readFrom_fields (hblank : place = .record → s :: more ≠ [""])
    (hs : ∀ t ∈ s :: more, ¬ BareReturn t) :
    readFrom place before [] (Text.joinChars [','] ((s :: more).map field) ++ '\n' :: rest) =
      (before ++ s :: more) :: readFrom .record [] [] rest := by
  induction more generalizing place before s with
  | nil =>
    obtain ⟨place', hquoted, hreturn, hbetween, hread⟩ :=
      readFrom_field before ('\n' :: rest) (hs s List.mem_cons_self) hplace
    have hplace : ¬ place'.isBetween = true := by
      intro h
      obtain ⟨rfl, hrecord⟩ := hbetween h
      exact hblank hrecord rfl
    rw [List.map_singleton, Text.joinChars, hread, readFrom_lineFeed hquoted hreturn, finished,
      if_neg hplace, String.ofList_toList]
  | cons t more ih =>
    obtain ⟨hfirst, hrest⟩ := List.forall_mem_cons.mp hs
    obtain ⟨place', hquoted, -, -, hread⟩ :=
      readFrom_field before
        (',' :: (Text.joinChars [','] ((t :: more).map field) ++ '\n' :: rest)) hfirst hplace
    have hfield : Place.field = .record → t :: more ≠ [""] := by
      intro h
      cases h
    rw [List.map_cons, List.map_cons, Text.joinChars, List.append_assoc, List.append_assoc,
      List.singleton_append, ← List.map_cons, hread, readFrom_comma hquoted,
      ih (.inr rfl) hfield hrest, String.ofList_toList, List.append_assoc, List.singleton_append]
    exact List.cons_ne_nil _ _

/-- With a bare return in one of the fields, another record is read. -/
theorem readFrom_fields_ne (hs : ∃ t ∈ s :: more, BareReturn t) :
    ∃ first others,
      readFrom place before [] (Text.joinChars [','] ((s :: more).map field) ++ '\n' :: rest) =
        first :: others ∧ first ≠ before ++ s :: more := by
  induction more generalizing place before s with
  | nil =>
    obtain ⟨t, ht, hreturn⟩ := hs
    obtain rfl := List.mem_singleton.mp ht
    obtain ⟨first, others, hread, hne⟩ := readFrom_bareReturn before ('\n' :: rest) hreturn hplace
    exact ⟨first, others, hread, hne []⟩
  | cons t more ih =>
    have hjoin : Text.joinChars [','] ((s :: t :: more).map field) ++ '\n' :: rest =
        field s ++ ',' :: (Text.joinChars [','] ((t :: more).map field) ++ '\n' :: rest) := by
      rw [List.map_cons, List.map_cons, Text.joinChars, List.append_assoc, List.append_assoc,
        List.singleton_append]
      exact List.cons_ne_nil _ _
    rw [hjoin]
    by_cases hfirst : BareReturn s
    · obtain ⟨first, others, hread, hne⟩ := readFrom_bareReturn before _ hfirst hplace
      exact ⟨first, others, hread, hne (t :: more)⟩
    · obtain ⟨place', hquoted, -, -, hread⟩ := readFrom_field before _ hfirst hplace
      have hrest : ∃ u ∈ t :: more, BareReturn u := by
        obtain ⟨u, hu, hreturn⟩ := hs
        refine ⟨u, (List.mem_cons.mp hu).resolve_left fun h => hfirst (h ▸ hreturn), hreturn⟩
      obtain ⟨first, others, hmore, hne⟩ := @ih _ (before ++ [s]) _ (.inr rfl) hrest
      refine ⟨first, others, ?_, ?_⟩
      · rw [hread, readFrom_comma hquoted, String.ofList_toList, hmore]
      · rwa [List.append_assoc, List.singleton_append] at hne

end Fields

variable {fields : List String}

theorem record_eq (h : fields ≠ [""]) :
    record fields ++ rest = Text.joinChars [','] (fields.map field) ++ '\n' :: rest := by
  unfold record
  dsimp only
  split
  · exact absurd rfl h
  · rw [List.append_assoc, List.singleton_append]

theorem readFrom_record (h : fields ≠ []) (hs : ∀ s ∈ fields, ¬ BareReturn s) :
    readFrom .record [] [] (record fields ++ rest) = fields :: readFrom .record [] [] rest := by
  by_cases hblank : fields = [""]
  · subst hblank
    rfl
  · obtain ⟨s, more, rfl⟩ := List.exists_cons_of_ne_nil h
    rw [record_eq hblank, readFrom_fields (.inl rfl) (fun _ => hblank) hs]
    rfl

theorem readFrom_record_ne (hs : ∃ s ∈ fields, BareReturn s) :
    ∃ first others, readFrom .record [] [] (record fields ++ rest) = first :: others ∧
      first ≠ fields := by
  have hblank : fields ≠ [""] := by
    rintro rfl
    obtain ⟨s, hs, hreturn, -⟩ := hs
    obtain rfl := List.mem_singleton.mp hs
    cases hreturn
  obtain ⟨s, more, rfl⟩ := List.exists_cons_of_ne_nil fun hnil : fields = [] => by
    obtain ⟨s, hs, -⟩ := hs
    exact List.not_mem_nil (hnil ▸ hs)
  rw [record_eq hblank]
  exact readFrom_fields_ne (.inl rfl) hs

/-- Records that have fields are read as they were written, unless there is a bare return. -/
theorem read_write_iff {records : List (List String)} (h : ∀ fields ∈ records, fields ≠ []) :
    read (write records) = records ↔ ∀ fields ∈ records, ∀ s ∈ fields, ¬ BareReturn s := by
  rw [read, write, String.toList_ofList]
  induction records with
  | nil => exact iff_of_true rfl (List.forall_mem_nil _)
  | cons fields records ih =>
    obtain ⟨hfields, hrecords⟩ := List.forall_mem_cons.mp h
    rw [List.flatMap_cons, List.forall_mem_cons]
    by_cases hs : ∀ s ∈ fields, ¬ BareReturn s
    · rw [readFrom_record hfields hs, List.cons_eq_cons, ih hrecords]
      exact and_congr_left' (iff_of_true rfl hs)
    · refine iff_of_false (fun hread => ?_) fun hall => hs hall.1
      obtain ⟨first, others, hfirst, hne⟩ := readFrom_record_ne (by simpa using hs)
      exact hne (List.cons_eq_cons.mp (hfirst.symm.trans hread)).1

end Records

end Csv

/-! ## Results -/

namespace Result

/-- The cell of a row under a column. -/
def cellOf (row : Row) (column : Value) : Value :=
  (row.projected.find? column).getD .null

/-- The record holds what the cells of the row show, column by column. -/
def Shows (columns : List Value) (row : Row) (record : List String) : Prop :=
  List.Forall₂ (fun column text => (cellOf row column).display = .ok text) columns record

/-- A column or a cell that has no text: an integer too long to be written, or a value that leads
back to itself. -/
def Textless (r : Result) : Prop :=
  (∃ column ∈ r.columns, column.isWritable = false) ∨
    ∃ row ∈ r.rows, ∃ column ∈ r.columns, ∃ f, (cellOf row column).display = .error f

variable {r : Result}

theorem shownRows_eq_ok {records : List (List String)} :
    r.shownRows = .ok records ↔ List.Forall₂ (Shows r.columns) r.rows records := by
  simp only [shownRows, mapM_eq_ok]
  rfl

theorem exists_shownRows_eq_error : (∃ f, r.shownRows = .error f) ↔
    ∃ row ∈ r.rows, ∃ column ∈ r.columns, ∃ f, (cellOf row column).display = .error f := by
  simp only [shownRows, exists_mapM_eq_error]
  rfl

theorem checkWritable_columns : (∃ f, (Value.list r.columns).checkWritable = .error f) ↔
    ∃ column ∈ r.columns, column.isWritable = false := by
  rw [Value.checkWritable]
  constructor
  · intro h
    by_contra hall
    have hwritable : (Value.list r.columns).isWritable = true := by
      refine Value.areWritable_iff.mpr fun column hcolumn => ?_
      by_contra hnot
      exact hall ⟨column, hcolumn, Bool.eq_false_iff.mpr hnot⟩
    rw [if_pos hwritable] at h
    obtain ⟨f, hf⟩ := h
    cases hf
  · rintro ⟨column, hcolumn, hnot⟩
    refine ⟨.integerTooLong, if_neg fun hwritable => ?_⟩
    exact Bool.eq_false_iff.mp hnot (Value.areWritable_iff.mp hwritable column hcolumn)

theorem encode_csv : r.encode .csv = (Value.list r.columns).checkWritable >>= fun _ =>
    r.shownRows.map fun records => Csv.write (r.columns.map columnText :: records) := by
  rw [encode]
  cases r.shownRows with
  | error f => rfl
  | ok records => rfl

theorem textless_iff : r.Textless ↔ ∃ f, r.encode .csv = .error f := by
  rw [Textless, ← checkWritable_columns, ← exists_shownRows_eq_error]
  simp only [encode_csv, bind_eq_error, map_eq_error]
  constructor
  · rintro (⟨f, hf⟩ | ⟨f, hf⟩)
    · exact ⟨f, .inl hf⟩
    · cases hcolumns : (Value.list r.columns).checkWritable with
      | error g => exact ⟨g, .inl rfl⟩
      | ok u => exact ⟨f, .inr ⟨u, rfl, hf⟩⟩
  · rintro ⟨f, hf | ⟨-, -, hf⟩⟩
    · exact .inl ⟨f, hf⟩
    · exact .inr ⟨f, hf⟩

/-- The text of a result as records is missing only where a column or a cell has none.  Otherwise
the heading of the columns and then what the cells of each row show are read back from it, exactly
if none of these texts has a bare return. -/
theorem read_encode (h : r.columns ≠ []) :
    (r.Textless ↔ ∃ f, r.encode .csv = .error f) ∧
    ∀ text, r.encode .csv = .ok text → ∃ header records,
      header = r.columns.map columnText ∧
      (∀ names : List String, r.columns = names.map Value.string → header = names) ∧
      List.Forall₂ (Shows r.columns) r.rows records ∧
      (Csv.read text = header :: records ↔
        ∀ record ∈ header :: records, ∀ field ∈ record, ¬ Csv.BareReturn field) := by
  refine ⟨textless_iff, fun text htext => ?_⟩
  rw [encode_csv] at htext
  obtain ⟨-, -, htext⟩ := bind_eq_ok.mp htext
  obtain ⟨records, hrecords, rfl⟩ := map_eq_ok.mp htext
  have hshown := shownRows_eq_ok.mp hrecords
  refine ⟨_, records, rfl, fun names hnames => ?_, hshown, Csv.read_write_iff ?_⟩
  · rw [hnames, List.map_map]
    exact List.map_id names
  · refine List.forall_mem_cons.mpr ⟨fun hnil => h (List.map_eq_nil_iff.mp hnil), ?_⟩
    intro record hrecord hnil
    obtain ⟨row, -, hrow⟩ := exists_of_mem_left hshown.flip hrecord
    rw [hnil] at hrow
    exact h (List.forall₂_nil_right_iff.mp hrow)

/-- One row under two columns. -/
def pairOf (first second : String) (v w : Value) : Result where
  view := "all"
  columns := [.string first, .string second]
  rows := [
    { note := []
      file := { name := "n.md", path := "n.md" }
      formula := []
      projected := [(.string first, v), (.string second, w)] }]
  groups := none
  summaries := none
  stats := ⟨1, 1, none⟩
  diagnostics := ⟨[], []⟩

/-- A quote and a return in one cell, nothing in the other, and a column with a comma. -/
theorem read_encode_awkward :
    let r := pairOf "a,b" "c" (.string "\"\r") .null
    r.columns ≠ [] ∧ ∃ text, r.encode .csv = .ok text ∧
      Csv.read text = [["a,b", "c"], ["\"\r", ""]] := by
  intro r
  have hcolumns : r.columns ≠ [] := nofun
  obtain ⟨-, hread⟩ := read_encode hcolumns
  refine ⟨hcolumns, _, rfl, ?_⟩
  obtain ⟨header, records, -, hheader, hshown, hrecords⟩ := hread _ rfl
  obtain ⟨record, _, hrecord, hnone, rfl⟩ := List.forall₂_cons_left_iff.mp hshown
  obtain ⟨first, _, hfirst, hrest, rfl⟩ := List.forall₂_cons_left_iff.mp hrecord
  obtain ⟨second, _, hsecond, hend, rfl⟩ := List.forall₂_cons_left_iff.mp hrest
  cases hnone
  cases hend
  obtain rfl : "\"\r" = first := Except.ok.inj hfirst
  obtain rfl : "" = second := Except.ok.inj hsecond
  obtain rfl : header = ["a,b", "c"] := hheader ["a,b", "c"] rfl
  refine hrecords.mpr ?_
  simp only [Csv.BareReturn]
  decide

/-- A return between two letters is left bare, and two records are read for the row. -/
theorem read_encode_bareReturn :
    let r := pairOf "x" "y" (.string "a\rb") (.string "c")
    r.encode .csv = .ok "x,y\na\rb,c\n" ∧
      Csv.read "x,y\na\rb,c\n" = [["x", "y"], ["a"], ["b", "c"]] := by
  decide

end Result

end NoteQuery
