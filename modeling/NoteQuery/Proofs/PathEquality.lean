/-
Links beside the texts they are built from.

Paths are compared in normal form without the ending of notes.  A link is put into normal form when
it is built and again when it is compared, a text only when it is compared.  Mostly the second time
changes nothing.  But blanks are trimmed behind a leading `./` that was dropped, and only one `./`
is: where the normal form starts with `./`, the link loses it and the text does not.  The ending of
notes cannot make up for that (`comparable_normalize_iff`), so a link equals its text exactly if the
normal form starts with no `./` (`Expr.eval_equal_link`).
-/
import NoteQuery.Proofs.Equality
import NoteQuery.Proofs.Guards
import NoteQuery.Proofs.Paths

namespace NoteQuery

namespace Text

/-- What does not end in a blank loses blanks at its start only. -/
theorem trimChars_of_last {cs : List Char} (h : ∀ c ∈ cs.getLast?, isBlank c = false) :
    trimChars cs = trimLeft cs := by
  obtain ⟨blanks, hcs⟩ := List.dropWhile_suffix isBlank (l := cs)
  change blanks ++ trimLeft cs = cs at hcs
  have hright : trimChars cs = List.rdropWhile isBlank (trimLeft cs) := rfl
  rw [hright, List.rdropWhile_eq_self_iff]
  intro hne
  rw [← hcs, List.getLast?_append_of_ne_nil _ hne, List.getLast?_eq_some_getLast hne] at h
  simpa using h _ rfl

end Text

namespace Path

/-! ## A second normal form -/

theorem dropNoteEnding_blank {c : Char} (hc : Text.isBlank c = true) (cs : List Char) :
    dropNoteEnding (c :: cs) = c :: dropNoteEnding cs := by
  refine dropNoteEnding_cons ?_
  rintro ⟨m, d, rest, heq, -⟩
  cases heq
  exact absurd hc (by decide)

theorem length_dropNoteEnding_trimLeft (cs : List Char) :
    (dropNoteEnding (Text.trimLeft cs)).length ≤ (dropNoteEnding cs).length := by
  induction cs with
  | nil => exact Nat.le_refl _
  | cons c cs ih =>
    by_cases hc : Text.isBlank c = true
    · rw [dropNoteEnding_blank hc, Text.trimLeft, List.dropWhile_cons_of_pos hc]
      exact Nat.le_succ_of_le ih
    · rw [Text.trimLeft, List.dropWhile_cons_of_neg hc]

/-- A leading `./` of a normal form is lost the second time, and nothing comes back for it. -/
theorem dropNoteEnding_normalChars_ne {cs rest : List Char}
    (h : normalChars cs = '.' :: '/' :: rest) :
    dropNoteEnding (normalChars (normalChars cs)) ≠ dropNoteEnding (normalChars cs) := by
  have htrim : Text.trimChars (normalChars cs) = normalChars cs := Text.trimChars_trimChars _
  have hlast : ∀ c ∈ rest.getLast?, Text.isBlank c = false := by
    rw [h, Text.trimChars_eq_self_iff] at htrim
    cases rest with
    | nil => exact fun c hc => nomatch hc
    | cons c rest => exact htrim.2
  have hsecond : normalChars (normalChars cs) = Text.trimLeft rest := by
    rw [normalChars_of_slashes (backslash_notMem_normalChars cs), h, dropHere,
      Text.trimChars_of_last hlast]
  have hfirst : dropNoteEnding (normalChars cs) = '.' :: '/' :: dropNoteEnding rest := by
    rw [h]
    exact dropNoteEnding_lead (.inr ⟨['.'], rfl⟩) rest
  intro heq
  have hlength := congrArg List.length heq
  rw [hsecond, hfirst, List.length_cons, List.length_cons] at hlength
  have hle := length_dropNoteEnding_trimLeft rest
  omega

/-- It does not matter for a comparison whether a path was put into normal form before, exactly if
the normal form starts with no `./`. -/
theorem comparable_normalize_iff {path : String} :
    comparable (normalize path) = comparable path ↔ StartsElsewhere (normalize path) := by
  constructor
  · intro h
    by_contra hstart
    have hchars : dropHere (normalChars path.toList) ≠ normalChars path.toList := by
      rwa [StartsElsewhere, normalize, String.toList_ofList] at hstart
    rw [Ne, dropHere_eq_self_iff, not_not] at hchars
    obtain ⟨rest, hrest⟩ := hchars
    refine dropNoteEnding_normalChars_ne hrest.symm ?_
    have htexts := String.ofList_injective h
    rwa [normalize, normalize, String.toList_ofList, String.toList_ofList] at htexts
  · intro h
    rw [comparable, normalize_normalize h, comparable]

end Path

/-! ## The function for links -/

namespace Expr

variable {s : Scope} {path display text : Expr} {p : String} {d : Value}

/-- The path of a link is put into normal form when the link is built. -/
theorem eval_link (hlibrary : (s.library.function? "link").map (·.op) = some .makeLink)
    (hpath : path.eval s = .ok (.string p)) (hdisplay : display.eval s = .ok d) :
    (call (name "link") [path, display]).eval s = .ok (.link (Path.normalize p) d) := by
  have hargs : (delayed [path, display]).mapM (· s) = .ok [.string p, d] := by
    simp only [delayed, List.mapM_cons, List.mapM_nil, hpath, hdisplay]
    rfl
  rw [eval, Scope.callFunction_eager hlibrary rfl hargs]
  simp only [Library.FunctionOp.apply]
  rfl

theorem eval_text (p : String) (source : String) (s : Scope) :
    (literal (.string p) source).eval s = .ok (.string p) :=
  rfl

/-- A link beside a text, on either side: the path of the link in normal form is compared. -/
theorem eval_equal_of_link (hlibrary : (s.library.function? "link").map (·.op) = some .makeLink)
    (hpath : path.eval s = .ok (.string p)) (hdisplay : display.eval s = .ok d)
    (htext : text.eval s = .ok (.string p)) :
    (binary .equal (call (name "link") [path, display]) text).eval s =
        .ok (.bool (Path.comparable (Path.normalize p) == Path.comparable p)) ∧
      (binary .equal text (call (name "link") [path, display])).eval s =
        .ok (.bool (Path.comparable (Path.normalize p) == Path.comparable p)) := by
  have hlink := eval_link hlibrary hpath hdisplay
  rw [eval_equal hlink htext, eval_equal htext hlink, Value.equals_of_paths rfl rfl,
    Value.equals_of_paths rfl rfl, BEq.comm (a := Path.comparable p)]
  exact ⟨rfl, rfl⟩

/-- A link equals the text it is built from, on either side, exactly if the normal form of the text
starts with no `./`. -/
theorem eval_equal_link (hlibrary : (s.library.function? "link").map (·.op) = some .makeLink)
    (hpath : path.eval s = .ok (.string p)) (hdisplay : display.eval s = .ok d)
    (htext : text.eval s = .ok (.string p)) :
    (binary .equal (call (name "link") [path, display]) text).eval s =
        .ok (.bool (decide (Path.StartsElsewhere (Path.normalize p)))) ∧
      (binary .equal text (call (name "link") [path, display])).eval s =
        .ok (.bool (decide (Path.StartsElsewhere (Path.normalize p)))) ∧
      (Path.comparable (Path.normalize p) = Path.comparable p ↔
        Path.StartsElsewhere (Path.normalize p)) := by
  obtain ⟨hleft, hright⟩ := eval_equal_of_link hlibrary hpath hdisplay htext
  have hiff : Path.comparable (Path.normalize p) = Path.comparable p ↔
      Path.StartsElsewhere (Path.normalize p) := Path.comparable_normalize_iff
  rw [beq_eq_decide, decide_eq_decide.mpr hiff] at hleft hright
  exact ⟨hleft, hright, hiff⟩

theorem builtin_link :
    (Library.Registry.builtin.function? "link").map (·.op) = some .makeLink := by
  decide +kernel

/-- A leading `./` is dropped on either side, and it does not matter what the link displays. -/
theorem eval_equal_link_alpha :
    (binary .equal
      (call (name "link") [literal (.string "./Notes/Alpha.md") "", literal (.number 7) "7"])
      (literal (.string "./Notes/Alpha.md") "")).eval blankScope = .ok (.bool true) := by
  have helsewhere : Path.StartsElsewhere (Path.normalize "./Notes/Alpha.md") := by decide +kernel
  have hpath := eval_text "./Notes/Alpha.md" "" blankScope
  obtain ⟨hequal, -⟩ := eval_equal_link builtin_link hpath (eval_int 7 "7" blankScope) hpath
  rwa [decide_eq_true helsewhere] at hequal

/-- A second `./`, and one behind a blank, is dropped in the link only. -/
theorem eval_equal_link_here :
    (binary .equal
      (call (name "link") [literal (.string "././a") "", literal .null "null"])
      (literal (.string "././a") "")).eval blankScope = .ok (.bool false) ∧
    (binary .equal (literal (.string " ./a") "")
      (call (name "link") [literal (.string " ./a") "", literal .null "null"])).eval blankScope =
        .ok (.bool false) := by
  have hnull : (literal .null "null").eval blankScope = .ok .null := rfl
  have htwice := eval_text "././a" "" blankScope
  have hblank := eval_text " ./a" "" blankScope
  obtain ⟨hleft, -⟩ := eval_equal_of_link builtin_link htwice hnull htwice
  obtain ⟨-, hright⟩ := eval_equal_of_link builtin_link hblank hnull hblank
  rw [show (Path.comparable (Path.normalize "././a") == Path.comparable "././a") = false by
    decide +kernel] at hleft
  rw [show (Path.comparable (Path.normalize " ./a") == Path.comparable " ./a") = false by
    decide +kernel] at hright
  exact ⟨hleft, hright⟩

end Expr

end NoteQuery
