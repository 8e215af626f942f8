/-
Blanks between tokens do not matter.

A text is put together anew from the slices of a source (`Respaced`), with any blanks between any
two.  A blank ends every token and begins none, so each slice is read there as the token it was
before; and since the tokens in front of it are those that they were, a slash opens a pattern there
if it did so before (`cuts_of_respaced`).  The parser looks at the tokens only, not at their places,
and so the two texts are the same expression.
-/
import NoteQuery.Proofs.Connectives
import NoteQuery.Proofs.Slices

namespace NoteQuery

namespace Token

/-- The text is the pieces one behind the other, with some blanks between any two. -/
inductive Respaced : List (List Char) → List Char → Prop
  | nil : Respaced [] []
  | single {piece : List Char} : Respaced [piece] piece
  | cons {piece next gap text : List Char} {pieces : List (List Char)} : gap ≠ [] →
      (∀ c ∈ gap, Text.isBlank c = true) → Respaced (next :: pieces) text →
      Respaced (piece :: next :: pieces) (piece ++ (gap ++ text))

/-- Behind a piece the text ends, or a blank follows. -/
theorem Respaced.behind {piece text : List Char} {pieces : List (List Char)}
    (h : Respaced (piece :: pieces) text) : ∃ gap rest, text = piece ++ (gap ++ rest) ∧
      (∀ c ∈ gap, Text.isBlank c = true) ∧ Ends (gap ++ rest) ∧ Respaced pieces rest := by
  cases h with
  | single => exact ⟨[], [], (List.append_nil _).symm, List.forall_mem_nil _, nofun, .nil⟩
  | @cons _ _ gap rest _ hne hgap hrest =>
    refine ⟨gap, rest, rfl, hgap, ?_, hrest⟩
    obtain ⟨c, gap, rfl⟩ := List.exists_cons_of_ne_nil hne
    rintro d ⟨⟩
    exact stops_of_isBlank (hgap c List.mem_cons_self)

theorem Cuts.behind_blanks {b : Bool} {pos : Nat} {blanks cs : List Char} {ts : List Token}
    (h : Cuts b (pos + blanks.length) cs ts) (hblanks : ∀ c ∈ blanks, Text.isBlank c = true) :
    Cuts b pos (blanks ++ cs) ts := by
  rw [← readAll_eq_ok_iff, readAll_blanks hblanks]
  exact readAll_eq_ok_iff.mpr h

theorem SameButPlace.symm {t u : Token} (h : SameButPlace t u) : SameButPlace u t :=
  ⟨h.1.symm, h.2.1.symm, h.2.2.symm⟩

/-- The texts of the tokens are read as the same tokens, whatever blanks are between them. -/
theorem cuts_of_respaced {b : Bool} {pos : Nat} {cs text : List Char} {us : List Token}
    {last : Token} (h : Cuts b pos cs (us ++ [last])) (hlast : last.kind = .eof)
    (htext : Respaced (us.map fun t => t.raw.toList) text) (pos' : Nat) :
    ∃ ts, Cuts b pos' text ts ∧ List.Forall₂ SameButPlace (us ++ [last]) ts := by
  generalize hall : us ++ [last] = ts at h
  induction h generalizing us text pos' with
  | @done b pos blanks hblanks =>
    have hlength := congrArg List.length hall
    rw [List.length_append, List.length_singleton, List.length_singleton] at hlength
    obtain rfl : us = [] := List.eq_nil_of_length_eq_zero (by omega)
    cases htext with
    | nil => exact ⟨_, .done (List.forall_mem_nil _), .cons ⟨rfl, rfl, rfl⟩ .nil⟩
  | @token b pos blanks raw told rest t ts hblanks hform htold hraw hfirst _ ih =>
    cases us with
    | nil =>
      obtain ⟨rfl, -⟩ := List.cons.inj hall
      exact absurd hlast hform.kind_ne_eof
    | cons u us =>
      obtain ⟨rfl, rfl⟩ := List.cons.inj hall
      obtain ⟨gap, text, rfl, hgap, hends, hrest⟩ := htext.behind
      let u' : Token := { u with first := pos' }
      obtain ⟨ts, hcuts, hsame⟩ := ih hrest (u'.last + gap.length) rfl
      have htoken : Cuts b pos' ([] ++ (raw ++ (gap ++ text))) (u' :: ts) :=
        .token (List.forall_mem_nil _) (hform.of_ends hends) htold hraw rfl
          (hcuts.behind_blanks hgap)
      refine ⟨u' :: ts, ?_, .cons ⟨rfl, rfl, rfl⟩ hsame⟩
      rwa [List.nil_append, ← String.toList_ofList (l := raw), ← hraw] at htoken

end Token

namespace Expr

open Token Grammar

theorem beforeEnd_same {ts us : List Token} (h : List.Forall₂ SameButPlace ts us) :
    List.Forall₂ SameButPlace (beforeEnd ts) (beforeEnd us) := by
  induction h with
  | nil => exact .nil
  | @cons t u ts us htu _ ih =>
    unfold beforeEnd at ih ⊢
    rw [List.takeWhile_cons, List.takeWhile_cons, ← htu.1]
    split
    · exact .cons htu ih
    · exact .nil

/-- Texts with the same tokens are the same expression. -/
theorem parse_of_same {source text : String} {ts us : List Token} {e : Expr}
    (hsource : tokenize source = .ok ts) (htext : tokenize text = .ok us)
    (hsame : List.Forall₂ SameButPlace ts us) (h : parse source = .ok e) :
    parse text = .ok e := by
  unfold parse at h ⊢
  rw [hsource] at h
  rw [htext]
  rw [ofTokens_iff_derives] at h ⊢
  exact h.transfer_self
    ((beforeEnd_same hsame).imp fun t u h => ⟨h.1, h.2.1, fun _ => parserReads_of_same h⟩)

/-- A source that is read, with other blanks between its tokens, has the same tokens but for their
places, and it is the same expression if it is one. -/
theorem parse_respaced {source text : String} {us : List Token} {last : Token}
    (hsource : tokenize source = .ok (us ++ [last]))
    (htext : Respaced (us.map fun t => slice source t.first t.last) text.toList) :
    (∃ ts, tokenize text = .ok ts ∧ List.Forall₂ SameButPlace (us ++ [last]) ts) ∧
      ∀ e, parse text = .ok e ↔ parse source = .ok e := by
  have hcuts := readAll_eq_ok_iff.mp hsource
  obtain ⟨us', last', hall, htiles⟩ := tiles_of_cuts hcuts (List.nil_append _).symm rfl
  obtain ⟨rfl, rfl⟩ : us = us' ∧ last = last' := by simpa using hall
  have hraw : us.map (fun t => slice source t.first t.last) = us.map fun t => t.raw.toList :=
    List.map_congr_left fun t ht => (htiles.raw t ht).symm
  rw [hraw] at htext
  have hend : last.kind = .eof := by rw [htiles.last_eq]
  obtain ⟨ts, hts, hsame⟩ := cuts_of_respaced hcuts hend htext 0
  have htokens : tokenize text = .ok ts := readAll_eq_ok_iff.mpr hts
  have hback : List.Forall₂ SameButPlace ts (us ++ [last]) :=
    hsame.flip.imp fun _ _ h => SameButPlace.symm h
  exact ⟨⟨ts, htokens, hsame⟩, fun e =>
    ⟨parse_of_same htokens hsource hback, parse_of_same hsource htokens hsame⟩⟩

/-- The tokens of a pattern with a blank in it that is divided by a number. -/
def dividedPattern : List Token :=
  [⟨.pattern, "/b c/", "/b c/", 0⟩, ⟨.operator, "/", "/", 6⟩, ⟨.number, "2", "2", 7⟩]

theorem parse_respaced_dividedPattern :
    tokenize "/b c/ /2" = .ok (dividedPattern ++ [⟨.eof, "", "", 8⟩]) ∧
      Respaced (dividedPattern.map fun t => slice "/b c/ /2" t.first t.last)
        "/b c/\t/\n 2".toList ∧
      (∃ ts, tokenize "/b c/\t/\n 2" = .ok ts ∧
        List.Forall₂ SameButPlace (dividedPattern ++ [⟨.eof, "", "", 8⟩]) ts) ∧
      ∀ e, parse "/b c/\t/\n 2" = .ok e ↔ parse "/b c/ /2" = .ok e := by
  have hread : tokenize "/b c/ /2" = .ok (dividedPattern ++ [⟨.eof, "", "", 8⟩]) := by
    decide +kernel
  have hpieces : dividedPattern.map (fun t => slice "/b c/ /2" t.first t.last) =
      ["/b c/".toList, ['/'], ['2']] := by
    decide
  have htext : "/b c/\t/\n 2".toList =
      "/b c/".toList ++ (['\t'] ++ (['/'] ++ (['\n', ' '] ++ ['2']))) := by
    decide
  have hrespaced : Respaced (dividedPattern.map fun t => slice "/b c/ /2" t.first t.last)
      "/b c/\t/\n 2".toList := by
    rw [hpieces, htext]
    exact .cons nofun (List.all_eq_true.mp rfl) (.cons nofun (List.all_eq_true.mp rfl) .single)
  exact ⟨hread, hrespaced, parse_respaced hread hrespaced⟩

end Expr

end NoteQuery
