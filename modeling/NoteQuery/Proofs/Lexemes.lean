/-
Where tokens end.

A token never goes on over a closing parenthesis, so the tokens of a text are read of it before a
closing parenthesis too, the same but for their places (`readAll_close`).  Each token lies within
its text (`Cuts.first_le`), and so does what keeps a text from being read
(`place_of_readAll_error`).
-/
import NoteQuery.Proofs.Scanning

namespace NoteQuery.Token

/-! ## Tokens before a closing parenthesis -/

/-- What is read of a text that starts with a lexeme: the token, and the tokens behind it. -/
theorem readAll_lexeme {b : Bool} {c : Char} {cs : List Char} {lexeme : Lexeme}
    (hc : ¬ Text.isBlank c = true) (h : readLexeme b c cs = .ok lexeme) (pos : Nat) :
    readAll b pos (c :: cs) =
      let n := lexeme.length - 1
      let token : Token := ⟨lexeme.kind, .ofList lexeme.text, .ofList (c :: cs.take n), pos⟩
      (readAll token.expectsOperand (pos + n + 1) (cs.drop n)).map (token :: ·) := by
  rw [readAll, if_neg hc, h]

theorem ends_close (rest : List Char) : Ends (')' :: rest) := by
  rintro c ⟨⟩
  exact stops_close

/-- The tokens of a text are read before a closing parenthesis too, wherever the text stands. -/
theorem readAll_close {b : Bool} {pos : Nat} {cs : List Char} {ts : List Token}
    (h : readAll b pos cs = .ok ts) : ∃ us last, ts = us ++ [last] ∧ last.kind = .eof ∧
      (∀ t ∈ us, t.kind ≠ .eof) ∧ ∀ pos', ∃ vs b' pos'', List.Forall₂ SameButPlace us vs ∧
        ∀ rest, readAll b pos' (cs ++ ')' :: rest) =
          (readAll b' pos'' (')' :: rest)).map (vs ++ ·) := by
  have hcuts := readAll_eq_ok_iff.mp h
  clear h
  induction hcuts with
  | @done b pos blanks hblanks =>
    refine ⟨[], _, rfl, rfl, List.forall_mem_nil _, fun pos' => ?_⟩
    refine ⟨[], b, pos' + blanks.length, .nil, fun rest => ?_⟩
    rw [readAll_blanks hblanks]
    exact (congrFun Except.map_id _).symm
  | @token b pos blanks raw text cs t ts hblanks hform htext hraw _ _ ih =>
    obtain ⟨us, last, rfl, hlast, hus, hclose⟩ := ih
    have hall : ∀ u ∈ t :: us, u.kind ≠ .eof :=
      List.forall_mem_cons.mpr ⟨hform.kind_ne_eof, hus⟩
    refine ⟨t :: us, last, rfl, hlast, hall, fun pos' => ?_⟩
    obtain ⟨kind, text', raw', first⟩ := t
    dsimp only at htext hraw hform
    subst htext hraw
    let t' : Token := ⟨kind, String.ofList text, String.ofList raw, pos' + blanks.length⟩
    obtain ⟨vs, b', pos'', hsame, hrest⟩ := hclose t'.last
    refine ⟨t' :: vs, b', pos'', .cons ⟨rfl, rfl, rfl⟩ hsame, fun rest => ?_⟩
    rw [List.append_assoc, List.append_assoc, readAll_blanks hblanks,
      (hform.append (ends_close rest)).readAll]
    have hread : readAll t'.expectsOperand t'.last (cs ++ ')' :: rest) = _ := hrest rest
    show (readAll t'.expectsOperand t'.last (cs ++ ')' :: rest)).map (t' :: ·) = _
    rw [hread]
    cases readAll b' pos'' (')' :: rest) <;> rfl

/-- A mark is read as itself, whatever follows. -/
theorem readAll_mark {c : Char} (hc : c ∈ punctuators) (b : Bool) (pos : Nat) (rest : List Char) :
    readAll b pos (c :: rest) = (readAll (mark c).expectsOperand (pos + 1) rest).map
      ({ mark c with first := pos } :: ·) := by
  have hform : Form b .punctuation [c] [c] rest := .mark hc
  have hread := hform.readAll pos
  dsimp only [last] at hread
  rwa [String.length_ofList] at hread

/-! ## Places -/

/-- Tokens are read at places within the text. -/
theorem Cuts.first_le {b : Bool} {pos : Nat} {cs : List Char} {ts : List Token}
    (h : Cuts b pos cs ts) : ∀ t ∈ ts, t.first ≤ pos + cs.length := by
  induction h with
  | done _ => exact List.forall_mem_singleton.mpr (Nat.le_refl _)
  | @token b pos blanks raw text rest t ts _ _ _ hraw hfirst _ ih =>
    have hlast : t.last = pos + blanks.length + raw.length := by
      rw [last, hfirst, hraw, String.length_ofList]
    rw [List.length_append, List.length_append]
    refine List.forall_mem_cons.mpr ⟨by omega, fun u hu => ?_⟩
    have hle := ih u hu
    omega

/-- What is no token is at a place of the text, and what it is shows while tokens are read. -/
theorem place_of_readAll_error {b : Bool} {pos : Nat} {cs : List Char} {e : SyntaxError}
    (h : readAll b pos cs = .error e) :
    pos ≤ e.position ∧ e.position < pos + cs.length ∧ e.cause.isLexical = true := by
  fun_induction readAll b pos cs with
  | case1 b pos => cases h
  | case2 b pos c cs hc ih =>
    have hplace := ih h
    rw [List.length_cons]
    exact ⟨by omega, by omega, hplace.2.2⟩
  | case3 b pos c cs hc cause hread =>
    cases h
    exact ⟨Nat.le_refl pos, Nat.lt_add_of_pos_right (Nat.succ_pos _), isLexical_of_readLexeme hread⟩
  | case4 b pos c cs hc lexeme hread n raw token =>
    rename_i ih
    have hplace := ih (map_eq_error.mp h)
    rw [List.length_drop] at hplace
    rw [List.length_cons]
    exact ⟨by omega, by omega, hplace.2.2⟩

end NoteQuery.Token
