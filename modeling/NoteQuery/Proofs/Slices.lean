/-
The tokens of a source account for all of it.

`Tiles source pos us last` says so of the source from a position on: the tokens `us` have texts that
are not empty, one behind the other with blanks between them, the end mark `last` stands behind the
whole source, and what a token says is settled by its slice of the source (`Spells`).  One token
more in front keeps this (`Tiles.cons`), so it holds of all that is read (`tiles_of_cuts`).
-/
import NoteQuery.Proofs.Lexemes
import Mathlib.Data.List.Chain

namespace NoteQuery

namespace Token

/-! ## Slices -/

/-- The part of the source between two positions. -/
def slice (source : String) (first last : Nat) : List Char :=
  (source.toList.drop first).take (last - first)

/-- The second position is not before the first, and all between them is blank. -/
def BlankBetween (source : String) (first last : Nat) : Prop :=
  first ≤ last ∧ ∀ c ∈ slice source first last, Text.isBlank c = true

theorem slice_of_append {source : String} {before part rest : List Char}
    (h : source.toList = before ++ (part ++ rest)) :
    slice source before.length (before.length + part.length) = part := by
  rw [slice, h, List.drop_left, Nat.add_sub_cancel_left, List.take_left]

theorem blankBetween_of_append {source : String} {before blanks rest : List Char}
    (h : source.toList = before ++ (blanks ++ rest))
    (hblanks : ∀ c ∈ blanks, Text.isBlank c = true) :
    BlankBetween source before.length (before.length + blanks.length) := by
  refine ⟨Nat.le_add_right .., ?_⟩
  rwa [slice_of_append h]

/-! ## What tokens say -/

/-- The text without its backslashes, and what they escape as it stands. -/
def unescaped : List Char → List Char
  | [] => []
  | '\\' :: [] => []
  | '\\' :: c :: cs => c :: unescaped cs
  | c :: cs => c :: unescaped cs

/-- What a token of a sort with this text says. -/
inductive Spells : TokenKind → List Char → List Char → Prop
  | string {quote : Char} {inner : List Char} : quote = '"' ∨ quote = '\'' →
      Spells .string (quote :: (inner ++ [quote])) (unescaped inner)
  | number {raw : List Char} : Spells .number raw (raw.filter (· != '_'))
  | itself {kind : TokenKind} {raw : List Char} : kind ≠ .string → kind ≠ .number → kind ≠ .eof →
      Spells kind raw raw

theorem Enclosed.content_eq {closer : Char} {inner content : List Char}
    (h : Enclosed closer inner content) : content = unescaped inner := by
  induction h with
  | nil => rfl
  | escaped _ ih => rw [unescaped, ← ih]
  | plain hc _ _ ih =>
    rw [unescaped, ← ih]
    · exact fun h => absurd h hc
    · exact fun _ _ h => absurd h hc

theorem Form.spells {b : Bool} {kind : TokenKind} {text raw rest : List Char}
    (h : Form b kind text raw rest) : Spells kind raw text := by
  cases h with
  | string hquote hinner =>
    rw [hinner.content_eq]
    exact .string hquote
  | whole | fraction => exact .number
  | word =>
    unfold wordKind
    split <;> exact .itself nofun nofun nofun
  | pattern | symbol | mark => exact .itself nofun nofun nofun

/-! ## Tokens of a source -/

/-- From the position on, the source is the texts of the tokens with blanks between them. -/
structure Tiles (source : String) (pos : Nat) (us : List Token) (last : Token) : Prop where
  last_eq : last = ⟨.eof, "", "", source.length⟩
  kind : ∀ t ∈ us, t.kind ≠ .eof
  proper : ∀ t ∈ us, t.first < t.last
  raw : ∀ t ∈ us, t.raw.toList = slice source t.first t.last
  spells : ∀ t ∈ us, Spells t.kind (slice source t.first t.last) t.text.toList
  front : ∀ t ∈ (us ++ [last]).head?, BlankBetween source pos t.first
  gaps : (us ++ [last]).IsChain fun t u => BlankBetween source t.last u.first

/-- Only the end mark stands behind blanks at the end. -/
theorem Tiles.nil {source : String} {before blanks : List Char}
    (hsource : source.toList = before ++ blanks) (hblanks : ∀ c ∈ blanks, Text.isBlank c = true) :
    Tiles source before.length [] ⟨.eof, "", "", before.length + blanks.length⟩ where
  last_eq := by rw [← String.length_toList, hsource, List.length_append]
  kind := nofun
  proper := nofun
  raw := nofun
  spells := nofun
  front := by
    rintro t ⟨⟩
    rw [← List.append_nil blanks] at hsource
    exact blankBetween_of_append hsource hblanks
  gaps := .singleton _

theorem Tiles.cons {source : String} {pos : Nat} {us : List Token} {t last : Token}
    (h : Tiles source t.last us last) (hgap : BlankBetween source pos t.first)
    (hkind : t.kind ≠ .eof) (hproper : t.first < t.last)
    (hraw : t.raw.toList = slice source t.first t.last)
    (hspells : Spells t.kind t.raw.toList t.text.toList) : Tiles source pos (t :: us) last where
  last_eq := h.last_eq
  kind := List.forall_mem_cons.mpr ⟨hkind, h.kind⟩
  proper := List.forall_mem_cons.mpr ⟨hproper, h.proper⟩
  raw := List.forall_mem_cons.mpr ⟨hraw, h.raw⟩
  spells := List.forall_mem_cons.mpr ⟨hraw ▸ hspells, h.spells⟩
  front := by
    rintro u ⟨⟩
    exact hgap
  gaps := List.IsChain.cons h.gaps h.front

/-- What is cut from the end of a source tiles the source from there on. -/
theorem tiles_of_cuts {source : String} {b : Bool} {before cs : List Char} {pos : Nat}
    {ts : List Token} (h : Cuts b pos cs ts) (hsource : source.toList = before ++ cs)
    (hpos : pos = before.length) : ∃ us last, ts = us ++ [last] ∧ Tiles source pos us last := by
  induction h generalizing before with
  | @done b pos blanks hblanks =>
    subst hpos
    exact ⟨[], _, rfl, .nil hsource hblanks⟩
  | @token b pos blanks raw text rest t ts hblanks hform htext hraw hfirst _ ih =>
    subst hpos
    have hlast : t.last = t.first + raw.length := by rw [last, hraw, String.length_ofList]
    have hfirst' : t.first = (before ++ blanks).length := by rw [hfirst, List.length_append]
    have hat : source.toList = (before ++ blanks) ++ (raw ++ rest) := by
      rw [hsource, List.append_assoc]
    have hbehind : source.toList = (before ++ blanks ++ raw) ++ rest := by
      rw [hat, List.append_assoc (before ++ blanks)]
    have hnext : t.last = (before ++ blanks ++ raw).length := by
      rw [hlast, hfirst', ← List.length_append]
    obtain ⟨us, last, rfl, htiles⟩ := ih hbehind hnext
    obtain ⟨c, cs, hcons, -⟩ := hform.exists_cons
    have hpos : 0 < raw.length := by rw [hcons]; exact Nat.succ_pos _
    have hrawList : t.raw.toList = raw := by rw [hraw, String.toList_ofList]
    refine ⟨t :: us, last, rfl, htiles.cons ?_ hform.kind_ne_eof (by omega) ?_ ?_⟩
    · rw [hfirst]
      exact blankBetween_of_append hsource hblanks
    · rw [hrawList, hlast, hfirst', slice_of_append hat]
    · rw [hrawList, htext, String.toList_ofList]
      exact hform.spells

end Token

/-- Every source is read to its end, into tokens that tile it, or something in it is no token. -/
theorem tokenize_tiles (source : String) :
    (∃ us last, tokenize source = .ok (us ++ [last]) ∧ Token.Tiles source 0 us last) ∨
      ∃ e, tokenize source = .error e ∧ e.cause.isLexical = true ∧ e.position < source.length := by
  cases hread : tokenize source with
  | ok ts =>
    have hsource : source.toList = [] ++ source.toList := rfl
    obtain ⟨us, last, rfl, htiles⟩ :=
      Token.tiles_of_cuts (Token.readAll_eq_ok_iff.mp hread) hsource rfl
    exact .inl ⟨us, last, rfl, htiles⟩
  | error e =>
    obtain ⟨-, hplace, hcause⟩ := Token.place_of_readAll_error hread
    rw [Nat.zero_add, String.length_toList] at hplace
    exact .inr ⟨e, rfl, hcause, hplace⟩

end NoteQuery
