/-
Texts that can be told apart where they stand.

What stands in front of a mark is known if it has no marks itself (`split_at_mark`), and so are
texts that are joined by marks, as long as each of them can be told from what follows it
(`joinChars_inj`).  A quoted text needs no mark behind it: its closing quote cannot be missed,
whatever is quoted (`dataQuoted_inj`).  Numerals have no marks.
-/
import NoteQuery.Calendar.Duration
import NoteQuery.Text.Cut
import NoteQuery.Text.Quoted
import Mathlib.Data.List.Basic

namespace NoteQuery

namespace Text

/-! ## Marks -/

/-- There are no marks in the text. -/
def Unmarked (marks cs : List Char) : Prop :=
  ∀ c ∈ cs, c ∉ marks

instance (marks cs : List Char) : Decidable (Unmarked marks cs) :=
  List.decidableBAll (fun c => c ∉ marks) cs

/-- The text is at its end or at a mark. -/
def AtMark (marks cs : List Char) : Prop :=
  ∀ c ∈ cs.head?, c ∈ marks

variable {marks : List Char}

theorem atMark_cons {c : Char} (h : c ∈ marks) (cs : List Char) : AtMark marks (c :: cs) := by
  rintro d hd
  cases hd
  exact h

/-- What stands before a mark can be told from what follows. -/
theorem split_at_mark {a b r s : List Char} (ha : Unmarked marks a) (hb : Unmarked marks b)
    (hr : AtMark marks r) (hs : AtMark marks s) (h : a ++ r = b ++ s) : a = b ∧ r = s := by
  induction a generalizing b with
  | nil =>
    cases b with
    | nil => exact ⟨rfl, h⟩
    | cons d b =>
      obtain rfl : r = d :: (b ++ s) := h
      exact absurd (hr d rfl) (hb d List.mem_cons_self)
  | cons c a ih =>
    cases b with
    | nil =>
      obtain rfl : c :: (a ++ r) = s := h
      exact absurd (hs c rfl) (ha c List.mem_cons_self)
    | cons d b =>
      obtain ⟨rfl, hrest⟩ := List.cons.inj h
      obtain ⟨rfl, hrs⟩ := ih (fun c hc => ha c (List.mem_cons_of_mem _ hc))
        (fun c hc => hb c (List.mem_cons_of_mem _ hc)) hrest
      exact ⟨rfl, hrs⟩

/-! ## Joined texts -/

/-- The two texts can be told apart by themselves, whatever follows the mark behind them. -/
def Separate (marks k l : List Char) : Prop :=
  ∀ r s, AtMark marks r → AtMark marks s → k ++ r = l ++ s → k = l ∧ r = s

theorem joinChars_cons (sep : Char) (piece : List Char) (pieces : List (List Char)) :
    sep :: joinChars [sep] (piece :: pieces) = (piece :: pieces).flatMap (sep :: ·) := by
  induction pieces generalizing piece with
  | nil => rw [joinChars, List.flatMap_cons, List.flatMap_nil, List.append_nil]
  | cons next pieces ih =>
    rw [List.flatMap_cons, ← ih, joinChars, List.append_assoc]
    · rfl
    · exact List.cons_ne_nil _ _

variable {sep last : Char} {ks ls : List (List Char)} {r s : List Char}

theorem unmarked_joinChars (hsep : sep ∉ marks) (h : ∀ k ∈ ks, Unmarked marks k) :
    Unmarked marks (joinChars [sep] ks) := by
  cases ks with
  | nil => exact nofun
  | cons k ks =>
    intro c hc
    have hmem : c ∈ (k :: ks).flatMap (sep :: ·) :=
      joinChars_cons sep k ks ▸ List.mem_cons_of_mem sep hc
    obtain ⟨piece, hpiece, hc⟩ := List.mem_flatMap.mp hmem
    rcases List.mem_cons.mp hc with rfl | hc
    · exact hsep
    · exact h piece hpiece c hc

theorem flatMap_inj (hsep : sep ∈ marks) (hlast : last ∈ marks) (hne : sep ≠ last)
    (hcode : ∀ k ∈ ks, ∀ l ∈ ls, Separate marks k l)
    (h : ks.flatMap (sep :: ·) ++ last :: r = ls.flatMap (sep :: ·) ++ last :: s) :
    ks = ls ∧ r = s := by
  have hmark (pieces : List (List Char)) (rest : List Char) :
      AtMark marks (pieces.flatMap (sep :: ·) ++ last :: rest) := by
    cases pieces with
    | nil => exact atMark_cons hlast rest
    | cons piece pieces => exact atMark_cons hsep _
  induction ks generalizing ls with
  | nil =>
    cases ls with
    | nil => exact ⟨rfl, (List.cons.inj h).2⟩
    | cons l ls => exact absurd (List.cons.inj h).1.symm hne
  | cons k ks ih =>
    cases ls with
    | nil => exact absurd (List.cons.inj h).1 hne
    | cons l ls =>
      obtain ⟨hfirst, hrest⟩ := List.forall_mem_cons.mp hcode
      rw [List.flatMap_cons, List.flatMap_cons, List.append_assoc, List.append_assoc] at h
      obtain ⟨rfl, htail⟩ :=
        hfirst l List.mem_cons_self _ _ (hmark ks r) (hmark ls s) (List.cons.inj h).2
      obtain ⟨rfl, hrs⟩ := ih (fun k hk l hl => hrest k hk l (List.mem_cons_of_mem _ hl)) htail
      exact ⟨rfl, hrs⟩

/-- Texts that are joined by one mark, with another one at the end, can be told from each other and
from what follows if they can be so one by one, and if none of them starts with a mark. -/
theorem joinChars_inj (hsep : sep ∈ marks) (hlast : last ∈ marks) (hne : sep ≠ last)
    (hks : ∀ k ∈ ks, ¬ AtMark marks k) (hls : ∀ l ∈ ls, ¬ AtMark marks l)
    (hcode : ∀ k ∈ ks, ∀ l ∈ ls, Separate marks k l)
    (h : joinChars [sep] ks ++ last :: r = joinChars [sep] ls ++ last :: s) :
    ks = ls ∧ r = s := by
  have hstarts {k rest after : List Char} (pieces : List (List Char)) (hk : ¬ AtMark marks k) :
      joinChars [sep] (k :: pieces) ++ rest ≠ last :: after := by
    intro h
    have hjoin : sep :: (joinChars [sep] (k :: pieces) ++ rest) = sep :: last :: after :=
      congrArg (sep :: ·) h
    rw [← List.cons_append, joinChars_cons] at hjoin
    cases k with
    | nil => exact hk nofun
    | cons c k =>
      obtain ⟨rfl, -⟩ := List.cons.inj (List.cons.inj hjoin).2
      exact hk (atMark_cons hlast k)
  cases ks with
  | nil =>
    cases ls with
    | nil => exact ⟨rfl, (List.cons.inj h).2⟩
    | cons l ls => exact absurd h.symm (hstarts ls (hls l List.mem_cons_self))
  | cons k ks =>
    cases ls with
    | nil => exact absurd h (hstarts ks (hks k List.mem_cons_self))
    | cons l ls =>
      refine flatMap_inj hsep hlast hne hcode ?_
      rw [← joinChars_cons, ← joinChars_cons, List.cons_append, List.cons_append, h]

/-! ## Quoted texts -/

/-- The value of a hexadecimal digit. -/
def hexValue (c : Char) : Nat :=
  if c.toNat < 58 then c.toNat - 48 else c.toNat - 87

/-- The character that is written behind a backslash in a quoted text, and what follows. -/
def unescape? : List Char → Option (Char × List Char)
  | 'u' :: _ :: _ :: c :: d :: rest => some (Char.ofNat (16 * hexValue c + hexValue d), rest)
  | 'n' :: rest => some ('\n', rest)
  | 'r' :: rest => some ('\r', rest)
  | 't' :: rest => some ('\t', rest)
  | 'b' :: rest => some ('\x08', rest)
  | 'f' :: rest => some ('\x0c', rest)
  | c :: rest => some (c, rest)
  | [] => none

/-- The first character that is written in a quoted text, and what follows. -/
def undata? : List Char → Option (Char × List Char)
  | [] => none
  | c :: rest => if c = '\\' then unescape? rest else some (c, rest)

theorem hexValue_hexDigit {d : Nat} (h : d < 16) : hexValue (hexDigit d) = d := by
  revert d
  decide

/-- A character that is written in a quoted text can be read back. -/
theorem undata?_dataChar (c : Char) (rest : List Char) :
    undata? (dataChar c ++ rest) = some (c, rest) := by
  unfold dataChar
  split_ifs with hquote hslash hn hr ht hb hf hcontrol
  · rw [hquote]; rfl
  · rw [hslash]; rfl
  · rw [hn]; rfl
  · rw [hr]; rfl
  · rw [ht]; rfl
  · rw [hb]; rfl
  · rw [hf]; rfl
  · show some (Char.ofNat (16 * hexValue (hexDigit (c.toNat / 16 % 16)) +
      hexValue (hexDigit (c.toNat % 16))), rest) = some (c, rest)
    rw [hexValue_hexDigit (by omega), hexValue_hexDigit (by omega)]
    have hdigits : 16 * (c.toNat / 16 % 16) + c.toNat % 16 = c.toNat := by omega
    rw [hdigits, Char.ofNat_toNat]
  · exact if_neg hslash

theorem dataChar_ne_quote (c : Char) (rest after : List Char) :
    dataChar c ++ rest ≠ '"' :: after := by
  intro h
  have hread := congrArg undata? h
  rw [undata?_dataChar] at hread
  cases hread
  cases h

theorem flatMap_dataChar_inj {cs ds : List Char}
    (h : cs.flatMap dataChar ++ '"' :: r = ds.flatMap dataChar ++ '"' :: s) : cs = ds ∧ r = s := by
  induction cs generalizing ds with
  | nil =>
    cases ds with
    | nil => exact ⟨rfl, (List.cons.inj h).2⟩
    | cons d ds =>
      rw [List.flatMap_cons, List.append_assoc] at h
      exact absurd h.symm (dataChar_ne_quote _ _ _)
  | cons c cs ih =>
    rw [List.flatMap_cons, List.append_assoc] at h
    cases ds with
    | nil => exact absurd h (dataChar_ne_quote _ _ _)
    | cons d ds =>
      rw [List.flatMap_cons, List.append_assoc] at h
      have hread := congrArg undata? h
      rw [undata?_dataChar, undata?_dataChar, Option.some.injEq, Prod.mk.injEq] at hread
      obtain ⟨rfl, hrest⟩ := hread
      obtain ⟨rfl, hrs⟩ := ih hrest
      exact ⟨rfl, hrs⟩

/-- A quoted text can be told from whatever follows it. -/
theorem dataQuoted_inj {t u : String}
    (h : (dataQuoted t).toList ++ r = (dataQuoted u).toList ++ s) : t = u ∧ r = s := by
  rw [dataQuoted, dataQuoted, String.toList_ofList, String.toList_ofList] at h
  simp only [List.cons_append, List.append_assoc, List.nil_append, List.cons.injEq,
    true_and] at h
  obtain ⟨hchars, hrs⟩ := flatMap_dataChar_inj h
  exact ⟨String.toList_injective hchars, hrs⟩

end Text

/-! ## Numerals -/

/-- A letter, a digit, or a sign of numerals. -/
def isPlain (c : Char) : Bool :=
  c.isAlphanum || ['.', '+', '-'].contains c

theorem Text.unmarked_of_plain {marks cs : List Char} (hcs : cs.all isPlain = true)
    (hmarks : (marks.any isPlain) = false) : Text.Unmarked marks cs := by
  intro c hc hmark
  rw [List.any_eq_false] at hmarks
  exact hmarks c hmark (List.all_eq_true.mp hcs c hc)

/-- There is nothing in the text but what numerals of finite numbers have. -/
def IsNumeral (cs : List Char) : Prop :=
  ∀ c ∈ cs, c.isDigit = true ∨ c ∈ ['.', 'e', '+', '-']

namespace IsNumeral

variable {cs ds : List Char} {c : Char}

theorem toDigits (n : Nat) : IsNumeral (Nat.toDigits 10 n) :=
  fun _ hc => .inl (Nat.isDigit_of_mem_toDigits (by decide) (by decide) hc)

theorem plain (h : IsNumeral cs) : cs.all isPlain = true := by
  refine List.all_eq_true.mpr fun c hc => ?_
  rcases h c hc with hdigit | hsign
  · rw [isPlain, Char.isAlphanum, hdigit, Bool.or_true, Bool.true_or]
  · simp only [List.mem_cons, List.not_mem_nil, or_false] at hsign
    rcases hsign with rfl | rfl | rfl | rfl <;> rfl

theorem append (hcs : IsNumeral cs) (hds : IsNumeral ds) : IsNumeral (cs ++ ds) :=
  List.forall_mem_append.mpr ⟨hcs, hds⟩

theorem cons (hc : c.isDigit = true ∨ c ∈ ['.', 'e', '+', '-']) (hcs : IsNumeral cs) :
    IsNumeral (c :: cs) :=
  List.forall_mem_cons.mpr ⟨hc, hcs⟩

theorem subset (hcs : IsNumeral cs) (h : ds ⊆ cs) : IsNumeral ds :=
  fun c hc => hcs c (h hc)

theorem zeros (n : Nat) : IsNumeral (List.replicate n '0') := by
  intro c hc
  rw [List.eq_of_mem_replicate hc]
  exact .inl rfl

theorem integerText (n : Int) : IsNumeral (Number.integerText n) := by
  rw [Number.integerText]
  split
  · exact cons (.inr (by decide)) (toDigits _)
  · exact toDigits _

theorem positional (h : IsNumeral cs) (point : Int) :
    IsNumeral (Binary64.positional cs point) := by
  rw [Binary64.positional]
  split
  · exact cons (.inl rfl) (cons (.inr (by decide)) ((zeros _).append h))
  split
  · exact (h.append (zeros _)).append (cons (.inr (by decide)) (cons (.inl rfl) nofun))
  · exact (h.subset (List.take_subset _ _)).append
      (cons (.inr (by decide)) (h.subset (List.drop_subset _ _)))

theorem scientific (h : IsNumeral cs) (exp : Int) :
    IsNumeral (Binary64.scientific cs exp) := by
  have hsign : (if exp < 0 then '-' else '+') ∈ ['.', 'e', '+', '-'] := by
    split
    · decide
    · decide
  have hpower : IsNumeral (if (Nat.toDigits 10 exp.natAbs).length < 2
      then '0' :: Nat.toDigits 10 exp.natAbs else Nat.toDigits 10 exp.natAbs) := by
    split
    · exact cons (.inl rfl) (toDigits _)
    · exact toDigits _
  rw [Binary64.scientific]
  refine ((h.subset (List.take_subset _ _)).append ?_).append
    (cons (.inr (by decide)) (cons (.inr hsign) hpower))
  split
  · exact List.forall_mem_nil _
  · exact cons (.inr (by decide)) (h.subset (List.drop_subset _ _))

/-- A finite binary number is written as a numeral. -/
theorem literal {x : Binary64} (h : x.isFinite = true) : IsNumeral x.literal.toList := by
  cases x with
  | nan => cases h
  | infinite s => cases h
  | finite s m e canonical =>
    have hsigned {body : List Char} (hbody : IsNumeral body) :
        IsNumeral (if s then '-' :: body else body) := by
      split
      · exact cons (.inr (by decide)) hbody
      · exact hbody
    rw [Binary64.literal, String.toList_ofList]
    refine hsigned ?_
    split
    · exact cons (.inl rfl) (cons (.inr (by decide)) (cons (.inl rfl) (List.forall_mem_nil _)))
    · dsimp only
      split
      · exact (toDigits _).positional _
      · exact (toDigits _).scientific _

end IsNumeral

namespace Number

theorem integerText_inj {m n : Int} (h : integerText m = integerText n) : m = n := by
  have hdigits {j k : Nat} (h : Nat.toDigits 10 j = Nat.toDigits 10 k) : j = k := by
    rw [← Nat.ofDigitChars_toDigits (b := 10) (n := j) (by decide) (by decide), h,
      Nat.ofDigitChars_toDigits (by decide) (by decide)]
  have hsign {j k : Nat} : '-' :: Nat.toDigits 10 j ≠ Nat.toDigits 10 k := by
    intro h
    have hdash : '-' ∈ Nat.toDigits 10 k := h ▸ List.mem_cons_self
    exact absurd (Nat.isDigit_of_mem_toDigits (by decide) (by decide) hdash) (by decide)
  rw [integerText, integerText] at h
  split at h
  · split at h
    · have := hdigits (List.cons.inj h).2
      omega
    · exact absurd h hsign
  · split at h
    · exact absurd h.symm hsign
    · have := hdigits h
      omega

/-- What is shown for a number: a numeral, or one of three words. -/
theorem display_cases (n : Number) :
    IsNumeral n.display.toList ∨ n.display ∈ ["NaN", "Infinity", "-Infinity"] := by
  cases n with
  | int n =>
    rw [display, String.toList_ofList]
    exact .inl (.integerText n)
  | float x =>
    cases x with
    | nan => exact .inr (by decide)
    | infinite s =>
      cases s with
      | true => exact .inr (by decide)
      | false => exact .inr (by decide)
    | finite s m e canonical =>
      rw [display]
      left
      split
      · rw [String.toList_ofList]
        exact .integerText _
      · exact .literal rfl

theorem getLast?_display (n : Number) : n.display.toList.getLast? ≠ some 'i' := by
  intro h
  rcases n.display_cases with hnumeral | hword
  · rcases hnumeral 'i' (List.mem_of_getLast? h) with hdigit | hsign
    · exact absurd hdigit (by decide)
    · exact absurd hsign (by decide)
  · generalize n.display = word at h hword
    revert h
    revert word
    decide

end Number

/-! ## Durations -/

namespace Duration

/-- The name of one unit ends like that of another in one case only. -/
theorem units_of_suffix {u v : TimeUnit} (h : v.name.toList <:+ u.name.toList) :
    u = v ∨ u = .millisecond ∧ v = .second := by
  revert h
  cases u <;> cases v <;> decide

/-- The text of a part tells the amount, as it is shown, from the unit. -/
theorem partText_inj {p q : DurationPart} (h : partText p = partText q) :
    p.amount.display = q.amount.display ∧ p.unit = q.unit := by
  have hends {p q : DurationPart} {as : List Char}
      (hamount : q.amount.display.toList = p.amount.display.toList ++ as)
      (hunit : p.unit.name.toList = as ++ q.unit.name.toList) :
      p.amount.display = q.amount.display ∧ p.unit = q.unit := by
    rcases units_of_suffix ⟨as, hunit.symm⟩ with heq | ⟨hp, hq⟩
    · rw [heq, List.self_eq_append_left] at hunit
      rw [hunit, List.append_nil] at hamount
      exact ⟨(String.toList_injective hamount).symm, heq⟩
    · rw [hp, hq] at hunit
      have has : as = "milli".toList := (List.append_cancel_right hunit).symm
      refine absurd ?_ q.amount.getLast?_display
      rw [hamount, has, List.getLast?_append]
      rfl
  have hlists := congrArg String.toList h
  rw [partText, partText, String.toList_append, String.toList_append,
    List.append_eq_append_iff] at hlists
  rcases hlists with ⟨as, hq, hp⟩ | ⟨as, hp, hq⟩
  · exact hends hq hp
  · obtain ⟨hamount, hunit⟩ := hends hp hq
    exact ⟨hamount.symm, hunit.symm⟩

/-- Part texts have letters, digits, points and signs. -/
theorem partText_plain (p : DurationPart) : (partText p).toList.all isPlain = true := by
  have hamount : p.amount.display.toList.all isPlain = true := by
    rcases p.amount.display_cases with hnumeral | hword
    · exact hnumeral.plain
    · generalize p.amount.display = word at hword
      revert word
      decide
  have hunit : p.unit.name.toList.all isPlain = true := by
    cases p.unit <;> decide
  rw [partText, String.toList_append, List.all_append, hamount, hunit]
  rfl

theorem partText_ne_nil (p : DurationPart) : (partText p).toList ≠ [] := by
  rw [partText, String.toList_append]
  have hunit : p.unit.name.toList ≠ [] := by
    cases p.unit <;> decide
  exact List.append_ne_nil_of_right_ne_nil _ hunit

end Duration

end NoteQuery
