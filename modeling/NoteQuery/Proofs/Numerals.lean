/-
Plain numerals.

A plain numeral is a sign or none, digits of any script, and perhaps a point with digits behind it.
What the reader of numbers makes of one is the binary number nearest to the decimal that its digits
write (`PlainNumeral.ofChars?_chars`); the other forms of numbers, with underscores, a power of ten
or by name, are told from it by their characters.  An integer is written as a plain numeral, and
what is read of that is the integer as a binary number (`ofDecimal_integer`).
-/
import NoteQuery.Number.Reading
import NoteQuery.Proofs.LexicalGrammar
import NoteQuery.Proofs.RoundedIntegers

namespace NoteQuery

namespace Text

variable {c : Char} {d : Nat} {cs : List Char}

theorem trimChars_of_no_blank (h : ∀ c ∈ cs, isBlank c = false) : trimChars cs = cs := by
  have hleft : cs.dropWhile isBlank = cs :=
    Token.dropWhile_of_beginsNo fun c hc => h c (List.mem_of_mem_head? hc)
  have hright : cs.reverse.dropWhile isBlank = cs.reverse :=
    Token.dropWhile_of_beginsNo fun c hc =>
      h c (List.mem_reverse.mp (List.mem_of_mem_head? hc))
  rw [trimChars, trimLeft, hleft, trimRightOf, hright, List.reverse_reverse]

/-! ## Digits of any script -/

theorem digitValue?_lt (h : digitValue? c = some d) : d < 10 := by
  unfold digitValue? at h
  split at h
  · split at h
    · next hdigit =>
      cases h
      simp only [Char.isDigit, Bool.and_eq_true, decide_eq_true_eq, UInt32.le_iff_toNat_le]
        at hdigit
      exact Nat.sub_lt_left_of_lt_add hdigit.1 (Nat.lt_succ_of_le hdigit.2)
    · cases h
  · obtain ⟨z, hz, rfl⟩ := Option.map_eq_some_iff.mp h
    have hrow := List.find?_some hz
    simp only [Bool.and_eq_true, decide_eq_true_eq] at hrow
    exact Nat.sub_lt_left_of_lt_add hrow.1 hrow.2

theorem isDigit_iff : isDigit c = true ↔ ∃ d, digitValue? c = some d :=
  Option.isSome_iff_exists

theorem asciiDigit_eq (h : digitValue? c = some d) : asciiDigit c = digitChar d := by
  rw [asciiDigit, h]

theorem isDigit_digitChar (h : d < 10) : (digitChar d).isDigit = true := by
  match d, h with
  | 0, _ | 1, _ | 2, _ | 3, _ | 4, _ | 5, _ | 6, _ | 7, _ | 8, _ | 9, _ => decide

theorem isDigit_asciiDigit (h : isDigit c = true) : (asciiDigit c).isDigit = true := by
  obtain ⟨d, hd⟩ := isDigit_iff.mp h
  rw [asciiDigit_eq hd]
  exact isDigit_digitChar (digitValue?_lt hd)

theorem digitValue?_asciiDigit (h : isDigit c = true) :
    digitValue? (asciiDigit c) = digitValue? c := by
  obtain ⟨d, hd⟩ := isDigit_iff.mp h
  rw [asciiDigit_eq hd, hd]
  exact digitValue?_digitChar (digitValue?_lt hd)

/-- ASCII digits write the same number. -/
theorem digitsValue_asciiDigit (h : ∀ c ∈ cs, isDigit c = true) :
    digitsValue (cs.map asciiDigit) = digitsValue cs := by
  rw [digitsValue, List.foldl_map]
  refine List.foldl_ext _ _ 0 fun n c hc => ?_
  rw [digitValue?_asciiDigit (h c hc)]

theorem digitValue?_of_ascii (h : c.isDigit = true) : digitValue? c = some (c.toNat - 48) := by
  have hascii : c.val < 128 := by
    simp only [Char.isDigit, Bool.and_eq_true, decide_eq_true_eq] at h
    exact UInt32.lt_of_le_of_lt h.2 (by decide)
  rw [digitValue?, if_pos hascii, if_pos h]

theorem isDigit_of_ascii (h : c.isDigit = true) : isDigit c = true :=
  isDigit_iff.mpr ⟨_, digitValue?_of_ascii h⟩

theorem digitsValue_toDigits (n : Nat) : digitsValue (Nat.toDigits 10 n) = n := by
  have hchars : digitsValue (Nat.toDigits 10 n) = Nat.ofDigitChars 10 (Nat.toDigits 10 n) 0 := by
    refine List.foldl_ext _ _ 0 fun m c hc => ?_
    have hdigit := Nat.isDigit_of_mem_toDigits (by decide) (by decide) hc
    rw [digitValue?_of_ascii hdigit]
    rfl
  rw [hchars, Nat.ofDigitChars_toDigits (by decide) (by decide)]

end Text

/-! ## Numerals -/

/-- A sign or none, digits of any script, and digits behind a point, which is left out if there are
none. -/
structure PlainNumeral where
  minus? : Option Bool
  whole : List Char
  part : List Char
  whole_ne : whole ≠ []
  digits : ∀ c ∈ whole ++ part, Text.isDigit c = true

namespace PlainNumeral

variable (n : PlainNumeral)

/-- The sign as it is written. -/
def signChars : Option Bool → List Char
  | none => []
  | some true => ['-']
  | some false => ['+']

/-- The digits behind the point, and the point. -/
def partChars (part : List Char) : List Char :=
  if part.isEmpty then [] else '.' :: part

/-- The numeral as it is written. -/
def chars : List Char :=
  signChars n.minus? ++ (n.whole ++ partChars n.part)

/-- The binary number nearest to the decimal that the digits write. -/
def value : Binary64 :=
  Binary64.ofDecimal (n.minus? == some true) (Text.digitsValue (n.whole ++ n.part))
    (-n.part.length)

theorem isDigit_whole : ∀ c ∈ n.whole, Text.isDigit c = true :=
  fun c hc => n.digits c (List.mem_append_left _ hc)

theorem isDigit_part : ∀ c ∈ n.part, Text.isDigit c = true :=
  fun c hc => n.digits c (List.mem_append_right _ hc)

/-- Every character is a sign, a point or a digit. -/
theorem mem_chars {c : Char} (h : c ∈ n.chars) :
    c ∈ ['-', '+', '.'] ∨ Text.isDigit c = true := by
  simp only [chars, List.mem_append] at h
  rcases h with h | h | h
  · refine .inl ?_
    cases hsign : n.minus? with
    | none =>
      rw [hsign] at h
      cases h
    | some minus =>
      rw [hsign] at h
      cases minus with
      | true => exact List.mem_cons.mpr (.inl (List.mem_singleton.mp h))
      | false =>
        rw [List.mem_singleton.mp h]
        decide
  · exact .inr (n.isDigit_whole c h)
  · unfold partChars at h
    split at h
    · cases h
    · rcases List.mem_cons.mp h with rfl | h
      · exact .inl (by decide)
      · exact .inr (n.isDigit_part c h)

theorem isBlank_chars {c : Char} (h : c ∈ n.chars) : Text.isBlank c = false := by
  rcases n.mem_chars h with h | h
  · have hmarks : ['-', '+', '.'].all (!Text.isBlank ·) = true := by decide
    simpa using List.all_eq_true.mp hmarks c h
  · exact Token.not_isBlank_of_isDigit h

theorem all_isBlank_chars : n.chars.all Text.isBlank = false := by
  obtain ⟨c, hc⟩ := List.exists_mem_of_ne_nil _ n.whole_ne
  have hmem : c ∈ n.chars := List.mem_append_right _ (List.mem_append_left _ hc)
  exact List.all_eq_false.mpr ⟨c, hmem, Bool.eq_false_iff.mp (n.isBlank_chars hmem)⟩

/-- The numeral in ASCII digits. -/
def ascii : PlainNumeral where
  minus? := n.minus?
  whole := n.whole.map Text.asciiDigit
  part := n.part.map Text.asciiDigit
  whole_ne := fun h => n.whole_ne (List.map_eq_nil_iff.mp h)
  digits := by
    rw [← List.map_append]
    refine List.forall_mem_map.mpr fun c hc => ?_
    exact Text.isDigit_of_ascii (Text.isDigit_asciiDigit (n.digits c hc))

theorem chars_ascii : n.chars.map Text.asciiDigit = n.ascii.chars := by
  have hsign : (signChars n.minus?).map Text.asciiDigit = signChars n.minus? := by
    cases n.minus? with
    | none => rfl
    | some minus => cases minus <;> rfl
  have hpart : (partChars n.part).map Text.asciiDigit =
      partChars (n.part.map Text.asciiDigit) := by
    unfold partChars
    rw [List.isEmpty_map]
    split
    · rfl
    · rfl
  rw [chars, List.map_append, List.map_append, hsign, hpart]
  rfl

theorem value_ascii : n.ascii.value = n.value := by
  have hdigits := Text.digitsValue_asciiDigit n.digits
  rw [List.map_append] at hdigits
  simp only [value, ascii, hdigits, List.length_map]

end PlainNumeral

namespace Binary64

/-! ## Reading numerals -/

theorem takeSign_signChars (minus? : Option Bool) {cs : List Char}
    (h : Token.BeginsNo (fun c => c == '-' || c == '+') cs) :
    takeSign (PlainNumeral.signChars minus? ++ cs) = (minus? == some true, cs) := by
  cases minus? with
  | some minus => cases minus <;> rfl
  | none =>
    rw [PlainNumeral.signChars, List.nil_append]
    unfold takeSign
    split
    · exact absurd (h _ rfl) (by decide)
    · exact absurd (h _ rfl) (by decide)
    · rfl

theorem exists_signChars (cs : List Char) :
    ∃ minus?, cs = PlainNumeral.signChars minus? ++ (takeSign cs).2 ∧
      (takeSign cs).1 = (minus? == some true) := by
  unfold takeSign
  split
  · exact ⟨some true, rfl, rfl⟩
  · exact ⟨some false, rfl, rfl⟩
  · exact ⟨none, rfl, rfl⟩

theorem withoutSeparators?_eq_some {b : Bool} {cs : List Char} (h : '_' ∉ cs) :
    withoutSeparators? b cs = some cs := by
  induction cs generalizing b with
  | nil => rfl
  | cons c cs ih =>
    rw [List.mem_cons, not_or] at h
    rw [withoutSeparators?, ih h.2]
    · rfl
    · rintro d ds rfl
      exact absurd rfl h.1
    · rintro rfl
      exact absurd rfl h.1

/-- The numbers that are read by name begin with other characters than digits. -/
theorem ne_name_of_isDigit {c : Char} {cs : List Char} {name : String} (hc : c.isDigit = true)
    (hname : name.toList.head? = some 'i' ∨ name.toList.head? = some 'n') :
    String.ofList ((c :: cs).map Char.toLower) ≠ name := by
  have hall : ∀ n < 58, (Char.ofNat n).isDigit = true →
      (Char.ofNat n).toLower ≠ 'i' ∧ (Char.ofNat n).toLower ≠ 'n' := by decide
  have hlt : c.toNat < 58 := by
    simp only [Char.isDigit, Bool.and_eq_true, decide_eq_true_eq, UInt32.le_iff_toNat_le] at hc
    exact Nat.lt_succ_of_le hc.2
  have hne := hall c.toNat hlt
  rw [Char.ofNat_toNat] at hne
  rintro rfl
  rw [String.toList_ofList, List.map_cons, List.head?_cons, Option.some.injEq,
    Option.some.injEq] at hname
  exact hname.elim (hne hc).1 (hne hc).2

theorem beginsNo_partChars {p : Char → Bool} (hp : p '.' = false) (part : List Char) :
    Token.BeginsNo p (PlainNumeral.partChars part) := by
  unfold PlainNumeral.partChars
  split
  · exact fun c hc => nomatch hc
  · rintro _ ⟨⟩
    exact hp

theorem readMagnitude?_chars (negative : Bool) {whole part : List Char} (hne : whole ≠ [])
    (hwhole : ∀ c ∈ whole, c.isDigit = true) (hpart : ∀ c ∈ part, c.isDigit = true) :
    readMagnitude? negative (whole ++ PlainNumeral.partChars part) =
      some (ofDecimal negative (Text.digitsValue (whole ++ part)) (-part.length)) := by
  have hread : (whole ++ PlainNumeral.partChars part).takeWhile Char.isDigit = whole :=
    Token.takeWhile_append_of_beginsNo hwhole (beginsNo_partChars rfl part)
  have hempty : whole.isEmpty = false := Bool.eq_false_iff.mpr (mt List.isEmpty_iff.mp hne)
  rw [readMagnitude?, hread, List.drop_left]
  cases part with
  | nil =>
    simp only [PlainNumeral.partChars, List.isEmpty_nil, if_true, hempty, Bool.false_and,
      Bool.false_eq_true, if_false, readExponent?, Option.map_some, Int.zero_sub]
  | cons c part =>
    have htake : (c :: part).takeWhile Char.isDigit = c :: part :=
      List.takeWhile_eq_self_iff.mpr hpart
    have hdrop : (c :: part).dropWhile Char.isDigit = [] := List.dropWhile_eq_nil_iff.mpr hpart
    simp only [PlainNumeral.partChars, List.isEmpty_cons, Bool.false_eq_true, if_false, htake,
      hdrop, hempty, Bool.false_and, readExponent?, Option.map_some, Int.zero_sub]

end Binary64

namespace PlainNumeral

variable (n : PlainNumeral)

/-- A numeral in ASCII digits begins, behind its sign, with a digit. -/
theorem exists_digit (h : ∀ c ∈ n.whole, c.isDigit = true) :
    ∃ c cs, n.whole ++ partChars n.part = c :: cs ∧ c.isDigit = true := by
  obtain ⟨c, whole, hwhole⟩ := List.exists_cons_of_ne_nil n.whole_ne
  rw [hwhole] at h ⊢
  exact ⟨c, _, rfl, h c List.mem_cons_self⟩

/-- The reader of numbers reads of a numeral the number that its digits write. -/
theorem ofChars?_chars : Binary64.ofChars? n.chars = some n.value := by
  have hwhole : ∀ c ∈ n.ascii.whole, c.isDigit = true :=
    List.forall_mem_map.mpr fun c hc => Text.isDigit_asciiDigit (n.isDigit_whole c hc)
  have hpart : ∀ c ∈ n.ascii.part, c.isDigit = true :=
    List.forall_mem_map.mpr fun c hc => Text.isDigit_asciiDigit (n.isDigit_part c hc)
  obtain ⟨c, cs, hbody, hc⟩ := n.ascii.exists_digit hwhole
  have hchars : n.ascii.chars = signChars n.minus? ++ (c :: cs) := by
    rw [← hbody]
    rfl
  have hsign : Binary64.takeSign n.ascii.chars = (n.minus? == some true, c :: cs) := by
    rw [hchars]
    refine Binary64.takeSign_signChars _ ?_
    rintro _ ⟨⟩
    rw [Bool.or_eq_false_iff, beq_eq_false_iff_ne, beq_eq_false_iff_ne]
    constructor <;> (rintro rfl; exact absurd hc (by decide))
  have hseparators : '_' ∉ c :: cs := by
    intro hmem
    have hmem' : '_' ∈ n.ascii.chars := hchars ▸ List.mem_append_right _ hmem
    rcases n.ascii.mem_chars hmem' with h | h
    · exact absurd h (by decide)
    · exact absurd h (by decide)
  -- Of the forms that a number may have, only that of digits and a point begins with a digit.
  rw [Binary64.ofChars?, Text.trimChars_of_no_blank fun _ => n.isBlank_chars, chars_ascii, hsign]
  dsimp only
  rw [if_neg, if_neg, Binary64.withoutSeparators?_eq_some hseparators, Option.bind_some, ← hbody,
    Binary64.readMagnitude?_chars _ n.ascii.whole_ne hwhole hpart]
  · exact congrArg some n.value_ascii
  · exact Binary64.ne_name_of_isDigit hc (.inr rfl)
  · rw [Bool.or_eq_true, decide_eq_true_eq, decide_eq_true_eq]
    rintro (h | h)
    · exact Binary64.ne_name_of_isDigit hc (.inl rfl) h
    · exact Binary64.ne_name_of_isDigit hc (.inl rfl) h

/-! ## Integers -/

/-- An integer as it is written. -/
def ofInt (n : Int) : PlainNumeral where
  minus? := if n < 0 then some true else none
  whole := Nat.toDigits 10 n.natAbs
  part := []
  whole_ne := Nat.toDigits_ne_nil
  digits := by
    rw [List.append_nil]
    exact fun c hc =>
      Text.isDigit_of_ascii (Nat.isDigit_of_mem_toDigits (by decide) (by decide) hc)

theorem chars_ofInt (n : Int) : (ofInt n).chars = Number.integerText n := by
  rw [chars, ofInt, Number.integerText]
  split
  · exact congrArg ('-' :: ·) (List.append_nil _)
  · exact List.append_nil _

end PlainNumeral

namespace Binary64

theorem two_pow_le_ten_pow {j k : Nat} (h : j ≤ 3 * k) : 2 ^ j ≤ 10 ^ k :=
  calc 2 ^ j ≤ 2 ^ (3 * k) := Nat.pow_le_pow_right two_pos h
    _ = 8 ^ k := pow_mul 2 3 k
    _ ≤ 10 ^ k := Nat.pow_le_pow_left (by norm_num) k

theorem ten_pow_le_two_pow (k : Nat) : 10 ^ (3 * k) ≤ 2 ^ (10 * k) :=
  calc 10 ^ (3 * k) = 1000 ^ k := pow_mul 10 3 k
    _ ≤ 1024 ^ k := Nat.pow_le_pow_left (by norm_num) k
    _ = 2 ^ (10 * k) := (pow_mul 2 10 k).symm

/-- Integers of few digits, such as 300, are in range. -/
theorem lt_overflowStart_of_digits {n k : Nat} (h : (Nat.toDigits 10 n).length ≤ 3 * k)
    (hpos : 0 < k) (hk : 10 * k ≤ 53 + 970) : n < overflowStart := by
  rw [Nat.length_toDigits_le_iff (by decide) (by omega)] at h
  exact h.trans ((ten_pow_le_two_pow k).trans_lt (two_pow_lt_overflowStart hk))

theorem length_toDigits_le {n k : Nat} (hn : n < overflowStart) (hk : 54 + 970 ≤ 3 * k) :
    (Nat.toDigits 10 n).length ≤ k := by
  rw [Nat.length_toDigits_le_iff (by decide) (by omega)]
  exact hn.trans_le (overflowStart_le_two_pow.trans (two_pow_le_ten_pow hk))

/-- In decimals, too, an integer in range stands for the nearest binary number. -/
theorem ofDecimal_integer {n : Int} (hn : n.natAbs < overflowStart) :
    ofDecimal (n < 0) n.natAbs 0 = ofInt n := by
  have hlength : (Nat.toDigits 10 n.natAbs).length ≤ 400 := length_toDigits_le hn (by omega)
  unfold ofDecimal ofInt
  split
  · next hzero => rw [hzero, ofRatio, if_pos rfl]
  · dsimp only
    rw [if_neg (by omega), if_neg (by omega), if_pos le_rfl]
    congr 1
    exact Nat.mul_one _

end Binary64

/-- Integers in the range of the binary numbers can be written. -/
theorem Number.isWritable_of_lt {n : Int} (hn : n.natAbs < Binary64.overflowStart) :
    (int n).isWritable = true := by
  have hdigits : (Nat.toDigits 10 n.natAbs).length ≤ 4300 :=
    Binary64.length_toDigits_le hn (by omega)
  rw [isWritable, integerText, if_neg (by omega), Int.natAbs_natCast]
  exact decide_eq_true hdigits

/-- What is read of an integer in range is the binary number nearest to it. -/
theorem PlainNumeral.value_ofInt {n : Int} (hn : n.natAbs < Binary64.overflowStart) :
    (ofInt n).value = Binary64.ofInt n := by
  have hsign : ((ofInt n).minus? == some true) = decide (n < 0) := by
    rw [ofInt]
    split
    · next h => exact (decide_eq_true h).symm
    · next h => exact (decide_eq_false h).symm
  rw [← Binary64.ofDecimal_integer hn, value, hsign, ofInt, List.append_nil,
    Text.digitsValue_toDigits]
  rfl

end NoteQuery
