import ObjectMapping.Json.Outline
import ObjectMapping.Json.Printer

/-! # Strings and whole numbers are read back

The escapes of a string are undone when it is read, whatever follows its closing quote. A whole number
is read back from its digits where they end the text.

* `Cursor.readChars_escaped`: the escapes of a string are undone.
* `Cursor.readNumber_toDigits`: decimal digits are read as the number that they write.
* **`Json.ofText_compact_int`** — a whole number that is written as a document is read as the same
  document. -/

namespace ObjectMapping

namespace Cursor

/-! ## Moving on -/

/-- Going on by one character takes it off the rest. -/
theorem rest_advance (c : Cursor) : c.advance.rest = c.rest.tail := by
  unfold advance
  split
  · next hrest => rw [hrest, List.tail_nil]
  · next hrest => rw [hrest, List.tail_cons]
  · next hrest => rw [hrest, List.tail_cons]

/-- Skipping characters takes as many off the rest. -/
theorem rest_skipList (run : List Char) (c : Cursor) :
    (skipList run c).rest = c.rest.drop run.length := by
  induction run generalizing c with
  | nil => rfl
  | cons d run ih => rw [skipList, ih, rest_advance, List.drop_tail, List.length_cons]

/-- The next character is the first one of the rest. -/
theorem peek?_cons {c : Cursor} {d : Char} {rest : List Char} (h : c.rest = d :: rest) :
    c.peek? = some d := by
  rw [peek?, h, List.head?_cons]

/-- Going on by one character leaves what comes after it. -/
theorem rest_advance_cons {c : Cursor} {d : Char} {rest : List Char} (h : c.rest = d :: rest) :
    c.advance.rest = rest := by
  rw [rest_advance, h, List.tail_cons]

/-- Nothing is skipped where there is no space. -/
theorem skipSpaces_eq_self {c : Cursor} (h : ∀ d ∈ c.rest.head?, isSpace d = false) :
    c.skipSpaces = c := by
  have hrun : c.rest.takeWhile isSpace = [] := by
    cases hrest : c.rest with
    | nil => rfl
    | cons d rest =>
      rw [List.takeWhile_cons_of_neg]
      simpa using h d (by rw [hrest, List.head?_cons]; rfl)
  rw [skipSpaces, hrun, skipList]

/-! ## Strings -/

/-- The digit of a number is read as that number. -/
theorem hexValue?_hexDigit : ∀ n < 16, hexValue? (Json.hexDigit n) = some n := by
  decide

/-- A character written by its number is read back. -/
theorem readEscape_unicode {c : Cursor} {char : Char} {rest : List Char} (hlow : char.toNat < 32)
    (hrest : c.rest = 'u' :: '0' :: '0' :: Json.hexDigit (char.toNat / 16) ::
      Json.hexDigit (char.toNat % 16) :: rest) :
    ∃ after, readEscape c = .ok (char, after) ∧ after.rest = rest := by
  have hdigits := rest_advance_cons hrest
  have hhigh := hexValue?_hexDigit (char.toNat / 16) (by omega)
  have hlast := hexValue?_hexDigit (char.toNat % 16) (by omega)
  -- the two zeros in front do not count
  have hread : c.advance.readHex = .ok (char.toNat, skipList (c.advance.rest.take 4) c.advance) := by
    have hvalue : ((0 * 16 + 0) * 16 + char.toNat / 16) * 16 + char.toNat % 16 = char.toNat := by
      omega
    simp only [readHex, hdigits, List.take_succ_cons, List.take_zero, hhigh, hlast,
      show hexValue? '0' = some 0 from rfl, hvalue]
  refine ⟨skipList (c.advance.rest.take 4) c.advance, ?_, ?_⟩
  · rw [readEscape, peek?_cons hrest]
    show c.advance.readUnicode = _
    rw [readUnicode, hread]
    show (if _ then _ else _) = _
    rw [if_neg (by omega), if_pos (by omega), Char.ofNat_toNat]
  · rw [rest_skipList, hdigits]
    rfl

/-- The letters that stand for a character behind a backslash, with the character. -/
def escapeLetters : List (Char × Char) :=
  [('"', '"'), ('\\', '\\'), ('n', '\n'), ('r', '\r'), ('t', '\t'), ('b', Char.ofNat 8),
    ('f', Char.ofNat 12)]

/-- A character written with a letter is read back. -/
theorem readEscape_letter {c : Cursor} {letter char : Char} {rest : List Char}
    (hrest : c.rest = letter :: rest)
    (hletter : (letter, char) ∈ escapeLetters) :
    readEscape c = .ok (char, c.advance) := by
  rw [readEscape, peek?_cons hrest]
  simp only [escapeLetters, List.mem_cons, Prod.mk.injEq, List.not_mem_nil, or_false] at hletter
  rcases hletter with ⟨rfl, rfl⟩ | ⟨rfl, rfl⟩ | ⟨rfl, rfl⟩ | ⟨rfl, rfl⟩ | ⟨rfl, rfl⟩ | ⟨rfl, rfl⟩ |
    ⟨rfl, rfl⟩ <;> rfl

/-- A backslash and what comes after it are read as one character. -/
theorem readChars_escape {c after : Cursor} {char : Char} {rest collected : List Char} {steps : Nat}
    (hrest : c.rest = '\\' :: rest) (hread : readEscape c.advance = .ok (char, after)) :
    readChars collected c (steps + 1) = readChars (char :: collected) after steps := by
  rw [readChars, peek?_cons hrest]
  show (readEscape c.advance >>= _) = _
  rw [hread]
  rfl

/-- A character with its escape, if it needs one, is one step. -/
theorem readChars_escapeChar {c : Cursor} {char : Char} {rest : List Char}
    (hrest : c.rest = Json.escapeChar char ++ rest) (collected : List Char) (steps : Nat) :
    ∃ after, after.rest = rest ∧
      readChars collected c (steps + 1) = readChars (char :: collected) after steps := by
  have hshort : ∀ letter, c.rest = '\\' :: letter :: rest → (letter, char) ∈ escapeLetters →
      ∃ after, after.rest = rest ∧
        readChars collected c (steps + 1) = readChars (char :: collected) after steps := by
    intro letter hrest hletter
    have hnext := rest_advance_cons hrest
    exact ⟨c.advance.advance, rest_advance_cons hnext,
      readChars_escape hrest (readEscape_letter hnext hletter)⟩
  have hchar : ∀ n, char.toNat = n → char = Char.ofNat n := fun n hn =>
    hn ▸ (Char.ofNat_toNat char).symm
  unfold Json.escapeChar at hrest
  split at hrest
  · next heq => exact hshort '"' hrest (by rw [eq_of_beq heq]; decide)
  split at hrest
  · next heq => exact hshort '\\' hrest (by rw [eq_of_beq heq]; decide)
  split at hrest
  · next heq => exact hshort 'n' hrest (by rw [eq_of_beq heq]; decide)
  split at hrest
  · next heq => exact hshort 'r' hrest (by rw [eq_of_beq heq]; decide)
  split at hrest
  · next heq => exact hshort 't' hrest (by rw [eq_of_beq heq]; decide)
  split at hrest
  · next heq => exact hshort 'b' hrest (by rw [hchar 8 (eq_of_beq heq)]; decide)
  split at hrest
  · next heq => exact hshort 'f' hrest (by rw [hchar 12 (eq_of_beq heq)]; decide)
  split at hrest
  · next hlow =>
    have hnext := rest_advance_cons hrest
    obtain ⟨after, hread, hafter⟩ := readEscape_unicode hlow hnext
    exact ⟨after, hafter, readChars_escape hrest hread⟩
  · next hquote hslash _ _ _ _ _ hlow =>
    -- the character stands for itself, since it neither ends the string nor starts an escape
    refine ⟨c.advance, rest_advance_cons hrest, ?_⟩
    rw [readChars, peek?_cons hrest]
    split
    · next heq => cases heq
    · next heq =>
      obtain rfl := Option.some.inj heq
      exact absurd rfl hquote
    · next heq =>
      obtain rfl := Option.some.inj heq
      exact absurd rfl hslash
    · next found _ _ heq =>
      obtain rfl := Option.some.inj heq
      rw [if_neg hlow]

/-- No character is left out when a string is escaped. -/
theorem length_le_escaped (cs : List Char) : cs.length ≤ (cs.flatMap Json.escapeChar).length := by
  induction cs with
  | nil => exact Nat.le_refl 0
  | cons c cs ih =>
    have hpos : 0 < (Json.escapeChar c).length := by
      unfold Json.escapeChar
      repeat' split
      all_goals exact Nat.succ_pos _
    rw [List.flatMap_cons, List.length_append, List.length_cons]
    omega

/-- **The escapes of a string are undone**, up to the closing quote. -/
theorem readChars_escaped {cs rest : List Char} {c : Cursor} {steps : Nat}
    (hrest : c.rest = cs.flatMap Json.escapeChar ++ '"' :: rest) (hsteps : cs.length < steps)
    (collected : List Char) :
    ∃ after, after.rest = rest ∧
      readChars collected c steps = .ok (String.ofList (collected.reverse ++ cs), after) := by
  induction cs generalizing c steps collected with
  | nil =>
    cases steps with
    | zero => cases hsteps
    | succ steps =>
      refine ⟨c.advance, rest_advance_cons hrest, ?_⟩
      rw [readChars, peek?_cons hrest, List.append_nil]
      rfl
  | cons char cs ih =>
    cases steps with
    | zero => cases hsteps
    | succ steps =>
      rw [List.flatMap_cons, List.append_assoc] at hrest
      obtain ⟨next, hnext, hstep⟩ := readChars_escapeChar hrest collected steps
      obtain ⟨after, hafter, hread⟩ := ih hnext (Nat.lt_of_succ_lt_succ hsteps) (char :: collected)
      refine ⟨after, hafter, ?_⟩
      rw [hstep, hread, List.reverse_cons, List.append_assoc, List.singleton_append]

/-! ## Numbers -/

/-- More digits never make a number smaller. -/
theorem le_ofDigitChars (n : Nat) (ds : List Char) : n ≤ Nat.ofDigitChars 10 ds n := by
  rw [Nat.ofDigitChars_eq_ofDigitChars_zero]
  have hpos : 0 < 10 ^ ds.length := Nat.pow_pos (by omega)
  calc n ≤ 10 ^ ds.length * n := Nat.le_mul_of_pos_left n hpos
    _ ≤ 10 ^ ds.length * n + Nat.ofDigitChars 10 ds 0 := Nat.le_add_right _ _

/-- Digits of a number of 64 bits are all used. -/
theorem appendDigits_eq {n : Nat} {ds : List Char} (h : Nat.ofDigitChars 10 ds n ≤ maxWord) :
    appendDigits n ds = (Nat.ofDigitChars 10 ds n, []) := by
  induction ds generalizing n with
  | nil => rw [appendDigits, Nat.ofDigitChars_nil]
  | cons d ds ih =>
    rw [Nat.ofDigitChars_cons] at h ⊢
    -- the whole number is at least the part of it that has been read
    have hfits := Nat.le_trans (le_ofDigitChars _ ds) h
    rw [appendDigits]
    show (if 10 * n + (d.toNat - '0'.toNat) ≤ maxWord then _ else _) = _
    rw [if_pos hfits]
    exact ih h

/-- A number that starts with a zero is zero. -/
theorem toDigits_zero_cons {n : Nat} {ds : List Char} (h : Nat.toDigits 10 n = '0' :: ds) :
    ds = [] := by
  induction n using Nat.strongRecOn generalizing ds with
  | ind n ih =>
    by_cases hsmall : n < 10
    · rw [Nat.toDigits_of_lt_base hsmall] at h
      exact (List.cons.inj h).2.symm
    · -- the digits in front of the last one would be a zero, but their number is not zero
      rw [Nat.toDigits_of_base_le (by omega) (by omega)] at h
      cases hfront : Nat.toDigits 10 (n / 10) with
      | nil => exact absurd hfront Nat.toDigits_ne_nil
      | cons d front =>
        rw [hfront, List.cons_append] at h
        obtain ⟨rfl, -⟩ := List.cons.inj h
        obtain rfl := ih (n / 10) (by omega) hfront
        have hvalue := Nat.ofDigitChars_ten_toDigits (n := n / 10)
        rw [hfront] at hvalue
        have hzero : Nat.ofDigitChars 10 ['0'] 0 = 0 := by decide
        omega

/-- **Decimal digits are read as the number that they write**, up to the end of the text. -/
theorem readNumber_toDigits {c : Cursor} {n : Nat} (hrest : c.rest = Nat.toDigits 10 n)
    (hbound : n ≤ maxWord) (negative : Bool) :
    ∃ after, after.rest = [] ∧ readNumber negative c = .ok (wholeNumber negative n, after) := by
  have hdigit : ∀ d ∈ Nat.toDigits 10 n, d.isDigit = true := fun d hd =>
    Nat.isDigit_of_mem_toDigits (by omega) (by omega) hd
  have hrun : c.digits = Nat.toDigits 10 n := by
    have hall : (Nat.toDigits 10 n ++ []).takeWhile Char.isDigit = Nat.toDigits 10 n ++ _ :=
      List.takeWhile_append_of_pos hdigit
    rw [List.takeWhile_nil, List.append_nil] at hall
    rw [digits, hrest, hall]
  have hafter : (skipList (Nat.toDigits 10 n) c).rest = [] := by
    rw [rest_skipList, hrest, List.drop_length]
  have happend : appendDigits 0 (Nat.toDigits 10 n) = (n, []) := by
    rw [appendDigits_eq (by rwa [Nat.ofDigitChars_ten_toDigits]), Nat.ofDigitChars_ten_toDigits]
  refine ⟨skipList (Nat.toDigits 10 n) c, hafter, ?_⟩
  cases hdigits : Nat.toDigits 10 n with
  | nil => exact absurd hdigits Nat.toDigits_ne_nil
  | cons d ds =>
    have hfirst : d.isDigit = true := hdigit d (hdigits ▸ List.mem_cons_self)
    -- a leading zero is refused in front of further digits, and `toDigits` writes none
    have hplain : (d == '0' && decide (1 < (d :: ds).length)) = false := by
      rw [Bool.and_eq_false_iff, beq_eq_false_iff_ne, decide_eq_false_iff_not]
      by_cases hzero : d = '0'
      · subst hzero
        simp [toDigits_zero_cons hdigits]
      · exact .inl hzero
    rw [hdigits] at hrest hrun hafter happend
    rw [readNumber, peek?_cons hrest]
    simp only [hfirst, Bool.not_true, Bool.false_eq_true, if_false, hrun, hplain, happend]
    rw [peek?, hafter]
    rfl

/-! ## Documents -/

/-- A digit is no space. -/
theorem isSpace_of_isDigit {d : Char} (h : d.isDigit = true) : isSpace d = false := by
  have hne : ∀ c : Char, c.isDigit = false → (d == c) = false := fun c hc =>
    beq_eq_false_iff_ne.mpr fun heq => by rw [heq, hc] at h; cases h
  rw [isSpace, hne ' ' rfl, hne '\n' rfl, hne '\t' rfl, hne '\r' rfl]
  rfl

/-- A document that starts with a digit is a number. -/
theorem readScalar_of_isDigit {d : Char} (h : d.isDigit = true) (c : Cursor) :
    Outline.readScalar d c = (c.readNumber false).map fun (n, after) => (.number n, after) := by
  unfold Outline.readScalar
  split
  all_goals first | cases h | rw [if_pos h]

/-- A scalar document that takes up the whole text is read from it. -/
theorem ofText_of_readScalar {text : String} {first : Char} {rest : List Char} {document : Json}
    {after : Cursor} (hrest : text.toList = first :: rest) (hspace : isSpace first = false)
    (harray : first ≠ '[') (hobject : first ≠ '\x7b')
    (hread : Outline.readScalar first (ofText text) = .ok (document, after))
    (hafter : after.rest = []) :
    Json.ofText text = .ok document := by
  have hstart : (ofText text).skipSpaces = ofText text := by
    refine skipSpaces_eq_self fun d hd => ?_
    have hhead : (ofText text).rest.head? = some first := by rw [ofText, hrest, List.head?_cons]
    rw [hhead] at hd
    obtain rfl := Option.some.inj hd
    exact hspace
  have hpeek : (ofText text).peek? = some first :=
    peek?_cons (show (ofText text).rest = _ from hrest)
  have hend : after.skipSpaces = after := skipSpaces_eq_self (by simp [hafter])
  have houtline : Outline.ofText text
      = (.scalar document (ofText text).position after.position, some after) := by
    rw [Outline.ofText]
    show Outline.read 128 (ofText text) (2 * _ + 1 + 1) = _
    -- the first character opens neither an array nor an object, so the text is a scalar
    rw [Outline.read, hstart, hpeek]
    split
    · next heq => cases heq
    · next heq => exact absurd (Option.some.inj heq) harray
    · next heq => exact absurd (Option.some.inj heq) hobject
    · next heq =>
      obtain rfl := Option.some.inj heq
      rw [hread, Outline.ofScalar]
  rw [Json.ofText, houtline]
  show (if after.skipSpaces.rest.isEmpty = true then _ else _) = _
  rw [hend, hafter]
  rfl

end Cursor

namespace Json

open Cursor

/-- A string is written in quotes, character by character. -/
theorem toList_compact_string (s : String) :
    (string s).compact.toList = '"' :: (s.toList.flatMap escapeChar ++ ['"']) := by
  simp [compact, quoted]

/-- **A whole number of 64 bits, signed or unsigned, is read back.** -/
theorem ofText_compact_int {i : Int} (hlow : -(Nat.pow 2 63 : Int) ≤ i)
    (hhigh : i ≤ (maxWord : Int)) :
    ofText (number (.int i)).compact = .ok (.number (.int i)) := by
  have hhalf : Nat.pow 2 63 = 9223372036854775808 := by decide
  have hword : maxWord = 18446744073709551615 := by decide
  cases i with
  | ofNat n =>
    have htext : (number (.int (.ofNat n))).compact.toList = Nat.toDigits 10 n := by
      show (toString n).toList = _
      rw [Nat.toString_eq_ofList_toDigits, String.toList_ofList]
    -- digits are read as a word; a minus sign is looked at before them
    have hbound : n ≤ maxWord := by
      rw [Int.ofNat_eq_natCast] at hhigh
      omega
    generalize (number (.int (.ofNat n))).compact = text at htext ⊢
    obtain ⟨after, hafter, hread⟩ :=
      readNumber_toDigits (show (Cursor.ofText text).rest = _ from htext) hbound false
    cases hdigits : Nat.toDigits 10 n with
    | nil => exact absurd hdigits Nat.toDigits_ne_nil
    | cons d ds =>
      have hdigit : d.isDigit = true :=
        Nat.isDigit_of_mem_toDigits (by omega) (by omega) (hdigits ▸ List.mem_cons_self)
      refine ofText_of_readScalar (htext.trans hdigits) (isSpace_of_isDigit hdigit) ?_ ?_ ?_ hafter
      · rintro rfl
        cases hdigit
      · rintro rfl
        cases hdigit
      · rw [readScalar_of_isDigit hdigit, hread]
        rfl
  | negSucc n =>
    have htext : (number (.int (.negSucc n))).compact.toList = '-' :: Nat.toDigits 10 (n + 1) := by
      show ("-" ++ toString (n + 1)).toList = _
      rw [Nat.toString_eq_ofList_toDigits]
      simp
    have hbound : n + 1 ≤ maxWord := by
      rw [Int.negSucc_eq] at hlow
      omega
    generalize (number (.int (.negSucc n))).compact = text at htext ⊢
    have hrest : (Cursor.ofText text).advance.rest = Nat.toDigits 10 (n + 1) :=
      rest_advance_cons htext
    obtain ⟨after, hafter, hread⟩ := readNumber_toDigits hrest hbound true
    -- a negative number that fits stays whole
    have hwhole : wholeNumber true (n + 1) = .int (.negSucc n) := by
      have hsmall : ¬ Nat.pow 2 63 < n + 1 := by
        rw [Int.negSucc_eq] at hlow
        omega
      simp [wholeNumber, hsmall, Int.negSucc_eq]
    refine ofText_of_readScalar htext rfl (by decide) (by decide) ?_ hafter
    show ((Cursor.ofText text).advance.readNumber true).map _ = _
    rw [hread, hwhole]
    rfl

end Json

end ObjectMapping
