import ObjectMapping.Calendar

/-! # Dates and date-times are read back

What is written for a date or a date-time is read as the same one. The writers pad every number but
a large year to a fixed width, so a reader that stops after so many digits stops in the right place;
a large year is followed by a dash.

* `Text.toList_padded`, `Calendar.readDigits_append`: padded numbers, and runs of digits.
* **`Date.ofText?_toText`** — a date is read back.
* **`DateTime.ofText?_toText`** — a date-time is read back, its fraction included. -/

namespace ObjectMapping

/-- A digit is never blank. -/
theorem Text.isBlank_of_isDigit {c : Char} (h : c.isDigit = true) : Text.isBlank c = false := by
  obtain ⟨hlow, hhigh⟩ : 48 ≤ c.toNat ∧ c.toNat ≤ 57 := Char.isDigit_iff_toNat.mp h
  simp only [isBlank, Bool.or_eq_false_iff, Bool.and_eq_false_iff, decide_eq_false_iff_not,
    beq_eq_false_iff_ne]
  omega

/-- Padding puts copies of the character behind the text. -/
theorem Text.toList_pushn (s : String) (c : Char) (n : Nat) :
    (s.pushn c n).toList = s.toList ++ List.replicate n c := by
  rw [String.pushn_eq_repeat_push]
  induction n with
  | zero => simp [Nat.repeat]
  | succ n ih => rw [Nat.repeat, String.toList_push, ih, List.append_assoc, List.replicate_succ']

/-- A padded number is written with zeros in front of its digits. -/
theorem Text.toList_padded (width n : Nat) :
    (Text.padded width n).toList
      = List.replicate (width - (Nat.toDigits 10 n).length) '0' ++ Nat.toDigits 10 n := by
  rw [padded, Nat.toString_eq_ofList_toDigits]
  simp [toList_pushn]

/-- A padded number is written in digits only. -/
theorem Text.isDigit_padded {width n : Nat} {c : Char} (h : c ∈ (Text.padded width n).toList) :
    c.isDigit = true := by
  rw [toList_padded, List.mem_append] at h
  rcases h with hzero | hdigit
  · obtain rfl := List.eq_of_mem_replicate hzero
    rfl
  · exact Nat.isDigit_of_mem_toDigits (by omega) (by omega) hdigit

/-- However short the padding, there is a digit at the front. -/
theorem Text.exists_padded (width n : Nat) :
    ∃ c others, (Text.padded width n).toList = c :: others ∧ c.isDigit = true := by
  cases hlist : (Text.padded width n).toList with
  | nil =>
    rw [toList_padded, List.append_eq_nil_iff] at hlist
    exact absurd hlist.2 Nat.toDigits_ne_nil
  | cons c others => exact ⟨c, others, rfl, isDigit_padded (hlist ▸ List.mem_cons_self)⟩

/-- A padded number is written with one character at least. -/
theorem Text.padded_ne_nil (width n : Nat) : (Text.padded width n).toList ≠ [] := by
  obtain ⟨c, others, hlist, -⟩ := exists_padded width n
  simp [hlist]

/-- A number that fits takes exactly as many places as it is padded to. -/
theorem Text.length_padded {width n : Nat} (hwidth : 0 < width) (h : n < Nat.pow 10 width) :
    (Text.padded width n).toList.length = width := by
  have hle := (Nat.length_toDigits_le_iff (b := 10) (by omega) hwidth).mpr h
  rw [toList_padded, List.length_append, List.length_replicate]
  omega

/-- Zeros in front do not count. -/
theorem Text.ofDigitChars_padded (width n : Nat) :
    Nat.ofDigitChars 10 (Text.padded width n).toList 0 = n := by
  rw [toList_padded, Nat.ofDigitChars_append, Nat.ofDigitChars_replicate_zero, Nat.mul_zero,
    Nat.ofDigitChars_ten_toDigits]

namespace Calendar

/-! ## Numbers -/

/-- A run of digits is read as a whole if it fills the width or nothing but a digit follows it. -/
theorem readDigits_append {width : Nat} {digits rest : List Char} (hne : digits ≠ [])
    (hdigits : ∀ c ∈ digits, c.isDigit = true) (hlength : digits.length ≤ width)
    (hstop : digits.length = width ∨ ∀ c ∈ rest.head?, c.isDigit = false) :
    readDigits width (digits ++ rest) = some (Nat.ofDigitChars 10 digits 0, rest) := by
  have hrun : ((digits ++ rest).take width).takeWhile Char.isDigit = digits := by
    rw [List.take_append, List.take_of_length_le hlength, List.takeWhile_append_of_pos hdigits]
    have htail : ((rest.take (width - digits.length)).takeWhile Char.isDigit) = [] := by
      rcases hstop with hfull | hend
      · rw [hfull, Nat.sub_self, List.take_zero, List.takeWhile_nil]
      · cases rest with
        | nil => rw [List.take_nil, List.takeWhile_nil]
        | cons c others =>
          cases width - digits.length with
          | zero => rfl
          | succ room =>
            rw [List.take_succ_cons, List.takeWhile_cons_of_neg]
            simpa using hend c rfl
    rw [htail, List.append_nil]
  have hempty : digits.isEmpty = false := by simpa using hne
  rw [readDigits, hrun, hempty, if_neg Bool.false_ne_true, List.drop_left,
    Nat.ofDigitChars_eq_foldl]

/-- A number padded to the width of a field is read back, whatever follows. -/
theorem readDigits_padded {width n : Nat} (hwidth : 0 < width) (h : n < Nat.pow 10 width)
    (rest : List Char) :
    readDigits width ((Text.padded width n).toList ++ rest) = some (n, rest) := by
  have hlength := Text.length_padded hwidth h
  rw [readDigits_append (Text.padded_ne_nil width n) (fun c => Text.isDigit_padded)
    (Nat.le_of_eq hlength) (.inl hlength), Text.ofDigitChars_padded]

/-- Text that starts with a digit has no leading blanks. -/
theorem dropBlanks_padded (width n : Nat) (rest : List Char) :
    Text.dropBlanks ((Text.padded width n).toList ++ rest)
      = (Text.padded width n).toList ++ rest := by
  obtain ⟨c, others, hlist, hdigit⟩ := Text.exists_padded width n
  rw [hlist, List.cons_append, Text.dropBlanks, List.dropWhile_cons_of_neg]
  rw [Text.isBlank_of_isDigit hdigit]
  exact Bool.false_ne_true

/-- A number below a hundred, padded to two digits, is read back. -/
theorem readPair_padded {n : Nat} (h : n < 100) (rest : List Char) :
    readPair ((Text.padded 2 n).toList ++ rest) = some (n, rest) := by
  rw [readPair, dropBlanks_padded, readDigits_padded (by omega) h]

/-! ## Dates -/

/-- A year with a sign may be longer than its padding; the dash behind it ends it. -/
theorem readDigits_signed (n : Nat) (rest : List Char) :
    readDigits ((Text.padded 4 n).toList ++ '-' :: rest).length
      ((Text.padded 4 n).toList ++ '-' :: rest) = some (n, '-' :: rest) := by
  rw [readDigits_append (Text.padded_ne_nil 4 n) (fun c => Text.isDigit_padded) (by simp)
    (.inr (by simp)), Text.ofDigitChars_padded]

/-- A year without a sign is one of four digits. -/
theorem readYear_unsigned {n : Nat} (h : n < 10000) (rest : List Char) :
    readYear ((Text.padded 4 n).toList ++ rest) = some ((n : Int), rest) := by
  have hdigits := readDigits_padded (show 0 < 4 by omega) h rest
  obtain ⟨c, others, hlist, hdigit⟩ := Text.exists_padded 4 n
  rw [readYear, dropBlanks_padded]
  rw [hlist, List.cons_append] at hdigits ⊢
  split
  · next heq =>
    obtain ⟨rfl, -⟩ := List.cons.inj heq
    cases hdigit
  · next heq =>
    obtain ⟨rfl, -⟩ := List.cons.inj heq
    cases hdigit
  · rw [hdigits, Option.map_some]

/-- A year with a minus sign is read as a negative number. -/
theorem readYear_minus (rest : List Char) :
    readYear ('-' :: rest)
      = (readDigits rest.length rest).map fun (n, tail) => (-(n : Int), tail) :=
  rfl

/-- A year with a plus sign is read as the number behind it. -/
theorem readYear_plus (rest : List Char) :
    readYear ('+' :: rest) = (readDigits rest.length rest).map fun (n, tail) => ((n : Int), tail) :=
  rfl

/-- A year is read back, up to the hyphen behind it. -/
theorem readYear_yearText (year : Int) (rest : List Char) :
    readYear ((yearText year).toList ++ '-' :: rest) = some (year, '-' :: rest) := by
  rw [yearText]
  split
  · next hplain =>
    have hrange : 0 ≤ year ∧ year ≤ 9999 := by simpa using hplain
    rw [readYear_unsigned (by omega), Int.natAbs_of_nonneg hrange.1]
  · by_cases hnegative : year < 0
    · have hvalue : -(year.natAbs : Int) = year := by omega
      rw [if_pos hnegative, String.toList_append, show "-".toList = ['-'] from rfl,
        List.singleton_append, List.cons_append, readYear_minus, readDigits_signed,
        Option.map_some]
      exact congrArg (fun year => some (year, '-' :: rest)) hvalue
    · have hvalue : (year.natAbs : Int) = year := by omega
      rw [if_neg hnegative, String.toList_append, show "+".toList = ['+'] from rfl,
        List.singleton_append, List.cons_append, readYear_plus, readDigits_signed,
        Option.map_some]
      exact congrArg (fun year => some (year, '-' :: rest)) hvalue

/-- The days of a month have two digits at most. -/
theorem daysInMonth_le (year : Int) (month : Nat) : daysInMonth year month ≤ 31 := by
  unfold daysInMonth
  split <;> first | omega | (split <;> omega)

/-- The number of a month has two digits at most. -/
theorem month_le_of_day {year : Int} {month day : Nat} (hday : 1 ≤ day)
    (h : day ≤ daysInMonth year month) : month ≤ 12 := by
  unfold daysInMonth at h
  split at h <;> omega

/-- A date is read back, whatever comes after it. -/
theorem readDate_toText (d : Date) (rest : List Char) :
    readDate (d.toText.toList ++ rest) = some (d, rest) := by
  obtain ⟨year, month, day, hvalid⟩ := d
  have hbounds : (1 ≤ day ∧ day ≤ daysInMonth year month) := by
    simp only [isDate, Bool.and_eq_true, decide_eq_true_eq] at hvalid
    exact ⟨hvalid.1.2, hvalid.2⟩
  have hday := daysInMonth_le year month
  have hmonth := month_le_of_day hbounds.1 hbounds.2
  simp only [Date.toText, String.toList_append, List.append_assoc]
  rw [readDate, show "-".toList = ['-'] from rfl]
  simp only [List.singleton_append, readYear_yearText, Option.bind_eq_bind, Option.bind_some,
    expect, beq_self_eq_true, if_true, readPair_padded (show month < 100 by omega),
    readPair_padded (show day < 100 by omega), dif_pos hvalid]

/-! ## Times -/

/-- The parts of a time of day, padded to two digits, are read back. -/
theorem readTime_padded {hour minute second : Nat} (hhour : hour < 100) (hminute : minute < 100)
    (hsecond : second < 100) (rest : List Char) :
    readTime ((Text.padded 2 hour).toList ++ ':' :: ((Text.padded 2 minute).toList ++
      ':' :: ((Text.padded 2 second).toList ++ rest))) = some ((hour, minute, second), rest) := by
  simp only [readTime, readPair_padded hhour, readPair_padded hminute, readPair_padded hsecond,
    Option.bind_eq_bind, Option.bind_some, expect, beq_self_eq_true, if_true]

/-- A fraction of so many places counts units of the last place. -/
theorem readFraction_padded {places n : Nat} (hplaces : 0 < places) (hbound : places ≤ 9)
    (h : n < Nat.pow 10 places) :
    readFraction ('.' :: (Text.padded places n).toList)
      = some (n * Nat.pow 10 (9 - places), []) := by
  have hlength := Text.length_padded hplaces h
  -- nothing follows the digits, so they may be fewer than the nine that are read at most
  have hread := readDigits_append (Text.padded_ne_nil places n) (fun c => Text.isDigit_padded)
    (Nat.le_trans (Nat.le_of_eq hlength) hbound)
    (.inr (show ∀ c ∈ ([] : List Char).head?, c.isDigit = false by simp))
  rw [List.append_nil, Text.ofDigitChars_padded] at hread
  simp [readFraction, hread, hlength]

/-- A number of nanoseconds is read back from a number of larger units that it is made of. -/
theorem readFraction_units {places unit nanosecond : Nat} (hplaces : 0 < places)
    (hbound : places ≤ 9) (hunit : Nat.pow 10 (9 - places) = unit) (hexact : nanosecond % unit = 0)
    (h : nanosecond / unit < Nat.pow 10 places) :
    readFraction ("." ++ Text.padded places (nanosecond / unit)).toList = some (nanosecond, []) := by
  rw [String.toList_append, show ".".toList = ['.'] from rfl, List.singleton_append,
    readFraction_padded hplaces hbound h, hunit,
    Nat.div_mul_cancel (Nat.dvd_of_mod_eq_zero hexact)]

/-- A fraction of a second is read back in nanoseconds. -/
theorem readFraction_fractionText {nanosecond : Nat} (h : nanosecond < 1000000000) :
    readFraction (fractionText nanosecond).toList = some (nanosecond, []) := by
  unfold fractionText
  split
  · next hzero =>
    obtain rfl : nanosecond = 0 := by simpa using hzero
    rfl
  split
  · next hmilli =>
    exact readFraction_units (by omega) (by omega) rfl (by simpa using hmilli)
      (show _ < 1000 by omega)
  split
  · next hmicro =>
    exact readFraction_units (by omega) (by omega) rfl (by simpa using hmicro)
      (show _ < 1000000 by omega)
  · have hread := readFraction_units (show 0 < 9 by omega) (Nat.le_refl 9) rfl
      (Nat.mod_one nanosecond) (show nanosecond / 1 < 1000000000 by omega)
    rwa [Nat.div_one] at hread

/-! ## Other texts -/

/-- Text that starts neither with a blank nor with a sign nor with a digit starts with no year. -/
theorem readDate_cons_eq_none {c : Char} {rest : List Char} (hblank : Text.isBlank c = false)
    (hdigit : c.isDigit = false) (hminus : c ≠ '-') (hplus : c ≠ '+') :
    readDate (c :: rest) = none := by
  have hyear : readYear (c :: rest) = none := by
    rw [readYear, Text.dropBlanks, List.dropWhile_cons_of_neg (by simp [hblank])]
    split
    · next heq => exact absurd (List.cons.inj heq).1 hminus
    · next heq => exact absurd (List.cons.inj heq).1 hplus
    · simp [readDigits, hdigit]
  rw [readDate, hyear]
  rfl

end Calendar

open Calendar

/-- **A date is read back.** -/
theorem Date.ofText?_toText (d : Date) : Date.ofText? d.toText = some d := by
  have hread := readDate_toText d []
  rw [List.append_nil] at hread
  rw [ofText?, hread]

/-- **A date-time is read back.** -/
theorem DateTime.ofText?_toText (t : DateTime) : DateTime.ofText? t.toText = some t := by
  obtain ⟨date, hour, minute, second, nanosecond, hvalid⟩ := t
  have hbounds : ((hour < 24 ∧ minute < 60) ∧ second ≤ 60) ∧ nanosecond < 1000000000 := by
    simpa only [isTime, Bool.and_eq_true, decide_eq_true_eq] using hvalid
  have htime := readTime_padded (show hour < 100 by omega) (show minute < 100 by omega)
    (show second < 100 by omega) (fractionText nanosecond).toList
  have hjoined : readJoined (toText ⟨date, hour, minute, second, nanosecond, hvalid⟩).toList
      = some ⟨date, hour, minute, second, nanosecond, hvalid⟩ := by
    simp only [toText, String.toList_append, List.append_assoc, show "T".toList = ['T'] from rfl,
      show ":".toList = [':'] from rfl, List.cons_append, List.nil_append]
    simp only [readJoined, readDate_toText, htime, readFraction_fractionText hbounds.2,
      Option.bind_eq_bind, Option.bind_some, expect, beq_self_eq_true, if_true, assemble,
      dif_pos hvalid, List.isEmpty_nil]
  rw [ofText?, hjoined, Option.some_or]

end ObjectMapping
