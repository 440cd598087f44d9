import Mathlib.Data.List.Basic
import ObjectMapping.Bytes

/-! # Text survives as bytes

The bytes of a text are read as this text: every character is encoded in one to four bytes, the
first of which tells how many follow and in which range the next one is.

* `Bytes.readChar_encode`: a character is read back from its bytes.
* **`Bytes.text_ofText`** — a text is read back from its bytes. -/

namespace ObjectMapping.Bytes

/-! ## First bytes -/

/-- The first of two bytes says that one byte follows, and has the upper bits of the character. -/
theorem following?_two : ∀ k < 32, 2 ≤ k →
    ¬ UInt8.ofNat (k + 192) < 0x80 ∧ firstBits (UInt8.ofNat (k + 192)) 1 = k ∧
      following? (UInt8.ofNat (k + 192)) = some (1, 0x80, 0xBF) := by
  decide

/-- The first of three bytes says that two bytes follow, in ranges that leave out what fewer bytes
can write and what stands for no character. -/
theorem following?_three : ∀ k < 16,
    ¬ UInt8.ofNat (k + 224) < 0x80 ∧ firstBits (UInt8.ofNat (k + 224)) 2 = k ∧
      following? (UInt8.ofNat (k + 224))
        = some (2, if k = 0 then 0xA0 else 0x80, if k = 13 then 0x9F else 0xBF) := by
  decide

/-- The first of four bytes says that three bytes follow, in ranges that leave out what fewer bytes
can write and what is beyond the last character. -/
theorem following?_four : ∀ k < 5,
    ¬ UInt8.ofNat (k + 240) < 0x80 ∧ firstBits (UInt8.ofNat (k + 240)) 3 = k ∧
      following? (UInt8.ofNat (k + 240))
        = some (3, if k = 0 then 0x90 else 0x80, if k = 4 then 0x8F else 0xBF) := by
  decide

/-! ## Characters -/

/-- A following byte contributes its six low bits. -/
theorem continueChar_cons {code count v : Nat} {low high : UInt8} {rest : List UInt8}
    (hlow : low.toNat ≤ v % 64 + 128) (hhigh : v % 64 + 128 ≤ high.toNat) :
    continueChar code low high (count + 1) (UInt8.ofNat (v % 64 + 128) :: rest)
      = continueChar (64 * code + v % 64) 0x80 0xBF count rest := by
  have hbyte : (UInt8.ofNat (v % 64 + 128)).toNat = v % 64 + 128 := by
    rw [UInt8.toNat_ofNat']
    omega
  have hrange : (decide (low ≤ UInt8.ofNat (v % 64 + 128))
      && decide (UInt8.ofNat (v % 64 + 128) ≤ high)) = true := by
    rw [Bool.and_eq_true, decide_eq_true_eq, decide_eq_true_eq, UInt8.le_iff_toNat_le,
      UInt8.le_iff_toNat_le, hbyte]
    exact ⟨hlow, hhigh⟩
  have hbits : (v % 64 + 128) % 64 = v % 64 := by omega
  rw [continueChar, if_pos hrange, hbyte, hbits]

/-- The bytes after the first one of those that follow may be any of the range of such bytes. -/
theorem continueChar_last {code count v : Nat} {rest : List UInt8} :
    continueChar code 0x80 0xBF (count + 1) (UInt8.ofNat (v % 64 + 128) :: rest)
      = continueChar (64 * code + v % 64) 0x80 0xBF count rest :=
  continueChar_cons (Nat.le_add_left 128 (v % 64))
    (show v % 64 + 128 ≤ 191 by omega)

/-- A character whose first byte announces others is made of the bits of all of them. -/
theorem readChar_following {first low high : UInt8} {count : Nat} {rest : List UInt8}
    (hfirst : ¬ first < 0x80) (hfollowing : following? first = some (count, low, high)) :
    readChar first rest
      = (Char.ofNat ((continueChar (firstBits first count) low high count rest).1.getD 0xFFFD),
          (continueChar (firstBits first count) low high count rest).2) := by
  rw [readChar, if_neg hfirst, hfollowing]

/-! ## Characters, by the number of their bytes -/

/-- A character is read back from its bytes, and what follows them is left. -/
def ReadsBack (c : Char) (rest : List UInt8) : Prop :=
  ∃ first tail, String.utf8EncodeChar c = first :: tail ∧ readChar first (tail ++ rest) = (c, rest)

/-- A character is given back by its code point. -/
theorem ofNat_of_eq {c : Char} {n : Nat} (h : n = c.toNat) : Char.ofNat n = c :=
  h ▸ Char.ofNat_toNat c

/-- A character of one byte is read back. -/
theorem readsBack_one {c : Char} (rest : List UInt8) (hone : c.toNat ≤ 127) : ReadsBack c rest := by
  refine ⟨_, _, if_pos hone, ?_⟩
  have hbyte : (UInt8.ofNat c.toNat).toNat = c.toNat := by
    rw [UInt8.toNat_ofNat']
    omega
  have hlt : UInt8.ofNat c.toNat < 0x80 := by
    rw [UInt8.lt_iff_toNat_lt, hbyte]
    exact Nat.lt_succ_of_le hone
  show readChar (UInt8.ofNat c.toNat) ([] ++ rest) = _
  rw [readChar, if_pos hlt, hbyte, Char.ofNat_toNat, List.nil_append]

/-- A character of two bytes is read back. -/
theorem readsBack_two {c : Char} (rest : List UInt8) (hone : ¬ c.toNat ≤ 127)
    (htwo : c.toNat ≤ 2047) : ReadsBack c rest := by
  refine ⟨_, _, (if_neg hone).trans (if_pos htwo), ?_⟩
  simp only [show c.val.toNat = c.toNat from rfl]
  obtain ⟨hfirst, hbits, hfollowing⟩ := following?_two (c.toNat / 64 % 32) (by omega) (by omega)
  rw [readChar_following hfirst hfollowing, hbits, List.cons_append, continueChar_last,
    continueChar, List.nil_append]
  exact congrArg (·, rest) (ofNat_of_eq (by simp only [Option.getD_some]; omega))

/-- After the smallest first byte the next one is large, and before the surrogates it is small. -/
theorem readsBack_three {c : Char} (rest : List UInt8) (hone : ¬ c.toNat ≤ 127)
    (htwo : ¬ c.toNat ≤ 2047) (hthree : c.toNat ≤ 65535) : ReadsBack c rest := by
  have hvalid : c.toNat < 0xD800 ∨ 0xDFFF < c.toNat ∧ c.toNat < 0x110000 := c.valid
  refine ⟨_, _, (if_neg hone).trans ((if_neg htwo).trans (if_pos hthree)), ?_⟩
  simp only [show c.val.toNat = c.toNat from rfl]
  obtain ⟨hfirst, hbits, hfollowing⟩ := following?_three (c.toNat / 4096 % 16) (by omega)
  rw [readChar_following hfirst hfollowing, hbits, List.cons_append, continueChar_cons,
    List.cons_append, continueChar_last, continueChar, List.nil_append]
  · exact congrArg (·, rest) (ofNat_of_eq (by simp only [Option.getD_some]; omega))
  · split
    · show 160 ≤ _
      omega
    · show 128 ≤ _
      omega
  · split
    · show _ ≤ 159
      omega
    · show _ ≤ 191
      omega

/-- A character of four bytes is read back. -/
theorem readsBack_four {c : Char} (rest : List UInt8) (hone : ¬ c.toNat ≤ 127)
    (htwo : ¬ c.toNat ≤ 2047) (hthree : ¬ c.toNat ≤ 65535) : ReadsBack c rest := by
  have hvalid : c.toNat < 0xD800 ∨ 0xDFFF < c.toNat ∧ c.toNat < 0x110000 := c.valid
  refine ⟨_, _, (if_neg hone).trans ((if_neg htwo).trans (if_neg hthree)), ?_⟩
  simp only [show c.val.toNat = c.toNat from rfl]
  have hfour : c.toNat / 262144 % 8 < 5 := by omega
  obtain ⟨hfirst, hbits, hfollowing⟩ := following?_four (c.toNat / 262144 % 8) hfour
  rw [readChar_following hfirst hfollowing, hbits, List.cons_append, continueChar_cons,
    List.cons_append, continueChar_last, List.cons_append, continueChar_last, continueChar,
    List.nil_append]
  · exact congrArg (·, rest) (ofNat_of_eq (by simp only [Option.getD_some]; omega))
  · split
    · show 144 ≤ _
      omega
    · show 128 ≤ _
      omega
  · split
    · show _ ≤ 143
      omega
    · show _ ≤ 191
      omega

/-- **A character is read back from its bytes.** -/
theorem readChar_encode (c : Char) (rest : List UInt8) : ReadsBack c rest := by
  by_cases hone : c.toNat ≤ 127
  · exact readsBack_one rest hone
  by_cases htwo : c.toNat ≤ 2047
  · exact readsBack_two rest hone htwo
  by_cases hthree : c.toNat ≤ 65535
  · exact readsBack_three rest hone htwo hthree
  · exact readsBack_four rest hone htwo hthree

/-! ## Texts -/

/-- Characters that are written one after another are read back. -/
theorem chars_flatMap (cs : List Char) : chars (cs.flatMap String.utf8EncodeChar) = cs := by
  induction cs with
  | nil => rw [List.flatMap_nil, chars]
  | cons c cs ih =>
    obtain ⟨first, tail, hencode, hread⟩ := readChar_encode c (cs.flatMap String.utf8EncodeChar)
    rw [List.flatMap_cons, hencode, List.cons_append, chars, hread, ih]

/-- The loop over an array of bytes adds the bytes from a position on to those collected so far. -/
theorem toList_loop (data : ByteArray) (i : Nat) (collected : List UInt8) :
    ByteArray.toList.loop data i collected = collected.reverse ++ data.data.toList.drop i := by
  induction hleft : data.size - i generalizing i collected with
  | zero =>
    have hend : data.data.toList.length ≤ i := by
      rw [Array.length_toList]
      exact Nat.sub_eq_zero_iff_le.mp hleft
    rw [ByteArray.toList.loop, if_neg (by omega), List.drop_eq_nil_of_le hend, List.append_nil]
  | succ left ih =>
    have hlt : i < data.data.toList.length := by
      rw [Array.length_toList]
      show i < data.size
      omega
    have hget : data.get! i = data.data.toList[i] := by
      show data.data[i]! = _
      rw [getElem!_pos data.data i (by simpa using hlt), Array.getElem_toList]
    rw [ByteArray.toList.loop, if_pos (by omega), ih _ _ (by omega), List.reverse_cons,
      List.append_assoc, List.singleton_append, List.drop_eq_getElem_cons hlt, hget]

/-- The bytes of a text are those of its characters. -/
theorem ofText_eq_flatMap (s : String) : ofText s = s.toList.flatMap String.utf8EncodeChar := by
  rw [ofText, ByteArray.toList, toList_loop, List.reverse_nil, List.nil_append, List.drop_zero]
  have hbytes : s.toUTF8 = (s.toList.flatMap String.utf8EncodeChar).toByteArray := by
    rw [String.toUTF8_eq_toByteArray, ← List.utf8Encode.eq_1, ← String.toByteArray_ofList,
      String.ofList_toList]
  rw [hbytes, List.toList_data_toByteArray]

/-- **A text is read back from its bytes.** -/
theorem text_ofText (s : String) : text (ofText s) = s := by
  rw [text, ofText_eq_flatMap, chars_flatMap, String.ofList_toList]

end ObjectMapping.Bytes
