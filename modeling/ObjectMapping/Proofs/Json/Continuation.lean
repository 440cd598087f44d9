import ObjectMapping.Proofs.Json.Weight

/-! # Numbers with more text behind them

Nothing marks the end of a number, so a reader finds it by looking at what follows. A number that
makes up a whole text is read in the same way where a comma or a closing bracket follows it, as it
does inside of a larger document.

* `Cursor.EndsPart`: the texts that may follow a part of a document.
* `Cursor.Continues`: the same place in a longer text.
* `Outline.Finds`: what was read is a document, and it ends where the rest of the text starts.
* **`Outline.finds_number`** — a number that is read from its own text is read from a longer one. -/

namespace ObjectMapping

namespace Cursor

/-- What may follow a part of a document: nothing, a comma, or a closing bracket or brace. -/
def EndsPart (tail : List Char) : Prop := ∀ d ∈ tail.head?, d = ',' ∨ d = ']' ∨ d = '\x7d'

/-- The same place in a text that goes on with `tail`. -/
def Continues (tail : List Char) (c longer : Cursor) : Prop := longer.rest = c.rest ++ tail

variable {tail : List Char} {c longer after : Cursor} {d : Char}

/-- What may follow a part does not start with a space. -/
theorem EndsPart.isSpace_head (htail : EndsPart tail) : ∀ d ∈ tail.head?, isSpace d = false := by
  intro d hd
  rcases htail d hd with rfl | rfl | rfl <;> rfl

/-- What may follow a part does not start with a digit. -/
theorem EndsPart.isDigit_head (htail : EndsPart tail) : ∀ d ∈ tail.head?, d.isDigit = false := by
  intro d hd
  rcases htail d hd with rfl | rfl | rfl <;> rfl

/-- What ends a part is left where spaces in front of it are skipped. -/
theorem EndsPart.rest_skipSpaces (htail : EndsPart tail) (hrest : c.rest = tail) :
    c.skipSpaces.rest = tail := by
  rw [skipSpaces_eq_self (hrest ▸ htail.isSpace_head), hrest]

/-! ## Runs of characters -/

/-- A run of characters does not get longer if none of them follows. -/
theorem takeWhile_append_of_head {p : Char → Bool} (htail : ∀ d ∈ tail.head?, p d = false)
    (text : List Char) : (text ++ tail).takeWhile p = text.takeWhile p := by
  rw [List.takeWhile_append]
  split
  · next hall =>
    have hnone : tail.takeWhile p = [] := by
      cases tail with
      | nil => rfl
      | cons d tail => rw [List.takeWhile_cons_of_neg (by simpa using htail)]
    rw [hnone, List.append_nil]
    exact ((List.takeWhile_prefix p).eq_of_length hall).symm
  · rfl

/-- Skipping the same characters leads to the same place. -/
theorem Continues.skip (h : Continues tail c longer) {run : List Char} (hrun : run <+: c.rest) :
    Continues tail (skipList run c) (skipList run longer) := by
  rw [Continues, rest_skipList, rest_skipList, h, List.drop_append_of_le_length hrun.length_le]

/-- The next character is the same in the longer text. -/
theorem Continues.peek? (h : Continues tail c longer) (hpeek : c.peek? = some d) :
    longer.peek? = some d := by
  rw [Cursor.peek?] at hpeek ⊢
  obtain ⟨rest, hrest⟩ := List.head?_eq_some_iff.mp hpeek
  rw [h, hrest, List.cons_append, List.head?_cons]

/-- A character that does not end a part comes next only if it came next in the shorter text. -/
theorem Continues.peek?_ne (h : Continues tail c longer) (htail : EndsPart tail)
    (hd : ¬ (d = ',' ∨ d = ']' ∨ d = '\x7d')) (hne : c.peek? ≠ some d) :
    longer.peek? ≠ some d := by
  intro hpeek
  cases hrest : c.rest with
  | nil =>
    rw [Cursor.peek?, h, hrest, List.nil_append] at hpeek
    exact hd (htail d hpeek)
  | cons other rest =>
    rw [h.peek? (peek?_cons hrest)] at hpeek
    rw [peek?_cons hrest] at hne
    exact hne hpeek

/-- Going on by one character leads to the same place. -/
theorem Continues.advance (h : Continues tail c longer) (hpeek : c.peek? = some d) :
    Continues tail c.advance longer.advance := by
  rw [Cursor.peek?] at hpeek
  obtain ⟨rest, hrest⟩ := List.head?_eq_some_iff.mp hpeek
  rw [Continues, rest_advance, rest_advance, h, hrest, List.cons_append, List.tail_cons,
    List.tail_cons]

/-- The digits that come next are the same in the longer text, as none are added at the end. -/
theorem Continues.digits (h : Continues tail c longer) (htail : EndsPart tail) :
    longer.digits = c.digits := by
  rw [Cursor.digits, h, takeWhile_append_of_head htail.isDigit_head, ← Cursor.digits]

/-- Skipping digits leads to the same place. -/
theorem Continues.skipDigits (h : Continues tail c longer) :
    Continues tail (skipList c.digits c) (skipList c.digits longer) :=
  h.skip (List.takeWhile_prefix _)

/-- The spaces in front of something are the same ones in a longer text. -/
theorem Continues.skipSpaces (h : Continues tail c longer) (hpeek : c.skipSpaces.peek? = some d) :
    Continues tail c.skipSpaces longer.skipSpaces := by
  have hrun : longer.rest.takeWhile isSpace = c.rest.takeWhile isSpace := by
    rw [h, List.takeWhile_append, if_neg]
    intro hall
    -- something is left behind the spaces
    rw [Cursor.peek?, Cursor.skipSpaces, rest_skipList, hall, List.drop_length] at hpeek
    cases hpeek
  rw [Cursor.skipSpaces, Cursor.skipSpaces, hrun]
  exact h.skip (List.takeWhile_prefix _)

/-- Spaces at the end of a text are skipped in a longer one too. -/
theorem Continues.rest_skipSpaces (h : Continues tail c longer) (htail : EndsPart tail)
    (hend : c.skipSpaces.rest = []) : longer.skipSpaces.rest = tail := by
  rw [Cursor.skipSpaces, rest_skipList] at hend
  have hall : c.rest.takeWhile isSpace = c.rest :=
    (List.takeWhile_prefix _).eq_of_length_le (List.drop_eq_nil_iff.mp hend)
  rw [Cursor.skipSpaces, rest_skipList, h, takeWhile_append_of_head htail.isSpace_head, hall,
    List.drop_left]

/-! ## Numbers -/

section Numbers

variable {negative : Bool} {significand : Nat} {n : Number}

/-- The number is read from a cursor, up to the same place in a longer text. -/
def ReadsOn (tail : List Char) (after : Cursor) (n : Number)
    (read : Except Fault (Number × Cursor)) : Prop :=
  ∃ stop, read = .ok (n, stop) ∧ Continues tail after stop

/-- A number is put together from its parts in the same way. -/
theorem Continues.doubleOfParts {exponent : Int} (h : Continues tail c longer)
    (hread : doubleOfParts negative significand exponent c = .ok (n, after)) :
    ReadsOn tail after n (Cursor.doubleOfParts negative significand exponent longer) := by
  rw [Cursor.doubleOfParts] at hread
  split at hread
  · next hscale =>
    obtain ⟨rfl, rfl⟩ := Prod.mk.inj (Except.ok.inj hread)
    exact ⟨longer, by rw [Cursor.doubleOfParts, hscale], h⟩
  · cases hread

/-- An exponent is read in the same way. -/
theorem Continues.readExponent {start : Int} (h : Continues tail c longer) (htail : EndsPart tail)
    (hread : readExponent negative significand start c = .ok (n, after)) :
    ReadsOn tail after n (Cursor.readExponent negative significand start longer) := by
  cases hpeek : c.peek? with
  | none =>
    simp [Cursor.readExponent, hpeek, fault] at hread
  | some sign =>
    -- the sign, if there is one, is the same in the longer text
    have hfirst : Continues tail (if sign == '-' || sign == '+' then c.advance else c)
        (if sign == '-' || sign == '+' then longer.advance else longer) := by
      split
      · exact h.advance hpeek
      · exact h
    unfold Cursor.readExponent at hread ⊢
    simp only [hpeek, h.peek? hpeek, Option.some_beq_some] at hread ⊢
    generalize (if sign == '-' || sign == '+' then c.advance else c) = first at hread hfirst
    generalize (if sign == '-' || sign == '+' then longer.advance else longer) = first' at hfirst ⊢
    split at hread
    · cases hread
    · next hdigit =>
      rw [hfirst.peek? hdigit]
      dsimp only
      rw [hfirst.digits htail]
      split at hread
      · cases hread
      · next hisDigit =>
        rw [if_neg hisDigit]
        split at hread
        · next hexponent => exact hfirst.skipDigits.doubleOfParts hread
        · next hexponent =>
          split at hread
          · cases hread
          · next hlarge =>
            obtain ⟨rfl, rfl⟩ := Prod.mk.inj (Except.ok.inj hread)
            exact ⟨_, by rw [if_neg hlarge], hfirst.skipDigits⟩

/-- What comes after the digits of a number is read in the same way. -/
theorem Continues.finishDouble {exponent : Int} (h : Continues tail c longer)
    (htail : EndsPart tail)
    (hread : finishDouble negative significand exponent c = .ok (n, after)) :
    ReadsOn tail after n (Cursor.finishDouble negative significand exponent longer) := by
  unfold Cursor.finishDouble at hread
  split at hread
  · next hpeek =>
    rw [Cursor.finishDouble, h.peek? hpeek]
    exact (h.advance hpeek).readExponent htail hread
  · next hpeek =>
    rw [Cursor.finishDouble, h.peek? hpeek]
    exact (h.advance hpeek).readExponent htail hread
  · next hlower hupper =>
    unfold Cursor.finishDouble
    split
    · next hpeek => exact absurd hpeek (h.peek?_ne htail (by decide) hlower)
    · next hpeek => exact absurd hpeek (h.peek?_ne htail (by decide) hupper)
    · exact h.doubleOfParts hread

/-- A fraction is read in the same way. -/
theorem Continues.readFraction {exponent : Int} (h : Continues tail c longer)
    (htail : EndsPart tail)
    (hread : readFraction negative significand exponent c = .ok (n, after)) :
    ReadsOn tail after n (Cursor.readFraction negative significand exponent longer) := by
  unfold Cursor.readFraction at hread ⊢
  dsimp only at hread ⊢
  rw [h.digits htail]
  split at hread
  · cases hread
  · next hrun =>
    rw [if_neg hrun]
    exact h.skipDigits.finishDouble htail hread

/-- **A number is read in the same way where its text goes on.** -/
theorem Continues.readNumber (h : Continues tail c longer) (htail : EndsPart tail)
    (hread : readNumber negative c = .ok (n, after)) :
    ReadsOn tail after n (Cursor.readNumber negative longer) := by
  have hafter := h.skipDigits
  unfold Cursor.readNumber at hread ⊢
  split at hread
  · cases hread
  · next d hpeek =>
    rw [h.peek? hpeek]
    dsimp only at hread ⊢
    rw [h.digits htail]
    split at hread
    · cases hread
    next hdigit =>
    rw [if_neg hdigit]
    split at hread
    · cases hread
    next hzero =>
    rw [if_neg hzero]
    split at hread
    · next hpoint =>
      rw [hafter.peek? hpoint]
      exact (hafter.advance hpoint).readFraction htail hread
    · next hmark =>
      rw [hafter.peek? hmark]
      exact (hafter.advance hmark).readExponent htail hread
    · next hmark =>
      rw [hafter.peek? hmark]
      exact (hafter.advance hmark).readExponent htail hread
    · next hpoint hlower hupper =>
      -- nothing that belongs to a number follows in the longer text either
      split
      · next hpeek => exact absurd hpeek (hafter.peek?_ne htail (by decide) hpoint)
      · next hpeek => exact absurd hpeek (hafter.peek?_ne htail (by decide) hlower)
      · next hpeek => exact absurd hpeek (hafter.peek?_ne htail (by decide) hupper)
      · split at hread
        · next hsurplus =>
          obtain ⟨rfl, rfl⟩ := Prod.mk.inj (Except.ok.inj hread)
          exact ⟨_, by rw [if_pos hsurplus], hafter⟩
        · next hsurplus =>
          rw [if_neg hsurplus]
          exact hafter.doubleOfParts hread

end Numbers

end Cursor

namespace Outline

open Cursor Outcome

variable {tail : List Char} {c longer after : Cursor} {d : Char} {n : Number}

/-- A number is read in the same way, up to the same place. -/
theorem readScalar_number (h : Continues tail c longer) (htail : EndsPart tail)
    (hpeek : c.peek? = some d) (hread : readScalar d c = .ok (.number n, after)) :
    ∃ stop, readScalar d longer = .ok (.number n, stop) ∧ Continues tail after stop := by
  unfold readScalar at hread ⊢
  split at hread
  · obtain ⟨_, _, heq⟩ := map_eq_ok.mp hread
    cases heq
  · obtain ⟨_, _, heq⟩ := map_eq_ok.mp hread
    cases heq
  · obtain ⟨_, _, heq⟩ := map_eq_ok.mp hread
    cases heq
  · obtain ⟨_, _, heq⟩ := map_eq_ok.mp hread
    cases heq
  · obtain ⟨⟨m, stop⟩, hnumber, heq⟩ := map_eq_ok.mp hread
    obtain ⟨hm, rfl⟩ := Prod.mk.inj heq
    obtain rfl := Json.number.inj hm
    obtain ⟨stop', hstop, hcontinues⟩ := (h.advance hpeek).readNumber htail hnumber
    exact ⟨stop', by rw [hstop]; rfl, hcontinues⟩
  · split at hread
    · next hdigit =>
      obtain ⟨⟨m, stop⟩, hnumber, heq⟩ := map_eq_ok.mp hread
      obtain ⟨hm, rfl⟩ := Prod.mk.inj heq
      obtain rfl := Json.number.inj hm
      obtain ⟨stop', hstop, hcontinues⟩ := h.readNumber htail hnumber
      exact ⟨stop', by rw [if_pos hdigit, hstop]; rfl, hcontinues⟩
    · cases hread

/-- A text of a number is read as one from its first character on, with nothing but spaces behind
it. -/
theorem exists_readScalar_of_ofText {text : String} (h : Json.ofText text = .ok (.number n)) :
    ∃ d after, (Cursor.ofText text).skipSpaces.peek? = some d ∧ d ≠ '[' ∧ d ≠ '\x7b' ∧
      readScalar d (Cursor.ofText text).skipSpaces = .ok (.number n, after) ∧
      after.skipSpaces.rest = [] := by
  obtain ⟨hdocument, hend⟩ := Json.outline_of_ofText h
  generalize hfound : ofText text = found at hdocument hend
  obtain ⟨outline, stop?⟩ := found
  change read 128 (Cursor.ofText text) (2 * (Cursor.ofText text).rest.length + 1 + 1) = _ at hfound
  -- the outline is that of a number, so the text does not start with a bracket
  cases hpeek : (Cursor.ofText text).skipSpaces.peek? with
  | none =>
    obtain ⟨fault, hfault⟩ : ∃ fault, (read 128 (Cursor.ofText text)
        (2 * (Cursor.ofText text).rest.length + 1 + 1)).1 = .broken _ fault :=
      read_broken (.inl hpeek)
    rw [hfound] at hfault
    obtain rfl := hfault
    cases hdocument
  | some d =>
    by_cases harray : d = '['
    · subst harray
      rw [read_array hpeek (by decide)] at hfound
      obtain ⟨rfl, -⟩ := Prod.mk.inj hfound
      obtain ⟨items, -, heq⟩ := bind_eq_ok.mp hdocument
      cases heq
    by_cases hobject : d = '\x7b'
    · subst hobject
      rw [read_object hpeek (by decide)] at hfound
      obtain ⟨rfl, -⟩ := Prod.mk.inj hfound
      obtain ⟨members, -, heq⟩ := bind_eq_ok.mp hdocument
      cases heq
    rw [read_scalar hpeek harray hobject] at hfound
    cases hscalar : readScalar d (Cursor.ofText text).skipSpaces with
    | error fault =>
      rw [hscalar] at hfound
      obtain ⟨rfl, -⟩ := Prod.mk.inj hfound
      cases hdocument
    | ok found =>
      obtain ⟨other, after⟩ := found
      rw [hscalar] at hfound
      obtain ⟨rfl, rfl⟩ := Prod.mk.inj hfound
      obtain rfl := Except.ok.inj hdocument
      exact ⟨d, after, rfl, harray, hobject, hscalar, hend after rfl⟩

/-- What was read is a document, with `tail` behind it and the spaces that follow. -/
def Finds (document : Json) (tail : List Char) (read : Outline × Option Cursor) : Prop :=
  read.1.toJson = .ok document ∧ ∃ after, read.2 = some after ∧ after.skipSpaces.rest = tail

/-- **A number that is read from its own text is read from a longer one.** -/
theorem finds_number {text : String} (h : Json.ofText text = .ok (.number n))
    (htail : EndsPart tail) (hrest : c.rest = text.toList ++ tail) (levels steps : Nat) :
    Finds (.number n) tail (read levels c (steps + 1)) := by
  obtain ⟨d, after, hpeek, harray, hobject, hread, hend⟩ := exists_readScalar_of_ofText h
  have hcontinues : Continues tail (Cursor.ofText text) c := hrest
  have hstart := hcontinues.skipSpaces hpeek
  obtain ⟨stop, hstop, hafter⟩ := readScalar_number hstart htail hpeek hread
  rw [read_scalar (hstart.peek? hpeek) harray hobject, hstop]
  exact ⟨rfl, stop, rfl, hafter.rest_skipSpaces htail hend⟩

end Outline

end ObjectMapping
