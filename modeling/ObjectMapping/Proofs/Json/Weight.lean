import ObjectMapping.Proofs.Json.Scalar
import ObjectMapping.Proofs.Outcome
import ObjectMapping.Value.Decoding

/-! # A text is as long as its document is large

Every part of a document uses up text when it is read: names and strings the characters that they
hold, arrays and objects their brackets and what separates their parts. So a document is never
larger than the text that it was read from, which is why reading the name of a member as a document
comes to an end.

* `Cursor.readString_length` and its like: how much text the parts without parts use up.
* **`Outline.weight_le_of_ofText`** — a document that was read used up as much text as it is large.
* **`Json.weight_lt_of_ofText`** — the document of a member name is smaller than the member. -/

namespace ObjectMapping

open Outcome

namespace Cursor

variable {c after : Cursor} {d : Char}

/-! ## Moving on -/

/-- Going on by one character makes the rest shorter by one. -/
theorem length_advance (h : c.peek? = some d) : c.advance.rest.length + 1 = c.rest.length := by
  rw [peek?] at h
  obtain ⟨rest, hrest⟩ := List.head?_eq_some_iff.mp h
  rw [rest_advance_cons hrest, hrest, List.length_cons]

/-- Skipping characters does not make the rest longer. -/
theorem length_skipList_le (run : List Char) (c : Cursor) :
    (skipList run c).rest.length ≤ c.rest.length := by
  rw [rest_skipList, List.length_drop]
  omega

/-- Skipping spaces does not make the rest longer. -/
theorem length_skipSpaces_le (c : Cursor) : c.skipSpaces.rest.length ≤ c.rest.length :=
  length_skipList_le _ c

/-! ## Words and numbers -/

/-- Reading a word makes the rest shorter by its letters. -/
theorem readWord_length {letters : List Char} (h : readWord letters c = .ok after) :
    after.rest.length + letters.length = c.rest.length := by
  induction letters generalizing c with
  | nil =>
    obtain rfl := Except.ok.inj h
    rfl
  | cons letter letters ih =>
    rw [readWord] at h
    split at h
    · cases h
    · next hpeek =>
      split at h
      · have hnext := ih h
        have hadvance := length_advance hpeek
        rw [List.length_cons]
        omega
      · cases h

/-- Putting a number together from its parts reads nothing. -/
theorem doubleOfParts_length {negative : Bool} {significand : Nat} {exponent : Int} {n : Number}
    (h : doubleOfParts negative significand exponent c = .ok (n, after)) : after = c := by
  rw [doubleOfParts] at h
  split at h
  · exact (Prod.mk.inj (Except.ok.inj h)).2.symm
  · cases h

/-- Reading an exponent does not make the rest longer. -/
theorem readExponent_length {negative : Bool} {significand : Nat} {start : Int} {n : Number}
    (h : readExponent negative significand start c = .ok (n, after)) :
    after.rest.length ≤ c.rest.length := by
  -- a sign may be passed over, and then digits are
  have hfirst : ∀ signed : Bool, (if signed then c.advance else c).rest.length ≤ c.rest.length := by
    intro signed
    cases signed with
    | false => exact Nat.le_refl _
    | true => simp [rest_advance]
  unfold readExponent at h
  dsimp only at h
  split at h
  · cases h
  split at h
  · cases h
  split at h
  · rw [doubleOfParts_length h]
    exact Nat.le_trans (length_skipList_le _ _) (hfirst _)
  · split at h
    · cases h
    · obtain rfl := (Prod.mk.inj (Except.ok.inj h)).2
      exact Nat.le_trans (length_skipList_le _ _) (hfirst _)

/-- Reading a fraction does not make the rest longer. -/
theorem readFraction_length {negative : Bool} {significand : Nat} {exponent : Int} {n : Number}
    (h : readFraction negative significand exponent c = .ok (n, after)) :
    after.rest.length ≤ c.rest.length := by
  unfold readFraction at h
  dsimp only at h
  split at h
  · cases h
  have hrun := length_skipList_le c.digits c
  have hadvance : (skipList c.digits c).advance.rest.length ≤ (skipList c.digits c).rest.length := by
    simp [rest_advance]
  unfold finishDouble at h
  split at h
  · exact Nat.le_trans (readExponent_length h) (Nat.le_trans hadvance hrun)
  · exact Nat.le_trans (readExponent_length h) (Nat.le_trans hadvance hrun)
  · rw [doubleOfParts_length h]
    exact hrun

/-- A number uses up one digit at least. -/
theorem readNumber_length {negative : Bool} {n : Number}
    (h : readNumber negative c = .ok (n, after)) : after.rest.length < c.rest.length := by
  unfold readNumber at h
  split at h
  · cases h
  · next d hpeek =>
    split at h
    · cases h
    · next hdigit =>
      -- there is one digit at least, and what comes behind the digits uses up more at most
      have hrun : (skipList c.digits c).rest.length < c.rest.length := by
        rw [peek?] at hpeek
        obtain ⟨rest, hrest⟩ := List.head?_eq_some_iff.mp hpeek
        have hdigits : c.digits = d :: rest.takeWhile Char.isDigit := by
          rw [digits, hrest, List.takeWhile_cons_of_pos (by simpa using hdigit)]
        rw [rest_skipList, hdigits, hrest]
        simp only [List.length_drop, List.length_cons]
        omega
      have hadvance : (skipList c.digits c).advance.rest.length
          ≤ (skipList c.digits c).rest.length := by
        simp [rest_advance]
      dsimp only at h
      split at h
      · cases h
      split at h
      · exact Nat.lt_of_le_of_lt (readFraction_length h) (Nat.lt_of_le_of_lt hadvance hrun)
      · exact Nat.lt_of_le_of_lt (readExponent_length h) (Nat.lt_of_le_of_lt hadvance hrun)
      · exact Nat.lt_of_le_of_lt (readExponent_length h) (Nat.lt_of_le_of_lt hadvance hrun)
      · split at h
        · obtain rfl := (Prod.mk.inj (Except.ok.inj h)).2
          exact hrun
        · rw [doubleOfParts_length h]
          exact hrun

/-! ## Strings -/

/-- Reading hexadecimal digits does not make the rest longer. -/
theorem readHex_length {n : Nat} (h : readHex c = .ok (n, after)) :
    after.rest.length ≤ c.rest.length := by
  have hwrong : ∀ found, readHex.wrongHex c = .ok found → False := by
    intro found hfound
    rw [readHex.wrongHex] at hfound
    split at hfound <;> cases hfound
  unfold readHex at h
  split at h
  · split at h
    · obtain rfl := (Prod.mk.inj (Except.ok.inj h)).2
      exact length_skipList_le _ _
    · exact (hwrong _ h).elim
  · exact (hwrong _ h).elim

/-- Reading an expected pair does not make the rest longer. -/
theorem expectPair_length {expected : Char} (h : expectPair expected c = .ok after) :
    after.rest.length ≤ c.rest.length := by
  rw [expectPair] at h
  split at h
  · cases h
  · split at h
    · obtain rfl := Except.ok.inj h
      simp [rest_advance]
    · cases h

/-- Reading a character by its code does not make the rest longer. -/
theorem readUnicode_length {char : Char} (h : readUnicode c = .ok (char, after)) :
    after.rest.length ≤ c.rest.length := by
  obtain ⟨⟨high, afterHigh⟩, hhigh, h⟩ := bind_eq_ok.mp h
  have hle := readHex_length hhigh
  dsimp only at h
  split at h
  · cases h
  split at h
  · obtain rfl := (Prod.mk.inj (Except.ok.inj h)).2
    exact hle
  · obtain ⟨slash, hslash, h⟩ := bind_eq_ok.mp h
    obtain ⟨mark, hmark, h⟩ := bind_eq_ok.mp h
    obtain ⟨⟨low, afterLow⟩, hlow, h⟩ := bind_eq_ok.mp h
    have hslash := expectPair_length hslash
    have hmark := expectPair_length hmark
    have hlow := readHex_length hlow
    dsimp only at h
    split at h
    · cases h
    · obtain rfl := (Prod.mk.inj (Except.ok.inj h)).2
      omega

/-- Reading an escape makes the rest shorter. -/
theorem readEscape_length {char : Char} (h : readEscape c = .ok (char, after)) :
    after.rest.length < c.rest.length := by
  rw [readEscape] at h
  split at h
  · cases h
  · next hpeek =>
    have hadvance := length_advance hpeek
    split at h
    all_goals first
      | (obtain rfl := (Prod.mk.inj (Except.ok.inj h)).2; omega)
      | (have hle := readUnicode_length h; omega)
      | cases h

/-- A string has at most as many characters as are read for it, without the quote at its end. -/
theorem readChars_length {collected : List Char} {steps : Nat} {s : String}
    (h : readChars collected c steps = .ok (s, after)) :
    s.length + after.rest.length + 1 ≤ collected.length + c.rest.length := by
  induction steps generalizing collected c with
  | zero => cases h
  | succ steps ih =>
    rw [readChars] at h
    split at h
    · cases h
    · next hpeek =>
      have hadvance := length_advance hpeek
      obtain ⟨rfl, rfl⟩ := Prod.mk.inj (Except.ok.inj h)
      rw [String.length_ofList, List.length_reverse]
      omega
    · next hpeek =>
      have hadvance := length_advance hpeek
      obtain ⟨⟨char, afterEscape⟩, hescape, hrest⟩ := bind_eq_ok.mp h
      have hlt := readEscape_length hescape
      have hle := ih hrest
      rw [List.length_cons] at hle
      omega
    · next hpeek =>
      have hadvance := length_advance hpeek
      split at h
      · cases h
      · have hle := ih h
        rw [List.length_cons] at hle
        omega

/-- A string uses up its characters and the closing quote. -/
theorem readString_length {s : String} (h : readString c = .ok (s, after)) :
    s.length + after.rest.length + 1 ≤ c.rest.length := by
  have hle := readChars_length h
  rwa [List.length_nil, Nat.zero_add] at hle

end Cursor

namespace Json

/-- Writing a member makes an object larger by no more than the member. -/
theorem weightMembers_insert (members : List (String × Json)) (name : String) (value : Json) :
    weightMembers (Keyed.insert members name value)
      ≤ weightMembers members + (name.length + 2 + value.weight) := by
  induction members with
  | nil => simp [weightMembers]
  | cons member rest ih =>
    obtain ⟨other, document⟩ := member
    rw [Keyed.insert]
    split
    · next hsame =>
      obtain rfl := eq_of_beq hsame
      simp only [weightMembers]
      omega
    · simp only [weightMembers]
      omega

/-- Members that are written again make an object no larger. -/
theorem weightMembers_ofList (members : List (String × Json)) :
    weightMembers (Keyed.ofList members) ≤ weightMembers members := by
  have hfold : ∀ (rest written : List (String × Json)),
      weightMembers (rest.foldl (fun entries pair => Keyed.insert entries pair.1 pair.2) written)
        ≤ weightMembers written + weightMembers rest := by
    intro rest
    induction rest with
    | nil => exact fun written => Nat.le_refl _
    | cons member rest ih =>
      intro written
      have hinsert := weightMembers_insert written member.1 member.2
      have hrest := ih (Keyed.insert written member.1 member.2)
      rw [List.foldl_cons, weightMembers]
      omega
  have hall := hfold members []
  rwa [weightMembers, Nat.zero_add] at hall

end Json

namespace Outline

open Cursor

variable {c after start : Cursor} {first : Bool}

/-! ## Between documents -/

/-- A document without parts uses up text. -/
theorem readScalar_weight {char : Char} {document : Json} (hpeek : c.peek? = some char)
    (h : readScalar char c = .ok (document, after)) :
    document.weight + after.rest.length ≤ c.rest.length := by
  have hadvance := length_advance hpeek
  have hword : ∀ {letters : List Char} {word : Json}, word.weight = 1 →
      (c.advance.readWord letters).map (fun after => (word, after)) = .ok (document, after) →
      document.weight + after.rest.length ≤ c.rest.length := by
    intro letters word hweight hread
    obtain ⟨next, hnext, heq⟩ := map_eq_ok.mp hread
    obtain ⟨rfl, rfl⟩ := Prod.mk.inj heq
    have hlength := readWord_length hnext
    omega
  -- the sign, if there is one, comes off before the digits are read
  have hnumber : ∀ {negative : Bool} {start : Cursor} {found : Number × Cursor},
      start.rest.length ≤ c.rest.length → start.readNumber negative = .ok found →
      (Json.number found.1, found.2) = (document, after) →
      document.weight + after.rest.length ≤ c.rest.length := by
    intro negative start found hstart hread heq
    obtain ⟨rfl, rfl⟩ := Prod.mk.inj heq
    have hlength := readNumber_length hread
    rw [Json.weight]
    omega
  unfold readScalar at h
  split at h
  · exact hword rfl h
  · exact hword rfl h
  · exact hword rfl h
  · obtain ⟨⟨s, next⟩, hstring, heq⟩ := map_eq_ok.mp h
    obtain ⟨rfl, rfl⟩ := Prod.mk.inj heq
    have hlength := readString_length hstring
    rw [Json.weight]
    omega
  · obtain ⟨found, hread, heq⟩ := map_eq_ok.mp h
    exact hnumber (by omega) hread heq
  · split at h
    · obtain ⟨found, hread, heq⟩ := map_eq_ok.mp h
      exact hnumber (Nat.le_refl _) hread heq
    · cases h

/-- The bracket that closes an array uses up text. -/
theorem itemStart_close (h : itemStart first c = .ok (none, after)) :
    after.rest.length < c.rest.length := by
  have hspaces := length_skipSpaces_le c
  unfold itemStart at h
  dsimp only at h
  split at h
  · cases h
  · next hpeek =>
    have hadvance := length_advance hpeek
    obtain rfl := (Prod.mk.inj (Except.ok.inj h)).2
    omega
  · repeat' split at h
    all_goals cases h

/-- So does the comma in front of an item that is not the first one. -/
theorem itemStart_item (h : itemStart first c = .ok (some start, after)) :
    start.rest.length + (!first).toNat ≤ c.rest.length := by
  have hspaces := length_skipSpaces_le c
  unfold itemStart at h
  dsimp only at h
  split at h
  · cases h
  · cases h
  · next hpeek =>
    have hadvance := length_advance hpeek
    have hnext := length_skipSpaces_le c.skipSpaces.advance
    cases first with
    | true =>
      obtain rfl := Option.some.inj (Prod.mk.inj (Except.ok.inj h)).1
      exact hspaces
    | false =>
      rw [if_neg Bool.false_ne_true] at h
      split at h
      · split at h
        · cases h
        · cases h
        · obtain rfl := Option.some.inj (Prod.mk.inj (Except.ok.inj h)).1
          rw [Bool.not_false, Bool.toNat_true]
          omega
      · cases h

/-- The brace that closes an object uses up text. -/
theorem nameStart_close (h : nameStart first c = .ok (none, after)) :
    after.rest.length < c.rest.length := by
  have hspaces := length_skipSpaces_le c
  unfold nameStart at h
  dsimp only at h
  split at h
  · cases h
  · next hpeek =>
    have hadvance := length_advance hpeek
    obtain rfl := (Prod.mk.inj (Except.ok.inj h)).2
    omega
  · repeat' split at h
    all_goals cases h

/-- So do the quote of a name and the comma in front of one that is not the first one. -/
theorem nameStart_name (h : nameStart first c = .ok (some start, after)) :
    start.rest.length + 1 + (!first).toNat ≤ c.rest.length := by
  have hspaces := length_skipSpaces_le c
  unfold nameStart at h
  dsimp only at h
  split at h
  · cases h
  · cases h
  · next hpeek =>
    have hadvance := length_advance hpeek
    have hnext := length_skipSpaces_le c.skipSpaces.advance
    cases first with
    | true =>
      rw [if_pos rfl] at h
      split at h
      · obtain rfl := Option.some.inj (Prod.mk.inj (Except.ok.inj h)).1
        simp only [Bool.not_true, Bool.toNat_false]
        omega
      · cases h
    | false =>
      rw [if_neg Bool.false_ne_true] at h
      split at h
      · split at h
        · cases h
        · next hquote =>
          have hname := length_advance hquote
          obtain rfl := Option.some.inj (Prod.mk.inj (Except.ok.inj h)).1
          simp only [Bool.not_false, Bool.toNat_true]
          omega
        · cases h
        · cases h
      · cases h

/-- Reading the colon makes the rest shorter. -/
theorem afterColon_length (h : afterColon c = .ok after) :
    after.rest.length < c.rest.length := by
  have hspaces := length_skipSpaces_le c
  unfold afterColon at h
  dsimp only at h
  split at h
  · cases h
  · next hpeek =>
    have hadvance := length_advance hpeek
    obtain rfl := Except.ok.inj h
    omega
  · cases h

/-! ## Documents -/

/-- A document that was read used up as much text as it is large. -/
def UsesText (c : Cursor) (read : Outline × Option Cursor) : Prop :=
  ∀ document, read.1.toJson = .ok document →
    ∃ after, read.2 = some after ∧ document.weight + after.rest.length ≤ c.rest.length

/-- Items that were read used up as much text as they are large. -/
def ItemsUseText (first : Bool) (c : Cursor) (read : Items × Option Cursor) : Prop :=
  ∀ documents, itemsToJson read.1 = .ok documents →
    ∃ after, read.2 = some after ∧
      Json.weightAll documents + (!first).toNat + after.rest.length ≤ c.rest.length

/-- Members that were read used up as much text as they are large. -/
def MembersUseText (first : Bool) (c : Cursor) (read : Members × Option Cursor) : Prop :=
  ∀ members, membersToJson read.1 = .ok members →
    ∃ after, read.2 = some after ∧
      Json.weightMembers members + (!first).toNat + after.rest.length ≤ c.rest.length

section Reading

variable {levels steps : Nat}

/-- In front of a bracket the items of an array are read. -/
theorem read_array (hpeek : c.skipSpaces.peek? = some '[') (hlevels : ¬ levels ≤ 1) :
    read levels c (steps + 1)
      = (.array c.skipSpaces.position (readItems (levels - 1) true c.skipSpaces.advance steps).1,
        (readItems (levels - 1) true c.skipSpaces.advance steps).2) := by
  rw [read]
  simp [hpeek, hlevels]

/-- In front of a brace the members of an object are read. -/
theorem read_object (hpeek : c.skipSpaces.peek? = some '\x7b') (hlevels : ¬ levels ≤ 1) :
    read levels c (steps + 1)
      = (.object c.skipSpaces.position
          (readMembers (levels - 1) true c.skipSpaces.advance steps).1,
        (readMembers (levels - 1) true c.skipSpaces.advance steps).2) := by
  rw [read]
  simp [hpeek, hlevels]

/-- Anything else starts a document without parts. -/
theorem read_scalar {char : Char} (hpeek : c.skipSpaces.peek? = some char) (harray : char ≠ '[')
    (hobject : char ≠ '\x7b') :
    read levels c (steps + 1) = ofScalar c.skipSpaces.position (readScalar char c.skipSpaces) := by
  rw [read]
  simp only [hpeek]

/-- Without text, or too deep, nothing is read. -/
theorem read_broken (h : c.skipSpaces.peek? = none ∨
      levels ≤ 1 ∧ (c.skipSpaces.peek? = some '[' ∨ c.skipSpaces.peek? = some '\x7b')) :
    ∃ fault, (read levels c (steps + 1)).1 = .broken c.skipSpaces.position fault := by
  rw [read]
  rcases h with hpeek | ⟨hlevels, hpeek | hpeek⟩
  · simp [hpeek]
  · simp [hpeek, hlevels]
  · simp [hpeek, hlevels]

/-- A part uses the text that is read for it if the items and members inside it do. -/
theorem usesText_read
    (hitems : ∀ c, ItemsUseText true c (readItems (levels - 1) true c steps))
    (hmembers : ∀ c, MembersUseText true c (readMembers (levels - 1) true c steps)) (c : Cursor) :
    UsesText c (read levels c (steps + 1)) := by
  have hspaces := length_skipSpaces_le c
  -- a document that is broken here is none, so nothing has to be shown
  have hbroken : (∃ fault, (read levels c (steps + 1)).1 = .broken c.skipSpaces.position fault) →
      UsesText c (read levels c (steps + 1)) := by
    rintro ⟨fault, hfault⟩ document h
    rw [hfault] at h
    cases h
  cases hpeek : c.skipSpaces.peek? with
  | none => exact hbroken (read_broken (.inl hpeek))
  | some char =>
    have hadvance := length_advance hpeek
    by_cases harray : char = '['
    · subst harray
      by_cases hlevels : levels ≤ 1
      · exact hbroken (read_broken (.inr ⟨hlevels, .inl hpeek⟩))
      intro document h
      rw [read_array hpeek hlevels] at h ⊢
      obtain ⟨items, hread, heq⟩ := bind_eq_ok.mp h
      obtain ⟨after, hafter, hlength⟩ := hitems _ items hread
      obtain rfl := Except.ok.inj heq
      rw [Bool.not_true, Bool.toNat_false] at hlength
      exact ⟨after, hafter, by rw [Json.weight]; omega⟩
    by_cases hobject : char = '\x7b'
    · subst hobject
      by_cases hlevels : levels ≤ 1
      · exact hbroken (read_broken (.inr ⟨hlevels, .inr hpeek⟩))
      intro document h
      rw [read_object hpeek hlevels] at h ⊢
      obtain ⟨members, hread, heq⟩ := bind_eq_ok.mp h
      obtain ⟨after, hafter, hlength⟩ := hmembers _ members hread
      obtain rfl := Except.ok.inj heq
      -- of members with one name the last counts, which can only lower the weight
      have hofList := Json.weightMembers_ofList members
      rw [Bool.not_true, Bool.toNat_false] at hlength
      exact ⟨after, hafter, by rw [Json.weight]; omega⟩
    · intro document h
      rw [read_scalar hpeek harray hobject] at h ⊢
      cases hscalar : readScalar char c.skipSpaces with
      | error fault =>
        rw [hscalar] at h
        cases h
      | ok found =>
        obtain ⟨other, after⟩ := found
        rw [hscalar] at h
        obtain rfl := Except.ok.inj h
        have hweight := readScalar_weight hpeek hscalar
        exact ⟨after, rfl, by omega⟩

/-- Items use the text that is read for them if the first one and the others do. -/
theorem itemsUseText_readItems (hvalue : ∀ c, UsesText c (read levels c steps))
    (hrest : ∀ c, ItemsUseText false c (readItems levels false c steps)) (first : Bool)
    (c : Cursor) : ItemsUseText first c (readItems levels first c (steps + 1)) := by
  intro documents h
  rw [readItems] at h ⊢
  rcases hstart : itemStart first c with fault | ⟨_ | start, stop⟩
  · rw [hstart] at h
    cases h
  · rw [hstart] at h
    obtain rfl := Except.ok.inj h
    have hclose := itemStart_close hstart
    have hcomma := Bool.toNat_le (!first)
    refine ⟨stop, rfl, ?_⟩
    rw [Json.weightAll]
    omega
  · have hitem := itemStart_item hstart
    have hused := hvalue start
    simp only [hstart] at h ⊢
    rcases hread : read levels start steps with ⟨value, _ | afterValue⟩
    · -- where a value breaks off there is no document
      rw [hread] at h hused
      obtain ⟨document, hdocument, -⟩ := bind_eq_ok.mp h
      obtain ⟨_, hnone, -⟩ := hused document hdocument
      cases hnone
    · rw [hread] at h hused
      obtain ⟨document, hdocument, h⟩ := bind_eq_ok.mp h
      obtain ⟨others, hothers, h⟩ := bind_eq_ok.mp h
      obtain rfl := Except.ok.inj h
      obtain ⟨_, heq, hlength⟩ := hused document hdocument
      obtain rfl := Option.some.inj heq
      obtain ⟨after, hafter, hrestLength⟩ := hrest afterValue others hothers
      rw [Bool.not_false, Bool.toNat_true] at hrestLength
      refine ⟨after, hafter, ?_⟩
      rw [Json.weightAll]
      omega

/-- Members use the text that is read for them if the first one and the others do. -/
theorem membersUseText_readMembers (hvalue : ∀ c, UsesText c (read levels c steps))
    (hrest : ∀ c, MembersUseText false c (readMembers levels false c steps)) (first : Bool)
    (c : Cursor) : MembersUseText first c (readMembers levels first c (steps + 1)) := by
  intro members h
  rw [readMembers] at h ⊢
  rcases hstart : nameStart first c with fault | ⟨_ | start, stop⟩
  · rw [hstart] at h
    cases h
  · rw [hstart] at h
    obtain rfl := Except.ok.inj h
    -- no member is left: the closing brace is all that is read
    have hclose := nameStart_close hstart
    have hcomma := Bool.toNat_le (!first)
    refine ⟨stop, rfl, ?_⟩
    rw [Json.weightMembers]
    omega
  · -- a name, a colon and a value, each of which uses its text, and then the others
    have hname := nameStart_name hstart
    simp only [hstart] at h ⊢
    rcases hstring : start.readString with fault | ⟨name, afterName⟩
    · rw [hstring] at h
      cases h
    have hnameLength := readString_length hstring
    simp only [hstring] at h ⊢
    rcases hcolon : afterColon afterName with fault | colon
    · rw [hcolon] at h
      cases h
    have hcolonLength := afterColon_length hcolon
    have hused := hvalue colon
    simp only [hcolon] at h ⊢
    rcases hread : read levels colon steps with ⟨value, _ | afterValue⟩
    · rw [hread] at h hused
      obtain ⟨document, hdocument, -⟩ := bind_eq_ok.mp h
      obtain ⟨_, hnone, -⟩ := hused document hdocument
      cases hnone
    · rw [hread] at h hused
      obtain ⟨document, hdocument, h⟩ := bind_eq_ok.mp h
      obtain ⟨others, hothers, h⟩ := bind_eq_ok.mp h
      obtain rfl := Except.ok.inj h
      obtain ⟨_, heq, hlength⟩ := hused document hdocument
      obtain rfl := Option.some.inj heq
      obtain ⟨after, hafter, hrestLength⟩ := hrest afterValue others hothers
      rw [Bool.not_false, Bool.toNat_true] at hrestLength
      refine ⟨after, hafter, ?_⟩
      rw [Json.weightMembers]
      omega

/-- Documents, items and members are read in turn, so what they use up is shown for all three at
once, step by step. -/
theorem usesText_all (steps : Nat) :
    (∀ levels c, UsesText c (read levels c steps)) ∧
      (∀ levels first c, ItemsUseText first c (readItems levels first c steps)) ∧
      ∀ levels first c, MembersUseText first c (readMembers levels first c steps) := by
  induction steps with
  | zero =>
    refine ⟨?_, ?_, ?_⟩
    · intro levels c document h
      cases h
    · intro levels first c documents h
      cases h
    · intro levels first c members h
      cases h
  | succ steps ih =>
    obtain ⟨hread, hitems, hmembers⟩ := ih
    refine ⟨fun levels => usesText_read (hitems _ true) (hmembers _ true), fun levels => ?_,
      fun levels => ?_⟩
    · exact itemsUseText_readItems (hread levels) (hitems levels false)
    · exact membersUseText_readMembers (hread levels) (hmembers levels false)

end Reading

/-- **A document that was read used up as much text as it is large.** -/
theorem weight_le_of_ofText {text : String} {document : Json}
    (h : (ofText text).1.toJson = .ok document) : document.weight ≤ text.length := by
  obtain ⟨after, -, hlength⟩ := (usesText_all _).1 _ _ document h
  have htext : (Cursor.ofText text).rest.length = text.length := String.length_toList
  omega

end Outline

/-- The document of a text is that of its outline, with nothing but spaces behind it. -/
theorem Json.outline_of_ofText {text : String} {document : Json}
    (h : Json.ofText text = .ok document) :
    (Outline.ofText text).1.toJson = .ok document ∧
      ∀ after, (Outline.ofText text).2 = some after → after.skipSpaces.rest = [] := by
  rw [Json.ofText] at h
  generalize Outline.ofText text = found at h ⊢
  obtain ⟨outline, stop?⟩ := found
  obtain ⟨read, hread, h⟩ := bind_eq_ok.mp h
  cases stop? with
  | none =>
    obtain rfl := Except.ok.inj h
    exact ⟨hread, fun after hafter => by cases hafter⟩
  | some stop =>
    dsimp only at h
    split at h
    · next hempty =>
      obtain rfl := Except.ok.inj h
      refine ⟨hread, fun after hafter => ?_⟩
      obtain rfl := Option.some.inj hafter
      exact List.isEmpty_iff.mp hempty
    · cases h

/-- **The document of a text is no larger than the text**, so it is smaller than a member that has
this text for its name. -/
theorem Json.weight_lt_of_ofText {text : String} {document : Json}
    (h : Json.ofText text = .ok document) : document.weight < text.length + 2 := by
  have hle := Outline.weight_le_of_ofText (Json.outline_of_ofText h).1
  omega

end ObjectMapping
