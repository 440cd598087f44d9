import ObjectMapping.Proofs.Double.Finite
import ObjectMapping.Proofs.Json.Weight
import ObjectMapping.Proofs.Keyed

/-! # What is read is well formed

Readers of a text make no document but well-formed ones: an object keeps one member for each name,
and a number that is too large for a double is a fault of the text.

* **`Json.WellFormed`** — different member names and finite doubles, at every level of a document.
* `Cursor.finite_readNumber`: a number that was read is finite.
* **`Json.wellFormed_of_ofText`** — the document of a text is well formed. -/

namespace ObjectMapping

open Outcome

/-- **Documents with different member names and finite doubles** at every level. -/
inductive Json.WellFormed : Json → Prop
  | null : WellFormed .null
  | bool (b : Bool) : WellFormed (.bool b)
  | int (i : Int) : WellFormed (.number (.int i))
  | double {x : Double} (hfinite : x.isFinite = true) : WellFormed (.number (.double x))
  | string (s : String) : WellFormed (.string s)
  | array {items : List Json} (hitems : ∀ item ∈ items, WellFormed item) : WellFormed (.array items)
  | object {members : List (String × Json)} (hnames : (members.map (·.1)).Nodup)
      (hmembers : ∀ member ∈ members, WellFormed member.2) : WellFormed (.object members)

/-- Whole numbers and finite doubles. -/
def Number.Finite : Number → Prop
  | .int _ => True
  | .double x => x.isFinite = true

/-- A finite number is a well-formed document. -/
theorem Json.wellFormed_number {n : Number} (h : n.Finite) : (Json.number n).WellFormed := by
  cases n with
  | int i => exact .int i
  | double x => exact .double h

namespace Cursor

/-! ## Numbers -/

variable {c after : Cursor} {n : Number} {negative : Bool} {significand : Nat}

/-- Digits are appended as long as the number fits a word. -/
theorem appendDigits_le (digits : List Char) (h : significand ≤ maxWord) :
    (appendDigits significand digits).1 ≤ maxWord := by
  induction digits generalizing significand with
  | nil => exact h
  | cons d rest ih =>
    rw [appendDigits]
    split
    · next hlarger => exact ih hlarger
    · exact h

/-- Scaling by powers of ten does not leave the finite doubles. -/
theorem isFinite_scaleTen {x scaled : Double} {exponent : Int} {steps : Nat}
    (hx : x.isFinite = true) (h : scaleTen x exponent steps = some scaled) :
    scaled.isFinite = true := by
  induction steps generalizing x exponent with
  | zero =>
    obtain rfl := Option.some.inj h
    exact hx
  | succ steps ih =>
    rw [scaleTen] at h
    dsimp only at h
    split at h
    · split at h
      · split at h
        · next hproduct =>
          obtain rfl := Option.some.inj h
          exact hproduct
        · cases h
      · obtain rfl := Option.some.inj h
        exact Double.isFinite_div_powerOfTen hx (by omega)
    · split at h
      · obtain rfl := Option.some.inj h
        exact hx
      · split at h
        · cases h
        · exact ih (Double.isFinite_div_powerOfTen hx (by decide)) h

/-- A number that is put together from its parts is finite. -/
theorem finite_doubleOfParts {exponent : Int} (hword : significand ≤ maxWord)
    (h : doubleOfParts negative significand exponent c = .ok (n, after)) : n.Finite := by
  rw [doubleOfParts] at h
  split at h
  · next x hscale =>
    obtain rfl := (Prod.mk.inj (Except.ok.inj h)).1
    have hbound : (significand : Int).natAbs < 2 ^ 1023 :=
      Nat.lt_of_le_of_lt hword (by decide +kernel)
    have hfinite := isFinite_scaleTen (Double.isFinite_ofInt hbound) hscale
    show (if negative then x.neg else x).isFinite = true
    split
    · exact Double.isFinite_neg hfinite
    · exact hfinite
  · cases h

/-- A number that is read with its exponent is finite. -/
theorem finite_readExponent {start : Int} (hword : significand ≤ maxWord)
    (h : readExponent negative significand start c = .ok (n, after)) : n.Finite := by
  unfold readExponent at h
  dsimp only at h
  split at h
  · cases h
  split at h
  · cases h
  split at h
  · exact finite_doubleOfParts hword h
  · split at h
    · cases h
    · obtain rfl := (Prod.mk.inj (Except.ok.inj h)).1
      exact Double.isFinite_zero negative

/-- A number that is read with its fraction is finite. -/
theorem finite_readFraction {exponent : Int} (hword : significand ≤ maxWord)
    (h : readFraction negative significand exponent c = .ok (n, after)) : n.Finite := by
  have hdigits := appendDigits_le c.digits hword
  unfold readFraction at h
  dsimp only at h
  split at h
  · cases h
  unfold finishDouble at h
  split at h
  · exact finite_readExponent hdigits h
  · exact finite_readExponent hdigits h
  · exact finite_doubleOfParts hdigits h

/-- A whole number that fits a word is finite. -/
theorem finite_wholeNumber (hword : significand ≤ maxWord) :
    (wholeNumber negative significand).Finite := by
  rw [wholeNumber]
  split
  · trivial
  split
  · exact Double.isFinite_ofRatio_one (Nat.lt_of_le_of_lt hword (by decide +kernel)) true
  · trivial

/-- **A number that was read is finite.** -/
theorem finite_readNumber (h : readNumber negative c = .ok (n, after)) : n.Finite := by
  have hword : (appendDigits 0 c.digits).1 ≤ maxWord :=
    appendDigits_le c.digits (Nat.zero_le maxWord)
  unfold readNumber at h
  split at h
  · cases h
  split at h
  · cases h
  dsimp only at h
  split at h
  · cases h
  split at h
  · exact finite_readFraction hword h
  · exact finite_readExponent hword h
  · exact finite_readExponent hword h
  · split at h
    · obtain rfl := (Prod.mk.inj (Except.ok.inj h)).1
      exact finite_wholeNumber hword
    · exact finite_doubleOfParts hword h

end Cursor

namespace Outline

/-! ## Documents -/

variable {c after : Cursor} {levels steps : Nat}

/-- A part without parts inside is read as a well-formed document. -/
theorem wellFormed_readScalar {char : Char} {document : Json}
    (h : readScalar char c = .ok (document, after)) : document.WellFormed := by
  unfold readScalar at h
  split at h
  · obtain ⟨_, -, heq⟩ := map_eq_ok.mp h
    obtain ⟨rfl, -⟩ := Prod.mk.inj heq
    exact .null
  · obtain ⟨_, -, heq⟩ := map_eq_ok.mp h
    obtain ⟨rfl, -⟩ := Prod.mk.inj heq
    exact .bool true
  · obtain ⟨_, -, heq⟩ := map_eq_ok.mp h
    obtain ⟨rfl, -⟩ := Prod.mk.inj heq
    exact .bool false
  · obtain ⟨⟨s, next⟩, -, heq⟩ := map_eq_ok.mp h
    obtain ⟨rfl, -⟩ := Prod.mk.inj heq
    exact .string s
  · obtain ⟨⟨n, next⟩, hread, heq⟩ := map_eq_ok.mp h
    obtain ⟨rfl, -⟩ := Prod.mk.inj heq
    exact Json.wellFormed_number (Cursor.finite_readNumber hread)
  · split at h
    · obtain ⟨⟨n, next⟩, hread, heq⟩ := map_eq_ok.mp h
      obtain ⟨rfl, -⟩ := Prod.mk.inj heq
      exact Json.wellFormed_number (Cursor.finite_readNumber hread)
    · cases h

/-- The document of an outline is well formed, if the outline has one. -/
def WellFormed (outline : Outline) : Prop :=
  ∀ document, outline.toJson = .ok document → document.WellFormed

/-- The documents of items are well formed. -/
def ItemsWellFormed (items : Items) : Prop :=
  ∀ documents, itemsToJson items = .ok documents → ∀ document ∈ documents, document.WellFormed

/-- The documents of members are well formed. -/
def MembersWellFormed (members : Members) : Prop :=
  ∀ found, membersToJson members = .ok found →
    ∀ document ∈ found.map (·.2), document.WellFormed

/-- A part is read as a well-formed document if the items and members inside it are. -/
theorem wellFormed_read
    (hitems : ∀ c, ItemsWellFormed (readItems (levels - 1) true c steps).1)
    (hmembers : ∀ c, MembersWellFormed (readMembers (levels - 1) true c steps).1) (c : Cursor) :
    WellFormed (read levels c (steps + 1)).1 := by
  have hbroken : (∃ fault, (read levels c (steps + 1)).1 = .broken c.skipSpaces.position fault) →
      WellFormed (read levels c (steps + 1)).1 := by
    rintro ⟨fault, hfault⟩ document h
    rw [hfault] at h
    cases h
  cases hpeek : c.skipSpaces.peek? with
  | none => exact hbroken (read_broken (.inl hpeek))
  | some char =>
    by_cases harray : char = '['
    · subst harray
      by_cases hlevels : levels ≤ 1
      · exact hbroken (read_broken (.inr ⟨hlevels, .inl hpeek⟩))
      intro document h
      rw [read_array hpeek hlevels] at h
      obtain ⟨items, hread, heq⟩ := bind_eq_ok.mp h
      obtain rfl := Except.ok.inj heq
      exact .array (hitems _ items hread)
    by_cases hobject : char = '\x7b'
    · subst hobject
      by_cases hlevels : levels ≤ 1
      · exact hbroken (read_broken (.inr ⟨hlevels, .inr hpeek⟩))
      intro document h
      rw [read_object hpeek hlevels] at h
      obtain ⟨members, hread, heq⟩ := bind_eq_ok.mp h
      obtain rfl := Except.ok.inj heq
      -- of members with one name a single one is kept
      refine .object (Keyed.nodup_keys_ofList members) fun member hmem => ?_
      exact hmembers _ members hread member.2 (Keyed.mem_of_mem_ofList hmem).2
    · intro document h
      rw [read_scalar hpeek harray hobject] at h
      cases hscalar : readScalar char c.skipSpaces with
      | error fault =>
        rw [hscalar] at h
        cases h
      | ok found =>
        rw [hscalar] at h
        obtain rfl := Except.ok.inj h
        exact wellFormed_readScalar hscalar

/-- Items are read as well-formed documents if the first one and the others are. -/
theorem itemsWellFormed_readItems (hvalue : ∀ c, WellFormed (read levels c steps).1)
    (hrest : ∀ c, ItemsWellFormed (readItems levels false c steps).1) (first : Bool) (c : Cursor) :
    ItemsWellFormed (readItems levels first c (steps + 1)).1 := by
  intro documents h
  rw [readItems] at h
  rcases hstart : itemStart first c with fault | ⟨_ | start, stop⟩
  · rw [hstart] at h
    cases h
  · rw [hstart] at h
    obtain rfl := Except.ok.inj h
    exact fun document hmem => absurd hmem List.not_mem_nil
  · have hdocument := hvalue start
    simp only [hstart] at h
    rcases hread : read levels start steps with ⟨value, _ | afterValue⟩
    · rw [hread] at h hdocument
      obtain ⟨document, hvalue, h⟩ := bind_eq_ok.mp h
      obtain rfl := Except.ok.inj h
      exact List.forall_mem_singleton.mpr (hdocument document hvalue)
    · rw [hread] at h hdocument
      obtain ⟨document, hvalue, h⟩ := bind_eq_ok.mp h
      obtain ⟨others, hothers, h⟩ := bind_eq_ok.mp h
      obtain rfl := Except.ok.inj h
      exact List.forall_mem_cons.mpr
        ⟨hdocument document hvalue, hrest afterValue others hothers⟩

/-- Members are read as well-formed documents if the first one and the others are. -/
theorem membersWellFormed_readMembers (hvalue : ∀ c, WellFormed (read levels c steps).1)
    (hrest : ∀ c, MembersWellFormed (readMembers levels false c steps).1) (first : Bool)
    (c : Cursor) : MembersWellFormed (readMembers levels first c (steps + 1)).1 := by
  intro members h
  rw [readMembers] at h
  rcases hstart : nameStart first c with fault | ⟨_ | start, stop⟩
  · rw [hstart] at h
    cases h
  · rw [hstart] at h
    obtain rfl := Except.ok.inj h
    exact fun document hmem => absurd hmem List.not_mem_nil
  · simp only [hstart] at h
    rcases hstring : start.readString with fault | ⟨name, afterName⟩
    · rw [hstring] at h
      cases h
    simp only [hstring] at h
    rcases hcolon : afterColon afterName with fault | colon
    · rw [hcolon] at h
      cases h
    have hdocument := hvalue colon
    simp only [hcolon] at h
    rcases hread : read levels colon steps with ⟨value, _ | afterValue⟩
    · rw [hread] at h hdocument
      obtain ⟨document, hvalue, h⟩ := bind_eq_ok.mp h
      obtain rfl := Except.ok.inj h
      exact List.forall_mem_singleton.mpr (hdocument document hvalue)
    · rw [hread] at h hdocument
      obtain ⟨document, hvalue, h⟩ := bind_eq_ok.mp h
      obtain ⟨others, hothers, h⟩ := bind_eq_ok.mp h
      obtain rfl := Except.ok.inj h
      exact List.forall_mem_cons.mpr
        ⟨hdocument document hvalue, hrest afterValue others hothers⟩

/-- Documents, items and members are read in turn, so they are shown to be well formed all three at
once, step by step. -/
theorem wellFormed_all (steps : Nat) :
    (∀ levels c, WellFormed (read levels c steps).1) ∧
      (∀ levels first c, ItemsWellFormed (readItems levels first c steps).1) ∧
      ∀ levels first c, MembersWellFormed (readMembers levels first c steps).1 := by
  induction steps with
  | zero =>
    refine ⟨?_, ?_, ?_⟩
    · intro levels c document h
      cases h
    · intro levels first c documents h
      cases h
    · intro levels first c members h
      cases h
  | succ steps ih =>
    obtain ⟨hread, hitems, hmembers⟩ := ih
    refine ⟨fun levels => wellFormed_read (hitems _ true) (hmembers _ true), fun levels => ?_,
      fun levels => ?_⟩
    · exact itemsWellFormed_readItems (hread levels) (hitems levels false)
    · exact membersWellFormed_readMembers (hread levels) (hmembers levels false)

end Outline

/-- **The document of a text is well formed.** -/
theorem Json.wellFormed_of_ofText {text : String} {document : Json}
    (h : Json.ofText text = .ok document) : document.WellFormed :=
  (Outline.wellFormed_all _).1 _ _ document (Json.outline_of_ofText h).1

end ObjectMapping
