import ObjectMapping.Proofs.Calendar
import ObjectMapping.Proofs.Json.Continuation
import ObjectMapping.Proofs.Keyed

/-! # Texts of documents are read back

The reader of a document goes as deep as its text does, up to 127 arrays and objects. A document
that is no deeper is read back from its text, provided that its numbers are: the arrays and objects
around them add nothing but brackets, commas and names.

* `Json.nesting`: the number of arrays and objects around the innermost part.
* **`Json.Legible`** — documents of some depth with distinct member names and numbers that are read
  back.
* **`Json.Legible.ofText_compact`** — a legible document is read back from its text. -/

namespace ObjectMapping

namespace Json

open Cursor

/-! ## How texts start -/

/-- The text starts with a character that is no space and does not close an array. -/
def StartsPlain (text : String) : Prop :=
  ∃ d rest, text.toList = d :: rest ∧ isSpace d = false ∧ d ≠ ']'

/-- What is put behind a text does not change how it starts. -/
theorem StartsPlain.append {text : String} (h : StartsPlain text) (other : String) :
    StartsPlain (text ++ other) := by
  obtain ⟨d, rest, htext, hplain⟩ := h
  exact ⟨d, rest ++ other.toList, by rw [String.toList_append, htext, List.cons_append], hplain⟩

/-- The front part of a text starts as the text does. -/
theorem startsPlain_take {text : String} (h : StartsPlain text) (count : Nat) :
    StartsPlain (String.ofList (text.toList.take (count + 1))) := by
  obtain ⟨d, rest, htext, hplain⟩ := h
  exact ⟨d, rest.take count, by rw [String.toList_ofList, htext, List.take_succ_cons], hplain⟩

/-- A number starts with a digit. -/
theorem startsPlain_toString (n : Nat) : StartsPlain (toString n) := by
  cases hdigits : Nat.toDigits 10 n with
  | nil => exact absurd hdigits Nat.toDigits_ne_nil
  | cons d rest =>
    have hdigit : d.isDigit = true :=
      Nat.isDigit_of_mem_toDigits (by omega) (by omega) (hdigits ▸ List.mem_cons_self)
    refine ⟨d, rest, ?_, isSpace_of_isDigit hdigit, ?_⟩
    · rw [Nat.toString_eq_ofList_toDigits, String.toList_ofList, hdigits]
    · rintro rfl
      cases hdigit

/-- Padding does not change how a text starts. -/
theorem StartsPlain.pushn {text : String} (h : StartsPlain text) (char : Char) (count : Nat) :
    StartsPlain (text.pushn char count) := by
  obtain ⟨d, rest, htext, hplain⟩ := h
  exact ⟨d, rest ++ List.replicate count char,
    by rw [Text.toList_pushn, htext, List.cons_append], hplain⟩

/-- Decimal digits in any layout start with a digit. -/
theorem startsPlain_write (layout : Double.Layout) (d : Decimal) :
    StartsPlain (layout.write d) := by
  have hdigits := startsPlain_toString d.digits
  have hzero : StartsPlain "0." := ⟨'0', ['.'], by decide, by decide⟩
  unfold Double.Layout.write
  -- where the point stands does not matter
  extract_lets digits count lead
  clear_value lead
  split
  · split
    · exact (hdigits.pushn _ _).append _
    · split
      · exact ((startsPlain_take hdigits _).append _).append _
      · exact (hzero.append _).append _
  · exact ((((startsPlain_take hdigits 0).append _).append _).append _).append _

/-- The minus sign is no space and closes nothing. -/
theorem startsPlain_minus : StartsPlain "-" := ⟨'-', [], by decide, by decide⟩

/-- A floating-point number in any layout starts plainly. -/
theorem startsPlain_render (layout : Double.Layout) (x : Double) :
    StartsPlain (x.render layout) := by
  unfold Double.render
  split
  · exact ⟨'N', ['a', 'N'], by decide, by decide⟩
  · split
    · exact startsPlain_minus.append _
    · rw [String.empty_append]
      split
      · exact startsPlain_write layout _
      · exact ⟨'i', ['n', 'f'], by decide, by decide⟩

/-- Every number starts plainly. -/
theorem startsPlain_number (n : Number) : StartsPlain (numberText n) := by
  cases n with
  | double x => exact startsPlain_render numberLayout x
  | int i =>
    cases i with
    | ofNat n => exact startsPlain_toString n
    | negSucc n => exact startsPlain_minus.append (toString (n + 1))

/-- The text of a document starts with the document. -/
theorem startsPlain_compact (document : Json) : StartsPlain document.compact := by
  cases document with
  | null => exact ⟨'n', ['u', 'l', 'l'], by decide, by decide⟩
  | bool b =>
    cases b with
    | false => exact ⟨'f', ['a', 'l', 's', 'e'], by decide, by decide⟩
    | true => exact ⟨'t', ['r', 'u', 'e'], by decide, by decide⟩
  | number n => exact startsPlain_number n
  | string s => exact ⟨'"', _, toList_compact_string s, by decide⟩
  | array items =>
    have hopening : StartsPlain "[" := ⟨'[', [], by decide, by decide⟩
    rw [compact]
    exact (hopening.append _).append _
  | object members =>
    have hopening : StartsPlain "\x7b" := ⟨'\x7b', [], by decide, by decide⟩
    rw [compact]
    exact (hopening.append _).append _

/-! ## Texts of arrays and objects -/

/-- The text of items up to the closing bracket, with a comma in front unless they are the first
ones. -/
def itemsText (first : Bool) : List Json → List Char
  | [] => [']']
  | item :: rest =>
      (if first then [] else [',']) ++ (item.compact.toList ++ itemsText false rest)

/-- The text of a name in quotes. -/
def nameText (name : String) : List Char := '"' :: (name.toList.flatMap escapeChar ++ ['"'])

/-- The text of members up to the closing brace, with a comma in front unless they are the first
ones. -/
def membersText (first : Bool) : List (String × Json) → List Char
  | [] => ['\x7d']
  | (name, value) :: rest =>
      (if first then [] else [',']) ++
        (nameText name ++ ':' :: (value.compact.toList ++ membersText false rest))

/-- The compact texts of items are joined by commas. -/
theorem toList_items (items : List Json) :
    ((",".intercalate (compactItems items)) ++ "]").toList = itemsText true items := by
  induction items with
  | nil => rfl
  | cons item rest ih =>
    cases rest with
    | nil =>
      rw [compactItems, compactItems, String.intercalate_singleton, String.toList_append]
      rfl
    | cons next rest =>
      rw [compactItems, compactItems, String.intercalate_cons_cons, ← compactItems]
      simp only [String.append_assoc, String.toList_append, itemsText] at ih ⊢
      rw [ih]
      rfl

/-- An array is written as its items behind a bracket. -/
theorem toList_compact_array (items : List Json) :
    (array items).compact.toList = '[' :: itemsText true items := by
  rw [compact, String.append_assoc, String.toList_append, toList_items]
  rfl

/-- A name is written in quotes, character by character. -/
theorem toList_quoted (s : String) : (quoted s).toList = nameText s := by
  simp [quoted, nameText]

/-- The compact texts of members are joined by commas. -/
theorem toList_members (members : List (String × Json)) :
    ((",".intercalate (compactMembers members)) ++ "\x7d").toList = membersText true members := by
  induction members with
  | nil => rfl
  | cons member rest ih =>
    obtain ⟨name, value⟩ := member
    cases rest with
    | nil =>
      rw [compactMembers, compactMembers, String.intercalate_singleton]
      simp only [String.append_assoc, String.toList_append, toList_quoted, membersText]
      rfl
    | cons next rest =>
      rw [compactMembers, compactMembers, String.intercalate_cons_cons, ← compactMembers]
      simp only [String.append_assoc, String.toList_append, toList_quoted, membersText] at ih ⊢
      rw [ih]
      rfl

/-- An object is written as its members behind a brace. -/
theorem toList_compact_object (members : List (String × Json)) :
    (object members).compact.toList = '\x7b' :: membersText true members := by
  rw [compact, String.append_assoc, String.toList_append, toList_members]
  rfl

/-- No document is written as the empty text. -/
theorem length_compact_pos (document : Json) : 0 < document.compact.toList.length := by
  obtain ⟨d, rest, htext, -⟩ := startsPlain_compact document
  rw [htext]
  exact Nat.succ_pos _

/-- The text of items is not empty, as it closes the array. -/
theorem length_itemsText_pos (first : Bool) (items : List Json) :
    0 < (itemsText first items).length := by
  cases items with
  | nil => exact Nat.one_pos
  | cons item rest =>
    have htext := length_compact_pos item
    rw [itemsText, List.length_append, List.length_append]
    omega

/-- Behind an item there is a comma or the closing bracket. -/
theorem endsPart_itemsText (items : List Json) (tail : List Char) :
    EndsPart (itemsText false items ++ tail) := by
  intro d hd
  cases items with
  | nil =>
    obtain rfl := Option.some.inj hd
    exact .inr (.inl rfl)
  | cons item rest =>
    obtain rfl := Option.some.inj hd
    exact .inl rfl

/-- Behind a member there is a comma or the closing brace. -/
theorem endsPart_membersText (members : List (String × Json)) (tail : List Char) :
    EndsPart (membersText false members ++ tail) := by
  intro d hd
  cases members with
  | nil =>
    obtain rfl := Option.some.inj hd
    exact .inr (.inr rfl)
  | cons member rest =>
    obtain rfl := Option.some.inj hd
    exact .inl rfl

end Json

namespace Cursor

variable {c : Cursor} {rest : List Char}

/-- A word is read up to what follows it. -/
theorem exists_readWord {letters : List Char} (hrest : c.rest = letters ++ rest) :
    ∃ after, readWord letters c = .ok after ∧ after.rest = rest := by
  induction letters generalizing c with
  | nil => exact ⟨c, rfl, hrest⟩
  | cons letter letters ih =>
    rw [readWord, peek?_cons hrest]
    dsimp only
    rw [if_pos (beq_self_eq_true letter)]
    exact ih (rest_advance_cons hrest)

/-- A string is read up to what follows its closing quote. -/
theorem exists_readString {s : String}
    (hrest : c.rest = s.toList.flatMap Json.escapeChar ++ '"' :: rest) :
    ∃ after, c.readString = .ok (s, after) ∧ after.rest = rest := by
  have hsteps : s.toList.length < c.rest.length + 1 := by
    have hle := length_le_escaped s.toList
    rw [hrest, List.length_append]
    omega
  obtain ⟨after, hafter, hread⟩ := readChars_escaped hrest hsteps []
  refine ⟨after, ?_, hafter⟩
  rw [readString, hread, List.reverse_nil, List.nil_append, String.ofList_toList]

/-- No spaces are skipped where something else comes first. -/
theorem skipSpaces_of_cons {d : Char} (hrest : c.rest = d :: rest) (hspace : isSpace d = false) :
    c.skipSpaces = c := by
  refine skipSpaces_eq_self fun first hfirst => ?_
  rw [hrest] at hfirst
  obtain rfl := Option.some.inj hfirst
  exact hspace

/-- No spaces are skipped in front of a document. -/
theorem skipSpaces_of_compact {document : Json} (hrest : c.rest = document.compact.toList ++ rest) :
    c.skipSpaces = c := by
  obtain ⟨d, others, htext, hspace, -⟩ := Json.startsPlain_compact document
  rw [htext] at hrest
  exact skipSpaces_of_cons hrest hspace

/-- There is no space in front of the items of an array. -/
theorem skipSpaces_of_itemsText {items : List Json}
    (hrest : c.rest = Json.itemsText true items ++ rest) : c.skipSpaces = c := by
  cases items with
  | nil => exact skipSpaces_of_cons hrest rfl
  | cons item items =>
    rw [Json.itemsText, if_pos rfl, List.nil_append, List.append_assoc] at hrest
    exact skipSpaces_of_compact hrest

/-- There is no space in front of the members of an object. -/
theorem skipSpaces_of_membersText {members : List (String × Json)}
    (hrest : c.rest = Json.membersText true members ++ rest) : c.skipSpaces = c := by
  cases members with
  | nil => exact skipSpaces_of_cons hrest rfl
  | cons member members => exact skipSpaces_of_cons hrest rfl

end Cursor

namespace Outline

open Cursor Outcome Json

/-! ## Reading on in a longer text -/

/-- What was read are documents, with `tail` behind them and the spaces that follow. -/
def FindsItems (documents : List Json) (tail : List Char) (read : Items × Option Cursor) : Prop :=
  itemsToJson read.1 = .ok documents ∧ ∃ after, read.2 = some after ∧ after.skipSpaces.rest = tail

/-- What was read are members, with `tail` behind them and the spaces that follow. -/
def FindsMembers (members : List (String × Json)) (tail : List Char)
    (read : Members × Option Cursor) : Prop :=
  membersToJson read.1 = .ok members ∧ ∃ after, read.2 = some after ∧ after.skipSpaces.rest = tail

/-- The document is found wherever its text stands, within a number of levels. -/
def Findable (levels : Nat) (document : Json) : Prop :=
  ∀ {c : Cursor} {tail : List Char} {steps : Nat}, EndsPart tail →
    c.rest = document.compact.toList ++ tail → document.compact.toList.length < steps →
    Finds document tail (read levels c steps)

variable {c after : Cursor} {tail rest : List Char} {levels steps : Nat} {document : Json}

/-- A document without parts is found if it is read up to what follows it. -/
theorem finds_scalar {d : Char} (htail : EndsPart tail) (hrest : c.rest = d :: rest)
    (hspace : isSpace d = false) (harray : d ≠ '[') (hobject : d ≠ '\x7b')
    (hread : ∃ after, readScalar d c = .ok (document, after) ∧ after.rest = tail) :
    Finds document tail (read levels c (steps + 1)) := by
  have hstart : c.skipSpaces = c := skipSpaces_of_cons hrest hspace
  obtain ⟨after, hscalar, hafter⟩ := hread
  rw [read_scalar (hstart.symm ▸ peek?_cons hrest) harray hobject, hstart, hscalar]
  exact ⟨rfl, after, rfl, htail.rest_skipSpaces hafter⟩

/-- A word is found if the reader knows it by its first letter. -/
theorem findable_word (first : Char) (letters : List Char)
    (htext : document.compact.toList = first :: letters) (hspace : isSpace first = false)
    (harray : first ≠ '[') (hobject : first ≠ '\x7b')
    (hread : ∀ c, readScalar first c
      = (c.advance.readWord letters).map fun after => (document, after)) :
    Findable levels document := by
  intro c tail steps htail hrest hsteps
  obtain ⟨steps, rfl⟩ := Nat.exists_eq_add_of_lt hsteps
  rw [htext, List.cons_append] at hrest
  obtain ⟨after, hword, hafter⟩ := exists_readWord (rest_advance_cons hrest)
  exact finds_scalar htail hrest hspace harray hobject
    ⟨after, by rw [hread, hword]; rfl, hafter⟩

/-- The null document is found. -/
theorem findable_null : Findable levels .null :=
  findable_word 'n' ['u', 'l', 'l'] rfl rfl (by decide) (by decide) fun _ => rfl

/-- Truth values are found. -/
theorem findable_bool (b : Bool) : Findable levels (.bool b) := by
  cases b with
  | false =>
    exact findable_word 'f' ['a', 'l', 's', 'e'] rfl rfl (by decide) (by decide) fun _ => rfl
  | true => exact findable_word 't' ['r', 'u', 'e'] rfl rfl (by decide) (by decide) fun _ => rfl

/-- Strings are found. -/
theorem findable_string (s : String) : Findable levels (.string s) := by
  intro c tail steps htail hrest hsteps
  obtain ⟨steps, rfl⟩ := Nat.exists_eq_add_of_lt hsteps
  rw [toList_compact_string, List.cons_append, List.append_assoc] at hrest
  obtain ⟨after, hread, hafter⟩ := exists_readString (rest_advance_cons hrest)
  exact finds_scalar htail hrest (by decide) (by decide) (by decide)
    ⟨after, by rw [readScalar, hread]; rfl, hafter⟩

/-- A number is found if its own text is read as this number. -/
theorem findable_number {n : Number} (h : Json.ofText (Json.number n).compact = .ok (.number n)) :
    Findable levels (.number n) := by
  intro c tail steps htail hrest hsteps
  obtain ⟨steps, rfl⟩ := Nat.exists_eq_add_of_lt hsteps
  exact finds_number h htail hrest levels _

/-! ## Items and members -/

/-- In front of an item the item starts. -/
theorem itemStart_of_rest {first : Bool} (hspaces : c.skipSpaces.rest
      = (if first then [] else [',']) ++ (document.compact.toList ++ rest)) :
    ∃ start, itemStart first c = .ok (some start, start) ∧
      start.rest = document.compact.toList ++ rest := by
  obtain ⟨d, others, htext, -, hclosing⟩ := startsPlain_compact document
  cases first with
  | true =>
    have hfirst : c.skipSpaces.rest = d :: (others ++ rest) := by
      rw [hspaces, htext]
      rfl
    have hpeek : c.skipSpaces.peek? = some d := peek?_cons hfirst
    refine ⟨c.skipSpaces, ?_, hspaces⟩
    unfold itemStart
    simp [hpeek]
  | false =>
    have hrest : c.skipSpaces.advance.rest = document.compact.toList ++ rest :=
      rest_advance_cons hspaces
    have hfirst : c.skipSpaces.advance.rest = d :: (others ++ rest) := by
      rw [hrest, htext]
      rfl
    have hpeek : c.skipSpaces.advance.peek? = some d := peek?_cons hfirst
    refine ⟨c.skipSpaces.advance, ?_, hrest⟩
    have hcomma : c.skipSpaces.peek? = some ',' := peek?_cons hspaces
    unfold itemStart
    simp [hcomma, skipSpaces_of_compact hrest, hpeek]

/-- **Items are found if each of them is.** -/
theorem findsItems {items : List Json} (h : ∀ item ∈ items, Findable levels item) {first : Bool}
    (htail : EndsPart tail) (hspaces : c.skipSpaces.rest = itemsText first items ++ tail)
    (hsteps : (itemsText first items).length < steps) :
    FindsItems items tail (readItems levels first c steps) := by
  induction items generalizing c first steps with
  | nil =>
    obtain ⟨steps, rfl⟩ := Nat.exists_eq_add_of_lt hsteps
    have hpeek : c.skipSpaces.peek? = some ']' := peek?_cons hspaces
    have hstart : itemStart first c = .ok (none, c.skipSpaces.advance) := by
      unfold itemStart
      simp [hpeek]
    rw [readItems, hstart]
    exact ⟨rfl, _, rfl, htail.rest_skipSpaces (rest_advance_cons hspaces)⟩
  | cons item items ih =>
    rw [List.forall_mem_cons] at h
    obtain ⟨hitem, hitems⟩ := h
    rw [itemsText, List.length_append, List.length_append] at hsteps
    have htext := length_compact_pos item
    have hrestText := length_itemsText_pos false items
    cases steps with
    | zero => exact absurd hsteps (Nat.not_lt_zero _)
    | succ steps =>
      rw [itemsText, List.append_assoc, List.append_assoc] at hspaces
      obtain ⟨start, hstart, hrest⟩ := itemStart_of_rest hspaces
      -- the first item is read up to its end, and the others from there by induction
      have hvalue : Finds item (itemsText false items ++ tail) (read levels start steps) :=
        hitem (endsPart_itemsText items tail) hrest (by omega)
      rw [readItems, hstart]
      rcases hread : read levels start steps with ⟨value, stop?⟩
      rw [hread] at hvalue
      obtain ⟨hdocument, stop, rfl, hstop⟩ := hvalue
      have hothers : FindsItems items tail (readItems levels false stop steps) :=
        ih hitems hstop (by omega)
      obtain ⟨hdocuments, after, hafter, hend⟩ := hothers
      dsimp only at hdocument ⊢
      rw [hread]
      refine ⟨?_, after, hafter, hend⟩
      dsimp only
      rw [itemsToJson, hdocument, hdocuments]
      rfl

/-- In front of a member its name starts. -/
theorem nameStart_of_rest {first : Bool} {name : String} (hspaces : c.skipSpaces.rest
      = (if first then [] else [',']) ++ (nameText name ++ rest)) :
    ∃ start at_, nameStart first c = .ok (some start, at_) ∧
      start.rest = name.toList.flatMap escapeChar ++ '"' :: rest := by
  rw [nameText, List.cons_append, List.append_assoc] at hspaces
  cases first with
  | true =>
    have hpeek : c.skipSpaces.peek? = some '"' := peek?_cons hspaces
    refine ⟨c.skipSpaces.advance, c.skipSpaces, ?_, rest_advance_cons hspaces⟩
    unfold nameStart
    simp [hpeek]
  | false =>
    have hrest := rest_advance_cons hspaces
    have hstart : c.skipSpaces.advance.skipSpaces = c.skipSpaces.advance :=
      skipSpaces_of_cons hrest rfl
    have hpeek : c.skipSpaces.advance.peek? = some '"' := peek?_cons hrest
    have hcomma : c.skipSpaces.peek? = some ',' := peek?_cons hspaces
    refine ⟨c.skipSpaces.advance.advance, c.skipSpaces.advance, ?_, rest_advance_cons hrest⟩
    unfold nameStart
    simp [hcomma, hstart, hpeek]

/-- Behind a name there is a colon. -/
theorem exists_afterColon (hrest : c.rest = ':' :: rest) :
    ∃ colon, afterColon c = .ok colon ∧ colon.rest = rest := by
  have hstart : c.skipSpaces = c := skipSpaces_of_cons hrest rfl
  refine ⟨c.advance, ?_, rest_advance_cons hrest⟩
  rw [afterColon, hstart, peek?_cons hrest]
  rfl

/-- **Members are found if each of their values is.** -/
theorem findsMembers {members : List (String × Json)}
    (h : ∀ member ∈ members, Findable levels member.2) {first : Bool}
    (htail : EndsPart tail) (hspaces : c.skipSpaces.rest = membersText first members ++ tail)
    (hsteps : (membersText first members).length < steps) :
    FindsMembers members tail (readMembers levels first c steps) := by
  induction members generalizing c first steps with
  | nil =>
    obtain ⟨steps, rfl⟩ := Nat.exists_eq_add_of_lt hsteps
    have hpeek : c.skipSpaces.peek? = some '\x7d' := peek?_cons hspaces
    have hstart : nameStart first c = .ok (none, c.skipSpaces.advance) := by
      unfold nameStart
      simp [hpeek]
    rw [readMembers, hstart]
    exact ⟨rfl, _, rfl, htail.rest_skipSpaces (rest_advance_cons hspaces)⟩
  | cons member members ih =>
    obtain ⟨name, value⟩ := member
    rw [List.forall_mem_cons] at h
    obtain ⟨hvalue, hvalues⟩ := h
    dsimp only at hvalue
    rw [membersText, List.length_append, List.length_append, List.length_cons,
      List.length_append] at hsteps
    cases steps with
    | zero => exact absurd hsteps (Nat.not_lt_zero _)
    | succ steps =>
      rw [membersText, List.append_assoc, List.append_assoc] at hspaces
      -- the name, the colon and the value are read, and then the others by induction
      obtain ⟨start, _, hstart, hrest⟩ := nameStart_of_rest hspaces
      obtain ⟨afterName, hname, hafterName⟩ := exists_readString hrest
      rw [List.cons_append, List.append_assoc] at hafterName
      obtain ⟨colon, hcolon, hvalueText⟩ := exists_afterColon hafterName
      have hfound : Finds value (membersText false members ++ tail) (read levels colon steps) :=
        hvalue (endsPart_membersText members tail) hvalueText (by omega)
      rw [readMembers, hstart]
      dsimp only
      rw [hname]
      dsimp only
      rw [hcolon]
      rcases hread : read levels colon steps with ⟨outline, stop?⟩
      rw [hread] at hfound
      obtain ⟨hdocument, stop, rfl, hstop⟩ := hfound
      have hothers : FindsMembers members tail (readMembers levels false stop steps) :=
        ih hvalues hstop (by omega)
      obtain ⟨hdocuments, after, hafter, hend⟩ := hothers
      dsimp only at hdocument ⊢
      rw [hread]
      refine ⟨?_, after, hafter, hend⟩
      dsimp only
      rw [membersToJson, hdocument, hdocuments]
      rfl

/-! ## Documents -/

/-- An array is found if its items are, one level further in. -/
theorem findable_array {items : List Json} (h : ∀ item ∈ items, Findable (levels + 1) item) :
    Findable (levels + 2) (.array items) := by
  intro c tail steps htail hrest hsteps
  have hstart : c.skipSpaces = c := skipSpaces_of_compact hrest
  rw [toList_compact_array] at hrest hsteps
  rw [List.length_cons] at hsteps
  cases steps with
  | zero => exact absurd hsteps (Nat.not_lt_zero _)
  | succ steps =>
    -- nothing stands between the bracket and the first item
    have hopening : c.advance.rest = itemsText true items ++ tail := rest_advance_cons hrest
    have hspaces : c.advance.skipSpaces.rest = itemsText true items ++ tail := by
      rw [skipSpaces_of_itemsText hopening, hopening]
    have hitems : FindsItems items tail (readItems (levels + 1) true c.advance steps) :=
      findsItems h htail hspaces (by omega)
    obtain ⟨hdocuments, after, hafter, hend⟩ := hitems
    rw [read_array (hstart.symm ▸ peek?_cons hrest) (by omega), hstart]
    refine ⟨?_, after, hafter, hend⟩
    show (do return Json.array (← itemsToJson (readItems (levels + 1) true c.advance steps).1)) = _
    rw [hdocuments]
    rfl

/-- An object is found if its members are, one level further in, and their names are different. -/
theorem findable_object {members : List (String × Json)} (hnames : (members.map (·.1)).Nodup)
    (h : ∀ member ∈ members, Findable (levels + 1) member.2) :
    Findable (levels + 2) (.object members) := by
  intro c tail steps htail hrest hsteps
  have hstart : c.skipSpaces = c := skipSpaces_of_compact hrest
  rw [toList_compact_object] at hrest hsteps
  rw [List.length_cons] at hsteps
  cases steps with
  | zero => exact absurd hsteps (Nat.not_lt_zero _)
  | succ steps =>
    have hopening : c.advance.rest = membersText true members ++ tail := rest_advance_cons hrest
    have hspaces : c.advance.skipSpaces.rest = membersText true members ++ tail := by
      rw [skipSpaces_of_membersText hopening, hopening]
    have hmembers : FindsMembers members tail (readMembers (levels + 1) true c.advance steps) :=
      findsMembers h htail hspaces (by omega)
    obtain ⟨hdocuments, after, hafter, hend⟩ := hmembers
    rw [read_object (hstart.symm ▸ peek?_cons hrest) (by omega), hstart]
    refine ⟨?_, after, hafter, hend⟩
    show (do return Json.object (Keyed.ofList
      (← membersToJson (readMembers (levels + 1) true c.advance steps).1))) = _
    rw [hdocuments]
    show Except.ok (Json.object (Keyed.ofList members)) = _
    rw [Keyed.ofList_eq_self hnames]

end Outline

namespace Json

open Outline Cursor

/-! ## Legible documents -/

mutual

/-- The number of arrays and objects around the innermost part of a document. -/
def nesting : Json → Nat
  | array items => nestingAll items + 1
  | object members => nestingMembers members + 1
  | null | bool _ | number _ | string _ => 0

/-- The greatest nesting in a list. -/
def nestingAll : List Json → Nat
  | [] => 0
  | item :: rest => max (nesting item) (nestingAll rest)

/-- The greatest nesting of the members of an object. -/
def nestingMembers : List (String × Json) → Nat
  | [] => 0
  | (_, value) :: rest => max (nesting value) (nestingMembers rest)

end

/-- An item is nested no deeper than all items. -/
theorem nesting_le_nestingAll {items : List Json} {item : Json} (h : item ∈ items) :
    item.nesting ≤ nestingAll items := by
  induction items with
  | nil => cases h
  | cons head rest ih =>
    rw [nestingAll]
    rcases List.mem_cons.mp h with rfl | hrest
    · exact Nat.le_max_left _ _
    · exact Nat.le_trans (ih hrest) (Nat.le_max_right _ _)

/-- A member is nested no deeper than all members. -/
theorem nesting_le_nestingMembers {members : List (String × Json)} {member : String × Json}
    (h : member ∈ members) : member.2.nesting ≤ nestingMembers members := by
  induction members with
  | nil => cases h
  | cons head rest ih =>
    obtain ⟨name, value⟩ := head
    rw [nestingMembers]
    rcases List.mem_cons.mp h with rfl | hrest
    · exact Nat.le_max_left _ _
    · exact Nat.le_trans (ih hrest) (Nat.le_max_right _ _)

/-- **Documents of at most so many levels of arrays and objects** with distinct member names, whose
numbers are read back from their texts. -/
inductive Legible : Nat → Json → Prop
  | null (levels : Nat) : Legible levels .null
  | bool (levels : Nat) (b : Bool) : Legible levels (.bool b)
  | string (levels : Nat) (s : String) : Legible levels (.string s)
  | number {n : Number} (levels : Nat) (hnumber : ofText (number n).compact = .ok (.number n)) :
      Legible levels (.number n)
  | array {levels : Nat} {items : List Json} (hitems : ∀ item ∈ items, Legible levels item) :
      Legible (levels + 1) (.array items)
  | object {levels : Nat} {members : List (String × Json)} (hnames : (members.map (·.1)).Nodup)
      (hvalues : ∀ member ∈ members, Legible levels member.2) : Legible (levels + 1) (.object members)

/-- A legible document is found wherever its text stands, if the reader may go as deep. -/
theorem Legible.findable {levels : Nat} {document : Json} (h : document.Legible levels) :
    Findable (levels + 1) document := by
  induction h with
  | null => exact findable_null
  | bool levels b => exact findable_bool b
  | string levels s => exact findable_string s
  | number levels hnumber => exact findable_number hnumber
  | array _ ih => exact findable_array ih
  | object hnames _ ih => exact findable_object hnames ih

/-- **A legible document is read back from its text.** -/
theorem Legible.ofText_compact {document : Json} (h : document.Legible 127) :
    ofText document.compact = .ok document := by
  have hrest : (Cursor.ofText document.compact).rest = document.compact.toList ++ [] :=
    (List.append_nil _).symm
  have hend : EndsPart [] := by
    intro d hd
    cases hd
  have hfinds : Finds document [] (Outline.ofText document.compact) :=
    h.findable hend hrest (by rw [hrest, List.append_nil]; omega)
  rw [ofText]
  generalize Outline.ofText document.compact = found at hfinds
  obtain ⟨outline, stop?⟩ := found
  obtain ⟨hdocument, after, rfl, hafter⟩ := hfinds
  dsimp only at hdocument ⊢
  rw [hdocument]
  show (if after.skipSpaces.rest.isEmpty = true then _ else _) = _
  rw [hafter]
  rfl

end Json

end ObjectMapping
