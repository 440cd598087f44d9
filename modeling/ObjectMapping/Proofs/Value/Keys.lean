import ObjectMapping.Proofs.Json.Legible
import ObjectMapping.Proofs.Value.Admission
import ObjectMapping.Proofs.Value.Copies
import ObjectMapping.Proofs.Value.Encoding
import ObjectMapping.Proofs.Value.Steadiness

/-! # Keys are read back from member names

Strings and enum members are written as they are, every other key as the text of its document, and
a reader tries the name itself before the text. So a key is lost where its type accepts the text of
its document as a string: bytes are such keys, whose documents are strings but which are not written
as they are, and so is the absent value where strings may be absent. All other keys survive.

* `Value.Legible`: values whose documents are read back from their texts, `Value.legible_toJson`.
* **`ClassTable.Mistakes`** — keys whose texts are taken for other keys.
* **`ClassTable.Admits.restoresKey_iff`** — a key whose document is read back is read back from its
  member name exactly if it is not mistaken.
* `ClassTable.IsKey.clear`: keys that are told apart by member names are not mistaken. -/

namespace ObjectMapping

open Decoding

namespace Value

/-- Values whose documents are no deeper than what a reader of a text accepts, and numbers that are
read back from their texts. -/
def Legible (v : Value) : Prop :=
  v.toJson.nesting ≤ 127 ∧
    ∀ x, v = .float x → Json.ofText (Json.number (.double x)).compact = .ok (.number (.double x))

/-- A number is read back from its document, however deep it stands. -/
theorem legible_int (i : Int64) (levels : Nat) : (int i).toJson.Legible levels := by
  have hhigh : i.toInt ≤ (Cursor.maxWord : Int) := Int.le_trans (Int64.toInt_le i) (by decide)
  rw [toJson]
  exact .number levels (Json.ofText_compact_int (Int64.minValue_le_toInt i) hhigh)

/-- The document of an array is legible if the documents of its elements are. -/
theorem legible_array {items : List Value} {levels : Nat}
    (hlevels : (Json.array (toJsonAll items)).nesting ≤ levels)
    (h : ∀ item ∈ items, ∀ levels, item.toJson.nesting ≤ levels → item.toJson.Legible levels) :
    (Json.array (toJsonAll items)).Legible levels := by
  rw [Json.nesting] at hlevels
  obtain ⟨levels, rfl⟩ := Nat.exists_eq_add_of_le' (Nat.le_trans (Nat.succ_pos _) hlevels)
  refine .array fun document hdocument => ?_
  have hle := Json.nesting_le_nestingAll hdocument
  rw [toJsonAll_eq_map] at hdocument
  obtain ⟨item, hitem, rfl⟩ := List.mem_map.mp hdocument
  exact h item hitem levels (by omega)

/-- The document of an object is legible if the documents of its members are. -/
theorem legible_object {members : List (String × Json)} {levels : Nat}
    (hlevels : (Json.object (Keyed.ofList members)).nesting ≤ levels)
    (h : ∀ member ∈ members, ∀ levels, member.2.nesting ≤ levels → member.2.Legible levels) :
    (Json.object (Keyed.ofList members)).Legible levels := by
  rw [Json.nesting] at hlevels
  obtain ⟨levels, rfl⟩ := Nat.exists_eq_add_of_le' (Nat.le_trans (Nat.succ_pos _) hlevels)
  have hnames := Keyed.nodup_keys_ofList members
  refine .object hnames fun member hmember => ?_
  have hle := Json.nesting_le_nestingMembers hmember
  have hwritten := Keyed.mem_of_lookup_ofList (Keyed.lookup_of_mem hnames hmember)
  exact h member hwritten levels (by omega)

/-- **The document of a value is legible** if it is not too deep and its numbers are read back. -/
theorem legible_toJson {v : Value} (h : v.Everywhere Legible) {levels : Nat}
    (hlevels : v.toJson.nesting ≤ levels) : v.toJson.Legible levels := by
  induction hheight : v.height using Nat.strongRecOn generalizing v levels with
  | ind n ih =>
    subst hheight
    have hparts : ∀ part ∈ v.parts, ∀ levels, part.toJson.nesting ≤ levels →
        part.toJson.Legible levels := fun part hpart levels hle =>
      ih _ (height_lt_of_mem_parts hpart) (h.part hpart) hle rfl
    cases v with
    | int i => exact legible_int i levels
    | float x =>
      rw [toJson]
      -- a number that is not finite is written as null
      split
      · exact .number levels (h.here.2 x rfl)
      · exact .null levels
    | list items => exact legible_array hlevels hparts
    | set items => exact legible_array hlevels hparts
    | tuple items => exact legible_array hlevels hparts
    | dict entries =>
      refine legible_object hlevels fun member hmember => ?_
      rw [toJsonEntries_eq_map] at hmember
      obtain ⟨entry, hentry, rfl⟩ := List.mem_map.mp hmember
      exact hparts _ (value_mem_parts hentry)
    | object owner fields assigned =>
      refine legible_object hlevels fun member hmember => ?_
      rw [toJsonFields_eq_map] at hmember
      obtain ⟨field, hfield, rfl⟩ := List.mem_map.mp hmember
      exact hparts _ (List.mem_map_of_mem hfield)
    | none => exact .null levels
    | bool b => exact .bool levels b
    | str s => exact .string levels s
    | bytes data => exact .string levels _
    | date d => exact .string levels _
    | datetime d => exact .string levels _
    | member owner name => exact .string levels name

/-- Values whose documents are no strings of their types: neither strings and enum members, nor
bytes, which are read from any string, nor the absent value. -/
def IsTextual : Value → Prop
  | bool _ | int _ | float _ | date _ | datetime _ | list _ | set _ | dict _ | tuple _
  | object .. => True
  | none | str _ | bytes _ | member .. => False

end Value

namespace ClassTable

variable {t : ClassTable}

/-! ## Mistaken keys -/

/-- **Keys whose texts are taken for other keys**: bytes, which are written in quotes and read with
them, and the absent value if the type accepts the name that is written for it as a string. -/
def Mistakes (t : ClassTable) (type : FieldType) : Value → Prop
  | .bytes _ => True
  | .none => ∃ v, Reads t type (.string "null") v
  | _ => False

/-- The text of a document is not accepted as a string of the type of its value. -/
theorem Admits.fails_string {type : FieldType} {key : Value} (hkey : t.Admits type key)
    (htypes : ∀ other, t.Reaches type other → t.Determinate other) (htextual : key.IsTextual) :
    Fails (decode t type (.string key.toJson.compact)) := by
  -- on how the key belongs to the type; only absence leaves the type
  induction hkey with
  | any | union => exact (htypes _ (.self _)).elim
  | none | member => exact htextual.elim
  | @builtin b handle v hhandle hvalue =>
    refine fails_builtin hhandle ?_
    cases b with
    | int | float | bool => rfl
    | date =>
      cases v with
      | date d =>
        show (Date.ofText? (Json.string d.toText).compact).map Value.date = Option.none
        rw [Date.ofText?_compact_string, Option.map_none]
      | _ => cases hvalue
    | datetime =>
      cases v with
      | datetime d =>
        show (DateTime.ofText? (Json.string d.toText).compact).map Value.datetime = Option.none
        rw [DateTime.ofText?_compact_string, Option.map_none]
      | _ => cases hvalue
    | str | bytes | uuid =>
      cases v with
      | str | bytes => exact htextual.elim
      | _ => cases hvalue
  | object hclass =>
    obtain ⟨hbuiltin, henum, hfound⟩ := classFor?_eq_some hclass
    rw [decode, hbuiltin, henum, hfound]
    exact fails_mismatch _ _
  | @some inner v _ ih =>
    rw [decode]
    · exact ih (fun other hother => htypes other (.part (List.mem_singleton_self _) hother))
        htextual
    · simp
  | list | set | dict | tuple =>
    rw [decode]
    · exact fails_mismatch _ _
    all_goals simp

/-- **A key that is not mistaken is read back from its name** if it is read back from its document,
and the document from its text. -/
theorem Admits.restoresKey {type : FieldType} {key : Value} (hkey : t.Admits type key)
    (htypes : ∀ other, t.Reaches type other → t.Determinate other)
    (hclear : ¬ t.Mistakes type key) (hrestores : t.Restores type key)
    (htext : Json.ofText key.toJson.compact = .ok key.toJson) : t.RestoresKey type key := by
  obtain ⟨copy, hreads, hcopy⟩ := hrestores
  refine ⟨copy, ?_, hcopy⟩
  have hdocument : key.IsTextual → ReadsKey t type key.toJson.compact copy := fun htextual =>
    hreads.key_of_document (hkey.fails_string htypes htextual) htext
  cases key with
  | str s => exact hreads.key
  | member owner name => exact hreads.key
  | bytes data => exact absurd trivial hclear
  | none =>
    have hfails : Fails (decode t type (.string "null")) :=
      (steady_decode t type (.string "null")).resolve_left hclear
    exact hreads.key_of_document hfails htext
  | _ => exact hdocument trivial

/-- Bytes are read from every string, by whatever type they belong to. -/
theorem Admits.reads_bytes {type : FieldType} {data : List UInt8}
    (hkey : t.Admits type (.bytes data))
    (htypes : ∀ other, t.Reaches type other → t.Determinate other) (s : String) :
    Reads t type (.string s) (.bytes (Bytes.ofText s)) := by
  generalize hbytes : Value.bytes data = key at hkey
  induction hkey with
  | any | union => exact (htypes _ (.self _)).elim
  | @builtin b handle v hhandle hvalue =>
    subst hbytes
    cases b with
    | bytes => exact reads_builtin hhandle rfl
    | _ => cases hvalue
  | @some inner v _ ih =>
    have hinner := ih (fun other hother => htypes other (.part (List.mem_singleton_self _) hother))
      hbytes
    exact hinner.optional (by simp)
  | _ => cases hbytes

/-- A string is never read as the absent value. -/
theorem not_reads_none (type : FieldType)
    (htypes : ∀ other, t.Reaches type other → t.Determinate other) (s : String) :
    ¬ Reads t type (.string s) .none := by
  intro h
  cases type with
  | any | union => exact htypes _ (.self _)
  | optional inner =>
    rw [Reads, decode] at h
    · exact not_reads_none inner
        (fun other hother => htypes other (.part (List.mem_singleton_self _) hother)) s h
    · simp
  -- a string is no document for a collection
  | list | set | dict | tuple =>
    rw [Reads, decode] at h
    · exact h.not_fails (fails_mismatch _ _)
    all_goals simp
  | named handle =>
    rw [Reads, decode] at h
    cases hbuiltin : handle.builtin? with
    | some b =>
      rw [hbuiltin] at h
      dsimp only at h
      cases hscalar : scalar? b (.string s) with
      | none =>
        rw [hscalar] at h
        exact h.not_fails (fails_mismatch _ _)
      | some v =>
        rw [hscalar] at h
        obtain rfl : v = .none := Except.ok.inj (h [])
        cases b <;> simp [scalar?] at hscalar
    | none =>
      rw [hbuiltin] at h
      dsimp only at h
      cases henum : t.enumOf? handle with
      | some e =>
        rw [henum] at h
        -- an enum reads members, and a class no strings
        have hmember : e.member s = .ok .none := h []
        rw [Enumeration.member] at hmember
        split at hmember <;> cases hmember
      | none =>
        rw [henum] at h
        dsimp only at h
        cases hclass : t.classOf? handle with
        | none =>
          rw [hclass] at h
          cases h []
        | some c =>
          rw [hclass] at h
          exact h.not_fails (fails_mismatch _ _)

/-- **A key that is mistaken is not read back.** -/
theorem Admits.not_restoresKey {type : FieldType} {key : Value} (hkey : t.Admits type key)
    (htypes : ∀ other, t.Reaches type other → t.Determinate other) (hexact : key.Exact)
    (hmistakes : t.Mistakes type key) : ¬ t.RestoresKey type key := by
  rintro ⟨copy, hreads, hcopy⟩
  cases key with
  | bytes data =>
    obtain ⟨s, rfl⟩ := hexact
    have hname : (Value.bytes (Bytes.ofText s)).keyName (Value.bytes (Bytes.ofText s)).toJson
        = Json.quoted s := by
      show (Json.string (Bytes.text (Bytes.ofText s))).compact = _
      rw [Bytes.text_ofText, Json.compact]
    rw [hname] at hreads
    obtain rfl := hreads.unique (hkey.reads_bytes htypes (Json.quoted s)).key
    have hdata : Bytes.ofText (Json.quoted s) = Bytes.ofText s := by
      simpa [Value.same] using hcopy.same
    -- the quotes make the name longer than the bytes
    have hquoted : Json.quoted s = s := by
      rw [← Bytes.text_ofText (Json.quoted s), hdata, Bytes.text_ofText]
    have hlength := congrArg (·.toList.length) hquoted
    have hle := Cursor.length_le_escaped s.toList
    simp only [Json.toList_quoted, Json.nameText, List.length_cons, List.length_append] at hlength
    omega
  | none =>
    obtain ⟨v, hv⟩ := hmistakes
    obtain rfl := hreads.unique hv.key
    have hsame := hcopy.wellFormed.same_symm hcopy.source hcopy.same
    obtain rfl := Value.eq_of_same_of_isPlain rfl hsame
    exact not_reads_none type htypes _ hv
  | _ => exact hmistakes

/-- **A key survives exactly if it is not mistaken.** -/
theorem Admits.restoresKey_iff {type : FieldType} {key : Value} (hkey : t.Admits type key)
    (htypes : ∀ other, t.Reaches type other → t.Determinate other) (hexact : key.Exact)
    (hrestores : t.Restores type key) (htext : Json.ofText key.toJson.compact = .ok key.toJson) :
    t.RestoresKey type key ↔ ¬ t.Mistakes type key :=
  ⟨fun h hmistakes => hkey.not_restoresKey htypes hexact hmistakes h,
    fun h => hkey.restoresKey htypes h hrestores htext⟩

/-- Keys that are told apart by member names are not mistaken, and their documents are legible. -/
theorem IsKey.clear {type : FieldType} {key : Value} (htype : t.IsKey type)
    (hkey : t.Admits type key) : ¬ t.Mistakes type key ∧ key.toJson.Legible 127 := by
  cases hkey with
  | @builtin b handle _ hhandle hvalue =>
    have hmem : b ∈ [Builtin.str, .int, .bool, .date, .datetime, .uuid] := by
      rcases htype with hbuiltin | henum
      · rw [hhandle] at hbuiltin
        simpa using hbuiltin
      · obtain ⟨e, he⟩ := Option.isSome_iff_exists.mp henum
        rw [(enumFor?_eq_some he).1] at hhandle
        cases hhandle
    -- floating-point numbers and bytes are the builtin classes that are not told apart
    cases b with
    | float | bytes => simp at hmem
    | str | uuid | int | bool | date | datetime =>
      cases key with
      | str s => exact ⟨id, .string 127 s⟩
      | int i => exact ⟨id, Value.legible_int i 127⟩
      | bool b => exact ⟨id, .bool 127 b⟩
      | date d => exact ⟨id, .string 127 _⟩
      | datetime d => exact ⟨id, .string 127 _⟩
      | _ => cases hvalue
  | member => exact ⟨id, .string 127 _⟩
  | object hclass =>
    obtain ⟨hbuiltin, hnone, -⟩ := classFor?_eq_some hclass
    rcases htype with hmem | henum
    · rw [hbuiltin] at hmem
      simp at hmem
    · obtain ⟨e, he⟩ := Option.isSome_iff_exists.mp henum
      rw [(enumFor?_eq_some he).2] at hnone
      cases hnone
  | _ => cases htype

end ClassTable

end ObjectMapping
