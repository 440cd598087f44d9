import ObjectMapping.Proofs.Bytes
import ObjectMapping.Proofs.Calendar
import ObjectMapping.Proofs.Json.Scalar
import ObjectMapping.Proofs.Value.Decoding
import ObjectMapping.Proofs.Value.Conformance
import ObjectMapping.Proofs.Value.Parts

/-! # Documents of values without parts

A value of a builtin class is read back from its document, unless it has no number or text of its
own: NaNs and infinities are written like the absent value, bytes that are no text with replacement
characters.

* **`Value.Exact`** — values whose document says which one they are.
* **`Decoding.scalar?_toJson`** — exact values of builtin classes are read back.
* `Value.toJson_eq_null_iff`: only the absent value is written like an absent one. -/

namespace ObjectMapping

namespace Value

/-! ## Documents of parts -/

/-- Values are encoded one by one. -/
theorem toJsonAll_eq_map (items : List Value) : toJsonAll items = items.map toJson := by
  induction items with
  | nil => rw [toJsonAll, List.map_nil]
  | cons item rest ih => rw [toJsonAll, ih, List.map_cons]

/-- Entries are encoded one by one, under the names of their keys. -/
theorem toJsonEntries_eq_map (entries : List (Value × Value)) :
    toJsonEntries entries
      = entries.map fun entry => (keyName entry.1 entry.1.toJson, entry.2.toJson) := by
  induction entries with
  | nil => rw [toJsonEntries, List.map_nil]
  | cons entry rest ih => rw [toJsonEntries, ih, List.map_cons]

/-- Fields are encoded one by one, under their names. -/
theorem toJsonFields_eq_map (fields : List (String × Value)) :
    toJsonFields fields = fields.map fun field => (field.1, field.2.toJson) := by
  induction fields with
  | nil => rw [toJsonFields, List.map_nil]
  | cons field rest ih => rw [toJsonFields, ih, List.map_cons]

/-! ## Values without parts -/

/-- **Values whose document says which one they are**, apart from their parts: finite numbers, and
bytes that are the bytes of a text. -/
def Exact : Value → Prop
  | float x => x.isFinite = true
  | bytes data => ∃ s, data = Bytes.ofText s
  | none | bool _ | int _ | str _ | date _ | datetime _ | list _ | set _ | dict _ | tuple _
  | member .. | object .. => True

/-- Only the absent value is encoded as null, among values that their documents tell apart. -/
theorem toJson_eq_null_iff {v : Value} (h : v.Exact) : v.toJson = .null ↔ v = none := by
  cases v with
  | float x => simp [toJson, show x.isFinite = true from h]
  | _ => simp [toJson]

end Value

namespace Decoding

/-- A whole number of 64 bits is one in the document as well. -/
theorem toInt64?_toInt (i : Int64) : (Number.int i.toInt).toInt64? = some i := by
  rw [Number.toInt64?, if_pos ⟨Int64.minValue_le_toInt i, Int64.toInt_le i⟩, Int64.ofInt_toInt]

/-- **An exact value of a builtin class is read back.** -/
theorem scalar?_toJson {b : Builtin} {v : Value} (hvalue : b.holds v = true) (h : v.Exact) :
    scalar? b v.toJson = some v := by
  cases b with
  | int =>
    cases v with
    | int i => rw [Value.toJson, scalar?, toInt64?_toInt, Option.map_some]
    | _ => cases hvalue
  | float =>
    cases v with
    | float x =>
      rw [Value.toJson, if_pos (show x.isFinite = true from h)]
      rfl
    | _ => cases hvalue
  | bytes =>
    cases v with
    | bytes data =>
      obtain ⟨s, rfl⟩ := h
      rw [Value.toJson, scalar?, Bytes.text_ofText]
    | _ => cases hvalue
  | date =>
    cases v with
    | date d => rw [Value.toJson, scalar?, Date.ofText?_toText, Option.map_some]
    | _ => cases hvalue
  | datetime =>
    cases v with
    | datetime t => rw [Value.toJson, scalar?, DateTime.ofText?_toText, Option.map_some]
    | _ => cases hvalue
  | str | bool | uuid =>
    cases v with
    | str s => first | rfl | cases hvalue
    | bool b => first | rfl | cases hvalue
    | _ => cases hvalue

end Decoding

/-! ## Strings in quotes -/

/-- A string in quotes is no date. -/
theorem Date.ofText?_compact_string (s : String) : ofText? (Json.string s).compact = none := by
  rw [ofText?, Json.toList_compact_string,
    Calendar.readDate_cons_eq_none (by decide) (by decide) (by decide) (by decide)]

/-- A string in quotes is no date-time. -/
theorem DateTime.ofText?_compact_string (s : String) : ofText? (Json.string s).compact = none := by
  rw [ofText?, Json.toList_compact_string, Calendar.readJoined, Calendar.readSpaced,
    Calendar.readDate_cons_eq_none (by decide) (by decide) (by decide) (by decide)]
  rfl

end ObjectMapping
