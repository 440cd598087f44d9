import ObjectMapping.Proofs.Json.Soundness
import ObjectMapping.Proofs.Value.Encoding

/-! # Documents without a type

A document for which no type is known becomes a value of lists, dictionaries with strings as keys,
and scalars. Writing this value gives the document back, with the places of items and members and
with whole numbers told apart from doubles.

* `Json.Part`: the documents at every level of a document.
* **`Json.WholeNumbersFit`** — the whole numbers at every level fit in 64 bits with a sign.
* `Value.ofJson_int`, `Value.ofJson_object`: numbers that fit stay whole, and no member is lost.
* **`Value.toJson_ofJson`** — what was read without a type is written as it was.
* `Value.untyped_documents_preserved`: the same of decoding, for the documents of all texts. -/

namespace ObjectMapping

namespace Json

/-- The documents at every level of a document, itself included. -/
inductive Part : Json → Json → Prop
  | self (document : Json) : Part document document
  | item {part item : Json} {items : List Json} (hmem : item ∈ items) (hpart : Part part item) :
      Part part (.array items)
  | member {part : Json} {member : String × Json} {members : List (String × Json)}
      (hmem : member ∈ members) (hpart : Part part member.2) : Part part (.object members)

/-- **The whole numbers at every level fit in 64 bits with a sign.** -/
def WholeNumbersFit (document : Json) : Prop :=
  ∀ i : Int, (Json.number (.int i)).Part document → -2 ^ 63 ≤ i ∧ i < 2 ^ 63

/-- The whole numbers in an item fit if those in the array do. -/
theorem WholeNumbersFit.item {items : List Json} (h : (Json.array items).WholeNumbersFit)
    {item : Json} (hmem : item ∈ items) : item.WholeNumbersFit :=
  fun i hpart => h i (.item hmem hpart)

/-- The whole numbers in a member fit if those in the object do. -/
theorem WholeNumbersFit.member {members : List (String × Json)}
    (h : (Json.object members).WholeNumbersFit) {member : String × Json} (hmem : member ∈ members) :
    member.2.WholeNumbersFit :=
  fun i hpart => h i (.member hmem hpart)

end Json

namespace Value

/-- Items are read as values one by one. -/
theorem ofJsonAll_eq_map (items : List Json) : ofJsonAll items = items.map ofJson := by
  induction items with
  | nil => rw [ofJsonAll, List.map_nil]
  | cons item rest ih => rw [ofJsonAll, ih, List.map_cons]

/-- Members are read as entries one by one. -/
theorem ofJsonMembers_eq_map (members : List (String × Json)) :
    ofJsonMembers members = members.map fun member => (str member.1, ofJson member.2) := by
  induction members with
  | nil => rw [ofJsonMembers, List.map_nil]
  | cons member rest ih => rw [ofJsonMembers, ih, List.map_cons]

/-- A whole number that fits is read as an integer. -/
theorem ofJson_int {i : Int} (hlow : -2 ^ 63 ≤ i) (hhigh : i < 2 ^ 63) :
    ofJson (.number (.int i)) = int (.ofInt i) := by
  have hfits : (Number.int i).toInt64? = some (.ofInt i) := by
    rw [Number.toInt64?, if_pos]
    rw [Int64.toInt_minValue, Int64.toInt_maxValue]
    omega
  rw [ofJson, hfits]

/-- Members with different names become entries with different keys, one for each. -/
theorem ofJson_object {members : List (String × Json)} (hnames : (members.map (·.1)).Nodup) :
    ofJson (.object members) = dict (members.map fun member => (str member.1, ofJson member.2)) := by
  have hkeys : ((ofJsonMembers members).map (·.1)).Pairwise
      fun key later : Value => (later == key) = false := by
    rw [ofJsonMembers_eq_map, List.map_map, List.pairwise_map]
    refine (List.pairwise_map.mp hnames).imp ?_
    intro member later hne
    show same _ _ = false
    rw [Function.comp_apply, Function.comp_apply, same]
    exact beq_eq_false_iff_ne.mpr hne.symm
  rw [ofJson, Keyed.ofList_of_pairwise hkeys, ofJsonMembers_eq_map]

/-- Entries with strings as keys are written under these strings. -/
theorem toJson_entries {members : List (String × Json)} (hnames : (members.map (·.1)).Nodup) :
    (dict (members.map fun member => (str member.1, ofJson member.2))).toJson
      = .object (members.map fun member => (member.1, (ofJson member.2).toJson)) := by
  have hwritten : toJsonEntries (members.map fun member => (str member.1, ofJson member.2))
      = members.map fun member => (member.1, (ofJson member.2).toJson) := by
    rw [toJsonEntries_eq_map, List.map_map]
    rfl
  rw [toJson, hwritten, Keyed.ofList_eq_self]
  rw [List.map_map]
  exact hnames

/-- **What was read without a type is written as it was.** -/
theorem toJson_ofJson {document : Json} (h : document.WellFormed)
    (hfit : document.WholeNumbersFit) : (ofJson document).toJson = document := by
  induction h with
  | null => rw [ofJson, toJson]
  | bool b => rw [ofJson, toJson]
  | int i =>
    obtain ⟨hlow, hhigh⟩ := hfit i (.self _)
    rw [ofJson_int hlow hhigh, toJson, Int64.toInt_ofInt_of_le hlow hhigh]
  | @double x hfinite =>
    have hread : ofJson (.number (.double x)) = float x := by rw [ofJson, Number.toInt64?]; rfl
    rw [hread, toJson, if_pos hfinite]
  | string s => rw [ofJson, toJson]
  | @array items _ ih =>
    have hitems : (items.map ofJson).map toJson = items := by
      rw [List.map_map]
      exact (List.map_congr_left fun item hmem => ih item hmem (hfit.item hmem)).trans
        (List.map_id' items)
    rw [ofJson, ofJsonAll_eq_map, toJson, toJsonAll_eq_map, hitems]
  | @object members hnames _ ih =>
    -- the entries have the names of the members, so writing keeps all of them, in their places
    have hentries : (members.map fun member => (member.1, (ofJson member.2).toJson)) = members :=
      (List.map_congr_left fun member hmem =>
        congrArg (Prod.mk member.1) (ih member hmem (hfit.member hmem))).trans (List.map_id' members)
    rw [ofJson_object hnames, toJson_entries hnames, hentries]

/-- Every document is decoded for any type. -/
theorem decode_any (classes : ClassTable) (document : Json) :
    decode classes .any document = .ok (ofJson document) := by
  rw [decode, Decoding.decode]
  rfl

/-- **A document is written as it was read, if no type is known for it** and its whole numbers fit.
Of documents that come from a text nothing else is asked: they are well formed. -/
theorem untyped_documents_preserved (classes : ClassTable) :
    (∀ document : Json, document.WellFormed → document.WholeNumbersFit →
      ∃ v, decode classes .any document = .ok v ∧ v.toJson = document) ∧
    ∀ (text : String) (document : Json), Json.ofText text = .ok document → document.WellFormed := by
  constructor
  · intro document h hfit
    exact ⟨ofJson document, decode_any classes document, toJson_ofJson h hfit⟩
  · intro text document hread
    exact Json.wellFormed_of_ofText hread

/-- A document with two members is encoded as it was, with its members in their order. -/
theorem untyped_sample_preserved :
    ∃ v, decode .empty .any (.object [("b", .array [.number (.int 2), .null]), ("a", .bool true)])
        = .ok v ∧
      v.toJson = .object [("b", .array [.number (.int 2), .null]), ("a", .bool true)] := by
  refine (untyped_documents_preserved .empty).1 _ (.object (by decide) ?_) ?_
  · intro member hmem
    obtain rfl | rfl : member = ("b", .array [.number (.int 2), .null]) ∨ member = ("a", .bool true) :=
      by simpa using hmem
    · refine .array fun item hitem => ?_
      obtain rfl | rfl : item = .number (.int 2) ∨ item = .null := by simpa using hitem
      · exact .int 2
      · exact .null
    · exact .bool true
  · intro i hpart
    cases hpart with
    | member hmem hpart =>
      simp only [List.mem_cons, List.not_mem_nil, or_false] at hmem
      rcases hmem with rfl | rfl
      · cases hpart with
        | item hitem hpart =>
          simp only [List.mem_cons, List.not_mem_nil, or_false] at hitem
          rcases hitem with rfl | rfl
          · cases hpart
            decide
          · cases hpart
      · cases hpart

end Value

end ObjectMapping
