import Mathlib.Tactic.Choose
import ObjectMapping.Proofs.Class.Bypass
import ObjectMapping.Proofs.Value.Members

/-! # What is read conforms to its type

A value that is read for a type is a value of that type at every level: of the class that the type
stands for, with the positions of a tuple and the elements of other collections read for their own
types. A union does not say which of its types a value has, so the relation is between types, values
and the documents that they are read from: it is the first member of the union that accepts the
document.

The classes of a table may lead to each other, so the induction is on the document.

* **`ClassTable.Conforms`** — the values of a type, with the documents that they come from.
* **`ClassTable.decode_conforms`** — what is read conforms, if no two fields of a class go by the
  same name. -/

namespace ObjectMapping

open Decoding

/-- The document that the name of a member stands for as a key: a string, or what it is the text of
if the type does not accept the string. -/
def Decoding.StandsFor (t : ClassTable) (key : FieldType) (name : String) (document : Json) : Prop :=
  document = .string name ∨
    Fails (decode t key (.string name)) ∧ Json.ofText name = .ok document

/-- A scalar is a value of its class. -/
theorem Builtin.holds_scalar? {b : Builtin} {document : Json} {v : Value}
    (h : scalar? b document = some v) : b.holds v = true := by
  unfold scalar? at h
  split at h
  all_goals first
    | (obtain ⟨_, -, rfl⟩ := Option.map_eq_some_iff.mp h; rfl)
    | (cases h <;> rfl)

namespace ClassTable

/-- **The values of a type, and the documents they come from.** An object of a class has exactly the
fields of the class; those that are assigned come from members that the class accepts for them, with
values of their types. The parts of a value each come from a part of the document; where parts may
have been dropped, a function says from which one. -/
inductive Conforms (t : ClassTable) : FieldType → Json → Value → Prop
  | any (document : Json) : Conforms t .any document (.ofJson document)
  | builtin {b : Builtin} {handle : ClassHandle} {document : Json} {v : Value}
      (hhandle : handle.builtin? = some b) (hvalue : b.holds v = true) :
      Conforms t (.named handle) document v
  | member {e : Enumeration} {handle : ClassHandle} {name : String}
      (henum : t.enumFor? handle = some e) (hname : name ∈ e.members) :
      Conforms t (.named handle) (.string name) (.member e.handle name)
  | object {c : Class} {handle : ClassHandle} {members : List (String × Json)}
      {fields : List (String × Value)} {assigned : List String} {source : Slot → Json}
      (hclass : t.classFor? handle = some c) (hnames : fields.map (·.1) = c.slots.map (·.name))
      (hsource : ∀ slot ∈ c.slots, slot.name ∈ assigned →
        ∃ key, c.Accepts .validating slot key ∧ (key, source slot) ∈ members)
      (hfields : ∀ slot ∈ c.slots, slot.name ∈ assigned →
        ∀ v, (slot.name, v) ∈ fields → Conforms t slot.type (source slot) v) :
      Conforms t (.named handle) (.object members) (.object c.handle fields assigned)
  | none (inner : FieldType) : Conforms t (.optional inner) .null .none
  | some {inner : FieldType} {document : Json} {v : Value} (hinner : Conforms t inner document v) :
      Conforms t (.optional inner) document v
  | union {before after : List FieldType} {member : FieldType} {document : Json} {v : Value}
      (hbefore : ∀ other ∈ before, Fails (decode t other document))
      (haccepts : Reads t member document v) (hvalue : Conforms t member document v) :
      Conforms t (.union (before ++ member :: after)) document v
  | list {item : FieldType} {items : List Json} {values : List Value}
      (hlength : items.length = values.length)
      (hitems : ∀ pair ∈ items.zip values, Conforms t item pair.1 pair.2) :
      Conforms t (.list item) (.array items) (.list values)
  | set {item : FieldType} {items : List Json} {elements : List Value} {source : Value → Json}
      (hsource : ∀ v ∈ elements, source v ∈ items)
      (hitems : ∀ v ∈ elements, Conforms t item (source v) v) :
      Conforms t (.set item) (.array items) (.set elements)
  | tuple {types : List FieldType} {items : List Json} {values : List Value}
      (hlength : types.length = items.length) (hlength' : items.length = values.length)
      (hitems : ∀ entry ∈ (types.zip items).zip values, Conforms t entry.1.1 entry.1.2 entry.2) :
      Conforms t (.tuple types) (.array items) (.tuple values)
  | dict {key value : FieldType} {members : List (String × Json)} {entries : List (Value × Value)}
      {written source : Value × Value → Json}
      (hwritten : ∀ entry ∈ entries, ∃ member ∈ members, StandsFor t key member.1 (written entry))
      (hkeys : ∀ entry ∈ entries, Conforms t key (written entry) entry.1)
      (hsource : ∀ entry ∈ entries, source entry ∈ members.map (·.2))
      (hvalues : ∀ entry ∈ entries, Conforms t value (source entry) entry.2) :
      Conforms t (.dict key value) (.object members) (.dict entries)

variable {t : ClassTable} {type key value : FieldType} {v : Value}

/-! ## Collections

What is read for the parts of a document conforms to their types by induction; here the parts are
put together. -/

/-- What is read from the document for the type conforms to the type. -/
def Sound (t : ClassTable) (type : FieldType) (document : Json) : Prop :=
  ∀ v, Reads t type document v → t.Conforms type document v

/-- A list that is read conforms if what is read for its items does. -/
theorem conforms_list {items : List Json} {values : List Value}
    (hreads : List.Forall₂ (Reads t type) items values)
    (hsound : ∀ item ∈ items, t.Sound type item) :
    t.Conforms (.list type) (.array items) (.list values) := by
  refine .list hreads.length_eq fun pair hpair => ?_
  exact hsound _ (List.of_mem_zip hpair).1 _ (List.forall₂_zip hreads hpair)

/-- A set that is read conforms if what is read for its items does. -/
theorem conforms_set {items : List Json} {values : List Value}
    (hreads : List.Forall₂ (Reads t type) items values)
    (hsound : ∀ item ∈ items, t.Sound type item) :
    t.Conforms (.set type) (.array items) (.set (Keyed.distinct values)) := by
  have helements : ∀ v ∈ Keyed.distinct values, ∃ item, item ∈ items ∧ t.Conforms type item v := by
    intro v hv
    obtain ⟨item, hitem, hread⟩ := Outcome.exists_of_forall₂ hreads.flip (Keyed.mem_of_mem_distinct hv)
    exact ⟨item, hitem, hsound item hitem v hread⟩
  -- equal elements are kept once, so a source is chosen among those that they are read from
  choose! source hsource hconforms using helements
  exact .set hsource hconforms

/-- A tuple that is read conforms if what is read for its items does. -/
theorem conforms_tuple {types : List FieldType} {items : List Json} {values : List Value}
    (hlength : types.length = items.length)
    (hreads : List.Forall₂ (fun (entry : FieldType × Json) v => Reads t entry.1 entry.2 v)
      (types.zip items) values)
    (hsound : ∀ item ∈ items, ∀ type, t.Sound type item) :
    t.Conforms (.tuple types) (.array items) (.tuple values) := by
  have hlength' : items.length = values.length := by
    have hzip := hreads.length_eq
    rw [List.length_zip] at hzip
    omega
  refine .tuple hlength hlength' fun entry hentry => ?_
  have hitem : entry.1.2 ∈ items := (List.of_mem_zip (List.of_mem_zip hentry).1).2
  exact hsound _ hitem _ _ (List.forall₂_zip hreads hentry)

/-- A key that is read is read from the document that its name stands for. -/
theorem exists_standsFor {name : String} (h : ReadsKey t key name v) :
    ∃ document, StandsFor t key name document ∧ Reads t key document v := by
  rcases h.inv with hstring | ⟨hfails, document, htext, hdocument⟩
  · exact ⟨_, .inl rfl, hstring⟩
  · exact ⟨document, .inr ⟨hfails, htext⟩, hdocument⟩

/-- An entry that is kept has the key of one member and the value of the last one with this key. -/
theorem conforms_dict {members : List (String × Json)} {entries : List (Value × Value)}
    (hreads : List.Forall₂ (fun (member : String × Json) (entry : Value × Value) =>
      ReadsKey t key member.1 entry.1 ∧ Reads t value member.2 entry.2) members entries)
    (hkeys : ∀ member ∈ members, ∀ document, StandsFor t key member.1 document →
      t.Sound key document)
    (hvalues : ∀ member ∈ members, t.Sound value member.2) :
    t.Conforms (.dict key value) (.object members) (.dict (Keyed.ofList entries)) := by
  have hwritten : ∀ entry ∈ Keyed.ofList entries, ∃ document,
      (∃ member ∈ members, StandsFor t key member.1 document) ∧ t.Conforms key document entry.1 := by
    intro entry hentry
    obtain ⟨other, hother, heq⟩ := List.mem_map.mp (Keyed.mem_of_mem_ofList hentry).1
    obtain ⟨member, hmember, hkey, -⟩ := Outcome.exists_of_forall₂ hreads.flip hother
    obtain ⟨document, hstands, hread⟩ := exists_standsFor hkey
    exact ⟨document, ⟨member, hmember, hstands⟩,
      heq ▸ hkeys member hmember document hstands _ hread⟩
  have hsource : ∀ entry ∈ Keyed.ofList entries, ∃ document,
      document ∈ members.map (·.2) ∧ t.Conforms value document entry.2 := by
    intro entry hentry
    obtain ⟨other, hother, heq⟩ := List.mem_map.mp (Keyed.mem_of_mem_ofList hentry).2
    obtain ⟨member, hmember, -, hread⟩ := Outcome.exists_of_forall₂ hreads.flip hother
    exact ⟨member.2, List.mem_map_of_mem hmember, heq ▸ hvalues member hmember _ hread⟩
  choose! written hwritten hconforms using hwritten
  choose! source hsource hconforms' using hsource
  exact .dict hwritten hconforms hsource hconforms'

/-! ## Objects -/

/-- If no two fields go by the same name, the member that is taken for a field is read for it. -/
theorem exists_member_read {c : Class} (hdisjoint : c.ParamsDisjoint)
    {members : List (String × Json)} {args : Arguments} (hargs : ReadsMembers t c members args)
    {object : Value} (hobject : c.construct .validating args = .ok object) {slot : Slot}
    (hslot : slot ∈ c.slots) (hassigned : object.isAssigned slot.name = .ok true) :
    ∃ key item v, c.Accepts .validating slot key ∧ (key, item) ∈ members ∧
      object.field slot.name = .ok v ∧ Reads t slot.type item v := by
  obtain ⟨key, v, hconsumes, harg, hfield⟩ :=
    Class.exists_consumes hdisjoint.nodup_names hobject hslot hassigned
  obtain ⟨item, hitem, hvalue⟩ := hargs.exists_member harg
  refine ⟨key, item, v, hconsumes.accepts, hitem, hfield, hvalue slot ?_⟩
  obtain ⟨before, after, hslots⟩ := List.append_of_mem hslot
  rcases exists_slotFor? hslots hconsumes.accepts with hfound | ⟨other, hother, hfound⟩
  · exact hfound
  · have hpairwise := hdisjoint .validating
    rw [hslots, List.pairwise_append] at hpairwise
    exact absurd hconsumes.accepts.2
      (hpairwise.2.2 other hother slot List.mem_cons_self (accepts_of_slotFor? hfound).2)

/-- An object that is read conforms if what is read for its members does. -/
theorem conforms_object {handle : ClassHandle} {c : Class} (hclass : t.classFor? handle = some c)
    (hdisjoint : c.ParamsDisjoint) {members : List (String × Json)} {args : Arguments}
    (hargs : ReadsMembers t c members args) (hobject : c.construct .validating args = .ok v)
    (hsound : ∀ member ∈ members, ∀ type, t.Sound type member.2) :
    t.Conforms (.named handle) (.object members) v := by
  have hmeets := c.construct_meets hdisjoint.nodup_names .validating args
  rw [hobject] at hmeets
  obtain ⟨hnames, howner⟩ := hmeets
  obtain ⟨fields, assigned, rfl⟩ : ∃ fields assigned, v = .object c.handle fields assigned := by
    cases v with
    | object owner fields assigned =>
      obtain rfl : owner = c.handle := Option.some.inj howner
      exact ⟨fields, assigned, rfl⟩
    | _ => cases howner
  -- a field that is assigned has a member that was read for it
  have hfields : ∀ slot ∈ c.slots, slot.name ∈ assigned → ∃ document,
      (∃ key, c.Accepts .validating slot key ∧ (key, document) ∈ members) ∧
        ∀ v, (slot.name, v) ∈ fields → t.Conforms slot.type document v := by
    intro slot hslot hassigned
    obtain ⟨key, item, w, haccepts, hitem, hfield, hread⟩ := exists_member_read hdisjoint hargs hobject
      hslot (congrArg Except.ok (List.contains_iff_mem.mpr hassigned))
    refine ⟨item, ⟨key, haccepts, hitem⟩, fun v hv => ?_⟩
    have hnodup : (fields.map (·.1)).Nodup := by
      rw [show fields.map (·.1) = c.slots.map (·.name) from hnames]
      exact hdisjoint.nodup_names
    rw [Value.field_object, Keyed.lookup_of_mem hnodup hv] at hfield
    obtain rfl := Except.ok.inj hfield
    exact hsound _ hitem _ _ hread
  choose! source hsource hconforms using hfields
  exact .object hclass hnames hsource hconforms

/-! ## All types -/

/-- **What is read from a document for a type conforms to the type**, if the accepted names of the
fields of each class have nothing in common. -/
theorem decode_conforms (hdisjoint : ∀ handle c, t.classFor? handle = some c → c.ParamsDisjoint)
    {document : Json} (h : Value.decode t type document = .ok v) : t.Conforms type document v := by
  suffices hsound : t.Sound type document from hsound v (reads_of_decode_eq h)
  clear h
  -- the document gets smaller, or else it stays and the type gets smaller (`readingInduction`)
  induction type, document using readingInduction with
  | step type document ihdocument ihtype =>
    intro v h
    cases type with
    | any =>
      obtain rfl := h.any_inv
      exact .any document
    | optional inner =>
      rcases h.optional_inv with ⟨rfl, rfl⟩ | hinner
      · exact .none inner
      · exact .some (ihtype inner (by simp) v hinner)
    | union members =>
      obtain ⟨before, member, after, rfl, hbefore, hmember⟩ := h.union_inv
      refine .union hbefore hmember (ihtype member ?_ v hmember)
      have hlt := List.sizeOf_lt_of_mem
        (show member ∈ before ++ member :: after from List.mem_append_right _ List.mem_cons_self)
      simp only [FieldType.union.sizeOf_spec]
      omega
    | list item =>
      obtain ⟨items, values, rfl, rfl, hreads⟩ := h.list_inv
      exact conforms_list hreads fun part hpart => ihdocument _ part (Json.weight_item_lt hpart)
    | set item =>
      obtain ⟨items, values, rfl, rfl, hreads⟩ := h.set_inv
      exact conforms_set hreads fun part hpart => ihdocument _ part (Json.weight_item_lt hpart)
    | tuple types =>
      obtain ⟨items, values, rfl, rfl, hlength, hreads⟩ := h.tuple_inv
      exact conforms_tuple hlength hreads
        fun part hpart type => ihdocument type part (Json.weight_item_lt hpart)
    | dict key value =>
      obtain ⟨members, entries, rfl, rfl, hreads⟩ := h.dict_inv
      refine conforms_dict hreads (fun member hmember document hstands => ihdocument _ _ ?_)
        fun member hmember => ihdocument _ _ (Json.weight_value_lt hmember)
      -- what the name of a member is the text of is a smaller document, too
      rcases hstands with rfl | ⟨-, htext⟩
      · exact Json.weight_name_lt hmember
      · exact Json.weight_parsed_lt hmember htext
    | named handle =>
      rcases h.named_inv with ⟨b, hbuiltin, hvalue⟩ | ⟨e, name, henum, rfl, hname, rfl⟩ |
        ⟨c, members, args, hclass, rfl, hargs, hobject⟩
      · exact .builtin hbuiltin (Builtin.holds_scalar? hvalue)
      · exact .member henum hname
      · exact conforms_object hclass (hdisjoint _ _ hclass) hargs hobject
          fun member hmember type => ihdocument type _ (Json.weight_value_lt hmember)

end ClassTable

/-! ## Notices -/

namespace Sample

/-- A notice, which may be followed by another one. -/
def notice : ClassHandle := ⟨9, "Notice"⟩

/-- The body of a notice is a number or some words. -/
def noticeBody : FieldType := .union [.builtin .int, .list (.builtin .str)]

/-- A notice has a title, which goes by another name too, and may have a notice after it. -/
def noticeClass : Class where
  handle := notice
  slots := [
    ⟨"title", .builtin .str, none, some "heading", true, true⟩,
    ⟨"body", noticeBody, none, none, true, true⟩,
    ⟨"after", .optional (.named notice), some .none, none, true, false⟩]
  body := .model true []

/-- The table of notices. -/
def notices : ClassTable := ⟨[(notice.id, noticeClass)], []⟩

/-- Two notices as a document. -/
def noticeDocument : Json := .object [
  ("body", .array [.string "pens"]), ("heading", .string "blue"),
  ("after", .object [("title", .string "red"), ("body", .number (.int 3))])]

/-- The notice that is read from the inner document. -/
def secondNotice : Value :=
  .object notice [("title", .str "red"), ("body", .int 3), ("after", .none)] ["body", "title"]

/-- The notice that is read from the whole document. -/
def firstNotice : Value :=
  .object notice [("title", .str "blue"), ("body", .list [.str "pens"]), ("after", secondNotice)]
    ["after", "body", "title"]

/-- A number is read as the first member of the union, words as the second one. -/
theorem reads_noticeBody_int : Reads notices noticeBody (.number (.int 3)) (.int 3) := by
  show Reads notices (.union ([] ++ .builtin .int :: [.list (.builtin .str)])) _ _
  exact reads_union (List.forall_mem_nil _) (reads_builtin rfl rfl)

/-- The body of a notice is read as a list of words. -/
theorem reads_noticeBody_words :
    Reads notices noticeBody (.array [.string "pens"]) (.list [.str "pens"]) := by
  show Reads notices (.union ([.builtin .int] ++ .list (.builtin .str) :: [])) _ _
  exact reads_union (List.forall_mem_singleton.mpr (fails_builtin rfl rfl))
    (reads_list (.cons (reads_builtin rfl rfl) .nil))

/-- The second sample notice is read from its document. -/
theorem reads_secondNotice : Reads notices (.named notice)
    (.object [("title", .string "red"), ("body", .number (.int 3))]) secondNotice := by
  have hargs : List.Forall₂ (ReadsArgument notices noticeClass)
      [("title", .string "red"), ("body", .number (.int 3))]
      [("title", .str "red"), ("body", .int 3)] :=
    .cons ⟨rfl, _, rfl, reads_builtin rfl rfl⟩ (.cons ⟨rfl, _, rfl, reads_noticeBody_int⟩ .nil)
  exact reads_object rfl rfl rfl hargs rfl

/-- The first sample notice is read from its document. -/
theorem reads_firstNotice : Reads notices (.named notice) noticeDocument firstNotice := by
  have hargs : List.Forall₂ (ReadsArgument notices noticeClass)
      [("body", .array [.string "pens"]), ("heading", .string "blue"),
        ("after", .object [("title", .string "red"), ("body", .number (.int 3))])]
      [("body", .list [.str "pens"]), ("heading", .str "blue"), ("after", secondNotice)] :=
    .cons ⟨rfl, _, rfl, reads_noticeBody_words⟩ (.cons ⟨rfl, _, rfl, reads_builtin rfl rfl⟩
      (.cons ⟨rfl, _, rfl, reads_secondNotice.optional (by simp)⟩ .nil))
  exact reads_object rfl rfl rfl hargs rfl

/-- No two fields of a notice take the same argument. -/
theorem paramsDisjoint_noticeClass : noticeClass.ParamsDisjoint := by
  intro strategy
  cases strategy <;> simp [noticeClass, Class.params, List.Disjoint]

end Sample

open Sample

/-- A notice conforms, and so does the notice after it, with the first member of the union that fits. -/
theorem decode_conforms_notice :
    Value.decode notices (.named notice) noticeDocument = .ok firstNotice ∧
      notices.Conforms (.named notice) noticeDocument firstNotice :=
  ⟨reads_firstNotice.decode_eq, ClassTable.decode_conforms
    (fun _ _ hclass => ClassTable.eq_of_classFor?_singleton hclass ▸ paramsDisjoint_noticeClass)
    reads_firstNotice.decode_eq⟩

end ObjectMapping
