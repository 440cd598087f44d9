import ObjectMapping.Proofs.FieldType.Rearrangement
import ObjectMapping.Proofs.FieldType.Rendering

/-! # Types are read back from their text

The text of a type is read as the tree in which the type is written, and then the tree is classified.
Where names lead back to their classes this gives an equal type: the arms of the tree have the types
of the members of a union, and as these are pairwise different none of them is dropped.

* `FieldType.ReadsArms`: the arms of a type are read back, with one lemma for each shape.
* `FieldType.exists_ofMembers`: what the arms make together.
* **`FieldType.readsBack_tree`** — every type in normal form is read back from its tree.
* **`FieldType.parse_text`** — every type in normal form is read back from its text. -/

namespace ObjectMapping

open Outcome

namespace FieldType

variable {ns : Namespace} {inner item key value type : FieldType} {items members : List FieldType}

/-! ## What the trees are classified as -/

/-- What is not reserved is neither `None` nor `Any` nor a kind of collection. -/
theorem class_of_not_reserved {name : String} (h : name ∉ reserved) :
    isNone name = false ∧ (name == "Any") = false ∧ collection? name = none := by
  simp only [reserved, List.mem_cons, List.not_mem_nil, or_false, not_or] at h
  simp [isNone, collection?, h]

/-- The types that the arms of a type have. -/
def alternatives : FieldType → List FieldType
  | union members => members
  | other => [other]

/-- A type that is neither a union nor optional has one arm, itself. -/
theorem alternatives_of_single (h : type.isSingle = true) : type.alternatives = [type] := by
  cases type with
  | union members => cases h
  | _ => rfl

/-- **A type is read back from its tree**: the tree is classified as an equal type. -/
def ReadsBack (ns : Namespace) (type : FieldType) : Prop :=
  ∃ found, ofTree ns type.tree = .ok found ∧ found.same type = true

/-- The arms of a type are read back from its tree, and there is no `None` among them. -/
def ReadsArms (ns : Namespace) (type : FieldType) : Prop :=
  ∃ founds, arms ns type.tree = .ok founds ∧ addsNone type.tree = false ∧
    List.Forall₂ (fun found arm => found.same arm = true) founds type.alternatives

/-- The arms of a class are read back if its name leads back to it. -/
theorem readsArms_named {handle : ClassHandle} (h : ns.Legible handle) :
    ReadsArms ns (.named handle) := by
  obtain ⟨hnone, hany, hcollection⟩ := class_of_not_reserved h.free
  obtain ⟨found, hfound, hsame⟩ := h.resolves
  have hname : ofName ns handle.name = .ok (.named found) := by
    rw [ofName, hany, hcollection, hfound]
    rfl
  refine ⟨[.named found], ?_, ?_, .cons hsame .nil⟩
  · rw [tree, arms, hnone, hname]
    rfl
  · rw [tree, addsNone, hnone]

/-- The arms of any type are read back. -/
theorem readsArms_any : ReadsArms ns .any := by
  refine ⟨[.any], ?_, ?_, .cons rfl .nil⟩
  · rw [tree, arms]
    rfl
  · rw [tree, addsNone]
    rfl

/-- The types of a list are read back one by one. -/
theorem exists_ofTrees (h : ∀ item ∈ items, ReadsBack ns item) :
    ∃ founds, ofTrees ns (trees items) = .ok founds ∧
      List.Forall₂ (fun found item => found.same item = true) founds items := by
  rw [ofTrees_eq_mapM, trees_eq_map]
  induction items with
  | nil => exact ⟨[], rfl, .nil⟩
  | cons item rest ih =>
    obtain ⟨found, hfound, hsame⟩ := h item List.mem_cons_self
    obtain ⟨founds, hfounds, hall⟩ := ih fun other hmem => h other (List.mem_cons_of_mem _ hmem)
    refine ⟨found :: founds, ?_, .cons hsame hall⟩
    rw [List.map_cons, List.mapM_cons, hfound, ok_bind, hfounds]
    rfl

/-- Names that are written with arguments and are not those of unions write one arm. -/
theorem arms_generic {head : String} {args : List TypeTree} (hunion : head ≠ "Union")
    (hoptional : head ≠ "Optional") : arms ns (.generic head args)
      = (ofCollection head args (ofTrees ns args)).map ([·]) := by
  unfold arms
  rw [if_neg (by simp [hunion]), if_neg (by simp [hoptional])]

/-- Only a union or an optional type adds the absence of a value. -/
theorem addsNone_generic {head : String} {args : List TypeTree} (hunion : head ≠ "Union")
    (hoptional : head ≠ "Optional") : addsNone (.generic head args) = false := by
  simp [addsNone, hunion, hoptional]

/-- A collection is the only arm of its tree. -/
theorem readsArms_of_collection {head : String} {args : List TypeTree} (found : FieldType)
    (hsingle : type.isSingle = true) (htree : type.tree = .generic head args) (hunion : head ≠ "Union")
    (hoptional : head ≠ "Optional") (hfound : ofCollection head args (ofTrees ns args) = .ok found)
    (hsame : found.same type = true) : ReadsArms ns type := by
  refine ⟨[found], ?_, ?_, ?_⟩
  · rw [htree, arms_generic hunion hoptional, hfound]
    rfl
  · rw [htree, addsNone_generic hunion hoptional]
  · rw [alternatives_of_single hsingle]
    exact .cons hsame .nil

/-- The arms of a list type are read back if the type of its items is. -/
theorem readsArms_list (h : ReadsBack ns item) : ReadsArms ns (.list item) := by
  obtain ⟨found, hfound, hsame⟩ := h
  refine readsArms_of_collection (.list found) rfl (by rw [tree]) (by decide) (by decide) ?_ hsame
  rw [ofCollection_of_arity (show collection? "List" = some .list from rfl) rfl, ofTrees_eq_mapM,
    List.mapM_cons, hfound]
  rfl

/-- The arms of a set type are read back if the type of its items is. -/
theorem readsArms_set (h : ReadsBack ns item) : ReadsArms ns (.set item) := by
  obtain ⟨found, hfound, hsame⟩ := h
  refine readsArms_of_collection (.set found) rfl (by rw [tree]) (by decide) (by decide) ?_ hsame
  rw [ofCollection_of_arity (show collection? "Set" = some .set from rfl) rfl, ofTrees_eq_mapM,
    List.mapM_cons, hfound]
  rfl

/-- The arms of a dictionary type are read back if the types of its keys and values are. -/
theorem readsArms_dict (hkey : ReadsBack ns key) (hvalue : ReadsBack ns value) :
    ReadsArms ns (.dict key value) := by
  obtain ⟨foundKey, hfoundKey, hsameKey⟩ := hkey
  obtain ⟨foundValue, hfoundValue, hsameValue⟩ := hvalue
  refine readsArms_of_collection (.dict foundKey foundValue) rfl (by rw [tree]) (by decide)
    (by decide) ?_ (by rw [same_dict, hsameKey, hsameValue]; rfl)
  rw [ofCollection_of_arity (show collection? "Dict" = some .dict from rfl) rfl, ofTrees_eq_mapM,
    List.mapM_cons, hfoundKey, ok_bind, List.mapM_cons, hfoundValue]
  rfl

/-- A tuple is read back if its items are. The empty one has a spelling of its own. -/
theorem readsArms_tuple (hlegible : ∀ item ∈ items, item.Legible ns)
    (h : ∀ item ∈ items, ReadsBack ns item) : ReadsArms ns (.tuple items) := by
  cases items with
  | nil =>
    refine readsArms_of_collection (.tuple []) rfl (by rw [tree]) (by decide) (by decide) ?_ rfl
    rw [ofCollection_tuple rfl]
    rfl
  | cons item rest =>
    obtain ⟨founds, hfounds, hall⟩ := exists_ofTrees h
    have htree : (tuple (item :: rest)).tree = .generic "Tuple" (trees (item :: rest)) := by
      simp [tree]
    -- no item is written as an ellipsis or as the empty pair of parentheses
    have hellipsis : (trees (item :: rest)).any (fun arg => arg.head == "...") = false := by
      rw [trees_eq_map, List.any_map, List.any_eq_false]
      intro other hmem hhead
      have hname := isIdentifier_head_tree (hlegible other hmem)
      rw [show other.tree.head = "..." from beq_iff_eq.mp hhead] at hname
      revert hname
      decide
    have hunit : isUnit (trees (item :: rest)) = false := by
      rw [Bool.eq_false_iff, ne_eq, isUnit_iff]
      rintro ⟨arg, hargs, hhead⟩
      have hname := isIdentifier_head_tree (hlegible item List.mem_cons_self)
      rw [show item.tree = arg from (List.cons.inj hargs).1, hhead] at hname
      revert hname
      decide
    refine readsArms_of_collection (.tuple founds) rfl htree (by decide) (by decide) ?_ ?_
    · rw [ofCollection_tuple rfl, hellipsis, hunit, hfounds]
      rfl
    · rw [same_tuple, sameAll_iff]
      exact hall

/-! ## Unions -/

/-- The trees of members write one arm each, and no `None`. -/
theorem readsArms_union (hsingle : ∀ member ∈ members, member.isSingle = true)
    (h : ∀ member ∈ members, ReadsArms ns member) : ReadsArms ns (.union members) := by
  unfold ReadsArms
  rw [tree_union, arms_union, addsNone_union]
  show ∃ founds, _ ∧ _ ∧ List.Forall₂ _ founds members
  induction members with
  | nil => exact ⟨[], rfl, rfl, .nil⟩
  | cons member rest ih =>
    obtain ⟨own, harms, hnone, hown⟩ := h member List.mem_cons_self
    obtain ⟨founds, hfounds, hnones, hall⟩ := ih
      (fun other hmem => hsingle other (List.mem_cons_of_mem _ hmem))
      fun other hmem => h other (List.mem_cons_of_mem _ hmem)
    rw [alternatives_of_single (hsingle member List.mem_cons_self)] at hown
    refine ⟨own ++ founds, ?_, ?_, List.rel_append hown hall⟩
    · rw [trees, allArms, harms, ok_bind, hfounds]
      rfl
    · rw [trees, List.any_cons, hnone, hnones]
      rfl

/-- Types that are equal to pairwise different ones are pairwise different. -/
theorem pairwise_of_forall₂ {founds : List FieldType}
    (h : List.Forall₂ (fun found member => found.same member = true) founds members)
    (hfounds : ∀ found ∈ founds, found.Normal) (hmembers : ∀ member ∈ members, member.Normal)
    (hdistinct : members.Pairwise fun a later => later.same a = false) :
    founds.Pairwise fun a later => later.same a = false := by
  induction h with
  | nil => exact .nil
  | @cons found member founds members hsame hrest ih =>
    rw [List.pairwise_cons] at hdistinct
    rw [List.forall_mem_cons] at hfounds hmembers
    refine List.pairwise_cons.mpr ⟨fun later hlater => ?_, ih hfounds.2 hmembers.2 hdistinct.2⟩
    -- if two of the types were equal, then so were those that they are equal to
    obtain ⟨member', hmember', hsame'⟩ := exists_of_forall₂ hrest hlater
    rw [Bool.eq_false_iff]
    intro heq
    have hback := (hfounds.2 later hlater).same_symm (hmembers.2 member' hmember') hsame'
    have hcontra := same_trans (same_trans hback heq) hsame
    rw [hdistinct.1 member' hmember'] at hcontra
    cases hcontra

/-- The types of the arms make an equal type, or it or nothing if `None` is among the arms. -/
theorem exists_ofMembers {founds : List FieldType} (h : type.Normal)
    (hpresent : type.isOptional = false) (hfounds : ∀ found ∈ founds, found.IsMember)
    (hall : List.Forall₂ (fun found arm => found.same arm = true) founds type.alternatives) :
    ∃ found, found.same type = true ∧ ∀ t, ofMembers t (Keyed.distinct founds)
      = .ok (if addsNone t then .optional found else found) := by
  cases hsingle : type.isSingle with
  | true =>
    rw [alternatives_of_single hsingle] at hall
    obtain ⟨found, rest, hsame, hrest, rfl⟩ := List.forall₂_cons_right_iff.mp hall
    obtain rfl := List.forall₂_nil_right_iff.mp hrest
    refine ⟨found, hsame, fun t => ?_⟩
    show Except.ok (if addsNone t then found.orNone else found) = _
    rw [(hfounds found List.mem_cons_self).orNone_eq]
  | false =>
    cases h with
    | @union members hlength hdistinct _ hmembers =>
      have hall' : List.Forall₂ (fun found member => found.same member = true) founds members := hall
      have hdistinct' := Keyed.distinct_of_pairwise <|
        pairwise_of_forall₂ hall' (fun found hmem => (hfounds found hmem).2) hmembers hdistinct
      have hsame : (union founds).same (union members) = true := by
        refine same_union_iff.mpr ⟨hall'.length_eq, fun found hmem => ?_⟩
        obtain ⟨member, hmember, hback⟩ := exists_of_forall₂ hall' hmem
        exact ⟨member, hmember, (hfounds found hmem).2.same_symm (hmembers member hmember) hback⟩
      refine ⟨union founds, hsame, fun t => ?_⟩
      rw [hdistinct']
      match founds, hall'.length_eq ▸ hlength with
      | _ :: _ :: _, _ => rfl
    | optional => cases hpresent
    | _ => cases hsingle

/-- A type whose arms are read back is read back. -/
theorem readsBack_of_arms (h : type.Normal) (hpresent : type.isOptional = false)
    (harms : ReadsArms ns type) : ReadsBack ns type := by
  obtain ⟨founds, hfounds, hnone, hall⟩ := harms
  obtain ⟨found, hsame, hmembers⟩ :=
    exists_ofMembers h hpresent (fun found hmem => isMember_of_arms hfounds hmem) hall
  refine ⟨found, ?_, hsame⟩
  rw [ofTree_eq_distinct, hfounds, ok_bind, hmembers, hnone]
  rfl

/-- An optional type has the arms of the type inside, and `None`. -/
theorem arms_tree_optional {founds : List FieldType} (h : (optional inner).Normal)
    (hfounds : arms ns inner.tree = .ok founds) :
    arms ns (optional inner).tree = .ok founds ∧ addsNone (optional inner).tree = true := by
  rcases isSingle_of_normal_optional h with hsingle | ⟨members, rfl⟩
  · rw [tree_optional_of_single hsingle, arms_optional]
    exact ⟨hfounds, by simp [addsNone]⟩
  · rw [tree_union, arms_union] at hfounds
    rw [tree_optional_of_union, arms_union, addsNone_union, allArms_append, hfounds, ok_bind]
    refine ⟨?_, by simp [addsNone, isNone]⟩
    show Except.ok (founds ++ []) = _
    rw [List.append_nil]

/-- An optional type is read back if the arms of the type inside are. -/
theorem readsBack_optional (h : (optional inner).Normal) (harms : ReadsArms ns inner) :
    ReadsBack ns (.optional inner) := by
  obtain ⟨founds, hfounds, -, hall⟩ := harms
  obtain ⟨hfounds', hnone⟩ := arms_tree_optional h hfounds
  cases h with
  | optional hinner hpresent =>
    obtain ⟨found, hsame, hmembers⟩ :=
      exists_ofMembers hinner hpresent (fun found hmem => isMember_of_arms hfounds hmem) hall
    refine ⟨.optional found, ?_, same_optional.trans hsame⟩
    rw [ofTree_eq_distinct, hfounds', ok_bind, hmembers, hnone]
    rfl

/-- **Every type in normal form is read back from its tree.** -/
theorem readsBack_tree (h : type.Normal) (hlegible : type.Legible ns) :
    ReadsBack ns type ∧ (type.isOptional = false → ReadsArms ns type) := by
  -- a type that is not optional is read back by its arms, which also serve the optional type
  have hpresent : ∀ {t : FieldType}, t.Normal → t.isOptional = false → ReadsArms ns t →
      ReadsBack ns t ∧ (t.isOptional = false → ReadsArms ns t) :=
    fun hnormal hpresent harms => ⟨readsBack_of_arms hnormal hpresent harms, fun _ => harms⟩
  induction type with
  | named handle => exact hpresent h rfl (readsArms_named (hlegible handle .named))
  | any => exact hpresent h rfl readsArms_any
  | list item ih =>
    cases h with
    | list hitem =>
      have hread := ih hitem (hlegible.part (List.mem_singleton_self _))
      exact hpresent (.list hitem) rfl (readsArms_list hread.1)
  | set item ih =>
    cases h with
    | set hitem =>
      have hread := ih hitem (hlegible.part (List.mem_singleton_self _))
      exact hpresent (.set hitem) rfl (readsArms_set hread.1)
  | dict key value ihkey ihvalue =>
    cases h with
    | dict hkey hvalue =>
      have hreadKey := ihkey hkey (hlegible.part (by simp [parts]))
      have hreadValue := ihvalue hvalue (hlegible.part (by simp [parts]))
      exact hpresent (.dict hkey hvalue) rfl (readsArms_dict hreadKey.1 hreadValue.1)
  | tuple items ih =>
    cases h with
    | tuple hitems =>
      have hread := fun item hmem => ih item hmem (hitems item hmem) (hlegible.part hmem)
      exact hpresent (.tuple hitems) rfl
        (readsArms_tuple (fun item hmem => hlegible.part hmem) fun item hmem => (hread item hmem).1)
  | union members ih =>
    cases h with
    | union hlength hdistinct hsingle hmembers =>
      refine hpresent (.union hlength hdistinct hsingle hmembers) rfl
        (readsArms_union hsingle fun member hmem => ?_)
      refine (ih member hmem (hmembers member hmem) (hlegible.part hmem)).2 ?_
      have hmember := hsingle member hmem
      cases member with
      | optional _ => cases hmember
      | _ => rfl
  | optional inner ih =>
    cases h with
    | optional hinner hinnerPresent =>
      have hread := ih hinner (hlegible.part (List.mem_singleton_self _))
      refine ⟨readsBack_optional (.optional hinner hinnerPresent) (hread.2 hinnerPresent), ?_⟩
      intro hpresent
      cases hpresent

/-- **The text of a type is read back.** In a namespace in which the names of its classes lead back to
them, the text of every type in normal form is read and classified as a type equal to it. -/
theorem parse_text (h : type.Normal) (hlegible : type.Legible ns) :
    ∃ found, parse ns type.text = .ok found ∧ found.same type = true := by
  obtain ⟨⟨found, hfound, hsame⟩, -⟩ := readsBack_tree h hlegible
  refine ⟨found, ?_, hsame⟩
  rw [parse, parse_text_eq_tree h hlegible]
  exact hfound

end FieldType

namespace Sample

/-- A part of a catalog. -/
def entry : ClassHandle := ⟨9, "catalog.Entry"⟩

/-- The builtin classes, and the parts of catalogs. -/
def entryNames : Namespace := Namespace.initial.insert entry

/-- A part of a catalog, or empty tuples in a list, or anything under names, or nothing. -/
def entryType : FieldType :=
  .optional (.union [.named entry, .list (.tuple []), .dict (.builtin .str) .any])

/-- The sample type is in normal form. -/
theorem normal_entryType : entryType.Normal := by
  refine .optional (.union (by decide) ?_ ?_ ?_) rfl
  · simp [FieldType.same]
  · simp [FieldType.isSingle]
  · simp only [List.forall_mem_cons]
    exact ⟨.named _, .list (.tuple (by simp)), .dict (.named _) .any, by simp⟩

/-- The names in the sample type lead back to its classes. -/
theorem legible_entryType : entryType.Legible entryNames := by
  have hentry : entryNames.Legible entry := ⟨by decide, by decide, entry, rfl, rfl⟩
  have hstr : entryNames.Legible Builtin.str.handle := ⟨by decide, by decide, _, rfl, rfl⟩
  have hany : FieldType.any.Legible entryNames := .of_parts (by simp) (by simp [FieldType.parts])
  have hempty : (FieldType.tuple []).Legible entryNames :=
    .of_parts (by simp) (by simp [FieldType.parts])
  have hlist : (FieldType.list (.tuple [])).Legible entryNames :=
    .of_parts (by simp) (by simpa [FieldType.parts] using hempty)
  have hdict : (FieldType.dict (.builtin .str) .any).Legible entryNames :=
    .of_parts (by simp) (by simpa [FieldType.parts] using ⟨.of_named hstr, hany⟩)
  have hunion : (FieldType.union [.named entry, .list (.tuple []),
      .dict (.builtin .str) .any]).Legible entryNames :=
    .of_parts (by simp) (by simpa [FieldType.parts] using ⟨.of_named hentry, hlist, hdict⟩)
  exact .of_parts (by simp [entryType]) (by simpa [FieldType.parts, entryType] using hunion)

end Sample

/-- A union of several shapes is read back. -/
theorem parse_text_entry : ∃ found,
    FieldType.parse Sample.entryNames
        "Union[catalog.Entry, List[Tuple[()]], Dict[str, Any], None]" = .ok found ∧
      found.same Sample.entryType = true := by
  have htext : Sample.entryType.text
      = "Union[catalog.Entry, List[Tuple[()]], Dict[str, Any], None]" := by decide
  rw [← htext]
  exact FieldType.parse_text Sample.normal_entryType Sample.legible_entryType

end ObjectMapping
