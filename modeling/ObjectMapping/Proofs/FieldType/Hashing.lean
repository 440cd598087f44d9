import Mathlib.Data.List.Sort
import ObjectMapping.FieldType.Hashing
import ObjectMapping.Proofs.FieldType.Normal

/-! # Equal types, reordered unions and hashes

Two types are equal if one becomes the other when members of unions are put in another order, at any
level. Names of classes do not count: a class is known by its number. So equal types write the same
pieces to a hasher, and a hash set holds one of them only.

* **`FieldType.Reorders`** — members of unions are put in another order.
* `FieldType.unnamed`: a type without the names of its classes.
* `same_iff_reorders`: types are equal if they can be reordered to be identical.
* `Reorders.pieces_eq`, `pieces_unnamed`: what a type writes does not depend on orders and names.
* **`FieldType.equality_lawful`** — equality is an equivalence, and hashes respect it. -/

namespace ObjectMapping.FieldType

open Value (Matches)

variable {a b c d : FieldType} {inner outer : Hasher}

/-! ## Reordered types -/

/-- **Members of unions are put in another order**, at some levels. -/
inductive Reorders : FieldType → FieldType → Prop
  | refl (a : FieldType) : Reorders a a
  | trans {a b c : FieldType} (h : Reorders a b) (h' : Reorders b c) : Reorders a c
  | permute {members others : List FieldType} (h : members.Perm others) :
      Reorders (.union members) (.union others)
  | member {before after : List FieldType} {a b : FieldType} (h : Reorders a b) :
      Reorders (.union (before ++ a :: after)) (.union (before ++ b :: after))
  | optional {a b : FieldType} (h : Reorders a b) : Reorders (.optional a) (.optional b)
  | list {a b : FieldType} (h : Reorders a b) : Reorders (.list a) (.list b)
  | set {a b : FieldType} (h : Reorders a b) : Reorders (.set a) (.set b)
  | key {a b value : FieldType} (h : Reorders a b) : Reorders (.dict a value) (.dict b value)
  | value {key a b : FieldType} (h : Reorders a b) : Reorders (.dict key a) (.dict key b)
  | item {before after : List FieldType} {a b : FieldType} (h : Reorders a b) :
      Reorders (.tuple (before ++ a :: after)) (.tuple (before ++ b :: after))

/-- What is reordered stays equal, from either side. -/
theorem Reorders.same_and_same (h : a.Reorders b) : a.same b = true ∧ b.same a = true := by
  have hself : ∀ types : List FieldType,
      List.Forall₂ (fun a b => a.same b = true) types types := fun types =>
    List.forall₂_same.mpr fun type _ => same_self type
  have hself' : ∀ types : List FieldType,
      List.Forall₂ (fun a b => b.same a = true) types types := fun types =>
    List.forall₂_same.mpr fun type _ => same_self type
  induction h with
  | refl a => exact ⟨same_self a, same_self a⟩
  | trans _ _ ih ih' => exact ⟨same_trans ih.1 ih'.1, same_trans ih'.2 ih.2⟩
  | permute hperm =>
    constructor
    · refine same_union_iff.mpr ⟨hperm.length_eq, fun member hmember => ?_⟩
      exact ⟨member, hperm.mem_iff.mp hmember, same_self member⟩
    · refine same_union_iff.mpr ⟨hperm.length_eq.symm, fun member hmember => ?_⟩
      exact ⟨member, hperm.mem_iff.mpr hmember, same_self member⟩
  | member _ ih =>
    -- members are compared the other way around
    exact ⟨same_union_iff.mpr (.of_forall₂ (List.rel_append (hself' _) (.cons ih.2 (hself' _)))),
      same_union_iff.mpr (.of_forall₂ (List.rel_append (hself' _) (.cons ih.1 (hself' _))))⟩
  | optional _ ih => exact ⟨same_optional.trans ih.1, same_optional.trans ih.2⟩
  | list _ ih => exact ⟨same_list.trans ih.1, same_list.trans ih.2⟩
  | set _ ih => exact ⟨same_set.trans ih.1, same_set.trans ih.2⟩
  | key _ ih =>
    rw [same_dict, same_dict, ih.1, ih.2, same_self]
    exact ⟨rfl, rfl⟩
  | value _ ih =>
    rw [same_dict, same_dict, ih.1, ih.2, same_self]
    exact ⟨rfl, rfl⟩
  | item _ ih =>
    rw [same_tuple, same_tuple, sameAll_iff, sameAll_iff]
    exact ⟨List.rel_append (hself _) (.cons ih.1 (hself _)),
      List.rel_append (hself _) (.cons ih.2 (hself _))⟩

/-- What is reordered stays equal. -/
theorem Reorders.same (h : a.Reorders b) : a.same b = true := h.same_and_same.1

/-- Parts that are reordered one by one are reordered together. -/
theorem reorders_of_forall₂ {make : List FieldType → FieldType}
    (hmake : ∀ {before after : List FieldType} {a b : FieldType}, a.Reorders b →
      (make (before ++ a :: after)).Reorders (make (before ++ b :: after)))
    {types others : List FieldType} (h : List.Forall₂ Reorders types others) :
    (make types).Reorders (make others) := by
  -- the types in front have been reordered already
  have hfront : ∀ front : List FieldType,
      (make (front ++ types)).Reorders (make (front ++ others)) := by
    induction h with
    | nil => exact fun front => .refl _
    | @cons a b _ _ hab _ ih =>
      intro front
      have hrest := ih (front ++ [b])
      rw [List.append_assoc, List.append_assoc] at hrest
      exact (hmake hab).trans hrest
  exact hfront []

/-! ## Types without names -/

mutual

/-- The type without the names of its classes, which are for rendering only. -/
def unnamed : FieldType → FieldType
  | named handle => named ⟨handle.id, ""⟩
  | optional type => optional (unnamed type)
  | union members => union (unnamedAll members)
  | list item => list (unnamed item)
  | set item => set (unnamed item)
  | dict key value => dict (unnamed key) (unnamed value)
  | tuple items => tuple (unnamedAll items)
  | any => any

/-- The types of a list without names. -/
def unnamedAll : List FieldType → List FieldType
  | [] => []
  | type :: rest => unnamed type :: unnamedAll rest

end

/-- Names are taken away from all types of a list. -/
theorem unnamedAll_eq_map (types : List FieldType) : unnamedAll types = types.map unnamed := by
  induction types with
  | nil => rfl
  | cons type rest ih => rw [unnamedAll, ih, List.map_cons]

/-- Names do not count. -/
theorem same_unnamed (a : FieldType) : a.same a.unnamed = true ∧ a.unnamed.same a = true := by
  induction a with
  | named handle => simp [unnamed, same_named, ClassHandle.same]
  | optional type ih => exact ⟨same_optional.trans ih.1, same_optional.trans ih.2⟩
  | union members ih =>
    rw [unnamed, unnamedAll_eq_map, same_union_iff, same_union_iff]
    exact ⟨.of_forall₂ (List.forall₂_map_right_iff.mpr (List.forall₂_same.mpr fun m hm => (ih m hm).2)),
      .of_forall₂ (List.forall₂_map_left_iff.mpr (List.forall₂_same.mpr fun m hm => (ih m hm).1))⟩
  | list item ih => exact ⟨same_list.trans ih.1, same_list.trans ih.2⟩
  | set item ih => exact ⟨same_set.trans ih.1, same_set.trans ih.2⟩
  | dict key value ihKey ihValue =>
    rw [unnamed, same_dict, same_dict, ihKey.1, ihKey.2, ihValue.1, ihValue.2]
    exact ⟨rfl, rfl⟩
  | tuple items ih =>
    rw [unnamed, unnamedAll_eq_map, same_tuple, same_tuple, sameAll_iff, sameAll_iff]
    exact ⟨List.forall₂_map_right_iff.mpr (List.forall₂_same.mpr fun m hm => (ih m hm).1),
      List.forall₂_map_left_iff.mpr (List.forall₂_same.mpr fun m hm => (ih m hm).2)⟩
  | any => exact ⟨rfl, rfl⟩

/-- Types that differ in names only are equal. -/
theorem same_of_unnamed_eq (h : a.unnamed = b.unnamed) : a.same b = true :=
  same_trans (h ▸ (same_unnamed a).1) (same_unnamed b).2

/-! ## Equality by reordering -/

/-- Types that can be reordered to be identical to others, taken together. -/
theorem exists_reordered {types others : List FieldType}
    (h : List.Forall₂ (fun a b => ∃ c, a.Reorders c ∧ c.unnamed = b.unnamed) types others) :
    ∃ reordered, List.Forall₂ Reorders types reordered ∧
      unnamedAll reordered = unnamedAll others := by
  induction h with
  | nil => exact ⟨[], .nil, rfl⟩
  | cons hab _ ih =>
    obtain ⟨c, hreorders, hunnamed⟩ := hab
    obtain ⟨rest, hrest, hunnamed'⟩ := ih
    refine ⟨c :: rest, .cons hreorders hrest, ?_⟩
    rw [unnamedAll, unnamedAll, hunnamed, hunnamed']

/-- The members of equal unions are put in the places of their counterparts. -/
theorem exists_sorted {members others : List FieldType} (ha : (union members).DistinctMembers)
    (hb : (union others).DistinctMembers)
    (hothers : Matches (fun a b => a.same b = true) members others) :
    ∃ sorted, sorted.Perm members ∧ List.Forall₂ (fun a b => a.same b = true) sorted others := by
  cases ha with | union hdistinct hmembers =>
  cases hb with | union hdistinct' hmembers' =>
  have hsymm : ∀ x ∈ members, ∀ y ∈ others, x.same y = true → y.same x = true :=
    fun x hx y hy => (hmembers x hx).same_symm (hmembers' y hy)
  have hsymm' : ∀ y ∈ others, ∀ x ∈ members, y.same x = true → x.same y = true :=
    fun y hy x hx => (hmembers' y hy).same_symm (hmembers x hx)
  -- members are different on both sides, so each has one counterpart and the orders can be matched
  obtain ⟨sorted, hperm, hsorted⟩ :=
    (hothers.symm (pairwise_apart hdistinct hsymm) hsymm).exists_perm
      (pairwise_apart hdistinct' hsymm')
  have hflip : List.Forall₂ (fun x y => y.same x = true) sorted others := hsorted.flip
  refine ⟨sorted, hperm, List.forall₂_iff_zip.mpr ⟨hflip.length_eq, fun {x y} hpair => ?_⟩⟩
  obtain ⟨hx, hy⟩ := List.of_mem_zip hpair
  exact hsymm' y hy x (hperm.mem_iff.mp hx) (List.forall₂_zip hflip hpair)

/-- **Equal types can be reordered to be identical**: each member of a union is put in the place of
its counterpart. -/
theorem exists_reorders (ha : a.DistinctMembers) (hb : b.DistinctMembers) (h : a.same b = true) :
    ∃ c, a.Reorders c ∧ c.unnamed = b.unnamed := by
  induction a generalizing b with
  | named handle =>
    obtain ⟨other, rfl, hother⟩ := exists_of_same_named h
    refine ⟨_, .refl _, ?_⟩
    rw [ClassHandle.same, beq_iff_eq] at hother
    rw [unnamed, unnamed, hother]
  | optional type ih =>
    obtain ⟨other, rfl, hother⟩ := exists_of_same_optional h
    cases ha with | optional htype =>
    cases hb with | optional htype' =>
    obtain ⟨c, hreorders, hunnamed⟩ := ih htype htype' hother
    exact ⟨_, .optional hreorders, by rw [unnamed, unnamed, hunnamed]⟩
  | union members ih =>
    obtain ⟨others, rfl, -⟩ := exists_of_same_union h
    -- first the members are put in the places of their counterparts, then each is reordered itself
    obtain ⟨sorted, hperm, hsorted⟩ := exists_sorted ha hb (ha.matches_of_same hb h)
    cases ha with | union _ hmembers =>
    cases hb with | union _ hmembers' =>
    have hcounterparts : List.Forall₂ (fun a b => ∃ c, a.Reorders c ∧ c.unnamed = b.unnamed)
        sorted others := by
      refine List.forall₂_iff_zip.mpr ⟨hsorted.length_eq, fun {x y} hpair => ?_⟩
      obtain ⟨hx, hy⟩ := List.of_mem_zip hpair
      have hx' := hperm.mem_iff.mp hx
      exact ih x hx' (hmembers x hx') (hmembers' y hy) (List.forall₂_zip hsorted hpair)
    obtain ⟨reordered, hreorders, hunnamed⟩ := exists_reordered hcounterparts
    exact ⟨_, (Reorders.permute hperm.symm).trans (reorders_of_forall₂ .member hreorders),
      by rw [unnamed, unnamed, hunnamed]⟩
  | list item ih =>
    obtain ⟨other, rfl, hother⟩ := exists_of_same_list h
    cases ha with | list hitem =>
    cases hb with | list hitem' =>
    obtain ⟨c, hreorders, hunnamed⟩ := ih hitem hitem' hother
    exact ⟨_, .list hreorders, by rw [unnamed, unnamed, hunnamed]⟩
  | set item ih =>
    obtain ⟨other, rfl, hother⟩ := exists_of_same_set h
    cases ha with | set hitem =>
    cases hb with | set hitem' =>
    obtain ⟨c, hreorders, hunnamed⟩ := ih hitem hitem' hother
    exact ⟨_, .set hreorders, by rw [unnamed, unnamed, hunnamed]⟩
  | dict key value ihKey ihValue =>
    obtain ⟨key', value', rfl, hkey, hvalue⟩ := exists_of_same_dict h
    cases ha with | dict hkeyDistinct hvalueDistinct =>
    cases hb with | dict hkeyDistinct' hvalueDistinct' =>
    obtain ⟨k, hreorders, hunnamed⟩ := ihKey hkeyDistinct hkeyDistinct' hkey
    obtain ⟨v, hreorders', hunnamed'⟩ := ihValue hvalueDistinct hvalueDistinct' hvalue
    -- keys first, then values: a reordering changes one part at a time
    exact ⟨_, (Reorders.key hreorders).trans (.value hreorders'),
      by rw [unnamed, unnamed, hunnamed, hunnamed']⟩
  | tuple items ih =>
    obtain ⟨others, rfl, hothers⟩ := exists_of_same_tuple h
    cases ha with | tuple hitems =>
    cases hb with | tuple hitems' =>
    have hcounterparts : List.Forall₂ (fun a b => ∃ c, a.Reorders c ∧ c.unnamed = b.unnamed)
        items others := by
      refine List.forall₂_iff_zip.mpr ⟨hothers.length_eq, fun {x y} hpair => ?_⟩
      obtain ⟨hx, hy⟩ := List.of_mem_zip hpair
      exact ih x hx (hitems x hx) (hitems' y hy) (List.forall₂_zip hothers hpair)
    obtain ⟨reordered, hreorders, hunnamed⟩ := exists_reordered hcounterparts
    exact ⟨_, reorders_of_forall₂ .item hreorders, by rw [unnamed, unnamed, hunnamed]⟩
  | any =>
    obtain rfl := eq_of_same_any h
    exact ⟨_, .refl _, rfl⟩

/-- **Types are equal if they can be reordered to be identical** but for the names of classes. -/
theorem same_iff_reorders (ha : a.DistinctMembers) (hb : b.DistinctMembers) :
    a.same b = true ↔ ∃ c, a.Reorders c ∧ c.unnamed = b.unnamed := by
  constructor
  · exact exists_reorders ha hb
  · rintro ⟨c, hreorders, hunnamed⟩
    exact same_trans hreorders.same (same_of_unnamed_eq hunnamed)

/-! ## Hashes -/

/-- The hashes of the members are taken one by one. -/
theorem memberHashes_eq_map (members : List FieldType) :
    memberHashes inner members = members.map fun member => inner.hash (member.pieces inner) := by
  induction members with
  | nil => rfl
  | cons member rest ih => rw [memberHashes, ih, List.map_cons]

/-- What is written for a list of types is what is written for each of them, in order. -/
theorem allPieces_eq_flatMap (items : List FieldType) :
    allPieces inner items = items.flatMap (·.pieces inner) := by
  induction items with
  | nil => rfl
  | cons item rest ih => rw [allPieces, ih, List.flatMap_cons]

/-- The order of hashes plays no part once they are sorted. -/
theorem sortHashes_perm {values others : List UInt64} (h : values.Perm others) :
    sortHashes values = sortHashes others := by
  have hsorted : ∀ values : List UInt64,
      (sortHashes values).Pairwise fun x y => decide (x ≤ y) = true :=
    List.pairwise_mergeSort
      (fun x y z hxy hyz =>
        decide_eq_true (UInt64.le_trans (of_decide_eq_true hxy) (of_decide_eq_true hyz)))
      fun x y => by simpa using UInt64.le_total x y
  refine List.Perm.eq_of_pairwise (fun x y _ _ hxy hyx => ?_) (hsorted values) (hsorted others) ?_
  · exact UInt64.le_antisymm (of_decide_eq_true hxy) (of_decide_eq_true hyx)
  · exact ((List.mergeSort_perm _ _).trans h).trans (List.mergeSort_perm _ _).symm

/-- What is reordered writes the same pieces. -/
theorem Reorders.pieces_eq (inner : Hasher) (h : a.Reorders b) : a.pieces inner = b.pieces inner := by
  induction h with
  | refl a => rfl
  | trans _ _ ih ih' => exact ih.trans ih'
  | permute hperm =>
    -- the only step in which hashes change places
    rw [pieces, pieces, memberHashes_eq_map, memberHashes_eq_map, sortHashes_perm (hperm.map _)]
  | member _ ih =>
    simp only [pieces, memberHashes_eq_map, List.map_append, List.map_cons, ih]
  | optional _ ih => rw [pieces, pieces, ih]
  | list _ ih => rw [pieces, pieces, ih]
  | set _ ih => rw [pieces, pieces, ih]
  | key _ ih => rw [pieces, pieces, ih]
  | value _ ih => rw [pieces, pieces, ih]
  | item _ ih =>
    simp only [pieces, allPieces_eq_flatMap, List.flatMap_append, List.flatMap_cons, ih,
      List.length_append, List.length_cons]

/-- Names are not written. -/
theorem pieces_unnamed (inner : Hasher) (a : FieldType) :
    a.unnamed.pieces inner = a.pieces inner := by
  induction a with
  | named handle => rfl
  | optional type ih => rw [unnamed, pieces, pieces, ih]
  | union members ih =>
    have hmembers : (members.map unnamed).map (fun member => inner.hash (member.pieces inner))
        = members.map fun member => inner.hash (member.pieces inner) := by
      rw [List.map_map]
      exact List.map_congr_left fun member hmember => congrArg inner.hash (ih member hmember)
    rw [unnamed, unnamedAll_eq_map, pieces, pieces, memberHashes_eq_map, memberHashes_eq_map, hmembers]
  | list item ih => rw [unnamed, pieces, pieces, ih]
  | set item ih => rw [unnamed, pieces, pieces, ih]
  | dict key value ihKey ihValue => rw [unnamed, pieces, pieces, ihKey, ihValue]
  | tuple items ih =>
    have hitems : (items.map unnamed).flatMap (·.pieces inner) = items.flatMap (·.pieces inner) := by
      rw [List.flatMap_map]
      exact List.flatMap_congr fun item hitem => ih item hitem
    rw [unnamed, unnamedAll_eq_map, pieces, pieces, allPieces_eq_flatMap, allPieces_eq_flatMap, hitems,
      List.length_map]
  | any => rfl

/-- **Equal types write the same pieces** to every hasher. -/
theorem pieces_eq_of_same (inner : Hasher) (ha : a.DistinctMembers) (hb : b.DistinctMembers)
    (h : a.same b = true) : a.pieces inner = b.pieces inner := by
  obtain ⟨c, hreorders, hunnamed⟩ := exists_reorders ha hb h
  rw [hreorders.pieces_eq, ← pieces_unnamed, hunnamed, pieces_unnamed]

/-! ## Hash sets -/

/-- A type whose unions have different members, as classification gives it. -/
def Distinct : Type := {type : FieldType // type.DistinctMembers}

namespace Distinct

instance : BEq Distinct := ⟨fun a b => a.1.same b.1⟩

instance : EquivBEq Distinct where
  rfl := same_self _
  symm := fun {a b} h => a.2.same_symm b.2 h
  trans := same_trans

/-- Types hashed by a pair of hashers, the first of which is for the members of unions. -/
@[reducible]
def hashable (inner outer : Hasher) : Hashable Distinct := ⟨fun type => type.1.hash inner outer⟩

/-- Equal types whose members are different have equal hashes. -/
theorem lawfulHashable (inner outer : Hasher) :
    @LawfulHashable Distinct _ (hashable inner outer) :=
  @LawfulHashable.mk Distinct _ (hashable inner outer) fun a b h =>
    congrArg outer.hash (pieces_eq_of_same inner a.2 b.2 h)

/-- The elements of the hash set into which types are put one after another. -/
def elements (inner outer : Hasher) (types : List Distinct) : List Distinct :=
  (@Std.HashSet.ofList Distinct _ (hashable inner outer) types).toList

variable {types : List Distinct} {type : Distinct}

/-- Of pairwise different elements one is equal to a type that is equal to some of them. -/
theorem countP_eq_one {found : List Distinct}
    (hdistinct : found.Pairwise fun x y => (x == y) = false) (h : ∃ x ∈ found, (type == x) = true) :
    found.countP (type == ·) = 1 := by
  induction found with
  | nil =>
    obtain ⟨x, hx, -⟩ := h
    cases hx
  | cons first rest ih =>
    obtain ⟨hfirst, hrest⟩ := List.pairwise_cons.mp hdistinct
    by_cases heq : (type == first) = true
    · -- an equal element behind the first one would be equal to the first one
      have hnone : rest.countP (type == ·) = 0 := by
        refine List.countP_eq_zero.mpr fun x hx hx' => ?_
        have hne := hfirst x hx
        rw [BEq.trans (BEq.symm heq) hx'] at hne
        cases hne
      rw [List.countP_cons_of_pos heq, hnone]
    · rw [List.countP_cons_of_neg heq]
      obtain ⟨x, hx, hx'⟩ := h
      rcases List.mem_cons.mp hx with rfl | hx
      · exact absurd hx' heq
      · exact ih hrest ⟨x, hx, hx'⟩

/-- A type is found in a set of types by its hash exactly if it is in the list of them. -/
theorem contains_elements (inner outer : Hasher) (types : List Distinct) (type : Distinct) :
    (elements inner outer types).contains type = types.contains type := by
  have := lawfulHashable inner outer
  rw [elements, Std.HashSet.contains_toList, Std.HashSet.contains_ofList]

/-- **A hash set holds one element for all types that are equal.** -/
theorem countP_elements (inner outer : Hasher) (h : type ∈ types) :
    (elements inner outer types).countP (type == ·) = 1 := by
  have := lawfulHashable inner outer
  refine countP_eq_one Std.HashSet.distinct_toList ?_
  have hcontains : (elements inner outer types).contains type = true := by
    rw [contains_elements]
    exact List.contains_iff_exists_mem_beq.mpr ⟨type, h, BEq.rfl⟩
  exact List.contains_iff_exists_mem_beq.mp hcontains

end Distinct

/-! ## The theorem -/

/-- **Equality of types is an equivalence, and hashes respect it.** Among types whose unions have
different members it is reflexive, symmetric and transitive, and it holds exactly of types that can be
reordered to be identical but for names of classes. Equal types write the same pieces to every hasher,
whatever the hasher for members of unions, so their hashes are equal; and a hash set of types holds
exactly one element for each type that is put in, and none for any other type. -/
theorem equality_lawful (inner outer : Hasher) (ha : a.DistinctMembers) (hb : b.DistinctMembers)
    (c : FieldType) (types : List Distinct) :
    a.same a = true ∧
      (a.same b = true → b.same a = true) ∧
      (a.same b = true → b.same c = true → a.same c = true) ∧
      (a.same b = true ↔ ∃ d, a.Reorders d ∧ d.unnamed = b.unnamed) ∧
      (a.same b = true →
        a.pieces inner = b.pieces inner ∧ a.hash inner outer = b.hash inner outer) ∧
      (∀ type ∈ types, (Distinct.elements inner outer types).countP (type == ·) = 1) ∧
      ∀ element ∈ Distinct.elements inner outer types, ∃ type ∈ types, (element == type) = true := by
  refine ⟨same_self a, ha.same_symm hb, same_trans, same_iff_reorders ha hb, fun h => ?_,
    fun type htype => Distinct.countP_elements inner outer htype, fun element helement => ?_⟩
  · have hpieces := pieces_eq_of_same inner ha hb h
    exact ⟨hpieces, congrArg outer.hash hpieces⟩
  · have hcontains := List.contains_iff_exists_mem_beq.mpr ⟨element, helement, BEq.rfl⟩
    rw [Distinct.contains_elements] at hcontains
    exact List.contains_iff_exists_mem_beq.mp hcontains

/-! ## Labels -/

namespace Sample

/-- A hasher that adds up all numbers that are written to it. -/
def sum : Hasher where
  State := UInt64
  initial := 0
  write total
    | .kind place => total + place.toUInt64
    | .number id => total + id.toUInt64
    | .length n => total + n.toUInt64
    | .hashes values => values.foldl (· + ·) total
  finish total := total

/-- Texts with numbers or texts. -/
def labelled : FieldType := .dict (.builtin .str) (.union [.builtin .int, .builtin .str])

/-- The same with the members of the union the other way round. -/
def labelled' : FieldType := .dict (.builtin .str) (.union [.builtin .str, .builtin .int])

/-- The first sample type has different members. -/
theorem distinctMembers_labelled : labelled.DistinctMembers :=
  .dict (.named _) (.union (by decide) (by simp [FieldType.builtin, DistinctMembers.named]))

/-- The second sample type has different members. -/
theorem distinctMembers_labelled' : labelled'.DistinctMembers :=
  .dict (.named _) (.union (by decide) (by simp [FieldType.builtin, DistinctMembers.named]))

end Sample

open FieldType.Sample

/-- The order of the union does not count, and one of the two types is in a hash set of both. -/
theorem equality_lawful_labelled :
    labelled.same labelled' = true ∧ labelled.hash sum sum = labelled'.hash sum sum ∧
      (Distinct.elements sum sum
        [⟨labelled, distinctMembers_labelled⟩, ⟨labelled', distinctMembers_labelled'⟩]).countP
          (⟨labelled, distinctMembers_labelled⟩ == ·) = 1 := by
  have hsame : labelled.same labelled' = true := rfl
  obtain ⟨-, -, -, -, hhash, hset, -⟩ := equality_lawful sum sum distinctMembers_labelled
    distinctMembers_labelled' labelled
    [⟨labelled, distinctMembers_labelled⟩, ⟨labelled', distinctMembers_labelled'⟩]
  exact ⟨hsame, (hhash hsame).2, hset _ List.mem_cons_self⟩

end ObjectMapping.FieldType
