import ObjectMapping.Proofs.FieldType.Induction
import ObjectMapping.Proofs.Value.Equivalence

/-! # Normal forms of field types

A type is in normal form if no optional type is directly inside another one, and if every union has
two members at least, which are pairwise different and neither unions nor optional types. Types can
be compared from one side only where their unions are in normal form, since then as many members,
each with a counterpart, are all members.

* **`FieldType.Normal`** — the type is in normal form, at every level.
* `FieldType.DistinctMembers`: all that equality needs, members of unions that are different.
* `FieldType.sameAs_eq_same`: the comparison by recursion on the other side is the comparison.
* `FieldType.same_self`, `FieldType.same_trans`: equality of types is reflexive and transitive.
* **`FieldType.DistinctMembers.same_symm`** — between types whose unions have different members it is
  symmetric, hence between normal forms. -/

namespace ObjectMapping.FieldType

open Value (Matches)

/-- Whether a type is neither a union nor optional. -/
def isSingle : FieldType → Bool
  | union _ | optional _ => false
  | _ => true

/-- The type is in normal form, at every level. -/
inductive Normal : FieldType → Prop
  | named (handle : ClassHandle) : Normal (.named handle)
  | optional {inner : FieldType} (hinner : Normal inner) (hpresent : inner.isOptional = false) :
      Normal (.optional inner)
  | union {members : List FieldType} (hlength : 2 ≤ members.length)
      (hdistinct : members.Pairwise fun a later => later.same a = false)
      (hsingle : ∀ member ∈ members, member.isSingle = true)
      (hmembers : ∀ member ∈ members, Normal member) : Normal (.union members)
  | list {item : FieldType} (hitem : Normal item) : Normal (.list item)
  | set {item : FieldType} (hitem : Normal item) : Normal (.set item)
  | dict {key value : FieldType} (hkey : Normal key) (hvalue : Normal value) :
      Normal (.dict key value)
  | tuple {items : List FieldType} (hitems : ∀ item ∈ items, Normal item) : Normal (.tuple items)
  | any : Normal .any

/-- The members of a union are pairwise different, at every level. -/
inductive DistinctMembers : FieldType → Prop
  | named (handle : ClassHandle) : DistinctMembers (.named handle)
  | optional {inner : FieldType} (hinner : DistinctMembers inner) : DistinctMembers (.optional inner)
  | union {members : List FieldType}
      (hdistinct : members.Pairwise fun a later => later.same a = false)
      (hmembers : ∀ member ∈ members, DistinctMembers member) : DistinctMembers (.union members)
  | list {item : FieldType} (hitem : DistinctMembers item) : DistinctMembers (.list item)
  | set {item : FieldType} (hitem : DistinctMembers item) : DistinctMembers (.set item)
  | dict {key value : FieldType} (hkey : DistinctMembers key) (hvalue : DistinctMembers value) :
      DistinctMembers (.dict key value)
  | tuple {items : List FieldType} (hitems : ∀ item ∈ items, DistinctMembers item) :
      DistinctMembers (.tuple items)
  | any : DistinctMembers .any

variable {a b c d : FieldType}

/-- The unions of a normal form have different members. -/
theorem Normal.distinctMembers (h : a.Normal) : a.DistinctMembers := by
  induction h with
  | named handle => exact .named handle
  | optional _ _ ih => exact .optional ih
  | union _ hdistinct _ _ ih => exact .union hdistinct ih
  | list _ ih => exact .list ih
  | set _ ih => exact .set ih
  | dict _ _ ihKey ihValue => exact .dict ihKey ihValue
  | tuple _ ih => exact .tuple ih
  | any => exact .any

/-! ## Comparisons -/

/-- Classes are compared by their handles. -/
theorem same_named {handle other : ClassHandle} :
    (named handle).same (named other) = handle.same other := rfl

/-- Optional types are compared by what is inside them. -/
theorem same_optional : (optional a).same (optional b) = a.same b := rfl

/-- List types are compared by the types of their items. -/
theorem same_list : (list a).same (list b) = a.same b := rfl

/-- Set types are compared by the types of their items. -/
theorem same_set : (set a).same (set b) = a.same b := rfl

/-- Dictionary types are compared by the types of their keys and values. -/
theorem same_dict : (dict a b).same (dict c d) = (a.same c && b.same d) := rfl

/-- Tuple types are compared position by position. -/
theorem same_tuple {items others : List FieldType} :
    (tuple items).same (tuple others) = sameAll items others := rfl

/-- Tuples are equal if their items are, position by position. -/
theorem sameAll_iff {items others : List FieldType} :
    sameAll items others = true ↔ List.Forall₂ (fun a b => a.same b = true) items others := by
  induction items generalizing others with
  | nil => cases others <;> simp [sameAll]
  | cons item rest ih =>
    cases others with
    | nil => simp [sameAll]
    | cons other others => rw [sameAll, Bool.and_eq_true, ih, List.forall₂_cons]

/-- A list contains a type if one of its elements is equal to it. -/
theorem contains_eq_any (members : List FieldType) (type : FieldType) :
    contains members type = members.any (·.same type) := by
  induction members with
  | nil => rfl
  | cons member rest ih => rw [contains, List.any_cons, ih]

/-- Inclusion compares each type of the first list with all of the second one. -/
theorem included_eq_all (members others : List FieldType) :
    included members others = members.all fun member => others.any fun other => member.sameAs other := by
  induction members with
  | nil => rfl
  | cons member rest ih => rw [included, List.all_cons, ih]

/-- Items are compared with sides exchanged if each pair of them is. -/
theorem sameAsAll_eq {items others : List FieldType}
    (h : ∀ item ∈ items, ∀ other ∈ others, item.sameAs other = other.same item) :
    sameAsAll items others = sameAll others items := by
  induction items generalizing others with
  | nil => cases others <;> rfl
  | cons item rest ih =>
    cases others with
    | nil => rfl
    | cons other others =>
      have hrest := ih fun a ha b hb => h a (List.mem_cons_of_mem _ ha) b (List.mem_cons_of_mem _ hb)
      rw [sameAsAll, sameAll, h item List.mem_cons_self other List.mem_cons_self, hrest]

/-- Members are searched for with sides exchanged if each pair is compared so. -/
theorem all_contains_eq {members others : List FieldType}
    (h : ∀ member ∈ members, ∀ other ∈ others, member.sameAs other = other.same member) :
    (members.all fun member => contains others member) = included members others := by
  rw [included_eq_all, Bool.eq_iff_iff, List.all_eq_true, List.all_eq_true]
  refine forall₂_congr fun member hmem => ?_
  rw [contains_eq_any, List.any_eq_true, List.any_eq_true]
  exact exists_congr fun other => and_congr_right fun hother => by rw [h member hmem other hother]

/-- **The comparison by recursion on the other side is the comparison.** Its two halves go together,
as the members of a union on one side are searched for on the other side. -/
theorem sameAs_eq_same (a : FieldType) :
    (∀ b, a.sameAs b = b.same a) ∧ ∀ b : FieldType, b.sameAs a = a.same b := by
  induction a with
  | named handle => exact ⟨fun b => by cases b <;> rfl, fun b => by cases b <;> rfl⟩
  | any => exact ⟨fun b => by cases b <;> rfl, fun b => by cases b <;> rfl⟩
  | optional inner ih =>
    refine ⟨fun b => ?_, fun b => ?_⟩
    · cases b with
      | optional other => exact ih.1 other
      | _ => rfl
    · cases b with
      | optional other => exact ih.2 other
      | _ => rfl
  | union members ih =>
    refine ⟨fun b => ?_, fun b => ?_⟩
    · cases b with
      | union others =>
        -- each half of the statement for the members gives the other half for the union
        exact congrArg _ (all_contains_eq fun other _ member hmem => (ih member hmem).2 other)
      | _ => rfl
    · cases b with
      | union others =>
        exact congrArg _ (all_contains_eq fun member hmem other _ => (ih member hmem).1 other)
      | _ => rfl
  | list item ih =>
    refine ⟨fun b => ?_, fun b => ?_⟩
    · cases b with
      | list other => exact ih.1 other
      | _ => rfl
    · cases b with
      | list other => exact ih.2 other
      | _ => rfl
  | set item ih =>
    refine ⟨fun b => ?_, fun b => ?_⟩
    · cases b with
      | set other => exact ih.1 other
      | _ => rfl
    · cases b with
      | set other => exact ih.2 other
      | _ => rfl
  | dict key value ihKey ihValue =>
    refine ⟨fun b => ?_, fun b => ?_⟩
    · cases b with
      | dict key' value' => exact congrArg₂ _ (ihKey.1 key') (ihValue.1 value')
      | _ => rfl
    · cases b with
      | dict key' value' => exact congrArg₂ _ (ihKey.2 key') (ihValue.2 value')
      | _ => rfl
  | tuple items ih =>
    refine ⟨fun b => ?_, fun b => ?_⟩
    · cases b with
      | tuple others => exact sameAsAll_eq fun item hmem other _ => (ih item hmem).1 other
      | _ => rfl
    · cases b with
      | tuple others => exact sameAsAll_eq fun other _ item hmem => (ih item hmem).2 other
      | _ => rfl

/-- A list of types is included in another one if each of them has an equal there. -/
theorem included_iff {members others : List FieldType} :
    included members others = true ↔
      ∀ member ∈ members, ∃ other ∈ others, other.same member = true := by
  simp only [included_eq_all, List.all_eq_true, List.any_eq_true, (sameAs_eq_same _).1]

/-- Unions are equal if they have as many members and each has an equal in the other one, where it
is compared from the other side. -/
theorem same_union_iff {members others : List FieldType} :
    (union members).same (union others) = true ↔
      Matches (fun a b => b.same a = true) members others := by
  have hsame : (union members).same (union others)
      = (members.length == others.length && included members others) := rfl
  rw [hsame, Bool.and_eq_true, beq_iff_eq, included_iff]
  rfl

/-- Only a class equals a class. -/
theorem exists_of_same_named {handle : ClassHandle} (h : (named handle).same b = true) :
    ∃ other, b = named other ∧ handle.same other = true := by
  cases b with
  | named other => exact ⟨other, rfl, h⟩
  | _ => exact absurd h Bool.false_ne_true

/-- Only an optional type equals an optional one. -/
theorem exists_of_same_optional (h : (optional a).same b = true) :
    ∃ other, b = optional other ∧ a.same other = true := by
  cases b with
  | optional other => exact ⟨other, rfl, h⟩
  | _ => exact absurd h Bool.false_ne_true

/-- Only a union equals a union. -/
theorem exists_of_same_union {members : List FieldType} (h : (union members).same b = true) :
    ∃ others, b = union others ∧ Matches (fun a b => b.same a = true) members others := by
  cases b with
  | union others => exact ⟨others, rfl, same_union_iff.mp h⟩
  | _ => exact absurd h Bool.false_ne_true

/-- Only a list type equals a list type. -/
theorem exists_of_same_list (h : (list a).same b = true) :
    ∃ other, b = list other ∧ a.same other = true := by
  cases b with
  | list other => exact ⟨other, rfl, h⟩
  | _ => exact absurd h Bool.false_ne_true

/-- Only a set type equals a set type. -/
theorem exists_of_same_set (h : (set a).same b = true) :
    ∃ other, b = set other ∧ a.same other = true := by
  cases b with
  | set other => exact ⟨other, rfl, h⟩
  | _ => exact absurd h Bool.false_ne_true

/-- Only a dictionary type equals a dictionary type. -/
theorem exists_of_same_dict (h : (dict a b).same c = true) :
    ∃ key value, c = dict key value ∧ a.same key = true ∧ b.same value = true := by
  cases c with
  | dict key value => exact ⟨key, value, rfl, Bool.and_eq_true_iff.mp h⟩
  | _ => exact absurd h Bool.false_ne_true

/-- Only a tuple type equals a tuple type. -/
theorem exists_of_same_tuple {items : List FieldType} (h : (tuple items).same b = true) :
    ∃ others, b = tuple others ∧ List.Forall₂ (fun a b => a.same b = true) items others := by
  cases b with
  | tuple others => exact ⟨others, rfl, sameAll_iff.mp h⟩
  | _ => exact absurd h Bool.false_ne_true

/-- Only any type equals any type. -/
theorem eq_of_same_any (h : any.same b = true) : b = any := by
  cases b with
  | any => rfl
  | _ => exact absurd h Bool.false_ne_true

/-! ## Equality is an equivalence -/

/-- A type equals itself. -/
theorem same_self (a : FieldType) : a.same a = true := by
  induction a with
  | named handle => rw [same_named, ClassHandle.same_self]
  | optional inner ih => rwa [same_optional]
  | union members ih =>
    exact same_union_iff.mpr ⟨rfl, fun member hmem => ⟨member, hmem, ih member hmem⟩⟩
  | list item ih => rwa [same_list]
  | set item ih => rwa [same_set]
  | dict key value ihKey ihValue => rw [same_dict, ihKey, ihValue, Bool.true_and]
  | tuple items ih =>
    rw [same_tuple, sameAll_iff]
    exact List.forall₂_same.mpr ih
  | any => rfl

/-- The members of a union are smaller than the union. -/
theorem sizeOf_lt_union {members : List FieldType} (h : a ∈ members) :
    sizeOf a < sizeOf (union members) := by
  have hlt := List.sizeOf_lt_of_mem h
  simp only [union.sizeOf_spec]
  omega

/-- The items of a tuple are smaller than the tuple. -/
theorem sizeOf_lt_tuple {items : List FieldType} (h : a ∈ items) :
    sizeOf a < sizeOf (tuple items) := by
  have hlt := List.sizeOf_lt_of_mem h
  simp only [tuple.sizeOf_spec]
  omega

/-- Types that are equal to equal types are equal. -/
theorem same_trans (h : a.same b = true) (h' : b.same c = true) : a.same c = true := by
  -- on the sizes of both ends: members of unions are compared the other way around
  induction hn : sizeOf a + sizeOf c using Nat.strongRecOn generalizing a b c with
  | ind n ih =>
    subst hn
    cases a with
    | named handle =>
      obtain ⟨other, rfl, hother⟩ := exists_of_same_named h
      obtain ⟨third, rfl, hthird⟩ := exists_of_same_named h'
      rw [ClassHandle.same, beq_iff_eq] at hother hthird
      rw [same_named, ClassHandle.same, beq_iff_eq, hother, hthird]
    | optional inner =>
      obtain ⟨other, rfl, hother⟩ := exists_of_same_optional h
      obtain ⟨third, rfl, hthird⟩ := exists_of_same_optional h'
      rw [same_optional]
      exact ih _ (by simp only [optional.sizeOf_spec]; omega) hother hthird rfl
    | union members =>
      obtain ⟨others, rfl, hothers⟩ := exists_of_same_union h
      obtain ⟨thirds, rfl, hthirds⟩ := exists_of_same_union h'
      refine same_union_iff.mpr (hothers.trans hthirds fun x hx y _ z hz hyx hzy => ?_)
      have hlt := sizeOf_lt_union hx
      have hlt' := sizeOf_lt_union hz
      exact ih _ (by omega) hzy hyx rfl
    | list item =>
      obtain ⟨other, rfl, hother⟩ := exists_of_same_list h
      obtain ⟨third, rfl, hthird⟩ := exists_of_same_list h'
      rw [same_list]
      exact ih _ (by simp only [list.sizeOf_spec]; omega) hother hthird rfl
    | set item =>
      obtain ⟨other, rfl, hother⟩ := exists_of_same_set h
      obtain ⟨third, rfl, hthird⟩ := exists_of_same_set h'
      rw [same_set]
      exact ih _ (by simp only [set.sizeOf_spec]; omega) hother hthird rfl
    | dict key value =>
      obtain ⟨key', value', rfl, hkey, hvalue⟩ := exists_of_same_dict h
      obtain ⟨key'', value'', rfl, hkey', hvalue'⟩ := exists_of_same_dict h'
      rw [same_dict, ih _ (by simp only [dict.sizeOf_spec]; omega) hkey hkey' rfl,
        ih _ (by simp only [dict.sizeOf_spec]; omega) hvalue hvalue' rfl, Bool.true_and]
    | tuple items =>
      obtain ⟨others, rfl, hothers⟩ := exists_of_same_tuple h
      obtain ⟨thirds, rfl, hthirds⟩ := exists_of_same_tuple h'
      rw [same_tuple, sameAll_iff]
      refine Value.forall₂_trans hothers hthirds fun x hx y _ z hz hxy hyz => ?_
      have hlt := sizeOf_lt_tuple hx
      have hlt' := sizeOf_lt_tuple hz
      exact ih _ (by omega) hxy hyz rfl
    | any =>
      obtain rfl := eq_of_same_any h
      exact h'

/-- Pairwise different members have no counterpart in common. -/
theorem pairwise_apart {members others : List FieldType}
    (hdistinct : members.Pairwise fun a later => later.same a = false)
    (hsymm : ∀ x ∈ members, ∀ y ∈ others, x.same y = true → y.same x = true) :
    members.Pairwise fun x later => ∀ y ∈ others, x.same y = true → ¬ later.same y = true := by
  refine hdistinct.imp_of_mem fun {x later} hx _ hne y hy hxy hlatery => ?_
  rw [same_trans hlatery (hsymm x hx y hy hxy)] at hne
  cases hne

/-- **Equality is symmetric where the members of unions are different.** They cannot share a
counterpart, so every member of the other union is a counterpart. -/
theorem DistinctMembers.same_symm (ha : a.DistinctMembers) (hb : b.DistinctMembers)
    (h : a.same b = true) : b.same a = true := by
  -- on both sizes, as members of unions are compared the other way around
  induction hn : sizeOf a + sizeOf b using Nat.strongRecOn generalizing a b with
  | ind n ih =>
    subst hn
    cases ha with
    | named handle =>
      obtain ⟨other, rfl, hother⟩ := exists_of_same_named h
      rw [ClassHandle.same, beq_iff_eq] at hother
      rw [same_named, ClassHandle.same, beq_iff_eq, hother]
    | optional hinner =>
      obtain ⟨other, rfl, hother⟩ := exists_of_same_optional h
      cases hb with | optional hinner' =>
      rw [same_optional]
      exact ih _ (by simp only [optional.sizeOf_spec]; omega) hinner hinner' hother rfl
    | @union members hdistinct hmembers =>
      obtain ⟨others, rfl, hothers⟩ := exists_of_same_union h
      cases hb with | union _ hmembers' =>
      have hturn : ∀ x ∈ members, ∀ y ∈ others, y.same x = true → x.same y = true := by
        intro x hx y hy hyx
        have hlt := sizeOf_lt_union hx
        have hlt' := sizeOf_lt_union hy
        exact ih _ (by omega) (hmembers' y hy) (hmembers x hx) hyx rfl
      -- two members with one counterpart would be equal to each other
      refine same_union_iff.mpr (hothers.symm ?_ hturn)
      exact hdistinct.imp_of_mem fun {x later} _ hlater hne y hy hyx hylater => by
        rw [same_trans (hturn later hlater y hy hylater) hyx] at hne
        cases hne
    | list hitem =>
      obtain ⟨other, rfl, hother⟩ := exists_of_same_list h
      cases hb with | list hitem' =>
      rw [same_list]
      exact ih _ (by simp only [list.sizeOf_spec]; omega) hitem hitem' hother rfl
    | set hitem =>
      obtain ⟨other, rfl, hother⟩ := exists_of_same_set h
      cases hb with | set hitem' =>
      rw [same_set]
      exact ih _ (by simp only [set.sizeOf_spec]; omega) hitem hitem' hother rfl
    | dict hkeyDistinct hvalueDistinct =>
      obtain ⟨key', value', rfl, hkey, hvalue⟩ := exists_of_same_dict h
      cases hb with | dict hkeyDistinct' hvalueDistinct' =>
      rw [same_dict, ih _ (by simp only [dict.sizeOf_spec]; omega) hkeyDistinct hkeyDistinct' hkey rfl,
        ih _ (by simp only [dict.sizeOf_spec]; omega) hvalueDistinct hvalueDistinct' hvalue rfl,
        Bool.true_and]
    | @tuple items hitems =>
      obtain ⟨others, rfl, hothers⟩ := exists_of_same_tuple h
      cases hb with | tuple hitems' =>
      rw [same_tuple, sameAll_iff]
      refine Value.forall₂_symm hothers fun x hx y hy hxy => ?_
      have hlt := sizeOf_lt_tuple hx
      have hlt' := sizeOf_lt_tuple hy
      exact ih _ (by omega) (hitems x hx) (hitems' y hy) hxy rfl
    | any =>
      obtain rfl := eq_of_same_any h
      exact h

/-- The members of equal unions, paired off in the order of the unions. -/
theorem DistinctMembers.matches_of_same {members others : List FieldType}
    (ha : (FieldType.union members).DistinctMembers)
    (hb : (FieldType.union others).DistinctMembers)
    (h : (FieldType.union members).same (.union others) = true) :
    Matches (fun a b => a.same b = true) members others := by
  obtain ⟨hlength, hmatches⟩ := same_union_iff.mp h
  cases ha with | union _ hmembers =>
  cases hb with | union _ hmembers' =>
  refine ⟨hlength, fun member hmem => ?_⟩
  obtain ⟨other, hother, hsame⟩ := hmatches member hmem
  exact ⟨other, hother, (hmembers' other hother).same_symm (hmembers member hmem) hsame⟩

/-- **Between normal forms equality is symmetric.** -/
theorem Normal.same_symm (ha : a.Normal) (hb : b.Normal) (h : a.same b = true) :
    b.same a = true := ha.distinctMembers.same_symm hb.distinctMembers h

end ObjectMapping.FieldType
