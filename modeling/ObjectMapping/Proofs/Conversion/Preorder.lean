import ObjectMapping.Proofs.Conversion.Pairing
import ObjectMapping.Proofs.FieldType.Normal

/-! # The preorder of types

Without methods an object is converted to its own class only, so a conversion can do no more than
forget: an optional type or a union takes what has been known more exactly, and `any` takes it all.
Types are then in a preorder, though `any`, optional types and unions interplay.

* `convertible_list_iff` and its like: when there is a conversion, shape by shape.
* **`Convertible.refl`** — every type is converted to itself.
* **`Convertible.trans`** — without methods conversions can be put together. -/

namespace ObjectMapping

open Outcome

/-- The table without methods. -/
def MethodTable.none : MethodTable := fun _ _ _ => false

namespace Conversion

variable {methods : MethodTable} {source target : FieldType}

/-! ## When there is a conversion -/

/-- Types between which there is a conversion have code for it. -/
theorem Convertible.exists_code (h : Convertible methods source target) :
    ∃ code, express methods source .self 0 target = .ok code :=
  h .self 0

/-- Every type is converted to any type. -/
theorem convertible_any : Convertible methods source .any :=
  fun value _ => ⟨value, express_any_iff.mpr rfl⟩

/-- Without methods an object is one of its own class only. -/
theorem convertible_named_iff {t : ClassHandle} :
    Convertible .none source (.named t) ↔ ∃ s, source = .named s ∧ s.same t = true := by
  constructor
  · intro h
    obtain ⟨code, hcode⟩ := h.exists_code
    obtain ⟨s, rfl, ⟨hsame, -⟩ | ⟨-, hmethod, -⟩⟩ := express_named_iff.mp hcode
    · exact ⟨s, rfl, hsame⟩
    · cases hmethod
  · rintro ⟨s, rfl, hsame⟩ value depth
    exact ⟨value, express_named_iff.mpr ⟨s, rfl, .inl ⟨hsame, rfl⟩⟩⟩

/-- Into a union go the objects of its members, and the unions that it includes. -/
theorem convertible_union_iff {members : List FieldType} :
    Convertible methods source (.union members) ↔
      (∃ s, source = .named s ∧ members.any (·.same source) = true) ∨
        ∃ arms, source = .union arms ∧ FieldType.included arms members = true := by
  constructor
  · intro h
    obtain ⟨code, hcode⟩ := h.exists_code
    exact (express_union_iff.mp hcode).2
  · exact fun h value depth => ⟨value, express_union_iff.mpr ⟨rfl, h⟩⟩

/-- Into a list type go list types whose items are converted. -/
theorem convertible_list_iff {t : FieldType} :
    Convertible methods source (.list t) ↔ ∃ s, source = .list s ∧ Convertible methods s t := by
  constructor
  · intro h
    obtain ⟨code, hcode⟩ := h.exists_code
    obtain ⟨s, element, rfl, helement, -⟩ := express_list_iff.mp hcode
    exact ⟨s, rfl, convertible_of_express helement⟩
  · rintro ⟨s, rfl, h⟩ value depth
    obtain ⟨element, helement⟩ := h (.var (loopVar "x" depth)) (depth + 1)
    exact ⟨_, express_list_iff.mpr ⟨s, element, rfl, helement, rfl⟩⟩

/-- Into a set type go set types whose items are converted. -/
theorem convertible_set_iff {t : FieldType} :
    Convertible methods source (.set t) ↔ ∃ s, source = .set s ∧ Convertible methods s t := by
  constructor
  · intro h
    obtain ⟨code, hcode⟩ := h.exists_code
    obtain ⟨s, element, rfl, helement, -⟩ := express_set_iff.mp hcode
    exact ⟨s, rfl, convertible_of_express helement⟩
  · rintro ⟨s, rfl, h⟩ value depth
    obtain ⟨element, helement⟩ := h (.var (loopVar "x" depth)) (depth + 1)
    exact ⟨_, express_set_iff.mpr ⟨s, element, rfl, helement, rfl⟩⟩

/-- Into a dictionary type go dictionary types whose keys and values are converted. -/
theorem convertible_dict_iff {tk tv : FieldType} :
    Convertible methods source (.dict tk tv) ↔
      ∃ sk sv, source = .dict sk sv ∧ Convertible methods sk tk ∧ Convertible methods sv tv := by
  constructor
  · intro h
    obtain ⟨code, hcode⟩ := h.exists_code
    obtain ⟨sk, sv, key, element, rfl, hkey, hvalue, -⟩ := express_dict_iff.mp hcode
    exact ⟨sk, sv, rfl, convertible_of_express hkey, convertible_of_express hvalue⟩
  · rintro ⟨sk, sv, rfl, hkeys, hvalues⟩ value depth
    obtain ⟨key, hkey⟩ := hkeys (.var (loopVar "k" depth)) (depth + 1)
    obtain ⟨element, hvalue⟩ := hvalues (.var (loopVar "v" depth)) (depth + 1)
    exact ⟨_, express_dict_iff.mpr ⟨sk, sv, key, element, rfl, hkey, hvalue, rfl⟩⟩

/-- The positions of a tuple are converted if each of them is. -/
theorem exists_expressAll_iff {ss ts : List FieldType} (hlength : ss.length = ts.length)
    {value : Expr} {position depth : Nat} :
    (∃ items, expressAll methods ss value position depth ts = .ok items) ↔
      List.Forall₂ (Convertible methods) ss ts := by
  induction ts generalizing ss position with
  | nil =>
    obtain rfl : ss = [] := List.length_eq_zero_iff.mp hlength
    exact ⟨fun _ => .nil, fun _ => ⟨[], expressAll_nil⟩⟩
  | cons t ts ih =>
    cases ss with
    | nil => cases hlength
    | cons s ss =>
      have hrest : (∃ items, expressAll methods ss value (position + 1) depth ts = .ok items) ↔
          List.Forall₂ (Convertible methods) ss ts := ih (Nat.succ.inj hlength)
      rw [List.forall₂_cons, ← hrest]
      constructor
      · rintro ⟨items, hitems⟩
        obtain ⟨item, rest, hitem, hothers, -⟩ := expressAll_cons_iff.mp hitems
        exact ⟨convertible_of_express hitem, rest, hothers⟩
      · rintro ⟨hs, rest, hothers⟩
        obtain ⟨item, hitem⟩ := hs (.index value (.int position)) depth
        exact ⟨item :: rest, expressAll_cons_iff.mpr ⟨item, rest, hitem, hothers, rfl⟩⟩

/-- Into a tuple type go tuple types of the same length, position by position. -/
theorem convertible_tuple_iff {ts : List FieldType} :
    Convertible methods source (.tuple ts) ↔
      ∃ ss, source = .tuple ss ∧ List.Forall₂ (Convertible methods) ss ts := by
  constructor
  · intro h
    obtain ⟨code, hcode⟩ := h.exists_code
    obtain ⟨ss, items, rfl, hlength, hitems, -⟩ := express_tuple_iff.mp hcode
    exact ⟨ss, rfl, (exists_expressAll_iff hlength).mp ⟨items, hitems⟩⟩
  · rintro ⟨ss, rfl, h⟩ value depth
    obtain ⟨items, hitems⟩ := (exists_expressAll_iff h.length_eq).mpr h
    exact ⟨_, express_tuple_iff.mpr ⟨ss, items, rfl, h.length_eq, hitems, rfl⟩⟩

/-! ## The preorder of types -/

/-- **Every type is converted to itself**, whatever methods there are. -/
theorem Convertible.refl (type : FieldType) : Convertible methods type type := by
  induction type with
  | any => exact convertible_any
  | named t =>
    exact fun value _ => ⟨value, express_named_iff.mpr ⟨t, rfl, .inl ⟨t.same_self, rfl⟩⟩⟩
  | union members _ =>
    refine convertible_union_iff.mpr (.inr ⟨members, rfl, FieldType.included_iff.mpr ?_⟩)
    exact fun member hmem => ⟨member, hmem, member.same_self⟩
  | list t ih => exact convertible_list_iff.mpr ⟨t, rfl, ih⟩
  | set t ih => exact convertible_set_iff.mpr ⟨t, rfl, ih⟩
  | dict k v ihkey ihvalue => exact convertible_dict_iff.mpr ⟨k, v, rfl, ihkey, ihvalue⟩
  | tuple ts ih => exact convertible_tuple_iff.mpr ⟨ts, rfl, List.forall₂_same.mpr ih⟩
  | optional t ih => exact convertible_optional_iff.mpr ih

/-- A class is among the members of a union if a handle for it is. -/
theorem any_same_named_iff {s : ClassHandle} {members : List FieldType} :
    members.any (·.same (.named s)) = true ↔ ∃ m, .named m ∈ members ∧ m.id = s.id := by
  rw [List.any_eq_true]
  constructor
  · rintro ⟨member, hmember, hsame⟩
    cases member with
    | named m => exact ⟨m, hmember, beq_iff_eq.mp hsame⟩
    | _ => exact absurd hsame Bool.false_ne_true
  · rintro ⟨m, hmember, hid⟩
    exact ⟨.named m, hmember, beq_iff_eq.mpr hid⟩

/-- **Without methods conversions can be put together.** -/
theorem Convertible.trans {a b c : FieldType} (h : Convertible .none a b)
    (h' : Convertible .none b c) : Convertible .none a c := by
  -- the last type decides which shapes the other two can have
  induction c generalizing a b with
  | any => exact convertible_any
  | named u =>
    obtain ⟨t, rfl, ht⟩ := convertible_named_iff.mp h'
    obtain ⟨s, rfl, hs⟩ := convertible_named_iff.mp h
    refine convertible_named_iff.mpr ⟨s, rfl, ?_⟩
    rw [ClassHandle.same, beq_iff_eq] at hs ht ⊢
    exact hs.trans ht
  | union members _ =>
    rw [convertible_union_iff] at h' ⊢
    rcases h' with ⟨t, rfl, hmember⟩ | ⟨arms, rfl, hincluded⟩
    · -- an object of a class among the members
      obtain ⟨s, rfl, hs⟩ := convertible_named_iff.mp h
      obtain ⟨m, hm, hid⟩ := any_same_named_iff.mp hmember
      exact .inl ⟨s, rfl, any_same_named_iff.mpr ⟨m, hm, hid.trans (beq_iff_eq.mp hs).symm⟩⟩
    · rw [FieldType.included_iff] at hincluded
      rcases convertible_union_iff.mp h with ⟨s, rfl, harm⟩ | ⟨arms', rfl, hincluded'⟩
      · -- an object of a class among the arms, each of which is among the members
        obtain ⟨a, ha, hid⟩ := any_same_named_iff.mp harm
        obtain ⟨member, hmember, hsame⟩ := hincluded _ ha
        cases member with
        | named m =>
          have hid' : m.id = s.id := (beq_iff_eq.mp hsame).trans hid
          exact .inl ⟨s, rfl, any_same_named_iff.mpr ⟨m, hmember, hid'⟩⟩
        | _ => exact absurd hsame Bool.false_ne_true
      · -- a union of some of the arms
        refine .inr ⟨arms', rfl, FieldType.included_iff.mpr fun arm' harm' => ?_⟩
        obtain ⟨arm, harm, hsame⟩ := FieldType.included_iff.mp hincluded' arm' harm'
        obtain ⟨member, hmember, hsame'⟩ := hincluded arm harm
        exact ⟨member, hmember, FieldType.same_trans hsame' hsame⟩
  | list u ih =>
    obtain ⟨t, rfl, ht⟩ := convertible_list_iff.mp h'
    obtain ⟨s, rfl, hs⟩ := convertible_list_iff.mp h
    exact convertible_list_iff.mpr ⟨s, rfl, ih hs ht⟩
  | set u ih =>
    obtain ⟨t, rfl, ht⟩ := convertible_set_iff.mp h'
    obtain ⟨s, rfl, hs⟩ := convertible_set_iff.mp h
    exact convertible_set_iff.mpr ⟨s, rfl, ih hs ht⟩
  | dict uk uv ihkey ihvalue =>
    obtain ⟨tk, tv, rfl, htk, htv⟩ := convertible_dict_iff.mp h'
    obtain ⟨sk, sv, rfl, hsk, hsv⟩ := convertible_dict_iff.mp h
    exact convertible_dict_iff.mpr ⟨sk, sv, rfl, ihkey hsk htk, ihvalue hsv htv⟩
  | tuple us ih =>
    obtain ⟨ts, rfl, hts⟩ := convertible_tuple_iff.mp h'
    obtain ⟨ss, rfl, hss⟩ := convertible_tuple_iff.mp h
    have hss' := Value.forall₂_trans hss hts fun s _ t _ u hu hst htu => ih u hu hst htu
    exact convertible_tuple_iff.mpr ⟨ss, rfl, hss'⟩
  | optional u ih =>
    cases b with
    | optional t =>
      have ht := convertible_optional_iff.mp h'
      cases a with
      | optional s => exact convertible_optional_iff.mpr (ih (convertible_optional_iff.mp h) ht)
      | _ => exact (ih ((convertible_optional_of_present rfl).mp h) ht).to_optional
    | _ => exact (ih h ((convertible_optional_of_present rfl).mp h')).to_optional

end Conversion

end ObjectMapping
