import ObjectMapping.Proofs.Conversion.Direct
import ObjectMapping.Proofs.Value.Conformance

/-! # Conversions of conforming values are safe

A conversion between two types never fails for want of a field, an element or a method, as long as
its value conforms to the source type. It may still fail where objects are made, because a value is
rejected.

* `Error.isRejection`: the errors that say that a value is missing or not accepted.
* **`Conversion.direct_safe`** — a conversion of a conforming value fails with rejections only, if
  the objects that it asks for do. -/

namespace ObjectMapping

open Outcome

/-- Whether an error rejects the values at hand: a missing item of the caller's values, arguments
that a constructor does not take, or the complaint of a validator. -/
def Error.isRejection : Error → Bool
  | .raised _ | .construction .. | .validation .. => true
  | _ => false

/-- The outcome is a value or a rejection. -/
abbrev Safe {α : Type} (x : Except Error α) : Prop :=
  Outcome.Meets (fun e => e.isRejection = true) (fun _ => True) x

/-- The position of a tuple, as far as machine integers number it. -/
theorem Value.subscript_tuple {items : List Value} {position : Nat} {v : Value}
    (hbound : items.length < Nat.pow 2 63) (hv : items[position]? = some v) :
    (Value.tuple items).subscript (.int (.ofInt position)) = .ok v := by
  have hlt : position < items.length := (List.getElem?_eq_some_iff.mp hv).1
  have hpow : Nat.pow 2 63 = 9223372036854775808 := rfl
  have hint : (Int64.ofInt position).toInt = position :=
    Int64.toInt_ofInt_of_le (by omega) (by omega)
  have hnonneg : ¬ Int64.ofInt position < 0 := by
    rw [Int64.lt_iff_toInt_lt, hint, Int64.toInt_zero]
    omega
  have hnat : (Int64.ofInt position).toNatClampNeg = position := by
    rw [Int64.toNatClampNeg, hint, Int.toNat_natCast]
  have hfound : (Value.tuple items).subscript? (.int (.ofInt position)) = some v := by
    rw [Value.subscript?, if_neg hnonneg, hnat, hv]
  rw [Value.subscript, hfound]

namespace Conversion

variable {D : Declarations} {methods : MethodTable}
  {create : Value → ClassHandle → Except Error Value}

/-- Objects are made safely of all conforming values up to a height, where the methods say that they
can be made. -/
def CreatesSafely (D : Declarations) (methods : MethodTable)
    (create : Value → ClassHandle → Except Error Value) (height : Nat) : Prop :=
  ∀ s t v, methods s t .create = true → D.Conforms (.named s) v → v.height ≤ height →
    Safe (create v t)

/-- Creating that is safe for high values is so for lower ones. -/
theorem CreatesSafely.mono {low high : Nat} (h : CreatesSafely D methods create high)
    (hle : low ≤ high) : CreatesSafely D methods create low :=
  fun s t v hmethod hv hheight => h s t v hmethod hv (Nat.le_trans hheight hle)

/-- Converting the elements of a collection is safe if converting each of them is. -/
theorem eachElement_safe {convert : Value → Except Error Value} {v : Value} {items : List Value}
    (h : v.elements = .ok items) (hconvert : ∀ item ∈ items, Safe (convert item)) :
    Safe (eachElement convert (.ok v)) := by
  rw [eachElement, ok_bind, h, ok_bind]
  exact meets_mapM hconvert

/-- The positions of a tuple, given the same for the type of each of them. -/
theorem directAll_safe {ss ts : List FieldType} {code : Expr} {codes : List Expr}
    {items : List Value} {position depth : Nat}
    (heach : ∀ t ∈ ts, ∀ {s : FieldType} {v : Value} {code result : Expr} {depth : Nat},
      express methods s code depth t = .ok result → D.Conforms s v →
        CreatesSafely D methods create v.height → Safe (direct create s (.ok v) t))
    (h : expressAll methods ss code position depth ts = .ok codes)
    (hbound : items.length < Nat.pow 2 63) (hlength : ss.length = (items.drop position).length)
    (hitems : ∀ pair ∈ ss.zip (items.drop position), D.Conforms pair.1 pair.2)
    (hcreate : CreatesSafely D methods create (Value.tuple items).height) :
    Safe (directAll create ss (.ok (.tuple items)) position ts) := by
  induction ts generalizing ss position codes with
  | nil =>
    rw [directAll_nil]
    exact trivial
  | cons t ts ih =>
    cases ss with
    | nil =>
      rw [directAll_nil_left]
      exact trivial
    | cons s ss =>
      obtain ⟨item, rest, hitem, hrest, rfl⟩ := expressAll_cons_iff.mp h
      -- there is an item at the position because as many items are left as source types
      have hlt : position < items.length := by
        rw [List.length_drop, List.length_cons] at hlength
        omega
      have hdrop := List.drop_eq_getElem_cons hlt
      rw [hdrop, List.zip_cons_cons] at hitems
      rw [hdrop, List.length_cons, List.length_cons] at hlength
      rw [directAll, ok_bind, Value.subscript_tuple hbound (List.getElem?_eq_getElem hlt)]
      have hheight : items[position].height < (Value.tuple items).height :=
        Value.height_lt_of_mem_elements (Value.elements_tuple items) (List.getElem_mem hlt)
      have hhead := heach t List.mem_cons_self hitem (hitems _ List.mem_cons_self)
        (hcreate.mono (Nat.le_of_lt hheight))
      refine hhead.bind ?_
      intro _ _
      have htail := ih (fun t' ht' => heach t' (List.mem_cons_of_mem _ ht')) hrest
        (by omega) fun pair hmem => hitems pair (List.mem_cons_of_mem _ hmem)
      exact htail.bind fun _ _ => trivial

/-- **A conversion of a conforming value is safe.** -/
theorem direct_safe {source target : FieldType} {code result : Expr} {depth : Nat} {v : Value}
    (h : express methods source code depth target = .ok result) (hv : D.Conforms source v)
    (hcreate : CreatesSafely D methods create v.height) :
    Safe (direct create source (.ok v) target) := by
  -- the rule for the target type tells the source type, and so what a conforming value looks like
  induction target generalizing source v code result depth with
  | named t =>
    obtain ⟨s, rfl, ⟨hsame, -⟩ | ⟨hne, hmethod, -⟩⟩ := express_named_iff.mp h
    · rw [direct_named_same hsame]
      exact trivial
    · rw [direct_named_of_ne hne]
      exact hcreate s t v hmethod hv (Nat.le_refl _)
  | optional t ih =>
    obtain ⟨s, inner, rfl, hinner, -⟩ | ⟨hpresent, hcode⟩ := express_optional_iff.mp h
    · rw [direct_optional_of_optional, ok_bind]
      cases hnone : v.isNone with
      | true => exact trivial
      | false => exact ih hinner (hv.strip hnone) hcreate
    · rw [direct_optional_of_present hpresent]
      exact ih hcode hv hcreate
  | union members =>
    obtain ⟨-, ⟨s, rfl, -⟩ | ⟨arms, rfl, -⟩⟩ := express_union_iff.mp h
    · rw [direct_union_of_named]
      exact trivial
    · rw [direct_union_of_union]
      exact trivial
  | list t ih =>
    obtain ⟨s, element, rfl, helement, -⟩ := express_list_iff.mp h
    cases hv with
    | list hitems =>
      rw [direct]
      refine (eachElement_safe (Value.elements_list _) ?_).bind fun _ _ => trivial
      intro item hmem
      have hlt := Value.height_lt_of_mem_elements (Value.elements_list _) hmem
      exact ih helement (hitems item hmem) (hcreate.mono (Nat.le_of_lt hlt))
  | set t ih =>
    obtain ⟨s, element, rfl, helement, -⟩ := express_set_iff.mp h
    cases hv with
    | set hitems =>
      rw [direct]
      refine (eachElement_safe (Value.elements_set _) ?_).bind fun _ _ => trivial
      intro item hmem
      have hlt := Value.height_lt_of_mem_elements (Value.elements_set _) hmem
      exact ih helement (hitems item hmem) (hcreate.mono (Nat.le_of_lt hlt))
  | dict tk tv ihk ihv =>
    obtain ⟨sk, sv, key, element, rfl, hkey, helement, -⟩ := express_dict_iff.mp h
    cases hv with
    | dict hkeys hvalues =>
      rw [direct, eachEntry, ok_bind, Value.entries_dict, ok_bind]
      refine Meets.bind (Q := fun _ => True) (meets_mapM ?_) fun _ _ => trivial
      intro entry hmem
      have hlt := Value.height_lt_of_mem_entries (Value.entries_dict _) hmem
      refine (ihk hkey (hkeys entry hmem) (hcreate.mono (Nat.le_of_lt hlt.1))).bind ?_
      intro _ _
      exact (ihv helement (hvalues entry hmem) (hcreate.mono (Nat.le_of_lt hlt.2))).bind
        fun _ _ => trivial
  | tuple ts ih =>
    obtain ⟨ss, codes, rfl, -, hcodes, -⟩ := express_tuple_iff.mp h
    cases hv with
    | tuple hlength hbound hitems =>
      rw [direct]
      exact (directAll_safe (fun t ht _ _ _ _ _ hcode hs hcreate => ih t ht hcode hs hcreate) hcodes
        hbound hlength hitems hcreate).bind fun _ _ => trivial
  | any =>
    rw [direct_any]
    exact trivial

end Conversion

end ObjectMapping
