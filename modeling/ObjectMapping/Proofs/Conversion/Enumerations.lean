import ObjectMapping.Proofs.Conversion.Elementwise
import ObjectMapping.Proofs.Conversion.Preorder
import ObjectMapping.Proofs.Enumeration

/-! # Conversions of members inside collections

An enum mapping is also what converts the members inside optional values and collections of any
depth. Two types correspond if they agree but for the exchange of one enum class for the other, and
as the mapping takes every member of the source, the conversion between such types takes every value
of the source type.

* `Value.IsMemberOf`: the members of an enum class as values.
* **`FieldType.Exchanges`** — types that agree up to the exchange of two classes.
* **`Value.Holds`** — the values of a type as far as enum classes are concerned.
* **`EnumMapping.Carries`** — every member becomes its image, whatever else may be converted.
* **`EnumMapping.exists_carries`** — every value of the source type is carried to one of the target
  type.
* `convertible_of_exchanges`: there is code for the conversion. -/

namespace ObjectMapping

open Outcome Conversion

/-- Whether a value is a member of exactly this enum class. -/
def Value.IsMemberOf (e : Enumeration) (v : Value) : Prop :=
  ∃ owner name, v = .member owner name ∧ owner.id = e.handle.id ∧ name ∈ e.members

/-- **Types that agree up to the exchange of one class for another.** The class may also be kept, and
so may be every other class; unions and `any` are not looked into. -/
inductive FieldType.Exchanges (source target : ClassHandle) : FieldType → FieldType → Prop
  | exchanged {s t : ClassHandle} (hs : s.id = source.id) (ht : t.id = target.id) :
      Exchanges source target (.named s) (.named t)
  | kept {s t : ClassHandle} (hid : s.id = t.id) : Exchanges source target (.named s) (.named t)
  | any : Exchanges source target .any .any
  | union (members : List FieldType) : Exchanges source target (.union members) (.union members)
  | optional {s t : FieldType} (h : Exchanges source target s t) :
      Exchanges source target (.optional s) (.optional t)
  | list {s t : FieldType} (h : Exchanges source target s t) :
      Exchanges source target (.list s) (.list t)
  | set {s t : FieldType} (h : Exchanges source target s t) :
      Exchanges source target (.set s) (.set t)
  | dict {key key' value value' : FieldType} (hkey : Exchanges source target key key')
      (hvalue : Exchanges source target value value') :
      Exchanges source target (.dict key value) (.dict key' value')
  | tuple {ss ts : List FieldType} (hlength : ss.length = ts.length)
      (h : ∀ (i : Nat) s t, ss[i]? = some s → ts[i]? = some t → Exchanges source target s t) :
      Exchanges source target (.tuple ss) (.tuple ts)

/-- **The values of a type as far as enum classes are concerned**: where the type has one of the enum
classes there is one of its members, and where it has another class there may be anything. The
positions of a tuple are numbered by machine integers. -/
inductive Value.Holds (enums : List Enumeration) : FieldType → Value → Prop
  | named {handle : ClassHandle} {v : Value}
      (h : ∀ e ∈ enums, handle.id = e.handle.id → v.IsMemberOf e) : Holds enums (.named handle) v
  | any (v : Value) : Holds enums .any v
  | union (members : List FieldType) (v : Value) : Holds enums (.union members) v
  | none (inner : FieldType) : Holds enums (.optional inner) .none
  | some {inner : FieldType} {v : Value} (hinner : Holds enums inner v) :
      Holds enums (.optional inner) v
  | list {item : FieldType} {items : List Value} (hitems : ∀ v ∈ items, Holds enums item v) :
      Holds enums (.list item) (.list items)
  | set {item : FieldType} {items : List Value} (hitems : ∀ v ∈ items, Holds enums item v) :
      Holds enums (.set item) (.set items)
  | dict {key value : FieldType} {entries : List (Value × Value)}
      (hkeys : ∀ entry ∈ entries, Holds enums key entry.1)
      (hvalues : ∀ entry ∈ entries, Holds enums value entry.2) :
      Holds enums (.dict key value) (.dict entries)
  | tuple {types : List FieldType} {items : List Value} (hlength : types.length = items.length)
      (hbound : items.length < Nat.pow 2 63)
      (hitems : ∀ pair ∈ types.zip items, Holds enums pair.1 pair.2) :
      Holds enums (.tuple types) (.tuple items)

/-! ## Code -/

/-- **There is code for the conversion** between types that agree up to the exchange of two classes,
if there is a method for these. -/
theorem convertible_of_exchanges {methods : MethodTable} {source target : ClassHandle}
    {S T : FieldType} (hexchanges : S.Exchanges source target T)
    (hmethod : ∀ s t : ClassHandle, s.id = source.id → t.id = target.id →
      methods s t .create = true) : Convertible methods S T := by
  induction hexchanges with
  | @exchanged s t hs ht =>
    intro value depth
    cases hsame : s.same t with
    | true => exact ⟨value, express_named_iff.mpr ⟨s, rfl, .inl ⟨hsame, rfl⟩⟩⟩
    | false =>
      exact ⟨_, express_named_iff.mpr ⟨s, rfl, .inr ⟨hsame, hmethod s t hs ht, rfl⟩⟩⟩
  | @kept s t hid =>
    exact fun value _ => ⟨value, express_named_iff.mpr ⟨s, rfl, .inl ⟨beq_iff_eq.mpr hid, rfl⟩⟩⟩
  | any => exact convertible_any
  | union members => exact .refl _
  | optional _ ih => exact convertible_optional_iff.mpr ih
  | list _ ih => exact convertible_list_iff.mpr ⟨_, rfl, ih⟩
  | set _ ih => exact convertible_set_iff.mpr ⟨_, rfl, ih⟩
  | dict _ _ ihkey ihvalue => exact convertible_dict_iff.mpr ⟨_, _, rfl, ihkey, ihvalue⟩
  | tuple hlength _ ih =>
    exact convertible_tuple_iff.mpr ⟨_, rfl, forall₂_iff_getElem?.mpr ⟨hlength, ih⟩⟩

/-! ## Values -/

namespace EnumMapping

variable {source target : Enumeration} {overrides : EnumOverrides} {m : EnumMapping}

/-- Objects of the target class are made of members of the source as the mapping says. What else is
made, and of what, does not matter. -/
def Follows (source target : Enumeration) (overrides : EnumOverrides)
    (create : Value → ClassHandle → Except Error Value) : Prop :=
  ∀ (owner : ClassHandle) (name : String) (t : ClassHandle), owner.id = source.handle.id →
    name ∈ source.members → t.id = target.handle.id →
    create (.member owner name) t = .ok (.member target.handle (image overrides name))

/-- **A value of one type is carried to one of another**: it is a value of the target type, and the
outcome of every conversion that follows the mapping. -/
structure Carries (source target : Enumeration) (overrides : EnumOverrides) (s t : FieldType)
    (v w : Value) : Prop where
  holds : w.Holds [source, target] t
  direct : ∀ create, Follows source target overrides create → direct create s (.ok v) t = .ok w

variable {s t s' t' : FieldType} {items others : List Value}

/-- The values that are carried over hold members of the two enums, where their type says so. -/
theorem Carries.holds_all
    (h : List.Forall₂ (Carries source target overrides s t) items others) :
    ∀ w ∈ others, w.Holds [source, target] t := by
  intro w hw
  obtain ⟨v, -, hv⟩ := exists_of_forall₂ h.flip hw
  exact hv.holds

/-- Lists are carried over element by element. -/
theorem Carries.list (h : List.Forall₂ (Carries source target overrides s t) items others) :
    Carries source target overrides (.list s) (.list t) (.list items) (.list others) where
  holds := .list (holds_all h)
  direct create hcreate := direct_list_of_forall₂ (h.imp fun _ _ hw => hw.direct create hcreate)

/-- Members with the same image become one element. -/
theorem Carries.set (h : List.Forall₂ (Carries source target overrides s t) items others) :
    Carries source target overrides (.set s) (.set t) (.set items)
      (.set (Keyed.distinct others)) where
  holds := .set fun w hw => holds_all h w (Keyed.mem_of_mem_distinct hw)
  direct create hcreate := direct_set_of_forall₂ (h.imp fun _ _ hw => hw.direct create hcreate)

/-- Of entries whose keys have the same image the last value is left. -/
theorem Carries.dict {entries others : List (Value × Value)}
    (h : List.Forall₂ (fun entry other : Value × Value =>
      Carries source target overrides s t entry.1 other.1 ∧
        Carries source target overrides s' t' entry.2 other.2) entries others) :
    Carries source target overrides (.dict s s') (.dict t t') (.dict entries)
      (.dict (Keyed.ofList others)) := by
  have hholds : ∀ other ∈ others,
      other.1.Holds [source, target] t ∧ other.2.Holds [source, target] t' := by
    intro other hother
    obtain ⟨entry, -, hentry⟩ := exists_of_forall₂ h.flip hother
    exact ⟨hentry.1.holds, hentry.2.holds⟩
  refine ⟨.dict (fun other hother => ?_) (fun other hother => ?_), fun create hcreate =>
    direct_dict_of_forall₂ (h.imp fun _ _ hw =>
      ⟨hw.1.direct create hcreate, hw.2.direct create hcreate⟩)⟩
  · obtain ⟨original, horiginal, heq⟩ := List.mem_map.mp (Keyed.mem_of_mem_ofList hother).1
    exact heq ▸ (hholds original horiginal).1
  · obtain ⟨original, horiginal, heq⟩ := List.mem_map.mp (Keyed.mem_of_mem_ofList hother).2
    exact heq ▸ (hholds original horiginal).2

/-- Tuples are carried over position by position. -/
theorem Carries.tuple {ss ts : List FieldType} (hss : ss.length = items.length)
    (hts : ss.length = ts.length) (hbound : items.length < Nat.pow 2 63)
    (h : List.Forall₂ (fun entry w =>
      Carries source target overrides entry.1.1 entry.1.2 entry.2 w)
      (positions ss ts items) others) :
    Carries source target overrides (.tuple ss) (.tuple ts) (.tuple items) (.tuple others) := by
  have hlength := h.length_eq
  rw [List.length_zip, List.length_zip] at hlength
  refine ⟨.tuple (by omega) (by omega) fun pair hpair => ?_, fun create hcreate =>
    direct_tuple_of_forall₂ hbound hss hts (h.imp fun _ _ hw => hw.direct create hcreate)⟩
  obtain ⟨s, v, hv⟩ := exists_position hss hts h hpair
  exact hv.holds

/-- A member becomes its image, unless the two classes are the same one. -/
theorem Sensible.carries_member (h : Sensible source target overrides) {s t : ClassHandle}
    (hs : s.id = source.handle.id) (ht : t.id = target.handle.id) {v : Value}
    (hv : v.Holds [source, target] (.named s)) :
    ∃ w, Carries source target overrides (.named s) (.named t) v w := by
  obtain ⟨hmembers⟩ := hv
  cases hsame : s.same t with
  | true =>
    -- nothing is made then, and members of the source are members of the target
    have hid : t.id = s.id := (beq_iff_eq.mp hsame).symm
    exact ⟨v, .named fun e he hte => hmembers e he (hid.symm.trans hte),
      fun create _ => direct_named_same hsame⟩
  | false =>
    obtain ⟨owner, name, rfl, howner, hname⟩ := hmembers source List.mem_cons_self hs
    refine ⟨.member target.handle (image overrides name), .named fun e he hte => ?_,
      fun create hcreate => ?_⟩
    · -- the classes differ, so an image has to be a member of the target only
      have hne : t.id ≠ source.handle.id :=
        fun heq => beq_eq_false_iff_ne.mp hsame (hs.trans heq.symm)
      obtain rfl | rfl := List.mem_pair.mp he
      · exact absurd hte hne
      · exact ⟨_, _, rfl, rfl, h.image_mem hname⟩
    · rw [direct_named_of_ne hsame, ok_bind, hcreate owner name t howner hname ht]

/-- **Every value of the source type is carried to one of the target type.** -/
theorem Sensible.exists_carries (h : Sensible source target overrides) {S T : FieldType} {v : Value}
    (hexchanges : S.Exchanges source.handle target.handle T) (hv : v.Holds [source, target] S) :
    ∃ w, Carries source target overrides S T v w := by
  -- only classes are exchanged; all other types hand the claim on to the parts of the value
  induction hexchanges generalizing v with
  | exchanged hs ht => exact h.carries_member hs ht hv
  | kept hid =>
    obtain ⟨hmembers⟩ := hv
    exact ⟨v, .named fun e he ht => hmembers e he (hid.trans ht),
      fun create _ => direct_named_same (beq_iff_eq.mpr hid)⟩
  | any => exact ⟨v, .any v, fun create _ => direct_any⟩
  | union members => exact ⟨v, .union members v, fun create _ => direct_union_of_union⟩
  | @optional s t _ ih =>
    cases hnone : v.isNone with
    | true =>
      refine ⟨.none, .none t, fun create _ => ?_⟩
      rw [direct_optional_of_optional, ok_bind, hnone]
      rfl
    | false =>
      have hinner : v.Holds [source, target] s := by
        cases hv with
        | none => cases hnone
        | some hinner => exact hinner
      obtain ⟨w, hw⟩ := ih hinner
      refine ⟨w, .some hw.holds, fun create hcreate => ?_⟩
      rw [direct_optional_of_optional, ok_bind, hnone]
      exact hw.direct create hcreate
  | list _ ih =>
    cases hv with
    | list hitems =>
      obtain ⟨others, hothers⟩ := exists_forall₂ fun v hv => ih (hitems v hv)
      exact ⟨_, .list hothers⟩
  | set _ ih =>
    cases hv with
    | set hitems =>
      obtain ⟨others, hothers⟩ := exists_forall₂ fun v hv => ih (hitems v hv)
      exact ⟨_, .set hothers⟩
  | @dict key key' value value' _ _ ihkey ihvalue =>
    cases hv with
    | @dict _ _ entries hkeys hvalues =>
      have hentries : ∀ entry ∈ entries, ∃ other : Value × Value,
          Carries source target overrides key key' entry.1 other.1 ∧
            Carries source target overrides value value' entry.2 other.2 := by
        intro entry hentry
        obtain ⟨k, hk⟩ := ihkey (hkeys entry hentry)
        obtain ⟨w, hw⟩ := ihvalue (hvalues entry hentry)
        exact ⟨(k, w), hk, hw⟩
      obtain ⟨others, hothers⟩ := exists_forall₂ hentries
      exact ⟨_, .dict hothers⟩
  | @tuple ss ts hlength _ ih =>
    cases hv with
    | @tuple _ items hss hbound hitems =>
      have hpositions : ∀ entry ∈ positions ss ts items,
          ∃ w, Carries source target overrides entry.1.1 entry.1.2 entry.2 w :=
        forall_positions fun i s t v hs ht hv => ih i s t hs ht (hitems (s, v) hv)
      obtain ⟨others, hothers⟩ := exists_forall₂ hpositions
      exact ⟨_, .tuple hss hlength hbound hothers⟩

end EnumMapping

end ObjectMapping
