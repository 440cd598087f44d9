import ObjectMapping.Proofs.Conversion.Elementwise
import ObjectMapping.Proofs.Value.Mirrors

/-! # Conversions between twins

A conversion between corresponding types succeeds for every value of the source type, and gives a
value of the target type that mirrors it, as long as this is so where objects are made. No element of
a set and no entry of a dictionary is lost, since what mirrors different values is different.

* `Conversion.Reflects`: a well-formed value of the target type that mirrors a well-formed value.
* `Conversion.Creates`: the twins of objects up to a height are made.
* **`Conversion.exists_direct`** — every value of the source type is converted. -/

namespace ObjectMapping.Conversion

open Outcome

/-- A value of the target type that mirrors a value of the source type. -/
structure Reflects (D : Declarations) (family : Family) (s t : FieldType) (v w : Value) : Prop where
  source : v.WellFormed
  wellFormed : w.WellFormed
  conforms : D.Conforms t w
  mirrors : Value.Mirrors family s t v w

variable {D : Declarations} {family : Family} {s t : FieldType} {v w v' w' : Value}
  {create : Value → ClassHandle → Except Error Value}

/-- Different values are reflected in different values. -/
theorem Reflects.differs (hfamily : family.Alike) (h : Reflects D family s t v w)
    (h' : Reflects D family s t v' w') (hne : v'.same v = false) : w'.same w = false :=
  h.mirrors.differs hfamily h'.mirrors h.source h'.source h.wellFormed h'.wellFormed hne

/-! ## Collections -/

section Collections

variable {items others : List Value}

/-- What values are reflected in is well-formed. -/
theorem wellFormed_of_reflects (h : List.Forall₂ (Reflects D family s t) items others) :
    ∀ w ∈ others, w.WellFormed := by
  intro w hw
  obtain ⟨v, -, hv⟩ := exists_of_forall₂ h.flip hw
  exact hv.wellFormed

/-- What values are reflected in is of the second type. -/
theorem conforms_of_reflects (h : List.Forall₂ (Reflects D family s t) items others) :
    ∀ w ∈ others, D.Conforms t w := by
  intro w hw
  obtain ⟨v, -, hv⟩ := exists_of_forall₂ h.flip hw
  exact hv.conforms

/-- What values are reflected in mirrors them, position by position. -/
theorem mirrors_of_reflects (h : List.Forall₂ (Reflects D family s t) items others) (i : Nat)
    (v w : Value) (hv : items[i]? = some v) (hw : others[i]? = some w) :
    Value.Mirrors family s t v w :=
  ((forall₂_iff_getElem?.mp h).2 i v w hv hw).mirrors

/-- A list is reflected in the list of what its elements are reflected in. -/
theorem Reflects.list (hsource : (Value.list items).WellFormed)
    (h : List.Forall₂ (Reflects D family s t) items others) :
    Reflects D family (.list s) (.list t) (.list items) (.list others) where
  source := hsource
  wellFormed := .of_parts trivial (wellFormed_of_reflects h)
  conforms := .list (conforms_of_reflects h)
  mirrors := .list h.length_eq (mirrors_of_reflects h)

/-- No element is lost. -/
theorem Reflects.set (hfamily : family.Alike) (hsource : (Value.set items).WellFormed)
    (h : List.Forall₂ (Reflects D family s t) items others) :
    Reflects D family (.set s) (.set t) (.set items) (.set (Keyed.distinct others)) := by
  have hdistinct : others.Pairwise fun w later => later.same w = false :=
    Value.pairwise_of_differs (Reflects.differs hfamily) h hsource.here
  rw [Keyed.distinct_of_pairwise hdistinct]
  exact ⟨hsource, .of_parts hdistinct (wellFormed_of_reflects h), .set (conforms_of_reflects h),
    .set h.length_eq (mirrors_of_reflects h)⟩

/-- No entry is lost. -/
theorem Reflects.dict {s' t' : FieldType} (hfamily : family.Alike)
    {entries others : List (Value × Value)} (hsource : (Value.dict entries).WellFormed)
    (h : List.Forall₂ (fun entry other : Value × Value =>
      Reflects D family s t entry.1 other.1 ∧ Reflects D family s' t' entry.2 other.2)
      entries others) :
    Reflects D family (.dict s s') (.dict t t') (.dict entries) (.dict (Keyed.ofList others)) := by
  have hkeys : List.Forall₂ (Reflects D family s t) (entries.map (·.1)) (others.map (·.1)) := by
    rw [List.forall₂_map_left_iff, List.forall₂_map_right_iff]
    exact h.imp fun _ _ hentry => hentry.1
  have hvalues : List.Forall₂ (Reflects D family s' t') (entries.map (·.2)) (others.map (·.2)) := by
    rw [List.forall₂_map_left_iff, List.forall₂_map_right_iff]
    exact h.imp fun _ _ hentry => hentry.2
  have hdistinct : (others.map (·.1)).Pairwise fun w later => later.same w = false :=
    Value.pairwise_of_differs (Reflects.differs hfamily) hkeys hsource.here
  have hplaces := (forall₂_iff_getElem?.mp h).2
  rw [Keyed.ofList_of_pairwise hdistinct]
  refine ⟨hsource, .of_parts hdistinct (List.forall_mem_append.mpr
    ⟨wellFormed_of_reflects hkeys, wellFormed_of_reflects hvalues⟩), .dict ?_ ?_,
    .dict h.length_eq (fun i entry other hentry hother => ?_) fun i entry other hentry hother => ?_⟩
  · exact fun other hother => conforms_of_reflects hkeys _ (List.mem_map_of_mem hother)
  · exact fun other hother => conforms_of_reflects hvalues _ (List.mem_map_of_mem hother)
  · exact (hplaces i entry other hentry hother).1.mirrors
  · exact (hplaces i entry other hentry hother).2.mirrors

/-- A tuple is reflected in the tuple of what its items are reflected in. -/
theorem Reflects.tuple {ss ts : List FieldType} (hss : ss.length = items.length)
    (hts : ss.length = ts.length) (hbound : items.length < Nat.pow 2 63)
    (hsource : (Value.tuple items).WellFormed)
    (h : List.Forall₂ (fun entry w => Reflects D family entry.1.1 entry.1.2 entry.2 w)
      (positions ss ts items) others) :
    Reflects D family (.tuple ss) (.tuple ts) (.tuple items) (.tuple others) := by
  obtain ⟨hlength, hplaces⟩ := forall₂_iff_getElem?.mp h
  rw [List.length_zip, List.length_zip] at hlength
  refine ⟨hsource, .of_parts trivial fun w hw => ?_,
    .tuple (by omega) (by omega) fun pair hpair => ?_,
    .tuple hss (by omega) (by omega) fun i s t v w hs ht hv hw => ?_⟩
  · obtain ⟨entry, -, hentry⟩ := exists_of_forall₂ h.flip hw
    exact hentry.wellFormed
  · obtain ⟨s, v, hv⟩ := exists_position hss hts h hpair
    exact hv.conforms
  · exact (hplaces i _ w (getElem?_positions.mpr ⟨hs, ht, hv⟩) hw).mirrors

end Collections

/-! ## Conversions -/

/-- A value of the source type is converted to one that mirrors it. -/
def Converts (D : Declarations) (family : Family)
    (create : Value → ClassHandle → Except Error Value) (s t : FieldType) (v : Value) : Prop :=
  ∃ w, direct create s (.ok v) t = .ok w ∧ Reflects D family s t v w

/-- The twins of objects up to a height are made. -/
def Creates (D : Declarations) (family : Family)
    (create : Value → ClassHandle → Except Error Value) (height : Nat) : Prop :=
  ∀ pair ∈ family, ∀ s t : ClassHandle, s.id = pair.first.handle.id → t.id = pair.second.handle.id →
    ∀ v, D.Conforms (.named s) v → v.WellFormed → v.height ≤ height →
      ∃ w, create v t = .ok w ∧ Reflects D family (.named s) (.named t) v w

/-- Creating that reflects high values reflects lower ones. -/
theorem Creates.mono {low high : Nat} (h : Creates D family create high) (hle : low ≤ high) :
    Creates D family create low :=
  fun pair hpair s t hs ht v hv hwellFormed hheight =>
    h pair hpair s t hs ht v hv hwellFormed (Nat.le_trans hheight hle)

/-- Parts are lower than the whole. -/
theorem Creates.part {part : Value} (h : Creates D family create v.height) (hpart : part ∈ v.parts) :
    Creates D family create part.height :=
  h.mono (Nat.le_of_lt (Value.height_lt_of_mem_parts hpart))

/-- What stays as it is mirrors itself. -/
theorem Converts.unchanged (hwellFormed : v.WellFormed)
    (hdirect : direct create s (.ok v) t = .ok v) (hconforms : D.Conforms t v)
    (hmirrors : Value.Mirrors family s t v v) : Converts D family create s t v :=
  ⟨v, hdirect, hwellFormed, hwellFormed, hconforms, hmirrors⟩

section Collections

variable {items : List Value}

/-- A list is converted to its reflection if its elements are. -/
theorem converts_list (hwellFormed : (Value.list items).WellFormed)
    (h : ∀ v ∈ items, Converts D family create s t v) :
    Converts D family create (.list s) (.list t) (.list items) := by
  obtain ⟨others, hothers⟩ := exists_forall₂ h
  exact ⟨.list others, direct_list_of_forall₂ (hothers.imp fun _ _ hw => hw.1),
    .list hwellFormed (hothers.imp fun _ _ hw => hw.2)⟩

/-- A set is converted to its reflection if its elements are, since they stay different. -/
theorem converts_set (hfamily : family.Alike) (hwellFormed : (Value.set items).WellFormed)
    (h : ∀ v ∈ items, Converts D family create s t v) :
    Converts D family create (.set s) (.set t) (.set items) := by
  obtain ⟨others, hothers⟩ := exists_forall₂ h
  exact ⟨.set (Keyed.distinct others), direct_set_of_forall₂ (hothers.imp fun _ _ hw => hw.1),
    .set hfamily hwellFormed (hothers.imp fun _ _ hw => hw.2)⟩

/-- A dictionary is converted to its reflection if its keys and values are, since keys stay
different. -/
theorem converts_dict {s' t' : FieldType} (hfamily : family.Alike)
    {entries : List (Value × Value)} (hwellFormed : (Value.dict entries).WellFormed)
    (hkeys : ∀ entry ∈ entries, Converts D family create s t entry.1)
    (hvalues : ∀ entry ∈ entries, Converts D family create s' t' entry.2) :
    Converts D family create (.dict s s') (.dict t t') (.dict entries) := by
  have hentries : ∀ entry ∈ entries, ∃ other : Value × Value,
      (direct create s (.ok entry.1) t = .ok other.1 ∧
        direct create s' (.ok entry.2) t' = .ok other.2) ∧
      Reflects D family s t entry.1 other.1 ∧ Reflects D family s' t' entry.2 other.2 := by
    intro entry hentry
    obtain ⟨k, hk, hkey⟩ := hkeys entry hentry
    obtain ⟨v, hv, hvalue⟩ := hvalues entry hentry
    exact ⟨(k, v), ⟨hk, hv⟩, hkey, hvalue⟩
  obtain ⟨others, hothers⟩ := exists_forall₂ hentries
  exact ⟨.dict (Keyed.ofList others), direct_dict_of_forall₂ (hothers.imp fun _ _ hw => hw.1),
    .dict hfamily hwellFormed (hothers.imp fun _ _ hw => hw.2)⟩

/-- A tuple is converted to its reflection if its items are. -/
theorem converts_tuple {ss ts : List FieldType} (hss : ss.length = items.length)
    (hts : ss.length = ts.length) (hbound : items.length < Nat.pow 2 63)
    (hwellFormed : (Value.tuple items).WellFormed)
    (h : ∀ entry ∈ positions ss ts items, Converts D family create entry.1.1 entry.1.2 entry.2) :
    Converts D family create (.tuple ss) (.tuple ts) (.tuple items) := by
  obtain ⟨others, hothers⟩ := exists_forall₂ h
  exact ⟨.tuple others,
    direct_tuple_of_forall₂ hbound hss hts (hothers.imp fun _ _ hw => hw.1),
    .tuple hss hts hbound hwellFormed (hothers.imp fun _ _ hw => hw.2)⟩

end Collections

/-- **Every value is converted between corresponding types**, if the twins of objects are made. -/
theorem exists_direct (hfamily : family.Alike) (htypes : s.Corresponds family t)
    (hv : D.Conforms s v) (hwellFormed : v.WellFormed)
    (hcreates : Creates D family create v.height) : Converts D family create s t v := by
  -- twins are made as they are found; all other types hand the claim on to the parts of the value
  induction htypes generalizing v with
  | any => exact .unchanged hwellFormed direct_any (.any v) (.any v)
  | named hid =>
    refine .unchanged hwellFormed (direct_named_same (beq_iff_eq.mpr hid)) (hv.of_id_eq hid.symm)
      (.named hid v)
  | twins hpair hs ht =>
    have hne := hfamily.apart hpair hpair
    rw [← hs, ← ht] at hne
    obtain ⟨w, hcreate, hreflects⟩ := hcreates _ hpair _ _ hs ht v hv hwellFormed (Nat.le_refl _)
    refine ⟨w, ?_, hreflects⟩
    rw [direct_named_of_ne (beq_eq_false_iff_ne.mpr hne), ok_bind, hcreate]
  | union hclasses _ =>
    refine .unchanged hwellFormed direct_union_of_union ?_ (.union _ _ v)
    cases hv with
    | union hmember hvalue =>
      obtain ⟨s, t, rfl, hother, hid⟩ := hclasses _ hmember
      exact .union hother (hvalue.of_id_eq hid.symm)
  | @optional s t _ ih =>
    cases hnone : v.isNone with
    | true =>
      obtain rfl := Value.eq_none_of_isNone hnone
      refine ⟨.none, ?_, hwellFormed, hwellFormed, .none t, .none s t⟩
      rw [direct_optional_of_optional, ok_bind, hnone]
      rfl
    | false =>
      obtain ⟨w, hdirect, hreflects⟩ := ih (hv.strip hnone) hwellFormed hcreates
      refine ⟨w, ?_, hwellFormed, hreflects.wellFormed, .some hreflects.conforms,
        .some hreflects.mirrors⟩
      rw [direct_optional_of_optional, ok_bind, hnone]
      exact hdirect
  | list _ ih =>
    cases hv with
    | list hitems =>
      refine converts_list hwellFormed fun v hv => ?_
      exact ih (hitems v hv) (hwellFormed.part hv) (hcreates.part hv)
  | set _ ih =>
    cases hv with
    | set hitems =>
      refine converts_set hfamily hwellFormed fun v hv => ?_
      exact ih (hitems v hv) (hwellFormed.part hv) (hcreates.part hv)
  | dict _ _ ihkey ihvalue =>
    cases hv with
    | dict hkeys hvalues =>
      refine converts_dict hfamily hwellFormed (fun entry hentry => ?_) fun entry hentry => ?_
      · have hpart := Value.key_mem_parts hentry
        exact ihkey (hkeys entry hentry) (hwellFormed.part hpart) (hcreates.part hpart)
      · have hpart := Value.value_mem_parts hentry
        exact ihvalue (hvalues entry hentry) (hwellFormed.part hpart) (hcreates.part hpart)
  | tuple hlength _ ih =>
    cases hv with
    | tuple hss hbound hitems =>
      refine converts_tuple hss hlength hbound hwellFormed (forall_positions ?_)
      intro i s t v hs ht hv
      have hpart := (List.of_mem_zip hv).2
      exact ih i s t hs ht (hitems (s, v) hv) (hwellFormed.part hpart) (hcreates.part hpart)

end ObjectMapping.Conversion
