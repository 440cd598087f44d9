import ObjectMapping.Proofs.Class.Twins
import ObjectMapping.Proofs.Value.Equivalence

/-! # Mirrored values

A value of a class and a value of its twin mirror each other if their fields do, field by field; and
so do collections whose parts mirror each other in the same order. Where types stay as they are, only
the value itself mirrors a value.

* **`Value.Mirrors`** — two values, as values of corresponding types, mirror each other; it is so from
  either side (`Mirrors.symm`).
* **`Value.Mirrors.congr`** — equal values are mirrored by equal values. So nothing collapses: what
  mirrors different values is different (`Mirrors.differs`). -/

namespace ObjectMapping.Value

open Outcome

/-- **Values that mirror each other** as values of two types. -/
inductive Mirrors (family : Family) : FieldType → FieldType → Value → Value → Prop
  | any (v : Value) : Mirrors family .any .any v v
  | named {s t : ClassHandle} (h : s.id = t.id) (v : Value) :
      Mirrors family (.named s) (.named t) v v
  | union (members others : List FieldType) (v : Value) :
      Mirrors family (.union members) (.union others) v v
  | object {pair : Twins} {s t owner owner' : ClassHandle} {fields others : List (String × Value)}
      {assigned assigned' : List String} (hpair : pair ∈ family)
      (hs : s.id = pair.first.handle.id) (ht : t.id = pair.second.handle.id)
      (howner : owner.id = s.id) (howner' : owner'.id = t.id)
      (hnames : (fields.map (·.1)).Perm (pair.names.map (·.1)))
      (hnames' : (others.map (·.1)).Perm (pair.names.map (·.2)))
      (hfields : ∀ a ∈ pair.first.slots, ∀ b ∈ pair.second.slots, (a.name, b.name) ∈ pair.names →
        ∀ v w, (a.name, v) ∈ fields → (b.name, w) ∈ others → Mirrors family a.type b.type v w) :
      Mirrors family (.named s) (.named t) (.object owner fields assigned)
        (.object owner' others assigned')
  | none (s t : FieldType) : Mirrors family (.optional s) (.optional t) .none .none
  | some {s t : FieldType} {v w : Value} (h : Mirrors family s t v w) :
      Mirrors family (.optional s) (.optional t) v w
  | list {s t : FieldType} {items others : List Value} (hlength : items.length = others.length)
      (h : ∀ (i : Nat) v w, items[i]? = .some v → others[i]? = .some w → Mirrors family s t v w) :
      Mirrors family (.list s) (.list t) (.list items) (.list others)
  | set {s t : FieldType} {items others : List Value} (hlength : items.length = others.length)
      (h : ∀ (i : Nat) v w, items[i]? = .some v → others[i]? = .some w → Mirrors family s t v w) :
      Mirrors family (.set s) (.set t) (.set items) (.set others)
  | dict {key key' value value' : FieldType} {entries others : List (Value × Value)}
      (hlength : entries.length = others.length)
      (hkeys : ∀ (i : Nat) entry other, entries[i]? = .some entry → others[i]? = .some other →
        Mirrors family key key' entry.1 other.1)
      (hvalues : ∀ (i : Nat) entry other, entries[i]? = .some entry → others[i]? = .some other →
        Mirrors family value value' entry.2 other.2) :
      Mirrors family (.dict key value) (.dict key' value') (.dict entries) (.dict others)
  | tuple {ss ts : List FieldType} {items others : List Value} (hss : ss.length = items.length)
      (hts : ts.length = others.length) (hlength : items.length = others.length)
      (h : ∀ (i : Nat) s t v w, ss[i]? = .some s → ts[i]? = .some t → items[i]? = .some v →
        others[i]? = .some w → Mirrors family s t v w) :
      Mirrors family (.tuple ss) (.tuple ts) (.tuple items) (.tuple others)

variable {family : Family} {s t : FieldType} {v v' w w' : Value}

/-- Values that mirror each other do so in the swapped family, the other way around. -/
theorem Mirrors.symm (h : Mirrors family s t v w) : Mirrors family.swap t s w v := by
  induction h with
  | any v => exact .any v
  | named h v => exact .named h.symm v
  | union members others v => exact .union others members v
  | @object pair _ _ _ _ _ _ _ _ hpair hs ht howner howner' hnames hnames' _ ih =>
    refine .object (Family.swap_mem hpair) ht hs howner' howner ?_ ?_ ?_
    · rwa [pair.map_fst_swap_names]
    · rwa [pair.map_snd_swap_names]
    · intro b hb a ha hmem w v hw hv
      exact ih a ha b hb (Twins.mem_swap_names.mp hmem) v w hv hw
  | none s t => exact .none t s
  | some _ ih => exact .some ih
  | list hlength _ ih => exact .list hlength.symm fun i w v hw hv => ih i v w hv hw
  | set hlength _ ih => exact .set hlength.symm fun i w v hw hv => ih i v w hv hw
  | dict hlength _ _ ihkeys ihvalues =>
    exact .dict hlength.symm (fun i other entry hother hentry => ihkeys i entry other hentry hother)
      fun i other entry hother hentry => ihvalues i entry other hentry hother
  | tuple hss hts hlength _ ih =>
    exact .tuple hts hss hlength.symm fun i t s w v ht hs hw hv => ih i s t v w hs ht hv hw

/-- Only the absent value mirrors the absent value. -/
theorem Mirrors.eq_none (h : Mirrors family s t v w) (hv : v = .none) : w = .none := by
  induction h with
  | any | named | union => exact hv
  | none => rfl
  | some _ ih => exact ih hv
  | _ => cases hv

/-! ## Equal values -/

section Lists

variable {α : Type} {R S : α → α → Prop} {as as' bs bs' : List α}

/-- What holds in every place of two lists carries over to lists that mirror them in place. -/
theorem forall₂_mirrored (h : List.Forall₂ R as as') (hlength : as.length = bs.length)
    (hlength' : as'.length = bs'.length)
    (hstep : ∀ (i : Nat) a a' b b', as[i]? = .some a → as'[i]? = .some a' → bs[i]? = .some b →
      bs'[i]? = .some b' → R a a' → S b b') : List.Forall₂ S bs bs' := by
  obtain ⟨hsame, hall⟩ := forall₂_iff_getElem?.mp h
  refine forall₂_iff_getElem?.mpr ⟨by omega, fun i b b' hb hb' => ?_⟩
  obtain ⟨a, ha⟩ := exists_getElem?_of_length_eq hlength.symm hb
  obtain ⟨a', ha'⟩ := exists_getElem?_of_length_eq hlength'.symm hb'
  exact hstep i a a' b b' ha ha' hb hb' (hall i a a' ha ha')

/-- A matching carries over to lists that mirror the matched ones in place. -/
theorem Matches.mirrored (h : Matches R as as') (hlength : as.length = bs.length)
    (hlength' : as'.length = bs'.length)
    (hstep : ∀ (i j : Nat) a a' b b', as[i]? = .some a → as'[j]? = .some a' → bs[i]? = .some b →
      bs'[j]? = .some b' → R a a' → S b b') : Matches S bs bs' := by
  refine ⟨by rw [← hlength, ← hlength', h.1], fun b hb => ?_⟩
  obtain ⟨i, hi⟩ := List.getElem?_of_mem hb
  obtain ⟨a, ha⟩ := exists_getElem?_of_length_eq hlength.symm hi
  obtain ⟨a', hmem, haa'⟩ := h.2 a (List.mem_of_getElem? ha)
  obtain ⟨j, hj⟩ := List.getElem?_of_mem hmem
  obtain ⟨b', hb'⟩ := exists_getElem?_of_length_eq hlength' hj
  exact ⟨b', List.mem_of_getElem? hb', hstep i j a a' b b' ha hj hi hb' haa'⟩

end Lists

/-- The fields of twins are matched as their counterparts are. -/
theorem Matches.twins {pair : Twins} (hpair : pair.Alike family)
    {fields fields' others others' : List (String × Value)}
    (h : Matches FieldSame fields fields')
    (hfields : (fields.map (·.1)).Perm (pair.names.map (·.1)))
    (hothers : (others.map (·.1)).Perm (pair.names.map (·.2)))
    (hothers' : (others'.map (·.1)).Perm (pair.names.map (·.2)))
    (hstep : ∀ a ∈ pair.first.slots, ∀ b ∈ pair.second.slots, (a.name, b.name) ∈ pair.names →
      ∀ v v' w w', (a.name, v) ∈ fields → (a.name, v') ∈ fields' → (b.name, w) ∈ others →
        (b.name, w') ∈ others' → v.same v' = true → w.same w' = true) :
    Matches FieldSame others others' := by
  refine ⟨?_, fun ⟨name, w⟩ hother => ?_⟩
  · simpa using hothers.length_eq.trans hothers'.length_eq.symm
  · -- from the field to its counterpart, to the match of that, and back
    obtain ⟨names, hnames, hname⟩ :=
      List.mem_map.mp (hothers.mem_iff.mp (List.mem_map_of_mem hother))
    obtain ⟨a, ha, b, hb, rfl⟩ := hpair.exists_slots hnames
    obtain rfl : b.name = name := hname
    obtain ⟨⟨_, v⟩, hfield, rfl⟩ :=
      List.mem_map.mp (hfields.mem_iff.mpr (List.mem_map_of_mem hnames))
    obtain ⟨⟨_, v'⟩, hfield', rfl, hsame⟩ := h.2 _ hfield
    obtain ⟨⟨_, w'⟩, hother', rfl⟩ :=
      List.mem_map.mp (hothers'.mem_iff.mpr (List.mem_map_of_mem hnames))
    exact ⟨_, hother', rfl, hstep a ha b hb hnames v v' w w' hfield hfield' hother hother' hsame⟩

/-- **Equal values are mirrored by equal values.** -/
theorem Mirrors.congr (hfamily : family.Alike) (h : Mirrors family s t v w)
    (h' : Mirrors family s t v' w') (hv : v.WellFormed) (hv' : v'.WellFormed) (hw : w.WellFormed)
    (hw' : w'.WellFormed) (hsame : v.same v' = true) : w.same w' = true := by
  -- the types tell how both pairs of values mirror each other: no class is its own twin
  induction h generalizing v' w' with
  | any v =>
    cases h'
    exact hsame
  | union members others v =>
    cases h'
    exact hsame
  | named hid v =>
    cases h' with
    | named _ v' => exact hsame
    | object hpair hs ht => exact absurd (hs.symm.trans (hid.trans ht)) (hfamily.apart hpair hpair)
  | object hpair hs ht howner howner' hnames hnames' _ ih =>
    cases h' with
    | named hid _ => exact absurd (hs.symm.trans (hid.trans ht)) (hfamily.apart hpair hpair)
    | object hpair₂ hs₂ ht₂ howner₂ howner₂' hnames₂ hnames₂' hfields₂ =>
      obtain rfl := hfamily.unique hpair hpair₂ (hs.symm.trans hs₂)
      rw [same_object_iff hv'.here] at hsame
      rw [same_object_iff hw'.here]
      refine ⟨howner'.trans howner₂'.symm, ?_⟩
      refine hsame.2.twins (hfamily.twins _ hpair) hnames hnames' hnames₂' ?_
      intro a ha b hb hmem v v' w w' hva hva' hwb hwb' hsame
      exact ih a ha b hb hmem v w hva hwb (hfields₂ a ha b hb hmem v' w' hva' hwb')
        (hv.part (List.mem_map_of_mem hva)) (hv'.part (List.mem_map_of_mem hva'))
        (hw.part (List.mem_map_of_mem hwb)) (hw'.part (List.mem_map_of_mem hwb')) hsame
  | none s t =>
    obtain rfl := eq_of_same_of_isPlain rfl hsame
    obtain rfl := h'.eq_none rfl
    exact hsame
  | some h ih =>
    cases h' with
    | none =>
      obtain rfl := eq_of_same_of_isPlain rfl (hv.same_symm hv' hsame)
      obtain rfl := h.eq_none rfl
      exact hsame
    | some h' => exact ih h' hv hv' hw hw' hsame
  | list hlength _ ih =>
    cases h' with
    | list hlength' h' =>
      rw [same, sameAll_iff] at hsame ⊢
      refine forall₂_mirrored hsame hlength hlength' fun i v v' w w' hvi hvi' hwi hwi' => ?_
      exact ih i v w hvi hwi (h' i v' w' hvi' hwi')
        (hv.place hvi) (hv'.place hvi') (hw.place hwi) (hw'.place hwi')
  | set hlength _ ih =>
    cases h' with
    | set hlength' h' =>
      rw [same_set_iff] at hsame ⊢
      refine hsame.mirrored hlength hlength' fun i j v v' w w' hvi hvj' hwi hwj' => ?_
      exact ih i v w hvi hwi (h' j v' w' hvj' hwj')
        (hv.place hvi) (hv'.place hvj') (hw.place hwi) (hw'.place hwj')
  | dict hlength _ _ ihkeys ihvalues =>
    cases h' with
    | dict hlength' hkeys' hvalues' =>
      rw [hv.same_dict_iff hv'] at hsame
      rw [hw.same_dict_iff hw']
      refine hsame.mirrored hlength hlength' fun i j v v' w w' hvi hvj' hwi hwj' hsame => ?_
      have hvmem := List.mem_of_getElem? hvi
      have hvmem' := List.mem_of_getElem? hvj'
      have hwmem := List.mem_of_getElem? hwi
      have hwmem' := List.mem_of_getElem? hwj'
      constructor
      · exact ihkeys i v w hvi hwi (hkeys' j v' w' hvj' hwj') (hv.part (key_mem_parts hvmem))
          (hv'.part (key_mem_parts hvmem')) (hw.part (key_mem_parts hwmem))
          (hw'.part (key_mem_parts hwmem')) hsame.1
      · exact ihvalues i v w hvi hwi (hvalues' j v' w' hvj' hwj') (hv.part (value_mem_parts hvmem))
          (hv'.part (value_mem_parts hvmem')) (hw.part (value_mem_parts hwmem))
          (hw'.part (value_mem_parts hwmem')) hsame.2
  | tuple hss hts hlength _ ih =>
    cases h' with
    | tuple hss' hts' hlength' h' =>
      rw [same, sameAll_iff] at hsame ⊢
      refine forall₂_mirrored hsame hlength hlength' fun i v v' w w' hvi hvi' hwi hwi' => ?_
      obtain ⟨s, hs⟩ := exists_getElem?_of_length_eq hss.symm hvi
      obtain ⟨t, ht⟩ := exists_getElem?_of_length_eq hts.symm hwi
      exact ih i s t v w hs ht hvi hwi (h' i s t v' w' hs ht hvi' hwi')
        (hv.place hvi) (hv'.place hvi') (hw.place hwi) (hw'.place hwi')

/-- What mirrors different values is different. -/
theorem Mirrors.differs (hfamily : family.Alike) (h : Mirrors family s t v w)
    (h' : Mirrors family s t v' w') (hv : v.WellFormed) (hv' : v'.WellFormed) (hw : w.WellFormed)
    (hw' : w'.WellFormed) (hne : v'.same v = false) : w'.same w = false := by
  by_contra hsame
  rw [Bool.not_eq_false] at hsame
  rw [h'.symm.congr hfamily.swap h.symm hw' hw hv' hv hsame] at hne
  cases hne

end ObjectMapping.Value
