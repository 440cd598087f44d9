import ObjectMapping.Proofs.Conversion.Safety

/-! # Conversion element by element

A collection is converted once its parts are: the results stand beside the parts in lists as long, and
the collection is built of them anew. What is said of the parts is said by a relation between them and
their results, so the same lemmas serve whatever is proved of a conversion.

* `Conversion.direct_list_of_forall₂` and its like: one for every kind of collection.
* `Conversion.positions`: the types and the values of tuples side by side. -/

namespace ObjectMapping.Conversion

open Outcome

variable {create : Value → ClassHandle → Except Error Value} {s t s' t' : FieldType}
  {items others : List Value}

/-- A list is converted to the list of its converted elements. -/
theorem direct_list_of_forall₂
    (h : List.Forall₂ (fun v w => direct create s (.ok v) t = .ok w) items others) :
    direct create (.list s) (.ok (.list items)) (.list t) = .ok (.list others) := by
  rw [direct, eachElement, ok_bind, Value.elements_list, ok_bind, mapM_eq_ok.mpr h]
  rfl

/-- A set is converted to the set of its converted elements, without repetitions. -/
theorem direct_set_of_forall₂
    (h : List.Forall₂ (fun v w => direct create s (.ok v) t = .ok w) items others) :
    direct create (.set s) (.ok (.set items)) (.set t) = .ok (.set (Keyed.distinct others)) := by
  rw [direct, eachElement, ok_bind, Value.elements_set, ok_bind, mapM_eq_ok.mpr h]
  rfl

/-- A dictionary is converted to that of its converted entries, of which the last one under a key
counts. -/
theorem direct_dict_of_forall₂ {entries others : List (Value × Value)}
    (h : List.Forall₂ (fun entry other : Value × Value =>
      direct create s (.ok entry.1) t = .ok other.1 ∧
        direct create s' (.ok entry.2) t' = .ok other.2) entries others) :
    direct create (.dict s s') (.ok (.dict entries)) (.dict t t')
      = .ok (.dict (Keyed.ofList others)) := by
  have hentries : List.Forall₂ (fun entry other : Value × Value => (do
      let key ← direct create s (.ok entry.1) t
      return (key, ← direct create s' (.ok entry.2) t')) = Except.ok other) entries others := by
    refine h.imp fun entry other hother => ?_
    rw [hother.1, hother.2]
    rfl
  rw [direct, eachEntry, ok_bind, Value.entries_dict, ok_bind, mapM_eq_ok.mpr hentries]
  rfl

/-! ## Tuples -/

/-- The types and the values of tuples, position by position. -/
abbrev positions (ss ts : List FieldType) (items : List Value) :
    List ((FieldType × FieldType) × Value) :=
  (ss.zip ts).zip items

/-- A position of a tuple has the two types and the item at this position. -/
theorem getElem?_positions {ss ts : List FieldType} {i : Nat} {s t : FieldType} {v : Value} :
    (positions ss ts items)[i]? = some ((s, t), v) ↔
      ss[i]? = some s ∧ ts[i]? = some t ∧ items[i]? = some v := by
  rw [List.getElem?_zip_eq_some, List.getElem?_zip_eq_some, and_assoc]

/-- What holds of the parts of a tuple with their types holds in all positions. -/
theorem forall_positions {ss ts : List FieldType} {P : FieldType → FieldType → Value → Prop}
    (h : ∀ (i : Nat) s t v, ss[i]? = some s → ts[i]? = some t → (s, v) ∈ ss.zip items → P s t v) :
    ∀ entry ∈ positions ss ts items, P entry.1.1 entry.1.2 entry.2 := by
  rintro ⟨⟨s, t⟩, v⟩ hentry
  obtain ⟨i, hi⟩ := List.getElem?_of_mem hentry
  obtain ⟨hs, ht, hv⟩ := getElem?_positions.mp hi
  exact h i s t v hs ht (List.mem_of_getElem? (List.getElem?_zip_eq_some.mpr ⟨hs, hv⟩))

/-- Every result with its type stands beside a position. -/
theorem exists_position {ss ts : List FieldType} {R : (FieldType × FieldType) × Value → Value → Prop}
    (hss : ss.length = items.length) (hts : ss.length = ts.length)
    (h : List.Forall₂ R (positions ss ts items) others) {t : FieldType} {w : Value}
    (hpair : (t, w) ∈ ts.zip others) : ∃ s v, R ((s, t), v) w := by
  obtain ⟨i, hi⟩ := List.getElem?_of_mem hpair
  obtain ⟨ht, hw⟩ := List.getElem?_zip_eq_some.mp hi
  obtain ⟨s, hs⟩ := exists_getElem?_of_length_eq hts.symm ht
  obtain ⟨v, hv⟩ := exists_getElem?_of_length_eq hss hs
  exact ⟨s, v, (forall₂_iff_getElem?.mp h).2 i _ w (getElem?_positions.mpr ⟨hs, ht, hv⟩) hw⟩

/-- The positions of a tuple are converted from one on. -/
theorem directAll_of_forall₂ {ss ts : List FieldType} {position : Nat}
    (hbound : items.length < Nat.pow 2 63) (hss : ss.length = (items.drop position).length)
    (hts : ss.length = ts.length)
    (h : List.Forall₂ (fun entry w =>
      direct create entry.1.1 (.ok entry.2) entry.1.2 = .ok w)
      (positions ss ts (items.drop position)) others) :
    directAll create ss (.ok (.tuple items)) position ts = .ok others := by
  -- the types run out together with what is left of the tuple
  induction ts generalizing ss position others with
  | nil =>
    obtain rfl : ss = [] := List.length_eq_zero_iff.mp hts
    cases h
    exact directAll_nil
  | cons t ts ih =>
    cases ss with
    | nil => cases hts
    | cons s ss =>
      have hlt : position < items.length := by
        rw [List.length_drop, List.length_cons] at hss
        omega
      have hdrop := List.drop_eq_getElem_cons hlt
      rw [hdrop, List.length_cons, List.length_cons] at hss
      rw [hdrop, positions, List.zip_cons_cons, List.zip_cons_cons] at h
      cases h with
      | cons hw hrest =>
        rw [directAll, ok_bind, Value.subscript_tuple hbound (List.getElem?_eq_getElem hlt), hw,
          ok_bind, ih (Nat.succ.inj hss) (Nat.succ.inj hts) hrest]
        rfl

/-- A tuple is converted to the tuple of its converted items. -/
theorem direct_tuple_of_forall₂ {ss ts : List FieldType} (hbound : items.length < Nat.pow 2 63)
    (hss : ss.length = items.length) (hts : ss.length = ts.length)
    (h : List.Forall₂ (fun entry w => direct create entry.1.1 (.ok entry.2) entry.1.2 = .ok w)
      (positions ss ts items) others) :
    direct create (.tuple ss) (.ok (.tuple items)) (.tuple ts) = .ok (.tuple others) := by
  have hall : directAll create ss (.ok (.tuple items)) 0 ts = .ok others :=
    directAll_of_forall₂ hbound hss hts h
  rw [direct, hall]
  rfl

end ObjectMapping.Conversion
