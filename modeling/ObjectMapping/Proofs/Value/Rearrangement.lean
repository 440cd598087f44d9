import ObjectMapping.Proofs.Value.Copies

/-! # Rearranged values

Equality does not see in which order elements of sets, entries of dictionaries and fields of objects
came in, which fields count as assigned, what a class is called, and which of two equal doubles it is.
It sees everything else: two values are equal exactly if one becomes the other when these things are
changed, at any level.

* **`Value.Rearranges`** — a value is changed in what equality does not see.
* `Value.Rearranges.copies`: what is rearranged stays well-formed and equal.
* **`Value.WellFormed.same_iff_rearranges`** — values are equal if one is the other rearranged. -/

namespace ObjectMapping.Value

variable {u v w : Value}

/-- **A value is changed in what equality does not see**, at some levels. -/
inductive Rearranges : Value → Value → Prop
  | refl (v : Value) : Rearranges v v
  | trans {u v w : Value} (h : Rearranges u v) (h' : Rearranges v w) : Rearranges u w
  | float {x y : Double} (h : x.same y = true) : Rearranges (.float x) (.float y)
  | member {owner owner' : ClassHandle} (h : owner.id = owner'.id) (name : String) :
      Rearranges (.member owner name) (.member owner' name)
  /-- The elements come in another order. -/
  | set {items others : List Value} (h : items.Perm others) : Rearranges (.set items) (.set others)
  /-- The entries come in another order. -/
  | dict {entries others : List (Value × Value)} (h : entries.Perm others) :
      Rearranges (.dict entries) (.dict others)
  /-- The fields come in another order, and others of them count as assigned. -/
  | object {owner owner' : ClassHandle} (howner : owner.id = owner'.id)
      {fields others : List (String × Value)} (h : fields.Perm others)
      (assigned assigned' : List String) :
      Rearranges (.object owner fields assigned) (.object owner' others assigned')
  /-- An element of a list is changed. -/
  | inList {before after : List Value} {v w : Value} (h : Rearranges v w) :
      Rearranges (.list (before ++ v :: after)) (.list (before ++ w :: after))
  | inTuple {before after : List Value} {v w : Value} (h : Rearranges v w) :
      Rearranges (.tuple (before ++ v :: after)) (.tuple (before ++ w :: after))
  | inSet {before after : List Value} {v w : Value} (h : Rearranges v w) :
      Rearranges (.set (before ++ v :: after)) (.set (before ++ w :: after))
  | key {before after : List (Value × Value)} {v w : Value} (h : Rearranges v w) (value : Value) :
      Rearranges (.dict (before ++ (v, value) :: after)) (.dict (before ++ (w, value) :: after))
  | value {before after : List (Value × Value)} {v w : Value} (key : Value) (h : Rearranges v w) :
      Rearranges (.dict (before ++ (key, v) :: after)) (.dict (before ++ (key, w) :: after))
  | field {owner : ClassHandle} {before after : List (String × Value)} {assigned : List String}
      {v w : Value} (name : String) (h : Rearranges v w) :
      Rearranges (.object owner (before ++ (name, v) :: after) assigned)
        (.object owner (before ++ (name, w) :: after) assigned)

/-! ## What is rearranged stays equal -/

/-- A copy of a copy is a copy. -/
theorem Copies.trans (h : Copies w v) (h' : Copies v u) : Copies w u :=
  ⟨h'.source, h.wellFormed, h.wellFormed.same_trans h.source h'.source h.same h'.same⟩

/-- Values that are pairwise different are so in every order. -/
theorem pairwise_of_perm {items others : List Value} (hperm : items.Perm others)
    (hitems : ∀ item ∈ items, item.WellFormed)
    (hdistinct : items.Pairwise fun item later => later.same item = false) :
    others.Pairwise fun item later => later.same item = false := by
  -- that two well-formed values are different can be said from either side
  have hsymm : ∀ {x y : Value}, (x.WellFormed → y.WellFormed → y.same x = false) →
      y.WellFormed → x.WellFormed → x.same y = false := by
    intro x y h hy hx
    by_contra hsame
    rw [Bool.not_eq_false] at hsame
    have hback := hx.same_symm hy hsame
    rw [h hx hy] at hback
    cases hback
  have hpairwise : others.Pairwise fun x y => x.WellFormed → y.WellFormed → y.same x = false :=
    (hperm.pairwise_iff hsymm).mp (hdistinct.imp fun h _ _ => h)
  refine hpairwise.imp_of_mem fun hx hy h => ?_
  exact h (hitems _ (hperm.mem_iff.mpr hx)) (hitems _ (hperm.mem_iff.mpr hy))

/-- A set in another order is a copy of the set. -/
theorem Copies.of_perm_set {items others : List Value} (h : (Value.set items).WellFormed)
    (hperm : items.Perm others) : Copies (.set others) (.set items) := by
  have hitems : ∀ item ∈ items, item.WellFormed := fun item hitem => h.part hitem
  refine ⟨h, .of_parts (pairwise_of_perm hperm hitems h.here) fun part hpart => ?_, ?_⟩
  · exact hitems part (hperm.mem_iff.mpr hpart)
  · rw [same_set_iff]
    refine ⟨hperm.length_eq.symm, fun item hitem => ?_⟩
    have hmem := hperm.mem_iff.mpr hitem
    exact ⟨item, hmem, same_self (hitems item hmem).distinctKeys⟩

/-- A dictionary in another order is a copy of the dictionary. -/
theorem Copies.of_perm_dict {entries others : List (Value × Value)}
    (h : (Value.dict entries).WellFormed) (hperm : entries.Perm others) :
    Copies (.dict others) (.dict entries) := by
  have hkeys : ∀ key ∈ entries.map (·.1), key.WellFormed := by
    intro key hkey
    obtain ⟨entry, hentry, rfl⟩ := List.mem_map.mp hkey
    exact h.part (key_mem_parts hentry)
  have hparts : (Value.dict entries).parts.Perm (Value.dict others).parts :=
    (hperm.map _).append (hperm.map _)
  have hothers : (Value.dict others).WellFormed :=
    .of_parts (pairwise_of_perm (hperm.map _) hkeys h.here) fun part hpart =>
      h.part (hparts.mem_iff.mpr hpart)
  refine ⟨h, hothers, ?_⟩
  rw [hothers.same_dict_iff h]
  refine ⟨hperm.length_eq.symm, fun entry hentry => ?_⟩
  have hmem := hperm.mem_iff.mpr hentry
  have hkey : entry.1.WellFormed := h.part (key_mem_parts hmem)
  have hvalue : entry.2.WellFormed := h.part (value_mem_parts hmem)
  exact ⟨entry, hmem, same_self hkey.distinctKeys, same_self hvalue.distinctKeys⟩

/-- Values with one of them replaced by a copy are copies. -/
theorem copies_of_replaced {before after : List Value}
    (hall : ∀ part ∈ before ++ v :: after, part.WellFormed) (h : Copies w v) :
    List.Forall₂ (fun v copy => Copies copy v) (before ++ v :: after) (before ++ w :: after) := by
  have hself : ∀ items : List Value, (∀ item ∈ items, item.WellFormed) →
      List.Forall₂ (fun v copy => Copies copy v) items items := fun items hitems =>
    List.forall₂_same.mpr fun item hitem => (hitems item hitem).copies_self
  rw [List.forall_mem_append, List.forall_mem_cons] at hall
  exact List.rel_append (hself before hall.1) (.cons h (hself after hall.2.2))

/-- A set with an element replaced by a copy. -/
theorem Copies.inSet {before after : List Value}
    (hsource : (Value.set (before ++ v :: after)).WellFormed) (h : Copies w v) :
    Copies (.set (before ++ w :: after)) (.set (before ++ v :: after)) := by
  have hall := copies_of_replaced (fun part hpart => hsource.part hpart) h
  have hset := Copies.set hsource hall
  rwa [Keyed.distinct_of_pairwise (pairwise_of_copies hall hsource.here)] at hset

/-- A dictionary with an entry replaced by one that has copies of its key and value. -/
theorem Copies.entry {before after : List (Value × Value)} {entry entry' : Value × Value}
    (hsource : (Value.dict (before ++ entry :: after)).WellFormed)
    (hkey : entry.1.WellFormed → Copies entry'.1 entry.1)
    (hvalue : entry.2.WellFormed → Copies entry'.2 entry.2) :
    Copies (.dict (before ++ entry' :: after)) (.dict (before ++ entry :: after)) := by
  have hself : ∀ entries : List (Value × Value), entries ⊆ before ++ entry :: after →
      List.Forall₂ (fun entry copy : Value × Value =>
        Copies copy.1 entry.1 ∧ Copies copy.2 entry.2) entries entries := fun entries hsub =>
    List.forall₂_same.mpr fun entry hentry =>
      ⟨WellFormed.copies_self (hsource.part (key_mem_parts (hsub hentry))),
        WellFormed.copies_self (hsource.part (value_mem_parts (hsub hentry)))⟩
  have hmem : entry ∈ before ++ entry :: after := List.mem_append_right _ List.mem_cons_self
  have hentry : Copies entry'.1 entry.1 ∧ Copies entry'.2 entry.2 :=
    ⟨hkey (hsource.part (key_mem_parts hmem)), hvalue (hsource.part (value_mem_parts hmem))⟩
  have hall := List.rel_append (hself before (List.subset_append_left _ _))
    (.cons hentry (hself after fun x hx => List.mem_append_right _ (List.mem_cons_of_mem _ hx)))
  have hdict := Copies.dict hsource hall
  rwa [Keyed.ofList_of_pairwise (pairwise_of_copied_keys hsource hall)] at hdict

/-- An object with the value of a field replaced by a copy. -/
theorem Copies.inField {owner : ClassHandle} {before after : List (String × Value)}
    {assigned : List String} {name : String}
    (hsource : (Value.object owner (before ++ (name, v) :: after) assigned).WellFormed)
    (h : Copies w v) :
    Copies (.object owner (before ++ (name, w) :: after) assigned)
      (.object owner (before ++ (name, v) :: after) assigned) := by
  have hself : ∀ fields : List (String × Value), fields ⊆ before ++ (name, v) :: after →
      List.Forall₂ (fun field arg : String × Value =>
        arg.1 = field.1 ∧ Copies arg.2 field.2) fields fields := fun fields hsub =>
    List.forall₂_same.mpr fun field hfield =>
      ⟨rfl, WellFormed.copies_self (hsource.part (List.mem_map_of_mem (hsub hfield)))⟩
  have hall := List.rel_append (hself before (List.subset_append_left _ _))
    (.cons (a := (name, v)) (b := (name, w)) ⟨rfl, h⟩
      (hself after fun x hx => List.mem_append_right _ (List.mem_cons_of_mem _ hx)))
  exact Copies.object hsource rfl hall (.refl _)

/-- **What is rearranged stays well-formed and equal.** -/
theorem Rearranges.copies (h : v.Rearranges w) (hv : v.WellFormed) : Copies w v := by
  induction h with
  | refl v => exact hv.copies_self
  | trans _ _ ih ih' =>
    have hfirst := ih hv
    exact (ih' hfirst.wellFormed).trans hfirst
  | @float x y h =>
    have hwellFormed : (Value.float y).WellFormed := .of_parts trivial (by simp [parts])
    exact ⟨hv, hwellFormed, by rw [Value.same, Double.same_comm, h]⟩
  | member h name => exact .member h.symm
  | set h => exact .of_perm_set hv h
  | dict h => exact .of_perm_dict hv h
  | object howner h assigned assigned' =>
    refine .object hv howner.symm (List.forall₂_same.mpr fun field hfield => ⟨rfl, ?_⟩) h.symm
    exact WellFormed.copies_self (hv.part (List.mem_map_of_mem hfield))
  | @inList before after v w _ ih =>
    have hmem : v ∈ (Value.list (before ++ v :: after)).parts :=
      List.mem_append_right _ List.mem_cons_self
    exact .list hv (copies_of_replaced (fun part hpart => hv.part hpart) (ih (hv.part hmem)))
  | @inTuple before after v w _ ih =>
    have hmem : v ∈ (Value.tuple (before ++ v :: after)).parts :=
      List.mem_append_right _ List.mem_cons_self
    exact .tuple hv (copies_of_replaced (fun part hpart => hv.part hpart) (ih (hv.part hmem)))
  | @inSet before after v w _ ih =>
    -- the part is replaced by a copy of it, which stays different from the others
    have hmem : v ∈ (Value.set (before ++ v :: after)).parts :=
      List.mem_append_right _ List.mem_cons_self
    exact .inSet hv (ih (hv.part hmem))
  | key _ value ih => exact .entry hv ih fun hvalue => hvalue.copies_self
  | value key _ ih => exact .entry hv (fun hkey => hkey.copies_self) ih
  | @field owner before after assigned v w name _ ih =>
    have hmem : (name, v) ∈ before ++ (name, v) :: after :=
      List.mem_append_right _ List.mem_cons_self
    exact .inField hv (ih (hv.part (List.mem_map_of_mem hmem)))

/-! ## What is equal can be rearranged -/

/-- Parts that are rearranged one by one are rearranged together. -/
theorem rearranges_of_forall₂ {α : Type} {R : α → α → Prop} (make : List α → Value)
    (hmake : ∀ {before after : List α} {a b : α}, R a b →
      (make (before ++ a :: after)).Rearranges (make (before ++ b :: after)))
    {items others : List α} (h : List.Forall₂ R items others) :
    (make items).Rearranges (make others) := by
  -- the parts in front have been rearranged already
  have hfront : ∀ front : List α, (make (front ++ items)).Rearranges (make (front ++ others)) := by
    induction h with
    | nil => exact fun front => .refl _
    | @cons a b _ _ hab _ ih =>
      intro front
      have hrest := ih (front ++ [b])
      rw [List.append_assoc, List.append_assoc] at hrest
      exact (hmake hab).trans hrest
  exact hfront []

/-- Different values have no counterpart in common. -/
theorem WellFormed.apart {later : Value} (hv : v.WellFormed) (hlater : later.WellFormed)
    (hw : w.WellFormed) (hne : later.same v = false) (h : v.same w = true) :
    ¬ later.same w = true := by
  intro hlaterw
  rw [hlater.same_trans hw hv hlaterw (hv.same_symm hw h)] at hne
  cases hne

/-- Related elements are related in another way if this follows for elements of the two lists. -/
theorem forall₂_imp_of_mem {α : Type} {R S : α → α → Prop} {items others : List α}
    (h : List.Forall₂ R items others) (himp : ∀ a ∈ items, ∀ b ∈ others, R a b → S a b) :
    List.Forall₂ S items others := by
  refine List.forall₂_iff_zip.mpr ⟨h.length_eq, fun {a b} hpair => ?_⟩
  have hmem := List.of_mem_zip hpair
  exact himp a hmem.1 b hmem.2 (List.forall₂_zip h hpair)

section Parts

variable {owner owner' : ClassHandle} {assigned assigned' : List String}

/-- The elements of equal sets are brought to the places of their counterparts. -/
theorem rearranges_set {items others : List Value} (hv : (Value.set items).WellFormed)
    (hw : (Value.set others).WellFormed) (h : (Value.set items).same (.set others) = true)
    (hparts : ∀ a ∈ items, ∀ b ∈ others, a.same b = true → a.Rearranges b) :
    (Value.set items).Rearranges (.set others) := by
  have hdistinct : items.Pairwise fun a later => later.same a = false := hv.here
  obtain ⟨sorted, hperm, hsorted⟩ := (same_set_iff.mp h).exists_perm
    (hdistinct.imp_of_mem fun ha hlater hne b hb =>
      WellFormed.apart (hv.part ha) (hv.part hlater) (hw.part hb) hne)
  have hchanged := forall₂_imp_of_mem hsorted fun a ha b hb hab =>
    hparts a ha b (hperm.mem_iff.mp hb) hab
  exact (rearranges_of_forall₂ Value.set .inSet hchanged).trans (.set hperm)

/-- The entries of equal dictionaries are brought to the places of those with the same keys. -/
theorem rearranges_dict {entries others : List (Value × Value)}
    (hv : (Value.dict entries).WellFormed) (hw : (Value.dict others).WellFormed)
    (h : (Value.dict entries).same (.dict others) = true)
    (hparts : ∀ a ∈ (Value.dict entries).parts, ∀ b ∈ (Value.dict others).parts,
      a.same b = true → a.Rearranges b) : (Value.dict entries).Rearranges (.dict others) := by
  have hdistinct := List.pairwise_map.mp hv.here
  obtain ⟨sorted, hperm, hsorted⟩ := ((hv.same_dict_iff hw).mp h).exists_perm
    (hdistinct.imp_of_mem fun ha hlater hne b hb hab hlaterb =>
      WellFormed.apart (hv.part (key_mem_parts ha)) (hv.part (key_mem_parts hlater))
        (hw.part (key_mem_parts hb)) hne hab.1 hlaterb.1)
  have hchanged : List.Forall₂ (fun entry other : Value × Value =>
      entry.1.Rearranges other.1 ∧ entry.2.Rearranges other.2) entries sorted := by
    refine forall₂_imp_of_mem hsorted fun a ha b hb hab => ?_
    have hb' := hperm.mem_iff.mp hb
    exact ⟨hparts _ (key_mem_parts ha) _ (key_mem_parts hb') hab.1,
      hparts _ (value_mem_parts ha) _ (value_mem_parts hb') hab.2⟩
  refine (rearranges_of_forall₂ Value.dict (fun hab => ?_) hchanged).trans (.dict hperm)
  exact (Rearranges.key hab.1 _).trans (.value _ hab.2)

/-- The fields of equal objects are brought to the places of those with the same names. -/
theorem rearranges_object {fields others : List (String × Value)}
    (hv : (Value.object owner fields assigned).WellFormed)
    (hw : (Value.object owner' others assigned').WellFormed)
    (h : (Value.object owner fields assigned).same (.object owner' others assigned') = true)
    (hparts : ∀ a ∈ (Value.object owner fields assigned).parts,
      ∀ b ∈ (Value.object owner' others assigned').parts, a.same b = true → a.Rearranges b) :
    (Value.object owner fields assigned).Rearranges (.object owner' others assigned') := by
  obtain ⟨howner, hmatches⟩ := (same_object_iff hw.here).mp h
  have hdistinct := List.pairwise_map.mp hv.here
  obtain ⟨sorted, hperm, hsorted⟩ := hmatches.exists_perm
    (hdistinct.imp fun hne b _ hab hlaterb => hne (hab.1.trans hlaterb.1.symm))
  have hchanged : List.Forall₂ (fun field other : String × Value =>
      field.1 = other.1 ∧ field.2.Rearranges other.2) fields sorted := by
    refine forall₂_imp_of_mem hsorted fun a ha b hb hab => ⟨hab.1, ?_⟩
    exact hparts _ (List.mem_map_of_mem ha) _ (List.mem_map_of_mem (hperm.mem_iff.mp hb)) hab.2
  have hfields : (Value.object owner fields assigned).Rearranges
      (.object owner sorted assigned) := by
    refine rearranges_of_forall₂ (fun fields => .object owner fields assigned)
      (fun {before after a b} hab => ?_) hchanged
    obtain ⟨name, part⟩ := a
    obtain ⟨name', part'⟩ := b
    obtain rfl : name = name' := hab.1
    exact .field name hab.2
  exact hfields.trans (.object howner hperm assigned assigned')

end Parts

/-- **Equal values can be rearranged to be identical**: each element is brought to the place of its
counterpart. -/
theorem WellFormed.rearranges (hv : v.WellFormed) (hw : w.WellFormed) (h : v.same w = true) :
    v.Rearranges w := by
  induction hheight : v.height using Nat.strongRecOn generalizing v w with
  | ind n ih =>
    subst hheight
    -- on the height: parts that are equal can be rearranged to be identical
    have hparts : ∀ a ∈ v.parts, ∀ b ∈ w.parts, a.same b = true → a.Rearranges b :=
      fun a ha b hb hab =>
        ih _ (height_lt_of_mem_parts ha) (hv.part ha) (hw.part hb) hab rfl
    cases v with
    | list items =>
      obtain ⟨others, rfl, hall⟩ := exists_of_same_list h
      exact rearranges_of_forall₂ Value.list .inList (forall₂_imp_of_mem hall hparts)
    | tuple items =>
      obtain ⟨others, rfl, hall⟩ := exists_of_same_tuple h
      exact rearranges_of_forall₂ Value.tuple .inTuple (forall₂_imp_of_mem hall hparts)
    | set items =>
      obtain ⟨others, rfl⟩ := exists_of_same_set h
      exact rearranges_set hv hw h hparts
    | dict entries =>
      obtain ⟨others, rfl⟩ := exists_of_same_dict h
      exact rearranges_dict hv hw h hparts
    | object owner fields assigned =>
      obtain ⟨owner', others, assigned', rfl⟩ := exists_of_same_object h
      exact rearranges_object hv hw h hparts
    | float x =>
      obtain ⟨y, rfl, hxy⟩ := exists_of_same_float h
      exact .float hxy
    | member owner name =>
      obtain ⟨owner', rfl, howner⟩ := exists_of_same_member h
      exact .member howner name
    | _ =>
      obtain rfl := eq_of_same_of_isPlain rfl h
      exact .refl _

/-- **Two values are equal exactly if one is the other rearranged.** -/
theorem WellFormed.same_iff_rearranges (hv : v.WellFormed) (hw : w.WellFormed) :
    v.same w = true ↔ v.Rearranges w := by
  constructor
  · exact hv.rearranges hw
  · intro h
    have hcopies := h.copies hv
    exact hw.same_symm hv hcopies.same

end ObjectMapping.Value
