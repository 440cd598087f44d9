import ObjectMapping.Keyed
import Mathlib.Data.List.Forall2
import Mathlib.Data.List.Nodup

/-! # Keyed lists with distinct keys

Writing keeps the keys of a keyed list distinct, and in a list with distinct keys an entry is found
under its key. Taking an entry out leaves the entries under the other keys alone. -/

namespace ObjectMapping.Keyed

variable {α β : Type} [BEq α]

/-- What a look-up finds stands in one of the entries. -/
theorem exists_mem_of_lookup {entries : List (α × β)} {key : α} {value : β}
    (h : entries.lookup key = some value) : ∃ k, (k, value) ∈ entries := by
  induction entries with
  | nil => simp at h
  | cons entry rest ih =>
    obtain ⟨k, v⟩ := entry
    rw [List.lookup_cons] at h
    split at h
    · obtain rfl : v = value := Option.some.inj h
      exact ⟨k, List.mem_cons_self⟩
    · obtain ⟨k', hmem⟩ := ih h
      exact ⟨k', List.mem_cons_of_mem _ hmem⟩

/-! ## Pairwise different keys -/

/-- A key that differs from those that are present comes last. -/
theorem insert_of_differs {entries : List (α × β)} {key : α}
    (h : ∀ k ∈ entries.map (·.1), (key == k) = false) (value : β) :
    insert entries key value = entries ++ [(key, value)] := by
  induction entries with
  | nil => rfl
  | cons entry rest ih =>
    obtain ⟨k, v⟩ := entry
    rw [List.map_cons, List.forall_mem_cons] at h
    rw [insert, if_neg (by simp [h.1]), ih h.2, List.cons_append]

/-- Pairs whose keys differ from those before them are a keyed list already. -/
theorem ofList_of_pairwise {pairs : List (α × β)}
    (h : (pairs.map (·.1)).Pairwise fun k later => (later == k) = false) : ofList pairs = pairs := by
  -- what is written so far stands in front of what is left, with keys that are all different
  have hfold : ∀ (rest entries : List (α × β)),
      ((entries ++ rest).map (·.1)).Pairwise (fun k later => (later == k) = false) →
      rest.foldl (fun entries pair => insert entries pair.1 pair.2) entries = entries ++ rest := by
    intro rest
    induction rest with
    | nil => intro entries _; simp
    | cons pair rest ih =>
      intro entries h
      have hnew : ∀ k ∈ entries.map (·.1), (pair.1 == k) = false := by
        rw [List.map_append, List.pairwise_append] at h
        exact fun k hk => h.2.2 k hk pair.1 (by simp)
      rw [List.foldl_cons, insert_of_differs hnew, ih _ (by simpa using h)]
      simp
  exact hfold pairs [] (by simpa using h)

/-- Elements that differ from those before them are distinct already. -/
theorem distinct_of_pairwise {elements : List α}
    (h : elements.Pairwise fun x later => (later == x) = false) : distinct elements = elements := by
  have hfold : ∀ rest found : List α,
      (found ++ rest).Pairwise (fun x later => (later == x) = false) →
      rest.foldl insertElement found = found ++ rest := by
    intro rest
    induction rest with
    | nil => intro found _; simp
    | cons x rest ih =>
      intro found h
      have hnew : found.any (x == ·) = false := by
        rw [List.pairwise_append] at h
        exact List.any_eq_false.mpr fun y hy => by simp [h.2.2 y hy x List.mem_cons_self]
      rw [List.foldl_cons, insertElement, hnew, if_neg Bool.false_ne_true, ih _ (by simpa using h)]
      simp
  exact hfold elements [] (by simpa using h)

/-- Distinct elements differ from those before them. -/
theorem pairwise_distinct (elements : List α) :
    (distinct elements).Pairwise fun x later => (later == x) = false := by
  refine List.foldlRecOn (motive := fun found : List α =>
    found.Pairwise fun x later => (later == x) = false) elements _ List.Pairwise.nil ?_
  intro found hfound x _
  rw [insertElement]
  split
  · exact hfound
  · next hnew =>
    refine List.pairwise_append.mpr ⟨hfound, List.pairwise_singleton _ _, fun y hy z hz => ?_⟩
    obtain rfl := List.mem_singleton.mp hz
    simpa using List.any_eq_false.mp (by simpa using hnew) y hy

/-- What is left without repetitions was there before. -/
theorem mem_of_mem_distinct {elements : List α} {x : α} (h : x ∈ distinct elements) :
    x ∈ elements := by
  refine List.foldlRecOn (motive := fun found : List α => ∀ x ∈ found, x ∈ elements) elements _
    (fun _ hx => absurd hx List.not_mem_nil) ?_ x h
  intro found hfound y hy x hx
  rw [insertElement] at hx
  split at hx
  · exact hfound x hx
  · rcases List.mem_append.mp hx with hx | hx
    · exact hfound x hx
    · rwa [List.mem_singleton.mp hx]

/-- Among the distinct elements there is an equal one for every element. -/
theorem exists_mem_distinct {elements : List α} {x : α} (h : x ∈ elements)
    (hself : (x == x) = true) : ∃ y ∈ distinct elements, (x == y) = true := by
  -- what has been found stays, and an element that is not found is added
  have hfold : ∀ (rest found : List α), ((∃ y ∈ found, (x == y) = true) ∨ x ∈ rest) →
      ∃ y ∈ rest.foldl insertElement found, (x == y) = true := by
    intro rest
    induction rest with
    | nil => exact fun found hx => hx.resolve_right List.not_mem_nil
    | cons z rest ih =>
      intro found hx
      refine ih _ ?_
      rw [List.mem_cons, ← or_assoc] at hx
      refine hx.imp_left fun hx => ?_
      rw [insertElement]
      rcases hx with ⟨y, hy, hxy⟩ | rfl
      · split
        · exact ⟨y, hy, hxy⟩
        · exact ⟨y, List.mem_append_left _ hy, hxy⟩
      · split
        · next hany => exact List.any_eq_true.mp hany
        · exact ⟨x, List.mem_append_right _ (List.mem_singleton.mpr rfl), hself⟩
  exact hfold elements [] (.inr h)

/-- An entry that is there after writing has been there before, but for what is written. -/
theorem mem_of_mem_insert {entries : List (α × β)} {key : α} {value : β} {entry : α × β}
    (h : entry ∈ insert entries key value) :
    (entry.1 = key ∨ entry.1 ∈ entries.map (·.1)) ∧
      (entry.2 = value ∨ entry.2 ∈ entries.map (·.2)) := by
  induction entries with
  | nil =>
    obtain rfl := List.mem_singleton.mp h
    exact ⟨.inl rfl, .inl rfl⟩
  | cons first rest ih =>
    obtain ⟨k, v⟩ := first
    rw [insert] at h
    split at h
    · rcases List.mem_cons.mp h with rfl | hrest
      · exact ⟨.inr List.mem_cons_self, .inl rfl⟩
      · exact ⟨.inr (List.mem_cons_of_mem _ (List.mem_map_of_mem hrest)),
          .inr (List.mem_cons_of_mem _ (List.mem_map_of_mem hrest))⟩
    · rcases List.mem_cons.mp h with rfl | hrest
      · exact ⟨.inr List.mem_cons_self, .inr List.mem_cons_self⟩
      · exact ⟨(ih hrest).1.imp_right (List.mem_cons_of_mem _),
          (ih hrest).2.imp_right (List.mem_cons_of_mem _)⟩

/-- The keys and the values of a keyed list come from the pairs. -/
theorem mem_of_mem_ofList {pairs : List (α × β)} {entry : α × β} (h : entry ∈ ofList pairs) :
    entry.1 ∈ pairs.map (·.1) ∧ entry.2 ∈ pairs.map (·.2) := by
  refine List.foldlRecOn (motive := fun entries : List (α × β) =>
    ∀ entry ∈ entries, entry.1 ∈ pairs.map (·.1) ∧ entry.2 ∈ pairs.map (·.2)) pairs _
    (fun _ hentry => absurd hentry List.not_mem_nil) ?_ entry h
  intro entries hentries pair hpair entry hentry
  have hold : ∀ k ∈ entries.map (·.1), k ∈ pairs.map (·.1) :=
    List.forall_mem_map.mpr fun other hother => (hentries other hother).1
  have hold' : ∀ v ∈ entries.map (·.2), v ∈ pairs.map (·.2) :=
    List.forall_mem_map.mpr fun other hother => (hentries other hother).2
  obtain ⟨hkey, hvalue⟩ := mem_of_mem_insert hentry
  exact ⟨hkey.elim (fun heq => heq ▸ List.mem_map_of_mem hpair) (hold _),
    hvalue.elim (fun heq => heq ▸ List.mem_map_of_mem hpair) (hold' _)⟩

variable [LawfulBEq α]

/-- An entry that is found is in the list. -/
theorem mem_of_lookup {entries : List (α × β)} {key : α} {value : β}
    (h : entries.lookup key = some value) : (key, value) ∈ entries := by
  obtain ⟨before, after, rfl, -⟩ := List.lookup_eq_some_iff.mp h
  simp

/-- Under distinct keys an entry is what its key leads to. -/
theorem lookup_of_mem {entries : List (α × β)} (hnodup : (entries.map (·.1)).Nodup) {key : α}
    {value : β} (h : (key, value) ∈ entries) : entries.lookup key = some value := by
  induction entries with
  | nil => simp at h
  | cons entry rest ih =>
    obtain ⟨k, v⟩ := entry
    rw [List.map_cons, List.nodup_cons] at hnodup
    rcases List.mem_cons.mp h with heq | hrest
    · obtain ⟨rfl, rfl⟩ := Prod.mk.inj heq
      rw [List.lookup_cons_self]
    · -- the key stands further back, so the first entry has another one
      have hne : (key == k) = false := by
        refine beq_eq_false_iff_ne.mpr ?_
        intro hkey
        exact hnodup.1 (hkey ▸ List.mem_map.mpr ⟨_, hrest, rfl⟩)
      rw [List.lookup_cons, hne]
      exact ih hnodup.2 hrest

/-- Under distinct keys the order of the entries does not matter for what a key leads to. -/
theorem lookup_perm {entries others : List (α × β)} (hnodup : (entries.map (·.1)).Nodup)
    (hperm : others.Perm entries) (key : α) : others.lookup key = entries.lookup key := by
  have hnodup' : (others.map (·.1)).Nodup := (hperm.map (·.1)).nodup_iff.mpr hnodup
  refine Option.ext fun value => ⟨fun h => ?_, fun h => ?_⟩
  · exact lookup_of_mem hnodup (hperm.mem_iff.mp (mem_of_lookup h))
  · exact lookup_of_mem hnodup' (hperm.mem_iff.mpr (mem_of_lookup h))

/-- Something is found exactly under the keys of the list. -/
theorem lookup_isSome_iff_mem_keys {entries : List (α × β)} {key : α} :
    (entries.lookup key).isSome = true ↔ key ∈ entries.map (·.1) := by
  rw [List.lookup_isSome_iff]
  simp only [beq_iff_eq, List.mem_map]
  constructor
  · rintro ⟨entry, hmem, hkey⟩
    exact ⟨entry, hmem, hkey.symm⟩
  · rintro ⟨entry, hmem, hkey⟩
    exact ⟨entry, hmem, hkey.symm⟩

/-- Nothing is found exactly under what is no key of the list. -/
theorem lookup_eq_none_iff_notMem_keys {entries : List (α × β)} {key : α} :
    entries.lookup key = none ↔ key ∉ entries.map (·.1) := by
  rw [← lookup_isSome_iff_mem_keys, Option.not_isSome_iff_eq_none]

/-- Looking the keys of one list up in a list with the same keys goes through both side by side. -/
theorem filterMap_lookup_eq_zipWith {γ : Type} {entries : List (α × β)} {others : List (α × γ)}
    (hnodup : (entries.map (·.1)).Nodup)
    (h : List.Forall₂ (fun (entry : α × β) (other : α × γ) => other.1 = entry.1) entries others) :
    (entries.filterMap fun (key, b) => (others.lookup key).map fun c => (b, c))
      = List.zipWith (fun entry other => (entry.2, other.2)) entries others := by
  induction h with
  | nil => rfl
  | @cons entry other entries others hkey _ ih =>
    obtain ⟨k, b⟩ := entry
    obtain ⟨key, c⟩ := other
    obtain rfl : key = k := hkey
    rw [List.map_cons, List.nodup_cons] at hnodup
    -- no later entry has the first key, so its counterpart is never found for them
    have hrest :
        (entries.filterMap fun (k, b) => (((key, c) :: others).lookup k).map fun c => (b, c))
          = entries.filterMap fun (k, b) => (others.lookup k).map fun c => (b, c) := by
      refine List.filterMap_congr ?_
      intro entry hmem
      have hne : (entry.1 == key) = false := by
        refine beq_eq_false_iff_ne.mpr ?_
        intro heq
        exact hnodup.1 (heq ▸ List.mem_map.mpr ⟨entry, hmem, rfl⟩)
      simp only [List.lookup_cons, hne]
    rw [List.filterMap_cons, List.zipWith_cons_cons, hrest, ih hnodup.2]
    simp

/-! ## Writing -/

/-- An entry under a new key is put at the end. -/
theorem insert_of_notMem {entries : List (α × β)} {key : α} (h : key ∉ entries.map (·.1))
    (value : β) : insert entries key value = entries ++ [(key, value)] := by
  refine insert_of_differs (fun k hk => beq_eq_false_iff_ne.mpr ?_) value
  rintro rfl
  exact h hk

/-- Writing under a key that is present changes no key. -/
theorem keys_insert_of_mem {entries : List (α × β)} {key : α} (h : key ∈ entries.map (·.1))
    (value : β) : (insert entries key value).map (·.1) = entries.map (·.1) := by
  have hany : (entries.map (·.1)).any (key == ·) = true :=
    List.any_eq_true.mpr ⟨key, h, beq_self_eq_true key⟩
  rw [keys_insert, insertElement, if_pos hany]

/-- Keys stay different when an entry is put in. -/
theorem nodup_keys_insert {entries : List (α × β)} (hnodup : (entries.map (·.1)).Nodup) (key : α)
    (value : β) : ((insert entries key value).map (·.1)).Nodup := by
  by_cases hmem : key ∈ entries.map (·.1)
  · rw [keys_insert_of_mem hmem]
    exact hnodup
  · rw [insert_of_notMem hmem, List.map_append, List.nodup_append]
    refine ⟨hnodup, by simp, ?_⟩
    rintro k hk k' hk' rfl
    obtain rfl : k = key := by simpa using hk'
    exact hmem hk

/-- A key of a list after writing was there before, or it is the one that was written. -/
theorem mem_keys_insert {entries : List (α × β)} {key other : α} {value : β}
    (h : other ∈ (insert entries key value).map (·.1)) : other ∈ entries.map (·.1) ∨ other = key := by
  by_cases hmem : key ∈ entries.map (·.1)
  · rw [keys_insert_of_mem hmem] at h
    exact .inl h
  · rw [insert_of_notMem hmem, List.map_append, List.mem_append] at h
    exact h.imp_right (by simp)

/-- A list that is written pair by pair has distinct keys. -/
theorem nodup_keys_ofList (pairs : List (α × β)) : ((ofList pairs).map (·.1)).Nodup := by
  refine List.foldlRecOn (motive := fun entries : List (α × β) => (entries.map (·.1)).Nodup)
    pairs _ ?_ ?_
  · exact List.nodup_nil
  · intro entries hnodup pair _
    exact nodup_keys_insert hnodup pair.1 pair.2

/-- Pairs with distinct keys are a keyed list already. -/
theorem ofList_eq_self {pairs : List (α × β)} (hnodup : (pairs.map (·.1)).Nodup) :
    ofList pairs = pairs :=
  ofList_of_pairwise (hnodup.imp fun hne => beq_eq_false_iff_ne.mpr hne.symm)

/-- What is read after writing pairs was there before, or is in one of the pairs. -/
theorem mem_of_lookup_foldl {pairs entries : List (α × β)} {key : α} {value : β}
    (h : (pairs.foldl (fun entries pair => insert entries pair.1 pair.2) entries).lookup key
      = some value) : entries.lookup key = some value ∨ (key, value) ∈ pairs := by
  induction pairs generalizing entries with
  | nil => exact .inl h
  | cons pair rest ih =>
    obtain ⟨k, v⟩ := pair
    rcases ih h with hinsert | hrest
    · by_cases hkey : key = k
      · subst hkey
        rw [lookup_insert_self] at hinsert
        exact .inr (Option.some.inj hinsert ▸ List.mem_cons_self)
      · rw [lookup_insert_of_ne hkey] at hinsert
        exact .inl hinsert
    · exact .inr (List.mem_cons_of_mem _ hrest)

/-- What is found among collected pairs is one of them. -/
theorem mem_of_lookup_ofList {pairs : List (α × β)} {key : α} {value : β}
    (h : (ofList pairs).lookup key = some value) : (key, value) ∈ pairs :=
  (mem_of_lookup_foldl h).resolve_left (by simp)

/-- Whatever is written, a key that is present stays present. -/
theorem mem_keys_foldl {pairs entries : List (α × β)} {key : α}
    (h : key ∈ entries.map (·.1) ∨ key ∈ pairs.map (·.1)) :
    key ∈ (pairs.foldl (fun entries pair => insert entries pair.1 pair.2) entries).map (·.1) := by
  induction pairs generalizing entries with
  | nil => simpa using h
  | cons pair rest ih =>
    refine ih ?_
    rw [List.map_cons, List.mem_cons, ← or_assoc] at h
    refine h.imp_left ?_
    intro hpresent
    rw [← lookup_isSome_iff_mem_keys]
    by_cases hkey : key = pair.1
    · rw [hkey, lookup_insert_self]
      rfl
    · rw [lookup_insert_of_ne hkey, lookup_isSome_iff_mem_keys]
      exact hpresent.resolve_right hkey

/-- The key of a pair is a key of what is collected. -/
theorem mem_keys_ofList {pairs : List (α × β)} {key : α} (h : key ∈ pairs.map (·.1)) :
    key ∈ (ofList pairs).map (·.1) :=
  mem_keys_foldl (.inr h)

/-! ## Taking an entry out -/

/-- What is taken stood under its key, and the other keys are left as they were. -/
theorem lookup_of_take? {entries rest : List (α × β)} {key : α} {value : β}
    (h : take? entries key = some (value, rest)) :
    entries.lookup key = some value ∧
      ∀ other, other ≠ key → rest.lookup other = entries.lookup other := by
  induction entries generalizing rest with
  | nil => simp at h
  | cons entry tail ih =>
    obtain ⟨k, v⟩ := entry
    rw [take?] at h
    by_cases hkey : key == k
    · rw [if_pos hkey] at h
      obtain ⟨rfl, rfl⟩ := Prod.mk.inj (Option.some.inj h)
      obtain rfl := eq_of_beq hkey
      constructor
      · exact List.lookup_cons_self
      · intro other hne
        rw [List.lookup_cons, beq_eq_false_iff_ne.mpr hne]
    · rw [if_neg hkey] at h
      split at h
      · next found others htake =>
        obtain ⟨rfl, rfl⟩ := Prod.mk.inj (Option.some.inj h)
        obtain ⟨hlookup, hothers⟩ := ih htake
        constructor
        · rw [List.lookup_cons, (Bool.not_eq_true _).mp hkey]
          exact hlookup
        · intro other hne
          rw [List.lookup_cons, List.lookup_cons, hothers other hne]
      · simp at h

/-- What is taken and what is left make up the list. -/
theorem perm_of_take? {entries rest : List (α × β)} {key : α} {value : β}
    (h : take? entries key = some (value, rest)) : entries.Perm ((key, value) :: rest) := by
  induction entries generalizing rest with
  | nil => simp at h
  | cons entry tail ih =>
    obtain ⟨k, v⟩ := entry
    rw [take?] at h
    by_cases hkey : key == k
    · rw [if_pos hkey] at h
      obtain ⟨rfl, rfl⟩ := Prod.mk.inj (Option.some.inj h)
      obtain rfl := eq_of_beq hkey
      exact .refl _
    · rw [if_neg hkey] at h
      split at h
      · next found others htake =>
        obtain ⟨rfl, rfl⟩ := Prod.mk.inj (Option.some.inj h)
        exact ((ih htake).cons _).trans (.swap _ _ _)
      · simp at h

/-- Something is taken out exactly under the keys of the list. -/
theorem isSome_take?_iff {entries : List (α × β)} {key : α} :
    (take? entries key).isSome = true ↔ key ∈ entries.map (·.1) := by
  rw [isSome_take?, contains, lookup_isSome_iff_mem_keys]

/-- Nothing is taken out exactly under what is no key of the list. -/
theorem take?_eq_none_iff {entries : List (α × β)} {key : α} :
    take? entries key = none ↔ key ∉ entries.map (·.1) := by
  rw [← isSome_take?_iff, Option.not_isSome_iff_eq_none]

/-- Where nothing is taken out, nothing is found. -/
theorem take?_eq_none {entries : List (α × β)} {key : α} (h : take? entries key = none) :
    entries.lookup key = none := by
  have hcontains := isSome_take? entries key
  rw [h, contains] at hcontains
  simpa using hcontains.symm

end ObjectMapping.Keyed
