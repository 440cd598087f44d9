import ObjectMapping.Proofs.Registry.Order

/-! # The methods of a registry

A registry keeps its mappings in the order of their registration, and it is asked for them by their
classes. The two agree as long as the methods between two classes come from one registration: then
the methods between the classes of one registration after the other are all methods, each of them
once.

* `Registry.generated` are all methods between classes, `Registry.methodsBetween` those between two
  classes.
* **`Registry.Filed`** — every mapping stands under a key of its own, and methods under theirs.
* **`Registry.methodsBetween_of_enter`** — what one registration adds to them.
* **`Registry.generated_of_enterAll`** — what registrations between different classes add.
* **`Registry.mem_generated_iff`** — all methods are between the classes of some registration. -/

namespace ObjectMapping

open Outcome

/-- The method of a registered mapping, if it is one between classes. -/
def Registered.method? : Registered → Option MappingMethod
  | .method m => some m
  | .enum _ => none

/-- What holds a method is the method. -/
theorem Registered.method?_eq_some {registered : Registered} {m : MappingMethod} :
    registered.method? = some m ↔ registered = .method m := by
  cases registered <;> simp [method?]

/-- The key of a method. -/
def MappingMethod.key (m : MappingMethod) : MappingKey := .of m.source m.target.handle m.direction

namespace Registration

/-- The numbers of the classes of a registration. -/
def ends : Registration → Nat × Nat
  | .classes source target _ _ => (source.handle.id, target.handle.id)
  | .enums source target _ => (source.handle.id, target.handle.id)

/-- The directions of a registration. -/
def directions : Registration → List Direction
  | .classes _ _ _ mode => mode.directions
  | .enums _ _ _ => [.create]

/-- The keys of a registration are its two classes in its directions. -/
theorem keys_eq (registration : Registration) :
    registration.keys
      = registration.directions.map fun d => ⟨registration.ends.1, registration.ends.2, d⟩ := by
  cases registration <;> rfl

/-- All keys of a registration have its two classes. -/
theorem ends_of_mem_keys {registration : Registration} {key : MappingKey}
    (h : key ∈ registration.keys) : (key.source, key.target) = registration.ends := by
  rw [keys_eq] at h
  obtain ⟨direction, -, rfl⟩ := List.mem_map.mp h
  rfl

/-- The directions of a registration are in the order of all directions. -/
theorem filter_directions (registration : Registration) :
    [Direction.create, .update].filter (registration.directions.contains ·)
      = registration.directions := by
  rcases registration with ⟨-, -, -, _ | _ | _⟩ | _ <;> rfl

end Registration

namespace Registry

variable {r r' : Registry} {registration : Registration} {registrations : List Registration}

/-- The methods between classes, in the order of their registration. -/
def generated (r : Registry) : List MappingMethod := r.mappings.filterMap (·.2.method?)

/-- The methods between two classes, which are given by number, in the order of their directions. -/
def methodsBetween (r : Registry) (ends : Nat × Nat) : List MappingMethod :=
  [Direction.create, .update].filterMap fun direction =>
    (r.lookup? ⟨ends.1, ends.2, direction⟩).bind Registered.method?

/-- The generated methods are those in the registry. -/
theorem mem_generated {m : MappingMethod} :
    m ∈ r.generated ↔ ∃ key, (key, .method m) ∈ r.mappings := by
  simp [generated, Registered.method?_eq_some]

/-- The methods between two classes are those for the two directions. -/
theorem mem_methodsBetween {ends : Nat × Nat} {m : MappingMethod} :
    m ∈ r.methodsBetween ends ↔
      ∃ direction, r.lookup? ⟨ends.1, ends.2, direction⟩ = some (.method m) := by
  simp only [methodsBetween, List.mem_filterMap, Option.bind_eq_some_iff,
    Registered.method?_eq_some, exists_eq_right]
  refine exists_congr fun direction => and_iff_right ?_
  cases direction <;> decide

/-- The methods between two classes are generated ones. -/
theorem mem_generated_of_methodsBetween {ends : Nat × Nat} {m : MappingMethod}
    (h : m ∈ r.methodsBetween ends) : m ∈ r.generated := by
  obtain ⟨direction, hlookup⟩ := mem_methodsBetween.mp h
  exact mem_generated.mpr ⟨_, Keyed.mem_of_lookup hlookup⟩

/-- Where no methods are generated there are none between any two classes. -/
theorem methodsBetween_of_empty (h : r.generated = []) (ends : Nat × Nat) :
    r.methodsBetween ends = [] := by
  refine List.eq_nil_iff_forall_not_mem.mpr fun m hm => ?_
  have hmem := mem_generated_of_methodsBetween hm
  rw [h] at hmem
  cases hmem

/-! ## Keys -/

/-- Every mapping stands under a key of its own, and every method under its key. -/
structure Filed (r : Registry) : Prop where
  nodup : (r.mappings.map (·.1)).Nodup
  key : ∀ key m, (key, .method m) ∈ r.mappings → key = m.key

/-- Nothing is filed wrongly in an empty registry. -/
theorem filed_empty : empty.Filed := ⟨List.nodup_nil, nofun⟩

/-- What is provided under a key is a method of this key, if it is a method. -/
theorem Provides.key_eq {key : MappingKey} {m : MappingMethod}
    (h : r.Provides registration key (.method m)) : key = m.key := by
  cases h with
  | method _ hmade => exact hmade.key_eq.symm

/-- Entering a registration files its methods under their keys. -/
theorem Filed.enter (h : r.Filed) (hentered : r.enter registration = .ok r') : r'.Filed := by
  obtain ⟨entries, rfl, hkeys, hentries⟩ := enter_eq_ok hentered
  constructor
  · rw [List.map_append, List.nodup_append]
    refine ⟨h.nodup, hkeys ▸ nodup_keys registration, fun key hkey key' hkey' heq => ?_⟩
    obtain ⟨entry, hentry, rfl⟩ := List.mem_map.mp hkey'
    have hnew := (hentries entry hentry).1
    rw [← heq, contains, lookup?, Keyed.lookup_isSome_iff_mem_keys.mpr hkey] at hnew
    cases hnew
  · intro key m hmem
    rcases List.mem_append.mp hmem with hold | hnew
    · exact h.key key m hold
    · exact (hentries _ hnew).2.key_eq

/-- Entering several registrations files all methods under their keys. -/
theorem Filed.enterAll (h : r.Filed) (hall : r.enterAll registrations = .ok r') : r'.Filed := by
  induction registrations generalizing r with
  | nil => exact Except.ok.inj hall ▸ h
  | cons registration rest ih =>
    obtain ⟨next, hentered, hrest⟩ := bind_eq_ok.mp hall
    exact ih (h.enter hentered) hrest

/-- No method is there twice. -/
theorem Filed.nodup_generated (h : r.Filed) : r.generated.Nodup := by
  rw [List.Nodup, generated, List.pairwise_filterMap]
  refine (List.pairwise_map.mp h.nodup).imp_of_mem fun {a b} ha hb hne m hm m' hm' heq => hne ?_
  obtain ⟨key, registered⟩ := a
  obtain ⟨key', registered'⟩ := b
  obtain rfl := Registered.method?_eq_some.mp hm
  obtain rfl := Registered.method?_eq_some.mp hm'
  exact (h.key _ _ ha).trans (heq ▸ (h.key _ _ hb).symm)

/-! ## Registrations -/

/-- Entries under keys of their own are what their keys lead to. -/
theorem filterMap_lookup {entries : List (MappingKey × Registered)}
    (hnodup : (entries.map (·.1)).Nodup) :
    (entries.map (·.1)).filterMap (fun key => (entries.lookup key).bind Registered.method?)
      = entries.filterMap (·.2.method?) := by
  rw [List.filterMap_map]
  refine List.filterMap_congr fun entry hmem => ?_
  rw [Function.comp_apply, Keyed.lookup_of_mem hnodup hmem, Option.bind_some]

/-- **What a registration adds**: methods behind the others. They are between its classes, and all
of those between its classes if there was none before. -/
theorem methodsBetween_of_enter (h : r.enter registration = .ok r') :
    ∃ methods, r'.generated = r.generated ++ methods ∧
      (∀ ends, ends ≠ registration.ends → r'.methodsBetween ends = r.methodsBetween ends) ∧
      (r.methodsBetween registration.ends = [] →
        r'.methodsBetween registration.ends = methods) := by
  obtain ⟨entries, rfl, hkeys, hentries⟩ := enter_eq_ok h
  have hlookup : ∀ key, (Registry.mk (r.mappings ++ entries)).lookup? key
      = (r.lookup? key).or (entries.lookup key) := fun key => List.lookup_append
  -- what is found under other keys is what was found before
  have hold : ∀ key, key ∉ registration.keys →
      (Registry.mk (r.mappings ++ entries)).lookup? key = r.lookup? key := by
    intro key hkey
    have hnone : entries.lookup key = none := by
      rw [Keyed.lookup_eq_none_iff_notMem_keys, hkeys]
      exact hkey
    rw [hlookup, hnone, Option.or_none]
  refine ⟨entries.filterMap (·.2.method?), ?_, fun ends hne => ?_, fun hnone => ?_⟩
  · rw [generated, List.filterMap_append, generated]
  · refine List.filterMap_congr fun direction _ => ?_
    rw [hold _ fun hkey => hne (Registration.ends_of_mem_keys hkey)]
  · -- only the directions of the registration lead to methods, and there to the new ones
    rw [← filterMap_lookup (hkeys ▸ nodup_keys registration), hkeys, registration.keys_eq,
      List.filterMap_map, ← registration.filter_directions, List.filterMap_filter]
    refine List.filterMap_congr fun direction hmem => ?_
    rw [Function.comp_apply]
    split
    · next hdirection =>
      have hkey : (⟨registration.ends.1, registration.ends.2, direction⟩ : MappingKey)
          ∈ registration.keys := by
        rw [registration.keys_eq]
        exact List.mem_map_of_mem (List.contains_iff_mem.mp hdirection)
      have hnew := (contains_of_enter h).1 _ hkey
      rw [contains, Option.isSome_eq_false_iff, Option.isNone_iff_eq_none] at hnew
      rw [hlookup, hnew, Option.none_or]
    · next hdirection =>
      rw [hold]
      · exact List.filterMap_eq_nil_iff.mp hnone direction hmem
      · rw [registration.keys_eq, List.mem_map]
        rintro ⟨other, hother, heq⟩
        obtain ⟨-, -, rfl⟩ := MappingKey.mk.inj heq
        exact hdirection (List.contains_iff_mem.mpr hother)

/-- A mapping between enum classes adds no method. -/
theorem generated_of_enums {source target : Enumeration} {overrides : EnumOverrides}
    (h : r.enter (.enums source target overrides) = .ok r') : r'.generated = r.generated := by
  obtain ⟨m, -, hinsert⟩ := bind_eq_ok.mp h
  obtain ⟨rfl, -⟩ := insertAll_eq_ok hinsert
  rw [generated, List.filterMap_append]
  exact List.append_nil _

/-- **What registrations between different classes add.** If there was no method between their
classes before, then the methods between their classes, one registration after the other, stand
behind the others. -/
theorem generated_of_enterAll (hall : r.enterAll registrations = .ok r')
    (hnodup : (registrations.map Registration.ends).Nodup)
    (hnone : ∀ ends ∈ registrations.map Registration.ends, r.methodsBetween ends = []) :
    r'.generated
        = r.generated ++ (registrations.map Registration.ends).flatMap r'.methodsBetween ∧
      ∀ ends, ends ∉ registrations.map Registration.ends →
        r'.methodsBetween ends = r.methodsBetween ends := by
  induction registrations generalizing r with
  | nil =>
    obtain rfl := Except.ok.inj hall
    exact ⟨(List.append_nil _).symm, fun _ _ => rfl⟩
  | cons registration rest ih =>
    obtain ⟨next, hentered, hrest⟩ := bind_eq_ok.mp hall
    obtain ⟨methods, hgenerated, hothers, hown⟩ := methodsBetween_of_enter hentered
    rw [List.map_cons, List.nodup_cons] at hnodup
    rw [List.map_cons, List.forall_mem_cons] at hnone
    -- the later registrations are between other classes, which this one has left as they were
    have hlater : ∀ ends ∈ rest.map Registration.ends, next.methodsBetween ends = [] := by
      intro ends hmem
      rw [hothers ends fun heq => hnodup.1 (heq ▸ hmem)]
      exact hnone.2 ends hmem
    obtain ⟨hbehind, hkept⟩ := ih hrest hnodup.2 hlater
    constructor
    · rw [hbehind, hgenerated, List.map_cons, List.flatMap_cons, hkept _ hnodup.1, hown hnone.1,
        List.append_assoc]
    · intro ends hmem
      rw [List.map_cons, List.mem_cons, not_or] at hmem
      rw [hkept ends hmem.2, hothers ends hmem.1]

/-- There is a method between classes that were registered. -/
theorem methodsBetween_ne_nil {source target : Class} {overrides : Overrides} {mode : Mode}
    (hall : r.enterAll registrations = .ok r')
    (hmem : .classes source target overrides mode ∈ registrations) :
    r'.methodsBetween (source.handle.id, target.handle.id) ≠ [] := by
  obtain ⟨direction, hdirection⟩ : ∃ direction, direction ∈ mode.directions := by
    cases mode <;> exact ⟨_, List.mem_cons_self⟩
  obtain ⟨registered, hlookup, hprovides⟩ :=
    provides_of_enterAll hall hmem (List.mem_map_of_mem hdirection)
  obtain ⟨p, methods, m, rfl, -⟩ := hprovides.method_inv
  exact List.ne_nil_of_mem (mem_methodsBetween.mpr ⟨direction, hlookup⟩)

/-- **All methods are between the classes of some registration**, if there was none before. -/
theorem mem_generated_iff (hfiled : r.Filed) (hempty : r.generated = [])
    (hall : r.enterAll registrations = .ok r') {m : MappingMethod} :
    m ∈ r'.generated ↔
      ∃ ends ∈ registrations.map Registration.ends, m ∈ r'.methodsBetween ends := by
  constructor
  · intro hm
    obtain ⟨key, hmem⟩ := mem_generated.mp hm
    have hlookup : r'.lookup? key = some (.method m) :=
      Keyed.lookup_of_mem (hfiled.enterAll hall).nodup hmem
    have hcontains : r'.contains key = true := by rw [contains, hlookup]; rfl
    rcases (contains_of_enterAll hall key).mp hcontains with hold | ⟨registration, hin, hkey⟩
    · -- what was there before has stayed what it was, so it is no method
      obtain ⟨registered, hfound⟩ := Option.isSome_iff_exists.mp hold
      have hsame := ((extends_of_enterAll hall).lookup hfound).symm.trans hlookup
      obtain rfl := Option.some.inj hsame
      have hbefore := mem_generated.mpr ⟨key, Keyed.mem_of_lookup hfound⟩
      rw [hempty] at hbefore
      cases hbefore
    · refine ⟨registration.ends, List.mem_map_of_mem hin, ?_⟩
      refine mem_methodsBetween.mpr ⟨key.direction, ?_⟩
      rw [← Registration.ends_of_mem_keys hkey]
      exact hlookup
  · rintro ⟨ends, -, hm⟩
    exact mem_generated_of_methodsBetween hm

end Registry

end ObjectMapping
