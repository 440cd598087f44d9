import ObjectMapping.Proofs.Registry.Knots
import ObjectMapping.Proofs.Schema.Permutation

/-! # Schemas with closed mappings

The mappings of a schema are closed if each of them can be made with the methods of all of them at
hand. That is not enough for the schema to load. A mapping is registered with the methods that are
registered by then, so mappings that wait for each other are never registered; a class with a field of
its own kind is an example. It is enough if there are no such knots.

* `MappingEntry.triples`: what a mapping declares, by the names of its classes.
* `Catalog.Waiting`: mappings that only lack conversions, if anything.
* `Catalog.Closed`: mappings each of which is possible with the methods of all of them.
* **`Catalog.load_closed`** — a schema with closed mappings loads if and only if there is no knot among
  them, and otherwise a field lacks a conversion.
* **`load_fails_node`** — a closed mapping that waits for itself. -/

namespace ObjectMapping

open Outcome

/-- What a mapping declares: methods between two classes in the directions of its mode. -/
def MappingEntry.triples (entry : MappingEntry) : List (String × String × Direction) :=
  entry.mode.directions.map fun direction => (entry.source, entry.target, direction)

namespace Catalog

variable {c c' : Catalog} {entry : MappingEntry} {entries others pending : List MappingEntry}
  {registrations : List Registration}

/-! ## Keys -/

/-- The number of a class, by its name. -/
def idOf (c : Catalog) (name : String) : Nat :=
  match c.classNamed name with
  | .ok found => found.handle.id
  | .error _ => 0

/-- The key of declared methods. -/
def keyOf (c : Catalog) (triple : String × String × Direction) : MappingKey :=
  ⟨c.idOf triple.1, c.idOf triple.2.1, triple.2.2⟩

/-- A mapping asks for the keys of its classes and directions. -/
theorem keys_of_registration {registration : Registration}
    (h : c.registration entry = .ok registration) :
    registration.keys = entry.triples.map c.keyOf := by
  obtain ⟨source, target, overrides, hsource, htarget, rfl⟩ := registration_eq_ok h
  have hids : c.idOf entry.source = source.handle.id ∧ c.idOf entry.target = target.handle.id := by
    rw [idOf, idOf, hsource, htarget]
    exact ⟨rfl, rfl⟩
  rw [Registration.keys, MappingEntry.triples, List.map_map]
  refine List.map_congr_left fun direction _ => ?_
  rw [Function.comp_apply, keyOf, hids.1, hids.2]
  rfl

/-- Mappings ask for the keys of their classes and directions, one after another. -/
theorem keysOf_eq (h : entries.mapM c.registration = .ok registrations) :
    keysOf registrations = (entries.flatMap MappingEntry.triples).map c.keyOf := by
  have hall := mapM_eq_ok.mp h
  clear h
  induction hall with
  | nil => rfl
  | cons hentry _ ih =>
    rw [keysOf] at ih ⊢
    rw [List.flatMap_cons, List.flatMap_cons, List.map_append, keys_of_registration hentry, ih]

/-- The classes of a declared mapping exist if it can be asked for. -/
theorem exists_classes (h : entries.mapM c.registration = .ok registrations)
    {triple : String × String × Direction} (hmem : triple ∈ entries.flatMap MappingEntry.triples) :
    (∃ source, c.classNamed triple.1 = .ok source) ∧ ∃ target, c.classNamed triple.2.1 = .ok target := by
  obtain ⟨entry, hentry, hin⟩ := List.mem_flatMap.mp hmem
  obtain ⟨direction, -, rfl⟩ := List.mem_map.mp hin
  obtain ⟨registration, -, hregistration⟩ := exists_of_forall₂ (mapM_eq_ok.mp h) hentry
  obtain ⟨source, target, -, hsource, htarget, -⟩ := registration_eq_ok hregistration
  exact ⟨⟨source, hsource⟩, target, htarget⟩

/-- **Different declarations have different keys.** -/
theorem nodup_keysOf (hnumbered : c.Numbered) (h : entries.mapM c.registration = .ok registrations)
    (htriples : (entries.flatMap MappingEntry.triples).Nodup) : (keysOf registrations).Nodup := by
  rw [keysOf_eq h]
  refine htriples.map_on fun triple hmem triple' hmem' hkey => ?_
  obtain ⟨⟨source, hsource⟩, target, htarget⟩ := exists_classes h hmem
  obtain ⟨⟨source', hsource'⟩, target', htarget'⟩ := exists_classes h hmem'
  obtain ⟨hs, ht, hdirection⟩ := MappingKey.mk.inj hkey
  -- classes are numbered one by one, so the same number is the same name
  rw [idOf, idOf, hsource, hsource'] at hs
  rw [idOf, idOf, htarget, htarget'] at ht
  refine Prod.ext (hnumbered.name_eq hsource hsource' hs) (Prod.ext ?_ hdirection)
  exact hnumbered.name_eq htarget htarget' ht

/-- Mappings between enum classes have other keys than those between classes. -/
theorem new_of_prepare {schema : Schema} {firstId : Nat}
    (hprepared : prepare schema .empty firstId = .ok c)
    (h : entries.mapM c.registration = .ok registrations) :
    ∀ key ∈ keysOf registrations, c.registry.contains key = false := by
  intro key hkey
  by_contra hpresent
  rw [Bool.not_eq_false] at hpresent
  obtain ⟨registration, hmem, hown⟩ := mem_keysOf.mp hkey
  obtain ⟨entry, -, hregistration⟩ := exists_mem_of_mem_mapM h hmem
  obtain ⟨source, target, overrides, hsource, -, rfl⟩ := registration_eq_ok hregistration
  obtain ⟨direction, -, rfl⟩ := List.mem_map.mp hown
  rcases (prepare_eq_ok hprepared).2 _ hpresent with hold | hothers
  · cases hold
  · exact hothers _ (mem_classes_of_classNamed hsource) rfl

/-! ## Failures -/

/-- Mappings that have new and distinct keys and could be made with some methods. -/
def Waiting (c : Catalog) (entries : List MappingEntry) : Prop :=
  ∃ registrations, entries.mapM c.registration = .ok registrations ∧ (keysOf registrations).Nodup ∧
    (∀ key ∈ keysOf registrations, c.registry.contains key = false) ∧
      ∀ registration ∈ registrations, ∃ present, registration.Makeable present

/-- Mappings that wait do so in any order. -/
theorem Waiting.perm (h : c.Waiting entries) (hperm : entries.Perm others) : c.Waiting others := by
  obtain ⟨registrations, hregistrations, hnodup, hnew, hmakeable⟩ := h
  obtain ⟨registrations', hregistrations'⟩ : ∃ registrations',
      others.mapM c.registration = .ok registrations' := by
    refine exists_mapM_eq_ok fun entry hmem => ?_
    obtain ⟨registration, -, hregistration⟩ :=
      exists_of_forall₂ (mapM_eq_ok.mp hregistrations) (hperm.mem_iff.mpr hmem)
    exact ⟨registration, hregistration⟩
  have hsame := perm_of_mapM_eq_ok hperm hregistrations hregistrations'
  have hkeys : (keysOf registrations).Perm (keysOf registrations') := hsame.flatMap_right _
  exact ⟨registrations', hregistrations', hkeys.nodup_iff.mp hnodup,
    fun key hkey => hnew key (hkeys.mem_iff.mpr hkey),
    fun registration hmem => hmakeable registration (hsame.mem_iff.mpr hmem)⟩

/-- The first of some waiting mappings fails for want of a conversion only; if it is registered, the
others still wait. -/
theorem Waiting.register (h : c.Waiting (entry :: entries)) :
    Meets (fun e => e.isFieldType = true) (fun c' => c'.Waiting entries) (c.register entry) := by
  obtain ⟨registrations, hregistrations, hnodup, hnew, hmakeable⟩ := h
  rw [List.mapM_cons] at hregistrations
  obtain ⟨registration, hregistration, hrest⟩ := bind_eq_ok.mp hregistrations
  obtain ⟨others, hothers, hcons⟩ := bind_eq_ok.mp hrest
  obtain rfl := Except.ok.inj hcons
  have hkeys : keysOf (registration :: others) = registration.keys ++ keysOf others :=
    List.flatMap_cons
  rw [hkeys] at hnodup hnew
  rw [register_eq, hregistration, ok_bind]
  cases hentered : c.registry.enter registration with
  | error e =>
    obtain ⟨present, hmade⟩ := hmakeable registration List.mem_cons_self
    have hfails := Registry.enter_fails
      (fun key hkey => hnew key (List.mem_append_left _ hkey)) hmade
    rw [hentered] at hfails
    exact hfails
  | ok registry =>
    refine ⟨others, hothers, (List.nodup_append.mp hnodup).2.1, fun key hkey => ?_,
      fun other hother => hmakeable other (List.mem_cons_of_mem _ hother)⟩
    -- what was just registered has other keys
    by_contra hpresent
    rw [Bool.not_eq_false] at hpresent
    rcases ((Registry.contains_of_enter hentered).2 key).mp hpresent with hold | hown
    · rw [hnew key (List.mem_append_right _ hkey)] at hold
      cases hold
    · exact (List.nodup_append.mp hnodup).2.2 key hown key hkey rfl

/-- A round leaves waiting mappings waiting, and only for want of conversions. -/
theorem registerRound_meets (h : c.Waiting (others ++ pending)) :
    Meets (fun e => e.isFieldType = true)
      (fun result => result.1.Waiting (others ++ result.2.map (·.1)) ∧
        ∀ deferred ∈ result.2, deferred.2.isFieldType = true)
      (c.registerRound pending) := by
  -- `others` are the mappings that this round has put off so far
  induction pending generalizing c others with
  | nil => exact ⟨h, nofun⟩
  | cons entry rest ih =>
    have hregister := (h.perm List.perm_middle).register
    rw [registerRound]
    cases hfirst : c.register entry with
    | ok next =>
      rw [hfirst] at hregister
      exact ih hregister
    | error e =>
      rw [hfirst] at hregister
      cases e with
      | fieldType field source targetField target direction =>
        have hwaiting : c.Waiting (others ++ [entry] ++ rest) := by
          rw [List.append_assoc]
          exact h
        refine (ih hwaiting).bind fun result hresult => ?_
        rw [List.append_assoc] at hresult
        exact ⟨hresult.1, List.forall_mem_cons.mpr ⟨rfl, hresult.2⟩⟩
      | _ => cases hregister

/-- **Waiting mappings fail to be registered for want of a conversion only.** -/
theorem Waiting.registerAll_fails (h : c.Waiting pending) : FailsByField (c.registerAll pending) := by
  induction hn : pending.length using Nat.strongRecOn generalizing c pending with
  | ind n ih =>
    subst hn
    rw [registerAll]
    have hround := registerRound_meets (show c.Waiting ([] ++ pending) from h)
    -- the rounds end with the last failure of a round, which is one of those
    refine hround.bind fun result hresult => ?_
    obtain ⟨hwaiting, hdeferred⟩ := hresult
    dsimp only
    split
    · trivial
    · next last hlast =>
      split
      · next hlength => exact ih _ (by rw [List.length_map]; exact hlength) hwaiting rfl
      · exact hdeferred _ (List.mem_of_getLast? hlast)

/-! ## Closed mappings -/

/-- The orders of declared mappings are those of what they ask for. -/
theorem exists_loadable_iff (h : entries.mapM c.registration = .ok registrations) :
    (∃ order : List MappingEntry, order.Perm entries ∧ c.Loadable order) ↔
      ∃ order : List Registration, order.Perm registrations ∧
        ∃ registry, c.registry.enterAll order = .ok registry := by
  constructor
  · rintro ⟨order, hperm, last, hlast⟩
    obtain ⟨asked, registry, hasked, hall, -⟩ := foldlM_register_eq_ok.mp hlast
    exact ⟨asked, perm_of_mapM_eq_ok hperm hasked h, registry, hall⟩
  · rintro ⟨order, hperm, registry, hall⟩
    obtain ⟨order', hasked, hperm'⟩ := List.perm_comp_forall₂ hperm (mapM_eq_ok.mp h).flip
    exact ⟨order', hperm', _, foldlM_register_eq_ok.mpr
      ⟨order, registry, mapM_eq_ok.mpr hasked.flip, hall, rfl⟩⟩

/-- **Closed mappings**: they declare different methods, and each of them is possible with the methods
of all of them and what is registered before at hand. -/
structure Closed (c : Catalog) (entries : List MappingEntry) (registrations : List Registration) :
    Prop where
  asked : entries.mapM c.registration = .ok registrations
  distinct : (entries.flatMap MappingEntry.triples).Nodup
  makeable : ∀ registration ∈ registrations,
    registration.Makeable (c.registry.declares registrations)

/-- **Closed mappings load unless some of them wait for each other.** Let the mappings of a schema be
closed, together with its mappings between enum classes. Then the schema loads into an empty registry
if and only if there is no knot among its mappings. If it loads, exactly the methods that it declares
are registered; if it does not, a field lacks a conversion. -/
theorem load_closed {schema : Schema} {firstId : Nat}
    (hprepared : prepare schema .empty firstId = .ok c)
    (hclosed : c.Closed schema.mappings registrations) :
    ((∃ c', load schema .empty firstId = .ok c') ↔
      ¬ ∃ knot, c.registry.Knot registrations knot) ∧
    (∀ c', load schema .empty firstId = .ok c' → ∀ key,
      c'.registry.contains key = c.registry.declares registrations key) ∧
    ∀ e, load schema .empty firstId = .error e → e.isFieldType = true := by
  obtain ⟨hregistrations, htriples, hmakeable⟩ := hclosed
  have hnodup := nodup_keysOf (prepare_eq_ok hprepared).1 hregistrations htriples
  have hnew := new_of_prepare hprepared hregistrations
  have hload : load schema .empty firstId = c.registerAll schema.mappings := by
    rw [load_eq, hprepared, ok_bind]
  rw [hload]
  refine ⟨?_, fun c' hc' key => ?_, fun e he => ?_⟩
  · -- an order exists as long as nothing waits in a circle, and the loop finds it
    rw [← Registry.exists_order_iff hnodup hnew, ← exists_loadable_iff hregistrations,
      ← isOk_registerAll_iff, isOk_iff_exists]
  · obtain ⟨order, hperm, hregistered⟩ := exists_order_of_registerAll hc'
    obtain ⟨asked, registry, hasked, hall, rfl⟩ := foldlM_register_eq_ok.mp hregistered
    -- the order has the same registrations, and membership does not depend on the order
    have hsame := perm_of_mapM_eq_ok hperm hasked hregistrations
    rw [Bool.eq_iff_iff]
    show registry.contains key = true ↔ _
    rw [Registry.contains_of_enterAll hall, Registry.declares, Bool.or_eq_true,
      List.contains_iff_mem, mem_keysOf]
    simp only [hsame.mem_iff]
  · have hwaiting : c.Waiting schema.mappings := ⟨registrations, hregistrations, hnodup, hnew,
      fun registration hmem => ⟨_, hmakeable registration hmem⟩⟩
    have hfails := hwaiting.registerAll_fails
    rw [he] at hfails
    exact hfails

end Catalog

/-! ## Orders and nodes -/

namespace Sample

/-- The catalog of a schema before its mappings are registered, if it is one. -/
def prepared (schema : Schema) : Catalog :=
  (Catalog.prepare schema .empty 9).toOption.getD (.empty .empty 9)

/-- What the mappings of a schema ask for, if it can be asked for. -/
def asked (schema : Schema) : List Registration :=
  (schema.mappings.mapM (prepared schema).registration).toOption.getD []

/-- The patches of orders, with the mapping of orders in front of the one of items. -/
def orderSchema : Schema := patchSchema [orderEntry, itemEntry]

/-- Nodes that may have a next one, and a mapping for them. -/
def nodeSchema : Schema where
  enums := []
  classes := [.dataclass ⟨"Node", [fieldEntry "next" "Optional[Node]"], false⟩,
    .dataclass ⟨"NodeOut", [fieldEntry "next" "Optional[NodeOut]"], false⟩]
  mappings := [⟨"Node", "NodeOut", .createAndUpdate, []⟩]
  enumMappings := []

/-- The sample schema of orders is prepared. -/
theorem prepare_orderSchema :
    Catalog.prepare orderSchema .empty 9 = .ok (prepared orderSchema) :=
  eq_ok_getD (by decide +kernel) _

/-- The mappings of the sample schema of orders are closed. -/
theorem closed_orderSchema :
    (prepared orderSchema).Closed orderSchema.mappings (asked orderSchema) :=
  ⟨eq_ok_getD (by decide +kernel) _, by decide, by decide +kernel⟩

/-- The sample schema of nodes is prepared. -/
theorem prepare_nodeSchema : Catalog.prepare nodeSchema .empty 9 = .ok (prepared nodeSchema) :=
  eq_ok_getD (by decide +kernel) _

/-- The mappings of the sample schema of nodes are closed. -/
theorem closed_nodeSchema :
    (prepared nodeSchema).Closed nodeSchema.mappings (asked nodeSchema) :=
  ⟨eq_ok_getD (by decide +kernel) _, by decide, by decide +kernel⟩

end Sample

/-- The mappings of orders and items are closed and do not wait for each other, so they load. -/
theorem load_closed_orders :
    (¬ ∃ knot, (Sample.prepared Sample.orderSchema).registry.Knot (Sample.asked Sample.orderSchema)
      knot) ∧
    ∃ c, Catalog.load Sample.orderSchema .empty 9 = .ok c ∧ ∀ key, c.registry.contains key
      = (Sample.prepared Sample.orderSchema).registry.declares (Sample.asked Sample.orderSchema) key := by
  obtain ⟨hknot, hkeys, -⟩ :=
    Catalog.load_closed Sample.prepare_orderSchema Sample.closed_orderSchema
  obtain ⟨c, hload⟩ := isOk_iff_exists.mp
    (show (Catalog.load Sample.orderSchema .empty 9).isOk = true by decide +kernel)
  exact ⟨hknot.mp ⟨c, hload⟩, c, hload, hkeys c hload⟩

/-- **Closed mappings need not load.** The mapping of nodes is possible with its own methods at hand,
but it is registered without them, and the schema does not load. -/
theorem load_fails_node :
    Catalog.prepare Sample.nodeSchema .empty 9 = .ok (Sample.prepared Sample.nodeSchema) ∧
    (Sample.prepared Sample.nodeSchema).Closed Sample.nodeSchema.mappings
      (Sample.asked Sample.nodeSchema) ∧
    ∀ c, Catalog.load Sample.nodeSchema .empty 9 ≠ .ok c := by
  refine ⟨Sample.prepare_nodeSchema, Sample.closed_nodeSchema, fun c hload => ?_⟩
  have hfails : (Catalog.load Sample.nodeSchema .empty 9).isOk = false := by decide +kernel
  rw [hload] at hfails
  cases hfails

end ObjectMapping
