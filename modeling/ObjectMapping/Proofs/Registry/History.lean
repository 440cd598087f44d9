import ObjectMapping.Execution.Invocation
import ObjectMapping.Proofs.Class.Descriptor
import ObjectMapping.Proofs.Plan.Building

/-! # The history of a registry

A registry only ever grows, by registrations that succeed. So every mapping in it goes back to a
registration, and every registration is still there under its keys.

* **`Registry.Reached log r`** — the registry `r` is what the registrations of `log`, the last one
  first, lead to from the empty registry.
* **`Registry.Makes`** — how a registration makes the method for a direction: from its plan, with
  methods that are in the registry by now.
* **`Reached.provides`** — a registration provides what stands under its keys.
* **`Reached.exists_registration`** — what stands under a key goes back to a registration. -/

namespace ObjectMapping

open Outcome

/-- A call that registers a mapping. -/
inductive Registration where
  | classes (source target : Class) (overrides : Overrides) (mode : Mode)
  | enums (source target : Enumeration) (overrides : EnumOverrides)

/-- The keys under which a registration enters mappings. -/
def Registration.keys : Registration → List MappingKey
  | .classes source target _ mode => mode.directions.map (.of source.handle target.handle)
  | .enums source target _ => [.of source.handle target.handle .create]

namespace Registry

/-- Carries a registration out. -/
def enter (r : Registry) : Registration → Except Error Registry
  | .classes source target overrides mode => r.register source target overrides mode
  | .enums source target overrides => r.registerEnum source target overrides

/-- The registries that successful registrations lead to, the last one first in the log. A call that
fails leaves the registry as it was, so it does not appear. -/
inductive Reached : List Registration → Registry → Prop
  | empty : Reached [] .empty
  | enter {log : List Registration} {r r' : Registry} {registration : Registration}
      (hreached : Reached log r) (hentered : r.enter registration = .ok r') :
      Reached (registration :: log) r'

/-- The registry that registrations lead to, or the first failure. -/
def replay : List Registration → Except Error Registry
  | [] => .ok .empty
  | registration :: earlier => do (← replay earlier).enter registration

/-- A registry is reached by the registrations that lead to it. -/
theorem reached_iff_replay {log : List Registration} {r : Registry} :
    Reached log r ↔ replay log = .ok r := by
  induction log generalizing r with
  | nil =>
    rw [replay, Except.ok.injEq]
    constructor
    · rintro ⟨⟩
      rfl
    · rintro rfl
      exact .empty
  | cons registration earlier ih =>
    rw [replay, bind_eq_ok]
    constructor
    · rintro (_ | ⟨hreached, hentered⟩)
      exact ⟨_, ih.mp hreached, hentered⟩
    · rintro ⟨r', hreplay, hentered⟩
      exact .enter (ih.mpr hreplay) hentered

/-- How the method for two classes in a direction was made: from the plan, with methods that the
registry has. -/
structure Makes (r : Registry) (source target : Class) (overrides : Overrides)
    (direction : Direction) (p : Plan) (methods : MethodTable) (m : MappingMethod) : Prop where
  build : Plan.build source.describe target.describe direction overrides = .ok p
  assemble : MappingMethod.assemble p target methods = .ok m
  methods_le : ∀ s t d, methods s t d = true → r.methodTable s t d = true

/-- What a registration provides under one of its keys. -/
inductive Provides (r : Registry) : Registration → MappingKey → Registered → Prop
  | method {source target : Class} {overrides : Overrides} {mode : Mode} {direction : Direction}
      {p : Plan} {methods : MethodTable} {m : MappingMethod}
      (hdirection : direction ∈ mode.directions)
      (hmade : r.Makes source target overrides direction p methods m) :
      Provides r (.classes source target overrides mode)
        (.of source.handle target.handle direction) (.method m)
  | enum {source target : Enumeration} {overrides : EnumOverrides} {m : EnumMapping}
      (hbuild : EnumMapping.build source target overrides = .ok m) :
      Provides r (.enums source target overrides) (.of source.handle target.handle .create) (.enum m)

/-- What a registration of classes provides for a direction is a method. -/
theorem Provides.method_inv {r : Registry} {source target : Class} {overrides : Overrides}
    {mode : Mode} {direction : Direction} {registered : Registered}
    (h : r.Provides (.classes source target overrides mode)
      (.of source.handle target.handle direction) registered) :
    ∃ p methods m, registered = .method m ∧
      r.Makes source target overrides direction p methods m := by
  generalize hkey : MappingKey.of source.handle target.handle direction = key at h
  cases h with
  | method hdirection hmade =>
    obtain ⟨-, -, rfl⟩ := MappingKey.mk.inj hkey
    exact ⟨_, _, _, rfl, hmade⟩

/-! ## One registration -/

section Step

variable {r r' : Registry} {registration : Registration} {key : MappingKey} {entry : Registered}
  {entries : List (MappingKey × Registered)}

/-- An insertion keeps what is there. -/
theorem lookup_append {registered : Registered} (h : r.lookup? key = some registered) :
    (Registry.mk (r.mappings ++ entries)).lookup? key = some registered := by
  rw [lookup?, List.lookup_append]
  exact (congrArg (Option.or · _) h).trans rfl

/-- An entry under a new key is found. -/
theorem lookup_append_of_new {registered : Registered} (hnew : r.contains key = false)
    (hnodup : (entries.map (·.1)).Nodup) (hmem : (key, registered) ∈ entries) :
    (Registry.mk (r.mappings ++ entries)).lookup? key = some registered := by
  -- nothing that was there before hides the entry
  have hnone : r.mappings.lookup key = none := by
    rw [contains, Option.isSome_eq_false_iff, Option.isNone_iff_eq_none] at hnew
    exact hnew
  have hlookup : entries.lookup key = some registered := Keyed.lookup_of_mem hnodup hmem
  rw [lookup?, List.lookup_append, hnone, hlookup]
  rfl

/-- The keys after an insertion. -/
theorem contains_append :
    (Registry.mk (r.mappings ++ entries)).contains key = true ↔
      r.contains key = true ∨ key ∈ entries.map (·.1) := by
  rw [contains, lookup?, List.lookup_append, Option.isSome_or, Bool.or_eq_true]
  exact or_congr .rfl Keyed.lookup_isSome_iff_mem_keys

/-- What is in a registry stays in the larger ones. -/
theorem Provides.mono (hle : ∀ s t d, r.methodTable s t d = true → r'.methodTable s t d = true)
    (h : r.Provides registration key entry) : r'.Provides registration key entry := by
  cases h with
  | method hdirection hmade =>
    refine .method hdirection ⟨hmade.build, hmade.assemble, ?_⟩
    exact fun s t d hmethod => hle s t d (hmade.methods_le s t d hmethod)
  | enum hbuild => exact .enum hbuild

/-- All entries are put in at the end, and their keys are new. -/
theorem insertAll_eq_ok {source target : ClassHandle} {entries : List (MappingKey × Registered)}
    (h : r.insertAll source target entries = .ok r') :
    r' = ⟨r.mappings ++ entries⟩ ∧ ∀ entry ∈ entries, r.contains entry.1 = false := by
  rw [insertAll] at h
  split at h
  · cases h
  · next hnone =>
    refine ⟨(Except.ok.inj h).symm, ?_⟩
    intro entry hmem
    exact (Bool.not_eq_true _).mp (List.find?_eq_none.mp hnone entry hmem)

/-- A method has the key of the classes that it was made for. -/
theorem Makes.key_eq {source target : Class} {overrides : Overrides} {direction : Direction}
    {p : Plan} {methods : MethodTable} {m : MappingMethod}
    (h : r.Makes source target overrides direction p methods m) :
    MappingKey.of m.source m.target.handle m.direction
      = .of source.handle target.handle direction := by
  obtain ⟨hsource, -, hdirection, -⟩ := Plan.build_eq_ok h.build
  obtain ⟨function, -, hassembled⟩ := bind_eq_ok.mp h.assemble
  obtain rfl := Except.ok.inj hassembled
  rw [hsource, hdirection, Class.describe_handle]

/-- The method for a direction is entered under the key of the two classes. -/
theorem methodFor_eq_ok {source target : Class} {overrides : Overrides} {direction : Direction}
    {m : MappingMethod} (h : r.methodFor source target overrides direction = .ok m) :
    (∃ p, r.Makes source target overrides direction p r.methodTable m) ∧
      MappingKey.of m.source m.target.handle m.direction
        = .of source.handle target.handle direction := by
  obtain ⟨p, hbuild, hassemble⟩ := bind_eq_ok.mp h
  have hmade : r.Makes source target overrides direction p r.methodTable m :=
    ⟨hbuild, hassemble, fun s t d hmethod => hmethod⟩
  exact ⟨⟨p, hmade⟩, hmade.key_eq⟩

/-- The methods of a registration are entered under its keys. -/
theorem keys_mapM_methodFor {source target : Class} {overrides : Overrides}
    {directions : List Direction} {methods : List MappingMethod}
    (h : directions.mapM (r.methodFor source target overrides) = .ok methods) :
    (methods.map fun m => (MappingKey.of m.source m.target.handle m.direction,
        Registered.method m)).map (·.1)
      = directions.map (.of source.handle target.handle) := by
  have hall := mapM_eq_ok.mp h
  clear h
  induction hall with
  | nil => rfl
  | cons hmethod _ ih =>
    rw [List.map_cons, List.map_cons, List.map_cons, ih, (methodFor_eq_ok hmethod).2]

/-- The keys of a registration are different. -/
theorem nodup_keys (registration : Registration) : registration.keys.Nodup := by
  cases registration with
  | classes source target overrides mode =>
    cases mode <;> simp [Registration.keys, Mode.directions, MappingKey.of]
  | enums source target overrides => exact List.nodup_singleton _

/-- **What a registration does**: it enters what it provides under keys that are all new. -/
theorem enter_eq_ok (h : r.enter registration = .ok r') :
    ∃ entries, r' = ⟨r.mappings ++ entries⟩ ∧ entries.map (·.1) = registration.keys ∧
      ∀ entry ∈ entries, r.contains entry.1 = false ∧ r.Provides registration entry.1 entry.2 := by
  cases registration with
  | classes source target overrides mode =>
    obtain ⟨methods, hmethods, hinsert⟩ := bind_eq_ok.mp h
    obtain ⟨rfl, hnew⟩ := insertAll_eq_ok hinsert
    rw [methodsFor] at hmethods
    split at hmethods
    · cases hmethods
    · refine ⟨_, rfl, keys_mapM_methodFor hmethods, fun entry hmem => ⟨hnew entry hmem, ?_⟩⟩
      obtain ⟨m, hm, rfl⟩ := List.mem_map.mp hmem
      obtain ⟨direction, hdirection, hmethod⟩ := exists_mem_of_mem_mapM hmethods hm
      obtain ⟨⟨p, hmade⟩, hkey⟩ := methodFor_eq_ok hmethod
      rw [hkey]
      exact .method hdirection hmade
  | enums source target overrides =>
    obtain ⟨m, hbuild, hinsert⟩ := bind_eq_ok.mp h
    obtain ⟨rfl, hnew⟩ := insertAll_eq_ok hinsert
    refine ⟨_, rfl, rfl, fun entry hmem => ⟨hnew entry hmem, ?_⟩⟩
    obtain rfl := List.mem_singleton.mp hmem
    exact .enum hbuild

/-- A registry keeps what it has. -/
theorem lookup_of_enter {registered : Registered} (h : r.enter registration = .ok r')
    (hlookup : r.lookup? key = some registered) : r'.lookup? key = some registered := by
  obtain ⟨entries, rfl, -⟩ := enter_eq_ok h
  exact lookup_append hlookup

/-- Methods stay when a registration is entered. -/
theorem methodTable_of_enter (h : r.enter registration = .ok r') (s t : ClassHandle)
    (d : Direction) (hmethod : r.methodTable s t d = true) : r'.methodTable s t d = true := by
  obtain ⟨registered, hlookup⟩ := Option.isSome_iff_exists.mp hmethod
  exact Option.isSome_iff_exists.mpr ⟨registered, lookup_of_enter h hlookup⟩

/-- Under its keys a registration provides what the new registry has there. -/
theorem provides_of_enter (h : r.enter registration = .ok r') (hkey : key ∈ registration.keys) :
    ∃ registered, r'.lookup? key = some registered ∧ r'.Provides registration key registered := by
  obtain ⟨entries, hr', hkeys, hentries⟩ := enter_eq_ok h
  obtain ⟨⟨k, registered⟩, hmem, hk⟩ := List.mem_map.mp (hkeys ▸ hkey)
  obtain rfl : k = key := hk
  obtain ⟨hnew, hprovides⟩ := hentries _ hmem
  refine ⟨registered, ?_, hprovides.mono (methodTable_of_enter h)⟩
  rw [hr']
  exact lookup_append_of_new hnew (hkeys ▸ nodup_keys registration) hmem

/-- What is new in a registry stands under a key of the registration that led to it. -/
theorem mem_keys_of_enter (h : r.enter registration = .ok r') (hold : r.contains key = false)
    (hnew : r'.contains key = true) : key ∈ registration.keys := by
  obtain ⟨entries, rfl, hkeys, -⟩ := enter_eq_ok h
  refine hkeys ▸ (contains_append.mp hnew).resolve_left ?_
  rw [hold]
  exact nofun

end Step

/-! ## All registrations -/

namespace Reached

variable {log : List Registration} {r : Registry} {registration : Registration} {key : MappingKey}

/-- **A registration provides what stands under its keys**, whatever was registered after it. -/
theorem provides (h : Reached log r) (hmem : registration ∈ log) (hkey : key ∈ registration.keys) :
    ∃ registered, r.lookup? key = some registered ∧ r.Provides registration key registered := by
  induction h with
  | empty => simp at hmem
  | @enter log r r' latest hreached hentered ih =>
    rcases List.mem_cons.mp hmem with rfl | hearlier
    · exact provides_of_enter hentered hkey
    · obtain ⟨registered, hlookup, hprovides⟩ := ih hearlier
      exact ⟨registered, lookup_of_enter hentered hlookup,
        hprovides.mono (methodTable_of_enter hentered)⟩

/-- **What stands under a key goes back to a registration.** -/
theorem exists_registration (h : Reached log r) (hkey : r.contains key = true) :
    ∃ registration ∈ log, key ∈ registration.keys := by
  induction h with
  | empty => cases hkey
  | @enter log r r' latest hreached hentered ih =>
    cases hold : r.contains key with
    | false => exact ⟨latest, List.mem_cons_self, mem_keys_of_enter hentered hold hkey⟩
    | true =>
      obtain ⟨registration, hmem, hkeys⟩ := ih hold
      exact ⟨registration, List.mem_cons_of_mem _ hmem, hkeys⟩

/-- What is looked up was provided by a registration. -/
theorem exists_provides {registered : Registered} (h : Reached log r)
    (hlookup : r.lookup? key = some registered) :
    ∃ registration ∈ log, r.Provides registration key registered := by
  have hcontains : r.contains key = true := by rw [contains, hlookup]; rfl
  obtain ⟨registration, hmem, hkey⟩ := h.exists_registration hcontains
  obtain ⟨found, hfound, hprovides⟩ := h.provides hmem hkey
  obtain rfl : registered = found := Option.some.inj (hlookup.symm.trans hfound)
  exact ⟨registration, hmem, hprovides⟩

/-- A method in a registry was made by a registration of two classes. -/
theorem lookup_method {s t : ClassHandle} {direction : Direction} {m : MappingMethod}
    (h : Reached log r) (hlookup : r.lookup? (.of s t direction) = some (.method m)) :
    ∃ source target overrides mode p methods,
      .classes source target overrides mode ∈ log ∧ direction ∈ mode.directions ∧
        source.handle.id = s.id ∧ target.handle.id = t.id ∧
          r.Makes source target overrides direction p methods m := by
  obtain ⟨registration, hmem, hprovides⟩ := h.exists_provides hlookup
  generalize hkey : MappingKey.of s t direction = key at hprovides
  cases hprovides with
  | method hdirection hmade =>
    obtain ⟨hsource, htarget, rfl⟩ := MappingKey.mk.inj hkey
    exact ⟨_, _, _, _, _, _, hmem, hdirection, hsource.symm, htarget.symm, hmade⟩

/-- An enum mapping in a registry was built by a registration of two enum classes. -/
theorem lookup_enum {s t : ClassHandle} {direction : Direction} {m : EnumMapping}
    (h : Reached log r) (hlookup : r.lookup? (.of s t direction) = some (.enum m)) :
    ∃ source target overrides, .enums source target overrides ∈ log ∧ source.handle.id = s.id ∧
      target.handle.id = t.id ∧ EnumMapping.build source target overrides = .ok m := by
  obtain ⟨registration, hmem, hprovides⟩ := h.exists_provides hlookup
  generalize hkey : MappingKey.of s t direction = key at hprovides
  cases hprovides with
  | enum hbuild =>
    obtain ⟨hsource, htarget, -⟩ := MappingKey.mk.inj hkey
    exact ⟨_, _, _, hmem, hsource.symm, htarget.symm, hbuild⟩

end Reached

end Registry

/-! ## A small registry

Two mappings, one of which needs the other: an order holds an item, and its view holds a view of the
item. -/

namespace Sample

/-- What is ordered. -/
def item : ClassHandle := ⟨9, "Item"⟩

/-- The view of an item. -/
def itemView : ClassHandle := ⟨10, "ItemView"⟩

/-- An order of one item. -/
def order : ClassHandle := ⟨11, "Order"⟩

/-- The view of an order. -/
def orderView : ClassHandle := ⟨12, "OrderView"⟩

/-- A field that has to be given under its own name. -/
def slot (name : String) (type : FieldType) : Slot := ⟨name, type, none, none, true, true⟩

/-- An item has a name. -/
def itemClass : Class := ⟨item, [slot "name" (.builtin .str)], .dataclass⟩

/-- So has the view of an item. -/
def itemViewClass : Class := ⟨itemView, [slot "name" (.builtin .str)], .dataclass⟩

/-- An order holds an item. -/
def orderClass : Class := ⟨order, [slot "item" (.named item)], .dataclass⟩

/-- The view of an order also has an owner, who does not come from the order. -/
def orderViewClass : Class :=
  ⟨orderView, [slot "item" (.optional (.named itemView)), slot "owner" (.builtin .str)], .dataclass⟩

/-- The mapping of items was registered first, and then the mapping of orders, which needs it. -/
def log : List Registration :=
  [.classes orderClass orderViewClass [("owner", .fromExtra "owner")] .createAndUpdate,
    .classes itemClass itemViewClass [] .createAndUpdate]

/-- The registry that the log leads to. -/
def registry : Registry :=
  match Registry.replay log with
  | .ok r => r
  | .error _ => .empty

/-- The sample registry is reached by its registrations. -/
theorem reached : Registry.Reached log registry := by
  have hok : (Registry.replay log).isOk = true := by decide +kernel
  rw [Registry.reached_iff_replay, registry]
  cases hreplay : Registry.replay log with
  | ok r => rfl
  | error e =>
    rw [hreplay] at hok
    cases hok

/-- An item, and in the same way a view of one. -/
def named (handle : ClassHandle) (name : String) : Value := .object handle [("name", .str name)] []

/-- An order of an item. -/
def orderOf (name : String) : Value := .object order [("item", named item name)] []

/-- The view of an order. -/
def viewOf (name owner : String) : Value :=
  .object orderView [("item", named itemView name), ("owner", .str owner)] []

/-- The caller's values, which name the owner. -/
def extra : Extra := [("owner", .str "me")]

end Sample

end ObjectMapping
