import ObjectMapping.CommandLine.Execution
import ObjectMapping.Proofs.Registry.Listing
import ObjectMapping.Proofs.Schema.Closure

/-! # Printing all methods

Without a pair of classes the methods of every mapping are printed. A catalog keeps the names of the
classes of each mapping that was registered, and for each of them the methods in both directions are
looked up and printed in a block. So nothing is missing, in whatever order the mappings were
registered. A pair of classes that has two mappings, one for each direction, stands in the list
twice, though, and both its methods are printed twice.

* `Catalog.methodsOf` are the methods between the classes of two names, `Catalog.blockText` is what
  is printed for them.
* **`Catalog.plan_lists_methods`** — a schema that loads is printed in full, and every method is
  printed once if and only if no two mappings are between the same classes.
* **`plan_lists_twice`** — methods that are printed twice. -/

namespace ObjectMapping

open Outcome

namespace Catalog

variable {c c' : Catalog} {names : String × String}

/-- The methods between the classes of two names. -/
def methodsOf (c : Catalog) (names : String × String) : List MappingMethod :=
  match c.classNamed names.1, c.classNamed names.2 with
  | .ok source, .ok target => c.methods source target
  | _, _ => []

/-- What is printed for the methods between the classes of two names. -/
def blockText (names : String × String) (methods : List MappingMethod) : String :=
  "# " ++ names.1 ++ " -> " ++ names.2 ++ "\n" ++ Function.moduleText (methods.map (·.function))

/-- The text for a pair with methods is the block of them. -/
theorem pairText_eq (h : c.methodsOf names ≠ []) :
    c.pairText names = .ok (blockText names (c.methodsOf names)) := by
  rw [methodsOf] at h ⊢
  rw [pairText, render]
  split at h
  · next source target hsource htarget =>
    rw [hsource, htarget, ok_bind, ok_bind, if_neg (by simpa using h)]
    rfl
  · exact absurd rfl h

/-- The listing for pairs with methods has a block for each pair. -/
theorem listing_eq {pairs : List (String × String)} (h : ∀ names ∈ pairs, c.methodsOf names ≠ []) :
    c.listing pairs
      = .ok ("\n".intercalate (pairs.map fun names => blockText names (c.methodsOf names))) := by
  have hall : pairs.mapM c.pairText
      = .ok (pairs.map fun names => blockText names (c.methodsOf names)) := by
    refine mapM_eq_ok.mpr (List.forall₂_map_right_iff.mpr (List.forall₂_same.mpr ?_))
    exact fun names hmem => pairText_eq (h names hmem)
  rw [listing, hall]
  rfl

/-- A command that has read its schemas goes on with the text that it prints. -/
theorem runPlan_of_read {σ : Type} {files : Files (StateM σ)} {p : PlanCommand} {text : String}
    {s s' : σ} (htext : p.text c = .ok text)
    (hread : (CommandLine.readCatalog files p.schemas).run.run s = (.ok c, s')) :
    (CommandLine.runPlan files p).run.run s = (CommandLine.emit files p.out? text).run.run s' := by
  rw [CommandLine.runPlan, ExceptT.run_bind, StateT.run_bind, hread]
  show ((CommandLine.ofExcept (p.text c) >>= CommandLine.emit files p.out?).run).run s' = _
  rw [htext, CommandLine.ofExcept, pure_bind]

/-! ## Numbers of classes -/

/-- The numbers of the classes of two names. -/
def endsOf (c : Catalog) (names : String × String) : Nat × Nat := (c.idOf names.1, c.idOf names.2)

/-- The methods between two classes are those that the registry has between them. -/
theorem methods_eq (source target : Class) :
    c.methods source target = c.registry.methodsBetween (source.handle.id, target.handle.id) := by
  refine List.filterMap_congr fun direction _ => ?_
  show _ = (c.registry.lookup? (.of source.handle target.handle direction)).bind Registered.method?
  rcases c.registry.lookup? (.of source.handle target.handle direction) with _ | ⟨_ | _⟩ <;> rfl

/-- The methods for two names are those between the classes of these names. -/
theorem methodsOf_eq {source target : Class} (hsource : c.classNamed names.1 = .ok source)
    (htarget : c.classNamed names.2 = .ok target) :
    c.methodsOf names = c.registry.methodsBetween (source.handle.id, target.handle.id) := by
  rw [methodsOf, hsource, htarget]
  exact methods_eq source target

/-- The ends for two names are the classes of these names. -/
theorem endsOf_eq {source target : Class} (hsource : c.classNamed names.1 = .ok source)
    (htarget : c.classNamed names.2 = .ok target) :
    c.endsOf names = (source.handle.id, target.handle.id) := by
  rw [endsOf, idOf, idOf, hsource, htarget]

/-- A mapping asks for methods between the classes that it names. -/
theorem ends_of_registration {entry : MappingEntry} {registration : Registration}
    (h : c.registration entry = .ok registration) : registration.ends = c.endsOf entry.names := by
  obtain ⟨source, target, overrides, hsource, htarget, rfl⟩ := registration_eq_ok h
  exact (endsOf_eq hsource htarget).symm

/-- Mappings ask for methods between the classes that they name, one after another. -/
theorem map_ends_eq {entries : List MappingEntry} {registrations : List Registration}
    (h : entries.mapM c.registration = .ok registrations) :
    registrations.map Registration.ends = (entries.map MappingEntry.names).map c.endsOf := by
  have hall := mapM_eq_ok.mp h
  clear h
  induction hall with
  | nil => rfl
  | cons hentry _ ih =>
    rw [List.map_cons, List.map_cons, List.map_cons, ends_of_registration hentry, ih]

/-! ## Before mappings are registered -/

/-- To define enums adds no mapping. -/
theorem mappings_of_defineEnums {known : List String} {entries : List EnumEntry}
    (h : c.defineEnums known entries = .ok c') : c'.mappings = c.mappings := by
  induction entries generalizing c known with
  | nil => exact Except.ok.inj h ▸ rfl
  | cons entry rest ih =>
    obtain ⟨⟨handle, next⟩, hdeclare, hrest⟩ := bind_eq_ok.mp h
    obtain ⟨-, names, rfl⟩ := declare_eq_ok hdeclare
    have hkept := ih hrest
    exact hkept

/-- To declare classes adds no mapping. -/
theorem mappings_of_declareClasses {known : List String} {entries : List ClassEntry}
    {declared : List (ClassEntry × ClassHandle)}
    (h : c.declareClasses known entries = .ok (declared, c')) : c'.mappings = c.mappings := by
  induction entries generalizing c known declared with
  | nil => exact (Prod.mk.inj (Except.ok.inj h)).2 ▸ rfl
  | cons entry rest ih =>
    obtain ⟨⟨handle, next⟩, hdeclare, hrest⟩ := bind_eq_ok.mp h
    obtain ⟨⟨others, last⟩, hothers, hcons⟩ := bind_eq_ok.mp hrest
    obtain ⟨-, rfl⟩ := Prod.mk.inj (Except.ok.inj hcons)
    obtain ⟨-, names, rfl⟩ := declare_eq_ok hdeclare
    have hkept := ih hothers
    exact hkept

/-- To define classes adds no mapping. -/
theorem mappings_of_defineClasses {declared : List (ClassEntry × ClassHandle)}
    (h : c.defineClasses declared = .ok c') : c'.mappings = c.mappings := by
  induction declared generalizing c with
  | nil => exact Except.ok.inj h ▸ rfl
  | cons entry rest ih =>
    obtain ⟨found, -, hrest⟩ := bind_eq_ok.mp h
    have hkept := ih hrest
    exact hkept

/-- Mappings between enum classes add no method, and they are not in the list of mappings. -/
theorem listed_of_registerEnums {entries : List EnumMappingEntry}
    (h : c.registerEnums entries = .ok c') (hfiled : c.registry.Filed) :
    c'.mappings = c.mappings ∧ c'.registry.Filed ∧
      c'.registry.generated = c.registry.generated := by
  induction entries generalizing c with
  | nil => exact Except.ok.inj h ▸ ⟨rfl, hfiled, rfl⟩
  | cons entry rest ih =>
    obtain ⟨source, -, hother⟩ := bind_eq_ok.mp h
    obtain ⟨target, -, hregister⟩ := bind_eq_ok.mp hother
    obtain ⟨registry, hregistry, hrest⟩ := bind_eq_ok.mp hregister
    have hentered : c.registry.enter (.enums source target entry.overrides) = .ok registry :=
      hregistry
    obtain ⟨hmappings, hlast, hgenerated⟩ := ih hrest (hfiled.enter hentered)
    exact ⟨hmappings, hlast, hgenerated.trans (Registry.generated_of_enums hentered)⟩

/-- A catalog whose mappings are not registered yet lists none, and has no method. -/
theorem listed_of_prepare {schema : Schema} {firstId : Nat}
    (h : prepare schema .empty firstId = .ok c) :
    c.mappings = [] ∧ c.registry.Filed ∧ c.registry.generated = [] := by
  obtain ⟨enums, henums, hafterEnums⟩ := bind_eq_ok.mp h
  obtain ⟨⟨declared, declaring⟩, hdeclare, hafterDeclare⟩ := bind_eq_ok.mp hafterEnums
  obtain ⟨defined, hdefine, hregister⟩ := bind_eq_ok.mp hafterDeclare
  have hregistry : defined.registry = .empty :=
    (defineClasses_eq_ok hdefine).2.1.trans
      ((declareClasses_eq_ok hdeclare).2.2.1.trans (defineEnums_eq_ok henums).2.1)
  have hmappings : defined.mappings = [] :=
    (mappings_of_defineClasses hdefine).trans
      ((mappings_of_declareClasses hdeclare).trans (mappings_of_defineEnums henums))
  obtain ⟨hlisted, hfiled, hgenerated⟩ :=
    listed_of_registerEnums hregister (hregistry ▸ Registry.filed_empty)
  exact ⟨hlisted.trans hmappings, hfiled, hgenerated.trans (hregistry ▸ rfl)⟩

/-! ## All methods -/

/-- The mappings of a loaded schema, in the order in which they were registered. -/
theorem exists_registered_of_load {schema : Schema} {firstId : Nat}
    (h : load schema .empty firstId = .ok c) :
    ∃ prepared order registrations, prepare schema .empty firstId = .ok prepared ∧
      order.Perm schema.mappings ∧ order.mapM prepared.registration = .ok registrations ∧
        prepared.registry.enterAll registrations = .ok c.registry ∧
          c = prepared.extended c.registry order := by
  rw [load_eq] at h
  obtain ⟨prepared, hprepared, hall⟩ := bind_eq_ok.mp h
  obtain ⟨order, hperm, hregistered⟩ := exists_order_of_registerAll hall
  obtain ⟨registrations, registry, hasked, hentered, rfl⟩ := foldlM_register_eq_ok.mp hregistered
  exact ⟨prepared, order, registrations, hprepared, hperm, hasked, hentered, rfl⟩

/-- The classes of a mapping that can be asked for. -/
theorem exists_classes_of_names {entries : List MappingEntry} {registrations : List Registration}
    (h : entries.mapM c.registration = .ok registrations)
    (hmem : names ∈ entries.map MappingEntry.names) : ∃ source target overrides mode,
      c.classNamed names.1 = .ok source ∧ c.classNamed names.2 = .ok target ∧
        .classes source target overrides mode ∈ registrations := by
  obtain ⟨entry, hentry, rfl⟩ := List.mem_map.mp hmem
  obtain ⟨registration, hin, hregistration⟩ := exists_of_forall₂ (mapM_eq_ok.mp h) hentry
  obtain ⟨source, target, overrides, hsource, htarget, rfl⟩ := registration_eq_ok hregistration
  exact ⟨source, target, overrides, entry.mode, hsource, htarget, hin⟩

/-- Mappings between classes of different names are between different classes. -/
theorem Numbered.nodup_ends (h : c.Numbered) {entries : List MappingEntry}
    {registrations : List Registration} (hasked : entries.mapM c.registration = .ok registrations)
    (hnodup : (entries.map MappingEntry.names).Nodup) :
    (registrations.map Registration.ends).Nodup := by
  rw [map_ends_eq hasked]
  refine hnodup.map_on fun names hmem names' hmem' heq => ?_
  obtain ⟨source, target, -, -, hsource, htarget, -⟩ := exists_classes_of_names hasked hmem
  obtain ⟨source', target', -, -, hsource', htarget', -⟩ := exists_classes_of_names hasked hmem'
  rw [endsOf_eq hsource htarget, endsOf_eq hsource' htarget'] at heq
  obtain ⟨hs, ht⟩ := Prod.mk.inj heq
  exact Prod.ext (h.name_eq hsource hsource' hs) (h.name_eq htarget htarget' ht)

/-- What is listed without repetition was not repeated itself, unless nothing stands for it. -/
theorem nodup_of_nodup_flatMap {α β : Type} {items : List α} {f : α → List β}
    (h : (items.flatMap f).Nodup) (hne : ∀ item ∈ items, f item ≠ []) : items.Nodup := by
  refine (List.nodup_flatMap.mp h).2.imp_of_mem fun {a b} ha _ hdisjoint heq => ?_
  obtain ⟨x, hx⟩ := List.exists_mem_of_ne_nil _ (hne a ha)
  exact hdisjoint hx (heq ▸ hx)

/-- **The blocks of a loaded schema.** There is one for every mapping, in the order in which they
were registered. No block is empty, and every method between classes is in a block. The blocks are
all methods in the order in which they were registered if and only if no two mappings are between
the same classes. -/
theorem blocks_of_load {schema : Schema} {firstId : Nat} (h : load schema .empty firstId = .ok c) :
    c.mappings.Perm (schema.mappings.map MappingEntry.names) ∧
    (∀ names ∈ c.mappings, c.methodsOf names ≠ []) ∧
    (∀ m, m ∈ c.registry.generated ↔ ∃ names ∈ c.mappings, m ∈ c.methodsOf names) ∧
    (c.mappings.flatMap c.methodsOf = c.registry.generated ↔
      (schema.mappings.map MappingEntry.names).Nodup) := by
  obtain ⟨prepared, order, registrations, hprepared, hperm, hasked, hentered, hc⟩ :=
    exists_registered_of_load h
  obtain ⟨hnone, hfiled, hempty⟩ := listed_of_prepare hprepared
  obtain ⟨hnumbered, -⟩ := prepare_eq_ok hprepared
  have hmappings : c.mappings = order.map MappingEntry.names := by
    rw [hc]
    exact (congrArg (· ++ _) hnone).trans (List.nil_append _)
  have hends : registrations.map Registration.ends = c.mappings.map prepared.endsOf :=
    hmappings ▸ map_ends_eq hasked
  have hnodup : c.mappings.Nodup ↔ (schema.mappings.map MappingEntry.names).Nodup :=
    hmappings ▸ (hperm.map _).nodup_iff
  -- a block holds the methods between two classes, and there is one at least
  have hblock : ∀ names ∈ c.mappings,
      c.methodsOf names = c.registry.methodsBetween (prepared.endsOf names) ∧
        c.methodsOf names ≠ [] := by
    intro names hmem
    obtain ⟨source, target, overrides, mode, hsource, htarget, hin⟩ :=
      exists_classes_of_names hasked (hmappings ▸ hmem)
    have hmethods : c.methodsOf names
        = c.registry.methodsBetween (source.handle.id, target.handle.id) := by
      refine methodsOf_eq ?_ ?_
      · rw [hc]
        exact hsource
      · rw [hc]
        exact htarget
    exact ⟨hmethods.trans (congrArg _ (endsOf_eq hsource htarget).symm),
      hmethods ▸ Registry.methodsBetween_ne_nil hentered hin⟩
  refine ⟨hmappings ▸ hperm.map _, fun names hmem => (hblock names hmem).2, fun m => ?_, ?_, ?_⟩
  · rw [Registry.mem_generated_iff hfiled hempty hentered, hends]
    constructor
    · rintro ⟨ends, hmem, hm⟩
      obtain ⟨names, hnames, rfl⟩ := List.mem_map.mp hmem
      exact ⟨names, hnames, (hblock names hnames).1 ▸ hm⟩
    · rintro ⟨names, hnames, hm⟩
      exact ⟨_, List.mem_map_of_mem hnames, (hblock names hnames).1 ▸ hm⟩
  · -- a block that is printed twice has methods, which are not there twice
    intro hall
    rw [← hnodup]
    have honce := (hfiled.enterAll hentered).nodup_generated
    exact nodup_of_nodup_flatMap (hall ▸ honce) fun names hmem => (hblock names hmem).2
  · -- where no two mappings share their classes, each one adds its methods behind those before it
    intro hdistinct
    rw [← hnodup] at hdistinct
    have hnew := hnumbered.nodup_ends hasked (hmappings ▸ hdistinct)
    obtain ⟨hgenerated, -⟩ := Registry.generated_of_enterAll hentered hnew fun ends _ =>
      Registry.methodsBetween_of_empty hempty ends
    rw [hgenerated, hempty, List.nil_append, hends, List.flatMap_map]
    exact List.flatMap_congr fun names hmem => (hblock names hmem).1

/-- The mappings of schemas that are put together. -/
theorem mappings_foldl_merge (schemas : List Schema) (first : Schema) :
    (schemas.foldl Schema.merge first).mappings
      = first.mappings ++ schemas.flatMap Schema.mappings := by
  induction schemas generalizing first with
  | nil => exact (List.append_nil _).symm
  | cons schema rest ih => rw [List.foldl_cons, ih, List.flatMap_cons, ← List.append_assoc]; rfl

/-- **All methods are printed, and once unless classes have two mappings.** Let schemas load. Then
the command that prints methods, asked for no pair of classes, succeeds. It prints a block for every
mapping, in the order in which they were registered, with the methods between the classes of the
mapping. No block is empty, and every method between classes is in a block. The blocks are all
methods once, in the order in which they were registered, if and only if no two mappings are between
the same classes. -/
theorem plan_lists_methods {schemas : List Schema} {p : PlanCommand} (hpair : p.pair? = none)
    (hload : load (schemas.foldl Schema.merge .empty) .empty ClassHandle.firstFree = .ok c) :
    ∃ text, p.text c = .ok text ∧
      (∀ {σ : Type} (files : Files (StateM σ)) (s s' : σ),
        (CommandLine.readCatalog files p.schemas).run.run s = (.ok c, s') →
          (CommandLine.runPlan files p).run.run s
            = (CommandLine.emit files p.out? text).run.run s') ∧
      text = "\n".intercalate (c.mappings.map fun names => blockText names (c.methodsOf names)) ∧
      c.mappings.Perm ((schemas.flatMap Schema.mappings).map MappingEntry.names) ∧
      (∀ names ∈ c.mappings, c.methodsOf names ≠ []) ∧
      (∀ m, m ∈ c.registry.generated ↔ ∃ names ∈ c.mappings, m ∈ c.methodsOf names) ∧
      (c.mappings.flatMap c.methodsOf = c.registry.generated ↔
        ((schemas.flatMap Schema.mappings).map MappingEntry.names).Nodup) := by
  have hblocks := blocks_of_load hload
  rw [mappings_foldl_merge, show Schema.empty.mappings = [] from rfl, List.nil_append] at hblocks
  have htext : p.text c = .ok
      ("\n".intercalate (c.mappings.map fun names => blockText names (c.methodsOf names))) := by
    rw [PlanCommand.text, hpair]
    exact listing_eq hblocks.2.1
  refine ⟨_, htext, fun files s s' hread => ?_, rfl, hblocks⟩
  exact runPlan_of_read htext hread

end Catalog

/-! ## Patches in two schemas -/

namespace Sample

/-- Patches of orders. The mapping of the items, which the one of orders needs, is in a second schema.
-/
def patchSchemas : List Schema :=
  [patchSchema [orderEntry], { Schema.empty with mappings := [itemEntry] }]

/-- Patches of items, with a mapping for each direction in a schema of its own. -/
def splitSchemas : List Schema :=
  [patchSchema [itemCreateEntry], { Schema.empty with mappings := [itemUpdateEntry] }]

/-- Prints all methods. -/
def planAll : PlanCommand := ⟨["patches.json", "items.json"], none, none⟩

/-- The code of the two methods for items. -/
def itemTexts : List String :=
  ["def convert(self, extra: 'dict') -> 'Item':\n" ++
      "    d = \x7b\x7d\n" ++
      "    d['name'] = self.name\n" ++
      "    return Item(**d)\n",
    "def update(self, target: 'Item', extra: 'dict') -> None:\n" ++
      "    target.name = self.name\n"]

/-- The block of the two methods for items. -/
def itemBlock : String := "# ItemPatch -> Item\n" ++ "\n".intercalate itemTexts

end Sample

/-- The methods of orders and items are printed once, those of items first. -/
theorem plan_lists_methods_patches : ∃ c text,
    Catalog.load (Sample.patchSchemas.foldl Schema.merge .empty) .empty ClassHandle.firstFree
      = .ok c ∧
    Sample.planAll.text c = .ok text ∧
    c.mappings = [("ItemPatch", "Item"), ("OrderPatch", "Order")] ∧
    text = "\n".intercalate [
      Catalog.blockText ("ItemPatch", "Item") (c.methodsOf ("ItemPatch", "Item")),
      Catalog.blockText ("OrderPatch", "Order") (c.methodsOf ("OrderPatch", "Order"))] ∧
    c.mappings.flatMap c.methodsOf = c.registry.generated := by
  obtain ⟨c, hload, hmappings⟩ := map_eq_ok.mp
    (show (Catalog.load (Sample.patchSchemas.foldl Schema.merge .empty) .empty
      ClassHandle.firstFree).map (·.mappings) = .ok [("ItemPatch", "Item"), ("OrderPatch", "Order")]
      by decide +kernel)
  obtain ⟨text, hprinted, -, htext, -, -, -, honce⟩ :=
    Catalog.plan_lists_methods (p := Sample.planAll) rfl hload
  refine ⟨c, text, hload, hprinted, hmappings, ?_, honce.mpr (by decide)⟩
  rw [htext, hmappings]
  rfl

/-- **Methods are printed twice if their classes have two mappings.** Items have a create and an
update method, each from a mapping of its own, and the block with both is printed for either mapping.
-/
theorem plan_lists_twice : ∃ c,
    Catalog.load (Sample.splitSchemas.foldl Schema.merge .empty) .empty ClassHandle.firstFree
      = .ok c ∧
    c.registry.generated.map MappingMethod.text = Sample.itemTexts ∧
    (c.mappings.flatMap c.methodsOf).map MappingMethod.text
      = Sample.itemTexts ++ Sample.itemTexts ∧
    Sample.planAll.text c = .ok (Sample.itemBlock ++ "\n" ++ Sample.itemBlock) := by
  obtain ⟨c, hload, hprinted⟩ := map_eq_ok.mp
    (show (Catalog.load (Sample.splitSchemas.foldl Schema.merge .empty) .empty
      ClassHandle.firstFree).map (fun c => (c.registry.generated.map MappingMethod.text,
        (c.mappings.flatMap c.methodsOf).map MappingMethod.text, Sample.planAll.text c))
          = .ok (Sample.itemTexts, Sample.itemTexts ++ Sample.itemTexts,
            .ok (Sample.itemBlock ++ "\n" ++ Sample.itemBlock)) by decide +kernel)
  obtain ⟨htexts, hrest⟩ := Prod.mk.inj hprinted
  obtain ⟨hblocks, htext⟩ := Prod.mk.inj hrest
  exact ⟨c, hload, htexts, hblocks, htext⟩

end ObjectMapping
