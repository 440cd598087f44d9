import ObjectMapping.Proofs.Registry.Pairing
import ObjectMapping.Proofs.Schema.Preparation

/-! # Mappings in another order

In whatever order mappings are declared, they end up with the same create methods. Update methods may
differ: one changes a nested object in place if the update method for it was registered earlier, and
replaces the object otherwise, which succeeds as soon as new ones can be made. They do not differ if
every mapping is declared as a whole, with its create method.

* `MappingEntry.Paired`: a mapping that is declared as a whole, between different classes.
* **`Catalog.load_of_perm`** — then the order does not matter, and every method changes nested objects
  in place where the schema declares a mapping for it.
* **`load_order_matters`** — otherwise it does. -/

namespace ObjectMapping

open Outcome

/-- Whether a mapping is declared with its create method, and between classes of different names. -/
def MappingEntry.Paired (entry : MappingEntry) : Prop :=
  entry.mode ≠ .update ∧ entry.source ≠ entry.target

namespace Catalog

variable {c c' : Catalog} {entries others : List MappingEntry}

/-- What paired declarations ask for is paired. -/
theorem paired_of_registration (hnumbered : c.Numbered) {entry : MappingEntry}
    (hpaired : entry.Paired) {registration : Registration}
    (h : c.registration entry = .ok registration) : registration.Paired := by
  obtain ⟨source, target, overrides, hsource, htarget, rfl⟩ := registration_eq_ok h
  exact ⟨hpaired.1, fun hid => hpaired.2 (hnumbered.name_eq hsource htarget hid)⟩

/-- What paired mappings ask for is paired. -/
theorem paired_of_mapM (hnumbered : c.Numbered) (hpaired : ∀ entry ∈ entries, entry.Paired)
    {registrations : List Registration} (h : entries.mapM c.registration = .ok registrations) :
    ∀ registration ∈ registrations, registration.Paired := by
  intro registration hmem
  obtain ⟨entry, hentry, hregistration⟩ := exists_mem_of_mem_mapM h hmem
  exact paired_of_registration hnumbered (hpaired entry hentry) hregistration

/-- **Paired mappings lead to the same methods in every order.** -/
theorem lookup_of_perm (hnumbered : c.Numbered) (hpaired : ∀ entry ∈ entries, entry.Paired)
    (hperm : entries.Perm others) {other : Catalog} (h : entries.foldlM register c = .ok c')
    (h' : others.foldlM register c = .ok other) (key : MappingKey) :
    c'.registry.lookup? key = other.registry.lookup? key := by
  obtain ⟨registrations, registry, hregistrations, hall, rfl⟩ := foldlM_register_eq_ok.mp h
  obtain ⟨registrations', registry', hregistrations', hall', rfl⟩ := foldlM_register_eq_ok.mp h'
  exact Registry.lookup_of_perm (paired_of_mapM hnumbered hpaired hregistrations)
    (perm_of_mapM_eq_ok hperm hregistrations hregistrations') hall hall'

/-- The methods of a declared mapping are those that are made with all methods at hand. -/
def Assembled (c : Catalog) (entry : MappingEntry) : Prop :=
  ∃ source target overrides, c.registration entry = .ok (.classes source target overrides entry.mode) ∧
    ∀ direction ∈ entry.mode.directions, ∃ m,
      c.registry.methodFor source target overrides direction = .ok m ∧
        c.registry.lookup? (.of source.handle target.handle direction) = some (.method m)

/-- Mappings that are paired are assembled when all of them are registered. -/
theorem assembled_of_foldlM (hnumbered : c.Numbered) (hpaired : ∀ entry ∈ entries, entry.Paired)
    (h : entries.foldlM register c = .ok c') : ∀ entry ∈ entries, c'.Assembled entry := by
  obtain ⟨registrations, registry, hregistrations, hall, rfl⟩ := foldlM_register_eq_ok.mp h
  intro entry hmem
  obtain ⟨registration, hin, hregistration⟩ := exists_of_forall₂ (mapM_eq_ok.mp hregistrations) hmem
  obtain ⟨source, target, overrides, -, -, rfl⟩ := registration_eq_ok hregistration
  refine ⟨source, target, overrides, hregistration, fun direction hdirection => ?_⟩
  exact Registry.assembled_of_enterAll (paired_of_mapM hnumbered hpaired hregistrations) hall hin
    hdirection

/-- **The order of mappings does not matter if they are declared as a whole.** Let a schema load whose
mappings all come with their create methods and are between different classes. Then it loads with its
mappings in any other order as well, with the same methods for all classes in both directions. Each of
its methods is the one that is made with all methods of the catalog at hand, so nested objects are
changed in place wherever there is a mapping for it. -/
theorem load_of_perm {schema : Schema} {mappings : List MappingEntry} {registry : Registry}
    {firstId : Nat} (hpaired : ∀ entry ∈ schema.mappings, entry.Paired)
    (hperm : mappings.Perm schema.mappings) (h : load schema registry firstId = .ok c) :
    (∃ c', load { schema with mappings } registry firstId = .ok c' ∧
      ∀ key, c'.registry.lookup? key = c.registry.lookup? key) ∧
    ∀ entry ∈ schema.mappings, c.Assembled entry := by
  rw [load_eq] at h ⊢
  obtain ⟨prepared, hprepared, hall⟩ := bind_eq_ok.mp h
  obtain ⟨hnumbered, -⟩ := prepare_eq_ok hprepared
  obtain ⟨order, horder, hregistered⟩ := exists_order_of_registerAll hall
  have hpaired' : ∀ entry ∈ order, entry.Paired :=
    fun entry hmem => hpaired entry (horder.mem_iff.mp hmem)
  constructor
  · obtain ⟨c', hall'⟩ := Loadable.registerAll ⟨c, hregistered⟩ (horder.trans hperm.symm)
    obtain ⟨order', horder', hregistered'⟩ := exists_order_of_registerAll hall'
    refine ⟨c', bind_eq_ok.mpr ⟨prepared, hprepared, hall'⟩, fun key => ?_⟩
    have hsame := horder.trans (hperm.symm.trans horder'.symm)
    exact (lookup_of_perm hnumbered hpaired' hsame hregistered hregistered' key).symm
  · exact fun entry hmem => assembled_of_foldlM hnumbered hpaired' hregistered entry
      (horder.mem_iff.mpr hmem)

end Catalog

/-! ## Patches of orders -/

namespace Sample

/-- A field that has to be given. -/
def fieldEntry (name typeText : String) : FieldEntry := ⟨name, typeText, none, none, none, true⟩

/-- Orders of items, which have notes, and patches for them, which have none. -/
def patchSchema (mappings : List MappingEntry) : Schema where
  enums := []
  classes :=
    [.dataclass ⟨"ItemPatch", [fieldEntry "name" "str"], false⟩,
      .dataclass ⟨"OrderPatch", [fieldEntry "item" "ItemPatch"], false⟩,
      .dataclass ⟨"Item", [fieldEntry "name" "str",
        ⟨"notes", "List[str]", none, some .list, none, true⟩], false⟩,
      .dataclass ⟨"Order", [fieldEntry "item" "Item"], false⟩]
  mappings := mappings
  enumMappings := []

/-- The mapping of orders as a whole. -/
def orderEntry : MappingEntry := ⟨"OrderPatch", "Order", .createAndUpdate, []⟩

/-- The mapping of items as a whole, which makes items with certain notes. -/
def itemEntry : MappingEntry := ⟨"ItemPatch", "Item", .createAndUpdate, [("notes", .fromExtra "notes")]⟩

/-- The mapping of items in two parts: new items have no notes, and changed ones keep theirs. -/
def itemCreateEntry : MappingEntry := ⟨"ItemPatch", "Item", .create, []⟩

/-- The second one of these parts. -/
def itemUpdateEntry : MappingEntry := ⟨"ItemPatch", "Item", .update, [("notes", .ignore)]⟩

/-- The code of the update method for orders. -/
def orderUpdateText (c : Catalog) : Option String :=
  match c.registry.lookup? ⟨10, 12, .update⟩ with
  | some (.method m) => some m.text
  | _ => none

/-- The code that changes the item of an order. -/
def changingText : String :=
  "def update(self, target: 'Order', extra: 'dict') -> None:\n" ++
    "    self.item._mapupdate_to_Item_11(target.item, extra)\n"

/-- The code that replaces the item of an order. -/
def replacingText : String :=
  "def update(self, target: 'Order', extra: 'dict') -> None:\n" ++
    "    target.item = self.item._map_to_Item_11(extra)\n"

/-- Mappings of patches load, and lead to a certain update method for orders. -/
theorem exists_load_patchSchema {mappings : List MappingEntry} {text : String}
    (h : ((Catalog.load (patchSchema mappings) .empty 9).map orderUpdateText).toOption
      = some (some text)) :
    ∃ c, Catalog.load (patchSchema mappings) .empty 9 = .ok c ∧ orderUpdateText c = some text := by
  cases hload : Catalog.load (patchSchema mappings) .empty 9 with
  | error e =>
    rw [hload] at h
    cases h
  | ok c =>
    rw [hload] at h
    exact ⟨c, rfl, Option.some.inj h⟩

end Sample

/-- Mappings of orders and items that are declared as a whole may stand in either order: items are
changed in place. -/
theorem load_of_perm_patches : ∃ c c',
    Catalog.load (Sample.patchSchema [Sample.orderEntry, Sample.itemEntry]) .empty 9 = .ok c ∧
    Catalog.load (Sample.patchSchema [Sample.itemEntry, Sample.orderEntry]) .empty 9 = .ok c' ∧
    (∀ key, c'.registry.lookup? key = c.registry.lookup? key) ∧
    Sample.orderUpdateText c = some Sample.changingText := by
  have hpaired : ∀ entry ∈ [Sample.orderEntry, Sample.itemEntry], entry.Paired := by
    simp [MappingEntry.Paired, Sample.orderEntry, Sample.itemEntry]
  have hperm : [Sample.itemEntry, Sample.orderEntry].Perm [Sample.orderEntry, Sample.itemEntry] :=
    .swap _ _ _
  obtain ⟨c, hload, htext⟩ := Sample.exists_load_patchSchema
    (show ((Catalog.load (Sample.patchSchema [Sample.orderEntry, Sample.itemEntry]) .empty 9).map
      Sample.orderUpdateText).toOption = some (some Sample.changingText) by decide +kernel)
  obtain ⟨⟨c', hload', hsame⟩, -⟩ := Catalog.load_of_perm hpaired hperm hload
  exact ⟨c, c', hload, hload', hsame, htext⟩

/-- **The order of mappings matters otherwise.** If the mapping of items is declared in two parts, the
update method for orders changes their items or replaces them, depending on the order. -/
theorem load_order_matters : ∃ c c',
    Catalog.load (Sample.patchSchema
      [Sample.itemCreateEntry, Sample.orderEntry, Sample.itemUpdateEntry]) .empty 9 = .ok c ∧
    Catalog.load (Sample.patchSchema
      [Sample.itemCreateEntry, Sample.itemUpdateEntry, Sample.orderEntry]) .empty 9 = .ok c' ∧
    Sample.orderUpdateText c = some Sample.replacingText ∧
    Sample.orderUpdateText c' = some Sample.changingText := by
  obtain ⟨c, hload, htext⟩ := Sample.exists_load_patchSchema
    (show ((Catalog.load (Sample.patchSchema [Sample.itemCreateEntry, Sample.orderEntry,
      Sample.itemUpdateEntry]) .empty 9).map Sample.orderUpdateText).toOption
        = some (some Sample.replacingText) by decide +kernel)
  obtain ⟨c', hload', htext'⟩ := Sample.exists_load_patchSchema
    (show ((Catalog.load (Sample.patchSchema [Sample.itemCreateEntry, Sample.itemUpdateEntry,
      Sample.orderEntry]) .empty 9).map Sample.orderUpdateText).toOption
        = some (some Sample.changingText) by decide +kernel)
  exact ⟨c, c', hload, hload', htext, htext'⟩

end ObjectMapping
