import ObjectMapping.Proofs.Registry.Order
import ObjectMapping.Schema.Catalog

/-! # Loading mappings in any order

The mappings of a schema may be declared in any order, although a mapping needs the mappings of the
objects inside to be registered. They are registered in rounds: those that lack a conversion are left
for the next round. This finds an order in which all can be registered whenever there is one, as a
mapping that is registered early is never in the way of another one.

* `Catalog.registration` is what a declaration asks the registry for.
* **`Catalog.Loadable c order`** — the mappings can be registered in this order.
* **`Loadable.registerRound`** — a round gets on with a list that can be loaded in some order.
* **`Catalog.rounds`** is the loop over rounds with a bound on their number.
* **`Catalog.registerAll_complete`** — the loop ends, it succeeds if and only if there is an order, it
  finds one, and it does not depend on the order of the list. -/

namespace ObjectMapping

open Outcome

/-- The names of the classes that a mapping is declared for. -/
def MappingEntry.names (entry : MappingEntry) : String × String := (entry.source, entry.target)

namespace Catalog

variable {c c' : Catalog} {entry : MappingEntry} {entries order pending : List MappingEntry}

/-! ## Declared mappings in an order -/

/-- The registration that a declaration asks for. -/
def registration (c : Catalog) (entry : MappingEntry) : Except Error Registration := do
  let source ← c.classNamed entry.source
  let target ← c.classNamed entry.target
  let overrides ← entry.overrides.mapM fun (field, wanted) => do
    return (field, ← c.override target field wanted)
  return .classes source target overrides entry.mode

/-- The catalog with another registry and with the names of further mappings. -/
def extended (c : Catalog) (registry : Registry) (entries : List MappingEntry) : Catalog :=
  { c with registry, mappings := c.mappings ++ entries.map MappingEntry.names }

/-- To register a mapping is to enter what it asks for, and to write it down. -/
theorem register_eq (c : Catalog) (entry : MappingEntry) :
    c.register entry = do
      let registration ← c.registration entry
      return c.extended (← c.registry.enter registration) [entry] := by
  rw [register, registration]
  cases c.classNamed entry.source with
  | error e => rfl
  | ok source =>
    cases c.classNamed entry.target with
    | error e => rfl
    | ok target =>
      dsimp only [ok_bind]
      cases (entry.overrides.mapM fun (field, wanted) => do
        return (field, ← c.override target field wanted)) <;> rfl

/-- A declared mapping is registered if it asks for something that is possible. -/
theorem register_eq_ok :
    c.register entry = .ok c' ↔ ∃ registration registry, c.registration entry = .ok registration ∧
      c.registry.enter registration = .ok registry ∧ c' = c.extended registry [entry] := by
  rw [register_eq, bind_eq_ok]
  constructor
  · rintro ⟨registration, hregistration, h⟩
    obtain ⟨registry, hentered, hc'⟩ := bind_eq_ok.mp h
    exact ⟨registration, registry, hregistration, hentered, (Except.ok.inj hc').symm⟩
  · rintro ⟨registration, registry, hregistration, hentered, rfl⟩
    exact ⟨registration, hregistration, bind_eq_ok.mpr ⟨registry, hentered, rfl⟩⟩

/-- **Declared mappings in an order** are what they ask for, one after another. -/
theorem foldlM_register_eq_ok :
    entries.foldlM register c = .ok c' ↔ ∃ registrations registry,
      entries.mapM c.registration = .ok registrations ∧
        c.registry.enterAll registrations = .ok registry ∧ c' = c.extended registry entries := by
  -- on the mappings: what the first one asks for does not depend on what is registered
  induction entries generalizing c with
  | nil =>
    constructor
    · intro h
      obtain rfl := Except.ok.inj h
      refine ⟨[], c.registry, rfl, rfl, ?_⟩
      rw [extended, List.map_nil, List.append_nil]
    · rintro ⟨registrations, registry, hregistrations, hall, rfl⟩
      obtain rfl := Except.ok.inj hregistrations
      obtain rfl := Except.ok.inj hall
      rw [extended, List.map_nil, List.append_nil]
      rfl
  | cons entry rest ih =>
    have hextended : ∀ registry registry' : Registry,
        (c.extended registry [entry]).extended registry' rest
          = c.extended registry' (entry :: rest) := by
      intro registry registry'
      simp [extended]
    rw [List.foldlM_cons, bind_eq_ok, List.mapM_cons]
    constructor
    · rintro ⟨first, hfirst, hrest⟩
      obtain ⟨registration, registry, hregistration, hentered, rfl⟩ := register_eq_ok.mp hfirst
      obtain ⟨registrations, registry', hregistrations, hall, rfl⟩ := ih.mp hrest
      have hothers : rest.mapM c.registration = .ok registrations := hregistrations
      refine ⟨registration :: registrations, registry', ?_, ?_, hextended _ _⟩
      · rw [hregistration, ok_bind, hothers]
        rfl
      · exact bind_eq_ok.mpr ⟨registry, hentered, hall⟩
    · rintro ⟨all, registry', hall, hentered, rfl⟩
      obtain ⟨registration, hregistration, hothers⟩ := bind_eq_ok.mp hall
      obtain ⟨registrations, hregistrations, hcons⟩ := bind_eq_ok.mp hothers
      obtain rfl := Except.ok.inj hcons
      obtain ⟨registry, hfirst, hrest⟩ := bind_eq_ok.mp hentered
      exact ⟨_, register_eq_ok.mpr ⟨registration, registry, hregistration, hfirst, rfl⟩,
        ih.mpr ⟨registrations, registry', hregistrations, hrest, (hextended _ _).symm⟩⟩

/-- Declared mappings can be registered in the order given. -/
def Loadable (c : Catalog) (order : List MappingEntry) : Prop :=
  ∃ c', order.foldlM register c = .ok c'

/-- **A mapping that can be registered now can be registered first.** -/
theorem Loadable.of_register {before after : List MappingEntry}
    (h : c.Loadable (before ++ entry :: after)) (hregister : c.register entry = .ok c') :
    c'.Loadable (before ++ after) := by
  obtain ⟨last, hlast⟩ := h
  obtain ⟨all, registry, hall, hentered, -⟩ := foldlM_register_eq_ok.mp hlast
  obtain ⟨registration, registry', hregistration, hfirst, rfl⟩ := register_eq_ok.mp hregister
  -- the list of what is asked for, cut at the same place
  rw [List.mapM_append] at hall
  obtain ⟨as, has, hrest⟩ := bind_eq_ok.mp hall
  obtain ⟨others, hothers, happend⟩ := bind_eq_ok.mp hrest
  obtain rfl := Except.ok.inj happend
  rw [List.mapM_cons, hregistration, ok_bind] at hothers
  obtain ⟨bs, hbs, hcons⟩ := bind_eq_ok.mp hothers
  obtain rfl := Except.ok.inj hcons
  obtain ⟨registry'', hrest'⟩ := Registry.enterAll_of_enter ⟨registry, hentered⟩ hfirst
  refine ⟨_, foldlM_register_eq_ok.mpr ⟨as ++ bs, registry'', ?_, hrest', rfl⟩⟩
  have hmapM : (before ++ after).mapM c.registration = .ok (as ++ bs) := by
    rw [List.mapM_append, has, ok_bind, hbs]
    rfl
  exact hmapM

/-- A mapping that can be registered in some order can only lack a conversion now. -/
theorem Loadable.register_fails (h : c.Loadable order) (hmem : entry ∈ order) :
    FailsByField (c.register entry) := by
  obtain ⟨before, after, rfl⟩ := List.append_of_mem hmem
  obtain ⟨last, hlast⟩ := h
  obtain ⟨all, registry, hall, hentered, -⟩ := foldlM_register_eq_ok.mp hlast
  obtain ⟨registration, hin, hregistration⟩ := exists_of_forall₂ (mapM_eq_ok.mp hall) hmem
  rw [register_eq, hregistration, ok_bind]
  refine FailsByField.bind ?_ fun registry => trivial
  obtain ⟨present, hmakeable⟩ := Registry.makeable_of_enterAll hentered hin
  exact Registry.enter_fails (fun key hkey => Registry.new_of_enterAll hentered hin hkey) hmakeable

/-! ## One round -/

/-- What a round registers, and what it leaves, is what it was given. -/
theorem registerRound_eq_ok {deferred : List (MappingEntry × Error)}
    (h : c.registerRound pending = .ok (c', deferred)) :
    ∃ done, (done ++ deferred.map (·.1)).Perm pending ∧ done.foldlM register c = .ok c' := by
  induction pending generalizing c deferred with
  | nil =>
    obtain ⟨rfl, rfl⟩ := Prod.mk.inj (Except.ok.inj h)
    exact ⟨[], .refl _, rfl⟩
  | cons entry rest ih =>
    rw [registerRound] at h
    split at h
    · next first hfirst =>
      obtain ⟨done, hperm, hdone⟩ := ih h
      refine ⟨entry :: done, hperm.cons entry, ?_⟩
      rw [List.foldlM_cons, hfirst, ok_bind, hdone]
    · obtain ⟨⟨last, others⟩, hothers, hlast⟩ := bind_eq_ok.mp h
      obtain ⟨rfl, rfl⟩ := Prod.mk.inj (Except.ok.inj hlast)
      obtain ⟨done, hperm, hdone⟩ := ih hothers
      refine ⟨done, ?_, hdone⟩
      exact List.perm_middle.trans (hperm.cons entry)
    · cases h

/-- No more mappings are deferred than were pending. -/
theorem length_deferred_le {deferred : List (MappingEntry × Error)}
    (h : c.registerRound pending = .ok (c', deferred)) : deferred.length ≤ pending.length := by
  obtain ⟨done, hperm, -⟩ := registerRound_eq_ok h
  have hlength := hperm.length_eq
  rw [List.length_append, List.length_map] at hlength
  omega

/-- **A round without progress has tried every mapping in vain.** -/
theorem register_ne_ok_of_no_progress {deferred : List (MappingEntry × Error)}
    (h : c.registerRound pending = .ok (c', deferred)) (hlength : deferred.length = pending.length)
    (hmem : entry ∈ pending) : ∀ next, c.register entry ≠ .ok next := by
  induction pending generalizing c c' deferred with
  | nil => simp at hmem
  | cons first rest ih =>
    rw [registerRound] at h
    split at h
    · have hle := length_deferred_le h
      rw [hlength, List.length_cons] at hle
      omega
    · next hfirst =>
      obtain ⟨⟨last, others⟩, hothers, hlast⟩ := bind_eq_ok.mp h
      obtain ⟨-, rfl⟩ := Prod.mk.inj (Except.ok.inj hlast)
      rcases List.mem_cons.mp hmem with rfl | hrest
      · intro next hnext
        cases hfirst.symm.trans hnext
      · exact ih hothers (by simpa using hlength) hrest
    · cases h

/-- **A round gets on with mappings that can be registered in some order**: it does not fail, and
those that it leaves can be registered in some order together with the `others`. -/
theorem Loadable.registerRound {others : List MappingEntry} (h : c.Loadable order)
    (hperm : order.Perm (others ++ pending)) :
    ∃ c' deferred, c.registerRound pending = .ok (c', deferred) ∧
      ∃ order', order'.Perm (others ++ deferred.map (·.1)) ∧ c'.Loadable order' := by
  induction pending generalizing c order others with
  | nil => exact ⟨c, [], rfl, order, hperm, h⟩
  | cons entry rest ih =>
    have hmem : entry ∈ order := hperm.mem_iff.mpr (by simp)
    have hfails := h.register_fails hmem
    rw [Catalog.registerRound]
    cases hregister : c.register entry with
    | ok first =>
      obtain ⟨before, after, rfl⟩ := List.append_of_mem hmem
      have hrest : (before ++ after).Perm (others ++ rest) :=
        (List.perm_middle.symm.trans (hperm.trans List.perm_middle)).cons_inv
      exact ih (h.of_register hregister) hrest
    | error e =>
      rw [hregister] at hfails
      have hothers : order.Perm (others ++ [entry] ++ rest) := by
        rw [List.append_assoc]
        exact hperm
      obtain ⟨c', deferred, hround, order', hperm', hload⟩ := ih h hothers
      cases e with
      | fieldType field source targetField target direction =>
        refine ⟨c', (entry, _) :: deferred, by rw [hround]; rfl, order', ?_, hload⟩
        rw [List.append_assoc] at hperm'
        exact hperm'
      | _ => cases hfails

/-! ## All rounds -/

/-- The loop over rounds, given up after a number of them. -/
def rounds : Nat → Catalog → List MappingEntry → Option (Except Error Catalog)
  | 0, _, _ => none
  | bound + 1, c, pending =>
      if pending.isEmpty then some (.ok c)
      else
        match c.registerRound pending with
        | .error e => some (.error e)
        | .ok (c, deferred) =>
            match deferred.getLast? with
            | none => rounds bound c []
            | some (_, e) =>
                if deferred.length = pending.length then some (.error e)
                else rounds bound c (deferred.map (·.1))

/-- **The loop ends**, after at most one round more than there are mappings. -/
theorem rounds_eq {bound : Nat} (hbound : pending.length < bound) :
    rounds bound c pending = some (c.registerAll pending) := by
  induction bound generalizing c pending with
  | zero => omega
  | succ bound ih =>
    rw [rounds, registerAll]
    by_cases hempty : pending = []
    · subst hempty
      rfl
    · rw [if_neg (by simpa using hempty)]
      cases hround : c.registerRound pending with
      | error e => rfl
      | ok left =>
        obtain ⟨c', deferred⟩ := left
        have hle := length_deferred_le hround
        have hpos := List.length_pos_iff.mpr hempty
        dsimp only [ok_bind]
        cases hlast : deferred.getLast? with
        | none =>
          rw [ih (show [].length < bound by simp; omega), registerAll]
          rfl
        | some last =>
          dsimp only
          by_cases hlength : deferred.length = pending.length
          · rw [if_pos hlength, if_neg (by omega)]
          · rw [if_neg hlength, if_pos (by omega), ih (by rw [List.length_map]; omega)]

/-- What is registered in the end was registered in some order. -/
theorem exists_order_of_registerAll (h : c.registerAll pending = .ok c') :
    ∃ order : List MappingEntry, order.Perm pending ∧ order.foldlM register c = .ok c' := by
  induction hn : pending.length using Nat.strongRecOn generalizing c pending with
  | ind n ih =>
    subst hn
    rw [registerAll] at h
    obtain ⟨⟨next, deferred⟩, hround, hrest⟩ := bind_eq_ok.mp h
    obtain ⟨done, hperm, hdone⟩ := registerRound_eq_ok hround
    dsimp only at hrest
    split at hrest
    · next hnone =>
      obtain rfl := List.getLast?_eq_none_iff.mp hnone
      obtain rfl := Except.ok.inj hrest
      refine ⟨done, ?_, hdone⟩
      rw [List.map_nil, List.append_nil] at hperm
      exact hperm
    · split at hrest
      · next hlength =>
        obtain ⟨order, horder, hload⟩ := ih (deferred.map (·.1)).length
          (by rw [List.length_map]; exact hlength) hrest rfl
        refine ⟨done ++ order, (List.Perm.append_left done horder).trans hperm, ?_⟩
        rw [List.foldlM_append, hdone, ok_bind, hload]
      · cases hrest

/-- **The loop finds an order if there is one.** -/
theorem Loadable.registerAll (h : c.Loadable order) (hperm : order.Perm pending) :
    ∃ c', c.registerAll pending = .ok c' := by
  induction hn : pending.length using Nat.strongRecOn generalizing c order pending with
  | ind n ih =>
    subst hn
    obtain ⟨next, deferred, hround, order', hperm', hload⟩ :=
      h.registerRound (show order.Perm ([] ++ pending) from hperm)
    rw [Catalog.registerAll, hround, ok_bind]
    dsimp only
    split
    · exact ⟨next, rfl⟩
    · next hlast =>
      have hlength : deferred.length < pending.length := by
        refine Nat.lt_of_le_of_ne (length_deferred_le hround) fun hsame => ?_
        -- the first mapping of the order could have been registered from the start
        cases order with
        | nil =>
          rw [List.nil_perm.mp hperm] at hsame
          simp [List.length_eq_zero_iff.mp hsame] at hlast
        | cons first rest =>
          obtain ⟨last, hfirst⟩ := h
          obtain ⟨second, hsecond, -⟩ := bind_eq_ok.mp hfirst
          exact register_ne_ok_of_no_progress hround hsame
            (hperm.mem_iff.mp List.mem_cons_self) second hsecond
      rw [if_pos hlength]
      exact ih _ (by rw [List.length_map]; exact hlength) hload hperm' rfl

/-- The loop succeeds exactly if there is an order. -/
theorem isOk_registerAll_iff :
    (c.registerAll entries).isOk = true ↔ ∃ order : List MappingEntry,
      order.Perm entries ∧ c.Loadable order := by
  constructor
  · intro h
    cases hload : c.registerAll entries with
    | error e =>
      rw [hload] at h
      cases h
    | ok c' =>
      obtain ⟨order, hperm, horder⟩ := exists_order_of_registerAll hload
      exact ⟨order, hperm, c', horder⟩
  · rintro ⟨order, hperm, horder⟩
    obtain ⟨c', hload⟩ := horder.registerAll hperm
    rw [hload]
    rfl

/-- **Two orders lead to the same keys and to the same create methods.** -/
theorem registry_of_perm {others : List MappingEntry} {other : Catalog}
    (hperm : entries.Perm others) (h : entries.foldlM register c = .ok c')
    (h' : others.foldlM register c = .ok other) :
    c'.registry.contains = other.registry.contains ∧
      ∀ key : MappingKey, key.direction = .create →
        c'.registry.lookup? key = other.registry.lookup? key := by
  obtain ⟨registrations, registry, hregistrations, hall, rfl⟩ := foldlM_register_eq_ok.mp h
  obtain ⟨registrations', registry', hregistrations', hall', rfl⟩ := foldlM_register_eq_ok.mp h'
  have hsame : registrations.Perm registrations' :=
    perm_of_mapM_eq_ok hperm hregistrations hregistrations'
  exact ⟨Registry.contains_of_perm hsame hall hall',
    fun key hcreate => Registry.lookup_create_of_perm hsame hall hall' hcreate⟩

/-- **Loading mappings is complete and does not depend on their order.** For every catalog and every
list of declared mappings the loop over rounds ends. It succeeds if and only if the mappings can be
registered one after another in some order. When it does, it has registered each of them once, in such
an order, and the catalog lists them in this order. Another order of the list leads to success or
failure alike, and to the same keys and the same create methods. -/
theorem registerAll_complete (c : Catalog) (entries : List MappingEntry) :
    (∀ bound, entries.length < bound → rounds bound c entries = some (c.registerAll entries)) ∧
    ((c.registerAll entries).isOk = true ↔
      ∃ order : List MappingEntry, order.Perm entries ∧ (order.foldlM register c).isOk = true) ∧
    (∀ c', c.registerAll entries = .ok c' → ∃ order : List MappingEntry, order.Perm entries ∧
      order.foldlM register c = .ok c' ∧
        c'.mappings = c.mappings ++ order.map MappingEntry.names) ∧
    ∀ others : List MappingEntry, others.Perm entries →
      (c.registerAll others).isOk = (c.registerAll entries).isOk ∧
      ∀ c₁ c₂, c.registerAll entries = .ok c₁ → c.registerAll others = .ok c₂ →
        (∀ key, c₁.registry.contains key = c₂.registry.contains key) ∧
        ∀ key : MappingKey, key.direction = .create →
          c₁.registry.lookup? key = c₂.registry.lookup? key := by
  have hisOk : ∀ order : List MappingEntry,
      c.Loadable order ↔ (order.foldlM register c).isOk = true := by
    intro order
    rw [Loadable]
    cases order.foldlM register c <;> simp [Except.isOk, Except.toBool]
  refine ⟨fun bound hbound => rounds_eq hbound, ?_, ?_, ?_⟩
  · -- success means an order in which all can be registered
    simp only [isOk_registerAll_iff, hisOk]
  · intro c' h
    obtain ⟨order, hperm, horder⟩ := exists_order_of_registerAll h
    refine ⟨order, hperm, horder, ?_⟩
    obtain ⟨_, _, -, -, rfl⟩ := foldlM_register_eq_ok.mp horder
    rfl
  · intro others hothers
    constructor
    · -- an order for the one list is an order for the other
      rw [Bool.eq_iff_iff, isOk_registerAll_iff, isOk_registerAll_iff]
      constructor
      · rintro ⟨order, hperm, hload⟩
        exact ⟨order, hperm.trans hothers, hload⟩
      · rintro ⟨order, hperm, hload⟩
        exact ⟨order, hperm.trans hothers.symm, hload⟩
    · intro c₁ c₂ h₁ h₂
      obtain ⟨order₁, hperm₁, horder₁⟩ := exists_order_of_registerAll h₁
      obtain ⟨order₂, hperm₂, horder₂⟩ := exists_order_of_registerAll h₂
      obtain ⟨hkeys, hcreate⟩ := registry_of_perm
        (hperm₁.trans (hothers.symm.trans hperm₂.symm)) horder₁ horder₂
      exact ⟨fun key => congrFun hkeys key, hcreate⟩

end Catalog

namespace Sample

/-- The classes of the small registry, before any mapping is registered. -/
def catalog : Catalog :=
  { Catalog.empty .empty 13 with
    classes := [itemClass, itemViewClass, orderClass, orderViewClass].map fun c =>
      (c.handle.name, c) }

/-- The mapping of orders in front of the one of items, which it needs. -/
def entries : List MappingEntry :=
  [⟨"Order", "OrderView", .createAndUpdate, [("owner", .fromExtra "owner")]⟩,
    ⟨"Item", "ItemView", .createAndUpdate, []⟩]

end Sample

/-- Orders may be mapped before or after items: both lists are loaded, with the same keys. -/
theorem registerAll_complete_entries : ∃ c₁ c₂, ∃ order : List MappingEntry,
    Sample.catalog.registerAll Sample.entries = .ok c₁ ∧
      order.Perm Sample.entries ∧ order.foldlM Catalog.register Sample.catalog = .ok c₁ ∧
      c₁.mappings = order.map MappingEntry.names ∧
      Sample.catalog.registerAll Sample.entries.reverse = .ok c₂ ∧
      ∀ key, c₁.registry.contains key = c₂.registry.contains key := by
  obtain ⟨-, hloads, horder, hothers⟩ :=
    Catalog.registerAll_complete Sample.catalog Sample.entries
  have hreverse : Sample.entries.reverse.Perm Sample.entries := List.reverse_perm _
  have hok : (Sample.catalog.registerAll Sample.entries).isOk = true :=
    hloads.mpr ⟨Sample.entries.reverse, hreverse, by decide +kernel⟩
  obtain ⟨hsame, hagree⟩ := hothers _ hreverse
  rw [hok] at hsame
  cases h₁ : Sample.catalog.registerAll Sample.entries with
  | error e =>
    rw [h₁] at hok
    cases hok
  | ok c₁ =>
    cases h₂ : Sample.catalog.registerAll Sample.entries.reverse with
    | error e =>
      rw [h₂] at hsame
      cases hsame
    | ok c₂ =>
      obtain ⟨order, hperm, hregistered, hmappings⟩ := horder c₁ h₁
      exact ⟨c₁, c₂, order, rfl, hperm, hregistered, hmappings, rfl, (hagree c₁ c₂ h₁ h₂).1⟩

end ObjectMapping
