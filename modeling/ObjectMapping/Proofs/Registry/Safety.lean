import ObjectMapping.Proofs.Enumeration
import ObjectMapping.Proofs.Registry.MethodSafety
import ObjectMapping.Proofs.Registry.Restriction

/-! # Well-typed mappings do not go wrong

The conversions of a method were looked up in the registry when it was registered, and the mappings
that it invokes are looked up when it runs, by the classes of the values at hand. For conforming
values both look-ups find the same classes, so nothing is missing then: what remains are rejections.

* `Registration.assumed`: the source attributes that a registration reads as never absent.
* `presumed`: whether these are there, for one invocation.
* **`restricted_safe`** — the invariant of all invocations, by induction on the height of the source.
* **`convert_update_safe`** — conversions and changes by a registry are safe. -/

namespace ObjectMapping

open Outcome Conversion Registry

namespace Registration

/-- Whether the classes of a registration are declared. -/
def Uses (D : Declarations) : Registration → Prop
  | .classes source target _ _ => source ∈ D.classes ∧ target ∈ D.classes
  | .enums source target _ => source ∈ D.enums ∧ target ∈ D.enums

/-- The source attributes that the mappings of a registration read as never absent. -/
def assumed : Registration → List String
  | .classes _ target overrides _ => assumedFields target overrides
  | .enums .. => []

end Registration

/-- Whether the attribute is missing or has a value, rather than being absent. -/
def Value.isThere (v : Value) (name : String) : Bool :=
  match v.field name with
  | .ok part => !part.isNone
  | .error _ => true

/-- Whether the attributes that the invoked mapping reads as never absent are there. -/
def presumed (log : List Registration) (invocation : Invocation) : Bool :=
  invocation.satisfies log fun registration source => registration.assumed.all source.isThere

variable {D : Declarations} {log : List Registration} {r : Registry} {extra : Extra}

/-- What is presumed of an invocation holds for the registration whose mapping is invoked. -/
theorem isThere_of_presumed {invocation : Invocation} {registration : Registration}
    {key : MappingKey} (h : presumed log invocation = true) (hmem : registration ∈ log)
    (hkey : invocation.key? = some key) (hkeys : key ∈ registration.keys) :
    ∀ name ∈ registration.assumed, ∀ part, invocation.source.field name = .ok part →
      part.isNone = false := by
  intro name hname part hpart
  have hall := Invocation.condition_of_satisfies h hmem hkey hkeys
  have hthere := List.all_eq_true.mp hall name hname
  rw [Value.isThere, hpart] at hthere
  simpa using hthere

/-- The mapping for a value is found by the number of its class. -/
theorem createWith_of_method {inner : Invoker} {v : Value} {owner s t : ClassHandle}
    (howner : v.handle? = some owner) (hid : owner.id = s.id) {m : MappingMethod}
    (hlookup : r.lookup? (.of s t .create) = some (.method m)) :
    r.createWith extra.value inner v t = m.create inner v extra.value := by
  have hkey : MappingKey.of owner t .create = .of s t .create := by
    rw [MappingKey.of, MappingKey.of, hid]
  rw [createWith, howner]
  dsimp only [Option.bind_some]
  rw [hkey, hlookup]

/-- An object of an enum is created by the mapping of the enum. -/
theorem createWith_of_enum {inner : Invoker} {v : Value} {owner s t : ClassHandle}
    (howner : v.handle? = some owner) (hid : owner.id = s.id) {m : EnumMapping}
    (hlookup : r.lookup? (.of s t .create) = some (.enum m)) :
    r.createWith extra.value inner v t = m.apply v := by
  have hkey : MappingKey.of owner t .create = .of s t .create := by
    rw [MappingKey.of, MappingKey.of, hid]
  rw [createWith, howner]
  dsimp only [Option.bind_some]
  rw [hkey, hlookup]

/-- An object is updated by the update method for the two classes. -/
theorem updateWith_of_method {inner : Invoker} {v object : Value} {owner holder s t : ClassHandle}
    (howner : v.handle? = some owner) (hid : owner.id = s.id)
    (hholder : object.handle? = some holder) (hid' : holder.id = t.id) {m : MappingMethod}
    (hlookup : r.lookup? (.of s t .update) = some (.method m)) :
    r.updateWith extra.value inner v object = m.update inner v object extra.value := by
  have hkey : MappingKey.of owner holder .update = .of s t .update := by
    rw [MappingKey.of, MappingKey.of, hid, hid']
  rw [updateWith, howner, hholder]
  dsimp only [Option.bind_some]
  rw [hkey, hlookup]

/-- The class of a value of a declared class is found by its number. -/
theorem handle?_of_conforms {c : Class} {s : ClassHandle} {v : Value} (hc : c ∈ D.classes)
    (hid : s.id = c.handle.id) (h : D.Conforms (.named s) v) :
    ∃ owner, v.handle? = some owner ∧ owner.id = s.id := by
  obtain ⟨owner, fields, assigned, rfl, howner, -⟩ := h.class_inv hc hid
  exact ⟨owner, rfl, howner.trans hid.symm⟩

/-- A conforming source that is presumed of is one that the mapping is meant for. -/
theorem fits_of_presumed {source target : Class} {overrides : Overrides} {mode : Mode}
    {s : ClassHandle} {invocation : Invocation} {key : MappingKey}
    (h : presumed log invocation = true)
    (huses : Registration.Uses D (.classes source target overrides mode))
    (hmem : .classes source target overrides mode ∈ log) (hid : s.id = source.handle.id)
    (hv : D.Conforms (.named s) invocation.source)
    (hkey : invocation.key? = some key)
    (hkeys : key ∈ (Registration.classes source target overrides mode).keys) :
    D.Fits source target overrides invocation.source where
  source_mem := huses.1
  target_mem := huses.2
  conforms := hv.of_id_eq hid.symm
  present := isThere_of_presumed h hmem hkey hkeys

section Restricted

variable {refusal : Error} {n : Nat}

/-- One level of conversions is safe if the levels below it are. -/
theorem createWith_safe (hreached : Reached log r)
    (huses : ∀ registration ∈ log, registration.Uses D) {inner : Invoker}
    (hcreate : CreatesSafely D r.methodTable inner.create n) {s t : ClassHandle} {v : Value}
    (hmethod : r.methodTable s t .create = true) (hv : D.Conforms (.named s) v)
    (hheight : v.height ≤ n + 1) (hpresumed : presumed log (.create v t) = true) :
    Safe (r.createWith extra.value inner v t) := by
  obtain ⟨registration, hmem, hkey⟩ := hreached.exists_registration hmethod
  obtain ⟨registered, hlookup, hprovides⟩ := hreached.provides hmem hkey
  have hregistration := huses registration hmem
  -- the static types led to a registration, and the class of the value leads to the same one
  generalize hk : MappingKey.of s t .create = key at hkey hprovides
  cases hprovides with
  | @method source target overrides mode direction p methods m hdirection hmade =>
    obtain ⟨hs, ht, rfl⟩ := MappingKey.mk.inj hk
    obtain ⟨owner, howner, hid⟩ := handle?_of_conforms hregistration.1 hs hv
    have hinvoked := Invocation.key?_create (t := t) howner hid
    rw [hk] at hinvoked
    have hfits : D.Fits source target overrides v :=
      fits_of_presumed hpresumed hregistration hmem hs hv hinvoked hkey
    rw [createWith_of_method howner hid hlookup]
    refine hmade.create_safe hfits ?_
    exact fun s' t' v' h' hv' hle =>
      hcreate s' t' v' (hmade.methods_le _ _ _ h') hv' (by omega)
  | @enum source target overrides m hbuild =>
    obtain ⟨hs, ht, -⟩ := MappingKey.mk.inj hk
    obtain ⟨owner, name, rfl, howner, hname⟩ := hv.enum_inv hregistration.1 hs
    obtain ⟨other, -, happly⟩ := EnumMapping.exists_apply hbuild howner hname
    rw [createWith_of_enum rfl (howner.trans hs.symm) hlookup]
    rw [happly]
    exact trivial

/-- One level of changes is safe if the levels below it are. -/
theorem updateWith_safe (hreached : Reached log r)
    (huses : ∀ registration ∈ log, registration.Uses D) {inner : Invoker}
    (hcreate : CreatesSafely D r.methodTable inner.create n)
    (hupdate : UpdatesSafely D r.methodTable inner.update n) {s t : ClassHandle} {v object : Value}
    (hmethod : r.methodTable s t .update = true) (hv : D.Conforms (.named s) v)
    (hobject : D.Conforms (.named t) object) (hheight : v.height ≤ n + 1)
    (hpresumed : presumed log (.update v object) = true) :
    Safe (r.updateWith extra.value inner v object).1 := by
  obtain ⟨registration, hmem, hkey⟩ := hreached.exists_registration hmethod
  obtain ⟨registered, hlookup, hprovides⟩ := hreached.provides hmem hkey
  have hregistration := huses registration hmem
  generalize hk : MappingKey.of s t .update = key at hkey hprovides
  cases hprovides with
  | @method source target overrides mode direction p methods m hdirection hmade =>
    obtain ⟨hs, ht, rfl⟩ := MappingKey.mk.inj hk
    obtain ⟨owner, howner, hid⟩ := handle?_of_conforms hregistration.1 hs hv
    obtain ⟨holder, hholder, hid'⟩ := handle?_of_conforms hregistration.2 ht hobject
    have hinvoked := Invocation.key?_update howner hid hholder hid'
    rw [hk] at hinvoked
    have hfits : D.Fits source target overrides v :=
      fits_of_presumed hpresumed hregistration hmem hs hv hinvoked hkey
    rw [updateWith_of_method howner hid hholder hid' hlookup]
    -- the method was made with methods of this registry, so the levels below are covered
    refine hmade.update_safe hfits (hobject.of_id_eq ht.symm) ?_ ?_
    · exact fun s' t' v' h' hv' hle =>
        hcreate s' t' v' (hmade.methods_le _ _ _ h') hv' (by omega)
    · exact fun s' t' v' old' h' hv' hold' hle =>
        hupdate s' t' v' old' (hmade.methods_le _ _ _ h') hv' hold' (by omega)
  | @enum source target overrides m hbuild => cases (MappingKey.mk.inj hk).2.2

/-- **Whatever is invoked on conforming values is safe**, if what is not presumed is refused with a
rejection. -/
theorem restricted_safe (extra : Extra) (hreached : Reached log r)
    (huses : ∀ registration ∈ log, registration.Uses D)
    (hrefusal : refusal.isRejection = true) (n : Nat) :
    CreatesSafely D r.methodTable (r.restricted extra.value (presumed log) refusal n).create n ∧
      UpdatesSafely D r.methodTable
        (r.restricted extra.value (presumed log) refusal n).update n := by
  induction n with
  | zero =>
    -- no value has height zero
    constructor
    · intro s t v _ _ hheight
      exact absurd v.height_pos (by omega)
    · intro s t v old _ _ _ hheight
      exact absurd v.height_pos (by omega)
  | succ n ih =>
    constructor
    · intro s t v hmethod hv hheight
      rw [restricted, restrict]
      dsimp only
      split
      · next hpresumed => exact createWith_safe hreached huses ih.1 hmethod hv hheight hpresumed
      · exact hrefusal
    · intro s t v old hmethod hv hold hheight
      rw [restricted, restrict]
      dsimp only
      split
      · next hpresumed =>
        exact updateWith_safe hreached huses ih.1 ih.2 hmethod hv hold hheight hpresumed
      · exact hrefusal

end Restricted

/-- Where nothing is assumed, everything is presumed. -/
theorem presumed_of_assumed_nil (h : ∀ registration ∈ log, registration.assumed = []) :
    ∀ invocation, presumed log invocation = true := by
  refine Invocation.satisfies_of_forall ?_
  intro registration hmem source
  rw [h registration hmem, List.all_nil]

/-! ## The small registry -/

namespace Sample

/-- The classes of the small registry. -/
def declarations : Declarations where
  classes := [itemClass, itemViewClass, orderClass, orderViewClass]
  enums := []
  nodup_ids := by decide
  not_builtin := by
    intro id hid b
    cases b <;> revert id <;> decide
  distinct := by
    simp only [List.forall_mem_cons]
    refine ⟨.of_dataclass rfl ?_, .of_dataclass rfl ?_, .of_dataclass rfl ?_,
      .of_dataclass rfl ?_, nofun⟩
    all_goals decide

/-- The sample mappings use declared classes. -/
theorem uses : ∀ registration ∈ Sample.log, registration.Uses declarations := by
  simp [Sample.log, Registration.Uses, declarations]

/-- An object with a name is of its class. -/
theorem conforms_named {c : Class} (hc : c ∈ declarations.classes)
    (hslots : c.slots = [slot "name" (.builtin .str)]) (name : String) :
    declarations.Conforms (.named c.handle) (named c.handle name) := by
  refine .object hc rfl rfl ?_ ?_
  · rw [hslots]
    exact .refl _
  · intro slot hslot v hv
    rw [hslots, List.mem_singleton] at hslot
    obtain rfl := hslot
    obtain ⟨-, rfl⟩ := Prod.mk.inj (List.mem_singleton.mp hv)
    exact .builtin (show _ = Builtin.str.id from rfl) rfl

/-- An order is of its class. -/
theorem conforms_orderOf (name : String) :
    declarations.Conforms (.named order) (orderOf name) := by
  have hclass : orderClass ∈ declarations.classes := by simp [declarations]
  have hitem : itemClass ∈ declarations.classes := by simp [declarations]
  refine .object hclass rfl rfl (.refl _) ?_
  intro slot hslot v hv
  obtain rfl := List.mem_singleton.mp hslot
  obtain ⟨-, rfl⟩ := Prod.mk.inj (List.mem_singleton.mp hv)
  exact conforms_named hitem rfl name

/-- A view of an order is of its class. -/
theorem conforms_viewOf (name owner : String) :
    declarations.Conforms (.named orderView) (viewOf name owner) := by
  have hclass : orderViewClass ∈ declarations.classes := by simp [declarations]
  have hitem : itemViewClass ∈ declarations.classes := by simp [declarations]
  refine .object hclass rfl rfl (.refl _) ?_
  intro slot hslot v hv
  rcases List.mem_pair.mp hslot with rfl | rfl
  · obtain rfl : v = named itemView name := by simpa [Sample.slot] using hv
    exact .some (conforms_named hitem rfl name)
  · obtain rfl : v = .str owner := by simpa [Sample.slot] using hv
    exact .builtin (show _ = Builtin.str.id from rfl) rfl

end Sample

/-- **Well-typed mappings do not go wrong.** Let registrations between declared classes lead to a
registry, and let a mapping between two classes be registered. If a value conforms to the source
class, and if no attribute is absent that an invoked mapping reads as never absent, then its
conversion fails with a rejection at most; and so does the change of an object that conforms to the
target class. -/
theorem convert_update_safe (hreached : Reached log r)
    (huses : ∀ registration ∈ log, registration.Uses D) {s t : ClassHandle} {v : Value}
    (hv : D.Conforms (.named s) v) (extra : Extra) :
    (r.contains (.of s t .create) = true → r.ConvertsWithin (presumed log) v t extra →
      ∀ e, r.convert v t extra = .error e → e.isRejection = true) ∧
    ∀ object, r.contains (.of s t .update) = true → D.Conforms (.named t) object →
      r.UpdatesWithin (presumed log) v object extra →
        ∀ e, (r.update v object extra).1 = .error e → e.isRejection = true := by
  have hsafe := restricted_safe extra hreached huses
    (show (Error.raised "").isRejection = true from rfl) v.height
  constructor
  · intro hmethod hwithin e he
    have hcreate := hsafe.1 s t v hmethod hv (Nat.le_refl _)
    rw [hwithin, he] at hcreate
    exact hcreate
  · intro object hmethod hobject hwithin e he
    have hupdate := hsafe.2 s t v object hmethod hv hobject (Nat.le_refl _)
    rw [hwithin, he] at hupdate
    exact hupdate

/-- Making a view of an order, or bringing one up to date, fails with a rejection at most, also for a
caller who does not provide the owner. -/
theorem convert_update_safe_order :
    (∀ e, Sample.registry.convert (Sample.orderOf "pen") Sample.orderView [] = .error e →
      e.isRejection = true) ∧
    ∀ e, (Sample.registry.update (Sample.orderOf "pen") (Sample.viewOf "ink" "you") []).1 = .error e →
      e.isRejection = true := by
  have hpresumed := presumed_of_assumed_nil
    (show ∀ registration ∈ Sample.log, registration.assumed = [] by decide)
  have hsafe := convert_update_safe Sample.reached Sample.uses (Sample.conforms_orderOf "pen")
    (t := Sample.orderView) []
  refine ⟨hsafe.1 (by decide +kernel) (convertsWithin_of_all hpresumed _ _ _), ?_⟩
  exact hsafe.2 _ (by decide +kernel) (Sample.conforms_viewOf "ink" "you")
    (updatesWithin_of_all hpresumed _ _ _)

end ObjectMapping
