import ObjectMapping.Proofs.Registry.MethodAgreement
import ObjectMapping.Proofs.Registry.Safety

/-! # Changing an object agrees with making a new one

A mapping that is registered in both directions can bring an object up to date in two ways: by making
a new object in its place, or by changing it. As far as the change leaves nothing alone and skips
nothing, at whatever depth, the outcome is the same, although nested objects are changed in place by
one way and replaced by the other.

* `Registration.TwoWay`: a mapping in both directions between different classes.
* `complete`: the invocations of update methods that leave no field alone and skip no assignment.
* **`restricted_agrees`** — the invariant of all invocations, by induction on the height of the source.
* **`update_agrees_with_convert`** — a complete change makes its target equal to the new object. -/

namespace ObjectMapping

open Outcome Conversion Registry

namespace Registration

/-- Whether a registration of classes is in both directions, and between different classes. -/
def TwoWay : Registration → Prop
  | .classes source target _ mode => mode = .createAndUpdate ∧ source.handle.id ≠ target.handle.id
  | .enums .. => True

/-- Whether the update method of a registration leaves no field alone and skips no assignment for a
source. -/
def assignsAll (registration : Registration) (this : Value) : Bool :=
  match registration with
  | .classes source target overrides _ =>
      match Plan.build source.describe target.describe .update overrides with
      | .ok p => p.assignsAll this
      | .error _ => true
  | .enums .. => true

end Registration

/-- Whether an invocation is not that of an update method that leaves a field alone or skips an
assignment. -/
def complete (log : List Registration) (invocation : Invocation) : Bool :=
  match invocation with
  | .create .. => true
  | .update .. => invocation.satisfies log Registration.assignsAll

variable {D : Declarations} {log : List Registration} {r : Registry} {extra : Extra}

/-- What a conversion that succeeds has looked up. -/
theorem createWith_eq_ok {inner : Invoker} {v u : Value} {t : ClassHandle}
    (h : r.createWith extra.value inner v t = .ok u) :
    ∃ owner registered, v.handle? = some owner ∧
      r.lookup? (.of owner t .create) = some registered := by
  rw [createWith] at h
  cases howner : v.handle? with
  | none =>
    rw [howner] at h
    cases h
  | some owner =>
    rw [howner] at h
    dsimp only [Option.bind_some] at h
    cases hlookup : r.lookup? (.of owner t .create) with
    | none =>
      rw [hlookup] at h
      cases h
    | some registered => exact ⟨owner, registered, rfl, hlookup⟩

/-- Update methods are for declared classes, and for others than they start from. -/
theorem class_of_update (hreached : Reached log r)
    (huses : ∀ registration ∈ log, registration.Uses D)
    (htwoWay : ∀ registration ∈ log, registration.TwoWay) {s t : ClassHandle}
    (hmethod : r.methodTable s t .update = true) :
    s.same t = false ∧ ∃ c ∈ D.classes, t.id = c.handle.id := by
  obtain ⟨registration, hmem, hkey⟩ := hreached.exists_registration hmethod
  cases registration with
  | classes source target overrides mode =>
    obtain ⟨direction, -, hk⟩ := List.mem_map.mp hkey
    obtain ⟨hs, ht, -⟩ := MappingKey.mk.inj hk
    have hne : s.id ≠ t.id := by
      rw [← hs, ← ht]
      exact (htwoWay _ hmem).2
    exact ⟨beq_eq_false_iff_ne.mpr hne, target, (huses _ hmem).2, ht.symm⟩
  | enums source target overrides =>
    -- enums are never changed in place
    obtain ⟨-, -, hdirection⟩ := MappingKey.mk.inj (List.mem_singleton.mp hkey)
    cases hdirection

/-- A mapping to a class that makes new objects is registered in both directions. -/
theorem exists_makes_of_lookup (hreached : Reached log r)
    (huses : ∀ registration ∈ log, registration.Uses D)
    (htwoWay : ∀ registration ∈ log, registration.TwoWay) {owner t : ClassHandle} {c : Class}
    (hc : c ∈ D.classes) (hid : t.id = c.handle.id) {registered : Registered}
    (hlookup : r.lookup? (.of owner t .create) = some registered) :
    ∃ source overrides p methods m p' methods' m',
      registered = .method m ∧ .classes source c overrides .createAndUpdate ∈ log ∧
        owner.id = source.handle.id ∧ r.Makes source c overrides .create p methods m ∧
          r.lookup? (.of source.handle c.handle .update) = some (.method m') ∧
            r.Makes source c overrides .update p' methods' m' := by
  cases registered with
  | enum mapping =>
    obtain ⟨source, target, overrides, hmem, -, ht, -⟩ := hreached.lookup_enum hlookup
    exact absurd (hid.symm.trans ht.symm) (Declarations.class_ne_enum hc (huses _ hmem).2)
  | method m =>
    obtain ⟨source, target, overrides, mode, p, methods, hmem, -, hs, ht, hmade⟩ :=
      hreached.lookup_method hlookup
    obtain rfl := Declarations.class_unique (huses _ hmem).2 hc (ht.trans hid)
    obtain ⟨rfl, -⟩ := htwoWay _ hmem
    have hkey : MappingKey.of source.handle target.handle .update
        ∈ (Registration.classes source target overrides .createAndUpdate).keys := by
      simp [Registration.keys, Mode.directions]
    obtain ⟨registered', hlookup', hprovides⟩ := hreached.provides hmem hkey
    obtain ⟨p', methods', m', rfl, hmade'⟩ := hprovides.method_inv
    exact ⟨source, overrides, p, methods, m, p', methods', m', rfl, hmem, hs.symm, hmade, hlookup',
      hmade'⟩

section Restricted

variable {refusal : Error} {n : Nat}

/-- One level of changes agrees with the conversions of that level if the levels below it do. -/
theorem updateWith_agrees (hreached : Reached log r)
    (huses : ∀ registration ∈ log, registration.Uses D)
    (htwoWay : ∀ registration ∈ log, registration.TwoWay) {inner : Invoker}
    (hupdate : UpdatesAsCreates D r.methodTable refusal inner n) {t : ClassHandle} {c : Class}
    {v old u : Value} (hc : c ∈ D.classes) (hid : t.id = c.handle.id)
    (hold : D.Conforms (.named t) old) (hheight : v.height ≤ n + 1)
    (hcomplete : complete log (.update v old) = true)
    (hcreate : r.createWith extra.value inner v t = .ok u) (hkeys : u.distinctKeys = true) :
    Meets (· = refusal) (fun left => left.same u = true)
      (Effect.result (r.updateWith extra.value inner v old)) := by
  obtain ⟨owner, registered, howner, hlookup⟩ := createWith_eq_ok hcreate
  -- the mapping was registered in both directions, so it has a method for each
  obtain ⟨source, overrides, p, methods, m, p', methods', m', rfl, hmem, hs, hmade, hlookup', hmade'⟩ :=
    exists_makes_of_lookup hreached huses htwoWay hc hid hlookup
  obtain ⟨holder, hholder, hid'⟩ := handle?_of_conforms hc hid hold
  have hinvoked := Invocation.key?_update howner hs hholder (hid'.trans hid)
  have hkey : MappingKey.of source.handle c.handle .update
      ∈ (Registration.classes source c overrides .createAndUpdate).keys := by
    simp [Registration.keys, Mode.directions]
  have hassigns := Invocation.condition_of_satisfies hcomplete hmem hinvoked hkey
  rw [Registration.assignsAll, hmade'.build] at hassigns
  rw [createWith_of_method howner rfl hlookup] at hcreate
  rw [updateWith_of_method howner hs hholder (hid'.trans hid) hlookup']
  refine hmade.update_agrees hmade' hc ?_ ?_ (hold.of_id_eq hid.symm) hassigns hcreate hkeys
  · intro s' t' hmethod
    exact (class_of_update hreached huses htwoWay (hmade'.methods_le _ _ _ hmethod)).1
  · intro s' t' v' old' u' hmethod hold' hheight'
    exact hupdate s' t' v' old' u' (hmade'.methods_le _ _ _ hmethod) hold' (by omega)

/-- **Whatever is invoked, complete changes agree with conversions**, if all others are refused. -/
theorem restricted_agrees (extra : Extra) (refusal : Error) (hreached : Reached log r)
    (huses : ∀ registration ∈ log, registration.Uses D)
    (htwoWay : ∀ registration ∈ log, registration.TwoWay) (n : Nat) :
    UpdatesAsCreates D r.methodTable refusal
      (r.restricted extra.value (complete log) refusal n) n := by
  induction n with
  | zero =>
    intro s t v old u _ _ hheight
    exact absurd v.height_pos (by omega)
  | succ n ih =>
    intro s t v old u hmethod hold hheight hcreate hkeys
    obtain ⟨-, c, hc, hid⟩ := class_of_update hreached huses htwoWay hmethod
    rw [restricted, restrict] at hcreate ⊢
    dsimp only at hcreate ⊢
    rw [if_pos (show complete log (.create v t) = true from rfl)] at hcreate
    split
    · next hcomplete =>
      exact updateWith_agrees hreached huses htwoWay ih hc hid hold hheight hcomplete hcreate hkeys
    · exact rfl

end Restricted

/-- **Changing an object agrees with making a new one.** Let every registration of classes be in both
directions and between different classes, and let a conversion to a class succeed. If the change of an
object that conforms to the class invokes no update method that leaves a field alone or skips an
assignment, then it succeeds, and the object equals the new one afterwards: whether nested objects are
changed in place, made where there was none, or replaced. -/
theorem update_agrees_with_convert (hreached : Reached log r)
    (huses : ∀ registration ∈ log, registration.Uses D)
    (htwoWay : ∀ registration ∈ log, registration.TwoWay) {s t : ClassHandle} {v object w : Value}
    {extra : Extra} (hpair : r.contains (.of s t .update) = true)
    (hobject : D.Conforms (.named t) object) (hconvert : r.convert v t extra = .ok w)
    (hkeys : w.distinctKeys = true) (hcomplete : r.UpdatesWithin (complete log) v object extra) :
    ∃ object', r.update v object extra = (.ok (), object') ∧ object'.same w = true := by
  have hagrees : ∀ refusal, Meets (· = refusal) (fun left => left.same w = true)
      (Effect.result (r.update v object extra)) := by
    intro refusal
    have hcreate : (r.restricted extra.value (complete log) refusal v.height).create v t = .ok w := by
      rw [hreached.restricted_create_eq fun _ _ => rfl]
      exact hconvert
    rw [← hcomplete refusal]
    exact restricted_agrees extra refusal hreached huses htwoWay v.height s t v object w hpair hobject
      (Nat.le_refl _) hcreate hkeys
  -- a refusal would have to be the outcome, whichever error stands for it
  have hfirst := hagrees (.raised "")
  have hsecond := hagrees (.runtime .tooDeep)
  generalize r.update v object extra = x at hfirst hsecond ⊢
  obtain ⟨outcome, object'⟩ := x
  cases outcome with
  | ok _ => exact ⟨object', rfl, hfirst⟩
  | error e => cases Eq.trans (Eq.symm hfirst) hsecond

namespace Sample

/-- The sample mappings are for both directions. -/
theorem twoWay : ∀ registration ∈ Sample.log, registration.TwoWay := by
  simp [Sample.log, Registration.TwoWay, orderClass, orderViewClass, itemClass, itemViewClass, order,
    orderView, item, itemView]

/-- The sample mappings leave no field alone. -/
theorem assignsAll : ∀ registration ∈ Sample.log, ∀ this, registration.assignsAll this = true := by
  intro registration hmem this
  rcases List.mem_cons.mp hmem with rfl | hrest
  · rfl
  · obtain rfl := List.mem_singleton.mp hrest
    rfl

end Sample

/-- A view of an order is brought up to date, and equals a new view of the order then: the view of the
item in it is changed in place. -/
theorem update_agrees_with_convert_order : ∃ w object',
    Sample.registry.convert (Sample.orderOf "pen") Sample.orderView Sample.extra = .ok w ∧
      Sample.registry.update (Sample.orderOf "pen") (Sample.viewOf "ink" "you") Sample.extra
        = (.ok (), object') ∧ object'.same w = true := by
  have hconverts : ((Sample.registry.convert (Sample.orderOf "pen") Sample.orderView
      Sample.extra).map Value.distinctKeys).toOption = some true := by
    decide +kernel
  cases hconvert : Sample.registry.convert (Sample.orderOf "pen") Sample.orderView Sample.extra with
  | error e =>
    rw [hconvert] at hconverts
    cases hconverts
  | ok w =>
    rw [hconvert] at hconverts
    have hkeys : w.distinctKeys = true := Option.some.inj hconverts
    have hcomplete : ∀ invocation, complete Sample.log invocation = true := by
      intro invocation
      cases invocation with
      | create v t => rfl
      | update v object => exact Invocation.satisfies_of_forall Sample.assignsAll _
    obtain ⟨object', hupdate, hsame⟩ := update_agrees_with_convert Sample.reached Sample.uses
      Sample.twoWay (s := Sample.order) (by decide +kernel) (Sample.conforms_viewOf "ink" "you")
      hconvert hkeys (updatesWithin_of_all hcomplete _ _ _)
    exact ⟨w, object', rfl, hupdate, hsame⟩

end ObjectMapping
