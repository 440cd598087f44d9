import ObjectMapping.Proofs.Registry.Agreement
import ObjectMapping.Proofs.Registry.MethodSettling

/-! # Updates are idempotent

An object that has been brought up to date with a source is up to date: a second change by the same
source succeeds and leaves an equal object. The second change may still do other things than the first
one, since an object that was made in an empty field is there to be changed now. So the same has to be
shown of objects that were just made, along with that of objects that were changed.

* **`updateWith_settles`**, **`createWith_settles`** — both hold of an invocation, if they hold of what
  it invokes in turn.
* **`settles_invoker`** — both hold of whatever is invoked, by induction on the depth of invocations.
* **`update_idempotent`** — a second change leaves an object as it is. -/

namespace ObjectMapping

open Outcome Conversion Registry

variable {D : Declarations} {log : List Registration} {r : Registry} {extra : Extra}

/-- With fewer methods there is less to settle. -/
theorem Conversion.Settles.mono {methods methods' : MethodTable} {invoker : Invoker}
    (h : Settles D methods invoker)
    (hle : ∀ s t d, methods' s t d = true → methods s t d = true) : Settles D methods' invoker where
  update s t v old left hmethod := h.update s t v old left (hle s t .update hmethod)
  create s t v u hmethod := h.create s t v u (hle s t .update hmethod)

/-- The owner of an attribute is the class of its object. -/
theorem Value.handle?_of_owner? {v : Value} {owner : ClassHandle} (h : v.owner? = some owner) :
    v.handle? = some owner := by
  cases v with
  | object handle fields assigned => exact h
  | _ => cases h

/-- What a change that succeeds has looked up. -/
theorem updateWith_eq_ok {inner : Invoker} {v old left : Value}
    (h : r.updateWith extra.value inner v old = (.ok (), left)) :
    ∃ owner holder, v.handle? = some owner ∧ old.handle? = some holder ∧
      r.contains (.of owner holder .update) = true := by
  rw [updateWith] at h
  cases howner : v.handle? with
  | none =>
    rw [howner] at h
    cases h
  | some owner =>
    cases hholder : old.handle? with
    | none =>
      rw [howner, hholder] at h
      cases h
    | some holder =>
      rw [howner, hholder] at h
      dsimp only [Option.bind_some] at h
      cases hlookup : r.lookup? (.of owner holder .update) with
      | none =>
        rw [hlookup] at h
        cases h
      | some registered => exact ⟨owner, holder, rfl, rfl, by rw [contains, hlookup]; rfl⟩

/-- A value with a class is there. -/
theorem isNone_of_handle? {v : Value} {owner : ClassHandle} (h : v.handle? = some owner) :
    v.isNone = false := by
  cases v with
  | none => cases h
  | _ => rfl

/-- A value of a builtin class has a builtin class, which need not be the same. -/
theorem Builtin.handle?_of_holds {b : Builtin} {v : Value} (h : b.holds v = true) :
    ∃ b' : Builtin, v.handle? = some b'.handle := by
  cases v with
  | bool _ => exact ⟨.bool, rfl⟩
  | int _ => exact ⟨.int, rfl⟩
  | float _ => exact ⟨.float, rfl⟩
  | str _ => exact ⟨.str, rfl⟩
  | bytes _ => exact ⟨.bytes, rfl⟩
  | date _ => exact ⟨.date, rfl⟩
  | datetime _ => exact ⟨.datetime, rfl⟩
  | _ => cases b <;> cases h

/-- A value of a class that has the number of a declared class is of the declared class. -/
theorem Declarations.Conforms.id_eq {c : Class} {s owner : ClassHandle} {v : Value}
    (h : D.Conforms (.named s) v) (hc : c ∈ D.classes) (howner : v.handle? = Option.some owner)
    (hid : owner.id = c.handle.id) : s.id = owner.id := by
  cases h with
  | @builtin b _ _ hhandle hvalue =>
    obtain ⟨b', hb'⟩ := Builtin.handle?_of_holds hvalue
    obtain rfl := Option.some.inj (howner.symm.trans hb')
    exact absurd hid.symm (Declarations.class_ne_builtin hc b')
  | member henum hhandle hmember hname =>
    obtain rfl := Option.some.inj howner
    exact absurd (hid.symm.trans hmember) (Declarations.class_ne_enum hc henum)
  | object hclass hhandle hobject hnames hfields =>
    obtain rfl := Option.some.inj howner
    exact hhandle.trans hobject.symm

/-- **Both methods of a mapping that changes objects**: it was registered in both directions. -/
theorem exists_makes_of_update (hreached : Reached log r)
    (huses : ∀ registration ∈ log, registration.Uses D)
    (htwoWay : ∀ registration ∈ log, registration.TwoWay) {s t : ClassHandle}
    (hmethod : r.methodTable s t .update = true) :
    ∃ source ∈ D.classes, ∃ target ∈ D.classes, s.id = source.handle.id ∧ t.id = target.handle.id ∧
      ∃ overrides p methods m p' methods' m',
        r.lookup? (.of source.handle target.handle .create) = some (.method m) ∧
          r.Makes source target overrides .create p methods m ∧
        r.lookup? (.of source.handle target.handle .update) = some (.method m') ∧
          r.Makes source target overrides .update p' methods' m' := by
  obtain ⟨registration, hmem, hkey⟩ := hreached.exists_registration hmethod
  cases registration with
  | enums source target overrides =>
    obtain ⟨-, -, hdirection⟩ := MappingKey.mk.inj (List.mem_singleton.mp hkey)
    cases hdirection
  | classes source target overrides mode =>
    obtain ⟨_, -, hk⟩ := List.mem_map.mp hkey
    obtain ⟨hs, ht, -⟩ := MappingKey.mk.inj hk
    obtain ⟨rfl, -⟩ := htwoWay _ hmem
    -- a mapping in both directions has a key for each
    have hkeys : ∀ direction, MappingKey.of source.handle target.handle direction
        ∈ (Registration.classes source target overrides .createAndUpdate).keys := by
      intro direction
      cases direction <;> simp [Registration.keys, Mode.directions]
    obtain ⟨registered, hlookup, hprovides⟩ := hreached.provides hmem (hkeys .create)
    obtain ⟨p, methods, m, rfl, hmade⟩ := hprovides.method_inv
    obtain ⟨registered', hlookup', hprovides'⟩ := hreached.provides hmem (hkeys .update)
    obtain ⟨p', methods', m', rfl, hmade'⟩ := hprovides'.method_inv
    exact ⟨source, (huses _ hmem).1, target, (huses _ hmem).2, hs.symm, ht.symm, overrides, p, methods,
      m, p', methods', m', hlookup, hmade, hlookup', hmade'⟩

section Step

variable {inner : Invoker} {s t : ClassHandle} {v old left u : Value}

/-- Methods are looked up between different classes only. -/
theorem same_eq_false_of_update (hreached : Reached log r)
    (huses : ∀ registration ∈ log, registration.Uses D)
    (htwoWay : ∀ registration ∈ log, registration.TwoWay) {methods : MethodTable}
    (hle : ∀ s t d, methods s t d = true → r.methodTable s t d = true) (s t : ClassHandle)
    (hmethod : methods s t .update = true) : s.same t = false :=
  (class_of_update hreached huses htwoWay (hle _ _ _ hmethod)).1

/-- **A change settles the object that it changes**, if what it invokes settles objects. -/
theorem updateWith_settles (hreached : Reached log r)
    (huses : ∀ registration ∈ log, registration.Uses D)
    (htwoWay : ∀ registration ∈ log, registration.TwoWay)
    (hinner : Settles D r.methodTable inner) (hmethod : r.methodTable s t .update = true)
    (hv : D.ConformsIfPresent (.named s) v) (hold : D.Conforms (.named t) old)
    (hupdate : r.updateWith extra.value inner v old = (.ok (), left)) :
    left.isNone = false ∧ ∀ w : Value, w.bare = left.bare →
      ∃ last, r.updateWith extra.value inner v w = (.ok (), last) ∧ last.bare = left.bare := by
  obtain ⟨source, hsource, target, htarget, hs, ht, overrides, p, methods, m, p', methods', m', -, -,
    hlookup, hmade⟩ := exists_makes_of_update hreached huses htwoWay hmethod
  obtain ⟨_, _, hhandle, -⟩ := updateWith_eq_ok hupdate
  have hthis := hv (isNone_of_handle? hhandle)
  obtain ⟨owner, howner, hid⟩ := handle?_of_conforms hsource hs hthis
  obtain ⟨holder, fields, assigned, rfl, hholder, -⟩ := hold.class_inv htarget ht
  have hmethods : ∀ w : Value, w.owner? = some holder →
      r.updateWith extra.value inner v w = m'.update inner v w extra.value := fun w hw =>
    updateWith_of_method howner (hid.trans hs) (Value.handle?_of_owner? hw) hholder hlookup
  rw [hmethods _ rfl] at hupdate
  obtain ⟨hclass, hsettled⟩ := hmade.update_settles hsource htarget (hthis.of_id_eq hs.symm)
    (same_eq_false_of_update hreached huses htwoWay hmade.methods_le)
    (hinner.mono hmade.methods_le) (hold.of_id_eq ht.symm) hupdate
  refine ⟨isNone_of_handle? (Value.handle?_of_owner? hclass), fun w hw => ?_⟩
  -- what differs in the record only is of the same class, so the same method is looked up
  have howner' : w.owner? = some holder := by
    rw [← Value.owner?_bare w, hw, Value.owner?_bare, hclass]
    rfl
  rw [hmethods w howner']
  exact hsettled w hw

/-- **A change leaves an object alone that was just made** from the same source, if what it invokes
settles objects. -/
theorem createWith_settles (hreached : Reached log r)
    (huses : ∀ registration ∈ log, registration.Uses D)
    (htwoWay : ∀ registration ∈ log, registration.TwoWay)
    (hinner : Settles D r.methodTable inner) (hmethod : r.methodTable s t .update = true)
    (hv : D.ConformsIfPresent (.named s) v)
    (hcreate : r.createWith extra.value inner v t = .ok u) (w : Value) (hw : w.bare = u.bare) :
    ∃ last, r.updateWith extra.value inner v w = (.ok (), last) ∧ last.bare = u.bare := by
  obtain ⟨source, hsource, target, htarget, hs, ht, overrides, p, methods, m, p', methods', m',
    hlookup, hmade, hlookup', hmade'⟩ := exists_makes_of_update hreached huses htwoWay hmethod
  obtain ⟨_, _, hhandle, -⟩ := createWith_eq_ok hcreate
  have hthis := hv (isNone_of_handle? hhandle)
  obtain ⟨owner, howner, hid⟩ := handle?_of_conforms hsource hs hthis
  have hkey : MappingKey.of source.handle t .create
      = .of source.handle target.handle .create := by
    rw [MappingKey.of, MappingKey.of, ht]
  have hmake : m.create inner v extra.value = .ok u := by
    rw [← createWith_of_method howner (hid.trans hs) (hkey ▸ hlookup)]
    exact hcreate
  obtain ⟨hclass, -⟩ := hmade.exists_contributions (D.distinct target htarget) hmake
  have howner' : w.owner? = some target.handle := by
    rw [← Value.owner?_bare w, hw, Value.owner?_bare, hclass]
  rw [updateWith_of_method howner (hid.trans hs) (Value.handle?_of_owner? howner') rfl hlookup']
  exact hmade'.create_settles hsource htarget (hthis.of_id_eq hs.symm)
    (same_eq_false_of_update hreached huses htwoWay hmade'.methods_le)
    (hinner.mono hmade'.methods_le) hmade hmake w hw

end Step

/-- **Whatever is invoked settles objects**: those that are changed and those that are made. -/
theorem settles_invoker (extra : Extra) (hreached : Reached log r)
    (huses : ∀ registration ∈ log, registration.Uses D)
    (htwoWay : ∀ registration ∈ log, registration.TwoWay) (height : Nat) :
    Settles D r.methodTable (r.invoker extra.value height) := by
  induction height with
  | zero =>
    -- nothing is invoked with success at this depth
    constructor
    · intro s t v old left _ _ _ hupdate
      cases hupdate
    · intro s t v u _ _ hcreate
      cases hcreate
  | succ height ih =>
    constructor
    · intro s t v old left hmethod hv hold hupdate
      exact updateWith_settles hreached huses htwoWay ih hmethod hv hold hupdate
    · intro s t v u hmethod hv hcreate
      exact createWith_settles hreached huses htwoWay ih hmethod hv hcreate

/-- **Updates are idempotent.** Let every registration of classes be in both directions and between
different classes, and let the change of a conforming object by a conforming source succeed. Then a
second change by the same source and with the same values of the caller succeeds too, and the object
is as the first one left it: it differs at most in which fields count as assigned, and so it is equal
to it. -/
theorem update_idempotent (hreached : Reached log r)
    (huses : ∀ registration ∈ log, registration.Uses D)
    (htwoWay : ∀ registration ∈ log, registration.TwoWay) {s t : ClassHandle}
    {v object object' : Value} (hv : D.Conforms (.named s) v) (hobject : D.Conforms (.named t) object)
    (hupdate : r.update v object extra = (.ok (), object')) :
    ∃ object'', r.update v object' extra = (.ok (), object'') ∧ object''.bare = object'.bare ∧
      (object'.distinctKeys = true → object''.same object' = true) := by
  have hsettles := settles_invoker extra hreached huses htwoWay v.height
  have hlooked : ∃ inner, r.updateWith extra.value inner v object = (.ok (), object') := by
    obtain ⟨height, hheight⟩ : ∃ height, v.height = height + 1 :=
      ⟨v.height - 1, (Nat.sub_add_cancel v.height_pos).symm⟩
    rw [update, hheight] at hupdate
    exact ⟨_, hupdate⟩
  obtain ⟨inner, hlooked⟩ := hlooked
  obtain ⟨owner, holder, howner, hholder, hmethod⟩ := updateWith_eq_ok hlooked
  obtain ⟨source, hsource, target, htarget, hs, ht, -⟩ :=
    exists_makes_of_update hreached huses htwoWay hmethod
  have hmethod' : r.methodTable s t .update = true := by
    rw [methodTable, MappingKey.of, hv.id_eq hsource howner hs, hobject.id_eq htarget hholder ht]
    exact hmethod
  obtain ⟨-, hsettled⟩ :=
    hsettles.update s t v object object' hmethod' (fun _ => hv) hobject hupdate
  obtain ⟨object'', hagain, hbare⟩ := hsettled object' rfl
  exact ⟨object'', hagain, hbare, Value.same_of_bare_eq hbare⟩

namespace Sample

/-- The view of an order without an item. -/
def emptyViewOf (owner : String) : Value :=
  .object orderView [("item", .none), ("owner", .str owner)] []

/-- An empty view is of its class. -/
theorem conforms_emptyViewOf (owner : String) :
    declarations.Conforms (.named orderView) (emptyViewOf owner) := by
  have hclass : orderViewClass ∈ declarations.classes := by simp [declarations]
  refine .object hclass rfl rfl (.refl _) ?_
  intro slot hslot v hv
  rcases List.mem_pair.mp hslot with rfl | rfl
  · obtain rfl : v = .none := by simpa [Sample.slot] using hv
    exact .none _
  · obtain rfl : v = .str owner := by simpa [Sample.slot] using hv
    exact .builtin (show _ = Builtin.str.id from rfl) rfl

end Sample

/-- A view without an item gets one by the first update, and the second one changes it in place. -/
theorem update_idempotent_order : ∃ view view',
    Sample.registry.update (Sample.orderOf "pen") (Sample.emptyViewOf "you") Sample.extra
        = (.ok (), view) ∧
      Sample.registry.update (Sample.orderOf "pen") view Sample.extra = (.ok (), view') ∧
        view'.same view = true := by
  have hchanges : (Sample.registry.update (Sample.orderOf "pen") (Sample.emptyViewOf "you")
      Sample.extra).1.isOk = true := by
    decide +kernel
  have hkeys : (Sample.registry.update (Sample.orderOf "pen") (Sample.emptyViewOf "you")
      Sample.extra).2.distinctKeys = true := by
    decide +kernel
  cases hupdate : Sample.registry.update (Sample.orderOf "pen") (Sample.emptyViewOf "you")
      Sample.extra with
  | mk outcome view =>
    rw [hupdate] at hchanges hkeys
    cases outcome with
    | error e => cases hchanges
    | ok _ =>
      obtain ⟨view', hagain, -, hsame⟩ := update_idempotent Sample.reached Sample.uses Sample.twoWay
        (Sample.conforms_orderOf "pen") (Sample.conforms_emptyViewOf "you") hupdate
      exact ⟨view, view', rfl, hagain, hsame hkeys⟩

end ObjectMapping
