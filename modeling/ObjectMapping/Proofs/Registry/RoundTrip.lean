import ObjectMapping.Proofs.Conversion.Twins
import ObjectMapping.Proofs.Registry.Supply

/-! # Inverse mappings

Let two families of plain classes be alike, and let all classes of either family be mapped to their
twins, with the names of the fields exchanged and nothing else. Then a conversion to the other family
always succeeds and gives an object that mirrors the source, at every level; so the way back leads to
an object that mirrors the same object as the source does, which is equal to the source.

* `Family.Mapped`: the classes of the first family are mapped to their twins.
* `Registry.Makes.exists_create`: an object of a plain class is made if all of its fields contribute.
* **`Registry.creates_createWith`**, **`Registry.creates_invoker`** — the twins of objects are made, by
  one invocation and by induction on the height of the source.
* **`Registry.convert_back_same`** — there and back again. -/

namespace ObjectMapping

open Outcome Conversion

/-- Overrides that exchange the names of the fields and ask for nothing else. -/
def Twins.RenamedBy (pair : Twins) (overrides : Overrides) : Prop :=
  ∀ names ∈ pair.names, overrides.lookup names.2 = some (.source names.1) ∨
    names.1 = names.2 ∧ overrides.lookup names.2 = none

namespace Family

/-- The classes of both families are declared. -/
def Declared (family : Family) (D : Declarations) : Prop :=
  ∀ pair ∈ family, pair.first ∈ D.classes ∧ pair.second ∈ D.classes

/-- Every class of the first family is mapped to its twin, to make new objects. -/
def Mapped (family : Family) (log : List Registration) : Prop :=
  ∀ pair ∈ family, ∃ overrides mode, .classes pair.first pair.second overrides mode ∈ log ∧
    .create ∈ mode.directions ∧ pair.RenamedBy overrides

/-- The classes of a swapped family are declared. -/
theorem Declared.swap {family : Family} {D : Declarations} (h : family.Declared D) :
    family.swap.Declared D := by
  intro other hother
  obtain ⟨pair, hpair, rfl⟩ := List.mem_map.mp hother
  exact (h pair hpair).symm

end Family

/-! ## Fields -/

namespace Plan

variable {source target : Descriptor} {overrides : Overrides} {p : Plan}
  {goal field : FieldDescriptor} {create : Value → ClassHandle → Except Error Value} {this : Value}
  {extra : Extra}

/-- A field that is renamed, or keeps its name, comes from its counterpart. -/
theorem resolve_renamed {key name : String} (hfield : source.field? name = some field)
    (hrenamed : overrides.lookup key = some (.source name) ∨
      name = goal.name ∧ overrides.lookup key = none) :
    resolve source target .create overrides key goal
      = .ok (some (.field field field.type false)) := by
  rw [resolve]
  rcases hrenamed with hoverride | ⟨rfl, hnone⟩
  · rw [hoverride]
    dsimp only
    rw [explicit, sourceField, hfield]
    rfl
  · rw [hnone]
    dsimp only
    rw [implicit?, hfield]
    rfl

/-- Where the target class has no hook, a source field is converted in any case. -/
theorem contribution_of_hook_none (hhook : p.target.hook = .none) {type : FieldType} {part w : Value}
    (hpart : this.field field.name = .ok part)
    (hdirect : direct create type (.ok part) goal.type = .ok w) :
    p.contribution create this extra goal (.field field type false) = .ok (some w) := by
  rw [contribution, performs, present, intended, hookApplies, hhook, hpart, hdirect]
  rfl

end Plan

namespace Registry.Makes

variable {r : Registry} {source target : Class} {overrides : Overrides} {p : Plan}
  {methods : MethodTable} {m : MappingMethod} {this : Value} {extra : Extra} {invoker : Invoker}

/-- **An object of a class without validators is made** if all of its fields contribute. -/
theorem exists_create (h : r.Makes source target overrides .create p methods m)
    (hdistinct : target.DistinctNames) (hvalidators : target.validators = [])
    (hgiven : ∀ entry ∈ p.goals, ∃ u,
      p.contribution invoker.create this extra entry.1 entry.2 = .ok (some u)) :
    ∃ w, m.create invoker this extra.value = .ok w := by
  obtain ⟨args, hargs, hsupplies⟩ := Meets.exists_eq_ok <| h.arguments_meet hdistinct
    (fun entry hentry => by
      obtain ⟨u, hu⟩ := hgiven entry hentry
      rw [hu]
      exact trivial)
    fun slot _ _ goal resolution _ hmem hnone => by
      obtain ⟨u, hu⟩ := hgiven _ hmem
      cases hnone.symm.trans hu
  obtain ⟨object, hobject⟩ := Class.exists_construct hdistinct hvalidators hsupplies
  have hnames : object.names = target.slots.map (·.name) := by
    have hmeets := Class.construct_meets hdistinct.names target.describe.strategy args
    rw [hobject] at hmeets
    exact hmeets.1
  have hassigned : Meets (fun _ => False) (fun w : Value => w.names = target.slots.map (·.name))
      ((p.goals.filter (!·.1.accepted)).foldlM
        (p.contribute invoker.create this extra Plan.asField) object) := by
    -- no assignment changes the names, so each finds its field
    refine meets_foldlM (fun entry hentry w hw => ?_) hnames
    have hmem := (List.mem_filter.mp hentry).1
    obtain ⟨u, hu⟩ := hgiven entry hmem
    obtain ⟨slot, hslot, hgoal, -⟩ := h.goal_inv hdistinct.names hmem
    have hname : entry.1.name ∈ w.names := by
      rw [hw, hgoal]
      exact List.mem_map_of_mem hslot
    obtain ⟨w', hassign, hchanged, -⟩ := Value.exists_assign hname u
    rw [Plan.contribute, hu, ok_bind]
    dsimp only
    rw [Plan.asField, hassign]
    exact hchanged.names_eq.trans hw
  obtain ⟨w, hw, -⟩ := hassigned.exists_eq_ok
  refine ⟨w, ?_⟩
  rw [h.create_eq, Plan.evaluate, hargs, ok_bind, h.target_eq, hobject, ok_bind, hw]

end Registry.Makes

/-! ## Objects -/

/-- Objects of twins reflect each other if their fields do. -/
theorem Conversion.reflects_object {D : Declarations} {family : Family} {pair : Twins}
    (hfamily : family.Alike) (hdeclared : family.Declared D) (hpair : pair ∈ family)
    {s t owner owner' : ClassHandle} {fields others : List (String × Value)}
    {assigned assigned' : List String} (hs : s.id = pair.first.handle.id)
    (ht : t.id = pair.second.handle.id) (howner : owner.id = pair.first.handle.id)
    (howner' : owner'.id = pair.second.handle.id)
    (hsource : (Value.object owner fields assigned).WellFormed)
    (hnames : (fields.map (·.1)).Perm (pair.first.slots.map (·.name)))
    (hnames' : (others.map (·.1)).Perm (pair.second.slots.map (·.name)))
    (hfields : ∀ a ∈ pair.first.slots, ∀ b ∈ pair.second.slots, (a.name, b.name) ∈ pair.names →
      ∃ v w, (Value.object owner fields assigned).field a.name = .ok v ∧
        (Value.object owner' others assigned').field b.name = .ok w ∧
          Reflects D family a.type b.type v w) :
    Reflects D family (.named s) (.named t) (.object owner fields assigned)
      (.object owner' others assigned') := by
  have htwins := hfamily.twins pair hpair
  have hsecond := (hdeclared pair hpair).2
  have hnodup : (others.map (·.1)).Nodup := hnames'.nodup_iff.mpr (D.distinct _ hsecond).names
  -- every field of the second object is what a field of the first one is reflected in
  have hcounterpart : ∀ b ∈ pair.second.slots, ∀ w, (b.name, w) ∈ others →
      ∃ a v, Reflects D family a b.type v w := by
    intro b hb w hw
    obtain ⟨a, ha, hmem⟩ := htwins.exists_counterpart hb
    obtain ⟨v, w', -, hw', hreflects⟩ := hfields a ha b hb hmem
    rw [Value.field_of_mem hnodup hw] at hw'
    obtain rfl := Except.ok.inj hw'
    exact ⟨a.type, v, hreflects⟩
  refine ⟨hsource, .of_parts hnodup ?_, ?_, ?_⟩
  · intro part hpart
    obtain ⟨⟨name, w⟩, hw, rfl⟩ := List.mem_map.mp hpart
    obtain ⟨b, hb, rfl⟩ := List.mem_map.mp (hnames'.mem_iff.mp (List.mem_map_of_mem hw))
    obtain ⟨a, v, hreflects⟩ := hcounterpart b hb w hw
    exact hreflects.wellFormed
  · refine .object hsecond ht howner' hnames' fun b hb w hw => ?_
    obtain ⟨a, v, hreflects⟩ := hcounterpart b hb w hw
    exact hreflects.conforms
  · refine .object hpair hs ht (howner.trans hs.symm) (howner'.trans ht.symm)
      (hnames.trans htwins.first_names.symm) (hnames'.trans htwins.second_names.symm) ?_
    intro a ha b hb hmem v w hv hw
    obtain ⟨v', w', hv', hw', hreflects⟩ := hfields a ha b hb hmem
    rw [Value.field_of_mem hsource.here hv] at hv'
    rw [Value.field_of_mem hnodup hw] at hw'
    obtain rfl := Except.ok.inj hv'
    obtain rfl := Except.ok.inj hw'
    exact hreflects.mirrors

namespace Registry

variable {D : Declarations} {family : Family} {log : List Registration} {r : Registry}
  {extra : Extra}

/-- A field of a twin contributes what its counterpart in the source is converted to. -/
theorem Makes.exists_contribution_twins {pair : Twins} {overrides : Overrides} {p : Plan}
    {methods : MethodTable} {m : MappingMethod} {inner : Invoker} {v : Value}
    (h : r.Makes pair.first pair.second overrides .create p methods m)
    (hfamily : family.Alike) (hdeclared : family.Declared D) (hpair : pair ∈ family)
    (hrenamed : pair.RenamedBy overrides) (hcreates : Creates D family inner.create (v.height - 1))
    (hv : D.Conforms (.named pair.first.handle) v) (hwellFormed : v.WellFormed) {a b : Slot}
    (ha : a ∈ pair.first.slots) (hb : b ∈ pair.second.slots) (hnames : (a.name, b.name) ∈ pair.names)
    {resolution : Resolution}
    (hmem : (b.describe (pair.second.paramOf b), resolution) ∈ p.goals) :
    ∃ part w, v.field a.name = .ok part ∧ Reflects D family a.type b.type part w ∧
      p.contribution inner.create v extra (b.describe (pair.second.paramOf b)) resolution
        = .ok (some w) := by
  have htwins := hfamily.twins pair hpair
  obtain ⟨hfirst, hsecond⟩ := hdeclared pair hpair
  obtain ⟨-, -, -, hresolve⟩ := h.goal_inv (D.distinct _ hsecond).names hmem
  -- the field comes from its counterpart, which conforms to a corresponding type
  have hfield := Class.field?_of_mem_slots (D.distinct _ hfirst).names ha
  have hrenamed : Plan.resolve pair.first.describe pair.second.describe .create overrides b.name
      (b.describe (pair.second.paramOf b)) = _ :=
    Plan.resolve_renamed hfield (hrenamed _ hnames)
  obtain rfl := Option.some.inj (Except.ok.inj (hresolve.symm.trans hrenamed))
  obtain ⟨part, hpart, hconforms⟩ := hv.field hfirst rfl ha
  obtain ⟨w, hdirect, hreflects⟩ := exists_direct hfamily (htwins.types a ha b hb hnames) hconforms
    (hwellFormed.part (Value.mem_parts_of_field hpart))
    (hcreates.mono (Value.height_le_of_field hpart))
  have hhook : p.target.hook = .none := by rw [h.target_eq, Class.describe_hook htwins.second_body]
  exact ⟨part, w, hpart, hreflects, Plan.contribution_of_hook_none hhook hpart hdirect⟩

/-- A method between twins makes the twin of an object. -/
theorem Makes.exists_create_twins {pair : Twins} {overrides : Overrides} {p : Plan}
    {methods : MethodTable} {m : MappingMethod} {inner : Invoker} {v : Value}
    (h : r.Makes pair.first pair.second overrides .create p methods m)
    (hfamily : family.Alike) (hdeclared : family.Declared D) (hpair : pair ∈ family)
    (hrenamed : pair.RenamedBy overrides) (hcreates : Creates D family inner.create (v.height - 1))
    {s t : ClassHandle} (hs : s.id = pair.first.handle.id) (ht : t.id = pair.second.handle.id)
    (hv : D.Conforms (.named s) v) (hwellFormed : v.WellFormed) :
    ∃ w, m.create inner v extra.value = .ok w ∧ Reflects D family (.named s) (.named t) v w := by
  have htwins := hfamily.twins pair hpair
  obtain ⟨hfirst, hsecond⟩ := hdeclared pair hpair
  have hdistinct := D.distinct _ hsecond
  have hv' := hv.of_id_eq hs.symm
  -- every field has a counterpart that contributes to it, so nothing is missing
  obtain ⟨w, hw⟩ : ∃ w, m.create inner v extra.value = .ok w := by
    refine h.exists_create hdistinct (by rw [Class.validators, htwins.second_body]) ?_
    rintro ⟨goal, resolution⟩ hmem
    obtain ⟨b, hb, rfl, -⟩ := h.goal_inv hdistinct.names hmem
    obtain ⟨a, ha, hnames⟩ := htwins.exists_counterpart hb
    obtain ⟨part, u, -, -, hu⟩ := h.exists_contribution_twins hfamily hdeclared hpair hrenamed
      hcreates hv' hwellFormed ha hb hnames hmem
    exact ⟨u, hu⟩
  refine ⟨w, hw, ?_⟩
  obtain ⟨howner', hnames', hgiven⟩ := h.exists_contributions hdistinct hw
  obtain ⟨owner, fields, assigned, rfl, howner, hnames, -⟩ := hv.class_inv hfirst hs
  cases w with
  | object owner' others assigned' =>
    obtain rfl := Option.some.inj howner'
    refine reflects_object hfamily hdeclared hpair hs ht howner rfl hwellFormed hnames
      (hnames' ▸ .refl _) ?_
    -- what a field of the twin holds is what the plan contributed to it
    intro a ha b hb hmem
    have hgoal : b.describe (pair.second.paramOf b) ∈ p.goals.map (·.1) := by
      rw [h.map_goals hdistinct.names]
      exact List.mem_map_of_mem hb
    obtain ⟨⟨_, resolution⟩, hentry, rfl⟩ := List.mem_map.mp hgoal
    obtain ⟨part, u, hpart, hreflects, hu⟩ := h.exists_contribution_twins hfamily hdeclared hpair
      hrenamed hcreates hv' hwellFormed ha hb hmem hentry
    obtain ⟨given, hgiven, hfield⟩ := hgiven _ hentry
    exact ⟨part, u, hpart, hfield u (Except.ok.inj (hgiven.symm.trans hu)), hreflects⟩
  | _ => cases howner'

/-- **One level of conversions makes the twins of objects** if the levels below it do. -/
theorem creates_createWith (hfamily : family.Alike) (hdeclared : family.Declared D)
    (hreached : Reached log r) (hmapped : family.Mapped log) {inner : Invoker} {n : Nat}
    (hcreates : Creates D family inner.create n) :
    Creates D family (r.createWith extra.value inner) (n + 1) := by
  intro pair hpair s t hs ht v hv hwellFormed hheight
  -- the registration of the twins provides the method that is looked up
  obtain ⟨overrides, mode, hmem, hdirection, hrenamed⟩ := hmapped pair hpair
  obtain ⟨registered, hlookup, hprovides⟩ :=
    hreached.provides hmem (List.mem_map_of_mem hdirection)
  obtain ⟨p, methods, m, rfl, hmade⟩ := hprovides.method_inv
  have hkey : MappingKey.of pair.first.handle pair.second.handle .create
      = .of pair.first.handle t .create := by
    rw [MappingKey.of, MappingKey.of, ht]
  obtain ⟨owner, howner, hid⟩ := handle?_of_conforms (hdeclared pair hpair).1 hs hv
  rw [createWith_of_method howner (hid.trans hs) (hkey ▸ hlookup)]
  exact hmade.exists_create_twins hfamily hdeclared hpair hrenamed (hcreates.mono (by omega)) hs ht
    hv hwellFormed

/-- **The twins of objects are made**, by induction on the height of the source. -/
theorem creates_invoker (hfamily : family.Alike) (hdeclared : family.Declared D)
    (hreached : Reached log r) (hmapped : family.Mapped log) (extra : Extra) (n : Nat) :
    Creates D family (r.invoker extra.value n).create n := by
  induction n with
  | zero =>
    intro pair _ s t _ _ v _ _ hheight
    exact absurd v.height_pos (by omega)
  | succ n ih => exact creates_createWith hfamily hdeclared hreached hmapped ih

/-- A conversion to the twin succeeds and gives an object that mirrors the source. -/
theorem exists_convert_twins (hfamily : family.Alike) (hdeclared : family.Declared D)
    (hreached : Reached log r) (hmapped : family.Mapped log) {pair : Twins} (hpair : pair ∈ family)
    {v : Value} (hv : D.Conforms (.named pair.first.handle) v) (hwellFormed : v.WellFormed)
    (extra : Extra) :
    ∃ w, r.convert v pair.second.handle extra = .ok w ∧
      Reflects D family (.named pair.first.handle) (.named pair.second.handle) v w :=
  creates_invoker hfamily hdeclared hreached hmapped extra v.height pair hpair _ _ rfl rfl v hv
    hwellFormed (Nat.le_refl _)

/-- **Inverse mappings compose to the identity.** Let two disjoint families of plain classes be alike,
class by class and field by field, and let the mappings between twins be registered for both ways,
with exactly the renaming as overrides. Then every conforming object of the first family is converted
to a conforming object of its twin, and this one back to an object that is equal to the first. -/
theorem convert_back_same (hfamily : family.Alike) (hdeclared : family.Declared D)
    (hreached : Reached log r) (hthere : family.Mapped log) (hback : family.swap.Mapped log)
    {pair : Twins} (hpair : pair ∈ family) {v : Value}
    (hv : D.Conforms (.named pair.first.handle) v) (hwellFormed : v.WellFormed)
    (extra extra' : Extra) :
    ∃ w u, r.convert v pair.second.handle extra = .ok w ∧
      D.Conforms (.named pair.second.handle) w ∧
        r.convert w pair.first.handle extra' = .ok u ∧ u.same v = true := by
  obtain ⟨w, hw, hreflects⟩ :=
    exists_convert_twins hfamily hdeclared hreached hthere hpair hv hwellFormed extra
  obtain ⟨u, hu, hreflects'⟩ := exists_convert_twins hfamily.swap hdeclared.swap hreached hback
    (Family.swap_mem hpair) hreflects.conforms hreflects.wellFormed extra'
  refine ⟨w, u, hw, hreflects.conforms, hu, ?_⟩
  -- both the new object and the first one mirror the object in between
  exact hreflects'.mirrors.congr hfamily.swap hreflects.mirrors.symm hreflects.wellFormed
    hreflects.wellFormed hreflects'.wellFormed hwellFormed
    (Value.same_self hreflects.wellFormed.distinctKeys)

end Registry

/-! ## Boxes and crates -/

namespace Sample

/-- The twin of an item. -/
def thing : ClassHandle := ⟨15, "Thing"⟩

/-- A box of items. -/
def box : ClassHandle := ⟨16, "Box"⟩

/-- A crate of things. -/
def crate : ClassHandle := ⟨17, "Crate"⟩

/-- The title of a thing is the name of its twin. -/
def thingClass : Class := ⟨thing, [slot "title" (.builtin .str)], .dataclass⟩

/-- A note, which is not given to the constructor. -/
def note : Slot := ⟨"note", .optional (.builtin .str), none, none, false, false⟩

/-- A box holds a set of items and a note. -/
def boxClass : Class := ⟨box, [slot "items" (.set (.named item)), note], .dataclass⟩

/-- A crate holds a set of things and a note. -/
def crateClass : Class := ⟨crate, [slot "contents" (.set (.named thing)), note], .dataclass⟩

/-- Items and things, with other names for their fields. -/
def itemTwins : Twins := ⟨itemClass, thingClass, [("name", "title")]⟩

/-- Boxes and crates, whose notes go by the same name. -/
def boxTwins : Twins := ⟨boxClass, crateClass, [("items", "contents"), ("note", "note")]⟩

/-- Boxes of items, and crates of things. -/
def boxes : Family := [itemTwins, boxTwins]

/-- The classes of both families. -/
def boxDeclarations : Declarations where
  classes := [itemClass, thingClass, boxClass, crateClass]
  enums := []
  nodup_ids := by decide
  not_builtin := by
    intro id hid b
    cases b <;> revert id <;> decide
  distinct := by
    simp only [List.forall_mem_cons]
    refine ⟨.of_dataclass rfl ?_, .of_dataclass rfl ?_, .of_dataclass rfl ?_,
      .of_dataclass rfl ?_, nofun⟩
    all_goals decide

/-- The mappings between the twins, each of which is registered for both ways. -/
def boxLog : List Registration :=
  [.classes crateClass boxClass [("items", .source "contents")] .create,
    .classes boxClass crateClass [("contents", .source "items")] .create,
    .classes thingClass itemClass [("name", .source "title")] .create,
    .classes itemClass thingClass [("title", .source "name")] .create]

/-- The registry that the log leads to. -/
def boxRegistry : Registry := (Registry.replay boxLog).toOption.getD .empty

/-- The sample registry is reached by its registrations. -/
theorem reached_boxRegistry : Registry.Reached boxLog boxRegistry :=
  Registry.reached_iff_replay.mpr (eq_ok_getD (by decide +kernel) _)

/-- The sample twins are alike. -/
theorem alike_boxes : boxes.Alike := by
  have hstr : (FieldType.builtin .str).Corresponds boxes (.builtin .str) := .named rfl
  have hitems : (FieldType.set (.named item)).Corresponds boxes (.set (.named thing)) :=
    .set (.twins (List.mem_cons_self : itemTwins ∈ boxes) rfl rfl)
  refine ⟨by decide, fun pair hpair => ?_⟩
  rcases List.mem_pair.mp hpair with rfl | rfl
  · refine ⟨rfl, rfl, .refl _, .refl _, ?_⟩
    simpa [itemTwins, itemClass, thingClass, slot] using hstr
  · refine ⟨rfl, rfl, .refl _, .refl _, ?_⟩
    simpa [boxTwins, boxClass, crateClass, slot, note] using ⟨hitems, hstr.optional⟩

/-- The classes of the sample twins are declared. -/
theorem declared_boxes : boxes.Declared boxDeclarations := by
  simp [boxes, itemTwins, boxTwins, Family.Declared, boxDeclarations]

/-- The sample twins are mapped in the one direction. -/
theorem mapped_boxes : boxes.Mapped boxLog := by
  intro pair hpair
  rcases List.mem_pair.mp hpair with rfl | rfl
  · refine ⟨[("title", .source "name")], .create, by simp [boxLog, itemTwins], by decide, ?_⟩
    simp [Twins.RenamedBy, itemTwins]
  · refine ⟨[("contents", .source "items")], .create, by simp [boxLog, boxTwins], by decide, ?_⟩
    simp [Twins.RenamedBy, boxTwins]

/-- The sample twins are mapped in the other direction. -/
theorem mapped_swap_boxes : boxes.swap.Mapped boxLog := by
  intro pair hpair
  rcases List.mem_pair.mp hpair with rfl | rfl
  · refine ⟨[("name", .source "title")], .create, by simp [boxLog, itemTwins], by decide, ?_⟩
    simp [Twins.RenamedBy, Twins.swap, itemTwins]
  · refine ⟨[("items", .source "contents")], .create, by simp [boxLog, boxTwins], by decide, ?_⟩
    simp [Twins.RenamedBy, Twins.swap, boxTwins]

/-- A box of two items. -/
def boxOf (name other : String) : Value :=
  .object box [("items", .set [named item name, named item other]), ("note", .str "fragile")] []

/-- A box is of its class. -/
theorem conforms_boxOf (name other : String) :
    boxDeclarations.Conforms (.named box) (boxOf name other) := by
  have hitem : ∀ name, boxDeclarations.Conforms (.named item) (named item name) := by
    intro name
    refine .object (show itemClass ∈ _ by simp [boxDeclarations]) rfl rfl (.refl _) ?_
    intro slot hslot v hv
    obtain rfl := List.mem_singleton.mp hslot
    obtain ⟨-, rfl⟩ := Prod.mk.inj (List.mem_singleton.mp hv)
    exact .builtin (show _ = Builtin.str.id from rfl) rfl
  refine .object (show boxClass ∈ _ by simp [boxDeclarations]) rfl rfl (.refl _) ?_
  intro slot hslot v hv
  rcases List.mem_pair.mp hslot with rfl | rfl
  · obtain rfl : v = .set [named item name, named item other] := by
      simpa [Sample.slot, note] using hv
    exact .set (by simp [hitem])
  · obtain rfl : v = .str "fragile" := by simpa [Sample.slot, note] using hv
    exact .some (.builtin (show _ = Builtin.str.id from rfl) rfl)

/-- A box of two different items is well-formed. -/
theorem wellFormed_boxOf {name other : String} (h : other ≠ name) :
    (boxOf name other).WellFormed := by
  have hstr : ∀ s, (Value.str s).WellFormed := fun _ => .of_parts trivial (by simp [Value.parts])
  have hitem : ∀ name, (named item name).WellFormed := fun name =>
    .of_parts (List.nodup_singleton _) (by simpa [named, Value.parts] using hstr name)
  have hitems : (Value.set [named item name, named item other]).WellFormed := by
    refine .of_parts (List.pairwise_pair.mpr ?_) (by simp [Value.parts, hitem])
    simpa [named, Value.same, Value.fieldsIncluded] using h
  refine .of_parts (show ["items", "note"].Nodup by decide) ?_
  simpa [boxOf, Value.parts] using ⟨hitems, hstr "fragile"⟩

end Sample

/-- A box of items becomes a crate of things and a box again, and nothing is lost. -/
theorem Registry.convert_back_same_box : ∃ w u,
    Sample.boxRegistry.convert (Sample.boxOf "pen" "ink") Sample.crate [] = .ok w ∧
      Sample.boxDeclarations.Conforms (.named Sample.crate) w ∧
        Sample.boxRegistry.convert w Sample.box [] = .ok u ∧
          u.same (Sample.boxOf "pen" "ink") = true :=
  Registry.convert_back_same Sample.alike_boxes Sample.declared_boxes Sample.reached_boxRegistry
    Sample.mapped_boxes Sample.mapped_swap_boxes
    (List.mem_cons_of_mem _ List.mem_cons_self : Sample.boxTwins ∈ Sample.boxes)
    (Sample.conforms_boxOf "pen" "ink") (Sample.wellFormed_boxOf (by decide)) [] []

end ObjectMapping
