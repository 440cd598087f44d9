import ObjectMapping.Proofs.Class.Supply
import ObjectMapping.Proofs.Registry.MethodAgreement
import ObjectMapping.Proofs.Registry.Safety

/-! # Mappings supply constructors

A finished plan has a value for every field that has to be provided, so the constructors that
mappings call are given what they need, under names that they know. There is one exception: an
override may ask for a field to be assigned only if the source field is there, and nothing keeps it
from asking so for a field that has to be provided.

* `conditionalFields`: the source fields that a mapping reads for such fields only if they are there.
* `granted`: whether these are there, for one invocation.
* **`Makes.create_supplied`** — a create method supplies the constructor of its class.
* **`convert_supplied`** — a conversion never ends in a constructor that lacks an argument or does not
  know one. -/

namespace ObjectMapping

open Outcome

/-! ## Operations that construct nothing -/

/-- A success supplies no constructor wrongly. -/
theorem supplied_ok {α : Type} (a : α) : Supplied (.ok a) := trivial

namespace Value

/-- Taking the elements of a value supplies no constructor wrongly. -/
theorem elements_supplied (v : Value) : Supplied v.elements := by
  cases v <;> trivial

/-- Taking the entries of a value supplies no constructor wrongly. -/
theorem entries_supplied (v : Value) : Supplied v.entries := by
  cases v <;> trivial

/-- Reading a field supplies no constructor wrongly. -/
theorem field_supplied (v : Value) (name : String) : Supplied (v.field name) := by
  cases v with
  | object owner fields assigned =>
    rw [field_object]
    cases fields.lookup name <;> trivial
  | _ => trivial

/-- Looking something up under a key supplies no constructor wrongly. -/
theorem subscript_supplied (v key : Value) : Supplied (v.subscript key) := by
  rw [subscript]
  split <;> trivial

/-- Asking for an assignment supplies no constructor wrongly. -/
theorem isAssigned_supplied (v : Value) (name : String) : Supplied (v.isAssigned name) := by
  cases v <;> trivial

/-- Assigning a field supplies no constructor wrongly. -/
theorem assign_supplied (v : Value) (name : String) (value : Value) :
    Supplied (v.assign name value) := by
  cases v with
  | object owner fields assigned =>
    rw [assign]
    split <;> trivial
  | _ => trivial

end Value

/-- Mapping a member of an enum supplies no constructor wrongly. -/
theorem EnumMapping.apply_supplied (m : EnumMapping) (v : Value) : Supplied (m.apply v) := by
  cases v with
  | member owner name =>
    rw [apply]
    split
    · cases m.table.lookup name with
      | none => trivial
      | some other =>
        show Supplied (m.target.member other)
        rw [Enumeration.member]
        split <;> trivial
    · trivial
  | _ => trivial

namespace Conversion

variable {create : Value → ClassHandle → Except Error Value} {value : Except Error Value}

/-- If converting an element supplies constructors rightly, converting all elements does. -/
theorem eachElement_supplied {convert : Value → Except Error Value} (hvalue : Supplied value)
    (hconvert : ∀ item, Supplied (convert item)) : Supplied (eachElement convert value) := by
  refine hvalue.bind fun v _ => (v.elements_supplied).bind fun items _ => ?_
  exact meets_mapM fun item _ => hconvert item

/-- If converting keys and values supplies constructors rightly, converting all entries does. -/
theorem eachEntry_supplied {convertKey convertValue : Value → Except Error Value}
    (hvalue : Supplied value) (hkey : ∀ key, Supplied (convertKey key))
    (hentry : ∀ v, Supplied (convertValue v)) :
    Supplied (eachEntry convertKey convertValue value) := by
  refine hvalue.bind fun v _ => (v.entries_supplied).bind fun entries _ => ?_
  refine meets_mapM fun entry _ => ?_
  exact (hkey entry.1).bind fun _ _ => (hentry entry.2).bind fun _ _ => trivial

/-- The positions of a tuple, given the same for the type of each of them. -/
theorem directAll_supplied {sources targets : List FieldType} {position : Nat}
    (heach : ∀ target ∈ targets, ∀ {source : FieldType} {value : Except Error Value},
      Supplied value → Supplied (direct create source value target)) (hvalue : Supplied value) :
    Supplied (directAll create sources value position targets) := by
  induction targets generalizing sources position with
  | nil =>
    rw [directAll_nil]
    exact trivial
  | cons target targets ih =>
    cases sources with
    | nil =>
      rw [directAll_nil_left]
      exact trivial
    | cons source sources =>
      rw [directAll]
      have hitem := hvalue.bind fun v _ => v.subscript_supplied (.int (.ofInt position))
      refine (heach target List.mem_cons_self hitem).bind fun _ _ => ?_
      exact (ih fun other hother => heach other (List.mem_cons_of_mem _ hother)).bind
        fun _ _ => trivial

/-- Nothing is made of a value between types that have nothing to do with each other. -/
theorem unrelated_supplied (hvalue : Supplied value) (text : String) :
    Supplied (do Except.error (.noMappingRegistered (← value).typeName text) : Except Error Value) :=
  hvalue.bind fun _ _ => rfl

/-- A conversion constructs nothing by itself. -/
theorem direct_supplied (hcreate : ∀ v t, Supplied (create v t)) {source target : FieldType}
    (hvalue : Supplied value) : Supplied (direct create source value target) := by
  -- on the target type: only between two classes is anything made, and there by a create method
  induction target generalizing source value with
  | any =>
    rw [direct_any]
    exact hvalue
  | named t =>
    cases source with
    | named s =>
      rw [direct]
      split
      · exact hvalue
      · exact hvalue.bind fun v _ => hcreate v t
    | _ => exact unrelated_supplied hvalue _
  | union members =>
    cases source with
    | named s =>
      rw [direct_union_of_named]
      exact hvalue
    | union arms =>
      rw [direct_union_of_union]
      exact hvalue
    | _ => exact unrelated_supplied hvalue _
  | list t ih =>
    cases source with
    | list s =>
      rw [direct]
      refine (eachElement_supplied hvalue fun item => ?_).bind fun _ _ => trivial
      exact ih (supplied_ok item)
    | _ => exact unrelated_supplied hvalue _
  | set t ih =>
    cases source with
    | set s =>
      rw [direct]
      refine (eachElement_supplied hvalue fun item => ?_).bind fun _ _ => trivial
      exact ih (supplied_ok item)
    | _ => exact unrelated_supplied hvalue _
  | dict tk tv ihk ihv =>
    cases source with
    | dict sk sv =>
      rw [direct]
      refine (eachEntry_supplied hvalue ?_ ?_).bind fun _ _ => trivial
      · exact fun key => ihk (supplied_ok key)
      · exact fun v => ihv (supplied_ok v)
    | _ => exact unrelated_supplied hvalue _
  | tuple ts ih =>
    cases source with
    | tuple ss =>
      rw [direct]
      refine (directAll_supplied ?_ hvalue).bind fun _ _ => trivial
      exact fun t ht _ _ hvalue => ih t ht hvalue
    | _ => exact unrelated_supplied hvalue _
  | optional t ih =>
    cases source with
    | optional s =>
      rw [direct_optional_of_optional]
      refine hvalue.bind fun v _ => ?_
      cases v.isNone with
      | true => exact trivial
      | false => exact ih hvalue
    | _ => exact ih hvalue

end Conversion

/-! ## Plans for new objects -/

/-- The source fields that a mapping reads only if they are there, although the target fields have to
be provided, because overrides say so. -/
def conditionalFields (target : Class) (overrides : Overrides) : List String :=
  target.slots.filterMap fun slot =>
    match slot.needsArgument, overrides.lookup slot.name with
    | true, some (.updateOnlyIfSet name?) => some (name?.getD slot.name)
    | _, _ => none

namespace Plan

variable {source target : Descriptor} {overrides : Overrides} {p : Plan} {goal : FieldDescriptor}
  {create : Value → ClassHandle → Except Error Value} {this : Value} {extra : Extra}

/-- **What a field that has to be provided is made of** when a new object is made: of a source field
in any case, or only if it is there because an override says so, or of something else. -/
theorem resolve_required (hrequired : goal.required = true) {key : String} {resolution : Resolution}
    (h : resolve source target .create overrides key goal = .ok (some resolution)) :
    resolution ≠ .default ∧ ∀ field type, resolution = .field field type true →
      ∃ name?, overrides.lookup key = some (.updateOnlyIfSet name?) ∧
        source.field? (name?.getD goal.name) = some field := by
  -- a new object takes every value as it is, so nothing is skipped without an override
  have hfromField : ∀ field, fromField .create field goal = .field field field.type false :=
    fun _ => rfl
  rw [resolve] at h
  cases hoverride : overrides.lookup key with
  | none =>
    rw [hoverride] at h
    have himplicit := Except.ok.inj h
    rw [implicit?] at himplicit
    split at himplicit
    · obtain rfl := Option.some.inj himplicit
      exact ⟨by simp [hfromField], by simp [hfromField]⟩
    · rw [hrequired] at himplicit
      cases himplicit
  | some override =>
    rw [hoverride] at h
    obtain ⟨found, hexplicit, hsome⟩ := bind_eq_ok.mp h
    obtain rfl := Option.some.inj (Except.ok.inj hsome)
    cases override with
    | source name =>
      obtain ⟨field, -, hfield⟩ := bind_eq_ok.mp hexplicit
      obtain rfl := Except.ok.inj hfield
      exact ⟨by simp [hfromField], by simp [hfromField]⟩
    | factory f =>
      obtain rfl := Except.ok.inj hexplicit
      exact ⟨by simp, by simp⟩
    | fromExtra key =>
      obtain rfl := Except.ok.inj hexplicit
      exact ⟨by simp, by simp⟩
    | ignore omission =>
      -- a field that has to be given cannot be left out
      rw [explicit, hrequired] at hexplicit
      cases hexplicit
    | assumeNotNone name? =>
      obtain ⟨field, -, hfield⟩ := bind_eq_ok.mp hexplicit
      obtain rfl := Except.ok.inj hfield
      exact ⟨by simp, by simp⟩
    | updateOnlyIfSet name? =>
      obtain ⟨field, hsource, hfield⟩ := bind_eq_ok.mp hexplicit
      obtain rfl := Except.ok.inj hfield
      -- the one kind of override that skips absent values
      refine ⟨by simp, fun field' type heq => ?_⟩
      obtain ⟨rfl, -⟩ := Resolution.field.inj heq
      exact ⟨name?, rfl, sourceField_eq_ok hsource⟩

/-- Deciding on an assignment supplies no constructor wrongly. -/
theorem performs_supplied (p : Plan) (this : Value) (goal field : FieldDescriptor)
    (onlyIfSet : Bool) : Supplied (p.performs this goal field onlyIfSet) := by
  have hpresent : Supplied (present this field onlyIfSet) := by
    rw [present]
    split
    · have hfield := this.field_supplied field.name
      cases hpart : this.field field.name with
      | error e =>
        rw [hpart] at hfield
        exact hfield
      | ok part => exact trivial
    · exact trivial
  refine hpresent.bind fun there _ => ?_
  cases there with
  | false => exact trivial
  | true =>
    show Supplied (p.intended this goal field)
    rw [intended]
    split
    · exact this.isAssigned_supplied field.name
    · exact trivial

/-- If create methods supply constructors rightly, so does finding the value for a field. -/
theorem contribution_supplied (hcreate : ∀ v t, Supplied (create v t)) (resolution : Resolution) :
    Supplied (p.contribution create this extra goal resolution) := by
  cases resolution with
  | default => exact trivial
  | factory f => exact trivial
  | fromExtra key =>
    rw [contribution]
    split <;> trivial
  | field field type onlyIfSet =>
    refine (p.performs_supplied this goal field onlyIfSet).bind fun performed _ => ?_
    cases performed with
    | false => exact trivial
    | true =>
      exact (Conversion.direct_supplied hcreate (this.field_supplied field.name)).bind
        fun _ _ => trivial

/-- Assignments that are left are carried out, as far as they depend on constructors. -/
theorem foldlM_asField_supplied (hcreate : ∀ v t, Supplied (create v t))
    (goals : List (FieldDescriptor × Resolution)) (object : Value) :
    Supplied (goals.foldlM (p.contribute create this extra asField) object) := by
  refine meets_foldlM (fun entry _ object _ => ?_) trivial
  refine (contribution_supplied hcreate entry.2).bind fun given _ => ?_
  cases given with
  | none => exact trivial
  | some value => exact object.assign_supplied entry.1.name value

/-- The names of the arguments that fields contribute are distinct, and each is that of a field. -/
theorem foldlM_asArgument_meets {P : Error → Prop} {goals : List (FieldDescriptor × Resolution)}
    (h : ∀ entry ∈ goals, Meets P (fun _ => True)
      (p.contribution create this extra entry.1 entry.2)) :
    Meets P (fun args : Arguments => (args.map (·.1)).Nodup ∧
        ∀ param ∈ args.map (·.1), ∃ entry ∈ goals, param = entry.1.param)
      (goals.foldlM (p.contribute create this extra asArgument) []) := by
  refine meets_foldlM (fun entry hentry args hargs => ?_) ⟨List.nodup_nil, nofun⟩
  refine (h entry hentry).bind fun given _ => ?_
  cases given with
  | none => exact hargs
  | some value =>
    refine ⟨Keyed.nodup_keys_insert hargs.1 _ _, fun param hparam => ?_⟩
    rcases Keyed.mem_keys_insert hparam with hold | rfl
    · exact hargs.2 param hold
    · exact ⟨entry, hentry, rfl⟩

end Plan

/-! ## Registered methods -/

namespace Registry.Makes

variable {r : Registry} {source target : Class} {overrides : Overrides} {p : Plan}
  {methods : MethodTable} {m : MappingMethod} {this : Value} {extra : Extra} {invoker : Invoker}
  {create : Value → ClassHandle → Except Error Value}

/-- The source field is there for a field that needs an argument, or nobody asks whether it is. -/
theorem present_ne_false (h : r.Makes source target overrides .create p methods m)
    (hdistinct : target.DistinctNames) (hfillable : target.Fillable)
    (hthere : ∀ name ∈ conditionalFields target overrides, this.isThere name = true)
    {slot : Slot} (hslot : slot ∈ target.slots) (hneeds : slot.needsArgument = true)
    {field : FieldDescriptor} {type : FieldType} {onlyIfSet : Bool}
    (hmem : (slot.describe (target.paramOf slot), .field field type onlyIfSet) ∈ p.goals) :
    Plan.present this field onlyIfSet ≠ .ok false := by
  obtain ⟨-, -, -, hresolve⟩ := h.goal_inv hdistinct.names hmem
  obtain ⟨-, hconditional⟩ := Plan.resolve_required (hfillable slot hslot hneeds) hresolve
  rw [Plan.present]
  split
  · next honlyIfSet =>
    subst honlyIfSet
    -- the guard is there by `updateOnlyIfSet` only, and then the field is asked to be there
    obtain ⟨name?, hoverride, hfield⟩ := hconditional field type rfl
    have hname : field.name ∈ conditionalFields target overrides := by
      refine List.mem_filterMap.mpr ⟨slot, hslot, ?_⟩
      have hlookup : overrides.lookup slot.name = some (.updateOnlyIfSet name?) := hoverride
      rw [hneeds, hlookup, Class.field_name_of_field? hfield]
      rfl
    have hisThere := hthere _ hname
    rw [Value.isThere] at hisThere
    cases hpart : this.field field.name with
    | error e => simp [Except.map]
    | ok part =>
      rw [hpart] at hisThere
      simpa [Except.map] using hisThere
  · simp

/-- A field that needs an argument contributes one, if it contributes at all. -/
theorem contribution_ne_none (h : r.Makes source target overrides .create p methods m)
    (hdistinct : target.DistinctNames) (hfillable : target.Fillable)
    (hthere : ∀ name ∈ conditionalFields target overrides, this.isThere name = true)
    {slot : Slot} (hslot : slot ∈ target.slots) (hneeds : slot.needsArgument = true)
    {goal : FieldDescriptor} (hgoal : goal = slot.describe (target.paramOf slot))
    {resolution : Resolution} (hmem : (goal, resolution) ∈ p.goals) :
    p.contribution create this extra goal resolution ≠ .ok none := by
  subst hgoal
  have hrequired : (slot.describe (target.paramOf slot)).required = true :=
    hfillable slot hslot hneeds
  obtain ⟨-, -, -, hresolve⟩ := h.goal_inv hdistinct.names hmem
  obtain ⟨hdefault, -⟩ := Plan.resolve_required hrequired hresolve
  cases resolution with
  | default => exact absurd rfl hdefault
  | factory f => simp [Plan.contribution]
  | fromExtra key =>
    rw [Plan.contribution]
    split <;> simp
  | field field type onlyIfSet =>
    have hintended : p.intended this (slot.describe (target.paramOf slot)) field = .ok true := by
      rw [Plan.intended, Plan.hookApplies, hrequired, Bool.not_true, Bool.and_false]
      rfl
    -- nothing is contributed only where the field is not there or not intended
    intro hnone
    obtain ⟨performed, hperforms, hcontributed⟩ := bind_eq_ok.mp hnone
    obtain ⟨there, hpresent, hperformed⟩ := bind_eq_ok.mp hperforms
    cases there with
    | false => exact h.present_ne_false hdistinct hfillable hthere hslot hneeds hmem hpresent
    | true =>
      obtain rfl := Except.ok.inj (hintended.symm.trans hperformed)
      obtain ⟨value, -, hvalue⟩ := bind_eq_ok.mp hcontributed
      cases hvalue

/-- The fields of the target class supply its constructor, if those that need an argument contribute
one. -/
theorem arguments_meet {P : Error → Prop}
    (h : r.Makes source target overrides .create p methods m) (hdistinct : target.DistinctNames)
    (hcontributes : ∀ entry ∈ p.goals, Meets P (fun _ => True)
      (p.contribution create this extra entry.1 entry.2))
    (hneeded : ∀ slot ∈ target.slots, slot.needsArgument = true → ∀ goal resolution,
      goal = slot.describe (target.paramOf slot) → (goal, resolution) ∈ p.goals →
        p.contribution create this extra goal resolution ≠ .ok none) :
    Meets P (target.Supplies target.slots)
      ((p.goals.filter (·.1.accepted)).foldlM (p.contribute create this extra Plan.asArgument) []) := by
  have hmeets : Meets P _ ((p.goals.filter (·.1.accepted)).foldlM
      (p.contribute create this extra Plan.asArgument) []) :=
    Plan.foldlM_asArgument_meets fun entry hentry =>
      hcontributes entry (List.mem_filter.mp hentry).1
  cases hargs : (p.goals.filter (·.1.accepted)).foldlM
      (p.contribute create this extra Plan.asArgument) [] with
  | error e =>
    rw [hargs] at hmeets
    exact hmeets
  | ok args =>
    rw [hargs] at hmeets
    obtain ⟨hnodup, hknown⟩ := hmeets
    -- arguments have names of fields, and what is needed is among them
    refine ⟨hnodup, fun param hparam => ?_, fun slot hslot hneeds => ?_⟩
    · obtain ⟨entry, hentry, rfl⟩ := hknown param hparam
      obtain ⟨hmem, haccepted⟩ := List.mem_filter.mp hentry
      obtain ⟨slot, hslot, hgoal, -⟩ := h.goal_inv hdistinct.names hmem
      rw [hgoal] at haccepted ⊢
      exact ⟨slot, hslot, haccepted, rfl⟩
    · have hdescribed : slot.describe (target.paramOf slot) ∈ p.goals.map (·.1) := by
        rw [h.map_goals hdistinct.names]
        exact List.mem_map_of_mem hslot
      obtain ⟨⟨goal, resolution⟩, hmem, hgoal⟩ := List.mem_map.mp hdescribed
      have haccepted : goal.accepted = true := by
        rw [show goal = _ from hgoal]
        exact (Bool.and_eq_true_iff.mp hneeds).1
      -- a field that contributes something is among the arguments
      obtain ⟨given, hgiven, hlookup⟩ := (Plan.contributed_of_foldlM Plan.writesUnder_asArgument
        (h.nodup_params hdistinct) hargs).1 _ (List.mem_filter.mpr ⟨hmem, haccepted⟩)
      cases given with
      | none => exact absurd hgiven (hneeded slot hslot hneeds goal resolution hgoal hmem)
      | some value =>
        have hfound := hlookup value rfl
        rw [show goal = _ from hgoal] at hfound
        exact Keyed.lookup_isSome_iff_mem_keys.mp (Option.isSome_iff_exists.mpr ⟨value, hfound⟩)

/-- **A registered create method supplies the constructor of its target class.** -/
theorem create_supplied (h : r.Makes source target overrides .create p methods m)
    (hdistinct : target.DistinctNames) (hfillable : target.Fillable)
    (hthere : ∀ name ∈ conditionalFields target overrides, this.isThere name = true)
    (hcreate : ∀ v t, Supplied (invoker.create v t)) :
    Supplied (m.create invoker this extra.value) := by
  rw [h.create_eq, Plan.evaluate, h.target_eq]
  refine (h.arguments_meet hdistinct (fun entry _ => Plan.contribution_supplied hcreate entry.2)
    fun slot hslot hneeds goal resolution hgoal hmem =>
      h.contribution_ne_none hdistinct hfillable hthere hslot hneeds hgoal hmem).bind ?_
  intro args hargs
  refine (Class.construct_supplied hdistinct hargs).bind fun object _ => ?_
  exact Plan.foldlM_asField_supplied hcreate _ object

end Registry.Makes

/-! ## Invocations -/

namespace Registration

/-- The source fields that a registration reads only if they are there, for target fields that have
to be provided. -/
def conditional : Registration → List String
  | .classes _ target overrides _ => conditionalFields target overrides
  | .enums .. => []

/-- The constructor of the target class can be supplied. -/
def Buildable : Registration → Prop
  | .classes _ target _ _ => target.DistinctNames ∧ target.Fillable
  | .enums .. => True

end Registration

/-- Whether the attributes that the invoked mapping reads only if they are there are there. -/
def granted (log : List Registration) (invocation : Invocation) : Bool :=
  invocation.satisfies log fun registration source => registration.conditional.all source.isThere

section Invocations

open Registry

variable {log : List Registration} {r : Registry} {extra : Extra} {refusal : Error}

/-- One level of conversions supplies constructors if the levels below it do. -/
theorem createWith_supplied (hreached : Reached log r)
    (hbuildable : ∀ registration ∈ log, registration.Buildable) {inner : Invoker}
    (hinner : ∀ v t, Supplied (inner.create v t)) {v : Value} {t : ClassHandle}
    (hgranted : granted log (.create v t) = true) :
    Supplied (r.createWith extra.value inner v t) := by
  rw [createWith]
  cases howner : v.handle? with
  | none => exact rfl
  | some owner =>
    rw [Option.bind_some]
    cases hlookup : r.lookup? (.of owner t .create) with
    | none => exact rfl
    | some registered =>
      obtain ⟨registration, hmem, hprovides⟩ := hreached.exists_provides hlookup
      have hkey := Invocation.key?_create (t := t) howner rfl
      generalize hk : MappingKey.of owner t .create = key at hprovides hkey
      cases hprovides with
      | enum hbuild => exact EnumMapping.apply_supplied _ v
      | method hdirection hmade =>
        obtain ⟨-, -, rfl⟩ := MappingKey.mk.inj hk
        obtain ⟨hdistinct, hfillable⟩ := hbuildable _ hmem
        -- the invocation is granted as a whole, and the mapping that it reaches is this one
        have hthere := Invocation.condition_of_satisfies hgranted hmem hkey
          (List.mem_map_of_mem hdirection)
        exact hmade.create_supplied hdistinct hfillable (List.all_eq_true.mp hthere) hinner

/-- **Whatever is made, its constructor is supplied**, if what is not granted is refused. -/
theorem restricted_supplied (extra : Extra) (hreached : Reached log r)
    (hbuildable : ∀ registration ∈ log, registration.Buildable)
    (hrefusal : refusal.isConstruction = false) (n : Nat) (v : Value) (t : ClassHandle) :
    Supplied ((r.restricted extra.value (granted log) refusal n).create v t) := by
  induction n generalizing v t with
  | zero => exact rfl
  | succ n ih =>
    rw [restricted, restrict]
    dsimp only
    split
    · next hgranted => exact createWith_supplied hreached hbuildable ih hgranted
    · exact hrefusal

end Invocations

/-- **Mappings supply constructors.** Let registrations lead to a registry, for target classes whose
names are distinct and whose constructors can fill in what need not be provided. Then a conversion
never ends in a constructor that lacks an argument or does not know one, whatever the source is and
whatever the caller provides, unless an invoked mapping was asked to provide a field, that has to be
provided, only if a source field is there, and it is not. -/
theorem convert_supplied {log : List Registration} {r : Registry} (hreached : Registry.Reached log r)
    (hbuildable : ∀ registration ∈ log, registration.Buildable) (v : Value) (t : ClassHandle)
    (extra : Extra) (hwithin : r.ConvertsWithin (granted log) v t extra) :
    ∀ e, r.convert v t extra = .error e → e.isConstruction = false := by
  intro e he
  have hsupplied := restricted_supplied extra hreached hbuildable
    (show (Error.raised "").isConstruction = false from rfl) v.height v t
  rw [hwithin, he] at hsupplied
  exact hsupplied

/-! ## A field that is provided only if it is there -/

namespace Sample

/-- A part of some machine. -/
def part : ClassHandle := ⟨13, "Part"⟩

/-- The view of a part. -/
def partView : ClassHandle := ⟨14, "PartView"⟩

/-- The weight of a part may be unknown. -/
def partClass : Class := ⟨part, [slot "weight" (.optional (.builtin .int))], .dataclass⟩

/-- The view of a part has to have a weight. -/
def partViewClass : Class := ⟨partView, [slot "weight" (.builtin .int)], .dataclass⟩

/-- The weight of the view is given only if the part has one. -/
def partLog : List Registration :=
  [.classes partClass partViewClass [("weight", .updateOnlyIfSet none)] .create]

/-- The registry that the log leads to. -/
def partRegistry : Registry :=
  match Registry.replay partLog with
  | .ok r => r
  | .error _ => .empty

/-- The sample registry is reached by its registrations. -/
theorem reached_partRegistry : Registry.Reached partLog partRegistry := by
  have hok : (Registry.replay partLog).isOk = true := by decide +kernel
  rw [Registry.reached_iff_replay, partRegistry]
  cases hreplay : Registry.replay partLog with
  | ok r => rfl
  | error e =>
    rw [hreplay] at hok
    cases hok

/-- The constructors for the sample mappings can be supplied. -/
theorem buildable_partLog : ∀ registration ∈ partLog, registration.Buildable := by
  intro registration hmem
  obtain rfl := List.mem_singleton.mp hmem
  refine ⟨.of_dataclass rfl ?_, ?_⟩
  · decide
  · intro slot hslot _
    obtain rfl := List.mem_singleton.mp hslot
    rfl

/-- A part of a certain weight. -/
def partOf (weight : Value) : Value := .object part [("weight", weight)] []

/-- The classes of parts and their views. -/
def partDeclarations : Declarations where
  classes := [partClass, partViewClass]
  enums := []
  nodup_ids := by decide
  not_builtin := by
    intro id hid b
    cases b <;> revert id <;> decide
  distinct := by
    simp only [List.forall_mem_cons]
    refine ⟨.of_dataclass rfl ?_, .of_dataclass rfl ?_, nofun⟩
    all_goals decide

/-- A part may have no weight. -/
theorem conforms_partOf_none : partDeclarations.Conforms (.named part) (partOf .none) := by
  have hclass : partClass ∈ partDeclarations.classes := by simp [partDeclarations]
  refine .object hclass rfl rfl (.refl _) ?_
  intro slot hslot v hv
  obtain rfl := List.mem_singleton.mp hslot
  obtain ⟨-, rfl⟩ := Prod.mk.inj (List.mem_singleton.mp hv)
  exact .none (.builtin .int)

end Sample

/-- The view of a part with a weight is made, and if it were not, it would not be for want of an
argument. -/
theorem convert_supplied_part :
    Sample.partRegistry.convert (Sample.partOf (.int 3)) Sample.partView []
      = .ok (.object Sample.partView [("weight", .int 3)] ["weight"]) ∧
    ∀ e, Sample.partRegistry.convert (Sample.partOf (.int 3)) Sample.partView [] = .error e →
      e.isConstruction = false :=
  ⟨rfl, convert_supplied Sample.reached_partRegistry Sample.buildable_partLog _ _ _ fun _ => rfl⟩

/-- **A registered mapping need not supply the constructor.** The mapping of parts is registered, and
a part without a weight conforms to its class; but the view of it cannot be constructed. -/
theorem convert_part_lacks_weight :
    Registry.Reached Sample.partLog Sample.partRegistry ∧
    (∀ registration ∈ Sample.partLog, registration.Buildable) ∧
    Sample.partRegistry.contains (.of Sample.part Sample.partView .create) = true ∧
    Sample.partDeclarations.Conforms (.named Sample.part) (Sample.partOf .none) ∧
    Sample.partRegistry.convert (Sample.partOf .none) Sample.partView []
      = .error (.construction "PartView" (.missingArgument "weight")) :=
  ⟨Sample.reached_partRegistry, Sample.buildable_partLog, by decide +kernel,
    Sample.conforms_partOf_none, rfl⟩

end ObjectMapping
