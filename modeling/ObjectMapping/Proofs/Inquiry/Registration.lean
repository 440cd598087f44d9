import ObjectMapping.Proofs.Inquiry.Method

/-! # Registrations as inquiries

A registration first asks whether its keys are new, and then makes its methods, for one direction
after the other. Only after that does it enter what it made, all at once.

* **`Registration.inquiry`** — the part of a registration that only asks.
* **`Registry.enter_eq_inquiry`** — a registration is its inquiry with answers from the registry, and
  after it the insertion.
* **`Registration.keys_of_leads`**, **`Registration.linked_of_leads`** — what the inquiry leads to
  belongs under the keys of the registration, and all calls in it are linked. -/

namespace ObjectMapping

open Outcome Inquiry

namespace Registration

/-- Fails if there is a mapping already in one of the directions. -/
def askNew (source target : ClassHandle) : List Direction → Inquiry Error Unit
  | [] => pure ()
  | direction :: rest => do
      refuse (.of source target direction) (.duplicateMapping source.name target.name direction)
      askNew source target rest

/-- The methods for directions, with questions for the methods that they call. -/
def askMethods (source target : Class) (overrides : Overrides) :
    List Direction → Inquiry Error (List MappingMethod)
  | [] => pure []
  | direction :: rest => do
      let plan ← ofExcept (Plan.build source.describe target.describe direction overrides)
      let m ← MappingMethod.askAssemble plan target
      return m :: (← askMethods source target overrides rest)

/-- **What a registration asks** before it enters the mappings that it has made by then. -/
def inquiry : Registration → Inquiry Error (List (MappingKey × Registered))
  | .classes source target overrides mode => do
      askNew source.handle target.handle mode.directions
      let methods ← askMethods source target overrides mode.directions
      return methods.map fun m => (.of m.source m.target.handle m.direction, .method m)
  | .enums source target overrides => do
      let mapping ← ofExcept (EnumMapping.build source target overrides)
      return [(.of source.handle target.handle .create, .enum mapping)]

/-- Enters the mappings that a registration has made. -/
def insert (r : Registry) (entries : List (MappingKey × Registered)) :
    Registration → Except Error Registry
  | .classes source target _ _ => r.insertAll source.handle target.handle entries
  | .enums source target _ => r.insertAll source.handle target.handle entries

/-- Mappings are entered under keys that are new, after those that are there. -/
theorem insert_eq_ok {registration : Registration} {r r' : Registry}
    {entries : List (MappingKey × Registered)} (h : registration.insert r entries = .ok r') :
    r' = ⟨r.mappings ++ entries⟩ ∧ ∀ entry ∈ entries, r.contains entry.1 = false := by
  cases registration with
  | classes source target overrides mode => exact Registry.insertAll_eq_ok h
  | enums source target overrides => exact Registry.insertAll_eq_ok h

/-! ## Answers from one registry -/

/-- Answered at once, the question for what is new finds the first direction that is taken. -/
theorem answeredBy_askNew (r : Registry) (source target : ClassHandle)
    (directions : List Direction) :
    (askNew source target directions).answeredBy r.contains
      = match directions.find? fun d => r.contains (.of source target d) with
        | some direction => Registry.duplicate source target direction
        | none => .ok () := by
  induction directions with
  | nil => rfl
  | cons direction rest ih =>
    rw [askNew, answeredBy_bind, answeredBy_refuse, List.find?_cons]
    cases r.contains (.of source target direction) with
    | true => rfl
    | false => exact ih

/-- Answered at once, the questions for several methods give the methods. -/
theorem answeredBy_askMethods (r : Registry) (source target : Class) (overrides : Overrides)
    (directions : List Direction) :
    (askMethods source target overrides directions).answeredBy r.contains
      = directions.mapM (r.methodFor source target overrides) := by
  induction directions with
  | nil => rfl
  | cons direction rest ih =>
    rw [askMethods, List.mapM_cons, Registry.methodFor, answeredBy_bind, answeredBy_ofExcept]
    cases Plan.build source.describe target.describe direction overrides with
    | error e => rfl
    | ok plan =>
      rw [ok_bind, ok_bind, answeredBy_bind, MappingMethod.answeredBy_askAssemble]
      refine congrArg (Bind.bind _) (funext fun m => ?_)
      rw [answeredBy_bind, ih]
      rfl

end Registration

/-- **A registration is its inquiry**, answered by the registry, and after it the insertion. -/
theorem Registry.enter_eq_inquiry (r : Registry) (registration : Registration) :
    r.enter registration
      = registration.inquiry.answeredBy r.contains >>= fun entries =>
          registration.insert r entries := by
  cases registration with
  | enums source target overrides =>
    rw [Registration.inquiry, answeredBy_bind, answeredBy_ofExcept, enter, registerEnum]
    cases EnumMapping.build source target overrides <;> rfl
  | classes source target overrides mode =>
    rw [Registration.inquiry, answeredBy_bind, Registration.answeredBy_askNew, enter, register,
      methodsFor]
    cases mode.directions.find? fun d => r.contains (.of source.handle target.handle d) with
    | some direction => rfl
    | none =>
      dsimp only
      rw [ok_bind, answeredBy_bind, Registration.answeredBy_askMethods]
      cases mode.directions.mapM (r.methodFor source target overrides) <;> rfl

/-! ## Answers from a growing registry -/

section Leads

variable {known : MappingKey → Bool} {source target : Class} {overrides : Overrides}

/-- A method is made for the classes and the direction of its plan. -/
theorem MappingMethod.of_leads {p : Plan} {m : MappingMethod}
    (h : (MappingMethod.askAssemble p target).Leads known (.ok m)) :
    m.source = p.source.handle ∧ m.target = target ∧ m.direction = p.direction := by
  obtain ⟨function, -, hm⟩ := h.of_bind
  obtain rfl := hm.of_pure
  exact ⟨rfl, rfl, rfl⟩

namespace Registration

/-- The methods that are made, each for its direction, are linked. -/
theorem forall₂_of_askMethods {directions : List Direction} {methods : List MappingMethod}
    (h : (askMethods source target overrides directions).Leads known (.ok methods)) :
    directions.Forall₂ (fun direction m =>
      MappingKey.of m.source m.target.handle m.direction
          = .of source.handle target.handle direction ∧
        ∀ s ∈ m.function.body, s.Linked source.describe known) methods := by
  induction directions generalizing methods with
  | nil =>
    obtain rfl := h.of_pure
    exact .nil
  | cons direction rest ih =>
    obtain ⟨plan, hplan, hothers⟩ := h.of_bind
    obtain ⟨m, hm, hothers⟩ := hothers.of_bind
    obtain ⟨others, hrest, hcons⟩ := hothers.of_bind
    obtain rfl := hcons.of_pure
    have hbuild := hplan.of_ofExcept
    obtain ⟨hsource, -, hdirection, -⟩ := Plan.build_eq_ok hbuild
    refine .cons ⟨?_, MappingMethod.linked_of_leads (Plan.typed_of_build hbuild) hm⟩ (ih hrest)
    obtain ⟨hmsource, hmtarget, hmdirection⟩ := MappingMethod.of_leads hm
    rw [hmsource, hmtarget, hmdirection, hsource, hdirection, Class.describe_handle]

variable {registration : Registration} {entries : List (MappingKey × Registered)}

/-- **What a registration makes belongs under its keys**, one mapping under each. -/
theorem keys_of_leads (h : registration.inquiry.Leads known (.ok entries)) :
    entries.map (·.1) = registration.keys := by
  cases registration with
  | enums source target overrides =>
    obtain ⟨m, -, hentries⟩ := h.of_bind
    obtain rfl := hentries.of_pure
    rfl
  | classes source target overrides mode =>
    obtain ⟨-, -, h⟩ := h.of_bind
    obtain ⟨methods, hmethods, hentries⟩ := h.of_bind
    obtain rfl := hentries.of_pure
    rw [keys, List.map_map, ← List.forall₂_eq_eq_eq, List.forall₂_map_left_iff,
      List.forall₂_map_right_iff]
    exact (forall₂_of_askMethods hmethods).flip.imp fun _ _ hmethod => hmethod.1

/-- **The methods that a registration makes are linked**, whatever is registered meanwhile. -/
theorem linked_of_leads (h : registration.inquiry.Leads known (.ok entries)) {key : MappingKey}
    {m : MappingMethod} (hmem : (key, .method m) ∈ entries) :
    ∃ source target overrides mode direction,
      registration = .classes source target overrides mode ∧ direction ∈ mode.directions ∧
        key = .of source.handle target.handle direction ∧
          ∀ s ∈ m.function.body, s.Linked source.describe known := by
  cases registration with
  | enums source target overrides =>
    obtain ⟨mapping, -, hentries⟩ := h.of_bind
    obtain rfl := hentries.of_pure
    cases List.mem_singleton.mp hmem
  | classes source target overrides mode =>
    obtain ⟨-, -, h⟩ := h.of_bind
    obtain ⟨methods, hmethods, hentries⟩ := h.of_bind
    obtain rfl := hentries.of_pure
    obtain ⟨made, hmade, heq⟩ := List.mem_map.mp hmem
    obtain ⟨rfl, hmethod⟩ := Prod.mk.inj heq
    obtain rfl := Registered.method.inj hmethod
    obtain ⟨direction, hdirection, hkey, hlinked⟩ :=
      exists_of_forall₂ (forall₂_of_askMethods hmethods).flip hmade
    exact ⟨source, target, overrides, mode, direction, rfl, hdirection, hkey, hlinked⟩

end Registration

end Leads

end ObjectMapping
