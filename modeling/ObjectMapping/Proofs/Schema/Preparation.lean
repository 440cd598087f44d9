import ObjectMapping.Proofs.Schema.Loading

/-! # Catalogs before their mappings are registered

Before the mappings of a schema are registered its classes are defined, each under a number of its
own. So mappings between classes of different names have different keys, and none of them has the key
of a mapping between enum classes.

* `Catalog.prepare` is loading a schema short of its mappings between classes.
* `Catalog.Numbered`: the classes of a catalog have different numbers.
* **`Catalog.numbered_of_prepare`**, **`Catalog.contains_of_prepare`** — what is known of the numbers
  and of the registry by then. -/

namespace ObjectMapping

open Outcome

namespace Catalog

variable {c c' : Catalog}

/-- The catalog of a schema before its mappings between classes are registered. -/
def prepare (schema : Schema) (registry : Registry) (firstId : Nat) : Except Error Catalog := do
  let c ← (empty registry firstId).defineEnums [] schema.enums
  let (declared, c) ← c.declareClasses (c.enums.map (·.1)) schema.classes
  let c ← c.defineClasses declared
  c.registerEnums schema.enumMappings

/-- To load a schema is to prepare a catalog and to register all mappings. -/
theorem load_eq (schema : Schema) (registry : Registry) (firstId : Nat) :
    load schema registry firstId
      = prepare schema registry firstId >>= fun c => c.registerAll schema.mappings := by
  simp only [load, prepare, bind_assoc]

/-! ## Numbers -/

/-- A declared name takes the next number. -/
theorem declare_eq_ok {known : List String} {name : String} {handle : ClassHandle}
    (h : c.declare known name = .ok (handle, c')) :
    handle.id = c.nextId ∧ ∃ names, c' = { c with names, nextId := c.nextId + 1 } := by
  rw [declare] at h
  split at h
  · cases h
  · obtain ⟨rfl, rfl⟩ := Prod.mk.inj (Except.ok.inj h)
    exact ⟨rfl, _, rfl⟩

/-- Enum classes take numbers from the next one on. -/
theorem defineEnums_eq_ok {known : List String} {entries : List EnumEntry}
    (h : c.defineEnums known entries = .ok c') :
    c'.classes = c.classes ∧ c'.registry = c.registry ∧ c.nextId ≤ c'.nextId ∧
      ∀ e ∈ c'.enums, e ∈ c.enums ∨ e.2.handle.id < c'.nextId := by
  induction entries generalizing c known with
  | nil =>
    obtain rfl := Except.ok.inj h
    exact ⟨rfl, rfl, Nat.le_refl _, fun e he => .inl he⟩
  | cons entry rest ih =>
    obtain ⟨⟨handle, next⟩, hdeclare, hrest⟩ := bind_eq_ok.mp h
    obtain ⟨hid, names, rfl⟩ := declare_eq_ok hdeclare
    obtain ⟨hclasses, hregistry, hle, henums⟩ := ih hrest
    dsimp only at hle
    refine ⟨hclasses, hregistry, by omega, fun e he => ?_⟩
    rcases henums e he with hearlier | hlt
    · rcases List.mem_append.mp hearlier with hold | hnew
      · exact .inl hold
      · obtain rfl := List.mem_singleton.mp hnew
        dsimp only
        exact .inr (by omega)
    · exact .inr hlt

/-- Classes are declared under consecutive numbers. -/
theorem declareClasses_eq_ok {known : List String} {entries : List ClassEntry}
    {declared : List (ClassEntry × ClassHandle)}
    (h : c.declareClasses known entries = .ok (declared, c')) :
    c'.classes = c.classes ∧ c'.enums = c.enums ∧ c'.registry = c.registry ∧
      declared.map (·.2.id) = List.range' c.nextId entries.length := by
  induction entries generalizing c known declared with
  | nil =>
    obtain ⟨rfl, rfl⟩ := Prod.mk.inj (Except.ok.inj h)
    exact ⟨rfl, rfl, rfl, rfl⟩
  | cons entry rest ih =>
    obtain ⟨⟨handle, next⟩, hdeclare, hrest⟩ := bind_eq_ok.mp h
    obtain ⟨⟨others, last⟩, hothers, hcons⟩ := bind_eq_ok.mp hrest
    obtain ⟨rfl, rfl⟩ := Prod.mk.inj (Except.ok.inj hcons)
    obtain ⟨hid, names, rfl⟩ := declare_eq_ok hdeclare
    obtain ⟨hclasses, henums, hregistry, hids⟩ := ih hothers
    refine ⟨hclasses, henums, hregistry, ?_⟩
    rw [List.map_cons, hids, hid, List.length_cons, List.range'_succ]

/-- A class is defined under the handle that was declared for it. -/
theorem handle_of_classOf {handle : ClassHandle} {entry : ClassEntry} {found : Class}
    (h : c.classOf handle entry = .ok found) : found.handle = handle := by
  cases entry with
  | dataclass entry =>
    obtain ⟨fields, -, hclass⟩ := bind_eq_ok.mp h
    obtain ⟨slots, -, hfound⟩ := bind_eq_ok.mp hclass
    obtain rfl := Except.ok.inj hfound
    rfl
  | model entry =>
    obtain ⟨fields, -, hclass⟩ := bind_eq_ok.mp h
    obtain ⟨slots, -, hfound⟩ := bind_eq_ok.mp hclass
    obtain rfl := Except.ok.inj hfound
    rfl
  | orm entry =>
    obtain ⟨columns, -, hclass⟩ := bind_eq_ok.mp h
    obtain ⟨slots, -, hrest⟩ := bind_eq_ok.mp hclass
    obtain ⟨others, -, hfound⟩ := bind_eq_ok.mp hrest
    obtain rfl := Except.ok.inj hfound
    rfl

/-- Defined classes are added to the others, with the handles that were declared for them. -/
theorem defineClasses_eq_ok {declared : List (ClassEntry × ClassHandle)}
    (h : c.defineClasses declared = .ok c') :
    c'.enums = c.enums ∧ c'.registry = c.registry ∧
      c'.classes.map (·.2.handle) = c.classes.map (·.2.handle) ++ declared.map (·.2) := by
  induction declared generalizing c with
  | nil =>
    obtain rfl := Except.ok.inj h
    exact ⟨rfl, rfl, by rw [List.map_nil, List.append_nil]⟩
  | cons entry rest ih =>
    obtain ⟨found, hfound, hrest⟩ := bind_eq_ok.mp h
    obtain ⟨henums, hregistry, hhandles⟩ := ih hrest
    refine ⟨henums, hregistry, ?_⟩
    rw [hhandles, List.map_append, List.append_assoc, List.map_cons, List.map_cons, List.map_nil,
      handle_of_classOf hfound, List.singleton_append]

/-- Mappings between enum classes have keys with the numbers of these. -/
theorem registerEnums_eq_ok {entries : List EnumMappingEntry}
    (h : c.registerEnums entries = .ok c') :
    c'.classes = c.classes ∧ ∀ key, c'.registry.contains key = true →
      c.registry.contains key = true ∨ ∃ e ∈ c.enums, key.source = e.2.handle.id := by
  induction entries generalizing c with
  | nil =>
    obtain rfl := Except.ok.inj h
    exact ⟨rfl, fun key hkey => .inl hkey⟩
  | cons entry rest ih =>
    obtain ⟨source, hsource, hother⟩ := bind_eq_ok.mp h
    obtain ⟨target, htarget, hregister⟩ := bind_eq_ok.mp hother
    obtain ⟨registry, hregistry, hrest⟩ := bind_eq_ok.mp hregister
    obtain ⟨hclasses, hkeys⟩ := ih hrest
    refine ⟨hclasses, fun key hkey => ?_⟩
    -- an earlier key was there before or is the one of this entry
    rcases hkeys key hkey with hearlier | hlater
    · have hentered : c.registry.enter (.enums source target entry.overrides) = .ok registry :=
        hregistry
      rcases ((Registry.contains_of_enter hentered).2 key).mp hearlier with hold | hnew
      · exact .inl hold
      · obtain rfl := List.mem_singleton.mp hnew
        refine .inr ⟨(entry.source, source), ?_, rfl⟩
        rw [enumNamed] at hsource
        split at hsource
        · next found hfound =>
          obtain rfl := Except.ok.inj hsource
          exact Keyed.mem_of_lookup hfound
        · cases hsource
    · exact .inr hlater

/-! ## What is known of a prepared catalog -/

/-- The classes have different numbers. -/
def Numbered (c : Catalog) : Prop := (c.classes.map (·.2.handle.id)).Nodup

/-- A class that is found is one of the classes. -/
theorem mem_classes_of_classNamed {name : String} {found : Class}
    (h : c.classNamed name = .ok found) : (name, found) ∈ c.classes := by
  rw [classNamed] at h
  split at h
  · next other hother =>
    obtain rfl := Except.ok.inj h
    exact Keyed.mem_of_lookup hother
  · cases h

/-- Classes with the same number have the same name. -/
theorem Numbered.name_eq (h : c.Numbered) {name name' : String} {found found' : Class}
    (hfound : c.classNamed name = .ok found) (hfound' : c.classNamed name' = .ok found')
    (hid : found.handle.id = found'.handle.id) : name = name' :=
  congrArg Prod.fst (List.inj_on_of_nodup_map h (mem_classes_of_classNamed hfound)
    (mem_classes_of_classNamed hfound') hid)

/-- A declared mapping asks for one between the classes of its names. -/
theorem registration_eq_ok {entry : MappingEntry} {registration : Registration}
    (h : c.registration entry = .ok registration) : ∃ source target overrides,
      c.classNamed entry.source = .ok source ∧ c.classNamed entry.target = .ok target ∧
        registration = .classes source target overrides entry.mode := by
  obtain ⟨source, hsource, hrest⟩ := bind_eq_ok.mp h
  obtain ⟨target, htarget, hoverrides⟩ := bind_eq_ok.mp hrest
  obtain ⟨overrides, -, hregistration⟩ := bind_eq_ok.mp hoverrides
  exact ⟨source, target, overrides, hsource, htarget, (Except.ok.inj hregistration).symm⟩

/-- What was done before mappings are registered. -/
theorem prepare_eq_ok {schema : Schema} {registry : Registry} {firstId : Nat}
    (h : prepare schema registry firstId = .ok c) :
    c.Numbered ∧ ∀ key, c.registry.contains key = true → registry.contains key = true ∨
      ∀ entry ∈ c.classes, entry.2.handle.id ≠ key.source := by
  obtain ⟨enums, henums, hafterEnums⟩ := bind_eq_ok.mp h
  obtain ⟨⟨declared, declaring⟩, hdeclare, hafterDeclare⟩ := bind_eq_ok.mp hafterEnums
  obtain ⟨defined, hdefine, hregister⟩ := bind_eq_ok.mp hafterDeclare
  obtain ⟨hclasses₁, hregistry₁, -, hbefore⟩ := defineEnums_eq_ok henums
  obtain ⟨hclasses₂, henums₂, hregistry₂, hids⟩ := declareClasses_eq_ok hdeclare
  obtain ⟨henums₃, hregistry₃, hhandles⟩ := defineClasses_eq_ok hdefine
  obtain ⟨hclasses₄, hkeys⟩ := registerEnums_eq_ok hregister
  -- the numbers of the classes are those under which they were declared
  have hnumbers : c.classes.map (·.2.handle.id)
      = List.range' enums.nextId schema.classes.length := by
    have hnone : declaring.classes = [] := hclasses₂.trans hclasses₁
    rw [hnone, List.map_nil, List.nil_append] at hhandles
    have hsame := congrArg (List.map ClassHandle.id) hhandles
    rw [List.map_map, List.map_map] at hsame
    rw [hclasses₄, ← hids]
    exact hsame
  constructor
  · rw [Numbered, hnumbers]
    exact List.nodup_range'
  · intro key hkey
    refine (hkeys key hkey).imp (fun hold => ?_) ?_
    · rw [hregistry₃, hregistry₂, hregistry₁] at hold
      exact hold
    · rintro ⟨e, he, hsource⟩ entry hentry
      have hlt : e.2.handle.id < enums.nextId := by
        rw [henums₃, henums₂] at he
        exact (hbefore e he).resolve_left nofun
      have hmem := List.mem_map_of_mem (f := fun entry : String × Class => entry.2.handle.id) hentry
      rw [hnumbers, List.mem_range'_1] at hmem
      omega

end Catalog

end ObjectMapping
