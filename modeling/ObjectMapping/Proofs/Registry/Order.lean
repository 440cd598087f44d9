import ObjectMapping.Proofs.Method.Growth
import ObjectMapping.Proofs.Registry.Extension

/-! # The order of registrations

Whether a registration succeeds depends on the keys under which mappings are registered, and on
nothing else about the registry: its own keys have to be new, and its methods have to find the ones
that they call. Further keys can only help it with the second. So a registration that is possible now
can be made now: whatever was to be made before it is still possible after it.

* **`Registration.Fits`** — what a registration needs of the keys that are present;
  `exists_enter_iff` says that it is all that it needs.
* **`Registry.enterAll`** — registrations one after another.
* **`enterAll_of_enter`** — a registration of a sequence that is possible now can be moved to the
  front.
* **`contains_of_enterAll`**, **`lookup_create_of_perm`** — the keys and the create methods at the end
  do not depend on the order. -/

namespace ObjectMapping

open Outcome

/-- The table of the methods whose keys are present. -/
def tableOf (present : MappingKey → Bool) : MethodTable := fun s t d => present (.of s t d)

namespace Registration

/-- The methods of a registration can be made with those whose keys are present. -/
def Makeable (present : MappingKey → Bool) : Registration → Prop
  | .classes source target overrides mode => ∀ direction ∈ mode.directions, ∃ p m,
      Plan.build source.describe target.describe direction overrides = .ok p ∧
        MappingMethod.assemble p target (tableOf present) = .ok m
  | .enums source target overrides => ∃ m, EnumMapping.build source target overrides = .ok m

/-- The keys of a registration are new, and its methods can be made. -/
def Fits (present : MappingKey → Bool) (registration : Registration) : Prop :=
  (∀ key ∈ registration.keys, present key = false) ∧ registration.Makeable present

/-- More keys do not keep methods from being made. -/
theorem Makeable.mono {present present' : MappingKey → Bool} {registration : Registration}
    (hpresent : ∀ key, present key = true → present' key = true)
    (h : registration.Makeable present) : registration.Makeable present' := by
  cases registration with
  | enums source target overrides => exact h
  | classes source target overrides mode =>
    intro direction hdirection
    obtain ⟨p, m, hbuild, hassemble⟩ := h direction hdirection
    have hmethods : (tableOf present).Within (tableOf present') := fun s t d => hpresent _
    obtain ⟨m', hassemble', -⟩ := MappingMethod.assemble_grows hmethods p target m hassemble
    exact ⟨p, m', hbuild, hassemble'⟩

end Registration

namespace Registry

variable {r r' : Registry} {registration : Registration} {key : MappingKey}

/-! ## One registration -/

/-- The keys of a registration that succeeds are new, and afterwards they are there. -/
theorem contains_of_enter (h : r.enter registration = .ok r') :
    (∀ key ∈ registration.keys, r.contains key = false) ∧
      ∀ key, r'.contains key = true ↔ r.contains key = true ∨ key ∈ registration.keys := by
  constructor
  · intro key hkey
    obtain ⟨entries, -, hkeys, hentries⟩ := enter_eq_ok h
    obtain ⟨entry, hmem, rfl⟩ := List.mem_map.mp (hkeys ▸ hkey)
    exact (hentries entry hmem).1
  · intro key
    obtain ⟨entries, rfl, hkeys, -⟩ := enter_eq_ok h
    rw [contains_append, hkeys]

/-- New entries are inserted. -/
theorem insertAll_of_new {source target : ClassHandle} {entries : List (MappingKey × Registered)}
    (h : ∀ entry ∈ entries, r.contains entry.1 = false) :
    r.insertAll source target entries = .ok ⟨r.mappings ++ entries⟩ := by
  have hnone : entries.find? (fun entry => r.contains entry.1) = none :=
    List.find?_eq_none.mpr fun entry hmem => by simp [h entry hmem]
  rw [insertAll, hnone]

/-- **What a registration needs** is that its keys are new and that its methods can be made with those
that are registered. -/
theorem exists_enter_iff :
    (∃ r', r.enter registration = .ok r') ↔ registration.Fits r.contains := by
  constructor
  · rintro ⟨r', h⟩
    refine ⟨(contains_of_enter h).1, ?_⟩
    cases registration with
    | enums source target overrides =>
      obtain ⟨m, hbuild, -⟩ := bind_eq_ok.mp h
      exact ⟨m, hbuild⟩
    | classes source target overrides mode =>
      intro direction hdirection
      obtain ⟨methods, hmethods, -⟩ := bind_eq_ok.mp h
      rw [methodsFor] at hmethods
      split at hmethods
      · cases hmethods
      · obtain ⟨m, -, hmethod⟩ := exists_of_forall₂ (mapM_eq_ok.mp hmethods) hdirection
        obtain ⟨p, hbuild, hassemble⟩ := bind_eq_ok.mp hmethod
        exact ⟨p, m, hbuild, hassemble⟩
  · rintro ⟨hnew, hmakeable⟩
    cases registration with
    | enums source target overrides =>
      obtain ⟨m, hbuild⟩ := hmakeable
      refine ⟨_, bind_eq_ok.mpr ⟨m, hbuild, insertAll_of_new ?_⟩⟩
      exact fun entry hmem => hnew _ (List.mem_map_of_mem hmem)
    | classes source target overrides mode =>
      -- each direction has its method, and the keys are new, so all of them go in
      have hmethods : ∃ methods, mode.directions.mapM (r.methodFor source target overrides)
          = .ok methods := by
        refine exists_mapM_eq_ok fun direction hdirection => ?_
        obtain ⟨p, m, hbuild, hassemble⟩ := hmakeable direction hdirection
        exact ⟨m, bind_eq_ok.mpr ⟨p, hbuild, hassemble⟩⟩
      obtain ⟨methods, hmethods⟩ := hmethods
      have hnone : mode.directions.find? (fun d => r.contains (.of source.handle target.handle d))
          = none :=
        List.find?_eq_none.mpr fun d hd => by simp [hnew _ (List.mem_map_of_mem hd)]
      refine ⟨_, bind_eq_ok.mpr ⟨methods, ?_, insertAll_of_new fun entry hmem => hnew _ ?_⟩⟩
      · rw [methodsFor, hnone]
        exact hmethods
      · rw [Registration.keys, ← keys_mapM_methodFor hmethods]
        exact List.mem_map_of_mem hmem

/-- A registration under new keys, which is possible in some registry, can fail by a field only. -/
theorem enter_fails {present : MappingKey → Bool}
    (hnew : ∀ key ∈ registration.keys, r.contains key = false)
    (hmakeable : registration.Makeable present) : FailsByField (r.enter registration) := by
  cases registration with
  | enums source target overrides =>
    obtain ⟨r', h⟩ := exists_enter_iff.mpr ⟨hnew, hmakeable⟩
    rw [h]
    trivial
  | classes source target overrides mode =>
    have hnone : mode.directions.find? (fun d => r.contains (.of source.handle target.handle d))
        = none :=
      List.find?_eq_none.mpr fun d hd => by simp [hnew _ (List.mem_map_of_mem hd)]
    rw [enter, register, methodsFor, hnone]
    cases hmethods : mode.directions.mapM (r.methodFor source target overrides) with
    | error e =>
      -- all plans can be built, so it is a statement of a field that cannot be made
      have hfails : FailsByField (mode.directions.mapM (r.methodFor source target overrides)) := by
        refine meets_mapM fun direction hdirection => ?_
        obtain ⟨p, m, hbuild, -⟩ := hmakeable direction hdirection
        rw [methodFor, hbuild]
        exact p.assemble_fails r.methodTable target
      rw [hmethods] at hfails
      exact hfails
    | ok methods =>
      -- under new keys nothing is refused any more
      rw [ok_bind, insertAll_of_new]
      · trivial
      · intro entry hmem
        refine hnew _ ?_
        rw [Registration.keys, ← keys_mapM_methodFor hmethods]
        exact List.mem_map_of_mem hmem

/-! ## Registrations one after another -/

/-- The registry after a sequence of registrations. -/
def enterAll (r : Registry) (registrations : List Registration) : Except Error Registry :=
  registrations.foldlM enter r

/-- Registrations are entered one after another. -/
theorem enterAll_append (before after : List Registration) :
    r.enterAll (before ++ after) = r.enterAll before >>= fun r' => r'.enterAll after :=
  List.foldlM_append

/-- Entering registrations extends the registry. -/
theorem extends_of_enterAll {registrations : List Registration}
    (h : r.enterAll registrations = .ok r') : r.Extends r' := by
  induction registrations generalizing r with
  | nil => exact Except.ok.inj h ▸ .refl
  | cons registration rest ih =>
    obtain ⟨next, hentered, hrest⟩ := bind_eq_ok.mp h
    exact (Extends.refl.enter hentered).trans (ih hrest)

/-- **The keys at the end** are those of the registrations and those of the beginning. -/
theorem contains_of_enterAll {registrations : List Registration}
    (h : r.enterAll registrations = .ok r') (key : MappingKey) :
    r'.contains key = true ↔
      r.contains key = true ∨ ∃ registration ∈ registrations, key ∈ registration.keys := by
  induction registrations generalizing r with
  | nil =>
    obtain rfl := Except.ok.inj h
    simp
  | cons registration rest ih =>
    obtain ⟨next, hentered, hrest⟩ := bind_eq_ok.mp h
    rw [ih hrest, (contains_of_enter hentered).2 key]
    simp [or_assoc]

/-- Two orders lead to the same keys. -/
theorem contains_of_perm {other : Registry} {registrations others : List Registration}
    (hperm : registrations.Perm others) (h : r.enterAll registrations = .ok r')
    (h' : r.enterAll others = .ok other) : r'.contains = other.contains := by
  funext key
  rw [Bool.eq_iff_iff, contains_of_enterAll h, contains_of_enterAll h']
  simp only [hperm.mem_iff]

/-- The registrations of a sequence that succeeds have keys that are new at its beginning. -/
theorem new_of_enterAll {registrations : List Registration}
    (h : r.enterAll registrations = .ok r') (hmem : registration ∈ registrations)
    (hkey : key ∈ registration.keys) : r.contains key = false := by
  induction registrations generalizing r with
  | nil => simp at hmem
  | cons first rest ih =>
    obtain ⟨next, hentered, hrest⟩ := bind_eq_ok.mp h
    obtain ⟨hnew, hcontains⟩ := contains_of_enter hentered
    rcases List.mem_cons.mp hmem with rfl | hmem
    · exact hnew key hkey
    · -- what is absent after the first registration was absent before it
      have hnext : next.contains key = false := ih hrest hmem
      by_contra hpresent
      rw [(hcontains key).mpr (.inl (by simpa using hpresent))] at hnext
      cases hnext

/-- The registrations of a sequence that succeeds can be made with some keys present. -/
theorem makeable_of_enterAll {registrations : List Registration}
    (h : r.enterAll registrations = .ok r') (hmem : registration ∈ registrations) :
    ∃ present, registration.Makeable present := by
  obtain ⟨before, after, rfl⟩ := List.append_of_mem hmem
  rw [enterAll_append] at h
  obtain ⟨earlier, -, hrest⟩ := bind_eq_ok.mp h
  obtain ⟨now, hentered, -⟩ := bind_eq_ok.mp hrest
  exact ⟨earlier.contains, (exists_enter_iff.mp ⟨now, hentered⟩).2⟩

/-- Registries with the same keys allow for the same sequences of registrations. -/
theorem exists_enterAll_congr {other : Registry} (hkeys : r.contains = other.contains)
    {registrations : List Registration} (h : ∃ r', r.enterAll registrations = .ok r') :
    ∃ other', other.enterAll registrations = .ok other' := by
  induction registrations generalizing r other with
  | nil => exact ⟨other, rfl⟩
  | cons registration rest ih =>
    obtain ⟨r', hall⟩ := h
    obtain ⟨next, hentered, hrest⟩ := bind_eq_ok.mp hall
    have hfits : registration.Fits other.contains :=
      hkeys ▸ exists_enter_iff.mp ⟨next, hentered⟩
    obtain ⟨next', hentered'⟩ := exists_enter_iff.mpr hfits
    have hnext : next.contains = next'.contains := by
      funext key
      rw [Bool.eq_iff_iff, (contains_of_enter hentered).2, (contains_of_enter hentered').2, hkeys]
    obtain ⟨other', hrest'⟩ := ih hnext ⟨r', hrest⟩
    exact ⟨other', bind_eq_ok.mpr ⟨next', hentered', hrest'⟩⟩

/-- **A registration that is possible now can be made now**: the others of the sequence are still
possible after it. -/
theorem enterAll_of_enter {first : Registry} {before after : List Registration}
    (h : ∃ r', r.enterAll (before ++ registration :: after) = .ok r')
    (hentered : r.enter registration = .ok first) :
    ∃ r', first.enterAll (before ++ after) = .ok r' := by
  obtain ⟨r', h⟩ := h
  induction before generalizing r first with
  | nil =>
    obtain ⟨next, hnext, hrest⟩ := bind_eq_ok.mp h
    obtain rfl := Except.ok.inj (hentered.symm.trans hnext)
    exact ⟨r', hrest⟩
  | cons other before ih =>
    obtain ⟨next, hother, hrest⟩ := bind_eq_ok.mp h
    obtain ⟨hnewOther, hcontainsOther⟩ := contains_of_enter hother
    obtain ⟨-, hcontains⟩ := contains_of_enter hentered
    -- the two are possible one after the other in either order
    have hnew : ∀ key ∈ registration.keys, next.contains key = false := fun key hkey =>
      new_of_enterAll hrest (List.mem_append_right _ List.mem_cons_self) hkey
    have hfits : registration.Fits next.contains := by
      refine ⟨hnew, (exists_enter_iff.mp ⟨first, hentered⟩).2.mono fun key hkey => ?_⟩
      exact (hcontainsOther key).mpr (.inl hkey)
    have hfitsOther : other.Fits first.contains := by
      refine ⟨fun key hkey => ?_, (exists_enter_iff.mp ⟨next, hother⟩).2.mono fun key hkey => ?_⟩
      · by_contra hpresent
        rw [Bool.not_eq_false, hcontains] at hpresent
        rcases hpresent with hold | hsame
        · rw [hnewOther key hkey] at hold
          cases hold
        · have hthere := (hcontainsOther key).mpr (.inr hkey)
          rw [hnew key hsame] at hthere
          cases hthere
      · exact (hcontains key).mpr (.inl hkey)
    obtain ⟨both, hboth⟩ := exists_enter_iff.mpr hfits
    obtain ⟨both', hboth'⟩ := exists_enter_iff.mpr hfitsOther
    have hsame : both.contains = both'.contains := by
      funext key
      rw [Bool.eq_iff_iff, (contains_of_enter hboth).2, (contains_of_enter hboth').2,
        hcontainsOther, hcontains, or_right_comm]
    obtain ⟨last, hlast⟩ := exists_enterAll_congr hsame (ih hboth hrest)
    exact ⟨last, bind_eq_ok.mpr ⟨both', hboth', hlast⟩⟩

/-! ## What does not depend on the order -/

/-- A registration of a sequence provides what stands under its keys at the end. -/
theorem provides_of_enterAll {registrations : List Registration}
    (h : r.enterAll registrations = .ok r') (hmem : registration ∈ registrations)
    (hkey : key ∈ registration.keys) :
    ∃ registered, r'.lookup? key = some registered ∧ r'.Provides registration key registered := by
  obtain ⟨before, after, rfl⟩ := List.append_of_mem hmem
  rw [enterAll_append] at h
  obtain ⟨earlier, -, hrest⟩ := bind_eq_ok.mp h
  obtain ⟨now, hentered, hafter⟩ := bind_eq_ok.mp hrest
  obtain ⟨registered, hlookup, hprovides⟩ := provides_of_enter hentered hkey
  have hextends := extends_of_enterAll hafter
  exact ⟨registered, hextends.lookup hlookup, hprovides.mono hextends.methodTable⟩

/-- What a registration provides for making new objects is the same in all registries. -/
theorem Provides.unique_of_create {registered registered' : Registered}
    (hcreate : key.direction = .create) (h : r.Provides registration key registered)
    (h' : r'.Provides registration key registered') : registered = registered' := by
  cases h with
  | enum hbuild =>
    cases h' with
    | enum hbuild' => rw [Except.ok.inj (hbuild.symm.trans hbuild')]
  | method hdirection hmade =>
    obtain ⟨p, methods, m, rfl, hmade'⟩ := h'.method_inv
    obtain rfl := Except.ok.inj (hmade.build.symm.trans hmade'.build)
    have hdir := (Plan.build_eq_ok hmade.build).2.2.1
    rw [MappingMethod.assemble_create_unique (hdir.trans hcreate) hmade.assemble hmade'.assemble]

/-- Two orders lead to the same mapping under a key, if they do so for the registrations that enter
one there. -/
theorem lookup_eq_of_perm {other : Registry} {registrations others : List Registration}
    (hperm : registrations.Perm others) (h : r.enterAll registrations = .ok r')
    (h' : r.enterAll others = .ok other)
    (hentered : ∀ registration ∈ registrations, key ∈ registration.keys →
      r'.lookup? key = other.lookup? key) : r'.lookup? key = other.lookup? key := by
  cases hold : r.lookup? key with
  | some registered =>
    rw [(extends_of_enterAll h).lookup hold, (extends_of_enterAll h').lookup hold]
  | none =>
    have hcontains : r.contains key = false := by rw [contains, hold]; rfl
    by_cases hkey : ∃ registration ∈ registrations, key ∈ registration.keys
    · obtain ⟨registration, hmem, hkey⟩ := hkey
      exact hentered registration hmem hkey
    · have habsent : ¬ r'.contains key = true := by
        rw [contains_of_enterAll h, hcontains]
        simpa using hkey
      have habsent' : ¬ other.contains key = true := by
        rw [contains_of_enterAll h', hcontains]
        simpa [hperm.mem_iff] using hkey
      rw [contains, Bool.not_eq_true, Option.isSome_eq_false_iff, Option.isNone_iff_eq_none]
        at habsent habsent'
      rw [habsent, habsent']

/-- **The create methods do not depend on the order of the registrations.** -/
theorem lookup_create_of_perm {other : Registry} {registrations others : List Registration}
    (hperm : registrations.Perm others) (h : r.enterAll registrations = .ok r')
    (h' : r.enterAll others = .ok other) (hcreate : key.direction = .create) :
    r'.lookup? key = other.lookup? key := by
  refine lookup_eq_of_perm hperm h h' fun registration hmem hkey => ?_
  obtain ⟨found, hfound, hprovides⟩ := provides_of_enterAll h hmem hkey
  obtain ⟨found', hfound', hprovides'⟩ := provides_of_enterAll h' (hperm.mem_iff.mp hmem) hkey
  rw [hfound, hfound', hprovides.unique_of_create hcreate hprovides']

end Registry

end ObjectMapping
