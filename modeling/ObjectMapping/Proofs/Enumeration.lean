import ObjectMapping.Enumeration
import ObjectMapping.Proofs.Keyed
import ObjectMapping.Proofs.Outcome

/-! # Enum mappings are total

An enum mapping is only built if every member of its source has a target, and every target is a
member of the target class. So mapping a member never fails, and nothing else is mapped at all.

* `EnumMapping.image` is the name that a name is mapped to.
* **`EnumMapping.Sensible`** — the conditions under which a mapping is built.
* `EnumMapping.build_eq_ok_iff`: it is built exactly under these, with the images of all members.
* **`EnumMapping.apply_member`**, **`EnumMapping.exists_apply`** — every member of the source is mapped
  to its image, a member of the target.
* **`EnumMapping.member_of_apply`** — whatever is mapped is a member of the source. -/

namespace ObjectMapping.EnumMapping

variable {source target : Enumeration} {overrides : EnumOverrides} {m : EnumMapping}

/-- The name that its override gives to a member, or else its own. -/
def image (overrides : EnumOverrides) (name : String) : String :=
  (overrides.lookup name).getD name

/-- **Overrides lead from members of the source to members of the target**, and a member without an
override has a member of its name in the target. -/
structure Sensible (source target : Enumeration) (overrides : EnumOverrides) : Prop where
  keys : ∀ override ∈ overrides, override.1 ∈ source.members
  values : ∀ override ∈ overrides, override.2 ∈ target.members
  total : ∀ name ∈ source.members, name ∈ overrides.map (·.1) ∨ name ∈ target.members

/-! ## Building a mapping -/

/-- Overrides are accepted exactly if they go from members to members. -/
theorem checkOverrides_eq_ok_iff : checkOverrides source target overrides = .ok () ↔
    ∀ override ∈ overrides, override.1 ∈ source.members ∧ override.2 ∈ target.members := by
  induction overrides with
  | nil => simp [checkOverrides]
  | cons override rest ih =>
    obtain ⟨key, value⟩ := override
    rw [List.forall_mem_cons, ← ih, checkOverrides]
    by_cases hkey : key ∈ source.members
    · by_cases hvalue : value ∈ target.members
      · simp [hkey, hvalue]
      · simp [hkey, hvalue]
    · simp [hkey]

/-- The target of a member, if there is one, is its image. -/
theorem targetOf?_eq (target : Enumeration) (overrides : EnumOverrides) (name : String) :
    targetOf? target overrides name =
      if name ∈ overrides.map (·.1) ∨ name ∈ target.members then some (image overrides name)
      else none := by
  rw [targetOf?, image]
  cases hlookup : overrides.lookup name with
  | some other =>
    have hkey := Keyed.lookup_isSome_iff_mem_keys.mp (Option.isSome_of_eq_some hlookup)
    simp [hkey]
  | none =>
    simp [Keyed.lookup_eq_none_iff_notMem_keys.mp hlookup]

/-- The members of the source with their images. -/
def pairs (source : Enumeration) (overrides : EnumOverrides) : List (String × String) :=
  source.members.map fun name => (name, image overrides name)

/-- **A mapping is built exactly if its overrides are sensible**, and it holds all members with their
images. -/
theorem build_eq_ok_iff : build source target overrides = .ok m ↔
    Sensible source target overrides ∧
      m = ⟨source.handle, target, Keyed.ofList (pairs source overrides)⟩ := by
  rw [build]
  -- overrides are checked first, and only then whether every member has a target
  cases hcheck : checkOverrides source target overrides with
  | error fault =>
    have hnot : ¬ Sensible source target overrides := fun h => by
      have hok := checkOverrides_eq_ok_iff.mpr fun override hmem =>
        ⟨h.keys override hmem, h.values override hmem⟩
      rw [hcheck] at hok
      cases hok
    simp [hnot]
  | ok _ =>
    have hchecked := checkOverrides_eq_ok_iff.mp hcheck
    dsimp only
    by_cases htotal : ∀ name ∈ source.members, name ∈ overrides.map (·.1) ∨ name ∈ target.members
    · have hsensible : Sensible source target overrides :=
        ⟨fun o ho => (hchecked o ho).1, fun o ho => (hchecked o ho).2, htotal⟩
      have htarget : ∀ name ∈ source.members,
          targetOf? target overrides name = some (image overrides name) := by
        intro name hname
        rw [targetOf?_eq, if_pos (htotal name hname)]
      have hunmapped : (source.members.filter fun name =>
          (targetOf? target overrides name).isNone) = [] := by
        refine List.filter_eq_nil_iff.mpr fun name hname => ?_
        simp [htarget name hname]
      have hpairs : (source.members.filterMap fun name =>
          (targetOf? target overrides name).map fun other => (name, other))
            = pairs source overrides := by
        rw [pairs, ← List.filterMap_eq_map]
        refine List.filterMap_congr fun name hname => ?_
        rw [htarget name hname]
        rfl
      rw [hunmapped, hpairs, if_pos List.isEmpty_nil, Except.ok.injEq]
      simp [hsensible, eq_comm]
    · -- a member without a target is among those that are reported
      have hnot : ¬ Sensible source target overrides := fun h => htotal h.total
      push Not at htotal
      obtain ⟨name, hname, hmissing⟩ := htotal
      have hunmapped : name ∈ source.members.filter fun name =>
          (targetOf? target overrides name).isNone := by
        refine List.mem_filter.mpr ⟨hname, ?_⟩
        rw [targetOf?_eq, if_neg (not_or.mpr hmissing)]
        rfl
      rw [if_neg fun hempty => List.ne_nil_of_mem hunmapped (List.isEmpty_iff.mp hempty)]
      simp [hnot]

/-- A mapping that is not built is refused as an invalid one. -/
theorem build_error (h : ¬ Sensible source target overrides) :
    ∃ fault, build source target overrides = .error (.invalidEnumMapping fault) := by
  cases hbuild : build source target overrides with
  | ok m => exact absurd (build_eq_ok_iff.mp hbuild).1 h
  | error e =>
    rw [build] at hbuild
    split at hbuild
    · exact ⟨_, (hbuild.symm)⟩
    · dsimp only at hbuild
      split at hbuild
      · cases hbuild
      · exact ⟨_, hbuild.symm⟩

/-! ## Mapping values -/

/-- The image of a member is a member of the target. -/
theorem Sensible.image_mem (h : Sensible source target overrides) {name : String}
    (hname : name ∈ source.members) : image overrides name ∈ target.members := by
  rw [image]
  cases hlookup : overrides.lookup name with
  | some other => exact h.values _ (Keyed.mem_of_lookup hlookup)
  | none =>
    exact (h.total name hname).resolve_left (Keyed.lookup_eq_none_iff_notMem_keys.mp hlookup)

/-- What stands in the table for a name is its image, however often it is a member of the source. -/
theorem lookup_pairs {name : String} (hname : name ∈ source.members) :
    (Keyed.ofList (pairs source overrides)).lookup name = some (image overrides name) := by
  have hkey : name ∈ (pairs source overrides).map (·.1) :=
    List.mem_map.mpr ⟨_, List.mem_map_of_mem hname, rfl⟩
  obtain ⟨other, hother⟩ :=
    Option.isSome_iff_exists.mp (Keyed.lookup_isSome_iff_mem_keys.mpr (Keyed.mem_keys_ofList hkey))
  obtain ⟨member, -, hpair⟩ := List.mem_map.mp (Keyed.mem_of_lookup_ofList hother)
  obtain ⟨rfl, rfl⟩ := Prod.mk.inj hpair
  exact hother

/-- **Every member of the source is mapped to its image**, which is a member of the target. -/
theorem apply_member (h : build source target overrides = .ok m) {owner : ClassHandle}
    {name : String} (howner : owner.id = source.handle.id) (hname : name ∈ source.members) :
    m.apply (.member owner name) = .ok (.member target.handle (image overrides name)) := by
  obtain ⟨hsensible, rfl⟩ := build_eq_ok_iff.mp h
  have hsame : owner.same source.handle = true := by
    rw [ClassHandle.same, howner, beq_self_eq_true]
  rw [apply, if_pos hsame, lookup_pairs hname]
  dsimp only
  rw [Enumeration.member, if_pos (List.contains_iff_mem.mpr (hsensible.image_mem hname))]

/-- **Every member of the source is mapped to a member of the target.** -/
theorem exists_apply (h : build source target overrides = .ok m) {owner : ClassHandle}
    {name : String} (howner : owner.id = source.handle.id) (hname : name ∈ source.members) :
    ∃ other ∈ target.members, m.apply (.member owner name) = .ok (.member target.handle other) :=
  ⟨_, (build_eq_ok_iff.mp h).1.image_mem hname, apply_member h howner hname⟩

/-- **Whatever is mapped is a member of the source**: neither another value nor a member of another
enum class is, and no name that the source does not have. -/
theorem member_of_apply (h : build source target overrides = .ok m) {v w : Value}
    (happly : m.apply v = .ok w) :
    ∃ owner name, v = .member owner name ∧ owner.id = source.handle.id ∧ name ∈ source.members := by
  obtain ⟨-, rfl⟩ := build_eq_ok_iff.mp h
  cases v with
  | member owner name =>
    rw [apply] at happly
    split at happly
    · next hsame =>
      split at happly
      · next other hother =>
        obtain ⟨member, hmember, hpair⟩ := List.mem_map.mp (Keyed.mem_of_lookup_ofList hother)
        obtain ⟨rfl, -⟩ := Prod.mk.inj hpair
        exact ⟨owner, member, rfl, by simpa [ClassHandle.same] using hsame, hmember⟩
      · cases happly
    · cases happly
  | _ => cases happly

end ObjectMapping.EnumMapping
