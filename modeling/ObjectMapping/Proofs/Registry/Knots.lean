import Mathlib.Data.List.Pairwise
import ObjectMapping.Proofs.Registry.Order

/-! # Mappings that wait for each other

A registration needs some of the methods that it calls to be registered before. So registrations that
could all be made if all their methods were there need not be possible in any order: a class that
holds objects of its own kind needs its own mapping first. What stands in the way is a knot, that is,
some of the registrations none of which can be made as long as all of them are left out.

* `Registry.declares`: the keys that are present once all registrations are made.
* **`Registry.Knot`** — registrations that wait for each other.
* `Registry.Awaits`: what is left on the way, which each registration made passes on.
* **`Registry.exists_order_iff`** — there is an order if and only if there is no knot. -/

namespace ObjectMapping

open Outcome

/-- The keys of registrations. -/
def keysOf (registrations : List Registration) : List MappingKey :=
  registrations.flatMap Registration.keys

/-- The keys of several registrations are those of each of them. -/
theorem mem_keysOf {registrations : List Registration} {key : MappingKey} :
    key ∈ keysOf registrations ↔ ∃ registration ∈ registrations, key ∈ registration.keys :=
  List.mem_flatMap

/-- A key belongs to one registration only. -/
theorem eq_of_mem_keys {registrations : List Registration} (hnodup : (keysOf registrations).Nodup)
    {a b : Registration} (ha : a ∈ registrations) (hb : b ∈ registrations) {key : MappingKey}
    (hkey : key ∈ a.keys) (hkey' : key ∈ b.keys) : a = b := by
  by_contra hne
  have hsymm : Std.Symm (Function.onFun List.Disjoint Registration.keys) :=
    ⟨fun _ _ h key hb ha => h ha hb⟩
  exact (List.nodup_flatMap.mp hnodup).2.forall ha hb hne hkey hkey'

namespace Registration

/-- The test whether the methods of a registration can be made with those whose keys are present. -/
def isMakeable (present : MappingKey → Bool) : Registration → Bool
  | .classes source target overrides mode => mode.directions.all fun direction =>
      (Plan.build source.describe target.describe direction overrides >>= fun p =>
        MappingMethod.assemble p target (tableOf present)).isOk
  | .enums source target overrides => (EnumMapping.build source target overrides).isOk

/-- The test for what can be made decides on it. -/
theorem isMakeable_iff {present : MappingKey → Bool} {registration : Registration} :
    registration.isMakeable present = true ↔ registration.Makeable present := by
  cases registration with
  | enums source target overrides => exact isOk_iff_exists
  | classes source target overrides mode =>
    rw [isMakeable, List.all_eq_true]
    refine forall₂_congr fun direction _ => ?_
    rw [isOk_iff_exists]
    simp only [bind_eq_ok]
    exact exists_comm.trans (exists_congr fun p => by simp)

instance (present : MappingKey → Bool) (registration : Registration) :
    Decidable (registration.Makeable present) :=
  decidable_of_iff _ isMakeable_iff

end Registration

namespace Registry

variable {r r' : Registry} {registrations knot : List Registration} {present : MappingKey → Bool}

/-- The keys that are present once all registrations are made. -/
def declares (r : Registry) (registrations : List Registration) (key : MappingKey) : Bool :=
  r.contains key || (keysOf registrations).contains key

/-- The same keys without those of some of the registrations. -/
def declaresWithout (r : Registry) (registrations knot : List Registration) (key : MappingKey) :
    Bool :=
  r.declares registrations key && !(keysOf knot).contains key

/-- The test for what is declared outside a knot decides on it. -/
theorem declaresWithout_eq_true {key : MappingKey} :
    r.declaresWithout registrations knot key = true ↔
      (r.contains key = true ∨ key ∈ keysOf registrations) ∧ key ∉ keysOf knot := by
  simp [declaresWithout, declares]

/-- **Registrations that wait for each other**: none of them can be made as long as all of them are
left out. -/
structure Knot (r : Registry) (registrations knot : List Registration) : Prop where
  nonempty : knot ≠ []
  subset : ∀ registration ∈ knot, registration ∈ registrations
  stuck : ∀ registration ∈ knot, ¬ registration.Makeable (r.declaresWithout registrations knot)

/-! ## Orders untie knots -/

/-- In an order that works, the first registration of a knot was possible without the others. -/
theorem exists_makeable_of_enterAll {order : List Registration} (h : r.enterAll order = .ok r')
    (hknot : ∃ registration ∈ order, registration ∈ knot)
    (hpresent : ∀ key, r.contains key = true → present key = true)
    (hothers : ∀ registration ∈ order, registration ∉ knot → ∀ key ∈ registration.keys,
      present key = true) : ∃ registration ∈ knot, registration.Makeable present := by
  -- up to the first registration of the knot, only keys that may be present have been added
  induction order generalizing r with
  | nil =>
    obtain ⟨registration, hmem, -⟩ := hknot
    cases hmem
  | cons first rest ih =>
    obtain ⟨next, hentered, hrest⟩ := bind_eq_ok.mp h
    by_cases hfirst : first ∈ knot
    · exact ⟨first, hfirst, (exists_enter_iff.mp ⟨next, hentered⟩).2.mono hpresent⟩
    · refine ih hrest ?_ (fun key hkey => ?_) fun registration hmem =>
        hothers registration (List.mem_cons_of_mem _ hmem)
      · obtain ⟨registration, hmem, hin⟩ := hknot
        rcases List.mem_cons.mp hmem with rfl | hmem
        · exact absurd hin hfirst
        · exact ⟨registration, hmem, hin⟩
      · rcases ((contains_of_enter hentered).2 key).mp hkey with hold | hnew
        · exact hpresent key hold
        · exact hothers first List.mem_cons_self hfirst key hnew

/-! ## Registrations without knots -/

/-- **What is left to be registered on the way**: its keys are distinct and new, and all other keys
that are to be present are. -/
structure Awaits (r : Registry) (present : MappingKey → Bool) (pending : List Registration) : Prop where
  nodup : (keysOf pending).Nodup
  new : ∀ key ∈ keysOf pending, r.contains key = false
  present : ∀ key, present key = true → key ∉ keysOf pending → r.contains key = true

namespace Awaits

variable {next : Registry} {pending others : List Registration} {registration : Registration}

/-- A registration that can be made without all those that are left can be made now. -/
theorem fits (h : r.Awaits present pending) (hmem : registration ∈ pending)
    (hmakeable : registration.Makeable fun key => present key && !(keysOf pending).contains key) :
    registration.Fits r.contains := by
  refine ⟨fun key hkey => h.new key (mem_keysOf.mpr ⟨registration, hmem, hkey⟩),
    hmakeable.mono fun key hkey => ?_⟩
  obtain ⟨hdeclared, habsent⟩ := Bool.and_eq_true_iff.mp hkey
  exact h.present key hdeclared (by simpa using habsent)

/-- After one of the registrations the others are left. -/
theorem enter (h : r.Awaits present pending) (hperm : pending.Perm (registration :: others))
    (hentered : r.enter registration = .ok next) : next.Awaits present others := by
  have hkeys : (keysOf pending).Perm (registration.keys ++ keysOf others) := hperm.flatMap_right _
  have hdisjoint := List.nodup_append.mp (hkeys.nodup_iff.mp h.nodup)
  obtain ⟨-, hcontains⟩ := contains_of_enter hentered
  refine ⟨hdisjoint.2.1, fun key hkey => ?_, fun key hkey habsent => ?_⟩
  · by_contra hthere
    rw [Bool.not_eq_false, hcontains] at hthere
    rcases hthere with hold | hown
    · rw [h.new key (hkeys.mem_iff.mpr (List.mem_append_right _ hkey))] at hold
      cases hold
    · exact hdisjoint.2.2 key hown key hkey rfl
  · refine (hcontains key).mpr ?_
    by_cases hown : key ∈ registration.keys
    · exact .inr hown
    · refine .inl (h.present key hkey fun hmem => ?_)
      exact (List.mem_append.mp (hkeys.mem_iff.mp hmem)).elim hown habsent

end Awaits

/-- If some of any registrations that are left can always be made, there is an order for them. -/
theorem exists_order {pending : List Registration} (h : r.Awaits present pending)
    (hfree : ∀ left, left ≠ [] → (∀ registration ∈ left, registration ∈ pending) →
      ∃ registration ∈ left,
        registration.Makeable fun key => present key && !(keysOf left).contains key) :
    ∃ order : List Registration, order.Perm pending ∧ ∃ r', r.enterAll order = .ok r' := by
  induction hn : pending.length generalizing r pending with
  | zero =>
    obtain rfl := List.length_eq_zero_iff.mp hn
    exact ⟨[], .refl _, r, rfl⟩
  | succ n ih =>
    have hne : pending ≠ [] := by
      rintro rfl
      cases hn
    obtain ⟨registration, hmem, hmakeable⟩ := hfree pending hne fun _ hin => hin
    obtain ⟨next, hentered⟩ := exists_enter_iff.mpr (h.fits hmem hmakeable)
    obtain ⟨before, after, rfl⟩ := List.append_of_mem hmem
    have hperm : (before ++ registration :: after).Perm (registration :: (before ++ after)) :=
      List.perm_middle
    have hlength : (before ++ after).length = n :=
      Nat.succ.inj (hperm.length_eq.symm.trans hn)
    -- what is left is free again, since subsets of it are subsets of what was pending
    obtain ⟨order, horder, r', hall⟩ : ∃ order : List Registration,
        order.Perm (before ++ after) ∧ ∃ r', next.enterAll order = .ok r' := by
      refine ih (h.enter hperm hentered) (fun left hleft hsubset => ?_) hlength
      refine hfree left hleft fun other hother => ?_
      exact hperm.mem_iff.mpr (List.mem_cons_of_mem _ (hsubset other hother))
    exact ⟨registration :: order, (horder.cons registration).trans hperm.symm, r',
      bind_eq_ok.mpr ⟨next, hentered, hall⟩⟩

/-- **Registrations with distinct new keys can be made in some order if and only if there is no knot
among them.** -/
theorem exists_order_iff (hnodup : (keysOf registrations).Nodup)
    (hnew : ∀ key ∈ keysOf registrations, r.contains key = false) :
    (∃ order : List Registration, order.Perm registrations ∧ ∃ r', r.enterAll order = .ok r') ↔
      ¬ ∃ knot, r.Knot registrations knot := by
  constructor
  · rintro ⟨order, horder, r', hall⟩ ⟨knot, hknot⟩
    have hstart : ∃ registration ∈ order, registration ∈ knot := by
      obtain ⟨registration, hmem⟩ := List.exists_mem_of_ne_nil knot hknot.nonempty
      exact ⟨registration, horder.mem_iff.mpr (hknot.subset registration hmem), hmem⟩
    have hmakeable : ∃ registration ∈ knot,
        registration.Makeable (r.declaresWithout registrations knot) := by
      refine exists_makeable_of_enterAll hall hstart (fun key hkey => ?_)
        fun other hother hfree key hkey => ?_
      · refine declaresWithout_eq_true.mpr ⟨.inl hkey, fun hmem => ?_⟩
        obtain ⟨registration, hin, hown⟩ := mem_keysOf.mp hmem
        rw [hnew key (mem_keysOf.mpr ⟨registration, hknot.subset registration hin, hown⟩)] at hkey
        cases hkey
      · have hmem := horder.mem_iff.mp hother
        refine declaresWithout_eq_true.mpr
          ⟨.inr (mem_keysOf.mpr ⟨other, hmem, hkey⟩), fun hknotted => ?_⟩
        obtain ⟨registration, hin, hown⟩ := mem_keysOf.mp hknotted
        exact hfree (eq_of_mem_keys hnodup hmem (hknot.subset registration hin) hkey hown ▸ hin)
    obtain ⟨registration, hmem, hmade⟩ := hmakeable
    exact hknot.stuck registration hmem hmade
  · intro hnone
    have hawaits : r.Awaits (r.declares registrations) registrations :=
      ⟨hnodup, hnew, fun key hkey habsent => by simpa [declares, habsent] using hkey⟩
    -- what is left at any time is no knot, so some of it can be made
    refine exists_order hawaits fun left hleft hsubset => ?_
    by_contra hstuck
    refine hnone ⟨left, hleft, hsubset, fun registration hmem hmakeable => ?_⟩
    exact hstuck ⟨registration, hmem, hmakeable⟩

end Registry

end ObjectMapping
