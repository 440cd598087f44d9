import ObjectMapping.Proofs.Inquiry.Registration

/-! # Interleaved registrations

Several callers register mappings in one registry at the same time. A call puts its questions to the
registry one by one, and while it does, others may ask theirs and enter mappings. Only the insertion
at the end is a single step. It looks once more whether the keys are new, as another call may have
entered a mapping since the first look.

* **`Interleaving.State`** — the registry and how far each call is; `State.run` takes one step of a
  call after another, in any order.
* **`State.run_alone`** — a call that is left alone does what `Registry.enter` does.
* **`State.Consistent`** — what every step preserves: the registry has the keys of the calls that
  succeeded, and the methods in it are linked.
* **`registry_of_interleaving`** — mappings stay, calls enter all their mappings or none, of several
  calls that share a key at most one succeeds, and all calls in methods are linked. -/

namespace ObjectMapping.Interleaving

open Outcome Inquiry

/-- How far a call is. -/
inductive Progress where
  | making (rest : Inquiry Error (List (MappingKey × Registered)))
  | ended (outcome : Except Error Unit)

/-- A call that registers a mapping. -/
structure Call where
  registration : Registration
  progress : Progress

/-- **A step of a call**, with the registry after it: the next question, or the insertion of the
mappings that it has made, or the end after a failure. -/
def Call.step (r : Registry) (c : Call) : Registry × Call :=
  match c.progress with
  | .making (.ask key next) => (r, ⟨c.registration, .making (next (r.contains key))⟩)
  | .making (.failed e) => (r, ⟨c.registration, .ended (.error e)⟩)
  | .making (.done entries) =>
      match c.registration.insert r entries with
      | .ok r' => (r', ⟨c.registration, .ended (.ok ())⟩)
      | .error e => (r, ⟨c.registration, .ended (.error e)⟩)
  | .ended _ => (r, c)

/-- The registry and the calls, by their numbers. -/
structure State where
  registry : Registry
  calls : List Call

namespace State

/-- Nothing is registered yet, and no call has begun. -/
def start (registrations : List Registration) : State :=
  ⟨.empty, registrations.map fun registration => ⟨registration, .making registration.inquiry⟩⟩

/-- One step of a call. -/
def step (s : State) (i : Nat) : State :=
  match s.calls[i]? with
  | none => s
  | some c =>
      let next := c.step s.registry
      ⟨next.1, s.calls.set i next.2⟩

/-- Steps of calls one after another, in the order of a schedule. -/
def run (s : State) (schedule : List Nat) : State := schedule.foldl step s

/-- The call of this number has registered its mappings. -/
def Succeeded (s : State) (i : Nat) (registration : Registration) : Prop :=
  s.calls[i]? = some ⟨registration, .ended (.ok ())⟩

/-- **A step enters all or nothing.** It leaves the registry as it was, unless the call succeeds by it,
and then it enters one mapping under each key of the call, and all these keys are new. -/
def AllOrNothing (s : State) (i : Nat) : Prop :=
  ((s.step i).registry = s.registry ∧
      ∀ registration, (s.step i).Succeeded i registration ↔ s.Succeeded i registration) ∨
    ∃ registration entries, ¬ s.Succeeded i registration ∧ (s.step i).Succeeded i registration ∧
      entries.map (·.1) = registration.keys ∧
      (∀ key ∈ registration.keys, s.registry.contains key = false) ∧
      (s.step i).registry = ⟨s.registry.mappings ++ entries⟩

end State

/-! ## Steps of one call -/

namespace Call

variable {r : Registry} {c : Call}

/-- What a call still has to do is what is left of its inquiry. -/
def Sound (known : MappingKey → Bool) (c : Call) : Prop :=
  ∀ rest, c.progress = .making rest → Reaches known c.registration.inquiry rest

/-- A call that is sound for some keys is so for more of them. -/
theorem Sound.mono {known known' : MappingKey → Bool}
    (hknown : ∀ key, known key = true → known' key = true) (h : c.Sound known) : c.Sound known' :=
  fun rest hrest => (h rest hrest).mono hknown

/-- What a call has made is what its inquiry leads to. -/
theorem Sound.leads {known : MappingKey → Bool} {entries : List (MappingKey × Registered)}
    (h : c.Sound known) (hdone : c.progress = .making (.done entries)) :
    c.registration.inquiry.Leads known (.ok entries) :=
  (h _ hdone).leads (.done entries)

/-- A step does not change what a call is about. -/
theorem step_registration (r : Registry) (c : Call) :
    (c.step r).2.registration = c.registration := by
  obtain ⟨registration, progress⟩ := c
  cases progress with
  | ended outcome => rfl
  | making rest =>
    cases rest with
    | ask key next => rfl
    | failed e => rfl
    | done entries => cases hinsert : registration.insert r entries <;> simp [step, hinsert]

/-- **What a step of a call does.** Either the registry is as before, and the call is as sound as
before and has succeeded if it had; or the call enters what it has made, under keys that are new. -/
theorem step_cases (r : Registry) (c : Call) :
    ((c.step r).1 = r ∧ (c.Sound r.contains → (c.step r).2.Sound r.contains) ∧
      ∀ registration, (c.step r).2 = ⟨registration, .ended (.ok ())⟩ ↔
        c = ⟨registration, .ended (.ok ())⟩) ∨
    ∃ entries, c.progress = .making (.done entries) ∧
      c.step r = (⟨r.mappings ++ entries⟩, ⟨c.registration, .ended (.ok ())⟩) ∧
        ∀ entry ∈ entries, r.contains entry.1 = false := by
  obtain ⟨registration, progress⟩ := c
  cases progress with
  | ended outcome => exact .inl ⟨rfl, id, fun _ => .rfl⟩
  | making rest =>
    cases rest with
    | ask key next =>
      refine .inl ⟨rfl, fun hsound rest hrest => ?_, by simp [step]⟩
      obtain rfl := Progress.making.inj hrest
      exact (hsound _ rfl).answer
    | failed e => exact .inl ⟨rfl, nofun, by simp [step]⟩
    | done entries =>
      -- this step alone writes to the registry, and it writes everything or nothing
      cases hinsert : registration.insert r entries with
      | error e => exact .inl (by simp [step, hinsert, Sound])
      | ok r' =>
        obtain ⟨rfl, hnew⟩ := Registration.insert_eq_ok hinsert
        exact .inr ⟨entries, rfl, by simp [step, hinsert], hnew⟩

end Call

/-! ## Steps of all calls -/

namespace State

variable {s : State} {i j : Nat} {c : Call} {registration registration' : Registration}

/-- A step of a call changes the registry and this call only. -/
theorem step_of_call (h : s.calls[i]? = some c) :
    s.step i = ⟨(c.step s.registry).1, s.calls.set i (c.step s.registry).2⟩ := by
  rw [step, h]

/-- The calls after a step are the same, except for the one that took it. -/
theorem calls_set (h : s.calls[i]? = some c) (c' : Call) (j : Nat) :
    (s.calls.set i c')[j]? = if i = j then some c' else s.calls[j]? := by
  rw [List.getElem?_set]
  split
  · next heq =>
    subst heq
    rw [if_pos (List.getElem?_eq_some_iff.mp h).1]
  · rfl

/-- A step keeps what the calls are for. -/
theorem registrations_step (s : State) (i : Nat) :
    (s.step i).calls.map (·.registration) = s.calls.map (·.registration) := by
  cases hc : s.calls[i]? with
  | none => rw [step, hc]
  | some c =>
    refine List.ext_getElem? fun j => ?_
    rw [step_of_call hc, List.getElem?_map, List.getElem?_map, calls_set hc]
    split
    · next heq =>
      rw [← heq, hc, Option.map_some, Option.map_some, Call.step_registration]
    · rfl

/-- **What a step does.** Either the registry is as before, and the calls are as sound as before and
those that have succeeded are the same; or one more call succeeds, and what it made is entered. -/
theorem step_cases (s : State) (i : Nat) :
    ((s.step i).registry = s.registry ∧
      ((∀ c ∈ s.calls, c.Sound s.registry.contains) →
        ∀ c ∈ (s.step i).calls, c.Sound s.registry.contains) ∧
      ∀ j registration, (s.step i).Succeeded j registration ↔ s.Succeeded j registration) ∨
    ∃ registration entries, s.calls[i]? = some ⟨registration, .making (.done entries)⟩ ∧
      s.step i
        = ⟨⟨s.registry.mappings ++ entries⟩, s.calls.set i ⟨registration, .ended (.ok ())⟩⟩ ∧
      ∀ entry ∈ entries, s.registry.contains entry.1 = false := by
  cases hc : s.calls[i]? with
  | none =>
    have hstep : s.step i = s := by rw [step, hc]
    rw [hstep]
    exact .inl ⟨rfl, id, fun j registration => .rfl⟩
  | some c =>
    rw [step_of_call hc]
    rcases c.step_cases s.registry with ⟨hregistry, hsound, hended⟩ | hentered
    · refine .inl ⟨hregistry, fun hall c' hc' => ?_, fun j registration => ?_⟩
      · rcases List.mem_or_eq_of_mem_set hc' with hmem | rfl
        · exact hall c' hmem
        · exact hsound (hall c (List.mem_of_getElem? hc))
      · rw [Succeeded, Succeeded, calls_set hc]
        split
        · next heq =>
          rw [← heq, hc, Option.some_inj, Option.some_inj, hended]
        · rfl
    · obtain ⟨entries, hdone, hstep, hnew⟩ := hentered
      obtain ⟨registration, progress⟩ := c
      obtain rfl : progress = _ := hdone
      exact .inr ⟨registration, entries, rfl, by rw [hstep], hnew⟩

/-- The calls that have succeeded after one more did. -/
theorem succeeded_set (h : s.calls[i]? = some c) (hc : ∀ outcome, c.progress ≠ .ended outcome)
    {r : Registry} :
    (State.mk r (s.calls.set i ⟨registration, .ended (.ok ())⟩)).Succeeded j registration' ↔
      s.Succeeded j registration' ∨ i = j ∧ registration = registration' := by
  rw [Succeeded, Succeeded, calls_set h]
  split
  · next heq =>
    subst heq
    have hnot : ¬ c = ⟨registration', .ended (.ok ())⟩ := by
      rintro rfl
      exact hc _ rfl
    simp [h, hnot]
  · next hne => simp [hne]

/-! ## What stays -/

/-- A step keeps what is in the registry. -/
theorem lookup_step {key : MappingKey} {registered : Registered}
    (h : s.registry.lookup? key = some registered) :
    (s.step i).registry.lookup? key = some registered := by
  rcases s.step_cases i with ⟨hregistry, -⟩ | ⟨registration, entries, -, hstep, -⟩
  · rw [hregistry, h]
  · rw [hstep]
    exact Registry.lookup_append h

/-- **What is in the registry stays there**, whatever calls do. -/
theorem lookup_run {key : MappingKey} {registered : Registered} (schedule : List Nat)
    (h : s.registry.lookup? key = some registered) :
    (s.run schedule).registry.lookup? key = some registered := by
  induction schedule generalizing s with
  | nil => exact h
  | cons i rest ih => exact ih (lookup_step h)

/-- The end of a call is final. -/
theorem ended_step {outcome : Except Error Unit}
    (h : s.calls[i]? = some ⟨registration, .ended outcome⟩) :
    (s.step j).calls[i]? = some ⟨registration, .ended outcome⟩ := by
  cases hc : s.calls[j]? with
  | none => rw [step, hc, h]
  | some c =>
    rw [step_of_call hc, calls_set hc]
    split
    · next heq =>
      subst heq
      obtain rfl := Option.some.inj (hc.symm.trans h)
      rfl
    · exact h

/-- A call that has ended stays as it is. -/
theorem ended_run {outcome : Except Error Unit} (schedule : List Nat)
    (h : s.calls[i]? = some ⟨registration, .ended outcome⟩) :
    (s.run schedule).calls[i]? = some ⟨registration, .ended outcome⟩ := by
  induction schedule generalizing s with
  | nil => exact h
  | cons j rest ih => exact ih (ended_step h)

/-! ## What every step preserves -/

/-- **A method goes back to a call** that has succeeded, and there is a mapping for every call in it. -/
def Explains (s : State) (key : MappingKey) (m : MappingMethod) : Prop :=
  ∃ i source target overrides mode direction,
    s.Succeeded i (.classes source target overrides mode) ∧ direction ∈ mode.directions ∧
      key = .of source.handle target.handle direction ∧
        ∀ stmt ∈ m.function.body, stmt.Linked source.describe s.registry.contains

/-- **What every step preserves.** The keys are those of the calls that have succeeded, which do not
share any, and all methods are explained. -/
structure Consistent (s : State) : Prop where
  sound : ∀ c ∈ s.calls, c.Sound s.registry.contains
  contains : ∀ key, s.registry.contains key = true ↔
    ∃ i registration, s.Succeeded i registration ∧ key ∈ registration.keys
  exclusive : ∀ i j registration registration' key, s.Succeeded i registration →
    s.Succeeded j registration' → key ∈ registration.keys → key ∈ registration'.keys → i = j
  explained : ∀ key m, (key, .method m) ∈ s.registry.mappings → s.Explains key m

/-- The state at the start is consistent. -/
theorem consistent_start (registrations : List Registration) :
    (start registrations).Consistent := by
  have hnone : ∀ i registration, ¬ (start registrations).Succeeded i registration := by
    intro i registration hsucceeded
    obtain ⟨begun, -, heq⟩ := List.mem_map.mp (List.mem_of_getElem? hsucceeded)
    cases (Call.mk.inj heq).2
  constructor
  case sound =>
    intro c hc rest hrest
    obtain ⟨registration, -, rfl⟩ := List.mem_map.mp hc
    obtain rfl := Progress.making.inj hrest
    exact .start
  case contains =>
    refine fun key => ⟨nofun, ?_⟩
    rintro ⟨i, registration, hsucceeded, -⟩
    exact absurd hsucceeded (hnone i registration)
  case exclusive => exact fun i _ registration _ _ hi => absurd hi (hnone i registration)
  case explained => exact fun key m hmem => nomatch hmem

/-- What explains a method still does when more is registered and more calls have succeeded. -/
theorem Explains.mono {s' : State} {key : MappingKey} {m : MappingMethod}
    (hkeys : ∀ key, s.registry.contains key = true → s'.registry.contains key = true)
    (hcalls : ∀ i registration, s.Succeeded i registration → s'.Succeeded i registration)
    (h : s.Explains key m) : s'.Explains key m := by
  obtain ⟨i, source, target, overrides, mode, direction, hi, hdirection, hkey, hlinked⟩ := h
  exact ⟨i, source, target, overrides, mode, direction, hcalls _ _ hi, hdirection, hkey,
    fun stmt hstmt => (hlinked stmt hstmt).mono hkeys⟩

namespace Consistent

variable {entries : List (MappingKey × Registered)}

/-- A step that leaves the registry and the successes as they were keeps all of this. -/
theorem of_unchanged {s' : State} (h : s.Consistent) (hregistry : s'.registry = s.registry)
    (hsound : ∀ c ∈ s'.calls, c.Sound s.registry.contains)
    (hsame : ∀ j registration, s'.Succeeded j registration ↔ s.Succeeded j registration) :
    s'.Consistent := by
  constructor
  case sound => exact hregistry ▸ hsound
  case contains =>
    intro key
    rw [hregistry, h.contains]
    simp only [hsame]
  case exclusive =>
    intro j k registration registration' key hj hk
    exact h.exclusive j k _ _ key ((hsame _ _).mp hj) ((hsame _ _).mp hk)
  case explained =>
    intro key m hmem
    refine (h.explained key m (hregistry ▸ hmem)).mono ?_ fun j _ => (hsame j _).mpr
    exact fun key hkey => hregistry ▸ hkey

/-- What a call has made is what its inquiry leads to with what is registered now. -/
theorem leads (h : s.Consistent)
    (hc : s.calls[i]? = some ⟨registration, .making (.done entries)⟩) :
    registration.inquiry.Leads s.registry.contains (.ok entries) :=
  (h.sound _ (List.mem_of_getElem? hc)).leads rfl

/-- If what a call has made is new, so are all its keys. -/
theorem new_keys (h : s.Consistent)
    (hc : s.calls[i]? = some ⟨registration, .making (.done entries)⟩)
    (hnew : ∀ entry ∈ entries, s.registry.contains entry.1 = false) :
    ∀ key ∈ registration.keys, s.registry.contains key = false := by
  intro key hkey
  obtain ⟨entry, hentry, rfl⟩ := List.mem_map.mp (Registration.keys_of_leads (h.leads hc) ▸ hkey)
  exact hnew entry hentry

/-- One more call that succeeds, under keys that are new, keeps all of this. -/
theorem of_entered (h : s.Consistent)
    (hc : s.calls[i]? = some ⟨registration, .making (.done entries)⟩)
    (hnew : ∀ entry ∈ entries, s.registry.contains entry.1 = false) :
    (State.mk ⟨s.registry.mappings ++ entries⟩
      (s.calls.set i ⟨registration, .ended (.ok ())⟩)).Consistent := by
  have hleads := h.leads hc
  have hkeys := Registration.keys_of_leads hleads
  have hsucceeded : ∀ j registration', (State.mk ⟨s.registry.mappings ++ entries⟩
      (s.calls.set i ⟨registration, .ended (.ok ())⟩)).Succeeded j registration' ↔
        s.Succeeded j registration' ∨ i = j ∧ registration = registration' :=
    fun j registration' => succeeded_set hc nofun
  have hgrown : ∀ key, s.registry.contains key = true →
      (Registry.mk (s.registry.mappings ++ entries)).contains key = true :=
    fun key hkey => Registry.contains_append.mpr (.inl hkey)
  -- no call that has succeeded before has a key of the one that succeeds now
  have hfresh : ∀ j registration' key, s.Succeeded j registration' →
      key ∈ registration'.keys → key ∉ registration.keys := by
    intro j registration' key hj hkey' hkey
    have hold := (h.contains key).mpr ⟨j, registration', hj, hkey'⟩
    rw [h.new_keys hc hnew key hkey] at hold
    cases hold
  constructor
  case sound =>
    intro c hmem
    rcases List.mem_or_eq_of_mem_set hmem with hold | rfl
    · exact (h.sound c hold).mono hgrown
    · exact nofun
  case contains =>
    intro key
    rw [Registry.contains_append, hkeys, h.contains]
    simp only [hsucceeded]
    constructor
    · rintro (⟨j, registration', hj, hkey⟩ | hkey)
      · exact ⟨j, registration', .inl hj, hkey⟩
      · exact ⟨i, registration, .inr ⟨rfl, rfl⟩, hkey⟩
    · rintro ⟨j, registration', hj | ⟨-, rfl⟩, hkey⟩
      · exact .inl ⟨j, registration', hj, hkey⟩
      · exact .inr hkey
  case exclusive =>
    intro j k registration₁ registration₂ key hj hk hkey₁ hkey₂
    rcases (hsucceeded _ _).mp hj with hj | ⟨rfl, rfl⟩
    · rcases (hsucceeded _ _).mp hk with hk | ⟨rfl, rfl⟩
      · exact h.exclusive j k _ _ key hj hk hkey₁ hkey₂
      · exact absurd hkey₂ (hfresh j _ key hj hkey₁)
    · rcases (hsucceeded _ _).mp hk with hk | ⟨rfl, -⟩
      · exact absurd hkey₁ (hfresh k _ key hk hkey₂)
      · rfl
  case explained =>
    intro key m hmem
    rcases List.mem_append.mp hmem with hold | hadded
    · exact (h.explained key m hold).mono hgrown fun j _ hj => (hsucceeded j _).mpr (.inl hj)
    · obtain ⟨source, target, overrides, mode, direction, rfl, hdirection, hkey, hlinked⟩ :=
        Registration.linked_of_leads hleads hadded
      exact ⟨i, source, target, overrides, mode, direction, (hsucceeded _ _).mpr (.inr ⟨rfl, rfl⟩),
        hdirection, hkey, fun stmt hstmt => (hlinked stmt hstmt).mono hgrown⟩

/-- A step leads from a consistent state to a consistent one. -/
theorem step (h : s.Consistent) (i : Nat) : (s.step i).Consistent := by
  rcases s.step_cases i with ⟨hregistry, hsound, hsame⟩ | ⟨registration, entries, hc, hstep, hnew⟩
  · exact h.of_unchanged hregistry (hsound h.sound) hsame
  · exact hstep ▸ h.of_entered hc hnew

/-- **Consistency is kept by all steps**, in whatever order the calls take them. -/
theorem run (h : s.Consistent) (schedule : List Nat) : (s.run schedule).Consistent := by
  induction schedule generalizing s with
  | nil => exact h
  | cons i rest ih => exact ih (h.step i)

/-- With consistent calls, a step enters all mappings of a call or none. -/
theorem allOrNothing (h : s.Consistent) (i : Nat) : s.AllOrNothing i := by
  rcases s.step_cases i with ⟨hregistry, -, hsame⟩ | ⟨registration, entries, hc, hstep, hnew⟩
  · exact .inl ⟨hregistry, hsame i⟩
  · refine .inr ⟨registration, entries, ?_, ?_, Registration.keys_of_leads (h.leads hc),
      h.new_keys hc hnew, by rw [hstep]⟩
    · rw [Succeeded, hc]
      exact nofun
    · rw [hstep]
      exact (succeeded_set hc nofun).mpr (.inr ⟨rfl, rfl⟩)

end Consistent

/-- A schedule keeps what the calls are for. -/
theorem registrations_run (s : State) (schedule : List Nat) :
    (s.run schedule).calls.map (·.registration) = s.calls.map (·.registration) := by
  induction schedule generalizing s with
  | nil => rfl
  | cons i rest ih => exact (ih (s.step i)).trans (registrations_step s i)

/-! ## A call on its own -/

/-- A call that is left alone gets the rest of its answers from one registry. -/
theorem run_rest {rest : Inquiry Error (List (MappingKey × Registered))}
    (h : s.calls[i]? = some ⟨registration, .making rest⟩) :
    ∃ n, let outcome := rest.answeredBy s.registry.contains >>= fun entries =>
        registration.insert s.registry entries
      (s.run (List.replicate n i)).calls[i]?
          = some ⟨registration, .ended (outcome.map fun _ => ())⟩ ∧
        (s.run (List.replicate n i)).registry = outcome.toOption.getD s.registry := by
  induction rest generalizing s with
  | done entries =>
    refine ⟨1, ?_⟩
    show (s.step i).calls[i]? = _ ∧ (s.step i).registry = _
    rw [step_of_call h, calls_set h, if_pos rfl]
    cases hinsert : registration.insert s.registry entries <;>
      simp [Call.step, hinsert, answeredBy, Except.map, Except.toOption]
  | failed e =>
    refine ⟨1, ?_⟩
    show (s.step i).calls[i]? = _ ∧ (s.step i).registry = _
    rw [step_of_call h, calls_set h, if_pos rfl]
    exact ⟨rfl, rfl⟩
  | ask key next ih =>
    -- a question leaves the registry as it is, so the other answers come from the same one
    have hstep : (s.step i).calls[i]?
        = some ⟨registration, .making (next (s.registry.contains key))⟩ := by
      rw [step_of_call h, calls_set h, if_pos rfl]
      rfl
    have hregistry : (s.step i).registry = s.registry := by
      rw [step_of_call h]
      rfl
    obtain ⟨n, hcall, hend⟩ := ih _ hstep
    refine ⟨n + 1, ?_⟩
    rw [hregistry] at hcall hend
    exact ⟨hcall, hend⟩

/-- **A call that is left alone** does what the whole registration does at once. -/
theorem run_alone (h : s.calls[i]? = some ⟨registration, .making registration.inquiry⟩) :
    ∃ n, (s.run (List.replicate n i)).calls[i]?
        = some ⟨registration, .ended ((s.registry.enter registration).map fun _ => ())⟩ ∧
      (s.run (List.replicate n i)).registry
        = (s.registry.enter registration).toOption.getD s.registry := by
  rw [Registry.enter_eq_inquiry]
  exact run_rest h

end State

/-- **Registrations in any interleaving.** Let any number of calls register mappings in a registry that
is empty at first, and let them take their steps in any order. Then

* what stands under a key stays there, whatever steps follow;
* a step enters all mappings of a call, and then the call succeeds, or leaves the registry as it was;
* the end of a call is final;
* the keys in the registry are those of the calls that have succeeded;
* of several calls that share a key at most one succeeds;
* for every call in a method that is registered, there is a mapping from the static class of the
  receiver to the class and in the direction that are called for;
* a call that has not begun does what `Registry.enter` does if it is left alone from now on. -/
theorem registry_of_interleaving (registrations : List Registration) (schedule : List Nat) :
    let s := (State.start registrations).run schedule
    s.calls.map (·.registration) = registrations ∧
      (∀ later key registered, s.registry.lookup? key = some registered →
        (s.run later).registry.lookup? key = some registered) ∧
      (∀ i, s.AllOrNothing i) ∧
      (∀ later (i : Nat) registration outcome, s.calls[i]? = some ⟨registration, .ended outcome⟩ →
        (s.run later).calls[i]? = some ⟨registration, .ended outcome⟩) ∧
      (∀ key, s.registry.contains key = true ↔
        ∃ i registration, s.Succeeded i registration ∧ key ∈ registration.keys) ∧
      (∀ i j registration registration' key, s.Succeeded i registration →
        s.Succeeded j registration' → key ∈ registration.keys → key ∈ registration'.keys → i = j) ∧
      (∀ key m, s.registry.lookup? key = some (.method m) → s.Explains key m) ∧
      ∀ (i : Nat) registration, s.calls[i]? = some ⟨registration, .making registration.inquiry⟩ →
        ∃ n, (s.run (List.replicate n i)).calls[i]?
            = some ⟨registration, .ended ((s.registry.enter registration).map fun _ => ())⟩ ∧
          (s.run (List.replicate n i)).registry
            = (s.registry.enter registration).toOption.getD s.registry := by
  intro s
  have hconsistent : s.Consistent := (State.consistent_start registrations).run schedule
  refine ⟨?_, fun later _ _ => State.lookup_run later, hconsistent.allOrNothing,
    fun later _ _ _ => State.ended_run later, hconsistent.contains, hconsistent.exclusive, ?_,
    fun _ _ => State.run_alone⟩
  · rw [State.registrations_run, State.start, List.map_map]
    exact List.map_id _
  · intro key m hlookup
    exact hconsistent.explained key m (Keyed.mem_of_lookup hlookup)

/-- Two calls for the same mapping both find its keys new. The one that is first to insert its methods
succeeds, and the other one fails. -/
example :
    let call := Registration.classes Sample.itemClass Sample.itemViewClass [] .createAndUpdate
    let s := (State.start [call, call]).run [0, 1, 0, 1, 0, 1, 1, 0]
    s.registry.size = 2 ∧ s.calls.map (fun c => match c.progress with
      | .making _ => none
      | .ended outcome => some outcome.isOk) = [some false, some true] := by
  decide +kernel

end ObjectMapping.Interleaving
