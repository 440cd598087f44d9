import ObjectMapping.Proofs.FieldType.Induction
import ObjectMapping.Proofs.Value.Steadiness

/-! # Computations that keep track

What the trail of a decoder says is right as long as each step is taken off again behind the part
that it leads to. A computation that does so restores the trail when it succeeds, and where it fails
the trail leads to the place of the failure.

* `Decoding.Keeps`: the trail is left alone, as by a reading of a string.
* **`Decoding.Tracks`** — the trail is restored, and places are reported that are true; it is passed
  on by sequences (`Tracks.bind`), by the reading of a part (`Tracks.entered`) and by attempts that
  keep the trail when they are in vain (`Tracks.attempt`). -/

namespace ObjectMapping.Decoding

variable {α β : Type} {classes : ClassTable}

/-! ## Computations that leave the trail alone -/

/-- The trail is left as it was, whatever the outcome. -/
def Keeps (d : Decoding α) : Prop := ∀ trail, (d trail).2 = trail

/-- Computations that leave the trail alone do so one after another. -/
theorem Keeps.bind {d : Decoding α} {f : α → Decoding β} (hd : Keeps d) (hf : ∀ a, Keeps (f a)) :
    Keeps (d >>= f) := by
  intro trail
  rw [bind_apply, hd trail]
  cases (d trail).1 with
  | ok a => exact hf a trail
  | error e => rfl

/-- An attempt leaves the trail alone. -/
theorem Keeps.attempt {d : Decoding α} (h : Keeps d) : Keeps (Decoding.attempt d) := h

/-- Reading a string enters no part of it. -/
theorem keeps_decode_string (type : FieldType) (s : String) :
    Keeps (decode classes type (.string s)) := by
  induction type with
  | any =>
    rw [decode]
    exact fun _ => rfl
  | optional inner ih =>
    rw [decode]
    · exact ih
    · simp
  | union members ih =>
    rw [decode]
    -- the members are tried one by one, all of them for the same string
    generalize FieldType.union members = union
    induction members with
    | nil =>
      rw [decodeFirst]
      exact fun _ => rfl
    | cons member rest ihrest =>
      obtain ⟨hmember, hrest⟩ := List.forall_mem_cons.mp ih
      rw [decodeFirst]
      refine hmember.attempt.bind fun outcome => ?_
      cases outcome with
      | ok value => exact fun _ => rfl
      | error e => exact ihrest hrest
  | named handle =>
    rw [decode]
    split
    · split
      · exact fun _ => rfl
      · exact fun _ => rfl
    · split
      · exact fun _ => rfl
      · split
        · exact fun _ => rfl
        · exact fun _ => rfl
  | _ =>
    rw [decode]
    · exact fun _ => rfl
    all_goals simp

/-! ## Steps of a run -/

/-- What follows an attempt goes on with its outcome, from the trail that it has left. -/
theorem attempt_bind_apply (d : Decoding α) (f : Except Error α → Decoding β) (trail : Trail) :
    (Decoding.attempt d >>= f) trail = f (d trail).1 (d trail).2 := rfl

/-- Behind a part that has been read the innermost step is taken off the trail. -/
theorem entered_of_ok {step : String} {d : Decoding α} {f : α → Decoding β} {trail left : Trail}
    {a : α} (h : d (step :: trail) = (.ok a, left)) :
    (enter step >>= fun _ => d >>= fun a => leave >>= fun _ => f a) trail = f a left.tail := by
  show (d >>= fun a => leave >>= fun _ => f a) (step :: trail) = _
  rw [bind_apply, h]
  rfl

/-- A part that is not read leaves its step on the trail. -/
theorem entered_of_error {step : String} {d : Decoding α} {f : α → Decoding β} {trail left : Trail}
    {e : Error} (h : d (step :: trail) = (.error e, left)) :
    (enter step >>= fun _ => d >>= fun a => leave >>= fun _ => f a) trail = (.error e, left) := by
  show (d >>= fun a => leave >>= fun _ => f a) (step :: trail) = _
  rw [bind_apply, h]
  rfl

/-! ## Computations that keep track -/

/-- **A computation keeps track** if it restores the trail when it succeeds, and if the mismatches
that it reports are behind the trail, at places that are true. -/
structure Tracks (True : List String → String → String → Prop) (d : Decoding α) : Prop where
  restores : ∀ trail a, (d trail).1 = .ok a → (d trail).2 = trail
  places : ∀ trail path expected found, (d trail).1 = .error (.schema (.mismatch path expected found)) →
    ∃ steps, path = trail.reverse ++ steps ∧ True steps expected found

section Tracks

variable {P R : List String → String → String → Prop}

/-- What keeps track of true places keeps track of places that follow from them. -/
theorem Tracks.mono {d : Decoding α} (h : Tracks P d)
    (himp : ∀ steps expected found, P steps expected found → R steps expected found) :
    Tracks R d where
  restores := h.restores
  places := by
    intro trail path expected found herror
    obtain ⟨steps, hpath, hsteps⟩ := h.places trail path expected found herror
    exact ⟨steps, hpath, himp _ _ _ hsteps⟩

/-- What is returned keeps track. -/
theorem tracks_pure (a : α) : Tracks P (pure a : Decoding α) where
  restores := fun _ _ _ => rfl
  places := by
    intro trail path expected found herror
    cases herror

/-- A mismatch keeps track if it is true. -/
theorem tracks_mismatch {expected : FieldType} {document : Json}
    (h : P [] expected.text document.kind) : Tracks P (mismatch expected document : Decoding α) where
  restores := by
    intro trail a hok
    cases hok
  places := by
    intro trail path expected' found herror
    have hraised : (mismatch expected document : Decoding α) trail
        = (.error (.schema (.mismatch trail.reverse expected.text document.kind)), trail) := rfl
    rw [hraised] at herror
    obtain ⟨rfl, rfl, rfl⟩ :=
      SchemaFault.mismatch.inj (Error.schema.inj (Except.error.inj herror))
    exact ⟨[], by simp, h⟩

/-- An error that tells of something else than a document that is not of a type. -/
def NoMismatch (e : Error) : Prop :=
  ∀ path expected found, e ≠ .schema (.mismatch path expected found)

/-- An outcome that has nothing to do with documents is no mismatch. -/
theorem tracks_lift {outcome : Except Error α}
    (h : Outcome.Meets NoMismatch (fun _ => True) outcome) :
    Tracks P (lift outcome) where
  restores := fun _ _ _ => rfl
  places := by
    intro trail path expected found herror
    have heq : outcome = .error (.schema (.mismatch path expected found)) := herror
    rw [heq] at h
    exact absurd rfl (h _ _ _)

/-- An error that is no mismatch keeps track. -/
theorem tracks_throw {e : Error} (h : NoMismatch e) : Tracks P (throw e : Decoding α) := by
  have hlift : Tracks P (lift (.error e) : Decoding α) := tracks_lift h
  exact hlift

/-- Computations that keep track do so one after another. -/
theorem Tracks.bind {d : Decoding α} {f : α → Decoding β} (hd : Tracks P d) (hsteady : Steady d)
    (hf : ∀ a, Yields d a → Tracks P (f a)) : Tracks P (d >>= f) := by
  -- what follows a value starts from the same trail
  have hfollows : ∀ trail a, (d trail).1 = .ok a → (d >>= f) trail = f a trail := by
    intro trail a hvalue
    rw [bind_apply, hvalue, hd.restores trail a hvalue]
    rfl
  have hends : ∀ trail e, (d trail).1 = .error e → ((d >>= f) trail).1 = .error e := by
    intro trail e herror
    rw [bind_apply, herror]
    rfl
  constructor
  · intro trail b hb
    cases hvalue : (d trail).1 with
    | ok a =>
      rw [hfollows trail a hvalue] at hb ⊢
      exact (hf a (hsteady.yields hvalue)).restores trail b hb
    | error e =>
      rw [hends trail e hvalue] at hb
      cases hb
  · intro trail path expected found herror
    cases hvalue : (d trail).1 with
    | ok a =>
      rw [hfollows trail a hvalue] at herror
      exact (hf a (hsteady.yields hvalue)).places trail path expected found herror
    | error e =>
      rw [hends trail e hvalue] at herror
      obtain rfl := Except.error.inj herror
      exact hd.places trail path expected found hvalue

/-- A part is read behind its step, which is taken off again. -/
theorem Tracks.entered {step : String} {d : Decoding α} {f : α → Decoding β}
    (hd : Tracks (fun steps => P (step :: steps)) d) (hsteady : Steady d)
    (hf : ∀ a, Yields d a → Tracks P (f a)) :
    Tracks P (enter step >>= fun _ => d >>= fun a => leave >>= fun _ => f a) := by
  -- behind the part what follows starts from the same trail
  have hfollows : ∀ trail a, (d (step :: trail)).1 = .ok a →
      (enter step >>= fun _ => d >>= fun a => leave >>= fun _ => f a) trail = f a trail :=
    fun trail a hvalue => entered_of_ok (Prod.ext hvalue (hd.restores _ a hvalue))
  have hends : ∀ trail e, (d (step :: trail)).1 = .error e →
      ((enter step >>= fun _ => d >>= fun a => leave >>= fun _ => f a) trail).1 = .error e :=
    fun trail e herror => congrArg Prod.fst (entered_of_error (Prod.ext herror rfl))
  constructor
  · intro trail b hb
    cases hvalue : (d (step :: trail)).1 with
    | ok a =>
      rw [hfollows trail a hvalue] at hb ⊢
      exact (hf a (hsteady.yields hvalue)).restores trail b hb
    | error e =>
      rw [hends trail e hvalue] at hb
      cases hb
  · intro trail path expected found herror
    cases hvalue : (d (step :: trail)).1 with
    | ok a =>
      rw [hfollows trail a hvalue] at herror
      exact (hf a (hsteady.yields hvalue)).places trail path expected found herror
    | error e =>
      rw [hends trail e hvalue] at herror
      obtain rfl := Except.error.inj herror
      obtain ⟨steps, hpath, hsteps⟩ := hd.places _ path expected found hvalue
      exact ⟨step :: steps, by simpa using hpath, hsteps⟩

/-- What is tried in vain may not have changed the trail. -/
theorem Tracks.attempt {d : Decoding α} {f : Except Error α → Decoding β} (hsteady : Steady d)
    (hrestores : ∀ trail a, (d trail).1 = .ok a → (d trail).2 = trail)
    (hvain : Fails d → ∀ trail, (d trail).2 = trail)
    (hok : ∀ a, Yields d a → Tracks P (f (.ok a))) (herror : Fails d → ∀ e, Tracks P (f (.error e))) :
    Tracks P (Decoding.attempt d >>= f) := by
  -- in both cases what follows starts from the same trail
  have hfollows : ∀ trail, (Decoding.attempt d >>= f) trail = f (d trail).1 trail ∧
      Tracks P (f (d trail).1) := by
    intro trail
    have hstep := attempt_bind_apply d f trail
    cases hvalue : (d trail).1 with
    | ok a =>
      rw [hstep, hvalue, hrestores trail a hvalue]
      exact ⟨rfl, hok a (hsteady.yields hvalue)⟩
    | error e =>
      have hfails := hsteady.fails hvalue
      rw [hstep, hvalue, hvain hfails trail]
      exact ⟨rfl, herror hfails e⟩
  constructor
  · intro trail b hb
    obtain ⟨hstep, htracks⟩ := hfollows trail
    rw [hstep] at hb ⊢
    exact htracks.restores trail b hb
  · intro trail path expected found hmismatch
    obtain ⟨hstep, htracks⟩ := hfollows trail
    rw [hstep] at hmismatch
    exact htracks.places trail path expected found hmismatch

end Tracks

end ObjectMapping.Decoding
