import ObjectMapping.Registry
import ObjectMapping.Proofs.Outcome

/-! # Inquiries into a registry

Before a mapping is entered, its methods are made, and on the way the registry is asked again and
again whether it has some mapping. Others may register mappings between two of these questions, so
the answers need not belong to one and the same registry. An `Inquiry` is such a computation with its
questions left open.

* **`Inquiry`** — what is done next depends on the answer to the question that is asked.
* **`Inquiry.answeredBy`** — the outcome if all answers come from one registry.
* **`Inquiry.Leads known q x`** — the inquiry leads to the outcome `x` by some answers, of which those
  that are positive are among the known keys. The negative ones may be outdated.
* **`Inquiry.Strict`** — a negative answer is always the end. A strict inquiry that succeeds by some
  answers gives the same if all answers come from a registry with the known keys. -/

namespace ObjectMapping

open Outcome

/-- A computation that asks, one question after another, under which keys there are mappings. -/
inductive Inquiry (ε α : Type) where
  | done (a : α)
  | failed (e : ε)
  | ask (key : MappingKey) (next : Bool → Inquiry ε α)

namespace Inquiry

variable {ε ε' α β : Type}

/-- One inquiry after another. -/
def bind : Inquiry ε α → (α → Inquiry ε β) → Inquiry ε β
  | done a, f => f a
  | failed e, _ => failed e
  | ask key next, f => ask key fun answer => (next answer).bind f

instance : Monad (Inquiry ε) where
  pure := done
  bind := bind

/-- An outcome for which nothing has to be asked. -/
def ofExcept : Except ε α → Inquiry ε α
  | .ok a => done a
  | .error e => failed e

/-- The inquiry that gives its failure as a result. -/
def attempt : Inquiry ε α → Inquiry ε' (Except ε α)
  | done a => done (.ok a)
  | failed e => done (.error e)
  | ask key next => ask key fun answer => (next answer).attempt

/-- Fails unless there is a mapping under the key. -/
def require (key : MappingKey) (e : ε) : Inquiry ε Unit :=
  ask key fun answer => if answer then done () else failed e

/-- Fails if there is a mapping under the key. -/
def refuse (key : MappingKey) (e : ε) : Inquiry ε Unit :=
  ask key fun answer => if answer then failed e else done ()

/-! ## Answers from one registry -/

/-- The outcome if the mappings are those under the present keys from beginning to end. -/
def answeredBy (present : MappingKey → Bool) : Inquiry ε α → Except ε α
  | done a => .ok a
  | failed e => .error e
  | ask key next => (next (present key)).answeredBy present

section Answers

variable {present : MappingKey → Bool}

/-- Without a question there is nothing to answer. -/
@[simp] theorem answeredBy_pure (a : α) :
    (pure a : Inquiry ε α).answeredBy present = .ok a := rfl

/-- A failed inquiry fails whatever the answers are. -/
@[simp] theorem answeredBy_failed (e : ε) :
    (failed e : Inquiry ε α).answeredBy present = .error e := rfl

/-- Inquiries one after another are answered one after another. -/
@[simp] theorem answeredBy_bind (x : Inquiry ε α) (f : α → Inquiry ε β) :
    (x >>= f).answeredBy present = x.answeredBy present >>= fun a => (f a).answeredBy present := by
  induction x with
  | done a => rfl
  | failed e => rfl
  | ask key next ih => exact ih (present key)

/-- An outcome does not depend on the answers. -/
@[simp] theorem answeredBy_ofExcept (x : Except ε α) : (ofExcept x).answeredBy present = x := by
  cases x <;> rfl

/-- An attempt is answered by the outcome of what is attempted. -/
@[simp] theorem answeredBy_attempt (x : Inquiry ε α) :
    (x.attempt : Inquiry ε' (Except ε α)).answeredBy present = .ok (x.answeredBy present) := by
  induction x with
  | done a => rfl
  | failed e => rfl
  | ask key next ih => exact ih (present key)

/-- What is required has to be present. -/
@[simp] theorem answeredBy_require (key : MappingKey) (e : ε) :
    (require key e).answeredBy present = if present key then .ok () else .error e := by
  rw [require, answeredBy]
  cases present key <;> rfl

/-- What is refused must not be present. -/
@[simp] theorem answeredBy_refuse (key : MappingKey) (e : ε) :
    (refuse key e).answeredBy present = if present key then .error e else .ok () := by
  rw [refuse, answeredBy]
  cases present key <;> rfl

end Answers

/-! ## Answers from a growing registry -/

/-- **The inquiry leads to an outcome** by answers of which the positive ones are for known keys. -/
inductive Leads (known : MappingKey → Bool) : Inquiry ε α → Except ε α → Prop
  | done (a : α) : Leads known (.done a) (.ok a)
  | failed (e : ε) : Leads known (.failed e) (.error e)
  | yes {key : MappingKey} {next : Bool → Inquiry ε α} {x : Except ε α}
      (hknown : known key = true) (hnext : Leads known (next true) x) : Leads known (.ask key next) x
  | no {key : MappingKey} {next : Bool → Inquiry ε α} {x : Except ε α}
      (hnext : Leads known (next false) x) : Leads known (.ask key next) x

section Leads

variable {known : MappingKey → Bool} {x : Inquiry ε α} {f : α → Inquiry ε β} {a : α} {b : β}

/-- An inquiry without questions leads to its value only. -/
theorem Leads.of_pure {a' : α} (h : Leads known (pure a : Inquiry ε α) (.ok a')) : a = a' := by
  cases h
  rfl

/-- A sequence leads to success by way of its first part. -/
theorem Leads.of_bind (h : Leads known (x >>= f) (.ok b)) :
    ∃ a, Leads known x (.ok a) ∧ Leads known (f a) (.ok b) := by
  induction x with
  | done a => exact ⟨a, .done a, h⟩
  | failed e => cases h
  | ask key next ih =>
    cases h with
    | yes hknown hnext =>
      obtain ⟨a, hx, hf⟩ := ih true hnext
      exact ⟨a, .yes hknown hx, hf⟩
    | no hnext =>
      obtain ⟨a, hx, hf⟩ := ih false hnext
      exact ⟨a, .no hx, hf⟩

/-- An outcome leads to itself only. -/
theorem Leads.of_ofExcept {x : Except ε α} (h : Leads known (ofExcept x) (.ok a)) : x = .ok a := by
  cases x with
  | error e => cases h
  | ok a' =>
    cases h
    rfl

/-- An attempt leads to what the inquiry leads to. -/
theorem Leads.of_attempt {y : Except ε α}
    (h : Leads known (x.attempt : Inquiry ε' (Except ε α)) (.ok y)) : Leads known x y := by
  induction x with
  | done a =>
    cases h
    exact .done a
  | failed e =>
    cases h
    exact .failed e
  | ask key next ih =>
    cases h with
    | yes hknown hnext => exact .yes hknown (ih true hnext)
    | no hnext => exact .no (ih false hnext)

end Leads

/-! ## Strict inquiries -/

/-- **A negative answer is always the end**: after it the inquiry does not succeed any more. -/
def Strict : Inquiry ε α → Prop
  | done _ => True
  | failed _ => True
  | ask _ next => (next true).Strict ∧ ∀ known a, ¬ Leads known (next false) (.ok a)

/-- Strict inquiries one after another are strict. -/
theorem Strict.bind {x : Inquiry ε α} {f : α → Inquiry ε β} (hx : x.Strict)
    (hf : ∀ a, (f a).Strict) : (x >>= f).Strict := by
  induction x with
  | done a => exact hf a
  | failed e => exact trivial
  | ask key next ih =>
    refine ⟨ih true hx.1, fun known b h => ?_⟩
    obtain ⟨a, hnext, -⟩ := Leads.of_bind (x := next false) h
    exact hx.2 known a hnext

/-- To require a key is strict. -/
theorem strict_require (key : MappingKey) (e : ε) : (require key e).Strict :=
  ⟨trivial, fun _ _ h => by cases h⟩

/-- **What a strict inquiry leads to is what it gives with the known keys.** -/
theorem Strict.answeredBy_eq_ok {x : Inquiry ε α} (hx : x.Strict) {known : MappingKey → Bool} {a : α}
    (h : Leads known x (.ok a)) : x.answeredBy known = .ok a := by
  induction x with
  | done a' =>
    cases h
    rfl
  | failed e => cases h
  | ask key next ih =>
    cases h with
    | yes hknown hnext =>
      rw [answeredBy, hknown]
      exact ih true hx.1 hnext
    | no hnext => exact absurd hnext (hx.2 known a)

/-! ## Steps of an inquiry -/

/-- The second inquiry is what is left of the first one after some answers, of which the positive ones
are for known keys. -/
inductive Reaches (known : MappingKey → Bool) (x : Inquiry ε α) : Inquiry ε α → Prop
  | start : Reaches known x x
  | yes {key : MappingKey} {next : Bool → Inquiry ε α} (hreaches : Reaches known x (.ask key next))
      (hknown : known key = true) : Reaches known x (next true)
  | no {key : MappingKey} {next : Bool → Inquiry ε α} (hreaches : Reaches known x (.ask key next)) :
      Reaches known x (next false)

namespace Reaches

variable {known known' : MappingKey → Bool} {x y : Inquiry ε α}

/-- What is left leads to nothing but what the whole leads to. -/
theorem leads (h : Reaches known x y) {outcome : Except ε α} (hy : Leads known y outcome) :
    Leads known x outcome := by
  induction h with
  | start => exact hy
  | yes _ hknown ih => exact ih (.yes hknown hy)
  | no _ ih => exact ih (.no hy)

/-- What is reached with some known keys is reached with more of them. -/
theorem mono (hknown : ∀ key, known key = true → known' key = true) (h : Reaches known x y) :
    Reaches known' x y := by
  induction h with
  | start => exact .start
  | yes _ hkey ih => exact .yes ih (hknown _ hkey)
  | no _ ih => exact .no ih

/-- One answer from a registry with the known keys. -/
theorem answer {key : MappingKey} {next : Bool → Inquiry ε α} (h : Reaches known x (.ask key next)) :
    Reaches known x (next (known key)) := by
  cases hkey : known key with
  | true => exact .yes h hkey
  | false => exact .no h

end Reaches

end Inquiry

end ObjectMapping
