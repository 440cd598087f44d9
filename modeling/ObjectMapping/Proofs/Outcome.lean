import Mathlib.Data.List.Forall2
import Mathlib.Data.List.Perm.Basic
import ObjectMapping.Error

/-! # Outcomes

Every operation of the library that can fail answers with an `Except`. These are the laws of
such outcomes that the theory of mappings rests on.

* `Outcome.bind_eq_ok` takes a successful computation apart.
* `Outcome.Meets P Q x` says that the outcome `x` is a value with `Q` or an error with `P`; it is
  passed on by every way to put computations together.
* `Outcome.Agree R x y` says that `x` and `y` are values related by `R` or the same error, and
  `Outcome.Parallel R x y` that they are values related by `R` or any errors. -/

namespace ObjectMapping.Outcome

variable {ε α β : Type}

/-- After a success the computation goes on with its value. -/
@[simp] theorem ok_bind (a : α) (f : α → Except ε β) :
    (Except.ok a >>= f : Except ε β) = f a := rfl

/-- After a failure the computation ends. -/
@[simp] theorem error_bind (e : ε) (f : α → Except ε β) :
    (Except.error e >>= f : Except ε β) = .error e := rfl

/-- To return a value is to succeed with it. -/
@[simp] theorem pure_eq_ok (a : α) : (pure a : Except ε α) = .ok a := rfl

/-- A sequence succeeds exactly if its first part does and what follows does on its value. -/
theorem bind_eq_ok {x : Except ε α} {f : α → Except ε β} {b : β} :
    (x >>= f) = .ok b ↔ ∃ a, x = .ok a ∧ f a = .ok b := by
  cases x with
  | error e => simp
  | ok a => simp

/-- A changed result comes from a result. -/
theorem map_eq_ok {x : Except ε α} {f : α → β} {b : β} :
    x.map f = .ok b ↔ ∃ a, x = .ok a ∧ f a = b := by
  cases x with
  | error e => simp [Except.map]
  | ok a => simp [Except.map]

/-- A success has a value. -/
theorem isOk_iff_exists {x : Except ε α} : x.isOk = true ↔ ∃ a, x = .ok a := by
  cases x <;> simp [Except.isOk, Except.toBool]

/-- A success is the value that it has. -/
theorem eq_ok_getD {x : Except ε α} (h : x.isOk = true) (other : α) :
    x = .ok (x.toOption.getD other) := by
  obtain ⟨a, rfl⟩ := isOk_iff_exists.mp h
  rfl

/-- Two functions that agree on the elements of a list give the same list. -/
theorem mapM_congr {f g : α → Except ε β} {items : List α}
    (h : ∀ item ∈ items, f item = g item) : items.mapM f = items.mapM g := by
  induction items with
  | nil => rfl
  | cons item rest ih =>
    have hrest := ih fun other hmem => h other (List.mem_cons_of_mem _ hmem)
    rw [List.mapM_cons, List.mapM_cons, h item List.mem_cons_self, hrest]

/-- A list is computed exactly if every element is. -/
theorem mapM_eq_ok {f : α → Except ε β} {items : List α} {results : List β} :
    items.mapM f = .ok results ↔ List.Forall₂ (fun item b => f item = .ok b) items results := by
  induction items generalizing results with
  | nil =>
    rw [List.mapM_nil, pure_eq_ok, Except.ok.injEq, List.forall₂_nil_left_iff, eq_comm]
  | cons item rest ih =>
    rw [List.mapM_cons, bind_eq_ok, List.forall₂_cons_left_iff]
    constructor
    · rintro ⟨b, hitem, htail⟩
      obtain ⟨bs, hrest, hcons⟩ := bind_eq_ok.mp htail
      exact ⟨b, bs, hitem, ih.mp hrest, (Except.ok.inj hcons).symm⟩
    · rintro ⟨b, bs, hitem, hrest, rfl⟩
      exact ⟨b, hitem, bind_eq_ok.mpr ⟨bs, ih.mpr hrest, rfl⟩⟩

/-- A list fails to be computed for the first of its elements that does. -/
theorem mapM_eq_error {f : α → Except ε β} {items : List α} {e : ε} :
    items.mapM f = .error e ↔ ∃ before item after, items = before ++ item :: after ∧
      (∀ other ∈ before, ∃ b, f other = .ok b) ∧ f item = .error e := by
  induction items with
  | nil => simp
  | cons first rest ih =>
    rw [List.mapM_cons]
    constructor
    · intro h
      cases hfirst : f first with
      | error e' =>
        rw [hfirst] at h
        obtain rfl : e' = e := Except.error.inj h
        exact ⟨[], first, rest, rfl, nofun, hfirst⟩
      | ok b =>
        have hrest : rest.mapM f = .error e := by
          rw [hfirst, ok_bind] at h
          cases hrest : rest.mapM f with
          | error e' => rwa [hrest] at h
          | ok bs =>
            rw [hrest] at h
            cases h
        obtain ⟨before, item, after, rfl, hbefore, hitem⟩ := ih.mp hrest
        exact ⟨first :: before, item, after, rfl, List.forall_mem_cons.mpr ⟨⟨b, hfirst⟩, hbefore⟩,
          hitem⟩
    · rintro ⟨before, item, after, hsplit, hbefore, hitem⟩
      cases before with
      | nil =>
        obtain ⟨rfl, rfl⟩ := List.cons.inj hsplit
        rw [hitem]
        rfl
      | cons other before =>
        obtain ⟨rfl, rfl⟩ := List.cons.inj hsplit
        obtain ⟨⟨b, hfirst⟩, hbefore⟩ := List.forall_mem_cons.mp hbefore
        rw [hfirst, ih.mpr ⟨before, item, after, rfl, hbefore, hitem⟩]
        rfl

/-- A list is computed if every element is. -/
theorem exists_mapM_eq_ok {f : α → Except ε β} {items : List α}
    (h : ∀ item ∈ items, ∃ b, f item = .ok b) : ∃ results, items.mapM f = .ok results := by
  induction items with
  | nil => exact ⟨[], rfl⟩
  | cons item rest ih =>
    obtain ⟨b, hb⟩ := h item List.mem_cons_self
    obtain ⟨bs, hbs⟩ := ih fun other hmem => h other (List.mem_cons_of_mem _ hmem)
    exact ⟨b :: bs, by rw [List.mapM_cons, hb, ok_bind, hbs]; rfl⟩

/-! ## Outcomes that meet expectations -/

/-- The outcome is a value with `Q` or an error with `P`. -/
def Meets (P : ε → Prop) (Q : α → Prop) : Except ε α → Prop
  | .ok a => Q a
  | .error e => P e

section Meets

variable {P : ε → Prop} {Q : α → Prop} {R : β → Prop}

/-- What meets a condition meets a weaker one. -/
theorem Meets.mono {Q' : α → Prop} {x : Except ε α} (h : Meets P Q x) (himp : ∀ a, Q a → Q' a) :
    Meets P Q' x := by
  cases x with
  | error e => exact h
  | ok a => exact himp a h

/-- An outcome for which there is no error is a value. -/
theorem Meets.exists_eq_ok {x : Except ε α} (h : Meets (fun _ => False) Q x) :
    ∃ a, x = .ok a ∧ Q a := by
  cases x with
  | error e => exact h.elim
  | ok a => exact ⟨a, rfl, h⟩

/-- A sequence meets what its second part does on the values that the first one may have. -/
theorem Meets.bind {x : Except ε α} {f : α → Except ε β} (hx : Meets P Q x)
    (hf : ∀ a, Q a → Meets P R (f a)) : Meets P R (x >>= f) := by
  cases x with
  | error e => exact hx
  | ok a => exact hf a hx

/-- A list that is computed element by element meets what its elements do. -/
theorem meets_mapM {f : α → Except ε β} {items : List α}
    (h : ∀ item ∈ items, Meets P (fun _ => True) (f item)) :
    Meets P (fun _ => True) (items.mapM f) := by
  induction items with
  | nil => exact trivial
  | cons item rest ih =>
    rw [List.mapM_cons]
    refine (h item List.mem_cons_self).bind ?_
    intro b _
    exact (ih fun other hmem => h other (List.mem_cons_of_mem _ hmem)).bind fun bs _ => trivial

/-- A fold meets an invariant that its steps keep. -/
theorem meets_foldlM {σ : Type} {I : σ → Prop} {f : σ → α → Except ε σ} {items : List α} {state : σ}
    (hstep : ∀ item ∈ items, ∀ state, I state → Meets P I (f state item)) (hstate : I state) :
    Meets P I (items.foldlM f state) := by
  induction items generalizing state with
  | nil => exact hstate
  | cons item rest ih =>
    -- the first step hands the invariant on to the rest of the fold
    rw [List.foldlM_cons]
    refine (hstep item List.mem_cons_self state hstate).bind ?_
    intro next hnext
    exact ih (fun other hmem => hstep other (List.mem_cons_of_mem _ hmem)) hnext

end Meets

/-! ## Outcomes that agree -/

/-- Both outcomes are values related by `R`, or both are errors related by `E`. -/
def Related (E : ε → ε → Prop) (R : α → β → Prop) : Except ε α → Except ε β → Prop
  | .ok a, .ok b => R a b
  | .error e, .error e' => E e e'
  | _, _ => False

/-- Both outcomes are values, which are related, or both are the same error. -/
abbrev Agree (R : α → β → Prop) : Except ε α → Except ε β → Prop := Related (· = ·) R

/-- Both outcomes are values, which are related, or both are errors. -/
abbrev Parallel (R : α → β → Prop) : Except ε α → Except ε β → Prop := Related (fun _ _ => True) R

section Related

variable {γ δ : Type} {E : ε → ε → Prop} {R : α → β → Prop} {S : γ → δ → Prop} {x : Except ε α}
  {y : Except ε β}

/-- An outcome agrees with itself as far as its value does. -/
theorem related_self {R : α → α → Prop} (hE : ∀ e, E e e) (h : ∀ a, x = .ok a → R a a) :
    Related E R x x := by
  cases x with
  | error e => exact hE e
  | ok a => exact h a rfl

/-- Related outcomes are related in a weaker way. -/
theorem Related.mono {R' : α → β → Prop} (h : Related E R x y)
    (himp : ∀ a b, x = .ok a → y = .ok b → R a b → R' a b) : Related E R' x y := by
  cases x <;> cases y
  · exact h
  · exact h
  · exact h
  · exact himp _ _ rfl rfl h

/-- Related outcomes are related the other way around. -/
theorem Related.symm {E' : ε → ε → Prop} {R' : β → α → Prop} (h : Related E R x y)
    (hE : ∀ e e', E e e' → E' e' e) (hR : ∀ a b, R a b → R' b a) : Related E' R' y x := by
  cases x <;> cases y
  · exact hE _ _ h
  · exact h
  · exact h
  · exact hR _ _ h

/-- Outcomes are related across one in between. -/
theorem Related.trans {R' : β → γ → Prop} {R'' : α → γ → Prop} {z : Except ε γ}
    (h : Related E R x y) (h' : Related E R' y z) (hE : ∀ e e' e'', E e e' → E e' e'' → E e e'')
    (hR : ∀ a b c, R a b → R' b c → R'' a c) : Related E R'' x z := by
  cases x <;> cases y <;> cases z
  · exact hE _ _ _ h h'
  · exact h'
  · exact h.elim
  · exact h.elim
  · exact h.elim
  · exact h.elim
  · exact h'
  · exact hR _ _ _ h h'

/-- Outcomes whose errors are related in some way are both values or both errors. -/
theorem Related.parallel (h : Related E R x y) : Parallel R x y := by
  cases x <;> cases y
  · trivial
  · exact h
  · exact h
  · exact h

/-- Two sequences agree if their first parts do and what follows does on related values. -/
theorem Related.bind {f : α → Except ε γ} {g : β → Except ε δ} (h : Related E R x y)
    (hfg : ∀ a b, R a b → Related E S (f a) (g b)) : Related E S (x >>= f) (y >>= g) := by
  cases x <;> cases y
  · exact h
  · exact h.elim
  · exact h.elim
  · exact hfg _ _ h

/-- Related outcomes are so after a change of both results. -/
theorem Related.map {f : α → γ} {g : β → δ} (h : Related E R x y)
    (hfg : ∀ a b, R a b → S (f a) (g b)) : Related E S (x.map f) (y.map g) := by
  cases x <;> cases y
  · exact h
  · exact h
  · exact h
  · exact hfg _ _ h

/-- Lists are computed alike if their elements are. -/
theorem related_mapM {f : α → Except ε γ} {g : β → Except ε δ} {items : List α} {others : List β}
    (h : List.Forall₂ (fun a b => Related E S (f a) (g b)) items others) :
    Related E (List.Forall₂ S) (items.mapM f) (others.mapM g) := by
  induction h with
  | nil => exact List.Forall₂.nil
  | cons hitem _ ih =>
    rw [List.mapM_cons, List.mapM_cons]
    refine hitem.bind fun c d hcd => ih.bind fun cs ds hrest => ?_
    exact List.Forall₂.cons hcd hrest

/-- Outcomes that have every success in common are the same success or two failures. -/
theorem parallel_of_ok {x y : Except ε α} (h : ∀ a, x = .ok a → y = .ok a)
    (h' : ∀ a, y = .ok a → x = .ok a) : Parallel (· = ·) x y := by
  cases hx : x with
  | ok a =>
    rw [h a hx]
    rfl
  | error e =>
    cases hy : y with
    | ok a =>
      rw [h' a hy] at hx
      cases hx
    | error e' => trivial

/-- A value is related to a value. -/
theorem Related.exists_eq_ok {a : α} (h : Related E R x y) (hx : x = .ok a) :
    ∃ b, y = .ok b ∧ R a b := by
  subst hx
  cases y with
  | error e => exact h.elim
  | ok b => exact ⟨b, rfl, h⟩

/-- Outcomes that have every success in common are either the same success or two failures. -/
theorem Related.eq_ok_or_error {x y : Except ε α} (h : Parallel (· = ·) x y) :
    (∃ a, x = .ok a ∧ y = .ok a) ∨ ∃ e e', x = .error e ∧ y = .error e' := by
  cases x <;> cases y
  · exact .inr ⟨_, _, rfl, rfl⟩
  · exact h.elim
  · exact h.elim
  · obtain rfl := h
    exact .inl ⟨_, rfl, rfl⟩

/-- Where related values lead to the same outcome, so do outcomes that agree. -/
theorem Related.bind_eq {f : α → Except ε γ} {g : β → Except ε γ} (h : Agree R x y)
    (hfg : ∀ a b, R a b → f a = g b) : x >>= f = y >>= g := by
  cases x <;> cases y
  · exact congrArg Except.error h
  · exact h.elim
  · exact h.elim
  · exact hfg _ _ h

end Related

/-! ## Lists -/

/-- Two folds agree if their steps agree on the elements of the list. -/
theorem foldlM_congr {σ : Type} {f g : σ → α → Except ε σ} {items : List α}
    (h : ∀ item ∈ items, ∀ state, f state item = g state item) (state : σ) :
    items.foldlM f state = items.foldlM g state := by
  induction items generalizing state with
  | nil => rfl
  | cons item rest ih =>
    rw [List.foldlM_cons, List.foldlM_cons, h item List.mem_cons_self]
    simp only [ih fun other hmem => h other (List.mem_cons_of_mem _ hmem)]

/-- In lists that stand side by side every element has a counterpart. -/
theorem exists_of_forall₂ {R : α → β → Prop} {items : List α} {others : List β} {item : α}
    (h : List.Forall₂ R items others) (hmem : item ∈ items) : ∃ other ∈ others, R item other := by
  induction h with
  | nil => simp at hmem
  | @cons a b as bs hhead _ ih =>
    rcases List.mem_cons.mp hmem with rfl | hrest
    · exact ⟨b, List.mem_cons_self, hhead⟩
    · obtain ⟨other, hother, hR⟩ := ih hrest
      exact ⟨other, List.mem_cons_of_mem _ hother, hR⟩

/-- Where every element has a counterpart, there is a list of them. -/
theorem exists_forall₂ {R : α → β → Prop} {items : List α} (h : ∀ item ∈ items, ∃ b, R item b) :
    ∃ others, List.Forall₂ R items others := by
  induction items with
  | nil => exact ⟨[], .nil⟩
  | cons item rest ih =>
    rw [List.forall_mem_cons] at h
    obtain ⟨⟨b, hb⟩, hrest⟩ := h
    obtain ⟨others, hothers⟩ := ih hrest
    exact ⟨b :: others, .cons hb hothers⟩

/-- Lists that both stand beside a third one stand beside each other. -/
theorem forall₂_of_forall₂_left {γ : Type} {R : α → β → Prop} {S : α → γ → Prop}
    {T : β → γ → Prop} {as : List α} {bs : List β} {cs : List γ} (h : List.Forall₂ R as bs)
    (h' : List.Forall₂ S as cs) (himp : ∀ a ∈ as, ∀ b c, R a b → S a c → T b c) :
    List.Forall₂ T bs cs := by
  induction h generalizing cs with
  | nil =>
    cases h'
    exact .nil
  | cons hab _ ih =>
    cases h' with
    | cons hac hrest =>
      refine .cons (himp _ List.mem_cons_self _ _ hab hac) (ih hrest ?_)
      exact fun a ha => himp a (List.mem_cons_of_mem _ ha)

/-- In a list of the same length there is an element in the same place. -/
theorem exists_getElem?_of_length_eq {items : List α} {others : List β}
    (hlength : items.length = others.length) {i : Nat} {item : α} (h : items[i]? = some item) :
    ∃ other, others[i]? = some other := by
  have hlt := (List.getElem?_eq_some_iff.mp h).1
  exact ⟨_, List.getElem?_eq_getElem (hlength ▸ hlt)⟩

/-- Lists stand side by side if they are as long and their elements do in every place. -/
theorem forall₂_iff_getElem? {R : α → β → Prop} {items : List α} {others : List β} :
    List.Forall₂ R items others ↔ items.length = others.length ∧
      ∀ (i : Nat) a b, items[i]? = some a → others[i]? = some b → R a b := by
  rw [List.forall₂_iff_get]
  refine and_congr_right fun hlength => ⟨fun h i a b ha hb => ?_, fun h i hi hi' => ?_⟩
  · obtain ⟨hi, rfl⟩ := List.getElem?_eq_some_iff.mp ha
    obtain ⟨hi', rfl⟩ := List.getElem?_eq_some_iff.mp hb
    exact h i hi hi'
  · exact h i _ _ (List.getElem?_eq_getElem hi) (List.getElem?_eq_getElem hi')

/-- What is computed for a list is computed for one of its elements. -/
theorem exists_mem_of_mem_mapM {f : α → Except ε β} {items : List α} {results : List β} {b : β}
    (h : items.mapM f = .ok results) (hmem : b ∈ results) : ∃ item ∈ items, f item = .ok b :=
  exists_of_forall₂ (R := fun b item => f item = .ok b) (mapM_eq_ok.mp h).flip hmem

/-- A list in another order leads to the same results in another order. -/
theorem perm_of_mapM_eq_ok {f : α → Except ε β} {items others : List α} {results results' : List β}
    (hperm : items.Perm others) (h : items.mapM f = .ok results)
    (h' : others.mapM f = .ok results') : results.Perm results' := by
  have hunique : Relator.RightUnique fun item b => f item = .ok b :=
    fun item b b' hb hb' => Except.ok.inj (hb.symm.trans hb')
  exact List.rel_perm_imp hunique (mapM_eq_ok.mp h) (mapM_eq_ok.mp h') hperm

end ObjectMapping.Outcome
