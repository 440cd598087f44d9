import ObjectMapping.Proofs.Conversion.Amendment
import ObjectMapping.Proofs.Conversion.Rules
import ObjectMapping.Proofs.FieldType.Interchange

/-! # Conversions between interchangeable types

The rules for conversions look at the outer shapes of two types, at the handles of classes and at
the members of unions. None of this depends on the way in which a type is written, so conversions
and changes in place are found alike, and they are the same.

* **`Conversion.express_interchangeable`** — the expression does not depend on how types are written.
* **`Conversion.amend_interchangeable`** — neither does the statement that changes a value in place. -/

namespace ObjectMapping.Conversion

open Outcome FieldType

variable {names : Nat → String} {methods : MethodTable} {source source' target target' : FieldType}

/-! ## Expressions -/

/-- The positions of a tuple are converted alike if their types are. -/
theorem expressAll_of_interchangeable {sources sources' targets targets' : List FieldType}
    {value : Expr} {position depth : Nat} {items : List Expr}
    (hitems : ∀ target ∈ targets, ∀ {target' source source' value depth code},
      Interchangeable names source source' → Interchangeable names target target' →
        express methods source value depth target = .ok code →
          express methods source' value depth target' = .ok code)
    (hsources : List.Forall₂ (Interchangeable names) sources sources')
    (htargets : List.Forall₂ (Interchangeable names) targets targets')
    (h : expressAll methods sources value position depth targets = .ok items) :
    expressAll methods sources' value position depth targets' = .ok items := by
  induction htargets generalizing sources sources' position items with
  | nil =>
    rw [expressAll_nil] at h ⊢
    exact h
  | @cons target target' targets targets' htarget _ ih =>
    cases hsources with
    | nil => exact h
    | cons hsource hsources =>
      obtain ⟨item, rest, hitem, hrest, hcons⟩ := expressAll_cons_iff.mp h
      refine expressAll_cons_iff.mpr ⟨item, rest, ?_, ?_, hcons⟩
      · exact hitems target List.mem_cons_self hsource htarget hitem
      · exact ih (fun other hmem => hitems other (List.mem_cons_of_mem _ hmem)) hsources hrest

/-- A conversion is the same one between types that are written in another way. -/
theorem express_of_interchangeable {value code : Expr} {depth : Nat}
    (hsource : source.Interchangeable names source') (htarget : target.Interchangeable names target')
    (h : express methods source value depth target = .ok code) :
    express methods source' value depth target' = .ok code := by
  induction target generalizing source source' target' value depth code with
  | any =>
    obtain rfl := htarget.any_inv
    rw [express_any_iff] at h ⊢
    exact h
  | named t =>
    obtain rfl := htarget.named_inv
    obtain ⟨s, rfl, hcode⟩ := express_named_iff.mp h
    obtain rfl := hsource.named_inv
    exact express_named_iff.mpr ⟨s, rfl, hcode⟩
  | union members _ =>
    obtain ⟨members', rfl, hmembers⟩ := htarget.union_inv
    obtain ⟨hcode, hfound⟩ := express_union_iff.mp h
    refine express_union_iff.mpr ⟨hcode, ?_⟩
    rcases hfound with ⟨s, rfl, hmember⟩ | ⟨arms, rfl, hincluded⟩
    · obtain rfl := hsource.named_inv
      exact .inl ⟨s, rfl, any_same_named_of_counterparts hmembers hmember⟩
    · -- every arm of the other union is one of these arms, and these are all members
      obtain ⟨arms', rfl, -⟩ := hsource.union_inv
      obtain ⟨_, hshape, harms⟩ := hsource.symm.union_inv
      obtain rfl := FieldType.union.inj hshape
      exact .inr ⟨arms', rfl, included_of_counterparts harms hmembers hincluded⟩
  | list t ih =>
    obtain ⟨t', rfl, ht⟩ := htarget.list_inv
    obtain ⟨s, element, rfl, helement, hcode⟩ := express_list_iff.mp h
    obtain ⟨s', rfl, hs⟩ := hsource.list_inv
    exact express_list_iff.mpr ⟨s', element, rfl, ih hs ht helement, hcode⟩
  | set t ih =>
    obtain ⟨t', rfl, ht⟩ := htarget.set_inv
    obtain ⟨s, element, rfl, helement, hcode⟩ := express_set_iff.mp h
    obtain ⟨s', rfl, hs⟩ := hsource.set_inv
    exact express_set_iff.mpr ⟨s', element, rfl, ih hs ht helement, hcode⟩
  | dict tk tv ihkey ihvalue =>
    obtain ⟨tk', tv', rfl, htk, htv⟩ := htarget.dict_inv
    obtain ⟨sk, sv, key, element, rfl, hkey, hvalue, hcode⟩ := express_dict_iff.mp h
    obtain ⟨sk', sv', rfl, hsk, hsv⟩ := hsource.dict_inv
    exact express_dict_iff.mpr
      ⟨sk', sv', key, element, rfl, ihkey hsk htk hkey, ihvalue hsv htv hvalue, hcode⟩
  | tuple ts ih =>
    obtain ⟨ts', rfl, hts⟩ := htarget.tuple_inv
    obtain ⟨ss, items, rfl, hlength, hitems, hcode⟩ := express_tuple_iff.mp h
    obtain ⟨ss', rfl, hss⟩ := hsource.tuple_inv
    have hlength' : ss'.length = ts'.length := by rw [← hss.length_eq, hlength, hts.length_eq]
    refine express_tuple_iff.mpr ⟨ss', items, rfl, hlength', ?_, hcode⟩
    exact expressAll_of_interchangeable
      (fun target hmem _ _ _ _ _ _ hsource htarget => ih target hmem hsource htarget) hss hts hitems
  | optional t ih =>
    obtain ⟨t', rfl, ht⟩ := htarget.optional_inv
    rcases express_optional_iff.mp h with ⟨s, inner, rfl, hinner, hcode⟩ | ⟨hpresent, hcode⟩
    · obtain ⟨s', rfl, hs⟩ := hsource.optional_inv
      exact express_optional_iff.mpr (.inl ⟨s', inner, rfl, ih hs ht hinner, hcode⟩)
    · have hpresent' : source'.isOptional = false := hsource.isOptional_eq.trans hpresent
      exact express_optional_iff.mpr (.inr ⟨hpresent', ih hsource ht hcode⟩)

/-- **The expression does not depend on how the types are written.** -/
theorem express_interchangeable (methods : MethodTable)
    (hsource : source.Interchangeable names source')
    (htarget : target.Interchangeable names target') (value : Expr) (depth : Nat) :
    Parallel (· = ·) (express methods source value depth target)
      (express methods source' value depth target') :=
  parallel_of_ok (fun _ => express_of_interchangeable hsource htarget)
    fun _ => express_of_interchangeable hsource.symm htarget.symm

/-! ## Changes in place -/

/-- A change in place is the same one between types that are written in another way. -/
theorem amend_of_interchangeable {value place : Expr} {depth : Nat} {change : Stmt}
    (hsource : source.Interchangeable names source') (htarget : target.Interchangeable names target')
    (h : amend methods value place depth source target = .ok change) :
    amend methods value place depth source' target' = .ok change := by
  induction depth, source, target using amend.induct methods
    generalizing source' target' change with
  | case1 depth s t hmethod =>
    obtain rfl := hsource.named_inv
    obtain rfl := htarget.named_inv
    exact h
  | case2 depth s t hmethod =>
    rw [amend, if_neg hmethod] at h
    cases h
  | case3 depth s t ih =>
    obtain ⟨s', rfl, hs⟩ := hsource.optional_inv
    obtain ⟨t', rfl, -⟩ := htarget.optional_inv
    rw [amend] at h ⊢
    obtain ⟨inner, hinner, hchange⟩ := bind_eq_ok.mp h
    exact bind_eq_ok.mpr ⟨inner, ih hs htarget hinner, hchange⟩
  | case4 depth s t hs ih =>
    obtain ⟨t', rfl, ht⟩ := htarget.optional_inv
    have hpresent : source'.isOptional = false := hsource.isOptional_eq.trans (isOptional_eq_false hs)
    have hs' : ∀ inner, source' = .optional inner → False := by
      rintro inner rfl
      cases hpresent
    rw [amend.eq_3 _ _ _ _ _ _ hs] at h
    rw [amend.eq_3 _ _ _ _ _ _ hs']
    obtain ⟨inner, hinner, hchange⟩ := bind_eq_ok.mp h
    refine bind_eq_ok.mpr ⟨inner, ih hsource ht hinner, ?_⟩
    -- the new object for an empty place is made by a conversion
    split at hchange
    · next created hcreated =>
      rw [express_of_interchangeable hsource ht hcreated]
      exact hchange
    · cases hchange
  | case5 depth source target hnamed hoptional hother =>
    rw [amend.eq_4 _ _ _ _ _ _ hother hnamed hoptional] at h
    cases h

/-- **The change in place does not depend on how the types are written.** -/
theorem amend_interchangeable (methods : MethodTable)
    (hsource : source.Interchangeable names source')
    (htarget : target.Interchangeable names target') (value place : Expr) (depth : Nat) :
    Parallel (· = ·) (amend methods value place depth source target)
      (amend methods value place depth source' target') :=
  parallel_of_ok (fun _ => amend_of_interchangeable hsource htarget)
    fun _ => amend_of_interchangeable hsource.symm htarget.symm

end ObjectMapping.Conversion
