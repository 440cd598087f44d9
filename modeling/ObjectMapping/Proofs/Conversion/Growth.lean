import ObjectMapping.Proofs.Conversion.Rules

/-! # Conversions in growing tables of methods

Whether there is a conversion depends on the methods that exist, but what the conversion is does not:
a conversion that is possible with some methods is the same one when there are more. The same holds
for changes in place.

* **`MethodTable.Within`** — one table has all methods of another one.
* **`Conversion.express_mono`** — an expression stays what it is.
* **`Conversion.amend_mono`** — a statement stays what it is. -/

namespace ObjectMapping

open Outcome

/-- Every method of one table is one of another table. -/
def MethodTable.Within (methods methods' : MethodTable) : Prop :=
  ∀ s t d, methods s t d = true → methods' s t d = true

namespace Conversion

variable {methods methods' : MethodTable}

/-- The positions of a tuple are converted as before if their types are. -/
theorem expressAll_mono {sources targets : List FieldType} {value : Expr} {position depth : Nat}
    {items : List Expr}
    (hitems : ∀ target ∈ targets, ∀ source value depth code,
      express methods source value depth target = .ok code →
        express methods' source value depth target = .ok code)
    (h : expressAll methods sources value position depth targets = .ok items) :
    expressAll methods' sources value position depth targets = .ok items := by
  induction targets generalizing sources position items with
  | nil =>
    rw [expressAll_nil] at h ⊢
    exact h
  | cons target targets ih =>
    cases sources with
    | nil =>
      rw [expressAll] at h ⊢
      · exact h
      · simp
      · simp
    | cons source sources =>
      obtain ⟨item, rest, hitem, hrest, hcons⟩ := expressAll_cons_iff.mp h
      refine expressAll_cons_iff.mpr ⟨item, rest, ?_, ?_, hcons⟩
      · exact hitems target List.mem_cons_self _ _ _ _ hitem
      · exact ih (fun other hmem => hitems other (List.mem_cons_of_mem _ hmem)) hrest

/-- **An expression stays what it is** when there are more methods. -/
theorem express_mono (hmethods : methods.Within methods') {source target : FieldType} {value : Expr}
    {depth : Nat} {code : Expr} (h : express methods source value depth target = .ok code) :
    express methods' source value depth target = .ok code := by
  -- on the target type; only between classes methods are looked up, and what is found stays
  induction target generalizing source value depth code with
  | any =>
    rw [express_any_iff] at h ⊢
    exact h
  | named t =>
    rw [express_named_iff] at h ⊢
    obtain ⟨s, hsource, hsame | ⟨hother, hmethod, hcall⟩⟩ := h
    · exact ⟨s, hsource, .inl hsame⟩
    · exact ⟨s, hsource, .inr ⟨hother, hmethods s t .create hmethod, hcall⟩⟩
  | union members _ =>
    rw [express_union_iff] at h ⊢
    exact h
  | list t ih =>
    rw [express_list_iff] at h ⊢
    obtain ⟨s, element, hsource, helement, hcode⟩ := h
    exact ⟨s, element, hsource, ih helement, hcode⟩
  | set t ih =>
    rw [express_set_iff] at h ⊢
    obtain ⟨s, element, hsource, helement, hcode⟩ := h
    exact ⟨s, element, hsource, ih helement, hcode⟩
  | dict tk tv ihkey ihvalue =>
    rw [express_dict_iff] at h ⊢
    obtain ⟨sk, sv, key, element, hsource, hkey, hvalue, hcode⟩ := h
    exact ⟨sk, sv, key, element, hsource, ihkey hkey, ihvalue hvalue, hcode⟩
  | tuple ts ih =>
    rw [express_tuple_iff] at h ⊢
    obtain ⟨ss, items, hsource, hlength, hitems, hcode⟩ := h
    refine ⟨ss, items, hsource, hlength, ?_, hcode⟩
    exact expressAll_mono (fun target hmem _ _ _ _ hitem => ih target hmem hitem) hitems
  | optional t ih =>
    rw [express_optional_iff] at h ⊢
    rcases h with ⟨s, inner, hsource, hinner, hcode⟩ | ⟨hpresent, hinner⟩
    · exact .inl ⟨s, inner, hsource, ih hinner, hcode⟩
    · exact .inr ⟨hpresent, ih hinner⟩

/-- **A change in place stays what it is** when there are more methods. -/
theorem amend_mono (hmethods : methods.Within methods') {source target : FieldType}
    {value place : Expr} {depth : Nat} {change : Stmt}
    (h : amend methods value place depth source target = .ok change) :
    amend methods' value place depth source target = .ok change := by
  induction depth, source, target using amend.induct methods generalizing change with
  | case1 depth s t hmethod =>
    rw [amend, if_pos hmethod] at h
    rw [amend, if_pos (hmethods s t .update hmethod)]
    exact h
  | case2 depth s t hmethod =>
    rw [amend, if_neg hmethod] at h
    cases h
  | case3 depth s t ih =>
    rw [amend] at h ⊢
    obtain ⟨inner, hinner, hchange⟩ := bind_eq_ok.mp h
    exact bind_eq_ok.mpr ⟨inner, ih hinner, hchange⟩
  | case4 depth s t hs ih =>
    rw [amend.eq_3 _ _ _ _ _ _ hs] at h ⊢
    obtain ⟨inner, hinner, hchange⟩ := bind_eq_ok.mp h
    refine bind_eq_ok.mpr ⟨inner, ih hinner, ?_⟩
    split at hchange
    · next created hcreated =>
      rw [express_mono hmethods hcreated]
      exact hchange
    · cases hchange
  | case5 depth source target hnamed hoptional htarget =>
    rw [amend.eq_4 _ _ _ _ _ _ htarget hnamed hoptional] at h
    cases h

end Conversion

end ObjectMapping
