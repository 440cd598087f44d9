import ObjectMapping.Proofs.Conversion.Amendment
import ObjectMapping.Proofs.Conversion.Growth

/-! # Changes in place that further methods do not improve on

Further methods can make a change in place possible where there was none. They cannot if the types
are converted already, and if every method that changes objects in place comes with the one that
makes new ones: then the conversion found the one, so the change would have found the other.

* `Conversion.Convertible`: there is a conversion between two types, wherever it is written.
* **`MethodTable.Paired`** — the update methods of a larger table whose create methods a table has are
  in that table.
* **`Conversion.amend_paired`** — then a change in place that is possible with the larger table is
  possible with the smaller one. -/

namespace ObjectMapping

open Outcome

/-- Every update method of the second table that goes with a conversion by the first one is in the
first one. -/
def MethodTable.Paired (methods methods' : MethodTable) : Prop :=
  ∀ s t, methods' s t .update = true → s.same t = true ∨ methods s t .create = true →
    methods s t .update = true

namespace Conversion

variable {methods methods' : MethodTable} {source target s t : FieldType}

/-- There is a conversion between two types, whatever value it is for and at whatever depth. -/
def Convertible (methods : MethodTable) (source target : FieldType) : Prop :=
  ∀ value depth, ∃ code, express methods source value depth target = .ok code

/-- The positions of a tuple can be converted at another place if their types can. -/
theorem exists_expressAll {sources targets : List FieldType} {value : Expr} {position depth : Nat}
    {items : List Expr}
    (heach : ∀ target ∈ targets, ∀ source value depth code,
      express methods source value depth target = .ok code → Convertible methods source target)
    (h : expressAll methods sources value position depth targets = .ok items)
    (value' : Expr) (position' depth' : Nat) :
    ∃ items', expressAll methods sources value' position' depth' targets = .ok items' := by
  induction targets generalizing sources position position' items with
  | nil => exact ⟨[], expressAll_nil⟩
  | cons target targets ih =>
    cases sources with
    | nil => exact ⟨[], rfl⟩
    | cons source sources =>
      obtain ⟨item, rest, hitem, hrest, -⟩ := expressAll_cons_iff.mp h
      obtain ⟨item', hitem'⟩ := heach target List.mem_cons_self _ _ _ _ hitem
        (.index value' (.int position')) depth'
      obtain ⟨rest', hrest'⟩ := ih (fun other hmem => heach other (List.mem_cons_of_mem _ hmem))
        hrest (position' + 1)
      exact ⟨item' :: rest', expressAll_cons_iff.mpr ⟨item', rest', hitem', hrest', rfl⟩⟩

/-- **Whether there is a conversion depends on the types only.** -/
theorem convertible_of_express {value code : Expr} {depth : Nat}
    (h : express methods source value depth target = .ok code) :
    Convertible methods source target := by
  -- on the target type; names and depths change the code, not whether there is one
  induction target generalizing source value depth code with
  | any => exact fun value' depth' => ⟨value', express_any_iff.mpr rfl⟩
  | named t =>
    intro value' depth'
    obtain ⟨s, rfl, ⟨hsame, -⟩ | ⟨hother, hmethod, -⟩⟩ := express_named_iff.mp h
    · exact ⟨value', express_named_iff.mpr ⟨s, rfl, .inl ⟨hsame, rfl⟩⟩⟩
    · exact ⟨_, express_named_iff.mpr ⟨s, rfl, .inr ⟨hother, hmethod, rfl⟩⟩⟩
  | union members _ =>
    obtain ⟨-, hsource⟩ := express_union_iff.mp h
    exact fun value' depth' => ⟨value', express_union_iff.mpr ⟨rfl, hsource⟩⟩
  | list t ih =>
    intro value' depth'
    obtain ⟨s, element, rfl, helement, -⟩ := express_list_iff.mp h
    obtain ⟨element', helement'⟩ := ih helement (.var (loopVar "x" depth')) (depth' + 1)
    exact ⟨_, express_list_iff.mpr ⟨s, element', rfl, helement', rfl⟩⟩
  | set t ih =>
    intro value' depth'
    obtain ⟨s, element, rfl, helement, -⟩ := express_set_iff.mp h
    obtain ⟨element', helement'⟩ := ih helement (.var (loopVar "x" depth')) (depth' + 1)
    exact ⟨_, express_set_iff.mpr ⟨s, element', rfl, helement', rfl⟩⟩
  | dict tk tv ihkey ihvalue =>
    intro value' depth'
    obtain ⟨sk, sv, key, element, rfl, hkey, hvalue, -⟩ := express_dict_iff.mp h
    obtain ⟨key', hkey'⟩ := ihkey hkey (.var (loopVar "k" depth')) (depth' + 1)
    obtain ⟨element', hvalue'⟩ := ihvalue hvalue (.var (loopVar "v" depth')) (depth' + 1)
    exact ⟨_, express_dict_iff.mpr ⟨sk, sv, key', element', rfl, hkey', hvalue', rfl⟩⟩
  | tuple ts ih =>
    intro value' depth'
    obtain ⟨ss, items, rfl, hlength, hitems, -⟩ := express_tuple_iff.mp h
    obtain ⟨items', hitems'⟩ := exists_expressAll
      (fun target hmem _ _ _ _ hitem => ih target hmem hitem) hitems value' 0 (depth' + 1)
    exact ⟨_, express_tuple_iff.mpr ⟨ss, items', rfl, hlength, hitems', rfl⟩⟩
  | optional t ih =>
    intro value' depth'
    rcases express_optional_iff.mp h with ⟨s, inner, rfl, hinner, -⟩ | ⟨hpresent, hinner⟩
    · obtain ⟨inner', hinner'⟩ := ih hinner value' (depth' + 1)
      exact ⟨_, express_optional_iff.mpr (.inl ⟨s, inner', rfl, hinner', rfl⟩)⟩
    · obtain ⟨code', hcode'⟩ := ih hinner value' (depth' + 1)
      exact ⟨code', express_optional_iff.mpr (.inr ⟨hpresent, hcode'⟩)⟩

/-- Between optional types the types inside are converted. -/
theorem convertible_optional_iff :
    Convertible methods (.optional s) (.optional t) ↔ Convertible methods s t := by
  constructor
  · intro h
    obtain ⟨code, hcode⟩ := h .self 0
    rcases express_optional_iff.mp hcode with ⟨_, inner, heq, hinner, -⟩ | ⟨hpresent, -⟩
    · obtain rfl := FieldType.optional.inj heq
      exact convertible_of_express hinner
    · cases hpresent
  · intro h value depth
    obtain ⟨inner, hinner⟩ := h value (depth + 1)
    exact ⟨_, express_optional_iff.mpr (.inl ⟨s, inner, rfl, hinner, rfl⟩)⟩

/-- A value that is never absent is converted to an optional type as to the one inside. -/
theorem convertible_optional_of_present (hpresent : s.isOptional = false) :
    Convertible methods s (.optional t) ↔ Convertible methods s t := by
  constructor
  · intro h
    obtain ⟨code, hcode⟩ := h .self 0
    rcases express_optional_iff.mp hcode with ⟨_, _, rfl, -⟩ | ⟨-, hinner⟩
    · cases hpresent
    · exact convertible_of_express hinner
  · intro h value depth
    obtain ⟨code, hcode⟩ := h value (depth + 1)
    exact ⟨code, express_optional_iff.mpr (.inr ⟨hpresent, hcode⟩)⟩

/-- What is converted to a type is converted to the optional one. -/
theorem Convertible.to_optional (h : Convertible methods source target) :
    Convertible methods source (.optional target) := by
  induction target generalizing source with
  | optional t ih =>
    cases source with
    | optional s => exact convertible_optional_iff.mpr (ih (convertible_optional_iff.mp h))
    | _ => exact (convertible_optional_of_present rfl).mpr h
  | any =>
    cases source with
    | optional s => exact convertible_optional_iff.mpr fun value _ => ⟨value, express_any_iff.mpr rfl⟩
    | _ => exact (convertible_optional_of_present rfl).mpr h
  | _ =>
    -- no other type takes a value that may be absent
    cases source with
    | optional s =>
      obtain ⟨code, hcode⟩ := h .self 0
      simp [express] at hcode
    | _ => exact (convertible_optional_of_present rfl).mpr h

/-- What may be absent and is converted to a type is converted to it if it is there. -/
theorem Convertible.of_optional_source (h : Convertible methods (.optional s) target) :
    Convertible methods s target := by
  cases target with
  | any => exact fun value _ => ⟨value, express_any_iff.mpr rfl⟩
  | optional t => exact (convertible_optional_iff.mp h).to_optional
  | _ =>
    obtain ⟨code, hcode⟩ := h .self 0
    simp [express] at hcode

/-- **A change in place that is possible with more methods is possible already.** -/
theorem amend_paired (hpaired : methods.Paired methods') {value place : Expr} {depth : Nat}
    {change : Stmt} (hconvertible : Convertible methods source target)
    (h : amend methods' value place depth source target = .ok change) :
    ∃ change', amend methods value place depth source target = .ok change' := by
  -- along the recursion with more methods, which finds a method wherever it succeeds
  induction depth, source, target using amend.induct methods' generalizing change with
  | case1 depth s t hmethod =>
    obtain ⟨code, hcode⟩ := hconvertible value depth
    obtain ⟨_, heq, hfound⟩ := express_named_iff.mp hcode
    obtain rfl := FieldType.named.inj heq
    have hupdate := hpaired s t hmethod
      (hfound.imp (fun hsame => hsame.1) fun hother => hother.2.1)
    exact ⟨_, by rw [amend, if_pos hupdate]⟩
  | case2 depth s t hmethod =>
    rw [amend, if_neg hmethod] at h
    cases h
  | case3 depth s t ih =>
    rw [amend] at h ⊢
    obtain ⟨inner, hinner, -⟩ := bind_eq_ok.mp h
    obtain ⟨inner', hinner'⟩ := ih (convertible_optional_iff.mp hconvertible).to_optional hinner
    exact ⟨_, by rw [hinner', ok_bind]; rfl⟩
  | case4 depth s t hs ih =>
    rw [amend.eq_3 _ _ _ _ _ _ hs] at h ⊢
    obtain ⟨inner, hinner, -⟩ := bind_eq_ok.mp h
    have hconvertible' := (convertible_optional_of_present (isOptional_eq_false hs)).mp hconvertible
    obtain ⟨inner', hinner'⟩ := ih hconvertible' hinner
    obtain ⟨created, hcreated⟩ := hconvertible' value (depth + 1)
    exact ⟨_, by rw [hinner', ok_bind, hcreated]; rfl⟩
  | case5 depth source target hnamed hoptional htarget =>
    rw [amend.eq_4 _ _ _ _ _ _ htarget hnamed hoptional] at h
    cases h

end Conversion

end ObjectMapping
