import ObjectMapping.Proofs.Conversion.Amendment
import ObjectMapping.Proofs.Conversion.Rules
import ObjectMapping.Proofs.Registry.Order

/-! # Calls in generated code

The code of a method calls other methods on parts of its source. The class of such a part is known
from the declared types of the fields, and with the class and the direction that the call names it
tells which mapping will be looked up.

* **`Expr.HasType`** — the static type of an expression that looks into the source.
* **`Expr.Linked`**, **`Stmt.Linked`** — there is a mapping for every call in the code, between the
  static class of the receiver and the class that is called for.
* **`Conversion.linked_of_express`**, **`Conversion.linked_of_amended`** — the code of a conversion is
  linked to the methods that it was made with. -/

namespace ObjectMapping

open Outcome

/-- The static types of loop variables, innermost first. -/
abbrev TypeScope := List (String × FieldType)

/-- **The static type of an expression** that looks into an object of the described class. Where an
expression of an optional type is known to be there, it is read as one of the type inside. -/
inductive Expr.HasType (d : Descriptor) : TypeScope → Expr → FieldType → Prop
  | field {scope : TypeScope} {name : String} {field : FieldDescriptor}
      (hfield : d.field? name = some field) : HasType d scope (.attr .self name) field.type
  | loopVar {scope : TypeScope} {name : String} {type : FieldType}
      (htype : scope.lookup name = some type) : HasType d scope (.var name) type
  | position {scope : TypeScope} {e : Expr} {types : List FieldType} {type : FieldType}
      {position : Nat} (he : HasType d scope e (.tuple types))
      (htype : types[position]? = some type) : HasType d scope (.index e (.int position)) type
  | present {scope : TypeScope} {e : Expr} {inner : FieldType}
      (he : HasType d scope e (.optional inner)) : HasType d scope e inner

/-- **There is a mapping for every call in an expression**, under the key of the static class of the
receiver, the class that is called for and the direction. -/
inductive Expr.Linked (d : Descriptor) (present : MappingKey → Bool) : TypeScope → Expr → Prop
  | var (scope : TypeScope) (name : String) : Linked d present scope (.var name)
  | const (scope : TypeScope) (value : Value) : Linked d present scope (.const value)
  | attr {scope : TypeScope} {object : Expr} {name : String}
      (hobject : Linked d present scope object) : Linked d present scope (.attr object name)
  | index {scope : TypeScope} {object key : Expr} (hobject : Linked d present scope object)
      (hkey : Linked d present scope key) : Linked d present scope (.index object key)
  | compare {scope : TypeScope} {left right : Expr} {comparison : Comparison}
      (hleft : Linked d present scope left) (hright : Linked d present scope right) :
      Linked d present scope (.compare left comparison right)
  | ternary {scope : TypeScope} {condition whenTrue whenFalse : Expr}
      (hcondition : Linked d present scope condition)
      (htrue : Linked d present scope whenTrue)
      (hfalse : Linked d present scope whenFalse) :
      Linked d present scope (.ternary condition whenTrue whenFalse)
  | listOf {scope : TypeScope} {element iterable : Expr} {x : String} {item : FieldType}
      (hiterable : Linked d present scope iterable)
      (htype : iterable.HasType d scope (.list item))
      (helement : Linked d present ((x, item) :: scope) element) :
      Linked d present scope (.listOf element x iterable)
  | setOf {scope : TypeScope} {element iterable : Expr} {x : String} {item : FieldType}
      (hiterable : Linked d present scope iterable)
      (htype : iterable.HasType d scope (.set item))
      (helement : Linked d present ((x, item) :: scope) element) :
      Linked d present scope (.setOf element x iterable)
  | dictOf {scope : TypeScope} {key value iterable : Expr} {k v : String}
      {keyType valueType : FieldType} (hiterable : Linked d present scope iterable)
      (htype : iterable.HasType d scope (.dict keyType valueType))
      (hkey : Linked d present ((v, valueType) :: (k, keyType) :: scope) key)
      (hvalue : Linked d present ((v, valueType) :: (k, keyType) :: scope) value) :
      Linked d present scope (.dictOf key value k v iterable)
  | tuple {scope : TypeScope} {items : List Expr}
      (hitems : ∀ e ∈ items, Linked d present scope e) :
      Linked d present scope (.tuple items)
  | method {scope : TypeScope} {receiver : Expr} {key : MethodKey} {args : List Expr}
      {s : ClassHandle} (hreceiver : Linked d present scope receiver)
      (htype : receiver.HasType d scope (.named s))
      (hpresent : present (.of s key.target key.direction) = true)
      (hargs : ∀ e ∈ args, Linked d present scope e) :
      Linked d present scope (.method receiver key args)
  | factory {scope : TypeScope} {slot : Nat} {args : List Expr}
      (hargs : ∀ e ∈ args, Linked d present scope e) :
      Linked d present scope (.factory slot args)
  | construct (scope : TypeScope) (target : ClassHandle) (strategy : Strategy) :
      Linked d present scope (.construct target strategy)
  | isSet {scope : TypeScope} {object : Expr} {field : String}
      (hobject : Linked d present scope object) : Linked d present scope (.isSet object field)

/-- **There is a mapping for every call in a statement.** -/
inductive Stmt.Linked (d : Descriptor) (present : MappingKey → Bool) : Stmt → Prop
  | assign {place value : Expr} (hplace : place.Linked d present [])
      (hvalue : value.Linked d present []) : Linked d present (.assign place value)
  | perform {e : Expr} (he : e.Linked d present []) : Linked d present (.perform e)
  | branch {condition : Expr} {whenTrue whenFalse : List Stmt}
      (hcondition : condition.Linked d present [])
      (htrue : ∀ s ∈ whenTrue, Linked d present s)
      (hfalse : ∀ s ∈ whenFalse, Linked d present s) :
      Linked d present (.branch condition whenTrue whenFalse)
  | raise (text : String) : Linked d present (.raise text)
  | result {e : Expr} (he : e.Linked d present []) : Linked d present (.result e)
  | pass : Linked d present .pass

variable {d : Descriptor} {present present' : MappingKey → Bool} {scope : TypeScope}

/-- With further mappings the calls of an expression are still linked. -/
theorem Expr.Linked.mono (hpresent : ∀ key, present key = true → present' key = true) {e : Expr}
    (h : e.Linked d present scope) : e.Linked d present' scope := by
  induction h with
  | var scope name => exact .var scope name
  | const scope value => exact .const scope value
  | attr _ hobject => exact .attr hobject
  | index _ _ hobject hkey => exact .index hobject hkey
  | compare _ _ hleft hright => exact .compare hleft hright
  | ternary _ _ _ hcondition htrue hfalse => exact .ternary hcondition htrue hfalse
  | listOf _ htype _ hiterable helement => exact .listOf hiterable htype helement
  | setOf _ htype _ hiterable helement => exact .setOf hiterable htype helement
  | dictOf _ htype _ _ hiterable hkey hvalue => exact .dictOf hiterable htype hkey hvalue
  | tuple _ hitems => exact .tuple hitems
  | method _ htype hkey _ hreceiver hargs => exact .method hreceiver htype (hpresent _ hkey) hargs
  | factory _ hargs => exact .factory hargs
  | construct scope target strategy => exact .construct scope target strategy
  | isSet _ hobject => exact .isSet hobject

/-- With further mappings the calls of a statement are still linked. -/
theorem Stmt.Linked.mono (hpresent : ∀ key, present key = true → present' key = true) {s : Stmt}
    (h : s.Linked d present) : s.Linked d present' := by
  induction h with
  | assign hplace hvalue => exact .assign (hplace.mono hpresent) (hvalue.mono hpresent)
  | perform he => exact .perform (he.mono hpresent)
  | branch hcondition _ _ htrue hfalse => exact .branch (hcondition.mono hpresent) htrue hfalse
  | raise text => exact .raise text
  | result he => exact .result (he.mono hpresent)
  | pass => exact .pass

/-! ## Conversions -/

/-- The test for a missing value has no calls but those of the value. -/
theorem Expr.linked_isNone {e : Expr} (h : e.Linked d present scope) :
    e.isNone.Linked d present scope :=
  .compare h (.const _ _)

/-- The arguments of calls hold no calls but those of the place. -/
theorem Expr.linked_extra : Expr.extra.Linked d present scope := .var _ _

namespace Conversion

/-- The positions of a tuple are linked if their conversions are. -/
theorem linked_of_expressAll {sources targets : List FieldType} {value : Expr}
    {position depth : Nat} {items : List Expr} {types : List FieldType}
    (hitems : ∀ target ∈ targets, ∀ source value depth code,
      express (tableOf present) source value depth target = .ok code →
        value.HasType d scope source → value.Linked d present scope →
          code.Linked d present scope)
    (h : expressAll (tableOf present) sources value position depth targets = .ok items)
    (htype : value.HasType d scope (.tuple types)) (hsources : types.drop position = sources)
    (hvalue : value.Linked d present scope) : ∀ e ∈ items, e.Linked d present scope := by
  induction targets generalizing sources position items with
  | nil =>
    rw [expressAll_nil] at h
    obtain rfl := Except.ok.inj h
    exact nofun
  | cons target targets ih =>
    cases sources with
    | nil =>
      rw [expressAll] at h
      · obtain rfl := Except.ok.inj h
        exact nofun
      · simp
    | cons source sources =>
      obtain ⟨item, rest, hitem, hrest, rfl⟩ := expressAll_cons_iff.mp h
      -- the type at this position is the first of those that are left
      have hposition : types[position]? = some source := by
        rw [← Nat.add_zero position, ← List.getElem?_drop, hsources]
        rfl
      have hnext : types.drop (position + 1) = sources := by
        rw [← List.drop_drop, hsources]
        rfl
      intro e he
      rcases List.mem_cons.mp he with rfl | hmem
      · exact hitems target List.mem_cons_self _ _ _ _ hitem (.position htype hposition)
          (.index hvalue (.const _ _))
      · exact ih (fun other hmem => hitems other (List.mem_cons_of_mem _ hmem)) hrest hnext e hmem

/-- **The expression of a conversion is linked** to the methods that it was made with. -/
theorem linked_of_express {source target : FieldType} {value code : Expr} {depth : Nat}
    (h : express (tableOf present) source value depth target = .ok code)
    (htype : value.HasType d scope source) (hvalue : value.Linked d present scope) :
    code.Linked d present scope := by
  induction target generalizing source value depth code scope with
  | any =>
    rw [express_any_iff] at h
    exact h ▸ hvalue
  | named t =>
    rw [express_named_iff] at h
    obtain ⟨s, rfl, ⟨-, rfl⟩ | ⟨-, hmethod, rfl⟩⟩ := h
    · exact hvalue
    · refine .method hvalue htype hmethod ?_
      intro e he
      obtain rfl := List.mem_singleton.mp he
      exact Expr.linked_extra
  | union members _ =>
    rw [express_union_iff] at h
    exact h.1 ▸ hvalue
  | list t ih =>
    rw [express_list_iff] at h
    obtain ⟨s, element, rfl, helement, rfl⟩ := h
    exact .listOf hvalue htype (ih helement (.loopVar List.lookup_cons_self) (.var _ _))
  | set t ih =>
    rw [express_set_iff] at h
    obtain ⟨s, element, rfl, helement, rfl⟩ := h
    exact .setOf hvalue htype (ih helement (.loopVar List.lookup_cons_self) (.var _ _))
  | dict tk tv ihkey ihvalue =>
    rw [express_dict_iff] at h
    obtain ⟨sk, sv, key, element, rfl, hkey, helement, rfl⟩ := h
    -- the variable for the values stands in front, but it does not hide the one for the keys
    have hdiffer : (loopVar "k" depth == loopVar "v" depth) = false := by
      rw [beq_eq_false_iff_ne]
      exact fun heq => absurd (String.append_left_inj _ |>.mp heq) (by decide)
    refine .dictOf hvalue htype (ihkey hkey (.loopVar ?_) (.var _ _))
      (ihvalue helement (.loopVar List.lookup_cons_self) (.var _ _))
    rw [List.lookup_cons, hdiffer]
    exact List.lookup_cons_self
  | tuple ts ih =>
    rw [express_tuple_iff] at h
    obtain ⟨ss, items, rfl, -, hitems, rfl⟩ := h
    refine .tuple (linked_of_expressAll ?_ hitems htype rfl hvalue)
    exact fun target hmem source value depth code hcode htype hvalue =>
      ih target hmem hcode htype hvalue
  | optional t ih =>
    rw [express_optional_iff] at h
    rcases h with ⟨s, inner, rfl, hinner, rfl⟩ | ⟨-, hinner⟩
    · exact .ternary (Expr.linked_isNone hvalue) (.const _ _) (ih hinner htype.present hvalue)
    · exact ih hinner htype hvalue

/-- **The statement of a change in place is linked** to the methods that it was made with. -/
theorem linked_of_amended {source target : FieldType} {value place : Expr} {change : Stmt}
    (h : Amended (tableOf present) value place source target change)
    (htype : value.HasType d [] source) (hvalue : value.Linked d present [])
    (hplace : place.Linked d present []) : change.Linked d present := by
  -- on the rules for changes in place; each branch keeps the type that its guard ensures
  induction h with
  | @update s t hmethod =>
    refine .perform (.method hvalue htype hmethod ?_)
    intro e he
    rcases List.mem_pair.mp he with rfl | rfl
    · exact hplace
    · exact Expr.linked_extra
  | clear hchange ih =>
    refine .branch (Expr.linked_isNone hvalue) ?_ ?_
    · intro s hs
      obtain rfl := List.mem_singleton.mp hs
      exact .assign hplace (.const _ _)
    · intro s hs
      obtain rfl := List.mem_singleton.mp hs
      exact ih htype.present
  | renew hpresent hchange hcreated ih =>
    refine .branch (Expr.linked_isNone hplace) ?_ ?_
    · intro s hs
      obtain rfl := List.mem_singleton.mp hs
      exact .assign hplace (linked_of_express hcreated htype hvalue)
    · intro s hs
      obtain rfl := List.mem_singleton.mp hs
      exact ih htype

end Conversion

end ObjectMapping
