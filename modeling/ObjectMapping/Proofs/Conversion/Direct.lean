import ObjectMapping.Execution.Evaluation
import ObjectMapping.Proofs.Conversion.Rules
import ObjectMapping.Proofs.Value.Height

/-! # Conversion of values without code

`Conversion.express` writes code for a conversion. `Conversion.direct` is the conversion itself: it
follows the two types and the value, and knows neither variables nor scopes nor depths.

* `eval_express`: evaluating the code gives what the direct conversion gives, in every frame, under
  every scope, and for every way in which methods are invoked.
* `direct_congr`: a direct conversion asks for objects to be made of parts of its value only. -/

namespace ObjectMapping.Conversion

open Outcome

/-- The elements of a collection, each converted. -/
def eachElement (convert : Value → Except Error Value) (value : Except Error Value) :
    Except Error (List Value) := do
  (← (← value).elements).mapM convert

/-- The entries of a dictionary, with keys and values converted apart. -/
def eachEntry (convertKey convertValue : Value → Except Error Value)
    (value : Except Error Value) : Except Error (List (Value × Value)) := do
  (← (← value).entries).mapM fun entry => do
    let key ← convertKey entry.1
    return (key, ← convertValue entry.2)

mutual

/-- Converts a value from one type to another; objects of another class are made by `create`. The
value is given as the outcome of looking it up, and is asked for where the conversion needs it. Two
types that have nothing to do with each other leave nothing to be made of the value. -/
def direct (create : Value → ClassHandle → Except Error Value) (source : FieldType)
    (value : Except Error Value) (target : FieldType) : Except Error Value :=
  match target, source with
  | .any, _ => value
  | .named t, .named s => if s.same t then value else do create (← value) t
  | .union _, .named _ => value
  | .union _, .union _ => value
  | .list t, .list s => do
      return .list (← eachElement (fun item => direct create s (.ok item) t) value)
  | .set t, .set s => do
      let items ← eachElement (fun item => direct create s (.ok item) t) value
      return .set (Keyed.distinct items)
  | .dict tk tv, .dict sk sv => do
      let entries ← eachEntry (fun key => direct create sk (.ok key) tk)
        (fun v => direct create sv (.ok v) tv) value
      return .dict (Keyed.ofList entries)
  | .tuple ts, .tuple ss => do return .tuple (← directAll create ss value 0 ts)
  | .optional t, .optional s => do
      if (← value).isNone then return .none else direct create s value t
  | .optional t, _ => direct create source value t
  | _, _ => do Except.error (.noMappingRegistered (← value).typeName target.text)

/-- Converts the positions of a tuple from `position` on. -/
def directAll (create : Value → ClassHandle → Except Error Value) (sources : List FieldType)
    (value : Except Error Value) (position : Nat) (targets : List FieldType) :
    Except Error (List Value) :=
  match targets, sources with
  | target :: targets, source :: sources => do
      let item ← direct create source (value >>= (·.subscript (.int (.ofInt position)))) target
      return item :: (← directAll create sources value (position + 1) targets)
  | _, _ => .ok []

end

variable {create : Value → ClassHandle → Except Error Value} {value : Except Error Value}

/-! ## The rules of direct conversion -/

section Rules

attribute [local simp] direct directAll

/-- Everything is converted to any type by leaving it as it is. -/
@[simp] theorem direct_any {source : FieldType} : direct create source value .any = value := by
  simp

/-- An object is converted to its own class by leaving it as it is. -/
theorem direct_named_same {s t : ClassHandle} (h : s.same t = true) :
    direct create (.named s) value (.named t) = value := by
  simp [h]

/-- An object is converted to another class by its create method. -/
theorem direct_named_of_ne {s t : ClassHandle} (h : s.same t = false) :
    direct create (.named s) value (.named t) = value >>= (create · t) := by
  simp [h]

/-- An object is converted to a union by leaving it as it is. -/
@[simp] theorem direct_union_of_named {s : ClassHandle} {members : List FieldType} :
    direct create (.named s) value (.union members) = value := by
  simp

/-- A value of a union is converted to another union by leaving it as it is. -/
@[simp] theorem direct_union_of_union {arms members : List FieldType} :
    direct create (.union arms) value (.union members) = value := by
  simp

/-- Behind an optional type there is nothing to convert for an absent value. -/
theorem direct_optional_of_optional {s t : FieldType} :
    direct create (.optional s) value (.optional t) = (do
      if (← value).isNone then return .none else direct create s value t) := by
  simp

/-- A value that is never absent is converted to an optional type as to the type inside. -/
theorem direct_optional_of_present {s t : FieldType} (h : s.isOptional = false) :
    direct create s value (.optional t) = direct create s value t := by
  cases s with
  | optional _ => simp [FieldType.isOptional] at h
  | _ => simp

/-- Without targets there are no positions to convert. -/
@[simp] theorem directAll_nil {ss : List FieldType} {position : Nat} :
    directAll create ss value position [] = .ok [] := by
  cases ss <;> rfl

/-- For no source types there are no positions to convert. -/
@[simp] theorem directAll_nil_left {ts : List FieldType} {position : Nat} :
    directAll create [] value position ts = .ok [] := by
  cases ts <;> rfl

end Rules

/-! ## Evaluating the code of a conversion -/

/-- The loop variables for keys and for values differ at every depth. -/
theorem loopVar_key_ne_value (depth : Nat) : loopVar "k" depth ≠ loopVar "v" depth := by
  intro h
  have hlist := congrArg String.toList h
  simp [loopVar] at hlist

section Evaluation

variable {methods : MethodTable} (invoker : Invoker) (f : Frame)

/-- The innermost loop variable has the value it was bound to. -/
@[simp] theorem eval_var_cons (scope : Scope) (x : String) (item : Value) :
    f.eval invoker ((x, item) :: scope) (.var x) = .ok item := by
  simp [Frame.eval, Frame.valueOf]

/-- The variable for keys is visible behind the variable for values. -/
theorem eval_keyVar (scope : Scope) (depth : Nat) (entry : Value × Value) :
    f.eval invoker ((loopVar "v" depth, entry.2) :: (loopVar "k" depth, entry.1) :: scope)
      (.var (loopVar "k" depth)) = .ok entry.1 := by
  have hne : (loopVar "k" depth == loopVar "v" depth) = false :=
    beq_eq_false_iff_ne.mpr (loopVar_key_ne_value depth)
  simp [Frame.eval, Frame.valueOf, List.lookup_cons, hne]

/-- The positions of a tuple, given that the code of each of them is right. -/
theorem evalAll_expressAll (scope : Scope) {ss ts : List FieldType} {value : Expr}
    {position depth : Nat} {items : List Expr}
    (heach : ∀ t ∈ ts, ∀ {s : FieldType} {value code : Expr} {depth : Nat},
      express methods s value depth t = .ok code →
        f.eval invoker scope code = direct invoker.create s (f.eval invoker scope value) t)
    (hlength : ss.length = ts.length)
    (h : expressAll methods ss value position depth ts = .ok items) :
    f.evalAll invoker scope items
      = directAll invoker.create ss (f.eval invoker scope value) position ts := by
  induction ts generalizing ss position items with
  | nil =>
    obtain rfl : ss = [] := List.length_eq_zero_iff.mp hlength
    obtain rfl : items = [] := by simpa using h.symm
    rw [Frame.evalAll, directAll_nil]
  | cons t ts ih =>
    cases ss with
    | nil => simp at hlength
    | cons s ss =>
      -- every position is looked up in the tuple anew, so the operand is evaluated each time
      obtain ⟨item, rest, hitem, hrest, rfl⟩ := expressAll_cons_iff.mp h
      have hhead := heach t List.mem_cons_self hitem
      have htail := ih (fun t' ht' => heach t' (List.mem_cons_of_mem _ ht'))
        (by simpa using hlength) hrest
      rw [Frame.evalAll, directAll, hhead, htail]
      simp only [Frame.eval, Expr.int, ok_bind]

/-- **Conversions as code are conversions of values.** Evaluating the expression for a conversion
gives what converting the value of its operand gives, errors included, in every frame. -/
theorem eval_express {source target : FieldType} {value code : Expr} {depth : Nat} {scope : Scope}
    (h : express methods source value depth target = .ok code) :
    f.eval invoker scope code
      = direct invoker.create source (f.eval invoker scope value) target := by
  -- the rule for the target type tells what the source type is and what the code is made of; the
  -- scope is free because the code for elements is evaluated under loop variables
  induction target generalizing source value code depth scope with
  | named t =>
    obtain ⟨s, rfl, ⟨hsame, rfl⟩ | ⟨hne, -, rfl⟩⟩ := express_named_iff.mp h
    · rw [direct_named_same hsame]
    · rw [direct_named_of_ne hne, createCall, Frame.eval]
  | optional t ih =>
    obtain ⟨s, inner, rfl, hinner, rfl⟩ | ⟨hpresent, hcode⟩ := express_optional_iff.mp h
    · rw [direct_optional_of_optional, Frame.eval, ih hinner, Expr.isNone, Frame.eval]
      -- the test for absence looks the value up once more, with the same outcome
      cases hvalue : f.eval invoker scope value with
      | error e => simp
      | ok v => cases v <;> simp [Expr.none, Frame.eval, Frame.compared, Value.identical,
          Value.truthy, Value.isNone]
    · rw [direct_optional_of_present hpresent, ih hcode]
  | union members =>
    obtain ⟨rfl, ⟨s, rfl, -⟩ | ⟨arms, rfl, -⟩⟩ := express_union_iff.mp h
    · rw [direct_union_of_named]
    · rw [direct_union_of_union]
  | list t ih =>
    obtain ⟨s, element, rfl, helement, rfl⟩ := express_list_iff.mp h
    rw [direct, Frame.eval]
    simp only [eachElement, bind_assoc, ih helement, eval_var_cons]
  | set t ih =>
    obtain ⟨s, element, rfl, helement, rfl⟩ := express_set_iff.mp h
    rw [direct, Frame.eval]
    simp only [eachElement, bind_assoc, ih helement, eval_var_cons]
  | dict tk tv ihk ihv =>
    obtain ⟨sk, sv, key, element, rfl, hkey, helement, rfl⟩ := express_dict_iff.mp h
    rw [direct, Frame.eval]
    simp only [eachEntry, bind_assoc, ihk hkey, ihv helement, eval_keyVar, eval_var_cons]
  | tuple ts ih =>
    obtain ⟨ss, items, rfl, hlength, hitems, rfl⟩ := express_tuple_iff.mp h
    have hall := evalAll_expressAll invoker f scope (fun t ht _ _ _ _ hcode => ih t ht hcode)
      hlength hitems
    rw [direct, Frame.eval, hall]
  | any =>
    obtain rfl := express_any_iff.mp h
    rw [direct_any]

end Evaluation

/-! ## Objects are made of parts of the value -/

/-- Whether two ways to make objects agree on all values up to a height. -/
def AgreeUpTo (height : Nat) (create create' : Value → ClassHandle → Except Error Value) : Prop :=
  ∀ v : Value, v.height ≤ height → ∀ t, create v t = create' v t

section Congruence

variable {methods : MethodTable} {create' : Value → ClassHandle → Except Error Value}

/-- An agreement up to a height is one up to any lower height. -/
theorem AgreeUpTo.mono {high low : Nat} (h : AgreeUpTo high create create') (hle : low ≤ high) :
    AgreeUpTo low create create' :=
  fun v hv => h v (Nat.le_trans hv hle)

/-- Conversions that agree on what is inside a value convert its elements alike. -/
theorem eachElement_congr {convert convert' : Value → Except Error Value}
    {value : Except Error Value}
    (h : ∀ v, value = .ok v → ∀ item : Value, item.height < v.height →
      convert item = convert' item) :
    eachElement convert value = eachElement convert' value := by
  rw [eachElement, eachElement]
  cases value with
  | error e => rfl
  | ok v =>
    rw [ok_bind, ok_bind]
    cases hitems : v.elements with
    | error e => rfl
    | ok items =>
      exact mapM_congr fun item hmem => h v rfl item (Value.height_lt_of_mem_elements hitems hmem)

/-- Conversions that agree on what is inside a value convert its entries alike. -/
theorem eachEntry_congr
    {convertKey convertKey' convertValue convertValue' : Value → Except Error Value}
    {value : Except Error Value}
    (hkey : ∀ v, value = .ok v → ∀ key : Value, key.height < v.height →
      convertKey key = convertKey' key)
    (hvalue : ∀ v, value = .ok v → ∀ u : Value, u.height < v.height →
      convertValue u = convertValue' u) :
    eachEntry convertKey convertValue value = eachEntry convertKey' convertValue' value := by
  rw [eachEntry, eachEntry]
  cases value with
  | error e => rfl
  | ok v =>
    rw [ok_bind, ok_bind]
    cases hentries : v.entries with
    | error e => rfl
    | ok entries =>
      refine mapM_congr ?_
      intro entry hmem
      have hlt := Value.height_lt_of_mem_entries hentries hmem
      rw [hkey v rfl entry.1 hlt.1, hvalue v rfl entry.2 hlt.2]

/-- The positions of a tuple, given the same for the type of each of them. -/
theorem directAll_congr {ss ts : List FieldType} {code : Expr} {items : List Expr}
    {value : Except Error Value} {position depth : Nat}
    (heach : ∀ t ∈ ts, ∀ {s : FieldType} {value : Except Error Value} {code item : Expr}
      {depth : Nat}, express methods s code depth t = .ok item →
        (∀ v, value = .ok v → AgreeUpTo v.height create create') →
        direct create s value t = direct create' s value t)
    (h : expressAll methods ss code position depth ts = .ok items)
    (hagree : ∀ v, value = .ok v → AgreeUpTo v.height create create') :
    directAll create ss value position ts = directAll create' ss value position ts := by
  induction ts generalizing ss position items with
  | nil => rw [directAll_nil, directAll_nil]
  | cons t ts ih =>
    cases ss with
    | nil => rw [directAll_nil_left, directAll_nil_left]
    | cons s ss =>
      obtain ⟨item, rest, hitem, hrest, rfl⟩ := expressAll_cons_iff.mp h
      have hpart : ∀ v, (value >>= (·.subscript (.int (.ofInt position)))) = .ok v →
          AgreeUpTo v.height create create' := by
        intro v hv
        obtain ⟨whole, rfl, hsubscript⟩ := bind_eq_ok.mp hv
        exact (hagree whole rfl).mono (Nat.le_of_lt (Value.height_lt_of_subscript hsubscript))
      rw [directAll, directAll, heach t List.mem_cons_self hitem hpart,
        ih (fun t' ht' => heach t' (List.mem_cons_of_mem _ ht')) hrest]

/-- **Conversions make objects of parts of the value only.** Two ways to make objects that agree up
to the height of the value convert it alike. -/
theorem direct_congr {source target : FieldType} {code result : Expr} {depth : Nat}
    {value : Except Error Value} (h : express methods source code depth target = .ok result)
    (hagree : ∀ v, value = .ok v → AgreeUpTo v.height create create') :
    direct create source value target = direct create' source value target := by
  -- elements, entries and positions are lower than the value, so agreement up to its height is more
  -- than enough for them
  induction target generalizing source value code result depth with
  | named t =>
    obtain ⟨s, rfl, ⟨hsame, -⟩ | ⟨hne, -, -⟩⟩ := express_named_iff.mp h
    · rw [direct_named_same hsame, direct_named_same hsame]
    · rw [direct_named_of_ne hne, direct_named_of_ne hne]
      cases value with
      | error e => rfl
      | ok v => exact hagree v rfl v (Nat.le_refl _) t
  | optional t ih =>
    obtain ⟨s, inner, rfl, hinner, -⟩ | ⟨hpresent, hcode⟩ := express_optional_iff.mp h
    · rw [direct_optional_of_optional, direct_optional_of_optional, ih hinner hagree]
    · rw [direct_optional_of_present hpresent, direct_optional_of_present hpresent,
        ih hcode hagree]
  | union members =>
    obtain ⟨-, ⟨s, rfl, -⟩ | ⟨arms, rfl, -⟩⟩ := express_union_iff.mp h
    · rw [direct_union_of_named, direct_union_of_named]
    · rw [direct_union_of_union, direct_union_of_union]
  | list t ih =>
    obtain ⟨s, element, rfl, helement, -⟩ := express_list_iff.mp h
    have hitems := eachElement_congr fun v hv item hlt =>
      ih helement fun u hu => (hagree v hv).mono (Except.ok.inj hu ▸ Nat.le_of_lt hlt)
    rw [direct, direct, hitems]
  | set t ih =>
    obtain ⟨s, element, rfl, helement, -⟩ := express_set_iff.mp h
    have hitems := eachElement_congr fun v hv item hlt =>
      ih helement fun u hu => (hagree v hv).mono (Except.ok.inj hu ▸ Nat.le_of_lt hlt)
    rw [direct, direct, hitems]
  | dict tk tv ihk ihv =>
    obtain ⟨sk, sv, key, element, rfl, hkey, helement, -⟩ := express_dict_iff.mp h
    have hentries := eachEntry_congr
      (fun v hv key hlt =>
        ihk hkey fun u hu => (hagree v hv).mono (Except.ok.inj hu ▸ Nat.le_of_lt hlt))
      (fun v hv part hlt =>
        ihv helement fun u hu => (hagree v hv).mono (Except.ok.inj hu ▸ Nat.le_of_lt hlt))
    rw [direct, direct, hentries]
  | tuple ts ih =>
    obtain ⟨ss, items, rfl, -, hitems, -⟩ := express_tuple_iff.mp h
    have hall := directAll_congr
      (fun t ht _ _ _ _ _ hcode hvalue => ih t ht hcode hvalue) hitems hagree
    rw [direct, direct, hall]
  | any => rw [direct_any, direct_any]

end Congruence

end ObjectMapping.Conversion
