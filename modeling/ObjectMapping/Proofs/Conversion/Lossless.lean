import ObjectMapping.Proofs.Conversion.Preorder
import ObjectMapping.Proofs.Conversion.Safety
import ObjectMapping.Proofs.Execution.Expressions
import ObjectMapping.Proofs.Value.Parts

/-! # Conversions that call no method

Where no method is called, a conversion has nothing to make a new object with. It takes a value to a
type that the value has already, and gives the value itself back, although sets and dictionaries are
built anew on the way: their elements and keys are pairwise different, so nothing is merged and
everything keeps its place.

* **`Expr.callsNone`** — the code calls no method.
* **`Declarations.Conforms.of_same`** — equal types have the same values.
* **`direct_of_callsNone`** — a conversion that calls no method gives the value back.
* **`conforms_of_callsNone`** — the value is of the type that it is converted to.
* **`express_lossless`** — the same for the code of conversions, and the preorder of the types that
  are converted without methods.
* `express_repeated_member`: where a union has a member twice, the value need not be of the other
  type. -/

namespace ObjectMapping

open Outcome

/-! ## Code without calls -/

namespace Expr

mutual

/-- **Whether an expression calls no method.** -/
def callsNone : Expr → Bool
  | var _ | const _ | construct _ _ => true
  | attr object _ | isSet object _ => callsNone object
  | index object key => callsNone object && callsNone key
  | compare left _ right => callsNone left && callsNone right
  | ternary condition whenTrue whenFalse =>
      callsNone condition && callsNone whenTrue && callsNone whenFalse
  | listOf element _ iterable | setOf element _ iterable => callsNone element && callsNone iterable
  | dictOf key value _ _ iterable => callsNone key && callsNone value && callsNone iterable
  | tuple items | factory _ items => callsNoneAll items
  | method _ _ _ => false

/-- Whether no expression of a list calls a method. -/
def callsNoneAll : List Expr → Bool
  | [] => true
  | e :: rest => callsNone e && callsNoneAll rest

end

end Expr

/-! ## Values of equal types -/

namespace Declarations

variable {D : Declarations}

/-- A tuple conforms position by position. -/
theorem conforms_tuple_iff {types : List FieldType} {items : List Value} :
    D.Conforms (.tuple types) (.tuple items) ↔
      items.length < Nat.pow 2 63 ∧ List.Forall₂ D.Conforms types items := by
  rw [List.forall₂_iff_zip]
  constructor
  · intro h
    cases h with
    | tuple hlength hbound hitems => exact ⟨hbound, hlength, fun hpair => hitems _ hpair⟩
  · rintro ⟨hbound, hlength, hitems⟩
    exact .tuple hlength hbound fun pair hpair => hitems hpair

/-- **Equal types have the same values**, if the members of their unions are different. -/
theorem Conforms.of_same {a b : FieldType} {v : Value} (ha : a.DistinctMembers)
    (hb : b.DistinctMembers) (hsame : a.same b = true) (h : D.Conforms a v) : D.Conforms b v := by
  induction a generalizing b v with
  | any =>
    obtain rfl := FieldType.eq_of_same_any hsame
    exact h
  | named s =>
    obtain ⟨t, rfl, ht⟩ := FieldType.exists_of_same_named hsame
    exact h.of_id_eq (beq_iff_eq.mp ht).symm
  | optional s ih =>
    obtain ⟨t, rfl, ht⟩ := FieldType.exists_of_same_optional hsame
    cases ha with | optional hs =>
    cases hb with | optional ht' =>
    cases h with
    | none => exact .none t
    | some hinner => exact .some (ih hs ht' ht hinner)
  | union arms ih =>
    obtain ⟨members, rfl, -⟩ := FieldType.exists_of_same_union hsame
    obtain ⟨-, hmatches⟩ := ha.matches_of_same hb hsame
    cases ha with | union _ harms =>
    cases hb with | union _ hmembers =>
    cases h with
    | @union _ arm _ harm hvalue =>
      obtain ⟨member, hmember, hsame'⟩ := hmatches arm harm
      exact .union hmember (ih arm harm (harms arm harm) (hmembers member hmember) hsame' hvalue)
  | list s ih =>
    obtain ⟨t, rfl, ht⟩ := FieldType.exists_of_same_list hsame
    cases ha with | list hs =>
    cases hb with | list ht' =>
    cases h with
    | list hitems => exact .list fun item hitem => ih hs ht' ht (hitems item hitem)
  | set s ih =>
    obtain ⟨t, rfl, ht⟩ := FieldType.exists_of_same_set hsame
    cases ha with | set hs =>
    cases hb with | set ht' =>
    cases h with
    | set hitems => exact .set fun item hitem => ih hs ht' ht (hitems item hitem)
  | dict sk sv ihkey ihvalue =>
    obtain ⟨tk, tv, rfl, hk, hv⟩ := FieldType.exists_of_same_dict hsame
    cases ha with | dict hsk hsv =>
    cases hb with | dict htk htv =>
    cases h with
    | dict hkeys hvalues =>
      exact .dict (fun entry hentry => ihkey hsk htk hk (hkeys entry hentry))
        fun entry hentry => ihvalue hsv htv hv (hvalues entry hentry)
  | tuple ss ih =>
    obtain ⟨ts, rfl, hts⟩ := FieldType.exists_of_same_tuple hsame
    cases ha with | tuple hss =>
    cases hb with | tuple hts' =>
    cases h with
    | @tuple _ items hlength hbound hitems =>
      have hall := (conforms_tuple_iff.mp (.tuple hlength hbound hitems)).2
      have hpairs : List.Forall₂ (fun s t => s ∈ ss ∧ t ∈ ts ∧ s.same t = true) ss ts := by
        refine List.forall₂_iff_zip.mpr ⟨hts.length_eq, fun {s t} hpair => ?_⟩
        obtain ⟨hs, ht⟩ := List.of_mem_zip hpair
        exact ⟨hs, ht, List.forall₂_zip hts hpair⟩
      refine conforms_tuple_iff.mpr ⟨hbound, forall₂_of_forall₂_left hpairs hall ?_⟩
      rintro s - t v ⟨hs, ht, hst⟩ hv
      exact ih s hs (hss s hs) (hts' t ht) hst hv

end Declarations

/-! ## Values that are given back -/

namespace Conversion

variable {D : Declarations} {methods : MethodTable}
  {create : Value → ClassHandle → Except Error Value}

/-- Elements that are each given back are all given back. -/
theorem eachElement_of_self {convert : Value → Except Error Value} {v : Value} {items : List Value}
    (hitems : v.elements = .ok items) (h : ∀ item ∈ items, convert item = .ok item) :
    eachElement convert (.ok v) = .ok items := by
  rw [eachElement, ok_bind, hitems, ok_bind]
  exact mapM_eq_ok.mpr (List.forall₂_same.mpr h)

/-- Entries whose keys and values are given back are given back. -/
theorem eachEntry_of_self {convertKey convertValue : Value → Except Error Value} {v : Value}
    {entries : List (Value × Value)} (hentries : v.entries = .ok entries)
    (hkeys : ∀ entry ∈ entries, convertKey entry.1 = .ok entry.1)
    (hvalues : ∀ entry ∈ entries, convertValue entry.2 = .ok entry.2) :
    eachEntry convertKey convertValue (.ok v) = .ok entries := by
  rw [eachEntry, ok_bind, hentries, ok_bind]
  refine mapM_eq_ok.mpr (List.forall₂_same.mpr fun entry hentry => ?_)
  rw [hkeys entry hentry, ok_bind, hvalues entry hentry]
  rfl

/-- The conversions to a type that call no method give values of the source type back. -/
def GivesBack (D : Declarations) (methods : MethodTable)
    (create : Value → ClassHandle → Except Error Value) (target : FieldType) : Prop :=
  ∀ (source : FieldType) (value code : Expr) (depth : Nat) (v : Value),
    express methods source value depth target = .ok code → code.callsNone = true →
      D.Conforms source v → v.WellFormed → direct create source (.ok v) target = .ok v

/-- The positions of a tuple from one on are given back, if the conversion to each type does so. -/
theorem directAll_of_callsNone {ss ts : List FieldType} {value : Expr} {position depth : Nat}
    {codes : List Expr} {items : List Value} (heach : ∀ t ∈ ts, GivesBack D methods create t)
    (hlength : ss.length = ts.length)
    (h : expressAll methods ss value position depth ts = .ok codes)
    (hcodes : Expr.callsNoneAll codes = true) (hbound : items.length < Nat.pow 2 63)
    (hv : List.Forall₂ D.Conforms ss (items.drop position))
    (hwell : ∀ item ∈ items, item.WellFormed) :
    directAll create ss (.ok (.tuple items)) position ts = .ok (items.drop position) := by
  induction ts generalizing ss position codes with
  | nil =>
    obtain rfl : ss = [] := List.length_eq_zero_iff.mp hlength
    rw [directAll_nil, List.forall₂_nil_left_iff.mp hv]
  | cons t ts ih =>
    cases ss with
    | nil => cases hlength
    | cons s ss =>
      obtain ⟨code, rest, hcode, hrest, rfl⟩ := expressAll_cons_iff.mp h
      obtain ⟨hfirst, hothers⟩ := Bool.and_eq_true_iff.mp hcodes
      -- the items from this position on are the one in it and those from the next position on
      obtain ⟨v, tail, hv', htail, hdrop⟩ := List.forall₂_cons_left_iff.mp hv
      have hitem : items[position]? = some v := by
        rw [← Nat.add_zero position, ← List.getElem?_drop, hdrop]
        rfl
      have hnext : items.drop (position + 1) = tail := by
        rw [← List.drop_drop, hdrop]
        rfl
      have hdirect := heach t List.mem_cons_self s _ code depth v hcode hfirst hv'
        (hwell v (List.mem_of_getElem? hitem))
      have hall := ih (fun t' ht' => heach t' (List.mem_cons_of_mem _ ht'))
        (Nat.succ.inj hlength) hrest hothers (hnext ▸ htail)
      rw [directAll, ok_bind, Value.subscript_tuple hbound hitem, hdirect, ok_bind, hall, hdrop, hnext]
      rfl

/-- **A conversion that calls no method gives the value back.** -/
theorem direct_of_callsNone (D : Declarations) (methods : MethodTable)
    (create : Value → ClassHandle → Except Error Value) (target : FieldType) :
    GivesBack D methods create target := by
  unfold GivesBack
  intro source value code depth v h hcode hv hwell
  induction target generalizing source value code depth v with
  | any => exact direct_any
  | named t =>
    obtain ⟨s, rfl, ⟨hsame, rfl⟩ | ⟨-, -, rfl⟩⟩ := express_named_iff.mp h
    · exact direct_named_same hsame
    · cases hcode
  | union members _ =>
    obtain ⟨rfl, ⟨s, rfl, -⟩ | ⟨arms, rfl, -⟩⟩ := express_union_iff.mp h
    · exact direct_union_of_named
    · exact direct_union_of_union
  | list t ih =>
    obtain ⟨s, element, rfl, helement, rfl⟩ := express_list_iff.mp h
    obtain ⟨helementCode, -⟩ := Bool.and_eq_true_iff.mp hcode
    cases hv with
    | @list _ items hitems =>
      rw [direct, eachElement_of_self (Value.elements_list items) fun item hitem =>
        ih _ _ _ _ item helement helementCode (hitems item hitem) (hwell.part hitem)]
      rfl
  | set t ih =>
    obtain ⟨s, element, rfl, helement, rfl⟩ := express_set_iff.mp h
    obtain ⟨helementCode, -⟩ := Bool.and_eq_true_iff.mp hcode
    cases hv with
    | @set _ items hitems =>
      -- the elements are pairwise different, so none of them is merged with another one
      have hdistinct : Keyed.distinct items = items := Keyed.distinct_of_pairwise hwell.here
      rw [direct, eachElement_of_self (Value.elements_set items) fun item hitem =>
        ih _ _ _ _ item helement helementCode (hitems item hitem) (hwell.part hitem), ok_bind,
        hdistinct]
      rfl
  | dict tk tv ihkey ihvalue =>
    obtain ⟨sk, sv, key, element, rfl, hkey, helement, rfl⟩ := express_dict_iff.mp h
    obtain ⟨hcodes, -⟩ := Bool.and_eq_true_iff.mp hcode
    obtain ⟨hkeyCode, helementCode⟩ := Bool.and_eq_true_iff.mp hcodes
    cases hv with
    | @dict _ _ entries hkeys hvalues =>
      have heachKey := fun entry hentry => ihkey _ _ _ _ entry.1 hkey hkeyCode
        (hkeys entry hentry) (hwell.part (Value.key_mem_parts hentry))
      have heachValue := fun entry hentry => ihvalue _ _ _ _ entry.2 helement helementCode
        (hvalues entry hentry) (hwell.part (Value.value_mem_parts hentry))
      -- the keys are pairwise different, so no entry takes the place of another one
      have hdistinct : Keyed.ofList entries = entries := Keyed.ofList_of_pairwise hwell.here
      rw [direct, eachEntry_of_self (Value.entries_dict entries) heachKey heachValue, ok_bind,
        hdistinct]
      rfl
  | tuple ts ih =>
    obtain ⟨ss, codes, rfl, hlength, hcodes, rfl⟩ := express_tuple_iff.mp h
    cases hv with
    | @tuple _ items hlength' hbound hitems =>
      obtain ⟨-, hconforms⟩ := Declarations.conforms_tuple_iff.mp (.tuple hlength' hbound hitems)
      rw [direct, directAll_of_callsNone ih hlength hcodes hcode hbound hconforms
        fun item hitem => hwell.part hitem]
      rfl
  | optional t ih =>
    rcases express_optional_iff.mp h with ⟨s, inner, rfl, hinner, rfl⟩ | ⟨hpresent, hinner⟩
    · obtain ⟨-, hinnerCode⟩ := Bool.and_eq_true_iff.mp hcode
      rw [direct_optional_of_optional, ok_bind]
      cases hnone : v.isNone with
      | true =>
        obtain rfl := Value.eq_none_of_isNone hnone
        rfl
      | false => exact ih _ _ _ _ v hinner hinnerCode (hv.strip hnone) hwell
    · exact (direct_optional_of_present hpresent).trans (ih _ _ _ _ v hinner hcode hv hwell)

/-! ## Values that are of both types -/

/-- The types that are converted to a type without methods have no other values. -/
def TakesIn (D : Declarations) (methods : MethodTable) (target : FieldType) : Prop :=
  ∀ (source : FieldType) (value code : Expr) (depth : Nat) (v : Value),
    express methods source value depth target = .ok code → code.callsNone = true →
      source.DistinctMembers → target.DistinctMembers → D.Conforms source v → D.Conforms target v

/-- The items of a tuple are of the types that the positions are converted to. -/
theorem conformsAll_of_callsNone {ss ts : List FieldType} {value : Expr} {position depth : Nat}
    {codes : List Expr} {items : List Value} (heach : ∀ t ∈ ts, TakesIn D methods t)
    (hlength : ss.length = ts.length)
    (h : expressAll methods ss value position depth ts = .ok codes)
    (hcodes : Expr.callsNoneAll codes = true) (hss : ∀ s ∈ ss, s.DistinctMembers)
    (hts : ∀ t ∈ ts, t.DistinctMembers) (hv : List.Forall₂ D.Conforms ss items) :
    List.Forall₂ D.Conforms ts items := by
  induction ts generalizing ss position codes items with
  | nil =>
    obtain rfl : ss = [] := List.length_eq_zero_iff.mp hlength
    exact hv
  | cons t ts ih =>
    cases hv with
    | nil => cases hlength
    | cons hv' htail =>
      obtain ⟨code, rest, hcode, hrest, rfl⟩ := expressAll_cons_iff.mp h
      obtain ⟨hfirst, hothers⟩ := Bool.and_eq_true_iff.mp hcodes
      rw [List.forall_mem_cons] at heach hss hts
      exact .cons (heach.1 _ _ code depth _ hcode hfirst hss.1 hts.1 hv')
        (ih heach.2 (Nat.succ.inj hlength) hrest hothers hss.2 hts.2 htail)

/-- **A conversion that calls no method takes a value to a type that it has already**, where the
members of unions are different. -/
theorem conforms_of_callsNone (D : Declarations) (methods : MethodTable) (target : FieldType) :
    TakesIn D methods target := by
  unfold TakesIn
  intro source value code depth v h hcode hsource htarget hv
  induction target generalizing source value code depth v with
  | any => exact .any v
  | named t =>
    obtain ⟨s, rfl, ⟨hsame, rfl⟩ | ⟨-, -, rfl⟩⟩ := express_named_iff.mp h
    · exact hv.of_id_eq (beq_iff_eq.mp hsame).symm
    · cases hcode
  | union members _ =>
    obtain ⟨rfl, ⟨s, rfl, hmember⟩ | ⟨arms, rfl, hincluded⟩⟩ := express_union_iff.mp h
    · obtain ⟨m, hm, hid⟩ := any_same_named_iff.mp hmember
      exact .union hm (hv.of_id_eq hid)
    · cases hsource with | union _ harms =>
      cases htarget with | union _ hmembers =>
      cases hv with
      | @union _ arm _ harm hvalue =>
        obtain ⟨member, hmember, hsame⟩ := FieldType.included_iff.mp hincluded arm harm
        have hback := (hmembers member hmember).same_symm (harms arm harm) hsame
        exact .union hmember (hvalue.of_same (harms arm harm) (hmembers member hmember) hback)
  | list t ih =>
    obtain ⟨s, element, rfl, helement, rfl⟩ := express_list_iff.mp h
    obtain ⟨helementCode, -⟩ := Bool.and_eq_true_iff.mp hcode
    cases hsource with | list hs =>
    cases htarget with | list ht =>
    cases hv with
    | list hitems =>
      exact .list fun item hitem => ih _ _ _ _ item helement helementCode hs ht (hitems item hitem)
  | set t ih =>
    obtain ⟨s, element, rfl, helement, rfl⟩ := express_set_iff.mp h
    obtain ⟨helementCode, -⟩ := Bool.and_eq_true_iff.mp hcode
    cases hsource with | set hs =>
    cases htarget with | set ht =>
    cases hv with
    | set hitems =>
      exact .set fun item hitem => ih _ _ _ _ item helement helementCode hs ht (hitems item hitem)
  | dict tk tv ihkey ihvalue =>
    obtain ⟨sk, sv, key, element, rfl, hkey, helement, rfl⟩ := express_dict_iff.mp h
    obtain ⟨hcodes, -⟩ := Bool.and_eq_true_iff.mp hcode
    obtain ⟨hkeyCode, helementCode⟩ := Bool.and_eq_true_iff.mp hcodes
    cases hsource with | dict hsk hsv =>
    cases htarget with | dict htk htv =>
    cases hv with
    | dict hkeys hvalues =>
      exact .dict
        (fun entry hentry => ihkey _ _ _ _ entry.1 hkey hkeyCode hsk htk (hkeys entry hentry))
        fun entry hentry =>
          ihvalue _ _ _ _ entry.2 helement helementCode hsv htv (hvalues entry hentry)
  | tuple ts ih =>
    obtain ⟨ss, codes, rfl, hlength, hcodes, rfl⟩ := express_tuple_iff.mp h
    cases hsource with | tuple hss =>
    cases htarget with | tuple hts =>
    cases hv with
    | @tuple _ items hlength' hbound hitems =>
      obtain ⟨-, hconforms⟩ := Declarations.conforms_tuple_iff.mp (.tuple hlength' hbound hitems)
      exact Declarations.conforms_tuple_iff.mpr
        ⟨hbound, conformsAll_of_callsNone ih hlength hcodes hcode hss hts hconforms⟩
  | optional t ih =>
    cases htarget with | optional ht =>
    rcases express_optional_iff.mp h with ⟨s, inner, rfl, hinner, rfl⟩ | ⟨hpresent, hinner⟩
    · obtain ⟨-, hinnerCode⟩ := Bool.and_eq_true_iff.mp hcode
      cases hsource with | optional hs =>
      cases hv with
      | none => exact .none t
      | some hv => exact .some (ih _ _ _ _ v hinner hinnerCode hs ht hv)
    · exact .some (ih _ _ _ _ v hinner hcode hsource ht hv)

end Conversion

/-- **Conversions without methods are a preorder that loses nothing.** Without methods every type is
converted to itself, and conversions from one type to another and from there to a third one make one
from the first type to the third. Whatever methods there are, where the code of a conversion
calls none of them, evaluating it succeeds for every value of the source type and gives the value
itself, which is a value of the target type, as the members of unions are different. -/
theorem express_lossless :
    (∀ type, Conversion.Convertible .none type type) ∧
    (∀ {a b c : FieldType} {value value' code code' : Expr} {depth depth' : Nat},
      Conversion.express .none a value depth b = .ok code →
        Conversion.express .none b value' depth' c = .ok code' → Conversion.Convertible .none a c) ∧
    ∀ {methods : MethodTable} {source target : FieldType} {value code : Expr} {depth : Nat},
      Conversion.express methods source value depth target = .ok code → code.callsNone = true →
        ∀ {D : Declarations} (invoker : Invoker) (f : Frame) (scope : Scope) {v : Value},
          f.eval invoker scope value = .ok v → D.Conforms source v → v.WellFormed →
            f.eval invoker scope code = .ok v ∧ v.same v = true ∧
              (source.DistinctMembers → target.DistinctMembers → D.Conforms target v) := by
  refine ⟨Conversion.Convertible.refl, fun hcode hcode' => ?_, ?_⟩
  · exact (Conversion.convertible_of_express hcode).trans (Conversion.convertible_of_express hcode')
  · intro methods source target value code depth hcode hfree D invoker f scope v hvalue hv hwell
    have hdirect := Conversion.direct_of_callsNone D methods invoker.create target
      source value code depth v hcode hfree hv hwell
    rw [Conversion.eval_express invoker f hcode, hvalue]
    refine ⟨hdirect, Value.same_self hwell.distinctKeys, fun hsource htarget => ?_⟩
    exact Conversion.conforms_of_callsNone D methods target source value code depth v hcode hfree
      hsource htarget hv

/-- **A repeated member of a union stands for any other one.** Lists of two kinds of values go into
lists of one kind, if this kind is written twice, because members are compared from the side of the
target; so a list of the other kind is of the first type and not of the second. -/
theorem express_repeated_member {a b c : FieldType} {methods : MethodTable} {value : Expr}
    {depth : Nat} {D : Declarations} {v : Value} (ha : ¬ D.Conforms a v) (hb : D.Conforms b v)
    (hc : ¬ D.Conforms c (.list [v])) :
    Conversion.express methods (.union [.list (.union [a, b]), c]) value depth
        (.union [.list (.union [a, a]), c]) = .ok value ∧
      D.Conforms (.union [.list (.union [a, b]), c]) (.list [v]) ∧
      ¬ D.Conforms (.union [.list (.union [a, a]), c]) (.list [v]) := by
  refine ⟨Conversion.express_union_iff.mpr ⟨rfl, .inr ⟨_, rfl, ?_⟩⟩, ?_, fun h => ?_⟩
  · have hsame : (FieldType.list (.union [a, a])).same (.list (.union [a, b])) = true := by
      rw [FieldType.same_list, FieldType.same_union_iff]
      exact ⟨rfl, by simp [FieldType.same_self]⟩
    rw [FieldType.included_iff]
    simp [hsame, FieldType.same_self]
  · exact .union List.mem_cons_self (.list fun item hitem =>
      List.mem_singleton.mp hitem ▸ .union (by simp) hb)
  · cases h with
    | @union _ member _ hmember hvalue =>
      rcases List.mem_pair.mp hmember with rfl | rfl
      · cases hvalue with
        | list hitems =>
          cases hitems v List.mem_cons_self with
          | @union _ kind _ hkind hitem =>
            obtain rfl : kind = a := by simpa using hkind
            exact ha hitem
      · exact hc hvalue

namespace Sample

/-- Texts and numbers, each of which may be missing. -/
def scores : FieldType := .set (.optional (.union [.builtin .str, .builtin .int]))

/-- A method of no account, invoked on a set of numbers. -/
def scoresFrame : Frame :=
  MappingMethod.frame
    ⟨⟨9, "Game"⟩, ⟨⟨10, "GameView"⟩, [], .dataclass⟩, .create, ⟨"convert", [], "", []⟩, []⟩
    (.set [.int 1, .int 2]) (Extra.value []) none

/-- There are no classes but the builtin ones. -/
def builtinOnly : Declarations := ⟨[], [], .nil, nofun, nofun⟩

end Sample

/-- Two numbers in a set are the same two numbers as scores, and anything as well. -/
theorem express_lossless_scores :
    (∀ invoker, Sample.scoresFrame.eval invoker [] (.setOf (.var "x0") "x0" .self)
        = .ok (.set [.int 1, .int 2])) ∧
      Sample.builtinOnly.Conforms Sample.scores (.set [.int 1, .int 2]) ∧
      Conversion.Convertible .none (.set (.builtin .int)) (.set .any) := by
  have hcode : Conversion.express .none (.set (.builtin .int)) .self 0 Sample.scores
      = .ok (.setOf (.var "x0") "x0" .self) := rfl
  have hcode' : Conversion.express .none Sample.scores .self 0 (.set .any)
      = .ok (.setOf (.var "x0") "x0" .self) := rfl
  have hv : Sample.builtinOnly.Conforms (.set (.builtin .int)) (.set [.int 1, .int 2]) := by
    refine .set fun item hitem => .builtin (show _ = Builtin.int.id from rfl) ?_
    revert item
    simp [Builtin.holds]
  have hwell : (Value.set [.int 1, .int 2]).WellFormed := by
    refine .of_parts (by simp [Value.DistinctParts, Value.same]) fun part hpart => ?_
    rcases List.mem_pair.mp hpart with rfl | rfl <;> exact .of_parts trivial (by simp [Value.parts])
  have hsource : (FieldType.set (.builtin .int)).DistinctMembers := .set (.named _)
  have htarget : Sample.scores.DistinctMembers := by
    refine .set (.optional (.union (List.pairwise_pair.mpr (by decide)) fun member hmember => ?_))
    rcases List.mem_pair.mp hmember with rfl | rfl <;> exact .named _
  have hlossless := fun invoker => express_lossless.2.2 hcode rfl invoker Sample.scoresFrame []
    eval_self hv hwell
  exact ⟨fun invoker => (hlossless invoker).1,
    (hlossless ⟨fun _ _ => .ok .none, fun _ target => (.ok (), target)⟩).2.2 hsource htarget,
    express_lossless.2.1 hcode hcode'⟩

end ObjectMapping
