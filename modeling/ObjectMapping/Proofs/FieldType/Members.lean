import ObjectMapping.FieldType.Classification
import ObjectMapping.Proofs.FieldType.Normal
import ObjectMapping.Proofs.Keyed

/-! # The types that written types stand for are in normal form

A tree is classified by the arms of the union that it writes: all trees inside nested unions and
optional types that are neither, in order. The members of the union are the distinct types among
those of the arms.

* `FieldType.arms`: the types of the arms of a tree, as often as they are written.
* `FieldType.ofTree_eq`, `FieldType.ofTree_eq_distinct`: the type of a tree in terms of its arms.
* **`FieldType.normal_of_ofTree`** — the type of a tree is in normal form. -/

namespace ObjectMapping

open Outcome

/-- Induction on a tree, with the hypothesis for all arguments. -/
@[induction_eliminator]
theorem TypeTree.byArguments {motive : TypeTree → Prop} (name : ∀ head, motive (.name head))
    (generic : ∀ head args, (∀ arg ∈ args, motive arg) → motive (.generic head args))
    (tree : TypeTree) : motive tree := by
  refine @TypeTree.rec motive (fun trees => ∀ tree ∈ trees, motive tree) name generic ?_ ?_ tree
  · simp
  · intro head tail hhead htail tree hmem
    rcases List.mem_cons.mp hmem with rfl | htree
    · exact hhead
    · exact htail tree htree

namespace FieldType

variable {ns : Namespace} {tree : TypeTree} {head : String} {type : FieldType}
  {types : List FieldType}

/-! ## Arms -/

mutual

/-- The types of the arms of the union that a tree writes, as often as they are written. -/
def arms (ns : Namespace) : TypeTree → Except Error (List FieldType)
  | .name head => if isNone head then .ok [] else (ofName ns head).map ([·])
  | .generic head args =>
      if head == "Union" then allArms ns args
      else if head == "Optional" then
        match args with
        | [arg] => arms ns arg
        | _ => unsupported (.generic head args) "no known type shape matches"
      else (ofCollection head args (ofTrees ns args)).map ([·])

/-- The types of the arms that the trees of a list write. -/
def allArms (ns : Namespace) : List TypeTree → Except Error (List FieldType)
  | [] => .ok []
  | arg :: rest => do return (← arms ns arg) ++ (← allArms ns rest)

end

/-- Adding a tree to the members of a union is adding the types of its arms. -/
theorem addMembers_eq (tree : TypeTree) (members : List FieldType) :
    addMembers ns members tree
      = (arms ns tree).map fun types => types.foldl insertMember members := by
  induction tree generalizing members with
  | name head =>
    rw [addMembers, arms]
    split
    · rfl
    · cases ofName ns head <;> rfl
  | generic head args ih =>
    unfold addMembers arms
    -- the arms of a list are added tree by tree
    have hall : ∀ members, addAllMembers ns members args
        = (allArms ns args).map fun types => types.foldl insertMember members := by
      clear * - ih
      induction args with
      | nil => exact fun members => by rw [addAllMembers, allArms]; rfl
      | cons arg rest ihRest =>
        intro members
        rw [addAllMembers, allArms, ih arg List.mem_cons_self]
        cases arms ns arg with
        | error e => rfl
        | ok types =>
          simp only [Except.map, ok_bind]
          rw [ihRest fun other hmem => ih other (List.mem_cons_of_mem _ hmem)]
          cases allArms ns rest with
          | error e => rfl
          | ok others => simp [Except.map]
    split
    · exact hall members
    · split
      · rcases args with _ | ⟨arg, _ | ⟨_, _⟩⟩
        · rfl
        · exact ih arg List.mem_cons_self members
        · rfl
      · cases ofCollection head args (ofTrees ns args) <;> rfl

/-- The type of a tree is made of the types of its arms, added one after another. -/
theorem ofTree_eq (tree : TypeTree) :
    ofTree ns tree = arms ns tree >>= fun types => ofMembers tree (types.foldl insertMember []) := by
  rw [ofTree, addMembers_eq]
  cases arms ns tree <;> rfl

/-- Written types are read one by one. -/
theorem ofTrees_eq_mapM (args : List TypeTree) : ofTrees ns args = args.mapM (ofTree ns) := by
  induction args with
  | nil => rw [ofTrees]; rfl
  | cons arg rest ih =>
    rw [ofTrees, List.mapM_cons, ih, ofTree, bind_assoc]

/-! ## Collections -/

/-- The number of arguments of a collection, unless it takes any number. -/
def Collection.arity? : Collection → Option Nat
  | .list | .set => some 1
  | .dict => some 2
  | .tuple => none

/-- The collection of a kind, if it is no tuple, with the given parts. -/
def ofParts (tree : TypeTree) : Collection → List FieldType → Except Error FieldType
  | .list, [item] => .ok (.list item)
  | .set, [item] => .ok (.set item)
  | _, [key, value] => .ok (.dict key value)
  | _, _ => unsupported tree "wrong number of type arguments"

/-- The single argument of an empty tuple starts with a pair of parentheses. -/
theorem isUnit_iff {args : List TypeTree} :
    isUnit args = true ↔ ∃ arg, args = [arg] ∧ arg.head = "()" := by
  rcases args with _ | ⟨arg, _ | _⟩ <;> simp [isUnit]

/-- A collection is read from as many arguments as it takes, and from no other number. -/
theorem ofCollection_of_arity {kind : Collection} {n : Nat} {args : List TypeTree}
    {types : Except Error (List FieldType)} (hkind : collection? head = some kind)
    (harity : kind.arity? = some n) :
    ofCollection head args types
      = if args.length = n then types >>= ofParts (.generic head args) kind
        else unsupported (.generic head args) "wrong number of type arguments" := by
  unfold ofCollection
  rw [hkind]
  cases kind with
  | tuple => cases harity
  | list =>
    obtain rfl := Option.some.inj harity
    rcases args with _ | ⟨_, _ | _⟩
    · rfl
    · exact bind_congr fun items => by rcases items with _ | ⟨_, _ | ⟨_, _ | _⟩⟩ <;> rfl
    · rfl
  | set =>
    obtain rfl := Option.some.inj harity
    rcases args with _ | ⟨_, _ | _⟩
    · rfl
    · exact bind_congr fun items => by rcases items with _ | ⟨_, _ | ⟨_, _ | _⟩⟩ <;> rfl
    · rfl
  | dict =>
    obtain rfl := Option.some.inj harity
    rcases args with _ | ⟨_, _ | ⟨_, _ | _⟩⟩
    · rfl
    · rfl
    · exact bind_congr fun items => by rcases items with _ | ⟨_, _ | ⟨_, _ | _⟩⟩ <;> rfl
    · rfl

/-- A tuple is read from any number of arguments, but an ellipsis is refused and a pair of
parentheses stands for no item. -/
theorem ofCollection_tuple {args : List TypeTree} {types : Except Error (List FieldType)}
    (hkind : collection? head = some .tuple) :
    ofCollection head args types
      = if args.any fun arg => arg.head == "..." then
          unsupported (.generic head args) "variable-length tuples are not supported"
        else if isUnit args then .ok (.tuple []) else types.map .tuple := by
  unfold ofCollection
  rw [hkind]

/-! ## Normal forms -/

/-- A type that can be a member of a union in normal form. -/
def IsMember (type : FieldType) : Prop := type.isSingle = true ∧ type.Normal

/-- What a name stands for can be a member of a union. -/
theorem isMember_of_ofName (h : ofName ns head = .ok type) : type.IsMember := by
  rw [ofName] at h
  split at h
  · obtain rfl := Except.ok.inj h
    exact ⟨rfl, .any⟩
  · split at h
    · cases h
    · cases h
    · split at h
      · obtain rfl := Except.ok.inj h
        exact ⟨rfl, .named _⟩
      · cases h

/-- A collection of types in normal form is in normal form. -/
theorem isMember_of_ofParts {kind : Collection} (htypes : ∀ item ∈ types, item.Normal)
    (h : ofParts tree kind types = .ok type) : type.IsMember := by
  unfold ofParts at h
  split at h
  · obtain rfl := Except.ok.inj h
    exact ⟨rfl, .list (htypes _ List.mem_cons_self)⟩
  · obtain rfl := Except.ok.inj h
    exact ⟨rfl, .set (htypes _ List.mem_cons_self)⟩
  · obtain rfl := Except.ok.inj h
    exact ⟨rfl, .dict (htypes _ List.mem_cons_self) (htypes _ (by simp))⟩
  · cases h

/-- A collection of normal forms can be a member of a union. -/
theorem isMember_of_ofCollection {args : List TypeTree} {types : Except Error (List FieldType)}
    (htypes : ∀ items, types = .ok items → ∀ item ∈ items, item.Normal)
    (h : ofCollection head args types = .ok type) : type.IsMember := by
  cases hkind : collection? head with
  | none =>
    unfold ofCollection at h
    rw [hkind] at h
    cases h
  | some kind =>
    cases harity : kind.arity? with
    | some n =>
      rw [ofCollection_of_arity hkind harity] at h
      split at h
      · obtain ⟨items, hitems, hparts⟩ := bind_eq_ok.mp h
        exact isMember_of_ofParts (htypes items hitems) hparts
      · cases h
    | none =>
      obtain rfl : kind = .tuple := by cases kind <;> first | rfl | cases harity
      rw [ofCollection_tuple hkind] at h
      split at h
      · cases h
      · split at h
        · obtain rfl := Except.ok.inj h
          exact ⟨rfl, .tuple nofun⟩
        · obtain ⟨items, hitems, rfl⟩ := map_eq_ok.mp h
          exact ⟨rfl, .tuple (htypes items hitems)⟩

/-- Different members make up a normal form. -/
theorem normal_of_ofMembers (hdistinct : types.Pairwise fun a later => later.same a = false)
    (hmembers : ∀ member ∈ types, member.IsMember) (h : ofMembers tree types = .ok type) :
    type.Normal := by
  -- `None` among the arms is put around what the others make
  have horNone : ∀ inner : FieldType, inner.Normal → inner.isOptional = false →
      (if addsNone tree then orNone inner else inner).Normal := by
    intro inner hinner hpresent
    split
    · cases inner with
      | optional inner => cases hpresent
      | _ => exact .optional hinner rfl
    · exact hinner
  rw [ofMembers.eq_def] at h
  dsimp only at h
  split at h
  · cases h
  · next member =>
    obtain rfl := Except.ok.inj h
    obtain ⟨hsingle, hnormal⟩ := hmembers member List.mem_cons_self
    refine horNone member hnormal ?_
    cases member with
    | optional inner => cases hsingle
    | _ => rfl
  · next hnil hone =>
    obtain rfl := Except.ok.inj h
    refine horNone _ (.union ?_ hdistinct (fun m hm => (hmembers m hm).1)
      fun m hm => (hmembers m hm).2) rfl
    match types with
    | [] => exact absurd rfl hnil
    | [member] => exact absurd rfl (hone member)
    | _ :: _ :: _ => exact Nat.le_add_left 2 _

/-- Among types in normal form it does not matter from which side they are compared. -/
theorem insertMember_eq {members : List FieldType} (hmembers : ∀ member ∈ members, member.Normal)
    (htype : type.Normal) : insertMember members type = Keyed.insertElement members type := by
  have hany : contains members type = members.any (type == ·) := by
    rw [contains_eq_any, Bool.eq_iff_iff, List.any_eq_true, List.any_eq_true]
    refine exists_congr fun member => and_congr_right fun hmem => ?_
    exact ⟨(hmembers member hmem).same_symm htype, htype.same_symm (hmembers member hmem)⟩
  rw [insertMember, Keyed.insertElement, hany]

/-- Types in normal form are added one after another as any elements are. -/
theorem foldl_insertMember_eq {members : List FieldType} (hmembers : ∀ member ∈ members, member.Normal)
    (h : ∀ type ∈ types, type.Normal) :
    types.foldl insertMember members = types.foldl Keyed.insertElement members := by
  induction types generalizing members with
  | nil => rfl
  | cons type rest ih =>
    rw [List.forall_mem_cons] at h
    rw [List.foldl_cons, List.foldl_cons, insertMember_eq hmembers h.1]
    refine ih (fun member hmem => ?_) h.2
    rw [Keyed.insertElement] at hmem
    split at hmem
    · exact hmembers member hmem
    · rcases List.mem_append.mp hmem with hmem | hmem
      · exact hmembers member hmem
      · exact List.mem_singleton.mp hmem ▸ h.1

/-- Adding types in normal form to no others leaves the distinct ones. -/
theorem foldl_insertMember_nil (h : ∀ type ∈ types, type.Normal) :
    types.foldl insertMember [] = Keyed.distinct types :=
  foldl_insertMember_eq (List.forall_mem_nil _) h

/-- The type of a tree is in normal form if those of its arms can be members. -/
theorem normal_of_arms {t : TypeTree}
    (harms : ∀ types, arms ns t = .ok types → ∀ type ∈ types, type.IsMember)
    (h : ofTree ns t = .ok type) : type.Normal := by
  rw [ofTree_eq] at h
  obtain ⟨types, htypes, hmembers⟩ := bind_eq_ok.mp h
  rw [foldl_insertMember_nil fun type hmem => (harms types htypes type hmem).2] at hmembers
  exact normal_of_ofMembers (Keyed.pairwise_distinct types)
    (fun member hmem => harms types htypes member (Keyed.mem_of_mem_distinct hmem)) hmembers

/-- The types of arms can be members of a union. -/
theorem isMember_of_arms (h : arms ns tree = .ok types) (hmem : type ∈ types) : type.IsMember := by
  induction tree generalizing types type with
  | name head =>
    unfold arms at h
    split at h
    · obtain rfl := Except.ok.inj h
      cases hmem
    · obtain ⟨single, hsingle, rfl⟩ := map_eq_ok.mp h
      obtain rfl := List.mem_singleton.mp hmem
      exact isMember_of_ofName hsingle
  | generic head args ih =>
    unfold arms at h
    split at h
    · -- a union has the arms of all its arguments
      clear * - ih h hmem
      induction args generalizing types with
      | nil =>
        rw [allArms] at h
        obtain rfl := Except.ok.inj h
        cases hmem
      | cons arg rest ihRest =>
        rw [allArms] at h
        obtain ⟨first, hfirst, hrest⟩ := bind_eq_ok.mp h
        obtain ⟨others, hothers, happend⟩ := bind_eq_ok.mp hrest
        obtain rfl := Except.ok.inj happend
        rcases List.mem_append.mp hmem with hmem | hmem
        · exact ih arg List.mem_cons_self hfirst hmem
        · exact ihRest (fun other hother => ih other (List.mem_cons_of_mem _ hother)) hmem hothers
    · split at h
      · split at h
        · exact ih _ List.mem_cons_self h hmem
        · cases h
      · -- a collection is an arm of its own; the types in it are made of other arms
        obtain ⟨single, hsingle, rfl⟩ := map_eq_ok.mp h
        obtain rfl := List.mem_singleton.mp hmem
        refine isMember_of_ofCollection (fun items hitems item hitem => ?_) hsingle
        rw [ofTrees_eq_mapM] at hitems
        obtain ⟨arg, harg, htype⟩ := exists_mem_of_mem_mapM hitems hitem
        exact normal_of_arms (fun types htypes type htype => ih arg harg htypes htype) htype

/-- **The type of a tree is made of the distinct types of its arms.** -/
theorem ofTree_eq_distinct (tree : TypeTree) :
    ofTree ns tree = arms ns tree >>= fun types => ofMembers tree (Keyed.distinct types) := by
  rw [ofTree_eq]
  cases harms : arms ns tree with
  | error e => rfl
  | ok types =>
    rw [ok_bind, ok_bind, foldl_insertMember_nil fun type hmem => (isMember_of_arms harms hmem).2]

/-- **The type of a tree is in normal form.** -/
theorem normal_of_ofTree (h : ofTree ns tree = .ok type) : type.Normal :=
  normal_of_arms (fun _ harms _ hmem => isMember_of_arms harms hmem) h

end FieldType

end ObjectMapping
