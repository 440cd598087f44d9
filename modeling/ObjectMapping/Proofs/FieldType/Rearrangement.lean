import ObjectMapping.Proofs.FieldType.Members
import ObjectMapping.Proofs.TypeTree.Grammar

/-! # Unions are read as sets

A union can be written in many ways: its arms in another order or more than once, inside a nested
union, and `None` among them or by an optional type. All of these stand for the same type, wherever
they are written.

* **`TypeTree.Rearranges`** — two trees differ in how unions are written only.
* `FieldType.Interchanges`: what such trees have in common: arms with the same types, and whether
  `None` is among them; **`FieldType.interchanges_of_rearranges`** shows it rule by rule.
* **`FieldType.normal_and_rearranges`** — types are in normal form, and trees that differ in how
  unions are written only are both rejected, or stand for equal types. -/

namespace ObjectMapping

open Outcome

/-- Two trees differ in how unions are written only. A union is written as `Union` with arguments, or
as `Optional` with one; terms with bars between them are read as the arguments of a `Union`. -/
inductive TypeTree.Rearranges : TypeTree → TypeTree → Prop
  | refl (tree : TypeTree) : Rearranges tree tree
  | symm {s t : TypeTree} (h : Rearranges s t) : Rearranges t s
  | trans {s t u : TypeTree} (h : Rearranges s t) (h' : Rearranges t u) : Rearranges s u
  /-- The unions that differ stand in an argument. -/
  | inside {head : String} {before after : List TypeTree} {s t : TypeTree} (h : Rearranges s t) :
      Rearranges (.generic head (before ++ s :: after)) (.generic head (before ++ t :: after))
  /-- The arms of a union are written in another order. -/
  | permute {args others : List TypeTree} (h : args.Perm others) :
      Rearranges (.generic "Union" args) (.generic "Union" others)
  /-- An arm is written once more. -/
  | duplicate {args : List TypeTree} {arm : TypeTree} (h : arm ∈ args) :
      Rearranges (.generic "Union" args) (.generic "Union" (arm :: args))
  /-- The arms of a nested union are written among those of the outer one. -/
  | flatten {inner rest : List TypeTree} :
      Rearranges (.generic "Union" (.generic "Union" inner :: rest))
        (.generic "Union" (inner ++ rest))
  /-- An optional type is written as a union with `None`. -/
  | optional {arg : TypeTree} {none : String} (h : FieldType.isNone none = true) :
      Rearranges (.generic "Optional" [arg]) (.generic "Union" [arg, .name none])

namespace FieldType

variable {ns : Namespace} {s t : TypeTree} {head : String} {args others : List TypeTree}

/-! ## The same members -/

/-- Every type of either list is equal to one of the other. -/
structure SameMembers (types others : List FieldType) : Prop where
  left : ∀ a ∈ types, ∃ b ∈ others, a.same b = true
  right : ∀ b ∈ others, ∃ a ∈ types, b.same a = true

section SameMembers

variable {as bs cs ds : List FieldType}

/-- Lists that contain the same types have the same members. -/
theorem sameMembers_of_mem_iff (h : ∀ type, type ∈ as ↔ type ∈ bs) : SameMembers as bs :=
  ⟨fun a ha => ⟨a, (h a).mp ha, same_self a⟩, fun b hb => ⟨b, (h b).mpr hb, same_self b⟩⟩

/-- Having the same members is symmetric. -/
theorem SameMembers.symm (h : SameMembers as bs) : SameMembers bs as := ⟨h.right, h.left⟩

/-- Having the same members is transitive. -/
theorem SameMembers.trans (h : SameMembers as bs) (h' : SameMembers bs cs) : SameMembers as cs := by
  constructor
  · intro a ha
    obtain ⟨b, hb, hab⟩ := h.left a ha
    obtain ⟨c, hc, hbc⟩ := h'.left b hb
    exact ⟨c, hc, same_trans hab hbc⟩
  · intro c hc
    obtain ⟨b, hb, hcb⟩ := h'.right c hc
    obtain ⟨a, ha, hba⟩ := h.right b hb
    exact ⟨a, ha, same_trans hcb hba⟩

/-- Lists with the same members are extended to lists with the same members. -/
theorem SameMembers.append (h : SameMembers as bs) (h' : SameMembers cs ds) :
    SameMembers (as ++ cs) (bs ++ ds) := by
  constructor
  · intro a ha
    rcases List.mem_append.mp ha with ha | ha
    · obtain ⟨b, hb, hab⟩ := h.left a ha
      exact ⟨b, List.mem_append_left _ hb, hab⟩
    · obtain ⟨d, hd, had⟩ := h'.left a ha
      exact ⟨d, List.mem_append_right _ hd, had⟩
  · intro b hb
    rcases List.mem_append.mp hb with hb | hb
    · obtain ⟨a, ha, hba⟩ := h.right b hb
      exact ⟨a, List.mem_append_left _ ha, hba⟩
    · obtain ⟨c, hc, hbc⟩ := h'.right b hb
      exact ⟨c, List.mem_append_right _ hc, hbc⟩

/-- The distinct types of a list are the same members. -/
theorem sameMembers_distinct (types : List FieldType) :
    SameMembers types (Keyed.distinct types) :=
  ⟨fun a ha => Keyed.exists_mem_distinct ha (same_self a),
    fun b hb => ⟨b, Keyed.mem_of_mem_distinct hb, same_self b⟩⟩

/-- Pairwise different members are at most as many as those that they are equal to. -/
theorem SameMembers.length_le (h : SameMembers as bs)
    (hdistinct : as.Pairwise fun a later => later.same a = false)
    (has : ∀ a ∈ as, a.IsMember) (hbs : ∀ b ∈ bs, b.IsMember) : as.length ≤ bs.length := by
  refine Value.length_le_of_apart (R := fun a b => a.same b = true) h.left ?_
  exact pairwise_apart hdistinct fun a ha b hb hab => (has a ha).2.same_symm (hbs b hb).2 hab

end SameMembers

/-! ## From members to types -/

/-- A member of a union becomes optional by itself. -/
theorem IsMember.orNone_eq {type : FieldType} (h : type.IsMember) :
    type.orNone = .optional type := by
  obtain ⟨hsingle, -⟩ := h
  cases type with
  | optional inner => cases hsingle
  | _ => rfl

/-- The same members make equal types. -/
theorem ofMembers_parallel {types others : List FieldType} (hnone : addsNone s = addsNone t)
    (hdistinct : types.Pairwise fun a later => later.same a = false)
    (hdistinct' : others.Pairwise fun a later => later.same a = false)
    (htypes : ∀ a ∈ types, a.IsMember) (hothers : ∀ b ∈ others, b.IsMember)
    (h : SameMembers types others) :
    Parallel (fun a b => a.same b = true) (ofMembers s types) (ofMembers t others) := by
  -- as neither list repeats a member, each is at most as long as the other one
  have hlength : types.length = others.length :=
    Nat.le_antisymm (h.length_le hdistinct htypes hothers)
      (h.symm.length_le hdistinct' hothers htypes)
  unfold ofMembers
  dsimp only
  rw [hnone]
  match types, others, hlength with
  | [], [], _ => exact trivial
  | [a], [b], _ =>
    obtain ⟨b', hb', hab⟩ := h.left a List.mem_cons_self
    obtain rfl := List.mem_singleton.mp hb'
    show FieldType.same _ _ = true
    split
    · rw [(htypes a List.mem_cons_self).orNone_eq, (hothers _ List.mem_cons_self).orNone_eq,
        same_optional]
      exact hab
    · exact hab
  | _ :: _ :: _, _ :: _ :: _, hlength =>
    have hunion := same_union_iff.mpr ⟨hlength, fun a ha => by
      obtain ⟨b, hb, hab⟩ := h.left a ha
      exact ⟨b, hb, (htypes a ha).2.same_symm (hothers b hb).2 hab⟩⟩
    show FieldType.same _ _ = true
    split
    · exact same_optional.trans hunion
    · exact hunion

/-! ## What rearranged trees have in common -/

/-- Trees that can stand for each other: their arms have the same types, `None` is among them in both
or in none, and both are or are not of the forms that a tuple looks for in its arguments. -/
structure Interchanges (ns : Namespace) (s t : TypeTree) : Prop where
  arms_parallel : Parallel SameMembers (arms ns s) (arms ns t)
  none_eq : addsNone s = addsNone t
  ellipsis_eq : (s.head == "...") = (t.head == "...")
  unit_eq : (s.head == "()") = (t.head == "()")

/-- **Trees that can stand for each other** are both rejected, or stand for equal types. -/
theorem Interchanges.types_parallel (h : Interchanges ns s t) :
    Parallel (fun a b => a.same b = true) (ofTree ns s) (ofTree ns t) := by
  rw [ofTree_eq_distinct, ofTree_eq_distinct]
  have harms : Parallel (fun types others => SameMembers types others ∧
      (∀ a ∈ types, a.IsMember) ∧ ∀ b ∈ others, b.IsMember) (arms ns s) (arms ns t) :=
    h.arms_parallel.mono fun types others htypes hothers hsame =>
      ⟨hsame, fun a ha => isMember_of_arms htypes ha, fun b hb => isMember_of_arms hothers hb⟩
  refine harms.bind ?_
  rintro types others ⟨hsame, htypes, hothers⟩
  exact ofMembers_parallel h.none_eq (Keyed.pairwise_distinct _) (Keyed.pairwise_distinct _)
    (fun a ha => htypes a (Keyed.mem_of_mem_distinct ha))
    (fun b hb => hothers b (Keyed.mem_of_mem_distinct hb))
    (((sameMembers_distinct types).symm.trans hsame).trans (sameMembers_distinct others))

/-! ## Lists of arms -/

/-- The arms of a union are those of its arguments. -/
theorem arms_union : arms ns (.generic "Union" args) = allArms ns args := by
  unfold arms
  rfl

/-- The arms of an optional type are those of its argument. -/
theorem arms_optional {arg : TypeTree} : arms ns (.generic "Optional" [arg]) = arms ns arg := by
  conv_lhs => unfold arms
  rfl

/-- A union adds the absence of a value if one of its arguments does. -/
theorem addsNone_union : addsNone (.generic "Union" args) = args.any addsNone := by
  have hany : ∀ args : List TypeTree, anyAddsNone args = args.any addsNone := by
    intro args
    induction args with
    | nil => rfl
    | cons arg rest ih => rw [anyAddsNone, List.any_cons, ih]
  rw [addsNone, ← hany]
  rfl

/-- The arms of arguments are found one by one and put together. -/
theorem allArms_eq (args : List TypeTree) :
    allArms ns args = (args.mapM (arms ns)).map List.flatten := by
  induction args with
  | nil => rfl
  | cons arg rest ih =>
    rw [allArms, List.mapM_cons, ih]
    cases arms ns arg with
    | error e => rfl
    | ok own => cases rest.mapM (arms ns) <;> rfl

/-- The arms of some arguments and of others are put together. -/
theorem allArms_append : allArms ns (args ++ others) = do
    return (← allArms ns args) ++ (← allArms ns others) := by
  simp only [allArms_eq, List.mapM_append]
  cases args.mapM (arms ns) with
  | error e => rfl
  | ok groups =>
    cases others.mapM (arms ns) with
    | error e => rfl
    | ok groups' => simp [Except.map]

/-- The arms of a list of trees are those of its elements. -/
theorem mem_allArms {types : List FieldType} (h : allArms ns args = .ok types) (type : FieldType) :
    type ∈ types ↔ ∃ arg ∈ args, ∃ own, arms ns arg = .ok own ∧ type ∈ own := by
  rw [allArms_eq] at h
  obtain ⟨groups, hgroups, rfl⟩ := map_eq_ok.mp h
  have hall := mapM_eq_ok.mp hgroups
  rw [List.mem_flatten]
  constructor
  · rintro ⟨own, hown, htype⟩
    obtain ⟨arg, harg, harms⟩ := exists_of_forall₂ hall.flip hown
    exact ⟨arg, harg, own, harms, htype⟩
  · rintro ⟨arg, harg, own, harms, htype⟩
    obtain ⟨own', hown', harms'⟩ := exists_of_forall₂ hall harg
    obtain rfl := Except.ok.inj (harms.symm.trans harms')
    exact ⟨own, hown', htype⟩

/-- Whether the arms of a list of trees have types depends on its elements only. -/
theorem exists_allArms_of_subset (hsubset : ∀ arg ∈ args, arg ∈ others) {types : List FieldType}
    (h : allArms ns others = .ok types) : ∃ types', allArms ns args = .ok types' := by
  rw [allArms_eq] at h ⊢
  obtain ⟨groups, hgroups, -⟩ := map_eq_ok.mp h
  obtain ⟨groups', hgroups'⟩ : ∃ groups', args.mapM (arms ns) = .ok groups' :=
    exists_mapM_eq_ok fun arg harg => by
      obtain ⟨own, -, hown⟩ := exists_of_forall₂ (mapM_eq_ok.mp hgroups) (hsubset arg harg)
      exact ⟨own, hown⟩
  exact ⟨groups'.flatten, by rw [hgroups']; rfl⟩

/-- **Unions with the same arms**, in whatever order and however often, can stand for each other. -/
theorem interchanges_union (h : ∀ arg, arg ∈ args ↔ arg ∈ others) :
    Interchanges ns (.generic "Union" args) (.generic "Union" others) where
  arms_parallel := by
    rw [arms_union, arms_union]
    cases hargs : allArms ns args with
    | error e =>
      cases hothers : allArms ns others with
      | error e' => exact trivial
      | ok types' =>
        obtain ⟨types, htypes⟩ := exists_allArms_of_subset (fun arg => (h arg).mp) hothers
        rw [hargs] at htypes
        cases htypes
    | ok types =>
      obtain ⟨types', htypes'⟩ := exists_allArms_of_subset (fun arg => (h arg).mpr) hargs
      rw [htypes']
      refine sameMembers_of_mem_iff fun type => ?_
      rw [mem_allArms hargs, mem_allArms htypes']
      simp only [h]
  none_eq := by
    rw [addsNone_union, addsNone_union, Bool.eq_iff_iff, List.any_eq_true, List.any_eq_true]
    simp only [h]
  ellipsis_eq := rfl
  unit_eq := rfl

/-! ## Arguments of collections -/

/-- Collections of equal parts are equal. -/
theorem ofParts_parallel {tree tree' : TypeTree} (kind : Collection) {items items' : List FieldType}
    (h : List.Forall₂ (fun a b => a.same b = true) items items') :
    Parallel (fun a b => a.same b = true) (ofParts tree kind items) (ofParts tree' kind items') := by
  have hdict : ∀ {a b c d : FieldType}, a.same b = true → c.same d = true →
      (dict a c).same (dict b d) = true := fun hab hcd => by rw [same_dict, hab, hcd, Bool.true_and]
  -- only one or two parts make a collection
  cases h with
  | nil => cases kind <;> exact trivial
  | cons hfirst hrest =>
    cases hrest with
    | nil =>
      cases kind with
      | list => exact same_list.trans hfirst
      | set => exact same_set.trans hfirst
      | dict => exact trivial
      | tuple => exact trivial
    | cons hsecond hrest =>
      cases hrest with
      | nil => cases kind <;> exact hdict hfirst hsecond
      | cons _ _ => cases kind <;> exact trivial

/-- Collections of equal types are equal. -/
theorem ofCollection_parallel {types types' : Except Error (List FieldType)}
    (hlength : args.length = others.length)
    (hellipsis : (args.any fun arg => arg.head == "...") = others.any fun arg => arg.head == "...")
    (hunit : isUnit args = isUnit others)
    (htypes : Parallel (List.Forall₂ fun a b => a.same b = true) types types') :
    Parallel (fun a b => a.same b = true) (ofCollection head args types)
      (ofCollection head others types') := by
  cases hkind : collection? head with
  | none =>
    unfold ofCollection
    rw [hkind]
    exact trivial
  | some kind =>
    cases harity : kind.arity? with
    | some n =>
      rw [ofCollection_of_arity hkind harity, ofCollection_of_arity hkind harity, hlength]
      split
      · exact htypes.bind fun items items' hitems => ofParts_parallel kind hitems
      · exact trivial
    | none =>
      -- only tuples take any number of arguments
      obtain rfl : kind = .tuple := by cases kind <;> first | rfl | cases harity
      rw [ofCollection_tuple hkind, ofCollection_tuple hkind, hellipsis, hunit]
      split
      · exact trivial
      · split
        · exact same_self _
        · refine htypes.map fun items items' hitems => ?_
          rw [same_tuple, sameAll_iff]
          exact hitems

/-- Trees that can stand for each other can do so in an argument of a collection. -/
theorem Interchanges.collections_parallel (h : Interchanges ns s t) (head : String)
    (before after : List TypeTree) :
    Parallel (fun a b => a.same b = true)
      (ofCollection head (before ++ s :: after) (ofTrees ns (before ++ s :: after)))
      (ofCollection head (before ++ t :: after) (ofTrees ns (before ++ t :: after))) := by
  refine ofCollection_parallel (by simp) ?_ ?_ ?_
  · simp only [List.any_append, List.any_cons, h.ellipsis_eq]
  · rcases before with _ | ⟨_, _ | _⟩
    · rcases after with _ | _
      · exact h.unit_eq
      · rfl
    · rfl
    · rfl
  · rw [ofTrees_eq_mapM, ofTrees_eq_mapM]
    have hself : ∀ args : List TypeTree, List.Forall₂ (fun x y =>
        Parallel (fun a b => a.same b = true) (ofTree ns x) (ofTree ns y))
        args args := fun args =>
      List.forall₂_same.mpr fun arg _ => related_self (fun _ => trivial) fun a _ => same_self a
    exact related_mapM (List.rel_append (hself before) (.cons h.types_parallel (hself after)))

/-! ## Arguments -/

/-- Equal types are the same members. -/
theorem SameMembers.singleton {a b : FieldType} (ha : a.Normal) (hb : b.Normal)
    (hab : a.same b = true) : SameMembers [a] [b] := by
  refine ⟨fun x hx => ⟨b, List.mem_singleton.mpr rfl, ?_⟩,
    fun y hy => ⟨a, List.mem_singleton.mpr rfl, ?_⟩⟩
  · rwa [List.mem_singleton.mp hx]
  · rw [List.mem_singleton.mp hy]
    exact ha.same_symm hb hab

/-- What is neither `Union` nor `Optional` is a collection, which is a single arm. -/
theorem arms_collection (hunion : head ≠ "Union") (hoptional : head ≠ "Optional") :
    arms ns (.generic head args) = (ofCollection head args (ofTrees ns args)).map ([·]) := by
  unfold arms
  simp [hunion, hoptional]

namespace Interchanges

/-- In a union trees that can stand for each other lead to the same arms. -/
theorem arms_in_union (h : Interchanges ns s t) (before after : List TypeTree) :
    Parallel SameMembers (arms ns (.generic "Union" (before ++ s :: after)))
      (arms ns (.generic "Union" (before ++ t :: after))) := by
  rw [arms_union, arms_union, allArms_append, allArms_append, allArms, allArms]
  have hself : ∀ args : List TypeTree,
      Parallel SameMembers (allArms ns args) (allArms ns args) := fun args =>
    related_self (fun _ => trivial) fun _ _ => sameMembers_of_mem_iff fun _ => .rfl
  have hafter : Parallel SameMembers
      (do return (← arms ns s) ++ (← allArms ns after))
      (do return (← arms ns t) ++ (← allArms ns after)) :=
    h.arms_parallel.bind fun _ _ hown => (hself after).bind fun _ _ hrest => hown.append hrest
  exact (hself before).bind fun _ _ hbefore => hafter.bind fun _ _ hrest => hbefore.append hrest

/-- In an optional type trees that can stand for each other lead to the same arms. -/
theorem arms_in_optional (h : Interchanges ns s t) (before after : List TypeTree) :
    Parallel SameMembers (arms ns (.generic "Optional" (before ++ s :: after)))
      (arms ns (.generic "Optional" (before ++ t :: after))) := by
  -- only one argument makes an optional type
  rcases before with _ | ⟨_, _ | _⟩
  · rcases after with _ | _
    · rw [List.nil_append, List.nil_append, arms_optional, arms_optional]
      exact h.arms_parallel
    · unfold arms
      exact trivial
  · unfold arms
    exact trivial
  · unfold arms
    exact trivial

/-- In a collection trees that can stand for each other lead to the same arms. -/
theorem arms_in_collection (h : Interchanges ns s t) (hunion : head ≠ "Union")
    (hoptional : head ≠ "Optional") (before after : List TypeTree) :
    Parallel SameMembers (arms ns (.generic head (before ++ s :: after)))
      (arms ns (.generic head (before ++ t :: after))) := by
  have hsingle : Parallel (fun types others => ∃ a b, types = [a] ∧ others = [b] ∧
        a.same b = true)
      (arms ns (.generic head (before ++ s :: after)))
      (arms ns (.generic head (before ++ t :: after))) := by
    rw [arms_collection hunion hoptional, arms_collection hunion hoptional]
    exact (h.collections_parallel head before after).map fun a b hab => ⟨a, b, rfl, rfl, hab⟩
  refine hsingle.mono ?_
  rintro _ _ htypes hothers ⟨a, b, rfl, rfl, hab⟩
  have ha := isMember_of_arms htypes (List.mem_singleton.mpr rfl)
  have hb := isMember_of_arms hothers (List.mem_singleton.mpr rfl)
  exact .singleton ha.2 hb.2 hab

/-- Trees that can stand for each other can do so in an argument. -/
theorem inside (h : Interchanges ns s t) (head : String) (before after : List TypeTree) :
    Interchanges ns (.generic head (before ++ s :: after))
      (.generic head (before ++ t :: after)) where
  arms_parallel := by
    by_cases hunion : head = "Union"
    · exact hunion ▸ h.arms_in_union before after
    · by_cases hoptional : head = "Optional"
      · exact hoptional ▸ h.arms_in_optional before after
      · exact h.arms_in_collection hunion hoptional before after
  none_eq := by
    by_cases hunion : head = "Union"
    · subst hunion
      simp only [addsNone_union, List.any_append, List.any_cons, h.none_eq]
    · unfold addsNone
      simp [hunion]
  ellipsis_eq := rfl
  unit_eq := rfl

end Interchanges

/-- **Trees that differ in how unions are written only can stand for each other.** -/
theorem interchanges_of_rearranges (ns : Namespace) (h : s.Rearranges t) : Interchanges ns s t := by
  induction h with
  | refl tree =>
    refine ⟨related_self (fun _ => trivial) fun _ _ => ?_, rfl, rfl, rfl⟩
    exact sameMembers_of_mem_iff fun _ => .rfl
  | symm _ ih =>
    refine ⟨ih.arms_parallel.symm (fun _ _ _ => trivial) fun _ _ hsame => hsame.symm,
      ih.none_eq.symm, ih.ellipsis_eq.symm, ih.unit_eq.symm⟩
  | trans _ _ ih ih' =>
    refine ⟨ih.arms_parallel.trans ih'.arms_parallel (fun _ _ _ _ _ => trivial)
        fun _ _ _ hsame => hsame.trans,
      ih.none_eq.trans ih'.none_eq, ih.ellipsis_eq.trans ih'.ellipsis_eq,
      ih.unit_eq.trans ih'.unit_eq⟩
  | inside _ ih => exact ih.inside _ _ _
  | permute hperm => exact interchanges_union fun arg => hperm.mem_iff
  | duplicate harm =>
    -- what is written twice adds no arms
    refine interchanges_union fun arg => ?_
    rw [List.mem_cons]
    exact ⟨.inr, fun h => h.elim (fun heq => heq ▸ harm) id⟩
  | @flatten inner rest =>
    refine ⟨?_, ?_, rfl, rfl⟩
    · rw [arms_union, arms_union, allArms, allArms_append, arms_union]
      exact related_self (fun _ => trivial) fun _ _ => sameMembers_of_mem_iff fun _ => .rfl
    · rw [addsNone_union, addsNone_union, List.any_cons, List.any_append, addsNone_union]
  | @optional arg none hnone =>
    refine ⟨?_, ?_, rfl, rfl⟩
    · -- the absent value has no arms of its own, and both forms add it
      have hname : arms ns (.name none) = .ok [] := by
        unfold arms
        rw [if_pos hnone]
      rw [arms_union, allArms, allArms, allArms, hname, arms_optional]
      cases arms ns arg with
      | error e => exact trivial
      | ok own => exact sameMembers_of_mem_iff fun type => by simp
    · rw [addsNone_union]
      simp [addsNone, hnone]

/-- **Classification produces normal forms and reads unions as sets.** The type that a text describes
is in normal form. If two trees differ in how unions are written only, then both are rejected, or
both are accepted and stand for equal types; and so it is with the texts that write them, which may
put bars between the arms of a union. -/
theorem normal_and_rearranges (ns : Namespace) :
    (∀ text type, parse ns text = .ok type → type.Normal) ∧
      (∀ s t : TypeTree, s.Rearranges t →
        Parallel (fun a b => a.same b = true) (ofTree ns s) (ofTree ns t)) ∧
      ∀ (text other : String) (s t : TypeTree), TypeTree.Writes text s → TypeTree.Writes other t →
        s.Rearranges t →
        Parallel (fun a b => a.same b = true) (parse ns text) (parse ns other) := by
  refine ⟨fun text type h => ?_, fun s t h => ?_, fun text other s t htext hother h => ?_⟩
  · obtain ⟨tree, -, htree⟩ := bind_eq_ok.mp h
    exact normal_of_ofTree htree
  · exact (interchanges_of_rearranges ns h).types_parallel
  · have htypes := (interchanges_of_rearranges ns h).types_parallel
    unfold parse
    rw [TypeTree.parse_of_writes htext, TypeTree.parse_of_writes hother]
    exact htypes

/-- Arms with bars between them, `None` in the middle, are the same type as an optional union. -/
theorem normal_and_rearranges_bars :
    Parallel (fun a b => a.same b = true) (parse .initial "int | None | str")
      (parse .initial "Optional[Union[str, int]]") := by
  have hbars : TypeTree.Writes "int | None | str"
      (.generic "Union" [.name "int", .name "None", .name "str"]) :=
    ⟨_, by decide +kernel, .bars (.name "int") (.cons (.name "None") (.cons (.name "str") .nil))⟩
  have hoptional : TypeTree.Writes "Optional[Union[str, int]]"
      (.generic "Optional" [.generic "Union" [.name "str", .name "int"]]) :=
    ⟨_, by decide +kernel, .term (.generic "Optional" (.last (.term (.generic "Union"
      (.cons (.term (.name "str")) (.last (.term (.name "int"))))))))⟩
  have hperm : [TypeTree.name "int", .name "None", .name "str"].Perm
      [.name "str", .name "int", .name "None"] :=
    @List.perm_append_comm TypeTree [.name "int", .name "None"] [.name "str"]
  exact (normal_and_rearranges .initial).2.2 _ _ _ _ hbars hoptional
    (.trans (.permute hperm) (.trans (.symm .flatten) (.symm (.optional (by decide)))))

end FieldType

end ObjectMapping
