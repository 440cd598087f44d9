import ObjectMapping.Proofs.Value.Rearrangement
import ObjectMapping.Value.Hashing

/-! # Equal values have equal hashes

Sets and dictionaries find their elements and keys by hash, so their equality rests on the hashes of
what they hold, which in turn have to respect that equality. For lists and tuples this goes on from
element to element; sets, dictionaries and objects write nothing of what they hold but its number.

* `pieces_eq_of_same`: equal values write the same pieces.
* `sameByHash_eq_same`: no counterpart is missed by looking among equal hashes only.
* **`Value.same_lawful`** — equality is an equivalence that does not depend on orders, and hashes
  respect it. -/

namespace ObjectMapping.Value

variable {u v w : Value} {double : Double → UInt64} {h : Hashing}

/-- Lists of values that write the same write the same together. -/
theorem allPieces_eq_of_forall₂ {items others : List Value}
    (hall : List.Forall₂ (fun a b => a.pieces double = b.pieces double) items others) :
    allPieces double items = allPieces double others := by
  induction hall with
  | nil => rfl
  | cons hab _ ih => rw [allPieces, allPieces, hab, ih]

/-- **Equal values write the same pieces** to every hasher. -/
theorem pieces_eq_of_same (hdouble : ∀ x y : Double, x.same y = true → double x = double y)
    (hsame : v.same w = true) : v.pieces double = w.pieces double := by
  induction hheight : v.height using Nat.strongRecOn generalizing v w with
  | ind n ih =>
    subst hheight
    have hparts : ∀ a ∈ v.parts, ∀ b, a.same b = true → a.pieces double = b.pieces double :=
      fun a ha b hab => ih _ (height_lt_of_mem_parts ha) hab rfl
    cases v with
    | list items =>
      obtain ⟨others, rfl, hall⟩ := exists_of_same_list hsame
      have hpieces := forall₂_imp_of_mem hall fun a ha b _ hab => hparts a ha b hab
      rw [pieces, pieces, allPieces_eq_of_forall₂ hpieces, hall.length_eq]
    | tuple items =>
      obtain ⟨others, rfl, hall⟩ := exists_of_same_tuple hsame
      have hpieces := forall₂_imp_of_mem hall fun a ha b _ hab => hparts a ha b hab
      rw [pieces, pieces, allPieces_eq_of_forall₂ hpieces, hall.length_eq]
    | set items =>
      -- nothing is written for the elements, whatever their order
      obtain ⟨others, rfl⟩ := exists_of_same_set hsame
      rw [pieces, pieces, (same_set_iff.mp hsame).1]
    | dict entries =>
      obtain ⟨others, rfl⟩ := exists_of_same_dict hsame
      rw [same, Bool.and_eq_true, beq_iff_eq] at hsame
      rw [pieces, pieces, hsame.1]
    | object owner fields assigned =>
      obtain ⟨owner', others, assigned', rfl⟩ := exists_of_same_object hsame
      rw [same, Bool.and_eq_true, Bool.and_eq_true, ClassHandle.same, beq_iff_eq, beq_iff_eq]
        at hsame
      rw [pieces, pieces, hsame.1.1, hsame.1.2]
    | float x =>
      obtain ⟨y, rfl, hxy⟩ := exists_of_same_float hsame
      rw [pieces, pieces, hdouble x y hxy]
    | member owner name =>
      obtain ⟨owner', rfl, howner⟩ := exists_of_same_member hsame
      rw [pieces, pieces, howner]
    | _ =>
      obtain rfl := eq_of_same_of_isPlain rfl hsame
      rfl

/-- **Equal values have equal hashes.** -/
theorem hash_eq_of_same (hlawful : h.Lawful) (hsame : v.same w = true) : v.hash h = w.hash h :=
  congrArg h.digest (pieces_eq_of_same hlawful hsame)

/-! ## Looking up by hash -/

/-- Whether hash tables find a value to be equal just if it is. -/
def FoundByHash (h : Hashing) (v : Value) : Prop := ∀ w, sameByHash h v w = v.same w

/-- Lists are compared by hash as they are compared. -/
theorem allSameByHash_eq {items : List Value} (hitems : ∀ item ∈ items, FoundByHash h item)
    (others : List Value) : allSameByHash h items others = sameAll items others := by
  induction items generalizing others with
  | nil => cases others <;> simp only [allSameByHash, sameAll]
  | cons item rest ih =>
    rw [List.forall_mem_cons] at hitems
    cases others with
    | nil => simp only [allSameByHash, sameAll]
    | cons other others => rw [allSameByHash, sameAll, hitems.1, ih hitems.2]

/-- That the hashes are equal is no condition of its own. -/
theorem and_hash_eq (hlawful : h.Lawful) (hv : FoundByHash h v) (w : Value) :
    (hash v h == hash w h && sameByHash h v w) = v.same w := by
  rw [hv w]
  cases hsame : v.same w with
  | false => rw [Bool.and_false]
  | true => rw [hash_eq_of_same hlawful hsame, beq_self_eq_true, Bool.and_true]

/-- Inclusion of elements is decided by hash as it is decided. -/
theorem includedByHash_eq (hlawful : h.Lawful) {items : List Value}
    (hitems : ∀ item ∈ items, FoundByHash h item) (others : List Value) :
    includedByHash h items others = included items others := by
  induction items with
  | nil => rw [includedByHash, included]
  | cons item rest ih =>
    rw [List.forall_mem_cons] at hitems
    simp only [includedByHash, included, and_hash_eq hlawful hitems.1, ih hitems.2]

/-- Inclusion of entries is decided by hash as it is decided. -/
theorem entriesIncludedByHash_eq (hlawful : h.Lawful) {entries : List (Value × Value)}
    (hkeys : ∀ entry ∈ entries, FoundByHash h entry.1)
    (hvalues : ∀ entry ∈ entries, FoundByHash h entry.2) (others : List (Value × Value)) :
    entriesIncludedByHash h entries others = entriesIncluded entries others := by
  induction entries with
  | nil => rw [entriesIncludedByHash, entriesIncluded]
  | cons entry rest ih =>
    obtain ⟨key, value⟩ := entry
    rw [List.forall_mem_cons] at hkeys hvalues
    rw [entriesIncludedByHash, entriesIncluded, ih hkeys.2 hvalues.2]
    simp only [and_hash_eq hlawful hkeys.1]
    cases others.find? fun entry => key.same entry.1 with
    | none => rfl
    | some entry => exact congrArg (· && _) (hvalues.1 entry.2)

/-- Inclusion of fields is decided by hash as it is decided. -/
theorem fieldsIncludedByHash_eq {fields : List (String × Value)}
    (hfields : ∀ field ∈ fields, FoundByHash h field.2) (others : List (String × Value)) :
    fieldsIncludedByHash h fields others = fieldsIncluded fields others := by
  induction fields with
  | nil => rw [fieldsIncludedByHash, fieldsIncluded]
  | cons field rest ih =>
    obtain ⟨name, value⟩ := field
    rw [List.forall_mem_cons] at hfields
    rw [fieldsIncludedByHash, fieldsIncluded, ih hfields.2]
    cases others.lookup name with
    | none => rfl
    | some found => exact congrArg (· && _) (hfields.1 found)

/-- **Hash tables find what is equal**, and nothing else. -/
theorem sameByHash_eq_same (hlawful : h.Lawful) (v w : Value) : sameByHash h v w = v.same w := by
  induction hheight : v.height using Nat.strongRecOn generalizing v w with
  | ind n ih =>
    subst hheight
    -- on the height: hash tables of parts find what is equal
    have hparts : ∀ part ∈ v.parts, FoundByHash h part :=
      fun part hpart other => ih _ (height_lt_of_mem_parts hpart) part other rfl
    cases v with
    | list items =>
      have hitems : ∀ item ∈ items, FoundByHash h item := hparts
      cases w with
      | list others => rw [sameByHash, same, allSameByHash_eq hitems]
      | _ => simp only [sameByHash]
    | tuple items =>
      have hitems : ∀ item ∈ items, FoundByHash h item := hparts
      cases w with
      | tuple others => rw [sameByHash, same, allSameByHash_eq hitems]
      | _ => simp only [sameByHash]
    | set items =>
      have hitems : ∀ item ∈ items, FoundByHash h item := hparts
      cases w with
      | set others => rw [sameByHash, same, includedByHash_eq hlawful hitems]
      | _ => simp only [sameByHash]
    | dict entries =>
      have hkeys : ∀ entry ∈ entries, FoundByHash h entry.1 :=
        fun entry hentry => hparts _ (key_mem_parts hentry)
      have hvalues : ∀ entry ∈ entries, FoundByHash h entry.2 :=
        fun entry hentry => hparts _ (value_mem_parts hentry)
      cases w with
      | dict others => rw [sameByHash, same, entriesIncludedByHash_eq hlawful hkeys hvalues]
      | _ => simp only [sameByHash]
    | object owner fields assigned =>
      have hfields : ∀ field ∈ fields, FoundByHash h field.2 :=
        fun field hfield => hparts _ (List.mem_map_of_mem hfield)
      cases w with
      | object owner' others assigned' => rw [sameByHash, same, fieldsIncludedByHash_eq hfields]
      | _ => simp only [sameByHash]
    | _ => simp only [sameByHash]

/-! ## The theorem -/

/-- **Equality of values is an equivalence, and hashes respect it.** Among well-formed values it is
reflexive, symmetric and transitive, and it holds exactly if one value is the other with elements of
sets, entries of dictionaries and fields of objects in another order, other fields assigned and equal
doubles and handles for each other, at any level; what is rearranged so stays well-formed. If equal
doubles write the same, then equal values write the same pieces to every hasher, so their hashes are
equal, and hash tables, which compare elements and keys only if their hashes are equal, at all levels,
find exactly what is equal. -/
theorem same_lawful (hlawful : h.Lawful) (hu : u.WellFormed) (hv : v.WellFormed)
    (hw : w.WellFormed) :
    u.same u = true ∧
      (u.same v = true → v.same u = true) ∧
      (u.same v = true → v.same w = true → u.same w = true) ∧
      (u.same v = true ↔ u.Rearranges v) ∧
      (∀ other, u.Rearranges other → other.WellFormed ∧ other.same v = u.same v) ∧
      (u.same v = true → u.pieces h.double = v.pieces h.double ∧ u.hash h = v.hash h) ∧
      u.sameByHash h v = u.same v := by
  refine ⟨same_self hu.distinctKeys, hu.same_symm hv, hu.same_trans hv hw,
    hu.same_iff_rearranges hv, fun other hother => ?_, fun hsame => ?_,
    sameByHash_eq_same hlawful u v⟩
  · have hcopies := hother.copies hu
    have hback := hcopies.wellFormed.same_symm hu hcopies.same
    refine ⟨hcopies.wellFormed, Bool.eq_iff_iff.mpr ⟨fun hsame => ?_, fun hsame => ?_⟩⟩
    · exact hu.same_trans hcopies.wellFormed hv hback hsame
    · exact hcopies.wellFormed.same_trans hu hv hcopies.same hsame
  · exact ⟨pieces_eq_of_same hlawful hsame, hash_eq_of_same hlawful hsame⟩

/-! ## A bag of sets -/

namespace Sample

/-- A hashing that adds up lengths and numbers; doubles are written by their representatives. -/
def adding : Hashing where
  double x := x.key.bits
  digest pieces := pieces.foldl (fun total piece => match piece with
    | .kind n | .length n | .owner n => 31 * total + n.toUInt64
    | .number i => 31 * total + i.toUInt64
    | .double bits => 31 * total + bits
    | _ => total) 0

/-- The sample hashing is lawful. -/
theorem adding_lawful : adding.Lawful := fun _ _ h => congrArg Double.bits (Double.same_iff.mp h)

/-- A zero under a set of sets, and nothing under the empty set. -/
def bag : Value := .dict
  [(.set [.set [.int 1, .int 2], .set []], .float (.zero false)), (.set [], .none)]

/-- The same in another order at each level, and with the other zero. -/
def bag' : Value := .dict
  [(.set [], .none), (.set [.set [], .set [.int 2, .int 1]], .float (.zero true))]

/-- The two sample bags are rearrangements of each other. -/
theorem bag_rearranges : bag.Rearranges bag' := by
  have hnumbers : (Value.set [.int 1, .int 2]).Rearranges (.set [.int 2, .int 1]) :=
    .set (.swap _ _ _)
  have hkey : (Value.set [.set [.int 1, .int 2], .set []]).Rearranges
      (.set [.set [], .set [.int 2, .int 1]]) :=
    (@Rearranges.inSet [] _ _ _ hnumbers).trans (.set (.swap _ _ _))
  have hzero : (Value.float (.zero false)).Rearranges (.float (.zero true)) := .float (by decide)
  exact (@Rearranges.key [] _ _ _ hkey _).trans
    ((@Rearranges.value [] _ _ _ _ hzero).trans (.dict (.swap _ _ _)))

/-- A value without parts is well-formed if nothing is wrong with itself. -/
theorem plain_wellFormed {v : Value} (hself : v.DistinctParts) (hparts : v.parts = []) :
    v.WellFormed :=
  .of_parts hself (by simp [hparts])

/-- A set of two different well-formed values is well-formed. -/
theorem pair_wellFormed {v w : Value} (hv : v.WellFormed) (hw : w.WellFormed)
    (hne : w.same v = false) : (Value.set [v, w]).WellFormed := by
  refine .of_parts (List.pairwise_pair.mpr hne) fun part hpart => ?_
  rcases List.mem_pair.mp hpart with rfl | rfl
  · exact hv
  · exact hw

/-- A dictionary with two different well-formed keys is well-formed. -/
theorem entries_wellFormed {key value key' : Value} (hkey : key.WellFormed)
    (hvalue : value.WellFormed) (hkey' : key'.WellFormed) (hne : key'.same key = false) :
    (Value.dict [(key, value), (key', .none)]).WellFormed := by
  have hall : ∀ part ∈ [key, key', value, .none], part.WellFormed := by
    simp only [List.forall_mem_cons]
    exact ⟨hkey, hkey', hvalue, plain_wellFormed trivial rfl, by simp⟩
  exact .of_parts (List.pairwise_pair.mpr hne) hall

/-- The empty set is well-formed. -/
theorem empty_wellFormed : (Value.set []).WellFormed := plain_wellFormed .nil rfl

/-- The sample bag is well-formed. -/
theorem bag_wellFormed : bag.WellFormed := by
  have hnumbers : (Value.set [.int 1, .int 2]).WellFormed :=
    pair_wellFormed (plain_wellFormed trivial rfl) (plain_wellFormed trivial rfl) (by simp [same])
  exact entries_wellFormed (pair_wellFormed hnumbers empty_wellFormed (by simp [same]))
    (plain_wellFormed trivial rfl) empty_wellFormed (by simp [same])

end Sample

open Value.Sample

/-- Neither the orders nor the sign of zero counts, and the keys are found by their hashes. -/
theorem same_lawful_bag :
    bag.same bag' = true ∧ bag'.WellFormed ∧ bag.hash adding = bag'.hash adding ∧
      bag.sameByHash adding bag' = true := by
  have hbag' := (bag_rearranges.copies bag_wellFormed).wellFormed
  obtain ⟨-, -, -, hiff, hkept, hhash, hfound⟩ :=
    same_lawful adding_lawful bag_wellFormed hbag' bag_wellFormed
  have hsame := hiff.mpr bag_rearranges
  exact ⟨hsame, (hkept bag' bag_rearranges).1, (hhash hsame).2, hfound.trans hsame⟩

end ObjectMapping.Value
