import Mathlib.Data.List.Basic
import ObjectMapping.Code.Printer
import ObjectMapping.Proofs.Code.Names

/-! # The names of generated methods

A method is named after its direction and its class, and classes may have any names: with underscores
and digits in them, or such that they look like the name of another method. The number of the class
stands last, and in digits only, so it is what comes after the last underscore of the name. What is
left in front is told apart by the direction, which stands first.

* `MethodKey.stem`: a method name without the number.
* **`MethodKey.methodName_inj`** — a method name tells the method. -/

namespace ObjectMapping

/-- A list is cut in one way only at the last place where an element stands. -/
theorem append_cons_inj_of_notMem {α : Type} {front front' back back' : List α} {a : α}
    (h : front ++ a :: back = front' ++ a :: back') (hback : a ∉ back) (hback' : a ∉ back') :
    front = front' ∧ back = back' := by
  rcases List.append_eq_append_iff.mp h with ⟨between, rfl, hcut⟩ | ⟨between, rfl, hcut⟩
  · cases between with
    | nil => simpa using hcut
    | cons b between =>
      -- the second cut would be behind the first one, where the element does not stand any more
      simp only [List.cons_append, List.cons.injEq] at hcut
      exact absurd (hcut.2 ▸ by simp) hback
  · cases between with
    | nil => simpa using hcut.symm
    | cons b between =>
      simp only [List.cons_append, List.cons.injEq] at hcut
      exact absurd (hcut.2 ▸ by simp) hback'

namespace MethodKey

/-- The name of a method without the number of its class. -/
def stem (key : MethodKey) : String :=
  (match key.direction with
    | .create => "_map_to_"
    | .update => "_mapupdate_to_") ++ key.target.name

/-- The name of a method is its stem, with the number of the target class behind it. -/
theorem methodName_eq (key : MethodKey) :
    key.methodName = key.stem ++ "_" ++ toString key.target.id :=
  rfl

/-- The fifth character tells the direction, whatever the name of the class. -/
theorem getElem?_stem (key : MethodKey) :
    key.stem.toList[4]? = some (match key.direction with | .create => '_' | .update => 'u') := by
  obtain ⟨direction, target⟩ := key
  cases direction <;> simp [stem]

/-- The stem tells the direction and the name of the class apart. -/
theorem stem_inj {a b : MethodKey} (h : a.stem = b.stem) :
    a.direction = b.direction ∧ a.target.name = b.target.name := by
  have hmark := a.getElem?_stem
  rw [h, b.getElem?_stem] at hmark
  obtain ⟨direction, target⟩ := a
  obtain ⟨direction', target'⟩ := b
  -- of two directions the marks differ, and of one the names of the classes are what is left
  cases direction <;> cases direction' <;> simp_all [stem]

/-- **A method name tells the method**: its direction, and the number and the name of its class. -/
theorem methodName_inj {a b : MethodKey} (h : a.methodName = b.methodName) : a = b := by
  have hcut : a.stem.toList ++ '_' :: (toString a.target.id).toList
      = b.stem.toList ++ '_' :: (toString b.target.id).toList := by
    have htexts := congrArg String.toList h
    simp only [methodName_eq, String.toList_append, List.append_assoc] at htexts
    exact htexts
  have hdigits : ∀ n : Nat, '_' ∉ (toString n).toList := by
    intro n hmem
    cases isDigit_of_mem_toString hmem
  obtain ⟨hstem, hnumber⟩ := append_cons_inj_of_notMem hcut (hdigits _) (hdigits _)
  obtain ⟨hdirection, hname⟩ := stem_inj (String.toList_inj.mp hstem)
  have hid := toString_nat_inj (String.toList_inj.mp hnumber)
  obtain ⟨direction, id, name⟩ := a
  obtain ⟨direction', id', name'⟩ := b
  simp_all

example : methodName ⟨.create, ⟨1, "Item_1"⟩⟩ ≠ methodName ⟨.create, ⟨11, "Item"⟩⟩ := by decide

end MethodKey

/-- **The names of generated methods do not collide.** Two methods of one name have the same direction
and the same class. So calls that read alike, with receivers and arguments that read alike, are calls
of the same method. -/
theorem method_names_collision_free :
    (∀ a b : MethodKey, a.methodName = b.methodName →
      a.direction = b.direction ∧ a.target.id = b.target.id) ∧
    ∀ (receiver receiver' : Expr) (args args' : List Expr) (a b : MethodKey),
      receiver.text = receiver'.text → Expr.texts args = Expr.texts args' →
      (Expr.method receiver a args).text = (Expr.method receiver' b args').text → a = b := by
  constructor
  · intro a b h
    obtain rfl := MethodKey.methodName_inj h
    exact ⟨rfl, rfl⟩
  · intro receiver receiver' args args' a b hreceiver hargs h
    -- the texts differ in nothing but the names
    have htexts : receiver.text ++ "." ++ a.methodName ++ "(" ++ Text.commas (Expr.texts args) ++ ")"
        = receiver'.text ++ "." ++ b.methodName ++ "(" ++ Text.commas (Expr.texts args') ++ ")" := h
    rw [hreceiver, hargs] at htexts
    simp only [String.append_left_inj, String.append_right_inj] at htexts
    exact MethodKey.methodName_inj htexts

/-- Two calls that read alike, of a class whose own name ends in a number. The item is looked up in
two steps in the one call, and under a name with a dot in it in the other. -/
theorem method_names_collision_free_item :
    (Expr.method (.attr (.attr .self "order") "item") ⟨.create, ⟨11, "Item_1"⟩⟩ [.extra]).text
        = "self.order.item._map_to_Item_1_11(extra)" ∧
      (Expr.method (.attr .self "order.item") ⟨.create, ⟨10 + 1, "Item" ++ "_1"⟩⟩ [.extra]).text
        = "self.order.item._map_to_Item_1_11(extra)" ∧
      (⟨.create, ⟨11, "Item_1"⟩⟩ : MethodKey) = ⟨.create, ⟨10 + 1, "Item" ++ "_1"⟩⟩ ∧
      Direction.create = Direction.create ∧ 11 = 10 + 1 := by
  have hfirst : (Expr.method (.attr (.attr .self "order") "item") ⟨.create, ⟨11, "Item_1"⟩⟩
      [.extra]).text = "self.order.item._map_to_Item_1_11(extra)" := by decide
  have hsecond : (Expr.method (.attr .self "order.item") ⟨.create, ⟨10 + 1, "Item" ++ "_1"⟩⟩
      [.extra]).text = "self.order.item._map_to_Item_1_11(extra)" := by decide
  have hkeys := method_names_collision_free.2 _ _ _ _ _ _ (by decide) rfl
    (hfirst.trans hsecond.symm)
  exact ⟨hfirst, hsecond, hkeys, method_names_collision_free.1 _ _ (congrArg _ hkeys)⟩

end ObjectMapping
