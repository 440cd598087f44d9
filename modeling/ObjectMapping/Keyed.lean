/-! # Keyed lists

A keyed list is a list of pairs in which the place of a key is part of the data: a key that is
written again keeps its first place (and its first spelling) and takes the new value. Documents,
dictionaries, argument lists and field lists are all kept this way.

* `Keyed.insert` writes one entry, `Keyed.ofList` a whole list of them; what is written under a key
  is read there (`lookup_insert_self`) and nothing else changes (`lookup_insert_of_ne`).
* `Keyed.take?` looks a key up and removes its entry.
* Reading is the core function `List.lookup`. -/

namespace ObjectMapping.Keyed

variable {α β : Type} [BEq α]

/-- Writes `value` under `key`: in place if the key is present, at the end if it is new. -/
def insert : List (α × β) → α → β → List (α × β)
  | [], key, value => [(key, value)]
  | (k, v) :: rest, key, value =>
      if key == k then (k, value) :: rest else (k, v) :: insert rest key value

/-- The keyed list that writing the pairs one after another gives. -/
def ofList (pairs : List (α × β)) : List (α × β) :=
  pairs.foldl (fun entries pair => insert entries pair.1 pair.2) []

/-- Whether the key is present. -/
def contains (entries : List (α × β)) (key : α) : Bool :=
  (entries.lookup key).isSome

/-- The value under `key` and the entries without it. -/
def take? : List (α × β) → α → Option (β × List (α × β))
  | [], _ => none
  | (k, v) :: rest, key =>
      if key == k then some (v, rest) else
        match take? rest key with
        | some (found, others) => some (found, (k, v) :: others)
        | none => none

/-- Adds an element to a list of distinct elements unless an equal one is there. -/
def insertElement (elements : List α) (x : α) : List α :=
  if elements.any (x == ·) then elements else elements ++ [x]

/-- The first occurrences of the elements, in order. -/
def distinct (elements : List α) : List α :=
  elements.foldl insertElement []

/-! ## What writing does to reading -/

/-- Into an empty list an entry is put as the only one. -/
@[simp] theorem insert_nil (key : α) (value : β) : insert [] key value = [(key, value)] := rfl

/-- No entries make up an empty list. -/
@[simp] theorem ofList_nil : ofList ([] : List (α × β)) = [] := rfl

/-- An empty list has nothing under a key. -/
@[simp] theorem take?_nil (key : α) : take? ([] : List (α × β)) key = none := rfl

/-- A new key comes last and a present one stays where it is. -/
theorem keys_insert (entries : List (α × β)) (key : α) (value : β) :
    (insert entries key value).map (·.1) = insertElement (entries.map (·.1)) key := by
  induction entries with
  | nil => simp [insertElement]
  | cons entry rest ih =>
    obtain ⟨k, v⟩ := entry
    by_cases hk : key == k
    · simp [insert, insertElement, hk]
    · simp only [insert, insertElement, hk, List.map_cons, List.any_cons, Bool.false_or,
        Bool.false_eq_true, if_false] at ih ⊢
      rw [ih]
      split <;> simp

/-- What is written under a key is read there. -/
@[simp] theorem lookup_insert_self [LawfulBEq α] (entries : List (α × β)) (key : α) (value : β) :
    (insert entries key value).lookup key = some value := by
  induction entries with
  | nil => simp
  | cons entry rest ih =>
    obtain ⟨k, v⟩ := entry
    by_cases hk : key == k
    · simp [insert, hk, List.lookup_cons]
    · simp [insert, hk, List.lookup_cons, ih]

/-- Under every other key nothing changes. -/
theorem lookup_insert_of_ne [LawfulBEq α] {key other : α} (h : other ≠ key)
    (entries : List (α × β)) (value : β) :
    (insert entries key value).lookup other = entries.lookup other := by
  have differs : (other == key) = false := beq_eq_false_iff_ne.mpr h
  induction entries with
  | nil => simp [List.lookup_cons, differs]
  | cons entry rest ih =>
    obtain ⟨k, v⟩ := entry
    by_cases hk : key == k
    · have hkey : key = k := eq_of_beq hk
      subst hkey
      simp [insert, List.lookup_cons, differs]
    · simp [insert, hk, List.lookup_cons, ih]

/-- A key is taken exactly if it is present. -/
theorem isSome_take? (entries : List (α × β)) (key : α) :
    (take? entries key).isSome = contains entries key := by
  induction entries with
  | nil => simp [contains]
  | cons entry rest ih =>
    obtain ⟨k, v⟩ := entry
    by_cases hk : key == k
    · simp [take?, contains, List.lookup_cons, hk]
    · simp only [contains] at ih
      simp only [take?, contains, List.lookup_cons, hk]
      rw [← ih]
      cases take? rest key <;> simp

end ObjectMapping.Keyed
