import ObjectMapping.Proofs.Json.Weight
import ObjectMapping.Proofs.Value.Decoding

/-! # The trail does not decide

A decoder looks at its trail for messages only, so whether a document is read, and as which value,
does not depend on what has been entered before. Decoders are put together from a few kinds of
steps, and this is passed on by each of them.

* `Decoding.readingInduction`: induction along a reading, with the hypothesis for all smaller
  documents, and for the same document as a part of the type.
* **`Decoding.steady_decode`** — the same value is read whatever the trail, or none is. -/

namespace ObjectMapping

/-! ## The parts of a document -/

namespace Json

/-- An item weighs less than the items together. -/
theorem weight_lt_of_mem {items : List Json} {item : Json} (h : item ∈ items) :
    item.weight < weightAll items := by
  induction items with
  | nil => cases h
  | cons first rest ih =>
    rw [weightAll]
    rcases List.mem_cons.mp h with rfl | hrest
    · omega
    · have hlt := ih hrest
      omega

/-- A member weighs less than the members together, by its name and two more. -/
theorem weight_lt_of_mem_members {members : List (String × Json)} {name : String} {value : Json}
    (h : (name, value) ∈ members) : value.weight + name.length + 2 ≤ weightMembers members := by
  induction members with
  | nil => cases h
  | cons first rest ih =>
    obtain ⟨other, document⟩ := first
    rw [weightMembers]
    rcases List.mem_cons.mp h with heq | hrest
    · obtain ⟨rfl, rfl⟩ := Prod.mk.inj heq
      omega
    · have hle := ih hrest
      omega

/-- An item is smaller than its array. -/
theorem weight_item_lt {items : List Json} {item : Json} (h : item ∈ items) :
    item.weight < (array items).weight :=
  Nat.lt_succ_of_lt (weight_lt_of_mem h)

section

variable {members : List (String × Json)} {name : String} {value : Json}

/-- A member is smaller than its object. -/
theorem weight_value_lt (h : (name, value) ∈ members) : value.weight < (object members).weight := by
  have hle := weight_lt_of_mem_members h
  rw [weight]
  omega

/-- So is the name of a member as a string. -/
theorem weight_name_lt (h : (name, value) ∈ members) :
    (string name).weight < (object members).weight := by
  have hle := weight_lt_of_mem_members h
  simp only [weight]
  omega

/-- So is the document that the name of a member is the text of. -/
theorem weight_parsed_lt (h : (name, value) ∈ members) {parsed : Json}
    (htext : ofText name = .ok parsed) : parsed.weight < (object members).weight := by
  have hle := weight_lt_of_mem_members h
  have hlt := weight_lt_of_ofText htext
  rw [weight]
  omega

end

end Json

namespace Decoding

variable {α β : Type}

/-- **Induction along a reading.** A decoder turns to a smaller document, or it reads the same
document as a part of the type. -/
theorem readingInduction {motive : FieldType → Json → Prop}
    (step : ∀ type document,
      (∀ part smaller, smaller.weight < document.weight → motive part smaller) →
      (∀ part, sizeOf part < sizeOf type → motive part document) → motive type document)
    (type : FieldType) (document : Json) : motive type document := by
  -- all types are done for smaller documents before larger types are for a document
  have hdocument : ∀ (n : Nat) (document : Json), document.weight = n → ∀ type,
      motive type document := by
    intro n
    induction n using Nat.strongRecOn with
    | ind n ihdocument =>
      intro document hweight type
      induction hsize : sizeOf type using Nat.strongRecOn generalizing type with
      | ind size ihtype =>
        refine step type document ?_ ?_
        · exact fun part smaller hlt => ihdocument _ (hweight ▸ hlt) smaller rfl part
        · exact fun part hlt => ihtype _ (hsize ▸ hlt) part rfl
  exact hdocument _ document rfl type

/-! ## Steady computations -/

/-- **The outcome does not depend on the trail**: it is a value, always the same one, or always an
error. -/
def Steady (d : Decoding α) : Prop := (∃ a, Yields d a) ∨ Fails d

/-- What is returned does not depend on the trail. -/
theorem steady_pure (a : α) : Steady (pure a : Decoding α) := .inl ⟨a, yields_pure a⟩

/-- An error that is thrown is a failure. -/
theorem fails_throw (e : Error) : Fails (throw e : Decoding α) := fun _ => ⟨e, rfl⟩

/-- A mismatch does not depend on the trail. -/
theorem steady_mismatch (expected : FieldType) (document : Json) :
    Steady (mismatch expected document : Decoding α) := .inr (fails_mismatch expected document)

/-- An outcome does not depend on the trail. -/
theorem steady_lift (outcome : Except Error α) : Steady (lift outcome) := by
  cases outcome with
  | ok a => exact .inl ⟨a, yields_lift rfl⟩
  | error e => exact .inr fun _ => ⟨e, rfl⟩

/-- A steady computation that gives a value once always gives it. -/
theorem Steady.yields {d : Decoding α} {a : α} {trail : Trail} (h : Steady d)
    (hvalue : (d trail).1 = .ok a) : Yields d a := by
  rcases h with ⟨b, hb⟩ | hfails
  · have heq := hb trail
    rw [hvalue] at heq
    obtain rfl := Except.ok.inj heq
    exact hb
  · obtain ⟨e, he⟩ := hfails trail
    rw [hvalue] at he
    cases he

/-- A steady computation that fails once always fails. -/
theorem Steady.fails {d : Decoding α} {e : Error} {trail : Trail} (h : Steady d)
    (herror : (d trail).1 = .error e) : Fails d := by
  rcases h with ⟨b, hb⟩ | hfails
  · have heq := hb trail
    rw [herror] at heq
    cases heq
  · exact hfails

/-- A computation reads one value only. -/
theorem Yields.unique {d : Decoding α} {a b : α} (h : Yields d a) (h' : Yields d b) : a = b :=
  Except.ok.inj ((h []).symm.trans (h' []))

/-- What reads a value does not fail. -/
theorem Yields.not_fails {d : Decoding α} {a : α} (h : Yields d a) : ¬ Fails d := by
  intro hfails
  obtain ⟨e, he⟩ := hfails []
  rw [h []] at he
  cases he

/-- A computation fails where it starts with a failure. -/
theorem Fails.bind {d : Decoding α} (h : Fails d) (f : α → Decoding β) : Fails (d >>= f) := by
  intro trail
  obtain ⟨e, he⟩ := h trail
  refine ⟨e, ?_⟩
  rw [bind_apply, he]
  rfl

/-- A computation fails where it fails after a success. -/
theorem Yields.bind_fails {d : Decoding α} {a : α} {f : α → Decoding β} (hd : Yields d a)
    (hf : Fails (f a)) : Fails (d >>= f) := by
  intro trail
  rw [bind_apply, hd trail]
  exact hf _

/-- Steady computations are steady one after another. -/
theorem Steady.bind {d : Decoding α} {f : α → Decoding β} (hd : Steady d)
    (hf : ∀ a, Yields d a → Steady (f a)) : Steady (d >>= f) := by
  rcases hd with ⟨a, ha⟩ | hfails
  · rcases hf a ha with ⟨b, hb⟩ | hfails
    · exact .inl ⟨b, ha.bind hb⟩
    · exact .inr (ha.bind_fails hfails)
  · exact .inr (hfails.bind f)

/-- A computation fails after a failed attempt if it fails for every error. -/
theorem Fails.attempt_fails {d : Decoding α} {f : Except Error α → Decoding β} (h : Fails d)
    (hf : ∀ e, Fails (f (.error e))) : Fails (Decoding.attempt d >>= f) := by
  intro trail
  obtain ⟨e, he⟩ := h trail
  rw [bind_apply]
  show ∃ e', (f (d trail).1 (d trail).2).1 = .error e'
  rw [he]
  exact hf e _

/-- What is done about a failure may not depend on the error, which holds the trail. -/
theorem Steady.attempt {d : Decoding α} {f : Except Error α → Decoding β} {g : Decoding β}
    (hd : Steady d) (hok : ∀ a, Yields d a → Steady (f (.ok a))) (hg : Fails d → Steady g)
    (herror : ∀ e, f (.error e) = g) : Steady (Decoding.attempt d >>= f) := by
  rcases hd with ⟨a, ha⟩ | hfails
  · rcases hok a ha with ⟨b, hb⟩ | hfails
    · exact .inl ⟨b, ha.attempt.bind hb⟩
    · exact .inr (ha.attempt.bind_fails hfails)
  · rcases hg hfails with ⟨b, hb⟩ | hagain
    · exact .inl ⟨b, hfails.bind_attempt fun e => herror e ▸ hb⟩
    · exact .inr (hfails.attempt_fails fun e => herror e ▸ hagain)

/-- A steady computation is steady behind a place. -/
theorem steady_entered {step : String} {d : Decoding α} {f : α → Decoding β} (hd : Steady d)
    (hf : ∀ a, Yields d a → Steady (f a)) :
    Steady (enter step >>= fun _ => d >>= fun a => leave >>= fun _ => f a) := by
  refine Steady.bind (.inl ⟨(), yields_enter step⟩) fun _ _ => hd.bind fun a ha => ?_
  exact Steady.bind (.inl ⟨(), yields_leave⟩) fun _ _ => hf a ha

/-! ## Decoders -/

variable {classes : ClassTable} {type key value : FieldType} {document : Json}

/-- Items are decoded steadily if each of them is. -/
theorem steady_decodeItems {items : List Json}
    (h : ∀ item ∈ items, Steady (decode classes type item)) (position : Nat) :
    Steady (decodeItems classes type position items) := by
  induction items generalizing position with
  | nil =>
    rw [decodeItems]
    exact steady_pure _
  | cons item rest ih =>
    obtain ⟨hitem, hrest⟩ := List.forall_mem_cons.mp h
    rw [decodeItems]
    exact steady_entered hitem fun _ _ => (ih hrest _).bind fun _ _ => steady_pure _

/-- Positions are decoded steadily if each of them is. -/
theorem steady_decodeEach {types : List FieldType} {items : List Json}
    (h : ∀ type, ∀ item ∈ items, Steady (decode classes type item)) (position : Nat) :
    Steady (decodeEach classes position types items) := by
  induction items generalizing types position with
  | nil =>
    rw [decodeEach]
    · exact steady_pure _
    · simp
  | cons item rest ih =>
    cases types with
    | nil =>
      rw [decodeEach]
      · exact steady_pure _
      · simp
    | cons type types =>
      rw [decodeEach]
      refine steady_entered (h type item List.mem_cons_self) fun _ _ => ?_
      refine (ih (fun type other hmem => h type other (List.mem_cons_of_mem _ hmem)) _).bind ?_
      exact fun _ _ => steady_pure _

/-- Members of a union are tried steadily if each of them is decoded so. -/
theorem steady_decodeFirst {union : FieldType} {members : List FieldType}
    (h : ∀ member ∈ members, Steady (decode classes member document)) :
    Steady (decodeFirst classes union members document) := by
  induction members with
  | nil =>
    rw [decodeFirst]
    exact steady_mismatch _ _
  | cons member rest ih =>
    obtain ⟨hmember, hrest⟩ := List.forall_mem_cons.mp h
    rw [decodeFirst]
    exact hmember.attempt (fun _ _ => steady_pure _) (fun _ => ih hrest) fun _ => rfl

/-- A key is decoded steadily if its name and the document in it are. -/
theorem steady_decodeKey {name : String} (hname : Steady (decode classes key (.string name)))
    (htext : ∀ parsed, Json.ofText name = .ok parsed → Steady (decode classes key parsed)) :
    Steady (decodeKey classes key document name) := by
  rw [decodeKey]
  refine hname.attempt (fun _ _ => steady_pure _) (fun _ => ?_) fun _ => rfl
  split
  · exact steady_mismatch _ _
  · next parsed hparsed =>
    split
    · exact htext parsed hparsed
    · exact steady_mismatch _ _

/-- Entries are decoded steadily if their keys and values are. -/
theorem steady_decodeEntries {members : List (String × Json)}
    (hkey : ∀ name item, (name, item) ∈ members → Steady (decodeKey classes key document name))
    (hvalue : ∀ name item, (name, item) ∈ members → Steady (decode classes value item)) :
    Steady (decodeEntries classes key value document members) := by
  induction members with
  | nil =>
    rw [decodeEntries]
    exact steady_pure _
  | cons member rest ih =>
    obtain ⟨name, item⟩ := member
    have hrest := ih (fun name item hmem => hkey name item (List.mem_cons_of_mem _ hmem))
      fun name item hmem => hvalue name item (List.mem_cons_of_mem _ hmem)
    rw [decodeEntries]
    refine Steady.bind (.inl ⟨(), yields_enter name⟩) fun _ _ => ?_
    refine (hkey name item List.mem_cons_self).bind fun _ _ => ?_
    refine (hvalue name item List.mem_cons_self).bind fun _ _ => ?_
    refine Steady.bind (.inl ⟨(), yields_leave⟩) fun _ _ => ?_
    exact hrest.bind fun _ _ => steady_pure _

/-- Arguments are decoded steadily if the members are, for the slots that take them. -/
theorem steady_decodeArguments {c : Class} {members : List (String × Json)}
    (h : ∀ name item slot, (name, item) ∈ members → Steady (decode classes slot item)) :
    Steady (decodeArguments classes c members) := by
  induction members with
  | nil =>
    rw [decodeArguments]
    exact steady_pure _
  | cons member rest ih =>
    obtain ⟨name, item⟩ := member
    have hrest := ih fun name item slot hmem => h name item slot (List.mem_cons_of_mem _ hmem)
    rw [decodeArguments]
    split
    · exact (steady_pure _).bind fun _ _ => hrest.bind fun _ _ => steady_pure _
    · next slot _ =>
      refine steady_entered (h name item slot.type List.mem_cons_self) fun _ _ => ?_
      exact (steady_pure _).bind fun _ _ => hrest.bind fun _ _ => steady_pure _

/-- **The same value is read from a document whatever the trail**, or none is. -/
theorem steady_decode (classes : ClassTable) (type : FieldType) (document : Json) :
    Steady (decode classes type document) := by
  -- on the readings: to a lighter document, or to a smaller type with the same one
  induction type, document using readingInduction with
  | step type document ihdocument ihtype =>
    unfold decode
    split
    · exact steady_pure _
    · exact steady_pure _
    · exact ihtype _ (by simp)
    · next members document =>
      refine steady_decodeFirst fun member hmem => ihtype member ?_
      have hlt := List.sizeOf_lt_of_mem hmem
      simp only [FieldType.union.sizeOf_spec]
      omega
    · next item items =>
      exact (steady_decodeItems (fun part hmem => ihdocument _ part (Json.weight_item_lt hmem)) 0).bind
        fun _ _ => steady_pure _
    · next item items =>
      exact (steady_decodeItems (fun part hmem => ihdocument _ part (Json.weight_item_lt hmem)) 0).bind
        fun _ _ => steady_pure _
    · next types items =>
      split
      · exact (steady_decodeEach (fun type part hmem =>
          ihdocument _ part (Json.weight_item_lt hmem)) 0).bind fun _ _ => steady_pure _
      · exact steady_mismatch _ _
    · next key value members =>
      -- a key is read as a name, or as the document in its text
      refine (steady_decodeEntries (fun name item hmem => ?_) fun name item hmem => ?_).bind
        fun _ _ => steady_pure _
      · exact steady_decodeKey (ihdocument _ _ (Json.weight_name_lt hmem))
          fun parsed hparsed => ihdocument _ _ (Json.weight_parsed_lt hmem hparsed)
      · exact ihdocument _ _ (Json.weight_value_lt hmem)
    · next handle document =>
      split
      · split
        · exact steady_pure _
        · exact steady_mismatch _ _
      · split
        · split
          · exact steady_lift _
          · exact steady_mismatch _ _
        · split
          · exact .inr (fails_throw _)
          · split
            · next members =>
              exact (steady_decodeArguments fun name item slot hmem =>
                ihdocument _ _ (Json.weight_value_lt hmem)).bind fun _ _ => steady_lift _
            · exact steady_mismatch _ _
    · exact steady_mismatch _ _

/-! ## Keys -/

/-- Reading a key depends on the trail as little as reading a value. -/
theorem steady_readKey (classes : ClassTable) (key : FieldType) (document : Json) (name : String) :
    Steady (decodeKey classes key document name) :=
  steady_decodeKey (steady_decode classes key (.string name))
    fun parsed _ => steady_decode classes key parsed

/-- A name that is not accepted as a string is the text of a document. -/
theorem Reads.key_of_document {name : String} {parsed : Json} {v : Value}
    (h : Reads classes key parsed v) (hfails : Fails (decode classes key (.string name)))
    (htext : Json.ofText name = .ok parsed) : ReadsKey classes key name v := by
  intro document
  rw [decodeKey]
  refine hfails.bind_attempt fun _ => ?_
  dsimp only
  rw [htext]
  dsimp only
  rw [if_pos (Json.weight_lt_of_ofText htext)]
  exact h

/-- The key that is read from a name does not depend on the object around it, if it is read. -/
theorem readsKey_of_yields {name : String} {k : Value}
    (h : Yields (decodeKey classes key document name) k) : ReadsKey classes key name k := by
  have hkey : ∀ v, ReadsKey classes key name v → ReadsKey classes key name k :=
    fun v hv => (hv document).unique h ▸ hv
  rcases steady_decode classes key (.string name) with ⟨v, hv⟩ | hstring
  · exact hkey v (Reads.key hv)
  -- otherwise the name is the text of a document, which is read as a key
  cases htext : Json.ofText name with
  | error fault =>
    refine absurd ?_ h.not_fails
    rw [decodeKey]
    refine hstring.attempt_fails fun _ => ?_
    dsimp only
    rw [htext]
    exact fails_mismatch _ _
  | ok parsed =>
    rcases steady_decode classes key parsed with ⟨v, hv⟩ | hparsed
    · exact hkey v (Reads.key_of_document hv hstring htext)
    · refine absurd ?_ h.not_fails
      rw [decodeKey]
      refine hstring.attempt_fails fun _ => ?_
      dsimp only
      rw [htext]
      dsimp only
      rw [if_pos (Json.weight_lt_of_ofText htext)]
      exact hparsed

end Decoding

end ObjectMapping
