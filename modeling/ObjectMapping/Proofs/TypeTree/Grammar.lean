import ObjectMapping.TypeTree.Parser

/-! # The grammar of written types

What lists of tokens write, rule by rule, and the reader of such lists. A term with arguments and
terms with bars between them can write the same tree, and both are read as this tree.

* `TypeTree.WritesTerm`, `TypeTree.WritesUnion`: the tokens write a tree, as a term or as a union of
  terms; `TypeTree.WritesArms` and `TypeTree.WritesArgs` are the lists in them, `TypeTree.Writes` is
  about a text.
* **`TypeTree.read_of_writes`**, `TypeTree.parse_of_writes` — whatever is written is read, within the
  steps that the reader has. -/

namespace ObjectMapping.TypeTree

open ObjectMapping.TypeTree.Parser

mutual

/-- The tokens write a tree as one term. -/
inductive WritesTerm : List Token → TypeTree → Prop
  | name (head : String) : WritesTerm [.ident head] (.name head)
  | ellipsis : WritesTerm [.ellipsis] (.name "...")
  | unit : WritesTerm [.unit] (.name "()")
  | generic (head : String) {tokens : List Token} {arg : TypeTree} {args : List TypeTree}
      (hargs : WritesArgs tokens (arg :: args)) :
      WritesTerm (.ident head :: .opening :: tokens) (.generic head (arg :: args))

/-- The tokens write trees as terms with a bar in front of each. -/
inductive WritesArms : List Token → List TypeTree → Prop
  | nil : WritesArms [] []
  | cons {first rest : List Token} {arm : TypeTree} {arms : List TypeTree}
      (hfirst : WritesTerm first arm) (hrest : WritesArms rest arms) :
      WritesArms (.bar :: (first ++ rest)) (arm :: arms)

/-- The tokens write a tree, as one term or as several with bars between them. -/
inductive WritesUnion : List Token → TypeTree → Prop
  | term {tokens : List Token} {tree : TypeTree} (hterm : WritesTerm tokens tree) :
      WritesUnion tokens tree
  | bars {first rest : List Token} {arm other : TypeTree} {others : List TypeTree}
      (hfirst : WritesTerm first arm) (hrest : WritesArms rest (other :: others)) :
      WritesUnion (first ++ rest) (.generic "Union" (arm :: other :: others))

/-- The tokens write trees as arguments, up to the closing bracket. -/
inductive WritesArgs : List Token → List TypeTree → Prop
  | nil : WritesArgs [.closing] []
  | last {tokens : List Token} {arg : TypeTree} (harg : WritesUnion tokens arg) :
      WritesArgs (tokens ++ [.closing]) [arg]
  | cons {first rest : List Token} {arg : TypeTree} {args : List TypeTree}
      (hfirst : WritesUnion first arg) (hrest : WritesArgs rest args) :
      WritesArgs (first ++ .comma :: rest) (arg :: args)

end

/-- The tokens of a text write a tree. -/
def Writes (text : String) (tree : TypeTree) : Prop :=
  ∃ tokens, Token.scan text.toList = .ok tokens ∧ WritesUnion tokens tree

/-! ## Reading -/

/-- Whether tokens after a term do not continue it. -/
def endsTerm : List Token → Bool
  | .opening :: _ => false
  | _ => true

/-- Whether tokens after a union do not continue it. -/
def endsUnion : List Token → Bool
  | .opening :: _ | .bar :: _ => false
  | _ => true

/-- What ends a union ends a term. -/
theorem endsTerm_of_endsUnion {rest : List Token} (h : endsUnion rest = true) :
    endsTerm rest = true := by
  unfold endsTerm
  split
  · cases h
  · rfl

/-- The tokens are read as a term, up to what does not continue it. -/
def ReadsTerm (tokens : List Token) (tree : TypeTree) : Prop :=
  ∀ rest steps, endsTerm rest = true → 4 * tokens.length ≤ steps →
    readTerm (tokens ++ rest) steps = .ok (tree, rest)

/-- The tokens are read as terms with a bar in front of each. -/
def ReadsArms (tokens : List Token) (arms : List TypeTree) : Prop :=
  ∀ rest steps, endsUnion rest = true → 4 * tokens.length + 1 ≤ steps →
    readArms (tokens ++ rest) steps = .ok (arms, rest)

/-- The tokens are read as a union. -/
def ReadsUnion (tokens : List Token) (tree : TypeTree) : Prop :=
  ∀ rest steps, endsUnion rest = true → 4 * tokens.length + 1 ≤ steps →
    readUnion (tokens ++ rest) steps = .ok (tree, rest)

/-- The tokens are read as arguments. -/
def ReadsArgs (tokens : List Token) (args : List TypeTree) : Prop :=
  ∀ rest steps, 4 * tokens.length ≤ steps → readArgs (tokens ++ rest) steps = .ok (args, rest)

variable {tokens first rest : List Token} {tree arm : TypeTree} {arms args : List TypeTree}

/-- A name is read as a term. -/
theorem readsTerm_name (head : String) : ReadsTerm [.ident head] (.name head) := by
  intro rest steps hends hsteps
  obtain ⟨steps, rfl⟩ : ∃ k, steps = k + 1 := ⟨steps - 1, by simp at hsteps; omega⟩
  rw [List.singleton_append]
  rcases rest with _ | ⟨token, rest⟩
  · rfl
  · cases token <;> first | rfl | cases hends

/-- An ellipsis is read as a term. -/
theorem readsTerm_ellipsis : ReadsTerm [.ellipsis] (.name "...") := by
  intro rest steps _ hsteps
  obtain ⟨steps, rfl⟩ : ∃ k, steps = k + 1 := ⟨steps - 1, by simp at hsteps; omega⟩
  rfl

/-- An empty pair of parentheses is read as a term. -/
theorem readsTerm_unit : ReadsTerm [.unit] (.name "()") := by
  intro rest steps _ hsteps
  obtain ⟨steps, rfl⟩ : ∃ k, steps = k + 1 := ⟨steps - 1, by simp at hsteps; omega⟩
  rfl

/-- A name with arguments is read as a term. -/
theorem readsTerm_generic (head : String) (h : ReadsArgs tokens (arm :: args)) :
    ReadsTerm (.ident head :: .opening :: tokens) (.generic head (arm :: args)) := by
  intro rest steps _ hsteps
  simp only [List.length_cons] at hsteps
  obtain ⟨steps, rfl⟩ : ∃ k, steps = k + 1 := ⟨steps - 1, by omega⟩
  rw [List.cons_append, List.cons_append]
  unfold readTerm
  dsimp only
  rw [h rest steps (by omega)]

/-- No arms are read where there is no bar. -/
theorem readsArms_nil : ReadsArms [] [] := by
  intro rest steps hends hsteps
  obtain ⟨steps, rfl⟩ : ∃ k, steps = k + 1 := ⟨steps - 1, by simp at hsteps; omega⟩
  rw [List.nil_append]
  rcases rest with _ | ⟨token, rest⟩
  · rfl
  · cases token <;> first | rfl | cases hends

/-- What follows on a term of a union, or on the union, does not continue the term. -/
theorem WritesArms.endsTerm (h : WritesArms rest arms) {after : List Token}
    (hafter : endsUnion after = true) : endsTerm (rest ++ after) = true := by
  cases h with
  | nil => exact endsTerm_of_endsUnion hafter
  | cons _ _ => rfl

/-- Arms are read one after the other. -/
theorem readsArms_cons (hfirst : ReadsTerm first arm) (hwrites : WritesArms rest arms)
    (hrest : ReadsArms rest arms) : ReadsArms (.bar :: (first ++ rest)) (arm :: arms) := by
  intro after steps hafter hsteps
  simp only [List.length_cons, List.length_append] at hsteps
  obtain ⟨steps, rfl⟩ : ∃ k, steps = k + 1 := ⟨steps - 1, by omega⟩
  rw [List.cons_append, List.append_assoc]
  unfold readArms
  dsimp only
  rw [hfirst (rest ++ after) steps (hwrites.endsTerm hafter) (by omega)]
  dsimp only
  rw [hrest after steps hafter (by omega)]

/-- No term is read without steps. -/
theorem ReadsTerm.length_pos (h : ReadsTerm tokens tree) : 0 < tokens.length := by
  rcases tokens with _ | ⟨token, tokens⟩
  · have hnone : Except.error Complaint.unexpectedEnd = Except.ok (tree, []) :=
      h [] 0 rfl (Nat.le_refl _)
    cases hnone
  · exact Nat.succ_pos _

/-- A single term is read as itself. -/
theorem readsUnion_term (h : ReadsTerm tokens tree) : ReadsUnion tokens tree := by
  intro rest steps hends hsteps
  have hpos := h.length_pos
  obtain ⟨steps, rfl⟩ : ∃ k, steps = k + 1 := ⟨steps - 1, by omega⟩
  have harms := readsArms_nil rest steps hends (by simp; omega)
  rw [List.nil_append] at harms
  unfold readUnion
  rw [h rest steps (endsTerm_of_endsUnion hends) (by omega)]
  dsimp only
  rw [harms]

/-- Several terms are read as a union. -/
theorem readsUnion_bars {other : TypeTree} (hfirst : ReadsTerm first arm)
    (hwrites : WritesArms rest (other :: arms)) (hrest : ReadsArms rest (other :: arms)) :
    ReadsUnion (first ++ rest) (.generic "Union" (arm :: other :: arms)) := by
  intro after steps hafter hsteps
  have hpos := hfirst.length_pos
  rw [List.length_append] at hsteps
  obtain ⟨steps, rfl⟩ : ∃ k, steps = k + 1 := ⟨steps - 1, by omega⟩
  rw [List.append_assoc]
  unfold readUnion
  rw [hfirst (rest ++ after) steps (hwrites.endsTerm hafter) (by omega)]
  dsimp only
  rw [hrest after steps hafter (by omega)]

/-- No arguments are read up to the closing bracket. -/
theorem readsArgs_nil : ReadsArgs [.closing] [] := by
  intro rest steps hsteps
  obtain ⟨steps, rfl⟩ : ∃ k, steps = k + 1 := ⟨steps - 1, by simp at hsteps; omega⟩
  rfl

/-- No union starts with the closing bracket. -/
theorem ne_closing_of_readUnion {steps : Nat} (h : readUnion tokens steps = .ok (tree, rest))
    (after : List Token) : tokens ≠ .closing :: after := by
  rintro rfl
  rcases steps with _ | _ | steps <;> cases h

/-- The last argument is read up to the closing bracket. -/
theorem readsArgs_last (h : ReadsUnion tokens tree) : ReadsArgs (tokens ++ [.closing]) [tree] := by
  intro rest steps hsteps
  simp only [List.length_append, List.length_singleton] at hsteps
  obtain ⟨steps, rfl⟩ : ∃ k, steps = k + 1 := ⟨steps - 1, by omega⟩
  have hunion := h (.closing :: rest) steps rfl (by omega)
  rw [List.append_assoc, List.singleton_append, readArgs]
  · rw [hunion]
  · exact ne_closing_of_readUnion hunion

/-- Arguments are read one after the other. -/
theorem readsArgs_cons (hfirst : ReadsUnion first tree) (hrest : ReadsArgs rest args) :
    ReadsArgs (first ++ .comma :: rest) (tree :: args) := by
  intro after steps hsteps
  simp only [List.length_append, List.length_cons] at hsteps
  obtain ⟨steps, rfl⟩ : ∃ k, steps = k + 1 := ⟨steps - 1, by omega⟩
  have hunion := hfirst (.comma :: (rest ++ after)) steps rfl (by omega)
  rw [List.append_assoc, List.cons_append, readArgs]
  · rw [hunion]
    dsimp only
    rw [hrest after steps (by omega)]
  · exact ne_closing_of_readUnion hunion

/-- **Whatever is written as a union is read**, whatever follows that does not continue it. -/
theorem WritesUnion.reads (h : WritesUnion tokens tree) : ReadsUnion tokens tree := by
  -- along the rules by which the tokens are written
  refine @WritesUnion.rec (fun tokens tree _ => ReadsTerm tokens tree)
    (fun tokens arms _ => ReadsArms tokens arms) (fun tokens tree _ => ReadsUnion tokens tree)
    (fun tokens args _ => ReadsArgs tokens args)
    readsTerm_name readsTerm_ellipsis readsTerm_unit
    (fun head _ _ _ _ ih => readsTerm_generic head ih)
    readsArms_nil (fun _ hrest ih ih' => readsArms_cons ih hrest ih')
    (fun _ ih => readsUnion_term ih) (fun _ hrest ih ih' => readsUnion_bars ih hrest ih')
    readsArgs_nil (fun _ ih => readsArgs_last ih) (fun _ _ ih ih' => readsArgs_cons ih ih')
    tokens tree h

/-- **Whatever is written is read.** -/
theorem read_of_writes (h : WritesUnion tokens tree) : Parser.read tokens = .ok tree := by
  have hreads := h.reads [] (4 * tokens.length + 4) rfl (by omega)
  rw [List.append_nil] at hreads
  rw [Parser.read, hreads]

/-- What a text writes is what it is read as. -/
theorem parse_of_writes {text : String} (h : Writes text tree) : parse text = .ok tree := by
  obtain ⟨tokens, hscan, hwrites⟩ := h
  simp only [parse, hscan, read_of_writes hwrites]

end ObjectMapping.TypeTree
