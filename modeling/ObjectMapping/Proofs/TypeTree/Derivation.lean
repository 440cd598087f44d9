import ObjectMapping.Proofs.TypeTree.Lexis

/-! # Derivations of written types

The grammar as data: a derivation says by which rules a list of tokens comes about. The reader finds
the derivation of its tokens if there is one, and there is at most one.

* **`TypeTree.Derivation.Union`** and its fellows — derivations, rule by rule.
* `Union.tokens` is what a derivation derives, `Union.tree` the tree it stands for.
* `Union.writes`: what is derived is written in the sense of the grammar, so it is read.
* `sound`: what is read is derived.
* `Union.unique`: tokens have one derivation at most.
* **`TypeTree.parse_exact`** — a text is read exactly if its tokens have a derivation. -/

namespace ObjectMapping.TypeTree

namespace Derivation

/-! ## The grammar -/

mutual

/-- `term ::= ident | ident "[" args "]" | "..." | "()"`. -/
inductive Term where
  | name (head : String)
  | generic (head : String) (args : Args)
  | ellipsis
  | unit

/-- The repeated part of a union: `("|" term)*`. -/
inductive Arms where
  | nil
  | cons (arm : Term) (rest : Arms)

/-- `union ::= term ("|" term)*`. -/
inductive Union where
  | mk (first : Term) (arms : Arms)

/-- `args ::= union ("," union)* [","]`. -/
inductive Args where
  | last (arg : Union)
  /-- The last argument, with a comma behind it. -/
  | trailing (arg : Union)
  | cons (arg : Union) (rest : Args)

end

mutual

/-- The tokens that a term derives. -/
def Term.tokens : Term → List Token
  | .name head => [.ident head]
  | .generic head args => .ident head :: .opening :: (args.tokens ++ [.closing])
  | .ellipsis => [.ellipsis]
  | .unit => [.unit]

/-- The tokens that arms derive: a bar in front of each. -/
def Arms.tokens : Arms → List Token
  | .nil => []
  | .cons arm rest => .bar :: (arm.tokens ++ rest.tokens)

/-- The tokens that a union derives. -/
def Union.tokens : Union → List Token
  | .mk first arms => first.tokens ++ arms.tokens

/-- The tokens that arguments derive: a comma between two of them, and perhaps one at the end. -/
def Args.tokens : Args → List Token
  | .last arg => arg.tokens
  | .trailing arg => arg.tokens ++ [.comma]
  | .cons arg rest => arg.tokens ++ .comma :: rest.tokens

end

mutual

/-- The tree that a term stands for. -/
def Term.tree : Term → TypeTree
  | .name head => .name head
  | .generic head args => .generic head args.trees
  | .ellipsis => .name "..."
  | .unit => .name "()"

/-- The trees that arms stand for, in their order. -/
def Arms.trees : Arms → List TypeTree
  | .nil => []
  | .cons arm rest => arm.tree :: rest.trees

/-- The tree that a union stands for: a single term is its own tree, two or more are the arguments of
a `Union`. -/
def Union.tree : Union → TypeTree
  | .mk first .nil => first.tree
  | .mk first (.cons arm rest) => .generic "Union" (first.tree :: arm.tree :: rest.trees)

/-- The trees that arguments stand for. A comma at the end adds nothing. -/
def Args.trees : Args → List TypeTree
  | .last arg => [arg.tree]
  | .trailing arg => [arg.tree]
  | .cons arg rest => arg.tree :: rest.trees

end

/-! ## What is derived is written -/

/-- There is at least one argument. -/
theorem Args.exists_trees (d : Args) : ∃ arg others, d.trees = arg :: others := by
  cases d with
  | last arg => exact ⟨_, _, rfl⟩
  | trailing arg => exact ⟨_, _, rfl⟩
  | cons arg rest => exact ⟨_, _, rfl⟩

mutual

/-- What a term derives is written as a term. -/
theorem Term.writes (d : Term) : WritesTerm d.tokens d.tree := by
  cases d with
  | name head => exact .name head
  | generic head args =>
    obtain ⟨arg, others, htrees⟩ := args.exists_trees
    have hwrites := args.writes
    rw [htrees] at hwrites
    rw [Term.tokens, Term.tree, htrees]
    exact .generic head hwrites
  | ellipsis => exact .ellipsis
  | unit => exact .unit

/-- What the arms derive is written as arms. -/
theorem Arms.writes (d : Arms) : WritesArms d.tokens d.trees := by
  cases d with
  | nil => exact .nil
  | cons arm rest => exact .cons arm.writes rest.writes

/-- What a union derives is written as its tree. -/
theorem Union.writes (d : Union) : WritesUnion d.tokens d.tree := by
  cases d with
  | mk first arms =>
    cases arms with
    | nil =>
      rw [Union.tokens, Arms.tokens, List.append_nil]
      exact .term first.writes
    | cons arm rest => exact .bars first.writes (.cons arm.writes rest.writes)

/-- What the arguments derive is written as arguments, up to the closing bracket. -/
theorem Args.writes (d : Args) : WritesArgs (d.tokens ++ [.closing]) d.trees := by
  cases d with
  | last arg => exact .last arg.writes
  | trailing arg =>
    rw [Args.tokens, List.append_assoc, List.singleton_append]
    exact .cons arg.writes .nil
  | cons arg rest =>
    rw [Args.tokens, List.append_assoc, List.cons_append]
    exact .cons arg.writes rest.writes

end

/-! ## What is read is derived -/

/-- What is read within a number of steps is derived. -/
structure Sound (steps : Nat) : Prop where
  term : ∀ {tokens rest tree}, Parser.readTerm tokens steps = .ok (tree, rest) →
    ∃ d : Term, tokens = d.tokens ++ rest ∧ d.tree = tree
  arms : ∀ {tokens rest trees}, Parser.readArms tokens steps = .ok (trees, rest) →
    ∃ d : Arms, tokens = d.tokens ++ rest ∧ d.trees = trees
  union : ∀ {tokens rest tree}, Parser.readUnion tokens steps = .ok (tree, rest) →
    ∃ d : Union, tokens = d.tokens ++ rest ∧ d.tree = tree
  /-- No arguments are read only where the closing bracket stands. -/
  args : ∀ {tokens rest trees}, Parser.readArgs tokens steps = .ok (trees, rest) →
    (trees = [] ∧ tokens = .closing :: rest) ∨
      ∃ d : Args, tokens = d.tokens ++ .closing :: rest ∧ d.trees = trees

variable {steps : Nat} {tokens rest : List Token} {tree : TypeTree} {trees : List TypeTree}

/-- What is read as a term is derived as one. -/
theorem sound_term (h : Sound steps) (hread : Parser.readTerm tokens (steps + 1) = .ok (tree, rest)) :
    ∃ d : Term, tokens = d.tokens ++ rest ∧ d.tree = tree := by
  unfold Parser.readTerm at hread
  split at hread
  · next head after =>
    split at hread
    · cases hread
    · cases hread
    · next args rest' hne hargs =>
      obtain ⟨rfl, rfl⟩ := Prod.mk.inj (Except.ok.inj hread)
      rcases h.args hargs with ⟨hnil, -⟩ | ⟨d, rfl, rfl⟩
      · exact absurd hnil hne
      · refine ⟨.generic head d, ?_, rfl⟩
        rw [Term.tokens, List.cons_append, List.cons_append, List.append_assoc,
          List.singleton_append]
  · next head after _ =>
    obtain ⟨rfl, rfl⟩ := Prod.mk.inj (Except.ok.inj hread)
    exact ⟨.name head, rfl, rfl⟩
  · obtain ⟨rfl, rfl⟩ := Prod.mk.inj (Except.ok.inj hread)
    exact ⟨.ellipsis, rfl, rfl⟩
  · obtain ⟨rfl, rfl⟩ := Prod.mk.inj (Except.ok.inj hread)
    exact ⟨.unit, rfl, rfl⟩
  · cases hread
  · cases hread

/-- What is read as arms is derived as arms. -/
theorem sound_arms (h : Sound steps)
    (hread : Parser.readArms tokens (steps + 1) = .ok (trees, rest)) :
    ∃ d : Arms, tokens = d.tokens ++ rest ∧ d.trees = trees := by
  unfold Parser.readArms at hread
  split at hread
  · next after =>
    split at hread
    · cases hread
    · next arm after' harm =>
      split at hread
      · cases hread
      · next arms after'' harms =>
        obtain ⟨rfl, rfl⟩ := Prod.mk.inj (Except.ok.inj hread)
        obtain ⟨d, rfl, rfl⟩ := h.term harm
        obtain ⟨d', rfl, rfl⟩ := h.arms harms
        refine ⟨.cons d d', ?_, rfl⟩
        rw [Arms.tokens, List.cons_append, List.append_assoc]
  · obtain ⟨rfl, rfl⟩ := Prod.mk.inj (Except.ok.inj hread)
    exact ⟨.nil, rfl, rfl⟩

/-- What is read as a union is derived as one. -/
theorem sound_union (h : Sound steps)
    (hread : Parser.readUnion tokens (steps + 1) = .ok (tree, rest)) :
    ∃ d : Union, tokens = d.tokens ++ rest ∧ d.tree = tree := by
  unfold Parser.readUnion at hread
  split at hread
  · cases hread
  · next first after hfirst =>
    obtain ⟨d, rfl, rfl⟩ := h.term hfirst
    split at hread
    · cases hread
    · next after' harms =>
      obtain ⟨rfl, rfl⟩ := Prod.mk.inj (Except.ok.inj hread)
      obtain ⟨d', rfl, htrees⟩ := h.arms harms
      -- a term without arms is its own tree
      cases d' with
      | nil => exact ⟨.mk d .nil, by rw [Union.tokens, List.append_assoc], rfl⟩
      | cons arm arms => cases htrees
    · next arms after' hne harms =>
      obtain ⟨rfl, rfl⟩ := Prod.mk.inj (Except.ok.inj hread)
      obtain ⟨d', rfl, rfl⟩ := h.arms harms
      cases d' with
      | nil => exact absurd rfl hne
      | cons arm arms => exact ⟨.mk d (.cons arm arms), by rw [Union.tokens, List.append_assoc], rfl⟩

/-- What is read as arguments is derived as arguments, or there are none. -/
theorem sound_args (h : Sound steps)
    (hread : Parser.readArgs tokens (steps + 1) = .ok (trees, rest)) :
    (trees = [] ∧ tokens = .closing :: rest) ∨
      ∃ d : Args, tokens = d.tokens ++ .closing :: rest ∧ d.trees = trees := by
  unfold Parser.readArgs at hread
  split at hread
  · obtain ⟨rfl, rfl⟩ := Prod.mk.inj (Except.ok.inj hread)
    exact .inl ⟨rfl, rfl⟩
  · refine .inr ?_
    split at hread
    · cases hread
    · next arg after harg =>
      obtain ⟨rfl, rfl⟩ := Prod.mk.inj (Except.ok.inj hread)
      obtain ⟨d, rfl, rfl⟩ := h.union harg
      exact ⟨.last d, rfl, rfl⟩
    · next arg after harg =>
      obtain ⟨d, rfl, rfl⟩ := h.union harg
      split at hread
      · cases hread
      · next others after' hothers =>
        obtain ⟨rfl, rfl⟩ := Prod.mk.inj (Except.ok.inj hread)
        rcases h.args hothers with ⟨rfl, rfl⟩ | ⟨d', rfl, rfl⟩
        · -- the bracket closes right after the comma
          exact ⟨.trailing d, by rw [Args.tokens, List.append_assoc, List.singleton_append], rfl⟩
        · exact ⟨.cons d d', by rw [Args.tokens, List.append_assoc, List.cons_append], rfl⟩
    · cases hread

/-- **What is read is derived**, however many steps there are. -/
theorem sound (steps : Nat) : Sound steps := by
  induction steps with
  | zero => exact ⟨nofun, nofun, nofun, nofun⟩
  | succ steps ih => exact ⟨sound_term ih, sound_arms ih, sound_union ih, sound_args ih⟩

/-- **A list of tokens is read exactly if it is derived**, and as the tree of its derivation. -/
theorem read_eq_ok_iff :
    Parser.read tokens = .ok tree ↔ ∃ d : Union, d.tokens = tokens ∧ d.tree = tree := by
  constructor
  · intro h
    unfold Parser.read at h
    split at h
    · cases h
    · next hread =>
      obtain rfl := Except.ok.inj h
      obtain ⟨d, htokens, htree⟩ := (sound _).union hread
      exact ⟨d, by rw [htokens, List.append_nil], htree⟩
    · cases h
  · rintro ⟨d, rfl, rfl⟩
    exact read_of_writes d.writes

/-! ## One derivation at most -/

/-- A term does not start with a closing bracket. -/
theorem Term.tokens_append_ne (d : Term) : d.tokens ++ tokens ≠ .closing :: rest := by
  cases d <;> simp [Term.tokens]

/-- Arguments do not start with a closing bracket. -/
theorem Args.tokens_append_ne (d : Args) : d.tokens ++ tokens ≠ .closing :: rest := by
  have hunion : ∀ (u : Union) (tokens : List Token), u.tokens ++ tokens ≠ .closing :: rest := by
    rintro ⟨first, arms⟩ tokens
    rw [Union.tokens, List.append_assoc]
    exact first.tokens_append_ne
  cases d with
  | last arg => exact hunion arg _
  | trailing arg =>
    rw [Args.tokens, List.append_assoc]
    exact hunion arg _
  | cons arg others =>
    rw [Args.tokens, List.append_assoc]
    exact hunion arg _

mutual

/-- Tokens are cut after a term in one way. -/
theorem Term.cut (d d' : Term) {rest rest' : List Token} (hrest : endsTerm rest = true)
    (hrest' : endsTerm rest' = true) (h : d.tokens ++ rest = d'.tokens ++ rest') :
    d = d' ∧ rest = rest' := by
  cases d with
  | name head =>
    cases d' with
    | name head' =>
      obtain ⟨hhead, rfl⟩ := List.cons.inj h
      exact ⟨congrArg Term.name (Token.ident.inj hhead), rfl⟩
    | generic head' args' =>
      -- the first name would be followed by a bracket
      obtain rfl := (List.cons.inj h).2
      cases hrest
    | _ => cases h
  | generic head args =>
    cases d' with
    | name head' =>
      obtain rfl := (List.cons.inj h).2
      cases hrest'
    | generic head' args' =>
      rw [Term.tokens, Term.tokens] at h
      simp only [List.cons_append, List.append_assoc, List.nil_append, List.cons.injEq,
        Token.ident.injEq, true_and] at h
      obtain ⟨rfl, hargs⟩ := h
      obtain ⟨rfl, rfl⟩ := args.cut args' hargs
      exact ⟨rfl, rfl⟩
    | _ => cases h
  | ellipsis =>
    cases d' with
    | ellipsis => exact ⟨rfl, (List.cons.inj h).2⟩
    | _ => cases h
  | unit =>
    cases d' with
    | unit => exact ⟨rfl, (List.cons.inj h).2⟩
    | _ => cases h
termination_by structural d

/-- Two lists of arms that start the same text are the same ones, if no bar continues them. -/
theorem Arms.cut (d d' : Arms) {rest rest' : List Token} (hrest : endsUnion rest = true)
    (hrest' : endsUnion rest' = true) (h : d.tokens ++ rest = d'.tokens ++ rest') :
    d = d' ∧ rest = rest' := by
  cases d with
  | nil =>
    cases d' with
    | nil => exact ⟨rfl, h⟩
    | cons arm' others' =>
      rw [Arms.tokens, List.nil_append] at h
      rw [h] at hrest
      cases hrest
  | cons arm others =>
    cases d' with
    | nil =>
      rw [Arms.tokens, Arms.tokens, List.nil_append] at h
      rw [← h] at hrest'
      cases hrest'
    | cons arm' others' =>
      rw [Arms.tokens, Arms.tokens, List.cons_append, List.cons_append, List.append_assoc,
        List.append_assoc] at h
      obtain ⟨rfl, hothers⟩ := arm.cut arm' (others.writes.endsTerm hrest)
        (others'.writes.endsTerm hrest') (List.cons.inj h).2
      obtain ⟨rfl, rfl⟩ := others.cut others' hrest hrest' hothers
      exact ⟨rfl, rfl⟩
termination_by structural d

/-- Tokens are cut after a union in one way. -/
theorem Union.cut (d d' : Union) {rest rest' : List Token} (hrest : endsUnion rest = true)
    (hrest' : endsUnion rest' = true) (h : d.tokens ++ rest = d'.tokens ++ rest') :
    d = d' ∧ rest = rest' := by
  cases d with
  | mk first arms =>
    cases d' with
    | mk first' arms' =>
      rw [Union.tokens, Union.tokens, List.append_assoc, List.append_assoc] at h
      obtain ⟨rfl, harms⟩ := first.cut first' (arms.writes.endsTerm hrest)
        (arms'.writes.endsTerm hrest') h
      obtain ⟨rfl, rfl⟩ := arms.cut arms' hrest hrest' harms
      exact ⟨rfl, rfl⟩
termination_by structural d

/-- Tokens are cut after arguments in one way, at their closing bracket. -/
theorem Args.cut (d d' : Args) {rest rest' : List Token}
    (h : d.tokens ++ .closing :: rest = d'.tokens ++ .closing :: rest') : d = d' ∧ rest = rest' := by
  -- behind the first argument stands the bracket, a comma and the bracket, or a comma and more
  cases d with
  | last arg =>
    cases d' with
    | last arg' =>
      obtain ⟨rfl, htail⟩ := arg.cut arg' rfl rfl h
      exact ⟨rfl, (List.cons.inj htail).2⟩
    | trailing arg' =>
      rw [Args.tokens, Args.tokens, List.append_assoc] at h
      cases (arg.cut arg' rfl rfl h).2
    | cons arg' others' =>
      rw [Args.tokens, Args.tokens, List.append_assoc] at h
      cases (arg.cut arg' rfl rfl h).2
  | trailing arg =>
    rw [Args.tokens, List.append_assoc] at h
    cases d' with
    | last arg' => cases (arg.cut arg' rfl rfl h).2
    | trailing arg' =>
      rw [Args.tokens, List.append_assoc] at h
      obtain ⟨rfl, htail⟩ := arg.cut arg' rfl rfl h
      exact ⟨rfl, (List.cons.inj (List.cons.inj htail).2).2⟩
    | cons arg' others' =>
      rw [Args.tokens, List.append_assoc] at h
      have htail := (arg.cut arg' rfl rfl h).2
      exact absurd (List.cons.inj htail).2.symm others'.tokens_append_ne
  | cons arg others =>
    rw [Args.tokens, List.append_assoc] at h
    cases d' with
    | last arg' => cases (arg.cut arg' rfl rfl h).2
    | trailing arg' =>
      rw [Args.tokens, List.append_assoc] at h
      have htail := (arg.cut arg' rfl rfl h).2
      exact absurd (List.cons.inj htail).2 others.tokens_append_ne
    | cons arg' others' =>
      rw [Args.tokens, List.append_assoc] at h
      obtain ⟨rfl, htail⟩ := arg.cut arg' rfl rfl h
      obtain ⟨rfl, rfl⟩ := others.cut others' (List.cons.inj htail).2
      exact ⟨rfl, rfl⟩
termination_by structural d

end

/-- **A list of tokens has one derivation at most.** -/
theorem Union.unique {d d' : Union} (h : d.tokens = d'.tokens) : d = d' :=
  (@Union.cut d d' [] [] rfl rfl (by rw [h])).1

end Derivation

/-! ## The theorem -/

open ObjectMapping.TypeTree.Derivation

/-- A text whose tokens have no derivation, or that is not made up of tokens, is refused. -/
theorem exists_unsupportedType {text : String}
    (h : ∀ d : Union, ¬ Token.Lexes text.toList d.tokens) :
    ∃ reason, parse text = .error (.unsupportedType text reason) := by
  unfold parse
  split
  · exact ⟨_, rfl⟩
  · next tokens hscan =>
    split
    · next tree hread =>
      obtain ⟨d, rfl, -⟩ := read_eq_ok_iff.mp hread
      exact absurd (Token.lexes_of_scan hscan) (h d)
    · exact ⟨_, rfl⟩

/-- **A text is read exactly if its tokens have a derivation.** A text that is made up of tokens is
read just as the tree of a derivation of all of its tokens, of which there is one at most; a text
whose tokens have none is refused as an unsupported type, and so is every text that is not made up of
tokens, such as one with a character that belongs to none. All lists of tokens come up here, as far as
each of the tokens can be written by itself. -/
theorem parse_exact (text : String) :
    (∀ tokens, Token.Lexes text.toList tokens → ∀ tree,
      parse text = .ok tree ↔ ∃ d : Union, d.tokens = tokens ∧ d.tree = tree) ∧
      (∀ d d' : Union, d.tokens = d'.tokens → d = d') ∧
      ((∀ d : Union, ¬ Token.Lexes text.toList d.tokens) →
        ∃ reason, parse text = .error (.unsupportedType text reason)) ∧
      (∀ c ∈ text.toList, Token.isPart c = false →
        ∃ reason, parse text = .error (.unsupportedType text reason)) ∧
      ∀ tokens : List Token, (∀ t ∈ tokens, ∃ word, Token.Starts word t []) →
        ∃ other : String, Token.Lexes other.toList tokens := by
  refine ⟨fun tokens hlexes tree => ?_, fun d d' => Union.unique, exists_unsupportedType,
    fun c hc hpart => exists_unsupportedType fun d hlexes => ?_, fun tokens htokens => ?_⟩
  · rw [← read_eq_ok_iff, parse, hlexes.scan]
    cases hread : Parser.read tokens with
    | error complaint => simp [hread]
    | ok other => simp [hread]
  · have hall := List.all_eq_true.mp hlexes.all_isPart c hc
    rw [hpart] at hall
    cases hall
  · obtain ⟨other, hlexes, -⟩ := Token.exists_lexes htokens
    exact ⟨String.ofList other, by rwa [String.toList_ofList]⟩

/-! ## A union with a quoted name -/

namespace Sample

/-- A list, or something that is not defined yet. -/
def union : Union :=
  .mk (.generic "List" (.trailing (.mk (.name "int") .nil))) (.cons (.name "Node") .nil)

/-- The sample text is made up of the tokens of its derivation. -/
theorem lexes_union : Token.Lexes "typing.List[int,]| 'Node\"".toList union.tokens := by
  have hlist : Token.Starts "typing.List[int,]| 'Node\"".toList (.ident "List")
      "[int,]| 'Node\"".toList :=
    @Token.Starts.bare 't' "yping.List".toList _ rfl rfl rfl
  have hint : Token.Starts "int,]| 'Node\"".toList (.ident "int") ",]| 'Node\"".toList :=
    @Token.Starts.bare 'i' "nt".toList _ rfl rfl rfl
  have hnode : Token.Starts "'Node\"".toList (.ident "Node") [] :=
    @Token.Starts.quoted '\'' '"' 'N' "ode".toList rfl rfl rfl rfl []
  -- only the quoted name has a blank in front
  exact @Token.Lexes.token [] _ _ _ _ rfl hlist <| @Token.Lexes.token [] _ _ _ _ rfl (.opening _) <|
    @Token.Lexes.token [] _ _ _ _ rfl hint <| @Token.Lexes.token [] _ _ _ _ rfl (.comma _) <|
    @Token.Lexes.token [] _ _ _ _ rfl (.closing _) <| @Token.Lexes.token [] _ _ _ _ rfl (.bar _) <|
    @Token.Lexes.token [' '] _ _ _ _ rfl hnode (.blanks rfl)

end Sample

/-- The bar makes a union of the list and the name, and the comma is no argument. -/
theorem parse_exact_union :
    parse "typing.List[int,]| 'Node\"" =
        .ok (.generic "Union" [.generic "List" [.name "int"], .name "Node"]) ∧
      ∃ reason, parse "List[#]" = .error (.unsupportedType "List[#]" reason) := by
  obtain ⟨hread, -⟩ := parse_exact "typing.List[int,]| 'Node\""
  obtain ⟨-, -, -, hrefused, -⟩ := parse_exact "List[#]"
  exact ⟨(hread _ Sample.lexes_union _).mpr ⟨Sample.union, rfl, rfl⟩,
    hrefused '#' (by decide) (by decide)⟩

end ObjectMapping.TypeTree
