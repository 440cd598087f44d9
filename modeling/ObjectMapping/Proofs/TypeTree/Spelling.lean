import Mathlib.Data.List.TakeWhile
import ObjectMapping.Proofs.TypeTree.Grammar

/-! # Trees of written types in their usual spelling

The text of a tree is cut into tokens again piece by piece. A name ends where a character stands that
cannot belong to it; all other pieces end by themselves, so every piece can be scanned without a look
at the ones after it.

* **`TypeTree.Token.isIdentifier`** — a name that can be written bare.
* `TypeTree.Scans`: a text is scanned to some tokens, whatever follows that does not continue it.
* **`TypeTree.Spellable`** — the heads of a tree can be written, and there are no empty brackets.
* **`TypeTree.writes_text`** — the text of such a tree writes the tree;
  `TypeTree.parse_text_of_spellable` — so the tree is read back. -/

namespace ObjectMapping.TypeTree

namespace Token

/-- **Whether a name can be written bare**, without losing a `typing.` in front. -/
def isIdentifier (name : String) : Bool :=
  match name.toList with
  | [] => false
  | c :: rest => isFirst c && rest.all isInner && !"typing.".toList.isPrefixOf (c :: rest)

/-- Whether a text does not continue a name in front of it. -/
def endsName : List Char → Bool
  | [] => true
  | c :: _ => !isInner c

/-- The characters with which a name starts are the letters and the underscore. -/
theorem toNat_of_isFirst {c : Char} (h : isFirst c = true) :
    (65 ≤ c.toNat ∧ c.toNat ≤ 90) ∨ (97 ≤ c.toNat ∧ c.toNat ≤ 122) ∨ c.toNat = 95 := by
  -- the tests for letters, read as ranges of numbers
  have hupper : c.isUpper = decide (65 ≤ c.val ∧ c.val ≤ 90) := rfl
  have hlower : c.isLower = (decide (97 ≤ c.val) && decide (c.val ≤ 122)) := rfl
  have halpha : c.isAlpha = (c.isUpper || c.isLower) := rfl
  simp only [isFirst, halpha, hupper, hlower, Bool.or_eq_true, Bool.and_eq_true, decide_eq_true_eq,
    beq_iff_eq, UInt32.le_iff_toNat_le] at h
  rcases h with (hrange | hrange) | rfl
  · exact .inl hrange
  · exact .inr (.inl hrange)
  · exact .inr (.inr rfl)

/-- What starts a name is no blank. -/
theorem isBlank_of_isFirst {c : Char} (h : isFirst c = true) : Text.isBlank c = false := by
  have hcode := toNat_of_isFirst h
  simp only [Text.isBlank, Bool.or_eq_false_iff, Bool.and_eq_false_iff, decide_eq_false_iff_not,
    beq_eq_false_iff_ne]
  omega

/-- A name starts with no character that a token of its own starts with. -/
theorem ne_of_isFirst {c d : Char} (h : isFirst c = true) (hd : isFirst d = false) : c ≠ d := by
  rintro rfl
  cases h.symm.trans hd

/-- What starts a name is no quote. -/
theorem isQuote_of_isFirst {c : Char} (h : isFirst c = true) : isQuote c = false := by
  rw [isQuote, Bool.or_eq_false_iff, beq_eq_false_iff_ne, beq_eq_false_iff_ne]
  exact ⟨ne_of_isFirst h (by decide), ne_of_isFirst h (by decide)⟩

variable {name : String} {rest : List Char} {t : Token} {tokens : List Token}

/-- A name is cut off where it ends. -/
theorem splitName_append {c : Char} {cs : List Char} (hcs : cs.all isInner = true)
    (hrest : endsName rest = true) : splitName c (cs ++ rest) = (c :: cs, rest) := by
  have hinner : ∀ d ∈ cs, isInner d = true := List.all_eq_true.mp hcs
  rw [splitName, List.takeWhile_append_of_pos hinner, List.dropWhile_append_of_pos hinner]
  cases rest with
  | nil => simp
  | cons d rest =>
    have hd : isInner d = false := by simpa [endsName] using hrest
    simp [hd]

/-- A token that is read comes before the tokens of the text after it. -/
theorem scan_of_read? {text : List Char} (h : read? (Text.dropBlanks text) = some (t, rest))
    (hrest : scan rest = .ok tokens) : scan text = .ok (t :: tokens) := by
  rw [scan]
  split
  · next t' rest' hread =>
    obtain ⟨rfl, rfl⟩ := Prod.mk.inj (Option.some.inj (h.symm.trans hread))
    rw [hrest]
  · next hread => cases h.symm.trans hread

/-! ## Pieces of a text -/

/-- **A text is scanned to some tokens**, whatever comes after it that does not continue a name. -/
def Scans (text : List Char) (tokens : List Token) : Prop :=
  ∀ rest after, endsName rest = true → scan rest = .ok after →
    scan (text ++ rest) = .ok (tokens ++ after)

/-- A piece can be followed by one that does not continue a name. -/
theorem Scans.append {text other : List Char} {others : List Token} (h : Scans text tokens)
    (hother : Scans other others)
    (hends : ∀ rest, endsName rest = true → endsName (other ++ rest) = true) :
    Scans (text ++ other) (tokens ++ others) := by
  intro rest after hrest hafter
  rw [List.append_assoc, List.append_assoc]
  exact h _ _ (hends rest hrest) (hother rest after hrest hafter)

/-- A name that can be written bare is read back. -/
theorem scans_identifier (hname : isIdentifier name = true) : Scans name.toList [ident name] := by
  intro rest after hrest hafter
  unfold isIdentifier at hname
  split at hname
  · cases hname
  · next c cs hchars =>
    simp only [Bool.and_eq_true, Bool.not_eq_true'] at hname
    obtain ⟨⟨hfirst, hinner⟩, hmarker⟩ := hname
    have hofName : ofName (c :: cs) = ident name := by
      rw [ofName, hmarker, ← hchars, String.ofList_toList]
      rfl
    refine scan_of_read? ?_ hafter
    -- the first character of the name starts no other token, and the last one ends it
    rw [hchars, List.cons_append, Text.dropBlanks,
      List.dropWhile_cons_of_neg (by simp [isBlank_of_isFirst hfirst]), read?]
    · rw [isQuote_of_isFirst hfirst, hfirst, splitName_append hinner hrest]
      simp [hofName]
    · exact fun _ hdot _ => ne_of_isFirst hfirst (by decide) hdot
    all_goals exact ne_of_isFirst hfirst (by decide)

/-- Three dots are scanned as an ellipsis. -/
theorem scans_ellipsis : Scans "...".toList [ellipsis] :=
  fun _ _ _ hafter => scan_of_read? rfl hafter

/-- An empty pair of parentheses is scanned as such. -/
theorem scans_unit : Scans "()".toList [unit] :=
  fun _ _ _ hafter => scan_of_read? rfl hafter

/-- A closing bracket is scanned as such. -/
theorem scans_closing : Scans [']'] [closing] :=
  fun _ _ _ hafter => scan_of_read? rfl hafter

/-- A blank in front of a text does not matter. -/
theorem scan_blank (h : scan rest = .ok tokens) : scan (' ' :: rest) = .ok tokens := by
  have hdrop : Text.dropBlanks (' ' :: rest) = Text.dropBlanks rest := rfl
  rw [scan] at h
  split at h
  · next t after hread =>
    split at h
    · next others hothers =>
      obtain rfl := Except.ok.inj h
      exact scan_of_read? (hdrop ▸ hread) hothers
    · cases h
  · next hread =>
    split at h
    · next hblank =>
      obtain rfl := Except.ok.inj h
      rw [scan]
      split
      · next hread' => cases (hread.symm.trans hread')
      · rw [if_pos (show Text.allBlank (' ' :: rest) = true from hblank)]
    · cases h

/-- An opening bracket ends by itself. -/
theorem Scans.opening {text : List Char} (h : Scans text tokens) :
    Scans ('[' :: text) (.opening :: tokens) :=
  fun rest after hrest hafter => scan_of_read? rfl (h rest after hrest hafter)

/-- A comma ends by itself, and the blank after it is skipped. -/
theorem Scans.comma {text : List Char} (h : Scans text tokens) :
    Scans (',' :: ' ' :: text) (.comma :: tokens) :=
  fun rest after hrest hafter => scan_of_read? rfl (scan_blank (h rest after hrest hafter))

end Token

open Token

/-! ## Trees -/

/-- **A tree that can be written down**: its heads are names that can be written bare, or an ellipsis
or an empty pair of parentheses without arguments, and no brackets are empty. -/
inductive Spellable : TypeTree → Prop
  | name {head : String} (hhead : isIdentifier head = true) : Spellable (.name head)
  | ellipsis : Spellable (.name "...")
  | unit : Spellable (.name "()")
  | generic {head : String} {args : List TypeTree} (hhead : isIdentifier head = true)
      (hargs : args ≠ []) (heach : ∀ arg ∈ args, Spellable arg) : Spellable (.generic head args)

/-- The text of a tree is scanned to tokens that write the tree as one term. -/
def Spelled (tree : TypeTree) : Prop :=
  ∃ tokens, WritesTerm tokens tree ∧ Scans tree.text.toList tokens

/-- The text of arguments, with the closing bracket, writes the arguments. -/
theorem exists_writesArgs {args : List TypeTree} (hargs : args ≠ [])
    (heach : ∀ arg ∈ args, Spelled arg) :
    ∃ tokens, WritesArgs tokens args ∧
      Scans ((Text.commas (texts args)).toList ++ [']']) tokens := by
  induction args with
  | nil => exact absurd rfl hargs
  | cons arg rest ih =>
    obtain ⟨tokens, hwrites, hscans⟩ := heach arg List.mem_cons_self
    cases rest with
    | nil =>
      refine ⟨_, .last (.term hwrites), ?_⟩
      rw [texts, texts, Text.commas, String.intercalate_singleton]
      exact hscans.append scans_closing fun _ _ => rfl
    | cons next rest =>
      obtain ⟨others, hothers, hscansOthers⟩ := ih (List.cons_ne_nil _ _)
        fun other hmem => heach other (List.mem_cons_of_mem _ hmem)
      refine ⟨_, .cons (.term hwrites) hothers, ?_⟩
      have hall := hscans.append hscansOthers.comma fun _ _ => rfl
      rw [texts, texts, Text.commas, String.intercalate_cons_cons, String.toList_append,
        String.toList_append]
      simp only [List.append_assoc]
      exact hall

/-- The text of a tree that can be written down writes it. -/
theorem Spellable.spelled {tree : TypeTree} (h : tree.Spellable) : Spelled tree := by
  induction h with
  | @name head hhead => exact ⟨_, .name head, scans_identifier hhead⟩
  | ellipsis => exact ⟨_, .ellipsis, scans_ellipsis⟩
  | unit => exact ⟨_, .unit, scans_unit⟩
  | @generic head args hhead hargs _ ih =>
    obtain ⟨tokens, hwrites, hscans⟩ := exists_writesArgs hargs ih
    obtain ⟨arg, others, rfl⟩ := List.exists_cons_of_ne_nil hargs
    have hall := (scans_identifier hhead).append hscans.opening fun _ _ => rfl
    refine ⟨_, .generic head hwrites, ?_⟩
    rw [text]
    simp only [String.toList_append, List.append_assoc] at hall ⊢
    exact hall

/-- **The text of a tree that can be written down writes the tree.** -/
theorem writes_text {tree : TypeTree} (h : tree.Spellable) : Writes tree.text tree := by
  obtain ⟨tokens, hwrites, hscans⟩ := h.spelled
  have hscan := hscans [] [] rfl (by rw [scan]; rfl)
  rw [List.append_nil, List.append_nil] at hscan
  exact ⟨tokens, hscan, .term hwrites⟩

/-- **A tree that can be written down is read back from its text.** -/
theorem parse_text_of_spellable {tree : TypeTree} (h : tree.Spellable) :
    parse tree.text = .ok tree :=
  parse_of_writes (writes_text h)

namespace Sample

/-- A union in which names end in dots, and an ellipsis and an empty pair of parentheses stand. -/
def nested : TypeTree :=
  .generic "Union"
    [.generic "Dict" [.name "_key.v2.", .generic "Tuple" [.name "int", .name "..."]],
      .generic "Tuple" [.name "()"]]

/-- The sample tree can be written down. -/
theorem spellable_nested : nested.Spellable := by
  have hpair : (TypeTree.generic "Tuple" [.name "int", .name "..."]).Spellable := by
    refine .generic (by decide) (by simp) ?_
    simpa using ⟨.name (by decide), .ellipsis⟩
  have hnothing : (TypeTree.generic "Tuple" [.name "()"]).Spellable := by
    refine .generic (by decide) (by simp) ?_
    simpa using .unit
  refine .generic (by decide) (by simp) ?_
  have hdict : (TypeTree.generic "Dict"
      [.name "_key.v2.", .generic "Tuple" [.name "int", .name "..."]]).Spellable := by
    refine .generic (by decide) (by simp) ?_
    simpa using ⟨.name (by decide), hpair⟩
  simpa using ⟨hdict, hnothing⟩

end Sample

open TypeTree.Sample

/-- A tree with a name of two parts, with an ellipsis and with an empty tuple is read back from its
text. -/
theorem parse_text_of_spellable_nested :
    nested.Spellable ∧ nested.text = "Union[Dict[_key.v2., Tuple[int, ...]], Tuple[()]]" ∧
      parse "Union[Dict[_key.v2., Tuple[int, ...]], Tuple[()]]" = .ok nested := by
  have htext : nested.text = "Union[Dict[_key.v2., Tuple[int, ...]], Tuple[()]]" := by decide
  exact ⟨spellable_nested, htext, htext ▸ parse_text_of_spellable spellable_nested⟩

end ObjectMapping.TypeTree
