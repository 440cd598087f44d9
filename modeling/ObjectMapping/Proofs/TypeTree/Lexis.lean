import ObjectMapping.Proofs.TypeTree.Spelling

/-! # How written types are cut into tokens

What the tokens of a text are, without the scanner: between blanks stand names, bare or in quotes of
either kind, and punctuation. A bare name goes on as far as it can; every other token ends by itself.

* **`TypeTree.Token.Starts`** — a text starts with a token.
* **`TypeTree.Token.Lexes`** — a text is made up of tokens.
* **`TypeTree.Token.scan_eq_ok_iff`** — the scanner finds the tokens of a text, if it is made up of
  some.
* `TypeTree.Token.exists_lexes`: all tokens that can be written at all can be written one after
  another. -/

namespace ObjectMapping.TypeTree.Token

/-- **A text starts with a token**, and the rest comes after it. -/
inductive Starts : List Char → Token → List Char → Prop
  | bare {c : Char} {cs rest : List Char} (hfirst : isFirst c = true) (hinner : cs.all isInner = true)
      (hends : endsName rest = true) : Starts (c :: (cs ++ rest)) (ofName (c :: cs)) rest
  /-- The two quotes may be of different kinds. -/
  | quoted {q q' c : Char} {cs : List Char} (hquote : isQuote q = true) (hquote' : isQuote q' = true)
      (hfirst : isFirst c = true) (hinner : cs.all isInner = true) (rest : List Char) :
      Starts (q :: c :: (cs ++ q' :: rest)) (ofName (c :: cs)) rest
  | ellipsis (rest : List Char) : Starts ('.' :: '.' :: '.' :: rest) ellipsis rest
  /-- There may be blanks between the parentheses. -/
  | unit {blanks : List Char} (hblanks : Text.allBlank blanks = true) (rest : List Char) :
      Starts ('(' :: (blanks ++ ')' :: rest)) unit rest
  | opening (rest : List Char) : Starts ('[' :: rest) opening rest
  | closing (rest : List Char) : Starts (']' :: rest) closing rest
  | comma (rest : List Char) : Starts (',' :: rest) comma rest
  | bar (rest : List Char) : Starts ('|' :: rest) bar rest

/-- **A text is made up of tokens**, with blanks in front of them and at the end. -/
inductive Lexes : List Char → List Token → Prop
  | blanks {text : List Char} (hblanks : Text.allBlank text = true) : Lexes text []
  | token {blanks text rest : List Char} {t : Token} {tokens : List Token}
      (hblanks : Text.allBlank blanks = true) (hstarts : Starts text t rest)
      (hrest : Lexes rest tokens) : Lexes (blanks ++ text) (t :: tokens)

variable {text rest blanks : List Char} {t : Token} {tokens : List Token}

/-! ## Single tokens -/

/-- A name is split off a text as far as it goes. -/
theorem splitName_eq {c : Char} {text : List Char} :
    ∃ cs rest, cs.all isInner = true ∧ endsName rest = true ∧ text = cs ++ rest ∧
      splitName c text = (c :: cs, rest) := by
  refine ⟨text.takeWhile isInner, text.dropWhile isInner, List.all_takeWhile, ?_,
    List.takeWhile_append_dropWhile.symm, rfl⟩
  cases hrest : text.dropWhile isInner with
  | nil => rfl
  | cons d rest =>
    have hd : isInner d = false := by
      have := List.head?_dropWhile_not isInner text
      rw [hrest] at this
      simpa using this
    simp [endsName, hd]

/-- A quote is none of the characters that other tokens start with. -/
theorem ne_of_isQuote {c d : Char} (h : isQuote c = true) (hd : isQuote d = false) : c ≠ d := by
  rintro rfl
  cases h.symm.trans hd

/-- A name in quotes starts the text that it is read from. -/
theorem starts_of_readQuoted {q : Char} (hquote : isQuote q = true)
    (h : readQuoted text = some (t, rest)) : Starts (q :: text) t rest := by
  unfold readQuoted at h
  split at h
  · cases h
  · next c tail =>
    split at h
    · next hfirst =>
      obtain ⟨cs, after, hinner, -, rfl, hsplit⟩ := @splitName_eq c tail
      rw [hsplit] at h
      cases after with
      | nil => cases h
      | cons q' after =>
        dsimp only at h
        split at h
        · next hquote' =>
          obtain ⟨rfl, rfl⟩ := Prod.mk.inj (Option.some.inj h)
          exact .quoted hquote hquote' hfirst hinner _
        · cases h
    · cases h

/-- What is read as a token starts with it. -/
theorem starts_of_read? (h : read? text = some (t, rest)) : Starts text t rest := by
  unfold read? at h
  split at h
  · cases h
  · obtain ⟨rfl, rfl⟩ := Prod.mk.inj (Option.some.inj h)
    exact .ellipsis _
  · next tail =>
    split at h
    · next after hafter =>
      obtain ⟨rfl, rfl⟩ := Prod.mk.inj (Option.some.inj h)
      rw [← List.takeWhile_append_dropWhile (p := Text.isBlank) (l := tail),
        show tail.dropWhile Text.isBlank = _ from hafter]
      exact .unit List.all_takeWhile _
    · cases h
  · obtain ⟨rfl, rfl⟩ := Prod.mk.inj (Option.some.inj h)
    exact .opening _
  · obtain ⟨rfl, rfl⟩ := Prod.mk.inj (Option.some.inj h)
    exact .closing _
  · obtain ⟨rfl, rfl⟩ := Prod.mk.inj (Option.some.inj h)
    exact .comma _
  · obtain ⟨rfl, rfl⟩ := Prod.mk.inj (Option.some.inj h)
    exact .bar _
  · next c tail _ _ _ _ _ _ =>
    split at h
    · -- no punctuation: a name in quotes, or a bare one
      next hquote => exact starts_of_readQuoted hquote h
    · split at h
      · next hfirst =>
        obtain ⟨cs, after, hinner, hends, rfl, hsplit⟩ := @splitName_eq c tail
        rw [hsplit] at h
        obtain ⟨rfl, rfl⟩ := Prod.mk.inj (Option.some.inj h)
        exact .bare hfirst hinner hends
      · cases h

/-- A quote ends a name. -/
theorem endsName_of_isQuote {q : Char} (h : isQuote q = true) : endsName (q :: rest) = true := by
  simp only [isQuote, Bool.or_eq_true, beq_iff_eq] at h
  rcases h with rfl | rfl <;> rfl

/-- What starts with a token is read as this token. -/
theorem Starts.read? (h : Starts text t rest) : Token.read? text = some (t, rest) := by
  cases h with
  | @bare c cs _ hfirst hinner hends =>
    rw [Token.read?]
    · rw [isQuote_of_isFirst hfirst, hfirst, splitName_append hinner hends]
      rfl
    · exact fun _ hdot _ => ne_of_isFirst hfirst (by decide) hdot
    all_goals exact ne_of_isFirst hfirst (by decide)
  | @quoted q q' c cs hquote hquote' hfirst hinner =>
    have hends : endsName (q' :: rest) = true := endsName_of_isQuote hquote'
    rw [Token.read?]
    · rw [if_pos hquote, readQuoted, if_pos hfirst, splitName_append hinner hends]
      simp [hquote']
    · exact fun _ hdot _ => ne_of_isQuote hquote (by decide) hdot
    all_goals exact ne_of_isQuote hquote (by decide)
  | ellipsis => rfl
  | @unit blanks hblanks =>
    have hdrop : Text.dropBlanks (blanks ++ ')' :: rest) = ')' :: rest := by
      rw [Text.dropBlanks, List.dropWhile_append_of_pos (List.all_eq_true.mp hblanks)]
      rfl
    rw [Token.read?, hdrop]
    rfl
  | opening => rfl
  | closing => rfl
  | comma => rfl
  | bar => rfl

/-- No token starts with a blank. -/
theorem Starts.dropBlanks (h : Starts text t rest) : Text.dropBlanks text = text := by
  have hquote : ∀ q, isQuote q = true → Text.isBlank q = false := by
    intro q hq
    simp only [isQuote, Bool.or_eq_true, beq_iff_eq] at hq
    rcases hq with rfl | rfl <;> rfl
  cases h with
  | bare hfirst => exact List.dropWhile_cons_of_neg (by simp [isBlank_of_isFirst hfirst])
  | quoted hq => exact List.dropWhile_cons_of_neg (by simp [hquote _ hq])
  | _ => rfl

/-- A token that ends a text can be followed by whatever does not continue a name. -/
theorem Starts.append (h : Starts text t []) (hrest : endsName rest = true) :
    Starts (text ++ rest) t rest := by
  cases h with
  | @bare c cs _ hfirst hinner =>
    rw [List.append_nil, List.cons_append]
    exact .bare hfirst hinner hrest
  | quoted hquote hquote' hfirst hinner =>
    rw [List.cons_append, List.cons_append, List.append_assoc]
    exact .quoted hquote hquote' hfirst hinner rest
  | ellipsis => exact .ellipsis rest
  | unit hblanks =>
    rw [List.cons_append, List.append_assoc]
    exact .unit hblanks rest
  | opening => exact .opening rest
  | closing => exact .closing rest
  | comma => exact .comma rest
  | bar => exact .bar rest

/-! ## Whole texts -/

/-- The scanner stops at the end of a text only if the text is made up of the tokens. -/
theorem lexes_of_scan (h : scan text = .ok tokens) : Lexes text tokens := by
  fun_induction scan text generalizing tokens with
  | case1 text t rest hread ts hscan ih =>
    obtain rfl := Except.ok.inj h
    rw [← List.takeWhile_append_dropWhile (p := Text.isBlank) (l := text)]
    exact .token List.all_takeWhile (starts_of_read? hread) (ih hscan)
  | case2 => cases h
  | case3 text hread hblank =>
    obtain rfl := Except.ok.inj h
    exact .blanks hblank
  | case4 => cases h

/-- The scanner finds the tokens that a text is made up of. -/
theorem Lexes.scan (h : Lexes text tokens) : Token.scan text = .ok tokens := by
  induction h with
  | @blanks text hblanks =>
    have hdrop : Text.dropBlanks text = [] :=
      List.dropWhile_eq_nil_iff.mpr (List.all_eq_true.mp hblanks)
    rw [Token.scan, hdrop]
    simp [Token.read?, hblanks]
  | @token blanks text rest t tokens hblanks hstarts _ ih =>
    have hdrop : Text.dropBlanks (blanks ++ text) = text :=
      (List.dropWhile_append_of_pos (List.all_eq_true.mp hblanks)).trans hstarts.dropBlanks
    exact scan_of_read? (hdrop.symm ▸ hstarts.read?) ih

/-- **The scanner finds the tokens of a text**, if the text is made up of tokens. -/
theorem scan_eq_ok_iff : scan text = .ok tokens ↔ Lexes text tokens :=
  ⟨lexes_of_scan, Lexes.scan⟩

/-- A text is made up of tokens in one way only. -/
theorem Lexes.unique {others : List Token} (h : Lexes text tokens) (h' : Lexes text others) :
    tokens = others :=
  Except.ok.inj (h.scan.symm.trans h'.scan)

/-- All tokens that can be written at all can be written one after another. -/
theorem exists_lexes (h : ∀ t ∈ tokens, ∃ text, Starts text t []) :
    ∃ text, Lexes text tokens ∧ endsName text = true := by
  induction tokens with
  | nil => exact ⟨[], .blanks rfl, rfl⟩
  | cons t tokens ih =>
    rw [List.forall_mem_cons] at h
    obtain ⟨text, hstarts⟩ := h.1
    obtain ⟨rest, hlexes, hends⟩ := ih h.2
    -- a blank in front keeps the token apart from a name before it
    exact ⟨[' '] ++ (text ++ rest), .token rfl (hstarts.append hends) hlexes, rfl⟩

/-! ## Characters of tokens -/

/-- Whether a character can stand in a text that is made up of tokens. -/
def isPart (c : Char) : Bool :=
  Text.isBlank c || isInner c || isQuote c || "()[],|".toList.contains c

/-- What is inside a name is part of a written type. -/
theorem isPart_of_isInner {c : Char} (h : isInner c = true) : isPart c = true := by
  simp [isPart, h]

/-- What starts a name is part of a written type. -/
theorem isPart_of_isFirst {c : Char} (h : isFirst c = true) : isPart c = true := by
  refine isPart_of_isInner ?_
  simp only [isFirst, Bool.or_eq_true] at h
  rcases h with halpha | hunder
  · simp [isInner, Char.isAlphanum, halpha]
  · simp [isInner, hunder]

/-- A quote is part of a written type. -/
theorem isPart_of_isQuote {c : Char} (h : isQuote c = true) : isPart c = true := by
  simp [isPart, h]

/-- Blanks are parts of a written type. -/
theorem all_isPart_of_isBlank {text : List Char} (h : Text.allBlank text = true) :
    text.all isPart = true :=
  List.all_eq_true.mpr fun c hc => by simp [isPart, List.all_eq_true.mp h c hc]

/-- The characters inside names are parts of a written type. -/
theorem all_isPart_of_isInner {text : List Char} (h : text.all isInner = true) :
    text.all isPart = true :=
  List.all_eq_true.mpr fun c hc => isPart_of_isInner (List.all_eq_true.mp h c hc)

/-- In front of the rest stand characters of tokens only. -/
theorem Starts.all_isPart (h : Starts text t rest) (hrest : rest.all isPart = true) :
    text.all isPart = true := by
  cases h with
  | bare hfirst hinner =>
    simp [isPart_of_isFirst hfirst, all_isPart_of_isInner hinner, hrest]
  | quoted hquote hquote' hfirst hinner =>
    simp [isPart_of_isQuote hquote, isPart_of_isQuote hquote', isPart_of_isFirst hfirst,
      all_isPart_of_isInner hinner, hrest]
  | unit hblanks =>
    rw [List.all_cons, List.all_append, List.all_cons, all_isPart_of_isBlank hblanks, hrest]
    rfl
  | _ => rw [← hrest]; rfl

/-- A text that is made up of tokens holds characters of tokens only. -/
theorem Lexes.all_isPart (h : Lexes text tokens) : text.all isPart = true := by
  induction h with
  | blanks hblanks => exact all_isPart_of_isBlank hblanks
  | token hblanks hstarts _ ih =>
    rw [List.all_append, all_isPart_of_isBlank hblanks, hstarts.all_isPart ih, Bool.and_self]

end ObjectMapping.TypeTree.Token
