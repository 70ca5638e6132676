import PathSieve.Proofs.Pattern.Connecting

namespace PathSieve.Pattern

open Text (CodePoint pointsOf)

/-!
# Enclosed texts

What a text in parentheses compiles to, whether the group is plain, inverted or stands behind a path
wildcard, from what the text compiles to by itself.

* `Writes` — a text writes down an expression.
* `Writes.grouped`, `Writes.inverse`, `Writes.anyDepth` — what the enclosed text writes down.
* `holdsSplit` — a text with an unescaped separator; `Writes.holdsSplit_eq` — its groups are marked.
* `Spells.any_isSeparator_eq` — the separators of a text, escaped or not.
* `language_grouped`, `mem_inverse`, `mem_inverse_inverse`, `language_anyDepth` — what enclosed texts
  accept.
-/

/-! ### Expressions as texts -/

/-- A text writes down an expression: the lexemes that spell it make up the tokens of the
expression. -/
def Writes (text : List CodePoint) (e : Expr) : Prop :=
  ∃ ls, Spells ls text ∧ e.tokens = kinds ls

theorem exists_writes {text : List CodePoint} {a : Arena} (h : compile text = .ok a)
    (hne : text ≠ []) : ∃ e, Writes text e := by
  obtain ⟨ls, e, hls, he, -⟩ := compile_spells h hne
  exact ⟨e, ls, hls, he⟩

/-- A text in parentheses. -/
def grouped (x : List CodePoint) : List CodePoint := .char '(' :: x ++ [.char ')']

/-- A text in an inverted group. -/
def inverse (x : List CodePoint) : List CodePoint := .char '(' :: .char '!' :: x ++ [.char ')']

/-- A text in a group behind a path wildcard. -/
def anyDepth (x : List CodePoint) : List CodePoint :=
  .char '*' :: .char '*' :: .char '/' :: grouped x

section Writes

variable {x : List CodePoint} {e : Expr}

/-- A text accepts what its expression does. -/
theorem Writes.language_eq {a : Arena} (h : Writes x e) (ha : compile x = .ok a)
    (caseSensitive : Bool) : a.tree.language caseSensitive = e.tree.language caseSensitive := by
  obtain ⟨ls, hls, he⟩ := h
  rw [hls.tree he ha, language_patternTree]

/-- The lexemes of a text are followed by the end of its group. -/
theorem Writes.spells_close (h : Writes x e) :
    ∃ ls, Spells ls (x ++ [.char ')']) ∧ kinds ls = e.tokens ++ [closing] := by
  obtain ⟨ls, hls, he⟩ := h
  have hapart : Apart (.char ')') := by decide
  have hclose : Spells [.symbol .closeGroup] [.char ')'] :=
    Spells.nil.symbol rfl (.single rfl (by decide) (by decide))
  refine ⟨_, hls.append (hapart.detached []) hclose, ?_⟩
  rw [kinds_symbol, ← he]
  rfl

theorem Writes.grouped (h : Writes x e) (hhead : x.head? ≠ some (.char '!')) :
    Writes (grouped x) (.one (.one (.group false e))) := by
  obtain ⟨ls, hls, hkinds⟩ := h.spells_close
  -- `(` looks one code point ahead, at the first one of the text or at the end of the group.
  have hopen : (x ++ [CodePoint.char ')']).head? ≠ some (.char '!') := by
    cases x with
    | nil => simp
    | cons d x => exact hhead
  refine ⟨_, hls.symbol rfl (.openGroup hopen), ?_⟩
  rw [kinds, hkinds]
  rfl

/-- What an inverted text begins with does not matter, since `(!` looks no further. -/
theorem Writes.inverse (h : Writes x e) : Writes (inverse x) (.one (.one (.group true e))) := by
  obtain ⟨ls, hls, hkinds⟩ := h.spells_close
  refine ⟨_, Spells.cons (u := [.char '!']) .openInverse rfl hls, ?_⟩
  rw [kinds, hkinds]
  rfl

theorem Writes.anyDepth (h : Writes x e) (hhead : x.head? ≠ some (.char '!')) :
    Writes (anyDepth x) (.one (.snoc (.one (.leaf (.anyPath .slash))) (.group false e))) := by
  obtain ⟨ls, hls, hkinds⟩ := h.grouped hhead
  refine ⟨_, Spells.cons (u := [.char '*', .char '/']) (.anyPath (s := .slash)) rfl hls, ?_⟩
  rw [kinds, ← hkinds]
  rfl

end Writes

/-! ### Unescaped separators -/

/-- Whether an unescaped separator stands in a text. -/
def holdsSplit : List CodePoint → Bool
  | [] => false
  | .char '$' :: _ :: cs => holdsSplit cs
  | c :: cs => isSeparator c || holdsSplit cs

/-- Whether a token is a separator or has one with it. -/
def TokenKind.isSplit : TokenKind → Bool
  | .symbol (.split _) | .symbol (.anyPath _) => true
  | _ => false

theorem any_isSplit_prependKind (c : CodePoint) (ks : List TokenKind) :
    (prependKind c ks).any TokenKind.isSplit = ks.any TokenKind.isSplit := by
  fun_cases prependKind c ks <;> simp [TokenKind.isSplit]

theorem holdsSplit_plain {c : CodePoint} (hc : isEscapable c = false) (cs : List CodePoint) :
    holdsSplit (c :: cs) = holdsSplit cs := by
  have hno := isEscapable_eq_false_iff.1 hc
  rw [holdsSplit]
  · simp [isSeparator, hno]
  · simp [hno]

theorem holdsSplit_symbol (s : Symbol) (cs : List CodePoint) :
    holdsSplit (pointsOf s.spelling ++ cs) = ((TokenKind.symbol s).isSplit || holdsSplit cs) := by
  cases s with
  | split s => cases s <;> simp [holdsSplit, pointsOf, Symbol.spelling, Separator.char,
      TokenKind.isSplit, isSeparator]
  | anyPath s => cases s <;> simp [holdsSplit, pointsOf, Symbol.spelling, Separator.char,
      TokenKind.isSplit, isSeparator]
  | _ => simp [holdsSplit, pointsOf, Symbol.spelling, TokenKind.isSplit, isSeparator]

/-- The unescaped separators of a text are those of its tokens. -/
theorem Spells.holdsSplit_eq {ls : List Lexeme} {text : List CodePoint} (h : Spells ls text) :
    holdsSplit text = (kinds ls).any TokenKind.isSplit := by
  refine h.kinds_induction
    (motive := fun text ks => holdsSplit text = ks.any TokenKind.isSplit) rfl ?_ ?_ ?_
  · intro e cs ks ih
    exact ih.trans (any_isSplit_prependKind e ks).symm
  · intro c cs ks hc ih
    rw [holdsSplit_plain hc, ih, any_isSplit_prependKind]
  · intro s cs ks ih
    rw [holdsSplit_symbol, ih, List.any_cons]

theorem Leaf.isSplit_token (l : Leaf) : l.token.isSplit = l.holdsSplit := by
  cases l <;> rfl

mutual

theorem Term.any_isSplit_tokens : (t : Term) → t.tokens.any TokenKind.isSplit = t.holdsSplit
  | .leaf l => by
    rw [Term.tokens, Term.holdsSplit, List.any_cons, List.any_nil, Bool.or_false, l.isSplit_token]
  | .group inverted body => by
    have hopening : (opening inverted).isSplit = false := by cases inverted <;> rfl
    have hclosing : closing.isSplit = false := rfl
    rw [Term.tokens, Term.holdsSplit, List.any_cons, List.any_append, body.any_isSplit_tokens]
    simp [hopening, hclosing]

theorem Operand.any_isSplit_tokens :
    (s : Operand) → s.tokens.any TokenKind.isSplit = s.holdsSplit
  | .one t => t.any_isSplit_tokens
  | .snoc s t => by
    rw [Operand.tokens, Operand.holdsSplit, List.any_append, s.any_isSplit_tokens,
      t.any_isSplit_tokens]

theorem Expr.any_isSplit_tokens : (a : Expr) → a.tokens.any TokenKind.isSplit = a.holdsSplit
  | .one s => s.any_isSplit_tokens
  | .snoc a op s => by
    have hop : op.token.isSplit = false := by cases op <;> rfl
    rw [Expr.tokens, Expr.holdsSplit, List.any_append, List.any_cons, hop, Bool.false_or,
      a.any_isSplit_tokens, s.any_isSplit_tokens]

end

/-- A text with an unescaped separator is one whose group is marked. -/
theorem Writes.holdsSplit_eq {x : List CodePoint} {e : Expr} (h : Writes x e) :
    holdsSplit x = e.holdsSplit := by
  obtain ⟨ls, hls, he⟩ := h
  rw [hls.holdsSplit_eq, ← he, e.any_isSplit_tokens]

example : holdsSplit (pointsOf ['a', '$', '/', '(', '*', ')']) = false := by decide

/-! ### Separators of any kind -/

/-- Whether a separator is part of a token, be it as a literal. -/
def TokenKind.holdsSeparator : TokenKind → Bool
  | .literal text => text.any isSeparator
  | k => k.isSplit

theorem any_holdsSeparator_prependKind (c : CodePoint) (ks : List TokenKind) :
    (prependKind c ks).any TokenKind.holdsSeparator =
      (isSeparator c || ks.any TokenKind.holdsSeparator) := by
  fun_cases prependKind c ks <;> simp [TokenKind.holdsSeparator, Bool.or_assoc]

theorem any_isSeparator_spelling (s : Symbol) :
    (pointsOf s.spelling).any isSeparator = (TokenKind.symbol s).holdsSeparator := by
  cases s with
  | split s => cases s <;> rfl
  | anyPath s => cases s <;> rfl
  | _ => rfl

/-- The separators of a text are those of its tokens. -/
theorem Spells.any_isSeparator_eq {ls : List Lexeme} {text : List CodePoint}
    (h : Spells ls text) : text.any isSeparator = (kinds ls).any TokenKind.holdsSeparator := by
  refine h.kinds_induction
    (motive := fun text ks => text.any isSeparator = ks.any TokenKind.holdsSeparator) rfl ?_ ?_ ?_
  · intro e cs ks ih
    rw [List.any_cons, List.any_cons, ih, any_holdsSeparator_prependKind]
    rfl
  · intro c cs ks _ ih
    rw [List.any_cons, ih, any_holdsSeparator_prependKind]
  · intro s cs ks ih
    rw [List.any_append, any_isSeparator_spelling, ih, List.any_cons]

/-- An expression without separators is not marked. -/
theorem Expr.holdsSplit_eq_false {a : Expr} (h : a.tokens.any TokenKind.holdsSeparator = false) :
    a.holdsSplit = false := by
  rw [← a.any_isSplit_tokens, List.any_eq_false]
  intro k hk hsplit
  refine List.any_eq_false.1 h k hk ?_
  cases k with
  | literal text => cases hsplit
  | symbol s => exact hsplit

/-! ### What enclosed texts accept -/

section Languages

variable {caseSensitive : Bool} {w : List CodePoint}

theorem Expr.language_group (e : Expr) :
    (Expr.one (.one (.group false e))).tree.language caseSensitive =
      e.tree.language caseSensitive := by
  rw [Expr.tree, Tree.language, Operand.trees, Term.trees, Tree.concat_singleton (by simp),
    Tree.language]

theorem Expr.mem_inverse {e : Expr} :
    w ∈ (Expr.one (.one (.group true e))).tree.language caseSensitive ↔
      (e.holdsSplit = false → w ∈ separatorFree) ∧ w ∉ e.tree.language caseSensitive := by
  rw [Expr.tree, Tree.language, Operand.trees, Term.trees, Tree.concat_singleton (by simp),
    Tree.mem_group_inverted]

variable {x : List CodePoint} {a c : Arena}

/-- A text in parentheses accepts what it accepts without them. -/
theorem language_grouped (hx : compile x = .ok a) (hne : x ≠ [])
    (hhead : x.head? ≠ some (.char '!')) (hc : compile (grouped x) = .ok c) :
    c.tree.language caseSensitive = a.tree.language caseSensitive := by
  obtain ⟨e, he⟩ := exists_writes hx hne
  rw [(he.grouped hhead).language_eq hc, he.language_eq hx, e.language_group]

/-- An inverted text accepts what the text does not, within a segment unless the text holds an
unescaped separator. -/
theorem mem_inverse (hx : compile x = .ok a) (hne : x ≠ []) (hc : compile (inverse x) = .ok c) :
    w ∈ c.tree.language caseSensitive ↔
      (holdsSplit x = false → w ∈ separatorFree) ∧ w ∉ a.tree.language caseSensitive := by
  obtain ⟨e, he⟩ := exists_writes hx hne
  rw [he.inverse.language_eq hc, he.language_eq hx, Expr.mem_inverse, he.holdsSplit_eq]

/-- What is inverted twice is kept within the segment. -/
theorem mem_inverse_inverse (hx : compile x = .ok a) (hne : x ≠ [])
    (hc : compile (inverse (inverse x)) = .ok c) :
    w ∈ c.tree.language caseSensitive ↔
      (holdsSplit x = false → w ∈ separatorFree) ∧ w ∈ a.tree.language caseSensitive := by
  obtain ⟨e, he⟩ := exists_writes hx hne
  -- The group inside is marked as the one around it.
  have hmark : (Expr.one (.one (.group true e))).holdsSplit = e.holdsSplit := rfl
  rw [he.inverse.inverse.language_eq hc, he.language_eq hx, Expr.mem_inverse, Expr.mem_inverse,
    hmark, he.holdsSplit_eq]
  tauto

/-- A group behind a path wildcard accepts what the text does, behind whole segments. -/
theorem language_anyDepth (hx : compile x = .ok a) (hne : x ≠ [])
    (hhead : x.head? ≠ some (.char '!')) (hc : compile (anyDepth x) = .ok c) :
    c.tree.language caseSensitive = wholeSegments * a.tree.language caseSensitive := by
  obtain ⟨e, he⟩ := exists_writes hx hne
  have htrees : (Operand.snoc (.one (.leaf (.anyPath .slash))) (.group false e)).trees =
      .anyPath :: .split .slash :: (Operand.one (.group false e)).trees := rfl
  rw [(he.anyDepth hhead).language_eq hc, he.language_eq hx, ← e.language_group, Expr.tree,
    Tree.language, htrees, Tree.concat, Expr.tree, Tree.language]

end Languages

end PathSieve.Pattern
