import PathSieve.Proofs.Matching.Language
import PathSieve.Proofs.Pattern.Grammar
import PathSieve.Proofs.Pattern.Lexing

namespace PathSieve.Pattern

open Text (CodePoint pointsOf)

/-!
# Connecting texts

Pattern texts that are written one behind the other with a connective between them compile to the
combination of what they compile to by themselves.

* `undivided` — a text without connectives outside of all its groups.
* `exists_compile_connected` — which connected texts compile.
* `language_connected` — what connected texts accept.
-/

/-! ### Undivided texts -/

/-- Whether no unescaped connective of a text stands outside of all groups, when `depth` groups are
open before it. -/
def undivided (depth : Nat) : List CodePoint → Bool
  | [] => true
  | .char '$' :: _ :: cs => undivided depth cs
  | .char '(' :: cs => undivided (depth + 1) cs
  | .char ')' :: cs => undivided (depth - 1) cs
  | c :: cs => (depth ≠ 0 || c ∉ pointsOf ['&', '|']) && undivided depth cs

/-- Whether a token is a connective. -/
def TokenKind.isConnective (k : TokenKind) : Bool := k = .symbol .conj || k = .symbol .disj

/-- Whether no connective among some tokens stands outside of all groups. -/
def unconnected (depth : Nat) : List TokenKind → Bool
  | [] => true
  | k :: ks => (depth ≠ 0 || !k.isConnective) && unconnected (openAfter depth k) ks

theorem unconnected_append (depth : Nat) (ks ls : List TokenKind) :
    unconnected depth (ks ++ ls) =
      (unconnected depth ks && unconnected (ks.foldl openAfter depth) ls) := by
  induction ks generalizing depth with
  | nil => rfl
  | cons k ks ih =>
    rw [List.cons_append, unconnected, ih, unconnected, List.foldl_cons, Bool.and_assoc]

theorem unconnected_prependKind (depth : Nat) (c : CodePoint) (ks : List TokenKind) :
    unconnected depth (prependKind c ks) = unconnected depth ks := by
  have hliteral : ∀ text ls, unconnected depth (.literal text :: ls) = unconnected depth ls := by
    intro text ls
    simp [unconnected, TokenKind.isConnective, openAfter]
  cases ks with
  | nil => exact hliteral [c] []
  | cons k ks =>
    cases k with
    | literal text => rw [prependKind, hliteral, hliteral]
    | symbol s => exact hliteral [c] (.symbol s :: ks)

theorem undivided_plain {c : CodePoint} (hc : isEscapable c = false) (depth : Nat)
    (cs : List CodePoint) : undivided depth (c :: cs) = undivided depth cs := by
  have hno := isEscapable_eq_false_iff.1 hc
  rw [undivided]
  · simp [pointsOf, hno]
  · simp [hno]
  · simp [hno]
  · simp [hno]

theorem undivided_symbol (depth : Nat) (s : Symbol) (cs : List CodePoint) :
    undivided depth (pointsOf s.spelling ++ cs) =
      (unconnected depth [.symbol s] && undivided (openAfter depth (.symbol s)) cs) := by
  cases s with
  | split s =>
    cases s <;> simp [undivided, unconnected, pointsOf, Symbol.spelling, Separator.char, openAfter,
      TokenKind.isConnective]
  | anyPath s =>
    cases s <;> simp [undivided, unconnected, pointsOf, Symbol.spelling, Separator.char, openAfter,
      TokenKind.isConnective]
  | _ =>
    simp [undivided, unconnected, pointsOf, Symbol.spelling, openAfter, TokenKind.isConnective]

/-- The connectives of a text stand where those of its tokens do. -/
theorem Spells.undivided_eq {ls : List Lexeme} {text : List CodePoint} (h : Spells ls text)
    (depth : Nat) : undivided depth text = unconnected depth (kinds ls) := by
  revert depth
  -- Only escapes, parentheses and connectives count, on either side.
  refine h.kinds_induction
    (motive := fun text ks => ∀ depth, undivided depth text = unconnected depth ks)
    (fun _ => rfl) ?_ ?_ ?_
  · intro e cs ks ih depth
    exact (ih depth).trans (unconnected_prependKind depth e ks).symm
  · intro c cs ks hc ih depth
    rw [undivided_plain hc, ih, unconnected_prependKind]
  · intro s cs ks ih depth
    rw [undivided_symbol, ih]
    exact (unconnected_append depth [.symbol s] ks).symm

/-- An expression without connectives outside of its groups is a single operand. -/
theorem Expr.eq_one {a : Expr} (h : unconnected 0 a.tokens) : ∃ s, a = .one s := by
  cases a with
  | one s => exact ⟨s, rfl⟩
  | snoc a op s =>
    rw [Expr.tokens, unconnected_append, a.foldl_openAfter, unconnected] at h
    cases op <;> simp [Connective.token, Connective.symbol, TokenKind.isConnective] at h

/-! ### Connected texts -/

/-- The character of a connective. -/
def Connective.char : Connective → Char
  | .conj => '&'
  | .disj => '|'

/-- Two texts with a connective between them. -/
def connected (x : List CodePoint) (op : Connective) (y : List CodePoint) : List CodePoint :=
  x ++ .char op.char :: y

theorem kinds_ne_nil {ls : List Lexeme} (h : ls ≠ []) : kinds ls ≠ [] := by
  cases ls with
  | nil => exact absurd rfl h
  | cons l ls =>
    have hprepend : ∀ c ks, prependKind c ks ≠ [] := by
      intro c ks
      fun_cases prependKind c ks <;> exact List.cons_ne_nil _ _
    cases l with
    | plain c => exact hprepend c _
    | escaped c => exact hprepend c _
    | symbol s => exact List.cons_ne_nil _ _

/-- What is known of a text that compiles and is not empty. -/
theorem compile_spells {text : List CodePoint} {a : Arena} (h : compile text = .ok a)
    (hne : text ≠ []) :
    ∃ ls e, Spells ls text ∧ Expr.tokens e = kinds ls ∧ peak 0 e.tokens ≤ maxDepth ∧
      a.tree = patternTree (some e) := by
  obtain ⟨-, -, ts, p, hts, hp, hpeak, htree⟩ := compile_eq_ok h
  obtain ⟨ls, hls, hkinds⟩ := tokenize_spells hts
  have hp' : patternTokens p = kinds ls := hp.trans hkinds
  cases p with
  | none =>
    -- A text that is not empty has lexemes, and these have tokens.
    have hnil : ls ≠ [] := by
      rintro rfl
      cases hls
      exact hne rfl
    exact absurd hp'.symm (kinds_ne_nil hnil)
  | some e =>
    refine ⟨ls, e, hls, hp', ?_, htree⟩
    rw [← hp] at hpeak
    exact hpeak

/-- The tree of a text that is spelled by lexemes with a derivation. -/
theorem Spells.tree {ls : List Lexeme} {text : List CodePoint} {e : Expr} {a : Arena}
    (h : Spells ls text) (he : e.tokens = kinds ls) (ha : compile text = .ok a) :
    a.tree = patternTree (some e) := by
  obtain ⟨ts, hts, hkinds⟩ := h.tokenize
  exact compile_tree ha hts (p := some e) (he.trans hkinds.symm)

/-- A pattern has the language of its expression, whether or not that is in a sequence of its
own. -/
theorem language_patternTree (caseSensitive : Bool) (e : Expr) :
    (patternTree (some e)).language caseSensitive = e.tree.language caseSensitive := by
  cases e with
  | one s => rfl
  | snoc e op s =>
    have hne : (Expr.snoc e op s).tree ≠ .anyPath := by
      rw [Expr.tree]
      exact Tree.join_ne_anyPath op e.tree (.sequence s.trees)
    rw [patternTree, Tree.language, Tree.concat_singleton hne]
    simp

/-- The empty text accepts nothing else. -/
theorem mem_language_nil {a : Arena} (h : compile [] = .ok a) {caseSensitive : Bool}
    {w : List CodePoint} : w ∈ a.tree.language caseSensitive ↔ w = [] := by
  have hts : tokenize [] = .ok [] := rfl
  have htree : a.tree = patternTree none := compile_tree h hts rfl
  rw [htree, patternTree, Tree.language, Tree.concat, Language.mem_one]

section Connect

variable {x y : List CodePoint} {a b : Arena}

/-- Two spelled texts with a connective between them are spelled by what spells them. -/
theorem Spells.connected {ls ms : List Lexeme} (hx : Spells ls x) (hy : Spells ms y)
    (op : Connective) :
    ∃ ks, Spells ks (connected x op y) ∧ kinds ks = kinds ls ++ op.token :: kinds ms := by
  have hapart : Apart (.char op.char) := by cases op <;> decide
  have hop : Spells (.symbol op.symbol :: ms) (.char op.char :: y) := by
    cases op with
    | conj => exact hy.symbol rfl (.single rfl (by decide) (by decide))
    | disj => exact hy.symbol rfl (.single rfl (by decide) (by decide))
  exact ⟨_, hx.append (hapart.detached y) hop, kinds_symbol ..⟩

/-- The derivation of two connected texts: the right one is a further operand of the left one. -/
theorem connected_derivation (hx : compile x = .ok a) (hxne : x ≠ []) (hy : compile y = .ok b)
    (hyne : y ≠ []) (hundivided : undivided 0 y) (op : Connective) :
    ∃ ls e s, Spells ls (connected x op y) ∧ (Expr.snoc e op s).tokens = kinds ls ∧
      peak 0 (Expr.snoc e op s).tokens ≤ maxDepth ∧ a.tree = patternTree (some e) ∧
      b.tree = patternTree (some (.one s)) := by
  obtain ⟨ls, e, hls, he, hepeak, hatree⟩ := compile_spells hx hxne
  obtain ⟨ms, f, hms, hf, hfpeak, hbtree⟩ := compile_spells hy hyne
  -- The right text is a single operand, since a second one would need a connective.
  rw [hms.undivided_eq, ← hf] at hundivided
  obtain ⟨s, rfl⟩ := Expr.eq_one hundivided
  obtain ⟨ks, hks, hkinds⟩ := hls.connected hms op
  refine ⟨ks, e, s, hks, ?_, ?_, hatree, hbtree⟩
  · rw [hkinds, ← he, ← hf]
    rfl
  · rw [Expr.tokens, peak_append, e.foldl_openAfter, peak, openAfter_connective]
    have hs : peak 0 s.tokens ≤ maxDepth := hfpeak
    omega

/-- Connected texts compile unless they are too long together. -/
theorem exists_compile_connected (hx : compile x = .ok a) (hxne : x ≠ []) (hy : compile y = .ok b)
    (hyne : y ≠ []) (hundivided : undivided 0 y) (op : Connective)
    (hlen : (connected x op y).length ≤ maxLength) : ∃ c, compile (connected x op y) = .ok c := by
  obtain ⟨ls, e, s, hls, htokens, hpeak, -⟩ :=
    connected_derivation hx hxne hy hyne hundivided op
  obtain ⟨ts, hts, hkinds⟩ := hls.tokenize
  have hderives : Derives ts (some (.snoc e op s)) := htokens.trans hkinds.symm
  refine exists_compile hlen hts hderives ?_
  rw [hkinds, ← htokens]
  exact hpeak

/-- Connected texts accept what the connective makes of what they accept. -/
theorem language_connected {c : Arena} (hx : compile x = .ok a) (hxne : x ≠ [])
    (hy : compile y = .ok b) (hyne : y ≠ []) (hundivided : undivided 0 y) (op : Connective)
    (hc : compile (connected x op y) = .ok c) (caseSensitive : Bool) :
    c.tree.language caseSensitive =
      Tree.both op (a.tree.language caseSensitive) (b.tree.language caseSensitive) := by
  obtain ⟨ls, e, s, hls, htokens, -, ha, hb⟩ :=
    connected_derivation hx hxne hy hyne hundivided op
  rw [hls.tree htokens hc, ha, hb, language_patternTree, language_patternTree, Expr.tree,
    Tree.language_join]
  rfl

end Connect

end PathSieve.Pattern
