import PathSieve.Proofs.Matching.Verdict

namespace PathSieve.Pattern

open Text (CodePoint pointsOf)

/-!
# Escaped texts

Any text can be made a literal: with an escape in front of each code point that may have one, it is
read back as it is, and accepts itself only.

* `escape` — a text with its escapes.
* `Spells.escape`, `gather_literally` — how it is read in front of another text.
* `tokenize_escape` — it is a single literal.
* `matchPath_escape` — it compiles and accepts what the literal is compared equal to.
-/

/-! ### Escapes -/

/-- A text with an escape in front of each code point that may have one. -/
def escape (s : List CodePoint) : List CodePoint :=
  s.flatMap fun c => if isEscapable c then [.char escapeMark, c] else [c]

/-- The lexeme that takes a code point literally. -/
def literally (c : CodePoint) : Lexeme := if isEscapable c then .escaped c else .plain c

theorem escape_cons (c : CodePoint) (s : List CodePoint) :
    escape (c :: s) = (literally c).spelling ++ escape s := by
  rw [escape, List.flatMap_cons, literally]
  split <;> rfl

/-- An escaped text in front of another one. -/
theorem Spells.escape {ls : List Lexeme} {z : List CodePoint} (h : Spells ls z)
    (s : List CodePoint) : Spells (s.map literally ++ ls) (escape s ++ z) := by
  induction s with
  | nil => exact h
  | cons c s ih =>
    rw [List.map_cons, escape_cons, literally, List.append_assoc]
    by_cases hc : isEscapable c
    · rw [if_pos hc]
      exact .cons (u := [c]) (.escaped hc) rfl ih
    · rw [if_neg hc]
      exact .cons (u := []) (.plain (Bool.not_eq_true _ ▸ hc)) rfl ih

theorem gather_cons_literally (c : CodePoint) (position : Nat) (ps : List Placed) :
    gather (⟨literally c, position⟩ :: ps) = prepend c position (gather ps) := by
  unfold literally
  split <;> rfl

theorem prepend_of_ne {ts : List Token} (h : ∀ text p rest, ts ≠ ⟨.literal text, p⟩ :: rest)
    (c : CodePoint) (position : Nat) :
    prepend c position ts = ⟨.literal [c], position⟩ :: ts := by
  fun_cases prepend c position ts with
  | case1 text p rest => exact absurd rfl (h text p rest)
  | case2 => rfl

/-- Lexemes without symbols are a single literal, in front of tokens that do not begin with one. -/
theorem gather_literally {ls : List Lexeme} {position : Nat} {c : CodePoint} {s : List CodePoint}
    {ts : List Token} (hts : gather (placed (position + (escape (c :: s)).length) ls) = ts)
    (h : ∀ text p rest, ts ≠ ⟨.literal text, p⟩ :: rest) :
    gather (placed position ((c :: s).map literally ++ ls)) =
      ⟨.literal (c :: s), position⟩ :: ts := by
  induction s generalizing c position with
  | nil =>
    rw [escape_cons, escape, List.flatMap_nil, List.append_nil] at hts
    rw [List.map_cons, List.cons_append, placed, gather_cons_literally, List.map_nil,
      List.nil_append, hts, prepend_of_ne h]
  | cons d s ih =>
    rw [escape_cons, List.length_append, ← Nat.add_assoc] at hts
    rw [List.map_cons, List.cons_append, placed, gather_cons_literally, ih hts]
    rfl

/-- An escaped text is a single literal, unless it is empty. -/
theorem tokenize_escape (s : List CodePoint) :
    tokenize (escape s) = .ok (if s = [] then [] else [⟨.literal s, 0⟩]) := by
  have hspells := Spells.nil.escape s
  rw [List.append_nil, List.append_nil] at hspells
  refine tokenize_eq_ok_iff_spells.2 ⟨s.map literally, hspells, ?_⟩
  cases s with
  | nil => rfl
  | cons c s =>
    have hgather : gather (placed 0 ((c :: s).map literally ++ [])) = [⟨.literal (c :: s), 0⟩] :=
      gather_literally rfl nofun
    rw [List.append_nil] at hgather
    rw [hgather, if_neg (List.cons_ne_nil c s)]

/-! ### Verdicts -/

/-- The derivation of an escaped text. -/
def escapeExpr (s : List CodePoint) : Option Expr :=
  if s = [] then none else some (.one (.one (.leaf (.literal s))))

theorem derives_escape (s : List CodePoint) :
    Derives (if s = [] then [] else [⟨.literal s, 0⟩]) (escapeExpr s) := by
  unfold escapeExpr
  split <;> rfl

theorem exists_compile_escape {s : List CodePoint} (hlen : (escape s).length ≤ maxLength) :
    ∃ a, compile (escape s) = .ok a := by
  refine exists_compile hlen (tokenize_escape s) (derives_escape s) ?_
  -- A literal opens no group.
  split <;> simp [peak, openAfter]

/-- An escaped text accepts what its literal does. -/
theorem mem_language_escape {s : List CodePoint} {a : Arena} (ha : compile (escape s) = .ok a)
    {caseSensitive : Bool} {w : List CodePoint} :
    w ∈ a.tree.language caseSensitive ↔ w ∈ literalTexts caseSensitive s := by
  by_cases hs : s = []
  · subst hs
    rw [mem_language_nil ha, mem_literalTexts, List.map_nil, List.map_eq_nil_iff]
  · have htree := compile_tree ha (tokenize_escape s) (derives_escape s)
    rw [htree, escapeExpr, if_neg hs, language_patternTree, Expr.tree, Tree.language,
      Operand.trees, Term.trees, Leaf.trees, Tree.concat_singleton (by simp), Tree.language]

/-- **Escaping makes any text literal.** An escaped text that is not too long is read as the literal
that it was made from, compiles and, on whole paths, accepts that very text, or without regard to case
the texts with the same folds, code point by code point. -/
theorem matchPath_escape {s : List CodePoint} (hlen : (escape s).length ≤ maxLength) :
    tokenize (escape s) = .ok (if s = [] then [] else [⟨.literal s, 0⟩]) ∧
      ∃ a, compile (escape s) = .ok a ∧
        ∀ flags : Flags, flags.fullPath = true → flags.inversive = false → ∀ path,
          (a.matchPath path flags = true ↔
            if flags.caseSensitive then path = s
            else path.length = s.length ∧ path.map CodePoint.fold = s.map CodePoint.fold) := by
  obtain ⟨a, ha⟩ := exists_compile_escape hlen
  refine ⟨tokenize_escape s, a, ha, fun flags hfull hinversive path => ?_⟩
  rw [matchPath_iff ha path hinversive, subjectText_of_fullPath hfull, mem_language_escape ha]
  by_cases hcase : flags.caseSensitive
  · rw [if_pos hcase, hcase]
    exact Iff.rfl
  · have hinsensitive : flags.caseSensitive = false := by simpa using hcase
    rw [if_neg hcase, hinsensitive]
    refine ⟨fun hfolds => ⟨?_, hfolds⟩, fun hfolds => hfolds.2⟩
    have hlength := congrArg List.length hfolds
    rwa [List.length_map, List.length_map] at hlength

/-- A text of an escape character, an inverted group and a path wildcard. -/
theorem matchPath_escape_signs :
    let s := pointsOf ['$', '(', '!', 'ß', ')', '*', '*', '/']
    escape s = pointsOf ['$', '$', '$', '(', '!', 'ß', '$', ')', '$', '*', '$', '*', '$', '/'] ∧
      ∃ a, compile (escape s) = .ok a ∧
        ∀ path, a.matchPath path (.ofBools false true true) = true ↔ path = s := by
  intro s
  have hlen : (escape s).length ≤ maxLength := by decide
  obtain ⟨-, a, ha, hverdict⟩ := matchPath_escape hlen
  exact ⟨rfl, a, ha, hverdict (.ofBools false true true) rfl rfl⟩

end PathSieve.Pattern
