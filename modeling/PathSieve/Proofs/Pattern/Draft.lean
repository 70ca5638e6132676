import PathSieve.Proofs.Pattern.Derivation

namespace PathSieve.Pattern

/-!
# Drafts

A draft is a derivation in the making: for every open group, from the inside out, the part of its
expression that has been read. Reading one token extends a draft or is impossible.

* `Draft.step`, `Draft.run`, `Draft.finish` — one token, a list of tokens, the end of the text.
* `Draft.tokens_run` — a draft holds exactly the tokens that were read.
* `Draft.finish_run_iff` — the patterns that drafts end in are those whose derivation yields the
  tokens, provided that no more than `maxDepth` groups are open at once.
-/

/-! ### Levels of a draft -/

/-- What has been read of an expression: the operands that are complete with the connective behind
them, and the terms of the current operand. -/
structure Part where
  inverted : Bool
  done : Option (Expr × Connective)
  current : Option Operand

namespace Part

/-- Nothing of an expression. -/
def blank (inverted : Bool) : Part := ⟨inverted, none, none⟩

/-- The current operand with one more term. -/
def grow (s : Option Operand) (t : Term) : Operand :=
  match s with
  | none => .one t
  | some s => .snoc s t

/-- Adds a term to the current operand. -/
def addTerm (l : Part) (t : Term) : Part := { l with current := some (grow l.current t) }

/-- The expression that ends with an operand. -/
def joined (l : Part) (s : Operand) : Expr :=
  match l.done with
  | none => .one s
  | some (a, op) => .snoc a op s

/-- Ends the current operand at a connective. -/
def connect (l : Part) (op : Connective) : Option Part :=
  l.current.map fun s => { l with done := some (l.joined s, op), current := none }

/-- The tokens of the operands that are complete. -/
def doneTokens : Option (Expr × Connective) → List TokenKind
  | none => []
  | some (a, op) => a.tokens ++ [op.token]

/-- The tokens of the current operand. -/
def currentTokens : Option Operand → List TokenKind
  | none => []
  | some s => s.tokens

/-- The tokens that have been read of an expression. -/
def tokens (l : Part) : List TokenKind := doneTokens l.done ++ currentTokens l.current

@[simp] theorem tokens_blank (inverted : Bool) : (blank inverted).tokens = [] := rfl

@[simp] theorem tokens_addTerm (l : Part) (t : Term) :
    (l.addTerm t).tokens = l.tokens ++ t.tokens := by
  cases h : l.current <;>
    simp [tokens, addTerm, grow, currentTokens, h, Operand.tokens]

/-- The tokens of an expression that ends with the current operand. -/
theorem tokens_joined {l : Part} {s : Operand} (h : l.current = some s) :
    (l.joined s).tokens = l.tokens := by
  unfold joined tokens
  rw [h]
  cases l.done with
  | none => rfl
  | some p => simp [Expr.tokens, doneTokens, currentTokens]

theorem tokens_connect {l l' : Part} {op : Connective} (h : l.connect op = some l') :
    l'.tokens = l.tokens ++ [op.token] := by
  obtain ⟨s, hs, rfl⟩ := Option.map_eq_some_iff.1 h
  simp [tokens, doneTokens, currentTokens, tokens_joined hs]

end Part

/-! ### Reading tokens -/

/-- The innermost level and those around it. -/
structure Draft where
  level : Part
  outer : List Part

namespace Draft

/-- Nothing has been read. -/
def start : Draft := ⟨.blank false, []⟩

/-- Opens a group, unless too many are open. -/
def openGroup (d : Draft) (inverted : Bool) : Option Draft :=
  if maxDepth ≤ d.outer.length then none else some ⟨.blank inverted, d.level :: d.outer⟩

/-- Closes the innermost group, which has to be complete. -/
def closeGroup (d : Draft) : Option Draft :=
  match d.outer, d.level.current with
  | parent :: outer, some s =>
    some ⟨parent.addTerm (.group d.level.inverted (d.level.joined s)), outer⟩
  | _, _ => none

/-- Adds a leaf. -/
def addLeaf (d : Draft) (l : Leaf) : Draft := { d with level := d.level.addTerm (.leaf l) }

/-- Ends the current operand. -/
def connect (d : Draft) (op : Connective) : Option Draft :=
  (d.level.connect op).map fun l => { d with level := l }

/-- The draft after one more token. -/
def step (d : Draft) : TokenKind → Option Draft
  | .literal text => some (d.addLeaf (.literal text))
  | .symbol .anyChar => some (d.addLeaf .anyChar)
  | .symbol .anyChars => some (d.addLeaf .anyChars)
  | .symbol (.split s) => some (d.addLeaf (.split s))
  | .symbol (.anyPath s) => some (d.addLeaf (.anyPath s))
  | .symbol .conj => d.connect .conj
  | .symbol .disj => d.connect .disj
  | .symbol .openGroup => d.openGroup false
  | .symbol .openInverse => d.openGroup true
  | .symbol .closeGroup => d.closeGroup

/-- The draft after some more tokens. -/
def run (d : Draft) (ks : List TokenKind) : Option Draft := ks.foldlM step d

/-- The pattern of a draft to which nothing is added. -/
def finish (d : Draft) : Option (Option Expr) :=
  match d.outer, d.level.current with
  | [], some s => some (some (d.level.joined s))
  | [], none => if d.level.done = none then some none else none
  | _ :: _, _ => none

@[simp] theorem run_nil (d : Draft) : d.run [] = some d := rfl

theorem run_cons (d : Draft) (k : TokenKind) (ks : List TokenKind) :
    d.run (k :: ks) = (d.step k).bind (·.run ks) := rfl

theorem run_append (d : Draft) (ks ls : List TokenKind) :
    d.run (ks ++ ls) = (d.run ks).bind (·.run ls) := List.foldlM_append

@[simp] theorem step_leaf (d : Draft) (l : Leaf) : d.step l.token = some (d.addLeaf l) := by
  cases l <;> rfl

@[simp] theorem step_connective (d : Draft) (op : Connective) :
    d.step op.token = d.connect op := by
  cases op <;> rfl

@[simp] theorem step_opening (d : Draft) (inverted : Bool) :
    d.step (opening inverted) = d.openGroup inverted := by
  cases inverted <;> rfl

@[simp] theorem step_closing (d : Draft) : d.step closing = d.closeGroup := rfl

theorem openGroup_eq_some {d d' : Draft} {inverted : Bool} (h : d.openGroup inverted = some d') :
    d.outer.length < maxDepth ∧ d' = ⟨.blank inverted, d.level :: d.outer⟩ := by
  unfold openGroup at h
  split at h
  · cases h
  · rename_i hroom
    exact ⟨Nat.lt_of_not_le hroom, (Option.some.inj h).symm⟩

theorem closeGroup_eq_some {d d' : Draft} (h : d.closeGroup = some d') :
    ∃ parent outer s, d.outer = parent :: outer ∧ d.level.current = some s ∧
      d' = ⟨parent.addTerm (.group d.level.inverted (d.level.joined s)), outer⟩ := by
  unfold closeGroup at h
  split at h
  · rename_i parent outer s houter hs
    exact ⟨parent, outer, s, houter, hs, (Option.some.inj h).symm⟩
  · cases h

/-! ### What a draft holds -/

/-- The tokens of a level and of those around it. -/
def tokensOf (l : Part) : List Part → List TokenKind
  | [] => l.tokens
  | parent :: outer => tokensOf parent outer ++ opening l.inverted :: l.tokens

/-- The tokens that a draft has been made from. -/
def tokens (d : Draft) : List TokenKind := tokensOf d.level d.outer

/-- What is added to the innermost level is added to the tokens. -/
theorem tokensOf_append {l l' : Part} {ks : List TokenKind} (outer : List Part)
    (hi : l'.inverted = l.inverted) (h : l'.tokens = l.tokens ++ ks) :
    tokensOf l' outer = tokensOf l outer ++ ks := by
  cases outer with
  | nil => exact h
  | cons parent outer =>
    rw [tokensOf, tokensOf, hi, h, List.append_assoc, List.cons_append]

theorem tokens_addLeaf (d : Draft) (l : Leaf) : (d.addLeaf l).tokens = d.tokens ++ [l.token] := by
  have hgrow : (d.level.addTerm (.leaf l)).tokens = d.level.tokens ++ [l.token] := by
    rw [Part.tokens_addTerm, Term.tokens]
  exact tokensOf_append d.outer rfl hgrow

theorem tokens_connect {d d' : Draft} {op : Connective} (h : d.connect op = some d') :
    d'.tokens = d.tokens ++ [op.token] := by
  obtain ⟨l, hl, rfl⟩ := Option.map_eq_some_iff.1 h
  refine tokensOf_append d.outer ?_ (Part.tokens_connect hl)
  obtain ⟨s, -, rfl⟩ := Option.map_eq_some_iff.1 hl
  rfl

theorem tokens_openGroup {d d' : Draft} {inverted : Bool} (h : d.openGroup inverted = some d') :
    d'.tokens = d.tokens ++ [opening inverted] := by
  obtain ⟨-, rfl⟩ := openGroup_eq_some h
  rfl

theorem tokens_closeGroup {d d' : Draft} (h : d.closeGroup = some d') :
    d'.tokens = d.tokens ++ [closing] := by
  obtain ⟨parent, outer, s, houter, hs, rfl⟩ := closeGroup_eq_some h
  have hinv : (parent.addTerm (.group d.level.inverted (d.level.joined s))).inverted =
      parent.inverted := rfl
  -- The parent gets the whole group, whose tokens the closed level has held so far.
  have hgrow : (parent.addTerm (.group d.level.inverted (d.level.joined s))).tokens =
      parent.tokens ++ (opening d.level.inverted :: d.level.tokens ++ [closing]) := by
    rw [Part.tokens_addTerm, Term.tokens, Part.tokens_joined hs, List.cons_append]
  show tokensOf (parent.addTerm (.group d.level.inverted (d.level.joined s))) outer =
    tokensOf d.level d.outer ++ [closing]
  rw [houter, tokensOf, tokensOf_append outer hinv hgrow, List.append_assoc]

/-- Every token that is read is kept. -/
theorem tokens_step {d d' : Draft} {k : TokenKind} (h : d.step k = some d') :
    d'.tokens = d.tokens ++ [k] := by
  cases k with
  | literal text => exact Option.some.inj h ▸ d.tokens_addLeaf _
  | symbol s =>
    cases s with
    | conj => exact tokens_connect h
    | disj => exact tokens_connect h
    | openGroup => exact tokens_openGroup h
    | openInverse => exact tokens_openGroup h
    | closeGroup => exact tokens_closeGroup h
    | _ => exact Option.some.inj h ▸ d.tokens_addLeaf _

/-- A draft holds exactly the tokens that were read. -/
theorem tokens_run {d d' : Draft} {ks : List TokenKind} (h : d.run ks = some d') :
    d'.tokens = d.tokens ++ ks := by
  induction ks generalizing d with
  | nil =>
    obtain rfl := Option.some.inj h
    exact (List.append_nil _).symm
  | cons k ks ih =>
    obtain ⟨d₁, hstep, hrun⟩ := Option.bind_eq_some_iff.1 h
    rw [ih hrun, tokens_step hstep, List.append_assoc, List.singleton_append]

/-- A finished draft is a derivation of its tokens. -/
theorem tokens_finish {d : Draft} {p : Option Expr} (h : d.finish = some p) :
    patternTokens p = d.tokens := by
  obtain ⟨l, outer⟩ := d
  cases outer with
  | cons parent outer => cases h
  | nil =>
    cases hcurrent : l.current with
    | some s =>
      simp only [finish, hcurrent] at h
      obtain rfl := Option.some.inj h
      exact Part.tokens_joined hcurrent
    | none =>
      simp only [finish, hcurrent] at h
      -- Without terms nor operands nothing has been read.
      split at h
      · rename_i hdone
        obtain rfl := Option.some.inj h
        show [] = l.tokens
        rw [Part.tokens, hdone, hcurrent]
        rfl
      · cases h

/-! ### Open groups -/

/-- A token changes the number of open groups as it says, within the limit. -/
theorem outer_step {d d' : Draft} {k : TokenKind} (h : d.step k = some d')
    (hd : d.outer.length ≤ maxDepth) :
    d'.outer.length = openAfter d.outer.length k ∧ d'.outer.length ≤ maxDepth := by
  -- Only a group that opens needs room, and it is refused without.
  have hopen : ∀ {inverted}, d.openGroup inverted = some d' →
      d'.outer.length = d.outer.length + 1 ∧ d'.outer.length ≤ maxDepth := by
    intro inverted h
    obtain ⟨hroom, rfl⟩ := openGroup_eq_some h
    exact ⟨rfl, hroom⟩
  have hconnect : ∀ {op}, d.connect op = some d' →
      d'.outer.length = d.outer.length ∧ d'.outer.length ≤ maxDepth := by
    intro op h
    obtain ⟨l, -, rfl⟩ := Option.map_eq_some_iff.1 h
    exact ⟨rfl, hd⟩
  cases k with
  | literal text => exact Option.some.inj h ▸ ⟨rfl, hd⟩
  | symbol s =>
    cases s with
    | conj => exact hconnect h
    | disj => exact hconnect h
    | openGroup => exact hopen h
    | openInverse => exact hopen h
    | closeGroup =>
      obtain ⟨parent, outer, s, houter, -, rfl⟩ := closeGroup_eq_some h
      rw [houter, List.length_cons] at hd ⊢
      exact ⟨rfl, Nat.le_of_succ_le hd⟩
    | _ => exact Option.some.inj h ▸ ⟨rfl, hd⟩

/-- What is read never has too many groups open. -/
theorem peak_run {d d' : Draft} {ks : List TokenKind} (h : d.run ks = some d')
    (hd : d.outer.length ≤ maxDepth) : peak d.outer.length ks ≤ maxDepth := by
  induction ks generalizing d with
  | nil => exact hd
  | cons k ks ih =>
    obtain ⟨d₁, hstep, hrun⟩ := Option.bind_eq_some_iff.1 h
    obtain ⟨hlen, hd₁⟩ := outer_step hstep hd
    rw [peak, ← hlen]
    exact Nat.max_le.2 ⟨hd, ih hrun hd₁⟩

/-! ### Reading what a derivation yields -/

/-- The current operand with the terms of another one. -/
def growAll (s : Option Operand) : Operand → Operand
  | .one t => Part.grow s t
  | .snoc u t => .snoc (growAll s u) t

/-- What is left in a level that has read an expression. -/
def filled (inverted : Bool) : Expr → Part
  | .one s => ⟨inverted, none, some s⟩
  | .snoc a op s => ⟨inverted, some (a, op), some s⟩

theorem growAll_none (s : Operand) : growAll none s = s := by
  induction s with
  | one t => rfl
  | snoc u t ih => rw [growAll, ih]

theorem connect_filled (inverted : Bool) (a : Expr) (op : Connective) :
    (filled inverted a).connect op = some ⟨inverted, some (a, op), none⟩ := by
  cases a <;> rfl

theorem peak_left {now : Nat} {ks ls : List TokenKind} (h : peak now (ks ++ ls) ≤ maxDepth) :
    peak now ks ≤ maxDepth := by
  rw [peak_append] at h
  omega

theorem peak_right {now : Nat} {ks ls : List TokenKind} (h : peak now (ks ++ ls) ≤ maxDepth)
    (hks : ks.foldl openAfter now = now) : peak now ls ≤ maxDepth := by
  rw [peak_append, hks] at h
  omega

mutual

/-- Reading the tokens of a term adds the term. -/
theorem run_term (l : Part) (outer : List Part) :
    (t : Term) → peak outer.length t.tokens ≤ maxDepth →
      run ⟨l, outer⟩ t.tokens = some ⟨l.addTerm t, outer⟩
  | .leaf leaf, _ => by
    rw [Term.tokens, run_cons, step_leaf]
    rfl
  | .group inverted body, h => by
    rw [Term.tokens, peak, openAfter_opening] at h
    have hbody : peak (outer.length + 1) body.tokens ≤ maxDepth :=
      peak_left (Nat.le_trans (Nat.le_max_right ..) h)
    -- The body has one group more open, which its peak counts, so there is room for the group.
    have hroom : ¬ maxDepth ≤ outer.length := by
      have hnow : outer.length + 1 ≤ peak (outer.length + 1) body.tokens := by
        cases body.tokens with
        | nil => exact Nat.le_refl _
        | cons => exact Nat.le_max_left ..
      omega
    have hopen : openGroup ⟨l, outer⟩ inverted = some ⟨.blank inverted, l :: outer⟩ := if_neg hroom
    have hclose : closeGroup ⟨filled inverted body, l :: outer⟩ =
        some ⟨l.addTerm (.group inverted body), outer⟩ := by
      cases body <;> rfl
    rw [Term.tokens, run_cons, step_opening, hopen, Option.bind_some, run_append,
      run_expr inverted (l :: outer) body hbody, Option.bind_some, run_cons, step_closing, hclose]
    rfl

/-- Reading the tokens of an operand adds its terms. -/
theorem run_operand (l : Part) (outer : List Part) :
    (s : Operand) → peak outer.length s.tokens ≤ maxDepth →
      run ⟨l, outer⟩ s.tokens = some ⟨{ l with current := some (growAll l.current s) }, outer⟩
  | .one t, h => run_term l outer t h
  | .snoc s t, h => by
    -- The operand closes what it opens, so the term behind it is read at the same depth.
    rw [Operand.tokens, run_append, run_operand l outer s (peak_left h), Option.bind_some,
      run_term _ outer t (peak_right h (s.foldl_openAfter _))]
    rfl

/-- Reading the tokens of an expression in a new level fills it. -/
theorem run_expr (inverted : Bool) (outer : List Part) :
    (a : Expr) → peak outer.length a.tokens ≤ maxDepth →
      run ⟨.blank inverted, outer⟩ a.tokens = some ⟨filled inverted a, outer⟩
  | .one s, h => by
    rw [Expr.tokens, run_operand _ outer s h]
    show some (Draft.mk ⟨inverted, none, some (growAll none s)⟩ outer) = _
    rw [growAll_none, filled]
  | .snoc a op s, h => by
    have hright := peak_right h (a.foldl_openAfter _)
    rw [peak, openAfter_connective] at hright
    have hs : peak outer.length s.tokens ≤ maxDepth := Nat.le_trans (Nat.le_max_right ..) hright
    -- Behind the connective there is no current operand, so the last operand grows from nothing.
    have hop : connect ⟨filled inverted a, outer⟩ op =
        some ⟨⟨inverted, some (a, op), none⟩, outer⟩ := by
      rw [connect, connect_filled]
      rfl
    rw [Expr.tokens, run_append, run_expr inverted outer a (peak_left h), Option.bind_some,
      run_cons, step_connective, hop, Option.bind_some, run_operand _ outer s hs]
    show some (Draft.mk ⟨inverted, some (a, op), some (growAll none s)⟩ outer) = _
    rw [growAll_none, filled]

end

/-- The patterns that drafts end in are those whose derivation yields the tokens, as long as no
more than `maxDepth` groups are open at once. -/
theorem finish_run_iff {ks : List TokenKind} {p : Option Expr} :
    (start.run ks).bind finish = some p ↔ patternTokens p = ks ∧ peak 0 ks ≤ maxDepth := by
  constructor
  · intro h
    -- A draft holds what it has read, and a finished one is a derivation of what it holds.
    obtain ⟨d, hrun, hfinish⟩ := Option.bind_eq_some_iff.1 h
    refine ⟨?_, peak_run hrun (Nat.zero_le _)⟩
    rw [tokens_finish hfinish, tokens_run hrun]
    rfl
  · rintro ⟨rfl, hpeak⟩
    cases p with
    | none => rfl
    | some a =>
      -- A derivation leads the draft through its own tokens.
      have hrun : start.run a.tokens = some ⟨filled false a, []⟩ := run_expr false [] a hpeak
      rw [patternTokens, hrun]
      cases a <;> rfl

end Draft

end PathSieve.Pattern
