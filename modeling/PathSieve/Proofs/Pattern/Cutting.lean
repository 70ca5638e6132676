import PathSieve.Proofs.Matching.Escaping

namespace PathSieve.Pattern

open Matching (slice)
open Text (CodePoint pointsOf)

/-!
# Cutting texts into tokens

The tokens of a text cut it into pieces, each of which is how its token is written, and nothing of
the text is lost. Of all tokens that are written so, these are the ones of which no several would
be read as others.

* `unescape` — what a piece of literal text stands for.
* `TokenKind.Spelled` — how a token is written.
* `Misread`, `Unmistaken` — tokens that would be read as others, and tokens without such.
* `Cuts` — tokens that cut a text into pieces.
* `CutFrom` — the same token by token, from a position on.
* `tokenize_cuts` — tokenizing a text cuts it, unless an escape mark escapes nothing.
-/

/-! ### How tokens are written -/

/-- What a piece of literal text stands for: the escape mark in front of a code point that may have
one is taken away. A sign without an escape is no literal text. -/
def unescape : List CodePoint → Option (List CodePoint)
  | [] => some []
  | .char '$' :: c :: cs => if isEscapable c then (unescape cs).map (c :: ·) else none
  | c :: cs => if isEscapable c then none else (unescape cs).map (c :: ·)

theorem unescape_escaped {c : CodePoint} (hc : isEscapable c) (cs : List CodePoint) :
    unescape (.char '$' :: c :: cs) = (unescape cs).map (c :: ·) := by
  rw [unescape, if_pos hc]

theorem unescape_plain {c : CodePoint} (hc : isEscapable c = false) (cs : List CodePoint) :
    unescape (c :: cs) = (unescape cs).map (c :: ·) := by
  rw [unescape]
  · simp [hc]
  · rintro _ _ rfl
    cases hc

/-- A text is read back from its escaped form, and from no other one. -/
theorem unescape_eq_some_iff {piece value : List CodePoint} :
    unescape piece = some value ↔ piece = escape value := by
  constructor
  · intro h
    fun_induction unescape piece generalizing value with
    | case1 =>
      obtain rfl := Option.some.inj h
      rfl
    | case2 c cs hc ih =>
      obtain ⟨rest, hrest, rfl⟩ := Option.map_eq_some_iff.1 h
      rw [ih hrest, escape_cons, literally, if_pos hc]
      rfl
    | case3 => cases h
    | case4 => cases h
    | case5 c cs _ hc ih =>
      obtain ⟨rest, hrest, rfl⟩ := Option.map_eq_some_iff.1 h
      rw [ih hrest, escape_cons, literally, if_neg hc]
      rfl
  · rintro rfl
    induction value with
    | nil => rfl
    | cons c value ih =>
      rw [escape_cons, literally]
      by_cases hc : isEscapable c
      · rw [if_pos hc]
        show unescape (.char '$' :: c :: escape value) = _
        rw [unescape_escaped hc, ih, Option.map_some]
      · rw [if_neg hc]
        show unescape (c :: escape value) = _
        rw [unescape_plain (Bool.not_eq_true _ ▸ hc), ih, Option.map_some]

/-- A piece of text is how a token is written. -/
def TokenKind.Spelled : TokenKind → List CodePoint → Prop
  | .literal value, piece => value ≠ [] ∧ unescape piece = some value
  | .symbol s, piece => piece = pointsOf s.spelling

theorem spelled_literal {c : CodePoint} {value piece : List CodePoint} :
    (TokenKind.literal (c :: value)).Spelled piece ↔ piece = escape (c :: value) := by
  rw [TokenKind.Spelled, unescape_eq_some_iff]
  exact and_iff_right (List.cons_ne_nil c value)

theorem TokenKind.Spelled.ne_nil {k : TokenKind} {piece : List CodePoint} (h : k.Spelled piece) :
    piece ≠ [] := by
  cases k with
  | literal value =>
    rintro rfl
    exact h.1 (Option.some.inj h.2).symm
  | symbol s =>
    obtain rfl : piece = pointsOf s.spelling := h
    exact Lexeme.spelling_ne_nil (.symbol s)

/-! ### Tokens of a text -/

/-- Where some tokens begin, or the end of the text if there are none. -/
def boundary (text : List CodePoint) (ts : List Token) : Nat :=
  (ts.head?.map Token.position).getD text.length

/-- The pieces of a text that begin at some tokens: each one ends where the next one begins, and the
last one where the text does. -/
def pieces (text : List CodePoint) : List Token → List (List CodePoint)
  | [] => []
  | t :: ts => slice text t.position (boundary text ts) :: pieces text ts

/-- Tokens that would be read as others where they stand side by side: two literals as one, and those
that are pieced together to `(!` or to a path wildcard. -/
inductive Misread : List TokenKind → Prop where
  | literals (value other : List CodePoint) : Misread [.literal value, .literal other]
  | inverse (value : List CodePoint) :
      Misread [.symbol .openGroup, .literal (.char '!' :: value)]
  | pathway (s : Separator) :
      Misread [.symbol .anyChars, .symbol .anyChars, .symbol (.split s)]

/-- No tokens among these would be read as others. -/
def Unmistaken (ks : List TokenKind) : Prop := ∀ run, Misread run → ¬ run <:+: ks

/-- Tokens cut a text into consecutive pieces: the first one begins where the text does, all of them
stand in order, together they are the text, and each one is how its token is written. -/
structure Cuts (text : List CodePoint) (ts : List Token) : Prop where
  first : boundary text ts = 0
  increasing : ts.Pairwise fun t u => t.position < u.position
  whole : (pieces text ts).flatten = text
  spelled : List.Forall₂ (fun t piece => t.kind.Spelled piece) ts (pieces text ts)
  unmistaken : Unmistaken (ts.map Token.kind)

/-- Tokens cut what is left of a text from a position on. -/
inductive CutFrom : Nat → List CodePoint → List Token → Prop where
  | nil (position : Nat) : CutFrom position [] []
  | cons {position : Nat} {k : TokenKind} {piece rest : List CodePoint} {ts : List Token} :
      k.Spelled piece → CutFrom (position + piece.length) rest ts →
      CutFrom position (piece ++ rest) (⟨k, position⟩ :: ts)

/-! ### Pieces and positions -/

section Pieces

variable {position : Nat} {u rest text : List CodePoint} {ts : List Token}

theorem CutFrom.le_position (h : CutFrom position rest ts) : ∀ t ∈ ts, position ≤ t.position := by
  induction h with
  | nil => simp
  | cons _ _ ih =>
    refine List.forall_mem_cons.2 ⟨Nat.le_refl _, fun t ht => ?_⟩
    exact Nat.le_trans (Nat.le_add_right ..) (ih t ht)

theorem CutFrom.increasing (h : CutFrom position rest ts) :
    ts.Pairwise fun t u => t.position < u.position := by
  induction h with
  | nil => exact .nil
  | cons hk hrest ih =>
    rename_i position k piece rest ts
    refine .cons (fun t ht => ?_) ih
    have hpos := List.length_pos_iff.2 hk.ne_nil
    have hle := hrest.le_position t ht
    show position < t.position
    omega

theorem CutFrom.boundary_eq (h : CutFrom position rest ts) (hu : u.length = position) :
    boundary (u ++ rest) ts = position := by
  cases h with
  | nil =>
    rw [List.append_nil]
    exact hu
  | cons => rfl

theorem slice_middle (u piece rest : List CodePoint) :
    slice (u ++ piece ++ rest) u.length (u.length + piece.length) = piece := by
  rw [slice, Nat.add_sub_cancel_left, List.append_assoc, List.drop_left, List.take_left]

theorem CutFrom.pieces (h : CutFrom position rest ts) (hu : u.length = position) :
    (Pattern.pieces (u ++ rest) ts).flatten = rest ∧
      List.Forall₂ (fun t piece => t.kind.Spelled piece) ts (Pattern.pieces (u ++ rest) ts) := by
  induction h generalizing u with
  | nil => exact ⟨rfl, .nil⟩
  | cons hk hrest ih =>
    rename_i position k piece rest ts
    have hu' : (u ++ piece).length = position + piece.length := by rw [List.length_append, hu]
    obtain ⟨hflatten, hall⟩ := ih hu'
    have hpiece : slice (u ++ piece ++ rest) position (boundary (u ++ piece ++ rest) ts) =
        piece := by
      rw [hrest.boundary_eq hu', ← hu, slice_middle]
    rw [← List.append_assoc, Pattern.pieces, hpiece]
    exact ⟨by rw [List.flatten_cons, hflatten], .cons hk hall⟩

/-- Pieces that are not empty begin in the text. -/
theorem boundary_le (h : List.Forall₂ (fun t piece => Token.kind t |>.Spelled piece) ts
    (pieces text ts)) : boundary text ts ≤ text.length := by
  cases ts with
  | nil => exact Nat.le_refl _
  | cons t ts =>
    obtain ⟨hk, -⟩ := List.forall₂_cons.1 h
    by_contra hlt
    have hdrop : text.drop t.position = [] :=
      List.drop_eq_nil_of_le (Nat.le_of_lt (Nat.lt_of_not_le hlt))
    exact hk.ne_nil (by rw [slice, hdrop, List.take_nil])

/-- Pieces of a text from one token to the next cut it token by token. -/
theorem cutFrom_of_pieces (hinc : ts.Pairwise fun t u => t.position < u.position)
    (h : List.Forall₂ (fun t piece => t.kind.Spelled piece) ts (pieces text ts)) :
    CutFrom (boundary text ts) (text.drop (boundary text ts)) ts := by
  induction ts with
  | nil =>
    have hdrop : text.drop (boundary text []) = [] := List.drop_length
    rw [hdrop]
    exact .nil _
  | cons t ts ih =>
    obtain ⟨hk, hrest⟩ := List.forall₂_cons.1 h
    obtain ⟨hlt, hinc⟩ := List.pairwise_cons.1 hinc
    have hbound := boundary_le h
    have hbound' := boundary_le hrest
    have hle : t.position ≤ boundary text ts := by
      cases ts with
      | nil => exact hbound
      | cons u ts => exact Nat.le_of_lt (hlt u List.mem_cons_self)
    have hlen : (slice text t.position (boundary text ts)).length =
        boundary text ts - t.position := Matching.length_slice hbound'
    -- What is left is the piece of the first token and what is left behind it.
    have hcut : text.drop t.position =
        slice text t.position (boundary text ts) ++ text.drop (boundary text ts) := by
      have hdrop : text.drop (boundary text ts) =
          (text.drop t.position).drop (boundary text ts - t.position) := by
        rw [List.drop_drop, Nat.add_sub_cancel' hle]
      rw [hdrop, slice, List.take_append_drop]
    show CutFrom t.position (text.drop t.position) (t :: ts)
    rw [hcut]
    refine .cons hk ?_
    rw [hlen, Nat.add_sub_cancel' hle]
    exact ih hinc hrest

theorem cuts_iff : Cuts text ts ↔ CutFrom 0 text ts ∧ Unmistaken (ts.map Token.kind) := by
  constructor
  · intro h
    have hcut := cutFrom_of_pieces h.increasing h.spelled
    rw [h.first] at hcut
    exact ⟨hcut, h.unmistaken⟩
  · rintro ⟨h, hunmistaken⟩
    obtain ⟨hflatten, hall⟩ := h.pieces (u := []) rfl
    exact ⟨h.boundary_eq (u := []) rfl, h.increasing, hflatten, hall, hunmistaken⟩

end Pieces

/-! ### How pieces begin -/

section Heads

variable {position : Nat} {text : List CodePoint} {ts : List Token}

theorem unmistaken_cons {k : TokenKind} {ks : List TokenKind} :
    Unmistaken (k :: ks) ↔ (∀ run, Misread run → ¬ run <+: k :: ks) ∧ Unmistaken ks := by
  simp only [Unmistaken, List.infix_cons_iff, not_or, forall_and]

/-- A literal piece begins with the escape mark, or with a code point that has no other meaning. -/
theorem head?_escape (c : CodePoint) (value : List CodePoint) :
    (escape (c :: value)).head? = if isEscapable c then some (.char '$') else some c := by
  rw [escape_cons, literally]
  split <;> rfl

theorem head?_append_of_ne_nil {piece rest : List CodePoint} (h : piece ≠ []) :
    (piece ++ rest).head? = piece.head? := by
  cases piece with
  | nil => exact absurd rfl h
  | cons => rfl

/-- `!` begins a literal wherever it begins a piece. -/
theorem CutFrom.head?_mark (h : CutFrom position text ts) :
    text.head? = some (.char '!') ↔
      ∃ value, [.literal (.char '!' :: value)] <+: ts.map Token.kind := by
  cases h with
  | nil => simp
  | cons hk hrest =>
    rename_i k piece rest ts
    rw [head?_append_of_ne_nil hk.ne_nil]
    cases k with
    | literal value =>
      cases value with
      | nil => exact absurd rfl hk.1
      | cons c value =>
        obtain rfl := spelled_literal.1 hk
        rw [head?_escape]
        split
        · rename_i hc
          refine iff_of_false (by simp) ?_
          rintro ⟨other, hprefix⟩
          obtain ⟨heq, -⟩ := List.cons_prefix_cons.1 hprefix
          cases heq
          cases hc
        · simp [eq_comm]
    | symbol s =>
      obtain rfl : piece = pointsOf s.spelling := hk
      refine iff_of_false ?_ (by simp)
      cases s with
      | split s => cases s <;> simp [pointsOf, Symbol.spelling, Separator.char]
      | _ => simp [pointsOf, Symbol.spelling]

/-- A separator at the beginning of a piece is the piece. -/
theorem CutFrom.head?_separator (h : CutFrom position text ts) (s : Separator) :
    text.head? = some (.char s.char) ↔ [.symbol (.split s)] <+: ts.map Token.kind := by
  cases h with
  | nil => simp
  | cons hk hrest =>
    rename_i k piece rest ts
    rw [head?_append_of_ne_nil hk.ne_nil]
    cases k with
    | literal value =>
      cases value with
      | nil => exact absurd rfl hk.1
      | cons c value =>
        obtain rfl := spelled_literal.1 hk
        refine iff_of_false ?_ (by simp)
        rw [head?_escape]
        split
        · cases s <;> simp [Separator.char]
        · rename_i hc
          rintro heq
          cases heq
          cases s <;> exact hc rfl
    | symbol s' =>
      obtain rfl : piece = pointsOf s'.spelling := hk
      cases s' with
      | split s' => cases s <;> cases s' <;> simp [pointsOf, Symbol.spelling, Separator.char]
      | _ => cases s <;> simp [pointsOf, Symbol.spelling, Separator.char]

/-- A star with a separator behind it, at the beginning of a piece, is two pieces. -/
theorem CutFrom.star_separator (h : CutFrom position text ts) (s : Separator) :
    [.char '*', .char s.char] <+: text ↔
      [.symbol .anyChars, .symbol (.split s)] <+: ts.map Token.kind := by
  cases h with
  | nil => simp
  | cons hk hrest =>
    rename_i k piece rest ts
    cases k with
    | literal value =>
      cases value with
      | nil => exact absurd rfl hk.1
      | cons c value =>
        obtain rfl := spelled_literal.1 hk
        refine iff_of_false ?_ (by simp)
        rintro ⟨tail, htail⟩
        -- The piece would begin with the star, which is no literal text.
        have hhead : (escape (c :: value) ++ rest).head? = (escape (c :: value)).head? :=
          head?_append_of_ne_nil hk.ne_nil
        rw [← htail, head?_escape] at hhead
        split at hhead
        · cases hhead
        · rename_i hc
          cases hhead
          exact hc rfl
    | symbol s' =>
      obtain rfl : piece = pointsOf s'.spelling := hk
      cases s' with
      | anyChars =>
        have hnext := hrest.head?_separator s
        simp only [List.map_cons, List.cons_prefix_cons, true_and]
        rw [← hnext]
        cases rest <;> simp [pointsOf, Symbol.spelling, eq_comm]
      | split s' => cases s' <;> simp [pointsOf, Symbol.spelling, Separator.char]
      | anyPath s' => cases s <;> simp [pointsOf, Symbol.spelling, Separator.char]
      | _ => simp [pointsOf, Symbol.spelling]

end Heads

/-! ### Pieces of what is read -/

section Reading

variable {position : Nat} {text rest : List CodePoint} {ts : List Token} {ls : List Lexeme}

/-- What is read is a symbol, or a code point that is taken literally. -/
theorem Reads.symbol_or_literally {c : CodePoint} {ahead : List CodePoint} {l : Lexeme}
    (h : Reads c ahead l) : (∃ s, l = .symbol s) ∨ ∃ d, l = literally d := by
  cases h with
  | escaped he => exact .inr ⟨_, by rw [literally, if_pos he]⟩
  | plain hc => exact .inr ⟨c, by rw [literally, if_neg (by simp [hc])]⟩
  | _ => exact .inl ⟨_, rfl⟩

theorem kinds_cons_literally (c : CodePoint) (ls : List Lexeme) :
    kinds (literally c :: ls) = prependKind c (kinds ls) := by
  unfold literally
  split <;> rfl

/-- A code point that is taken literally lengthens the first piece if that is a literal, and is a piece
of its own otherwise. -/
theorem CutFrom.prepend {c : CodePoint}
    (h : CutFrom (position + (literally c).spelling.length) rest ts) :
    CutFrom position ((literally c).spelling ++ rest) (Pattern.prepend c position ts) := by
  fun_cases Pattern.prepend c position ts with
  | case1 value p ts =>
    generalize hp : position + (literally c).spelling.length = p' at h
    cases h with
    | cons hk hrest =>
      cases value with
      | nil => exact absurd rfl hk.1
      | cons d value =>
        obtain rfl := spelled_literal.1 hk
        subst hp
        rw [← List.append_assoc, ← escape_cons]
        refine .cons (spelled_literal.2 rfl) ?_
        rw [escape_cons, List.length_append, ← Nat.add_assoc]
        exact hrest
  | case2 =>
    refine .cons (spelled_literal.2 ?_) h
    rw [escape_cons, escape, List.flatMap_nil, List.append_nil]

theorem Unmistaken.prependKind {c : CodePoint} {ks : List TokenKind} (h : Unmistaken ks) :
    Unmistaken (prependKind c ks) := by
  fun_cases Pattern.prependKind c ks with
  | case1 value ks =>
    obtain ⟨hhead, htail⟩ := unmistaken_cons.1 h
    refine unmistaken_cons.2 ⟨fun run hrun hprefix => ?_, htail⟩
    obtain ⟨value', other⟩ | ⟨value'⟩ | ⟨s⟩ := hrun
    · -- The literal that is lengthened has stood beside the same other one.
      have hother := (List.cons_prefix_cons.1 hprefix).2
      exact hhead _ (.literals value other) (List.cons_prefix_cons.2 ⟨rfl, hother⟩)
    · cases (List.cons_prefix_cons.1 hprefix).1
    · cases (List.cons_prefix_cons.1 hprefix).1
  | case2 =>
    rename_i hno
    refine unmistaken_cons.2 ⟨fun run hrun hprefix => ?_, h⟩
    obtain ⟨value', other⟩ | ⟨value'⟩ | ⟨s⟩ := hrun
    · obtain ⟨tail, rfl⟩ := (List.cons_prefix_cons.1 hprefix).2
      exact hno other tail rfl
    · cases (List.cons_prefix_cons.1 hprefix).1
    · cases (List.cons_prefix_cons.1 hprefix).1

/-- What lexemes make up cuts the text that they spell, and nothing in it would be read as something
else, since it has been read. -/
theorem Spells.cutFrom (h : Spells ls text) (position : Nat) :
    CutFrom position text (gather (placed position ls)) ∧ Unmistaken (kinds ls) := by
  induction h generalizing position with
  | nil =>
    refine ⟨.nil position, fun run hrun hinfix => ?_⟩
    obtain rfl := List.infix_nil.1 hinfix
    cases hrun
  | cons head spelling tail ih =>
    rename_i l ls c u rest
    obtain ⟨hcut, hunmistaken⟩ := ih (position + l.spelling.length)
    have hkinds : (gather (placed (position + l.spelling.length) ls)).map Token.kind = kinds ls := by
      rw [map_kind_gather, map_lexeme_placed]
    have htext : c :: (u ++ rest) = l.spelling ++ rest := by rw [spelling, List.cons_append]
    rw [htext, placed]
    rcases head.symbol_or_literally with ⟨s, rfl⟩ | ⟨d, rfl⟩
    · refine ⟨.cons (k := .symbol s) rfl hcut, unmistaken_cons.2 ⟨?_, hunmistaken⟩⟩
      intro run hrun hprefix
      obtain ⟨value, other⟩ | ⟨value⟩ | ⟨s'⟩ := hrun
      · cases (List.cons_prefix_cons.1 hprefix).1
      · -- `(` has been read, so there is no `!` behind it.
        obtain ⟨hs, hnext⟩ := List.cons_prefix_cons.1 hprefix
        cases hs
        cases spelling
        rw [← hkinds] at hnext
        cases head with
        | openGroup hno => exact hno (hcut.head?_mark.2 ⟨value, hnext⟩)
        | single _ _ hgroup => exact hgroup rfl
      · obtain ⟨hs, hnext⟩ := List.cons_prefix_cons.1 hprefix
        cases hs
        cases spelling
        rw [← hkinds] at hnext
        cases head with
        | anyChars hno => exact hno s' ((hcut.star_separator s').2 hnext)
        | single _ hchars _ => exact hchars rfl
    · rw [gather_cons_literally, kinds_cons_literally]
      exact ⟨hcut.prepend, hunmistaken.prependKind⟩

/-- A symbol in front of a text, in which it does not look for what it needs to be another one. -/
theorem Spells.cons_symbol {s : Symbol} (h : Spells ls rest)
    (hgroup : s = .openGroup → rest.head? ≠ some (.char '!'))
    (hchars : s = .anyChars → ∀ s' : Separator, ¬ [.char '*', .char s'.char] <+: rest) :
    Spells (.symbol s :: ls) (pointsOf s.spelling ++ rest) := by
  cases s with
  | anyPath s => exact .cons (u := [.char '*', .char s.char]) .anyPath rfl h
  | openInverse => exact .cons (u := [.char '!']) .openInverse rfl h
  | anyChars => exact h.symbol rfl (.anyChars (hchars rfl))
  | openGroup => exact h.symbol rfl (.openGroup (hgroup rfl))
  | _ => exact h.symbol rfl (.single rfl (by simp) (by simp))

/-- Tokens that cut a text, none of which would be read as others, are what is read in it. -/
theorem CutFrom.exists_spells (h : CutFrom position text ts)
    (hunmistaken : Unmistaken (ts.map Token.kind)) :
    ∃ ls, Spells ls text ∧ gather (placed position ls) = ts := by
  induction h with
  | nil => exact ⟨[], .nil, rfl⟩
  | cons hk hrest ih =>
    rename_i position k piece rest ts
    obtain ⟨hhead, htail⟩ := unmistaken_cons.1 hunmistaken
    obtain ⟨ls, hls, hgather⟩ := ih htail
    cases k with
    | literal value =>
      cases value with
      | nil => exact absurd rfl hk.1
      | cons c value =>
        obtain rfl := spelled_literal.1 hk
        refine ⟨_, hls.escape (c :: value), gather_literally hgather ?_⟩
        rintro other p ts rfl
        exact hhead _ (.literals (c :: value) other) ⟨_, rfl⟩
    | symbol s =>
      obtain rfl : piece = pointsOf s.spelling := hk
      refine ⟨.symbol s :: ls, hls.cons_symbol ?_ ?_, ?_⟩
      · rintro rfl hmark
        obtain ⟨value, hnext⟩ := hrest.head?_mark.1 hmark
        exact hhead _ (.inverse value) (List.cons_prefix_cons.2 ⟨rfl, hnext⟩)
      · rintro rfl s' hstar
        have hnext := (hrest.star_separator s').1 hstar
        exact hhead _ (.pathway s') (List.cons_prefix_cons.2 ⟨rfl, hnext⟩)
      · rw [placed, gather]
        exact congrArg _ hgather

end Reading

/-! ### Main statement -/

theorem tokenize_eq_ok_iff {text : List CodePoint} {ts : List Token} :
    tokenize text = .ok ts ↔ Cuts text ts := by
  rw [cuts_iff, tokenize_eq_ok_iff_spells]
  constructor
  · rintro ⟨ls, hls, rfl⟩
    rw [map_kind_gather, map_lexeme_placed]
    exact hls.cutFrom 0
  · rintro ⟨hcut, hunmistaken⟩
    obtain ⟨ls, hls, hgather⟩ := hcut.exists_spells hunmistaken
    exact ⟨ls, hls, hgather.symm⟩

theorem exists_spells_iff {text : List CodePoint} :
    (∃ ls, Spells ls text) ↔ ∃ ts, Cuts text ts := by
  simp only [← tokenize_eq_ok_iff, tokenize_eq_ok_iff_spells]
  exact ⟨fun ⟨ls, hls⟩ => ⟨_, ls, hls, rfl⟩, fun ⟨_, ls, hls, _⟩ => ⟨ls, hls⟩⟩

/-- **Tokens cut their text.** The tokens of a text are those that cut it into consecutive pieces, all
the way from its beginning to its end, where each piece is how its token is written and no tokens
side by side would be read as others. A text is refused exactly if behind a part that tokens cut
there is an escape mark with nothing behind it, or with a code point that has no escape, and it is
refused at that mark. -/
theorem tokenize_cuts (text : List CodePoint) :
    (∀ ts, tokenize text = .ok ts ↔ Cuts text ts) ∧
    ∀ e, tokenize text = .error e ↔
      ∃ u us v, text = u ++ .char '$' :: v ∧ Cuts u us ∧ BadEscape v e.cause ∧
        e.position = u.length := by
  refine ⟨fun ts => tokenize_eq_ok_iff, fun e => ?_⟩
  rw [tokenize_eq_error_iff_spells]
  constructor
  · rintro ⟨ls, u, v, hls, htext, hbad, hposition⟩
    obtain ⟨us, hus⟩ := exists_spells_iff.1 ⟨ls, hls⟩
    exact ⟨u, us, v, htext, hus, hbad, hposition⟩
  · rintro ⟨u, us, v, htext, hus, hbad, hposition⟩
    obtain ⟨ls, hls⟩ := exists_spells_iff.2 ⟨us, hus⟩
    exact ⟨ls, u, v, hls, htext, hbad, hposition⟩

example : tokenize (pointsOf ['*', '*', '*', '/', '$', '*']) =
    .ok [⟨.symbol .anyChars, 0⟩, ⟨.symbol (.anyPath .slash), 1⟩, ⟨.literal [.char '*'], 4⟩] := rfl

end PathSieve.Pattern
