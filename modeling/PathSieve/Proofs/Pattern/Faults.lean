import PathSieve.Proofs.Pattern.Cutting
import PathSieve.Proofs.Pattern.Steps

namespace PathSieve.Pattern

open Text (CodePoint pointsOf)

/-!
# Faults of texts

A text that does not compile is refused at a position, and there is its fault. What is wrong there
can be said by the tokens of the text: which groups are open behind some of them, and whether there
is a term between the last of them and the level or the connective before it.

* `openings` — where the groups begin that are open behind some tokens.
* `Bare` — tokens behind which a term is missing.
* `FormatError.PointsIn` — an error is where the fault is that it speaks of.
* `Build.Knows` — what a build knows of the tokens it has read.
* `Build.Knows.step`, `Build.Knows.run` — one more token, and all of them.
* `Build.Knows.step_error`, `Build.Knows.finish_error` — what is refused.
* `compile_error_points` — errors of texts.
-/

/-! ### Groups and terms -/

/-- Where the groups begin that are open after a token, from the inside out, if those that begin at
some positions are open before it. -/
def openedAfter (now : List Nat) (t : Token) : List Nat :=
  match t.kind with
  | .symbol .openGroup => t.position :: now
  | .symbol .openInverse => t.position :: now
  | .symbol .closeGroup => now.tail
  | _ => now

/-- Where the groups begin that are open behind some tokens, from the inside out. -/
def openings (ts : List Token) : List Nat := ts.foldl openedAfter []

/-- Behind some tokens, nothing has been read of the current operand: the last of them opens the
level or is a connective, or there is none. -/
def Bare (ts : List Token) : Prop :=
  ts = [] ∨ ∃ before t, ts = before ++ [t] ∧
    ((∃ inverted, t.kind = opening inverted) ∨ ∃ op : Connective, t.kind = op.token)

section Openings

variable {now : List Nat} {ts : List Token} {p : Nat}

theorem openings_concat (ts : List Token) (t : Token) :
    openings (ts ++ [t]) = openedAfter (openings ts) t := by
  rw [openings, List.foldl_append]
  rfl

@[simp] theorem openedAfter_opening (now : List Nat) (inverted : Bool) (p : Nat) :
    openedAfter now ⟨opening inverted, p⟩ = p :: now := by
  cases inverted <;> rfl

@[simp] theorem openedAfter_connective (now : List Nat) (op : Connective) (p : Nat) :
    openedAfter now ⟨op.token, p⟩ = now := by
  cases op <;> rfl

theorem mem_openedAfter {t : Token} (h : p ∈ openedAfter now t) :
    p ∈ now ∨ ∃ inverted, t = ⟨opening inverted, p⟩ := by
  obtain ⟨k, q⟩ := t
  have hopening : ∀ inverted, p ∈ q :: now →
      p ∈ now ∨ ∃ i, (⟨opening inverted, q⟩ : Token) = ⟨opening i, p⟩ := by
    intro inverted hp
    rcases List.mem_cons.1 hp with rfl | hp
    · exact .inr ⟨inverted, rfl⟩
    · exact .inl hp
  cases k with
  | literal text => exact .inl h
  | symbol s =>
    cases s with
    | openGroup => exact hopening false h
    | openInverse => exact hopening true h
    | closeGroup => exact .inl (List.mem_of_mem_tail h)
    | _ => exact .inl h

/-- A group that is open has been opened by one of the tokens. -/
theorem mem_openings (h : p ∈ openings ts) :
    ∃ before inverted after, ts = before ++ ⟨opening inverted, p⟩ :: after := by
  induction ts using List.reverseRecOn with
  | nil => exact absurd h List.not_mem_nil
  | append_singleton ts t ih =>
    rw [openings_concat] at h
    rcases mem_openedAfter h with h | ⟨inverted, rfl⟩
    · obtain ⟨before, inverted, after, rfl⟩ := ih h
      exact ⟨before, inverted, after ++ [t], by rw [List.append_assoc, List.cons_append]⟩
    · exact ⟨ts, inverted, [], rfl⟩

end Openings

/-! ### Where errors point -/

/-- An escape mark that is not escaped itself. -/
def MarkAt (text : List CodePoint) (p : Nat) : Prop :=
  text[p]? = some (.char '$') ∧ ∃ us, tokenize (text.take p) = .ok us

/-- An error points at the fault in a text that it speaks of. -/
def FormatError.PointsIn (text : List CodePoint) (e : FormatError) : Prop :=
  match e.cause with
  | .tooLong => e.position = maxLength ∧ maxLength < text.length
  | .danglingEscape => MarkAt text e.position ∧ text[e.position + 1]? = none
  | .invalidEscape c =>
    MarkAt text e.position ∧ text[e.position + 1]? = some c ∧ isEscapable c = false
  | .unbalanced => text[e.position]? = some (.char ')') ∧ ∃ before after,
      tokenize text = .ok (before ++ ⟨closing, e.position⟩ :: after) ∧ openings before = []
  | .unterminated => text[e.position]? = some (.char '(') ∧ ∃ ts outer,
      tokenize text = .ok ts ∧ openings ts = e.position :: outer
  | .emptyGroup => text[e.position]? = some (.char '(') ∧ ∃ before inverted finish after,
      tokenize text = .ok (before ++ ⟨opening inverted, e.position⟩ :: ⟨closing, finish⟩ :: after)
  | .tooDeep => text[e.position]? = some (.char '(') ∧ ∃ before inverted after,
      tokenize text = .ok (before ++ ⟨opening inverted, e.position⟩ :: after) ∧
        (openings before).length = maxDepth
  | .emptyBefore s => ∃ op : Connective, s = op.symbol ∧
      text[e.position]? = some (.char op.char) ∧ ∃ before after,
        tokenize text = .ok (before ++ ⟨op.token, e.position⟩ :: after) ∧ Bare before
  | .emptyAfter s => ∃ op : Connective, s = op.symbol ∧ ∃ before start,
      (text[e.position]? = some (.char ')') ∧ openings before ≠ [] ∧ ∃ after, tokenize text =
        .ok (before ++ ⟨op.token, start⟩ :: ⟨closing, e.position⟩ :: after)) ∨
      (e.position = text.length ∧ openings before = [] ∧
        tokenize text = .ok (before ++ [⟨op.token, start⟩]))

section Positions

variable {text : List CodePoint} {before after : List Token} {position p : Nat} {e : FormatError}

/-- A token is spelled where it stands. -/
theorem CutFrom.spelled {k : TokenKind} (h : CutFrom position text (before ++ ⟨k, p⟩ :: after)) :
    ∃ u piece rest, text = u ++ (piece ++ rest) ∧ p = position + u.length ∧ k.Spelled piece := by
  induction before generalizing position text with
  | nil =>
    cases h with
    | cons hk hrest => exact ⟨[], _, _, rfl, rfl, hk⟩
  | cons t before ih =>
    cases h with
    | cons hk hrest =>
      rename_i k piece rest
      obtain ⟨u, piece', rest', rfl, rfl, hk'⟩ := ih hrest
      refine ⟨piece ++ u, piece', rest', (List.append_assoc ..).symm, ?_, hk'⟩
      rw [List.length_append, Nat.add_assoc]

/-- A symbol begins where its token stands. -/
theorem symbol_at {s : Symbol} (h : tokenize text = .ok (before ++ ⟨.symbol s, p⟩ :: after)) :
    text[p]? = (pointsOf s.spelling).head? := by
  obtain ⟨hcut, -⟩ := cuts_iff.1 (tokenize_eq_ok_iff.1 h)
  obtain ⟨u, piece, rest, rfl, rfl, hpiece⟩ := hcut.spelled
  rw [Nat.zero_add, List.getElem?_append_right (Nat.le_refl _), Nat.sub_self,
    ← List.head?_eq_getElem?, head?_append_of_ne_nil hpiece.ne_nil, hpiece]

theorem opening_at {inverted : Bool}
    (h : tokenize text = .ok (before ++ ⟨opening inverted, p⟩ :: after)) :
    text[p]? = some (.char '(') := by
  rw [symbol_at h]
  cases inverted <;> rfl

theorem connective_at {op : Connective}
    (h : tokenize text = .ok (before ++ ⟨op.token, p⟩ :: after)) :
    text[p]? = some (.char op.char) := by
  rw [symbol_at h]
  cases op <;> rfl

/-- An escape that is refused is where its mark is. -/
theorem tokenize_error_points (h : tokenize text = .error e) : e.PointsIn text := by
  obtain ⟨cause, p⟩ := e
  obtain ⟨ls, u, v, hls, rfl, hbad, rfl : p = u.length⟩ := tokenize_eq_error_iff_spells.1 h
  obtain ⟨us, hus, -⟩ := hls.tokenize
  have hmark : MarkAt (u ++ .char '$' :: v) u.length := by
    refine ⟨?_, us, ?_⟩
    · rw [List.getElem?_append_right (Nat.le_refl _), Nat.sub_self, List.getElem?_cons_zero]
    · rw [List.take_left]
      exact hus
  have hnext : (u ++ .char '$' :: v)[u.length + 1]? = v.head? := by
    rw [List.getElem?_append_right (Nat.le_add_right ..), Nat.add_sub_cancel_left,
      List.getElem?_cons_succ, List.head?_eq_getElem?]
  cases hbad with
  | dangling => exact ⟨hmark, hnext⟩
  | invalid hc => exact ⟨hmark, hnext, hc⟩

/-- Errors do not point behind the end of the text. -/
theorem FormatError.PointsIn.le_length (h : e.PointsIn text) : e.position ≤ text.length := by
  have hat : ∀ {c}, text[e.position]? = some c → e.position ≤ text.length :=
    fun hc => Nat.le_of_lt (List.getElem?_eq_some_iff.1 hc).1
  unfold FormatError.PointsIn at h
  split at h
  · omega
  · exact hat h.1.1
  · exact hat h.1.1
  · exact hat h.1
  · exact hat h.1
  · exact hat h.1
  · exact hat h.1
  · obtain ⟨op, -, hop, -⟩ := h
    exact hat hop
  · obtain ⟨op, -, before, start, ⟨hclosing, -⟩ | ⟨hend, -⟩⟩ := h
    · exact hat hclosing
    · exact Nat.le_of_eq hend

end Positions

/-! ### What a build knows -/

/-- Where the groups of a build begin, from the inside out, if the innermost one begins at a
position. -/
def Build.begins (position : Nat) : List Level → List Nat
  | [] => []
  | parent :: outer => position :: begins parent.position outer

/-- What a build knows of the tokens it has read: which groups are open, of which there are not too
many, and what the last token has been if nothing has been read of the current operand. -/
structure Build.Knows (b : Build) (ts : List Token) : Prop where
  begun : Build.begins b.level.position b.outer = openings ts
  room : b.outer.length ≤ maxDepth
  first : b.level.items = #[] → b.level.operands.back? = none →
    ts = [] ∨ ∃ before inverted, ts = before ++ [⟨opening inverted, b.level.position⟩]
  further : b.level.items = #[] → ∀ i op, b.level.operands.back? = some (i, op) →
    ∃ before p, ts = before ++ [⟨Connective.token op, p⟩]

theorem Build.length_begins (position : Nat) (outer : List Level) :
    (begins position outer).length = outer.length := by
  induction outer generalizing position with
  | nil => rfl
  | cons parent outer ih => rw [begins, List.length_cons, ih, List.length_cons]

theorem Build.begins_eq_nil_iff {position : Nat} {outer : List Level} :
    begins position outer = [] ↔ outer = [] := by
  rw [← List.length_eq_zero_iff, length_begins, List.length_eq_zero_iff]

namespace Build.Knows

variable {b b' : Build} {ts before after : List Token} {t : Token} {text : List CodePoint}
  {e : FormatError}

theorem start : Build.Knows {} [] := ⟨rfl, Nat.zero_le _, fun _ _ => .inl rfl, by simp⟩

/-- Nothing has been read of the current operand if it has no terms. -/
theorem bare (h : b.Knows ts) (hitems : b.level.items = #[]) : Bare ts := by
  cases hback : b.level.operands.back? with
  | none =>
    obtain hnil | ⟨before, inverted, rfl⟩ := h.first hitems hback
    · exact .inl hnil
    · exact .inr ⟨before, _, rfl, .inl ⟨inverted, rfl⟩⟩
  | some operand =>
    obtain ⟨before, p, rfl⟩ := h.further hitems operand.1 operand.2 hback
    exact .inr ⟨before, _, rfl, .inr ⟨operand.2, rfl⟩⟩

/-! ### One token -/

/-- A term that is added keeps the open groups. -/
theorem term (h : b.Knows ts) (ht : openedAfter (openings ts) t = openings ts)
    (hposition : b'.level.position = b.level.position) (houter : b'.outer = b.outer)
    (hitems : b'.level.items ≠ #[]) : b'.Knows (ts ++ [t]) := by
  refine ⟨?_, houter ▸ h.room, fun hno => absurd hno hitems, fun hno => absurd hno hitems⟩
  rw [hposition, houter, openings_concat, ht, h.begun]

theorem connect (h : b.Knows ts) (op : Connective) {position : Nat}
    (hb : b.connect op position = .ok b') : b'.Knows (ts ++ [⟨op.token, position⟩]) := by
  rw [connect_eq_ok hb]
  refine ⟨?_, h.room, fun _ hback => ?_, fun _ i op' hback => ?_⟩
  · rw [openings_concat, openedAfter_connective]
    exact h.begun
  · simp at hback
  · -- The connective is the one that the last operand has behind it.
    have hop : (b.nodes.size, op) = (i, op') := by simpa using hback
    cases hop
    exact ⟨ts, position, rfl⟩

theorem openGroup (h : b.Knows ts) (inverted : Bool) {position : Nat}
    (hb : b.openGroup inverted position = .ok b') :
    b'.Knows (ts ++ [⟨opening inverted, position⟩]) := by
  obtain ⟨hroom, rfl⟩ := openGroup_eq_ok hb
  refine ⟨?_, hroom, fun _ _ => .inr ⟨ts, inverted, rfl⟩, fun _ i op hback => by simp at hback⟩
  rw [openings_concat, openedAfter_opening, ← h.begun]
  rfl

theorem closeGroup {position : Nat} (h : b.Knows ts) (hb : b.closeGroup position = .ok b') :
    b'.Knows (ts ++ [⟨closing, position⟩]) := by
  obtain ⟨parent, outer, nodes, child, houter, -, rfl⟩ := closeGroup_eq_ok hb
  have hbegun := h.begun
  have hroom := h.room
  rw [houter] at hbegun hroom
  have hitems : (parent.push nodes.size).items ≠ #[] := by simp [Level.push]
  refine ⟨?_, Nat.le_of_succ_le hroom, fun hno => absurd hno hitems, fun hno => absurd hno hitems⟩
  rw [openings_concat, ← hbegun]
  rfl

/-- What a build knows, it knows after one more token. -/
theorem step (h : b.Knows ts) (hb : b.step t = .ok b') : b'.Knows (ts ++ [t]) := by
  obtain ⟨k, position⟩ := t
  have hpush : ∀ {is : Array Nat} {i : Nat}, is.push i ≠ #[] := by simp
  cases k with
  | literal text => exact Except.ok.inj hb ▸ h.term rfl rfl rfl hpush
  | symbol s =>
    cases s with
    | conj => exact h.connect .conj hb
    | disj => exact h.connect .disj hb
    | openGroup => exact h.openGroup false hb
    | openInverse => exact h.openGroup true hb
    | closeGroup => exact h.closeGroup hb
    | _ => exact Except.ok.inj hb ▸ h.term rfl rfl rfl hpush

theorem run {us : List Token} (h : b.Knows ts) (hb : us.foldlM Build.step b = .ok b') :
    b'.Knows (ts ++ us) :=
  run_induction_read (P := fun ts b => b.Knows ts) step h hb

/-! ### What is refused -/

theorem connect_error {op : Connective} {p : Nat} (h : b.Knows before)
    (hb : b.connect op p = .error e)
    (hts : tokenize text = .ok (before ++ ⟨op.token, p⟩ :: after)) : e.PointsIn text := by
  obtain ⟨hitems, rfl⟩ := connect_eq_error hb
  exact ⟨op, rfl, connective_at hts, before, after, hts, h.bare hitems⟩

theorem openGroup_error {inverted : Bool} {p : Nat} (h : b.Knows before)
    (hb : b.openGroup inverted p = .error e)
    (hts : tokenize text = .ok (before ++ ⟨opening inverted, p⟩ :: after)) : e.PointsIn text := by
  obtain ⟨hdeep, rfl⟩ := openGroup_eq_error hb
  refine ⟨opening_at hts, before, inverted, after, hts, ?_⟩
  rw [← h.begun, length_begins]
  exact Nat.le_antisymm h.room hdeep

theorem closeGroup_error {p : Nat} (h : b.Knows before) (hb : b.closeGroup p = .error e)
    (hts : tokenize text = .ok (before ++ ⟨closing, p⟩ :: after)) : e.PointsIn text := by
  obtain ⟨houter, rfl⟩ | ⟨houter, hclose⟩ := closeGroup_eq_error hb
  · refine ⟨symbol_at hts, before, after, hts, ?_⟩
    rw [← h.begun, houter]
    rfl
  · -- A group is open, so the level that is refused is that of a group.
    have hopen : openings before ≠ [] := by rwa [← h.begun, Ne, begins_eq_nil_iff]
    obtain ⟨hitems, ⟨-, hback, rfl⟩ | ⟨i, op, hback, rfl⟩⟩ := close_eq_error hclose
    · obtain rfl | ⟨before, inverted, rfl⟩ := h.first hitems hback
      · exact absurd rfl hopen
      · rw [List.append_assoc, List.singleton_append] at hts
        exact ⟨opening_at hts, before, inverted, p, after, hts⟩
    · obtain ⟨before, start, rfl⟩ := h.further hitems i op hback
      rw [openings_concat, openedAfter_connective] at hopen
      refine ⟨op, rfl, before, start, .inl ⟨symbol_at hts, hopen, after, ?_⟩⟩
      rw [hts, List.append_assoc, List.singleton_append]

/-- What is refused at a token is a fault of the text. -/
theorem step_error (h : b.Knows before) (hb : b.step t = .error e)
    (hts : tokenize text = .ok (before ++ t :: after)) : e.PointsIn text := by
  obtain ⟨k, p⟩ := t
  obtain ⟨op, rfl, hb⟩ | ⟨inverted, rfl, hb⟩ | ⟨rfl, hb⟩ := step_eq_error hb
  · exact h.connect_error hb hts
  · exact h.openGroup_error hb hts
  · exact h.closeGroup_error hb hts

/-- What is refused at the end of a text is a fault of it. -/
theorem finish_error (h : b.Knows ts) (hb : b.finish text.length = .error e)
    (hts : tokenize text = .ok ts) : e.PointsIn text := by
  obtain ⟨houter, rfl⟩ | ⟨houter, hclose⟩ := finish_eq_error hb
  · obtain ⟨parent, outer, hcons⟩ := List.exists_cons_of_ne_nil houter
    have hopen : openings ts = b.level.position :: begins parent.position outer := by
      rw [← h.begun, hcons]
      rfl
    -- The innermost group has been opened by one of the tokens, which is where it begins.
    obtain ⟨before, inverted, after, rfl⟩ := mem_openings (hopen ▸ List.mem_cons_self)
    exact ⟨opening_at hts, _, _, hts, hopen⟩
  · obtain ⟨hitems, ⟨hgroup, -⟩ | ⟨i, op, hback, rfl⟩⟩ := close_eq_error hclose
    · cases hgroup
    · obtain ⟨before, start, rfl⟩ := h.further hitems i op hback
      have hopen := h.begun
      rw [houter, openings_concat, openedAfter_connective] at hopen
      exact ⟨op, rfl, before, start, .inr ⟨rfl, hopen.symm, hts⟩⟩

end Build.Knows

/-! ### Main statement -/

/-- **Errors point at faults.** A text that is refused is refused at a position in it or at its end,
and the fault that is named is there: the parenthesis that closes no group; the one that opens the
innermost group without an end, a group without contents, or a group in as many others as there may
be; the connective without a term in front of it, or the end of the level whose last connective has
none behind it; the escape mark that escapes nothing. -/
theorem compile_error_points {text : List CodePoint} {e : FormatError}
    (h : compile text = .error e) : e.position ≤ text.length ∧ e.PointsIn text := by
  have hpoints : e.PointsIn text := by
    obtain ⟨hlong, rfl⟩ | htokens | ⟨ts, hts, hrun | ⟨b, hrun, hfinish⟩⟩ := compile_eq_error h
    · exact ⟨rfl, hlong⟩
    · exact tokenize_error_points htokens
    · obtain ⟨before, t, after, b, rfl, hbefore, hstep⟩ := Build.run_eq_error hrun
      exact (Build.Knows.start.run hbefore).step_error hstep hts
    · exact (Build.Knows.start.run hrun).finish_error hfinish hts
  exact ⟨hpoints.le_length, hpoints⟩

theorem compile_error_points_nested :
    compile (pointsOf ['(', 'a', '|', '(', 'b', '&', ')', ')']) = .error ⟨.emptyAfter .conj, 6⟩ ∧
      6 ≤ 8 ∧ FormatError.PointsIn (pointsOf ['(', 'a', '|', '(', 'b', '&', ')', ')'])
        ⟨.emptyAfter .conj, 6⟩ :=
  have h : compile (pointsOf ['(', 'a', '|', '(', 'b', '&', ')', ')']) =
      .error ⟨.emptyAfter .conj, 6⟩ := rfl
  ⟨h, compile_error_points h⟩

end PathSieve.Pattern
