import PathSieve.Proofs.Pattern.Grammar

namespace PathSieve.Pattern

/-!
# Steps of compilation

What each step of a compilation that succeeds has done to the build, and when a step is refused, so
that what holds of builds can be shown step by step.

* `Build.close_eq_ok`, `Build.connect_eq_ok`, `Build.openGroup_eq_ok`, `Build.closeGroup_eq_ok`,
  `Build.finish_eq_ok` — the parts of a step.
* `Build.step_eq_ok` — what a token can do.
* `Build.run_induction_read`, `Build.run_induction` — what every token keeps, all tokens keep.
* `Build.close_eq_error`, `Build.connect_eq_error`, `Build.openGroup_eq_error`,
  `Build.closeGroup_eq_error`, `Build.finish_eq_error`, `Build.step_eq_error` — the same of steps
  that are refused.
* `Build.run_eq_error` — tokens are refused at one of them.
* `compile_exists_build`, `compile_eq_error` — a compiled pattern is what a build comes to, and a
  refused one has been refused somewhere on the way.
-/

namespace Build

variable {b b' : Build}

theorem chain_ne_nil {operands : List (Nat × Connective)} (h : operands ≠ []) (last : Nat) :
    (chain operands last).2 ≠ [] := by
  cases operands with
  | nil => exact absurd rfl h
  | cons p operands => simp [chain]

/-- A level that is closed has the sequence of its last terms, or that sequence joined with its
other operands. -/
theorem close_eq_ok {nodes nodes' : Array Node} {l : Level} {top finish : Nat} {isGroup : Bool}
    (h : close nodes l finish isGroup = .ok (nodes', top)) :
    (l.operands = #[] ∧ nodes' = nodes.push (.sequence l.items.toList) ∧ top = nodes.size) ∨
      ∃ first op second rest, chain l.operands.toList nodes.size = (first, (op, second) :: rest) ∧
        join (nodes.push (.sequence l.items.toList)) op [first, second] rest = (nodes', top) := by
  unfold close at h
  cases hback : l.operands.back? with
  | none =>
    rw [hback] at h
    simp only at h
    split at h
    · cases h
    · cases h
      exact .inl ⟨Array.back?_eq_none_iff.1 hback, rfl, rfl⟩
  | some lastOperand =>
    rw [hback] at h
    simp only at h
    split at h
    · cases h
    · split at h
      · rename_i first op second rest hchain
        exact .inr ⟨first, op, second, rest, hchain, Except.ok.inj h⟩
      · rename_i only hchain
        -- There is an operand in front of the last one, so there is something to join.
        have hne : l.operands.toList ≠ [] := by
          intro hnil
          rw [Array.toList_eq_nil_iff.1 hnil] at hback
          cases hback
        exact absurd (congrArg Prod.snd hchain) (chain_ne_nil hne nodes.size)

theorem connect_eq_ok {op : Connective} {position : Nat} (h : b.connect op position = .ok b') :
    b' = { b with
      nodes := b.nodes.push (.sequence b.level.items.toList)
      level := { b.level with
        items := #[]
        operands := b.level.operands.push (b.nodes.size, op) } } := by
  unfold connect at h
  split at h
  · cases h
  · exact (Except.ok.inj h).symm

theorem openGroup_eq_ok {inverted : Bool} {position : Nat}
    (h : b.openGroup inverted position = .ok b') :
    b.outer.length < maxDepth ∧
      b' = { b with
        level := ⟨position, inverted, #[], #[], false⟩
        outer := b.level :: b.outer } := by
  unfold openGroup at h
  split at h
  · cases h
  · rename_i hroom
    exact ⟨Nat.lt_of_not_le hroom, (Except.ok.inj h).symm⟩

theorem closeGroup_eq_ok {position : Nat} (h : b.closeGroup position = .ok b') :
    ∃ parent outer nodes child, b.outer = parent :: outer ∧
      close b.nodes b.level position true = .ok (nodes, child) ∧
      b' = ⟨nodes.push (.group child b.level.inverted b.level.multiSegment),
        { parent.push nodes.size with
          multiSegment := parent.multiSegment || b.level.multiSegment }, outer⟩ := by
  unfold closeGroup at h
  split at h
  · cases h
  · rename_i parent outer houter
    cases hclose : close b.nodes b.level position true with
    | error e =>
      rw [hclose] at h
      cases h
    | ok closed =>
      rw [hclose] at h
      exact ⟨parent, outer, closed.1, closed.2, houter, rfl, (Except.ok.inj h).symm⟩

theorem finish_eq_ok {length : Nat} {a : Arena} (h : b.finish length = .ok a) :
    b.outer = [] ∧ ∃ nodes top, close b.nodes b.level length false = .ok (nodes, top) ∧
      (a = ⟨nodes, top⟩ ∨ a = ⟨nodes.push (.sequence [top]), nodes.size⟩) := by
  unfold finish at h
  split at h
  · cases h
  · rename_i houter
    cases hclose : close b.nodes b.level length false with
    | error e =>
      rw [hclose] at h
      cases h
    | ok closed =>
      rw [hclose] at h
      refine ⟨houter, closed.1, closed.2, rfl, ?_⟩
      simp only [bind, Except.bind] at h
      split at h
      · exact .inl (Except.ok.inj h).symm
      · exact .inr (Except.ok.inj h).symm

/-- A token adds a leaf, or a path wildcard with its separator; or it is a connective; or it opens
or closes a group. -/
theorem step_eq_ok {t : Token} (h : b.step t = .ok b') :
    (∃ n : Node, n.isLeaf = true ∧ n ≠ .anyPath ∧ (b' = b.term n ∨ b' = (b.term n).markMulti)) ∨
      (∃ s, b' = ((b.term .anyPath).term (.split s)).markMulti) ∨
      (∃ op, b.connect op t.position = .ok b') ∨
      (∃ inverted, b.openGroup inverted t.position = .ok b') ∨
      b.closeGroup t.position = .ok b' := by
  unfold step at h
  split at h
  · exact .inl ⟨_, rfl, by simp, .inl (Except.ok.inj h).symm⟩
  · exact .inl ⟨_, rfl, by simp, .inl (Except.ok.inj h).symm⟩
  · exact .inl ⟨_, rfl, by simp, .inl (Except.ok.inj h).symm⟩
  · exact .inl ⟨_, rfl, by simp, .inr (Except.ok.inj h).symm⟩
  · exact .inr (.inl ⟨_, (Except.ok.inj h).symm⟩)
  · exact .inr (.inr (.inl ⟨_, h⟩))
  · exact .inr (.inr (.inl ⟨_, h⟩))
  · exact .inr (.inr (.inr (.inl ⟨_, h⟩)))
  · exact .inr (.inr (.inr (.inl ⟨_, h⟩)))
  · exact .inr (.inr (.inr (.inr h)))

/-- What every token keeps, all tokens keep, where it may speak of the tokens that have been read. -/
theorem run_induction_read {P : List Token → Build → Prop} {r ts : List Token}
    (hstep : ∀ {r b b' t}, P r b → b.step t = .ok b' → P (r ++ [t]) b') (h : P r b)
    (hb : ts.foldlM step b = .ok b') : P (r ++ ts) b' := by
  induction ts generalizing b r with
  | nil =>
    rw [List.append_nil]
    exact Except.ok.inj hb ▸ h
  | cons t ts ih =>
    rw [List.foldlM_cons] at hb
    cases hnext : b.step t with
    | error e =>
      rw [hnext] at hb
      cases hb
    | ok next =>
      rw [hnext] at hb
      rw [← List.singleton_append, ← List.append_assoc]
      exact ih (hstep h hnext) hb

/-- What every token keeps, all tokens keep. -/
theorem run_induction {P : Build → Prop} {ts : List Token}
    (hstep : ∀ {b b' t}, P b → b.step t = .ok b' → P b') (h : P b)
    (hb : ts.foldlM step b = .ok b') : P b' :=
  run_induction_read (P := fun _ => P) (r := []) hstep h hb

/-! ### Steps that are refused -/

variable {e : FormatError}

/-- A level that is refused has no current operand; it is an empty group, or the connective at its
end has nothing behind it. -/
theorem close_eq_error {nodes : Array Node} {l : Level} {finish : Nat} {isGroup : Bool}
    (h : close nodes l finish isGroup = .error e) :
    l.items = #[] ∧
      ((isGroup = true ∧ l.operands.back? = none ∧ e = ⟨.emptyGroup, l.position⟩) ∨
        ∃ i op, l.operands.back? = some (i, op) ∧ e = ⟨.emptyAfter op.symbol, finish⟩) := by
  unfold close at h
  split at h
  · rename_i hback
    split at h
    · rename_i hempty
      obtain ⟨hgroup, hitems⟩ := Bool.and_eq_true_iff.1 hempty
      exact ⟨Array.isEmpty_iff.1 hitems, .inl ⟨hgroup, hback, (Except.error.inj h).symm⟩⟩
    · cases h
  · rename_i i op hback
    split at h
    · rename_i hitems
      exact ⟨Array.isEmpty_iff.1 hitems, .inr ⟨i, op, hback, (Except.error.inj h).symm⟩⟩
    · split at h <;> cases h

theorem connect_eq_error {op : Connective} {position : Nat}
    (h : b.connect op position = .error e) :
    b.level.items = #[] ∧ e = ⟨.emptyBefore op.symbol, position⟩ := by
  unfold connect at h
  split at h
  · rename_i hitems
    exact ⟨Array.isEmpty_iff.1 hitems, (Except.error.inj h).symm⟩
  · cases h

theorem openGroup_eq_error {inverted : Bool} {position : Nat}
    (h : b.openGroup inverted position = .error e) :
    maxDepth ≤ b.outer.length ∧ e = ⟨.tooDeep, position⟩ := by
  unfold openGroup at h
  split at h
  · rename_i hdeep
    exact ⟨hdeep, (Except.error.inj h).symm⟩
  · cases h

theorem closeGroup_eq_error {position : Nat} (h : b.closeGroup position = .error e) :
    (b.outer = [] ∧ e = ⟨.unbalanced, position⟩) ∨
      b.outer ≠ [] ∧ close b.nodes b.level position true = .error e := by
  unfold closeGroup at h
  split at h
  · rename_i houter
    exact .inl ⟨houter, (Except.error.inj h).symm⟩
  · rename_i parent outer houter
    cases hclose : close b.nodes b.level position true with
    | error e' =>
      rw [hclose] at h
      obtain rfl : e' = e := Except.error.inj h
      exact .inr ⟨by simp [houter], rfl⟩
    | ok closed =>
      rw [hclose] at h
      cases h

theorem finish_eq_error {length : Nat} (h : b.finish length = .error e) :
    (b.outer ≠ [] ∧ e = ⟨.unterminated, b.level.position⟩) ∨
      b.outer = [] ∧ close b.nodes b.level length false = .error e := by
  unfold finish at h
  split at h
  · rename_i parent outer houter
    exact .inl ⟨by simp [houter], (Except.error.inj h).symm⟩
  · rename_i houter
    cases hclose : close b.nodes b.level length false with
    | error e' =>
      rw [hclose] at h
      obtain rfl : e' = e := Except.error.inj h
      exact .inr ⟨houter, rfl⟩
    | ok closed =>
      rw [hclose] at h
      simp only [bind, Except.bind] at h
      split at h <;> cases h

/-- Only a connective or a parenthesis is refused. -/
theorem step_eq_error {t : Token} (h : b.step t = .error e) :
    (∃ op : Connective, t.kind = op.token ∧ b.connect op t.position = .error e) ∨
      (∃ inverted, t.kind = opening inverted ∧ b.openGroup inverted t.position = .error e) ∨
      t.kind = closing ∧ b.closeGroup t.position = .error e := by
  obtain ⟨k, position⟩ := t
  cases k with
  | literal text => cases h
  | symbol s =>
    cases s with
    | conj => exact .inl ⟨.conj, rfl, h⟩
    | disj => exact .inl ⟨.disj, rfl, h⟩
    | openGroup => exact .inr (.inl ⟨false, rfl, h⟩)
    | openInverse => exact .inr (.inl ⟨true, rfl, h⟩)
    | closeGroup => exact .inr (.inr ⟨rfl, h⟩)
    | _ => cases h

/-- Tokens are refused at one of them, behind others that are not. -/
theorem run_eq_error {ts : List Token} (h : ts.foldlM step b = .error e) :
    ∃ before t after b', ts = before ++ t :: after ∧ before.foldlM step b = .ok b' ∧
      b'.step t = .error e := by
  induction ts generalizing b with
  | nil => cases h
  | cons t ts ih =>
    rw [List.foldlM_cons] at h
    cases hnext : b.step t with
    | error e' =>
      rw [hnext] at h
      obtain rfl : e' = e := Except.error.inj h
      exact ⟨[], t, ts, b, rfl, rfl, hnext⟩
    | ok next =>
      rw [hnext] at h
      obtain ⟨before, t', after, b', rfl, hrun, hstep⟩ := ih h
      exact ⟨t :: before, t', after, b', rfl, by rw [List.foldlM_cons, hnext]; exact hrun, hstep⟩

end Build

/-- A compiled pattern is what the build comes to when all tokens have been read. -/
theorem compile_exists_build {text : List Text.CodePoint} {a : Arena} (h : compile text = .ok a) :
    ∃ ts b, tokenize text = .ok ts ∧ ts.foldlM Build.step {} = .ok b ∧
      b.finish text.length = .ok a := by
  obtain ⟨-, ts, htokens, hts⟩ := compile_eq_ok_iff.1 h
  unfold ofTokens at hts
  cases hrun : ts.foldlM Build.step {} with
  | error e =>
    rw [hrun] at hts
    cases hts
  | ok b =>
    rw [hrun] at hts
    exact ⟨ts, b, htokens, hrun, hts⟩

/-- A text is refused because it is too long, because it has no tokens, at one of its tokens or at its
end. -/
theorem compile_eq_error {text : List Text.CodePoint} {e : FormatError}
    (h : compile text = .error e) :
    (maxLength < text.length ∧ e = ⟨.tooLong, maxLength⟩) ∨ tokenize text = .error e ∨
      ∃ ts, tokenize text = .ok ts ∧ (ts.foldlM Build.step {} = .error e ∨
        ∃ b, ts.foldlM Build.step {} = .ok b ∧ b.finish text.length = .error e) := by
  unfold compile checkLength at h
  split at h
  · rename_i hlong
    exact .inl ⟨hlong, (Except.error.inj h).symm⟩
  · refine .inr ?_
    cases htokens : tokenize text with
    | error e' =>
      rw [htokens] at h
      obtain rfl : e' = e := Except.error.inj h
      exact .inl rfl
    | ok ts =>
      rw [htokens] at h
      refine .inr ⟨ts, rfl, ?_⟩
      change ofTokens ts text.length = .error e at h
      unfold ofTokens at h
      cases hrun : ts.foldlM Build.step {} with
      | error e' =>
        rw [hrun] at h
        obtain rfl : e' = e := Except.error.inj h
        exact .inl rfl
      | ok b =>
        rw [hrun] at h
        exact .inr ⟨b, rfl, h⟩

end PathSieve.Pattern
