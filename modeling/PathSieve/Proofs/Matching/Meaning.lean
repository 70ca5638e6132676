import PathSieve.Proofs.Matching.Verdict

namespace PathSieve.Pattern

open Text (CodePoint)

/-!
# Meanings of drafts

What becomes of a draft depends on what the parts mean that it has read so far, and not on how they
are written: drafts that mean the same read the same tokens, and still mean the same then.

* `Meaning` — what a part of a pattern accepts, and whether it holds a separator.
* `Part.reading`, `Draft.reading` — what has been read so far, by its meaning.
* `Draft.step_congr`, `Draft.run_congr`, `Draft.finish_congr` — one token, all tokens, the end.
* `outcome` — what tokens come to.
* `matchPath_of_outcome` — verdicts of texts whose tokens come to the same.
-/

/-! ### Meanings -/

/-- What a part of a pattern accepts, with regard to case and without, and whether it holds a
separator. -/
@[ext] structure Meaning where
  language : Bool → Language CodePoint
  holdsSplit : Bool

instance : Semigroup Meaning where
  mul m n := ⟨fun caseSensitive => m.language caseSensitive * n.language caseSensitive,
    m.holdsSplit || n.holdsSplit⟩
  mul_assoc _ _ _ := Meaning.ext (funext fun _ => mul_assoc ..) (Bool.or_assoc ..)

/-- The meaning of two parts with a connective between them. -/
def Meaning.connect (op : Connective) (m n : Meaning) : Meaning :=
  ⟨fun caseSensitive => Tree.both op (m.language caseSensitive) (n.language caseSensitive),
    m.holdsSplit || n.holdsSplit⟩

/-- The meaning of a term. -/
def Term.meaning (t : Term) : Meaning :=
  ⟨fun caseSensitive => Tree.concat caseSensitive t.trees, t.holdsSplit⟩

/-- The meaning of an operand. -/
def Operand.meaning (s : Operand) : Meaning :=
  ⟨fun caseSensitive => Tree.concat caseSensitive s.trees, s.holdsSplit⟩

/-- The meaning of an expression. -/
def Expr.meaning (e : Expr) : Meaning :=
  ⟨fun caseSensitive => e.tree.language caseSensitive, e.holdsSplit⟩

theorem Operand.meaning_snoc (s : Operand) (t : Term) :
    (Operand.snoc s t).meaning = s.meaning * t.meaning :=
  Meaning.ext (funext fun _ => Tree.concat_append s.paired t.trees) rfl

theorem Expr.meaning_one (s : Operand) : (Expr.one s).meaning = s.meaning := by
  refine Meaning.ext (funext fun caseSensitive => ?_) rfl
  show (Expr.one s).tree.language caseSensitive = _
  rw [Expr.tree, Tree.language]
  rfl

theorem Expr.meaning_snoc (e : Expr) (op : Connective) (s : Operand) :
    (Expr.snoc e op s).meaning = .connect op e.meaning s.meaning := by
  refine Meaning.ext (funext fun caseSensitive => ?_) rfl
  show (Expr.snoc e op s).tree.language caseSensitive = _
  rw [Expr.tree, Tree.language_join, Tree.language]
  rfl

/-- A group means what its contents do, or the opposite of it. -/
theorem Term.meaning_group {e f : Expr} (h : e.meaning = f.meaning) (inverted : Bool) :
    (Term.group inverted e).meaning = (Term.group inverted f).meaning := by
  have hlanguage : ∀ caseSensitive,
      e.tree.language caseSensitive = f.tree.language caseSensitive :=
    congrFun (congrArg Meaning.language h)
  have hsplit : e.holdsSplit = f.holdsSplit := congrArg Meaning.holdsSplit h
  refine Meaning.ext (funext fun caseSensitive => ?_) hsplit
  show Tree.concat caseSensitive (Term.group inverted e).trees =
    Tree.concat caseSensitive (Term.group inverted f).trees
  rw [Term.trees, Term.trees, Tree.concat_singleton (by simp), Tree.concat_singleton (by simp)]
  cases inverted with
  | false => rw [Tree.language, Tree.language, hlanguage]
  | true =>
    ext w
    rw [Tree.mem_group_inverted, Tree.mem_group_inverted, hlanguage, hsplit]

/-- What a pattern accepts, its expression says, if it is not empty. -/
theorem language_patternTree_congr {p q : Option Expr}
    (h : p.map Expr.meaning = q.map Expr.meaning) (caseSensitive : Bool) :
    (patternTree p).language caseSensitive = (patternTree q).language caseSensitive := by
  cases p with
  | none =>
    cases q with
    | none => rfl
    | some f => cases h
  | some e =>
    cases q with
    | none => cases h
    | some f =>
      have hmeaning : e.meaning = f.meaning := Option.some.inj h
      rw [language_patternTree, language_patternTree]
      exact congrFun (congrArg Meaning.language hmeaning) caseSensitive

/-! ### Drafts -/

/-- What has been read of an expression, by its meaning. -/
structure Reading where
  inverted : Bool
  done : Option (Meaning × Connective)
  current : Option Meaning

/-- The reading of a part. -/
def Part.reading (p : Part) : Reading :=
  ⟨p.inverted, p.done.map fun q => (q.1.meaning, q.2), p.current.map Operand.meaning⟩

/-- The readings of the innermost level and of those around it. -/
def Draft.reading (d : Draft) : Reading × List Reading := (d.level.reading, d.outer.map Part.reading)

namespace Part

variable {p q : Part} {s u : Operand} {t v : Term}

theorem reading_eq_iff : p.reading = q.reading ↔ p.inverted = q.inverted ∧
    (p.done.map fun q => (q.1.meaning, q.2)) = (q.done.map fun q => (q.1.meaning, q.2)) ∧
      p.current.map Operand.meaning = q.current.map Operand.meaning := by
  rw [reading, reading, Reading.mk.injEq]

/-- A term that is added lengthens the current operand, or is all of it. -/
theorem reading_addTerm (p : Part) (t : Term) : (p.addTerm t).reading =
    { p.reading with
      current := some (p.reading.current.elim t.meaning (· * t.meaning)) } := by
  obtain ⟨inverted, done, current⟩ := p
  cases current with
  | none => rfl
  | some s =>
    have hgrow : (grow (some s) t).meaning = s.meaning * t.meaning := s.meaning_snoc t
    simp only [reading, addTerm, hgrow, Option.map_some, Option.elim_some]

theorem meaning_joined (p : Part) (s : Operand) : (p.joined s).meaning =
    p.reading.done.elim s.meaning fun q => .connect q.2 q.1 s.meaning := by
  obtain ⟨inverted, done, current⟩ := p
  cases done with
  | none => exact Expr.meaning_one s
  | some q => exact Expr.meaning_snoc q.1 q.2 s

theorem addTerm_congr (h : p.reading = q.reading) (ht : t.meaning = v.meaning) :
    (p.addTerm t).reading = (q.addTerm v).reading := by
  rw [reading_addTerm, reading_addTerm, h, ht]

theorem joined_congr (h : p.reading = q.reading) (hs : s.meaning = u.meaning) :
    (p.joined s).meaning = (q.joined u).meaning := by
  rw [meaning_joined, meaning_joined, h, hs]

end Part

/-- Computations that go on alike from what is alike come to what is alike. -/
theorem map_bind_congr {α α' β β' : Type} {f : α → α'} {g : β → β'} {a b : Option α}
    {k l : α → Option β} (h : a.map f = b.map f)
    (hnext : ∀ x y, f x = f y → (k x).map g = (l y).map g) :
    (a.bind k).map g = (b.bind l).map g := by
  cases a with
  | none =>
    cases b with
    | none => rfl
    | some y => cases h
  | some x =>
    cases b with
    | none => cases h
    | some y => exact hnext x y (Option.some.inj h)

theorem map_map_congr {α α' β β' : Type} {f : α → α'} {g : β → β'} {a b : Option α} {k l : α → β}
    (h : a.map f = b.map f) (hnext : ∀ x y, f x = f y → g (k x) = g (l y)) :
    (a.map k).map g = (b.map l).map g := by
  rw [Option.map_eq_bind (f := k), Option.map_eq_bind (f := l)]
  exact map_bind_congr h fun x y hxy => congrArg some (hnext x y hxy)

theorem Part.connect_congr {p q : Part} (h : p.reading = q.reading) (op : Connective) :
    (p.connect op).map Part.reading = (q.connect op).map Part.reading := by
  obtain ⟨hinverted, -, hcurrent⟩ := reading_eq_iff.1 h
  refine map_map_congr hcurrent fun s u hs => reading_eq_iff.2 ⟨hinverted, ?_, rfl⟩
  rw [Option.map_some, Option.map_some, joined_congr h hs]

namespace Draft

variable {d d' : Draft}

theorem addLeaf_congr (h : d.reading = d'.reading) (l : Leaf) :
    (d.addLeaf l).reading = (d'.addLeaf l).reading := by
  obtain ⟨hlevel, houter⟩ := Prod.mk.inj h
  exact Prod.ext (Part.addTerm_congr hlevel rfl) houter

theorem connect_congr (h : d.reading = d'.reading) (op : Connective) :
    (d.connect op).map reading = (d'.connect op).map reading := by
  obtain ⟨hlevel, houter⟩ := Prod.mk.inj h
  exact map_map_congr (Part.connect_congr hlevel op) fun l l' hl => Prod.ext hl houter

theorem openGroup_congr (h : d.reading = d'.reading) (inverted : Bool) :
    (d.openGroup inverted).map reading = (d'.openGroup inverted).map reading := by
  obtain ⟨hlevel, houter⟩ := Prod.mk.inj h
  have hlength : d.outer.length = d'.outer.length := by
    simpa using congrArg List.length houter
  have hlevels :
      (d.level :: d.outer).map Part.reading = (d'.level :: d'.outer).map Part.reading := by
    rw [List.map_cons, List.map_cons, hlevel, houter]
  rw [openGroup, openGroup, hlength]
  split
  · rfl
  · exact congrArg some (Prod.ext rfl hlevels)

theorem closeGroup_cons (level parent : Part) (outer : List Part) :
    closeGroup ⟨level, parent :: outer⟩ = level.current.bind fun s =>
      some ⟨parent.addTerm (.group level.inverted (level.joined s)), outer⟩ := by
  unfold closeGroup
  cases h : level.current <;> simp

/-- A group that is closed means the same wherever what it holds does. -/
theorem closeGroup_congr (h : d.reading = d'.reading) :
    d.closeGroup.map reading = d'.closeGroup.map reading := by
  obtain ⟨level, outer⟩ := d
  obtain ⟨level', outer'⟩ := d'
  have hlevel : level.reading = level'.reading := congrArg Prod.fst h
  have houter : outer.map Part.reading = outer'.map Part.reading := congrArg Prod.snd h
  cases outer with
  | nil =>
    obtain rfl : outer' = [] := List.map_eq_nil_iff.1 houter.symm
    rfl
  | cons parent outer =>
    obtain ⟨parent', outer', rfl, hparent, houter⟩ := List.map_eq_cons_iff.1 houter.symm
    obtain ⟨hinverted, -, hcurrent⟩ := Part.reading_eq_iff.1 hlevel
    rw [closeGroup_cons, closeGroup_cons]
    refine map_bind_congr hcurrent fun s u hs => ?_
    have hgroup := Term.meaning_group (Part.joined_congr hlevel hs) level.inverted
    rw [hinverted] at hgroup ⊢
    exact congrArg some (Prod.ext (Part.addTerm_congr hparent.symm hgroup) houter.symm)

/-- What becomes of a draft at a token depends on what its parts mean. -/
theorem step_congr (h : d.reading = d'.reading) (k : TokenKind) :
    (d.step k).map reading = (d'.step k).map reading := by
  cases k with
  | literal text => exact congrArg some (addLeaf_congr h _)
  | symbol s =>
    cases s with
    | conj => exact connect_congr h .conj
    | disj => exact connect_congr h .disj
    | openGroup => exact openGroup_congr h false
    | openInverse => exact openGroup_congr h true
    | closeGroup => exact closeGroup_congr h
    | _ => exact congrArg some (addLeaf_congr h _)

theorem run_congr (h : d.reading = d'.reading) (ks : List TokenKind) :
    (d.run ks).map reading = (d'.run ks).map reading := by
  induction ks generalizing d d' with
  | nil => exact congrArg some h
  | cons k ks ih =>
    rw [run_cons, run_cons]
    exact map_bind_congr (step_congr h k) fun _ _ hnext => ih hnext

theorem finish_congr (h : d.reading = d'.reading) :
    d.finish.map (·.map Expr.meaning) = d'.finish.map (·.map Expr.meaning) := by
  obtain ⟨level, outer⟩ := d
  obtain ⟨level', outer'⟩ := d'
  have hlevel : level.reading = level'.reading := congrArg Prod.fst h
  have houter : outer.map Part.reading = outer'.map Part.reading := congrArg Prod.snd h
  obtain ⟨-, hdone, hcurrent⟩ := Part.reading_eq_iff.1 hlevel
  cases outer with
  | cons parent outer =>
    obtain ⟨parent', outer', rfl, -, -⟩ := List.map_eq_cons_iff.1 houter.symm
    rfl
  | nil =>
    obtain rfl : outer' = [] := List.map_eq_nil_iff.1 houter.symm
    have hnone : level.done = none ↔ level'.done = none := by
      rw [← Option.map_eq_none_iff, hdone, Option.map_eq_none_iff]
    unfold finish
    cases hs : level.current with
    | none =>
      rw [hs] at hcurrent
      have hs' := Option.map_eq_none_iff.1 hcurrent.symm
      simp only [hs', hnone]
    | some s =>
      rw [hs] at hcurrent
      obtain ⟨u, hs', hu⟩ := Option.map_eq_some_iff.1 hcurrent.symm
      simp only [hs', Option.map_some, Part.joined_congr hlevel hu.symm]

end Draft

/-! ### Outcomes -/

/-- What tokens come to: nothing, or a pattern that is empty or means something. -/
def outcome (ks : List TokenKind) : Option (Option Meaning) :=
  ((Draft.start.run ks).bind Draft.finish).map (·.map Expr.meaning)

section Outcomes

variable {x y : List CodePoint} {ks ls : List Lexeme} {a b : Arena}

/-- A text that compiles means what its tokens come to. -/
theorem Spells.outcome_eq (h : Spells ks x) (ha : compile x = .ok a) :
    ∃ p : Option Expr, outcome (kinds ks) = some (p.map Expr.meaning) ∧ a.tree = patternTree p := by
  obtain ⟨-, -, ts, p, hts, hp, hpeak, htree⟩ := compile_eq_ok ha
  obtain ⟨ts', hts', hkinds⟩ := h.tokenize
  obtain rfl := Except.ok.inj (hts.symm.trans hts')
  refine ⟨p, ?_, htree⟩
  rw [outcome, ← hkinds, Draft.finish_run_iff.2 ⟨hp, hpeak⟩, Option.map_some]

theorem Spells.exists_compile_iff (h : Spells ks x) :
    (∃ a, compile x = .ok a) ↔ x.length ≤ maxLength ∧ (outcome (kinds ks)).isSome := by
  constructor
  · rintro ⟨a, ha⟩
    obtain ⟨p, hp, -⟩ := h.outcome_eq ha
    exact ⟨(compile_eq_ok_iff.1 ha).1, by rw [hp, Option.isSome_some]⟩
  · rintro ⟨hlen, houtcome⟩
    rw [outcome, Option.isSome_map, Option.isSome_iff_exists] at houtcome
    obtain ⟨p, hp⟩ := houtcome
    obtain ⟨ts, hts, hkinds⟩ := h.tokenize
    rw [← hkinds] at hp
    obtain ⟨hderives, hpeak⟩ := Draft.finish_run_iff.1 hp
    exact exists_compile hlen hts hderives hpeak

/-- Texts whose tokens come to the same have the same verdicts. -/
theorem matchPath_of_outcome (hx : Spells ks x) (hy : Spells ls y)
    (h : outcome (kinds ks) = outcome (kinds ls)) (ha : compile x = .ok a)
    (hb : compile y = .ok b) (path : List CodePoint) (flags : Flags) :
    a.matchPath path flags = b.matchPath path flags := by
  obtain ⟨p, hp, hatree⟩ := hx.outcome_eq ha
  obtain ⟨q, hq, hbtree⟩ := hy.outcome_eq hb
  rw [hp, hq] at h
  refine matchPath_congr ha hb path rfl ?_
  rw [hatree, hbtree, language_patternTree_congr (Option.some.inj h)]

end Outcomes

end PathSieve.Pattern
