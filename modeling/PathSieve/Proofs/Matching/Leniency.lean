import PathSieve.Proofs.Matching.Verdict

namespace PathSieve.Pattern

open Text (CodePoint pointsOf)

/-!
# Regard for case

A pattern that compares without regard to case accepts whatever it accepts with regard to it, unless
it has an inverted group, which accepts less when its contents accept more.

* `inverts` — a text with an inverted group.
* `Widens` — a language all of whose texts are in another one.
* `Term.widens`, `Operand.widens`, `Expr.widens` — what derivations accept without regard to case.
* `matchPath_lenient` — verdicts without and with regard to case.
-/

/-- Whether an inverted group is opened in a text. -/
def inverts (text : List CodePoint) : Bool :=
  match tokenize text with
  | .ok ts => opening true ∈ ts.map Token.kind
  | .error _ => false

/-! ### Languages -/

/-- All texts of a language are in another one. -/
def Widens (l m : Language CodePoint) : Prop := ∀ w ∈ l, w ∈ m

namespace Widens

variable {l l' m m' : Language CodePoint}

theorem refl (l : Language CodePoint) : Widens l l := fun _ hw => hw

theorem mul (h : Widens l m) (h' : Widens l' m') : Widens (l * l') (m * m') := by
  rintro w ⟨u, hu, v, hv, rfl⟩
  exact Language.append_mem_mul (h u hu) (h' v hv)

theorem both (op : Connective) (h : Widens l m) (h' : Widens l' m') :
    Widens (Tree.both op l l') (Tree.both op m m') := by
  intro w hw
  cases op with
  | conj => exact Tree.mem_both_conj.2 ((Tree.mem_both_conj.1 hw).imp (h w) (h' w))
  | disj => exact Tree.mem_both_disj.2 ((Tree.mem_both_disj.1 hw).imp (h w) (h' w))

end Widens

theorem literalTexts_widens (text : List CodePoint) :
    Widens (literalTexts true text) (literalTexts false text) := by
  rintro w (rfl : w = text)
  exact mem_literalTexts.2 rfl

/-- Only literals are compared. -/
theorem Leaf.widens (l : Leaf) : Widens (Tree.concat true l.trees) (Tree.concat false l.trees) := by
  cases l with
  | literal text =>
    rw [Leaf.trees, Tree.concat_singleton (by simp), Tree.concat_singleton (by simp),
      Tree.language, Tree.language]
    exact literalTexts_widens text
  | _ =>
    simp only [Leaf.trees, Tree.concat, Tree.language]
    exact .refl _

mutual

theorem Term.widens : (t : Term) → opening true ∉ t.tokens →
    Widens (Tree.concat true t.trees) (Tree.concat false t.trees)
  | .leaf l, _ => l.widens
  | .group inverted body, h => by
    rw [Term.tokens, List.mem_cons, List.mem_append, not_or, not_or] at h
    obtain ⟨hopening, hbody, -⟩ := h
    cases inverted with
    | true => exact absurd rfl hopening
    | false =>
      rw [Term.trees, Tree.concat_singleton (by simp), Tree.concat_singleton (by simp),
        Tree.language, Tree.language]
      exact body.widens hbody

theorem Operand.widens : (s : Operand) → opening true ∉ s.tokens →
    Widens (Tree.concat true s.trees) (Tree.concat false s.trees)
  | .one t, h => t.widens h
  | .snoc s t, h => by
    rw [Operand.tokens, List.mem_append, not_or] at h
    rw [Operand.trees, Tree.concat_append s.paired, Tree.concat_append s.paired]
    exact (s.widens h.1).mul (t.widens h.2)

/-- What an expression without inverted groups accepts with regard to case, it accepts without. -/
theorem Expr.widens : (e : Expr) → opening true ∉ e.tokens →
    Widens (e.tree.language true) (e.tree.language false)
  | .one s, h => by
    rw [Expr.tree, Tree.language, Tree.language]
    exact s.widens h
  | .snoc e op s, h => by
    rw [Expr.tokens, List.mem_append, List.mem_cons, not_or, not_or] at h
    obtain ⟨he, -, hs⟩ := h
    rw [Expr.tree, Tree.language_join, Tree.language_join]
    refine (e.widens he).both op ?_
    rw [Tree.language, Tree.language]
    exact s.widens hs

end

/-- What a text without inverted groups accepts with regard to case, it accepts without. -/
theorem compile_widens {text : List CodePoint} {a : Arena} (h : compile text = .ok a)
    (hno : inverts text = false) : Widens (a.tree.language true) (a.tree.language false) := by
  obtain ⟨-, -, ts, p, hts, hp, -, htree⟩ := compile_eq_ok h
  rw [htree]
  cases p with
  | none =>
    rw [patternTree, Tree.language, Tree.language, Tree.concat, Tree.concat]
    exact .refl _
  | some e =>
    have htokens : e.tokens = ts.map Token.kind := hp
    have hmem : opening true ∉ ts.map Token.kind := by
      rw [inverts, hts] at hno
      exact of_decide_eq_false hno
    rw [language_patternTree, language_patternTree]
    exact e.widens (htokens ▸ hmem)

/-! ### Verdicts -/

/-- **Ignoring case only adds matches.** On whatever is tried of a path, a text without inverted
groups that matches with regard to case also matches without; if verdicts are negated, then one that
matches without regard to case also matches with it. -/
theorem matchPath_lenient {text : List CodePoint} {a : Arena} (h : compile text = .ok a)
    (hno : inverts text = false) {f g : Flags} (hf : f.caseSensitive = true)
    (hg : g.caseSensitive = false) (hfull : f.fullPath = g.fullPath)
    (hinversive : f.inversive = g.inversive) (path : List CodePoint) :
    (f.inversive = false → a.matchPath path f = true → a.matchPath path g = true) ∧
      (f.inversive = true → a.matchPath path g = true → a.matchPath path f = true) := by
  have hsubject : subjectText path f = subjectText path g := by
    rw [subjectText, subjectText, hfull]
  have hwidens := compile_widens h hno (subjectText path f)
  rw [matchPath_eq_true_iff h, matchPath_eq_true_iff h, ← hsubject, ← hinversive, hf, hg]
  constructor
  · intro hplain
    rw [hplain, iff_true_right rfl, iff_true_right rfl]
    exact hwidens
  · intro hnegated
    rw [hnegated, iff_false_right Bool.noConfusion, iff_false_right Bool.noConfusion]
    exact mt hwidens

/-- A literal in a group, in a text of two segments that is tried on whole paths. -/
theorem matchPath_lenient_group :
    ∃ a, compile (pointsOf ['*', '/', '(', 'B', '|', '?', 'c', ')']) = .ok a ∧
      a.matchPath (pointsOf ['x', '/', 'B']) ⟨6⟩ = true ∧
      a.matchPath (pointsOf ['x', '/', 'B']) ⟨4⟩ = true := by
  have ha : ∃ a, compile (pointsOf ['*', '/', '(', 'B', '|', '?', 'c', ')']) = .ok a ∧
      a.matchPath (pointsOf ['x', '/', 'B']) ⟨6⟩ = true := ⟨_, rfl, by decide +kernel⟩
  obtain ⟨a, ha, haccepts⟩ := ha
  have hlenient := matchPath_lenient ha rfl (f := ⟨6⟩) (g := ⟨4⟩) rfl rfl rfl rfl
    (pointsOf ['x', '/', 'B'])
  exact ⟨a, ha, haccepts, hlenient.1 rfl haccepts⟩

/-- An inverted group may lose matches. -/
example :
    ∃ a, compile (pointsOf ['(', '!', 'a', ')']) = .ok a ∧
      a.matchPath (pointsOf ['A']) ⟨2⟩ = true ∧ a.matchPath (pointsOf ['A']) ⟨0⟩ = false :=
  ⟨_, rfl, by decide +kernel⟩

end PathSieve.Pattern
