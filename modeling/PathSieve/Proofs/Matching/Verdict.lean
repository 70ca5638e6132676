import PathSieve.Matching.Path
import PathSieve.Proofs.Matching.Questions
import PathSieve.Proofs.Pattern.Connecting
import PathSieve.Proofs.Pattern.Enclosing

namespace PathSieve.Pattern

open Text (CodePoint pointsOf)

/-!
# Verdicts of connected texts

The connectives act on verdicts, strictly from left to right: what a pattern text with connectives
says about a path is computed from what its operands say about it.

* `matchPath_eq_true_iff`, `matchPath_iff` — the verdict of a compiled pattern, by its language.
* `matchPath_connected` — the verdict of two texts with a connective between them.
* `Link`, `chained` — a text with further operands behind it.
* `matchPath_connectives` — connectives, groups and whole chains.
-/

/-! ### One connective -/

/-- What a path is tried by. -/
def subjectText (path : List CodePoint) (flags : Flags) : List CodePoint :=
  if flags.fullPath then path else basename path

theorem subjectText_of_fullPath {flags : Flags} (h : flags.fullPath = true)
    (path : List CodePoint) : subjectText path flags = path := by
  rw [subjectText, if_pos h]

theorem subjectText_of_basename {flags : Flags} (h : flags.fullPath = false)
    (path : List CodePoint) : subjectText path flags = basename path := by
  rw [subjectText, h, if_neg Bool.false_ne_true]

/-- The verdict of a compiled pattern says whether what is tried is in its language, unless it is
flagged to say the opposite. -/
theorem matchPath_eq_true_iff {text : List CodePoint} {a : Arena} (h : compile text = .ok a)
    (path : List CodePoint) (flags : Flags) :
    a.matchPath path flags = true ↔
      (subjectText path flags ∈ a.tree.language flags.caseSensitive ↔ flags.inversive = false) := by
  rw [← compile_accepts_iff h]
  show (if flags.inversive then !a.accepts (.ofText (subjectText path flags) flags.caseSensitive)
    else a.accepts (.ofText (subjectText path flags) flags.caseSensitive)) = true ↔ _
  cases flags.inversive with
  | true => simp
  | false => simp

/-- The verdict of a compiled pattern that does not negate it. -/
theorem matchPath_iff {text : List CodePoint} {a : Arena} (h : compile text = .ok a)
    (path : List CodePoint) {flags : Flags} (hflags : flags.inversive = false) :
    a.matchPath path flags = true ↔
      subjectText path flags ∈ a.tree.language flags.caseSensitive := by
  rw [matchPath_eq_true_iff h, hflags]
  exact iff_true_right rfl

/-- Verdicts agree where the languages do. -/
theorem matchPath_congr {x y : List CodePoint} {a b : Arena} (hx : compile x = .ok a)
    (hy : compile y = .ok b) (path : List CodePoint) {f g : Flags}
    (hflags : f.inversive = g.inversive)
    (h : subjectText path f ∈ a.tree.language f.caseSensitive ↔
      subjectText path g ∈ b.tree.language g.caseSensitive) :
    a.matchPath path f = b.matchPath path g := by
  rw [Bool.eq_iff_iff, matchPath_eq_true_iff hx, matchPath_eq_true_iff hy, h, hflags]

/-- What a connective makes of two verdicts. -/
def Connective.apply : Connective → Bool → Bool → Bool
  | .conj => and
  | .disj => or

section Connect

variable {x y : List CodePoint} {a b c : Arena} {flags : Flags}

theorem matchPath_connected (hx : compile x = .ok a) (hxne : x ≠ []) (hy : compile y = .ok b)
    (hyne : y ≠ []) (hundivided : undivided 0 y) (op : Connective)
    (hc : compile (connected x op y) = .ok c) (hflags : flags.inversive = false)
    (path : List CodePoint) :
    c.matchPath path flags = op.apply (a.matchPath path flags) (b.matchPath path flags) := by
  have hlanguage := language_connected hx hxne hy hyne hundivided op hc flags.caseSensitive
  rw [Bool.eq_iff_iff, matchPath_iff hc path hflags, hlanguage]
  cases op with
  | conj =>
    rw [Tree.mem_both_conj, Connective.apply, Bool.and_eq_true, matchPath_iff hx path hflags,
      matchPath_iff hy path hflags]
  | disj =>
    rw [Tree.mem_both_disj, Connective.apply, Bool.or_eq_true, matchPath_iff hx path hflags,
      matchPath_iff hy path hflags]

theorem matchPath_grouped (hx : compile x = .ok a) (hxne : x ≠ [])
    (hhead : x.head? ≠ some (.char '!')) (hc : compile (grouped x) = .ok c)
    (hflags : flags.inversive = false) (path : List CodePoint) :
    c.matchPath path flags = a.matchPath path flags := by
  rw [Bool.eq_iff_iff, matchPath_iff hc path hflags, matchPath_iff hx path hflags,
    language_grouped hx hxne hhead hc]

end Connect

/-! ### Chains -/

/-- A further operand of a chain with the connective before it. It has no connectives of its own
outside of its groups. -/
structure Link where
  connective : Connective
  text : List CodePoint
  arena : Arena
  ne_nil : text ≠ []
  compiled : compile text = .ok arena
  undivided : undivided 0 text = true

/-- A text with further operands behind it. -/
def chained (x : List CodePoint) (links : List Link) : List CodePoint :=
  x ++ links.flatMap fun l => .char l.connective.char :: l.text

theorem chained_cons (x : List CodePoint) (l : Link) (links : List Link) :
    chained x (l :: links) = chained (connected x l.connective l.text) links := by
  rw [chained, chained, List.flatMap_cons, ← List.append_assoc]
  rfl

/-- The verdict of a chain is that of its operands, taken together from left to right. -/
theorem matchPath_chained {x : List CodePoint} {a c : Arena} (hx : compile x = .ok a)
    (hxne : x ≠ []) (links : List Link) (hc : compile (chained x links) = .ok c) {flags : Flags}
    (hflags : flags.inversive = false) (path : List CodePoint) :
    c.matchPath path flags =
      links.foldl (fun v l => l.connective.apply v (l.arena.matchPath path flags))
        (a.matchPath path flags) := by
  induction links generalizing x a with
  | nil =>
    rw [chained, List.flatMap_nil, List.append_nil, hx] at hc
    cases hc
    rfl
  | cons l links ih =>
    -- The text with its first link is itself a text, and fewer links follow it.
    rw [chained_cons] at hc
    have hne : connected x l.connective l.text ≠ [] := by
      rw [connected]
      exact List.append_ne_nil_of_right_ne_nil x (List.cons_ne_nil _ _)
    -- It compiles, since it is a part of a text that is not too long.
    have hlen : (connected x l.connective l.text).length ≤ maxLength := by
      refine Nat.le_trans ?_ (compile_eq_ok_iff.1 hc).1
      rw [chained, List.length_append]
      exact Nat.le_add_right ..
    obtain ⟨d, hd⟩ :=
      exists_compile_connected hx hxne l.compiled l.ne_nil l.undivided l.connective hlen
    rw [ih hd hne hc, List.foldl_cons,
      matchPath_connected hx hxne l.compiled l.ne_nil l.undivided l.connective hd hflags path]

/-- **Connectives act on verdicts.** For a text that compiles and is not empty: a further operand
that is added behind `&` or `|` is taken together with the verdict of the text by `&&` or `||`,
whatever connectives the text has; parentheses around the text do not change its verdict; and a
chain has the verdict that comes from those of its operands from left to right. -/
theorem matchPath_connectives {x : List CodePoint} {a : Arena} (hx : compile x = .ok a)
    (hxne : x ≠ []) {flags : Flags} (hflags : flags.inversive = false) (path : List CodePoint) :
    (∀ y b, compile y = .ok b → y ≠ [] → undivided 0 y = true →
      (∀ c, compile (x ++ .char '&' :: y) = .ok c →
        c.matchPath path flags = (a.matchPath path flags && b.matchPath path flags)) ∧
      (∀ c, compile (x ++ .char '|' :: y) = .ok c →
        c.matchPath path flags = (a.matchPath path flags || b.matchPath path flags))) ∧
    (x.head? ≠ some (.char '!') → ∀ c, compile (.char '(' :: x ++ [.char ')']) = .ok c →
      c.matchPath path flags = a.matchPath path flags) ∧
    (∀ links c, compile (chained x links) = .ok c → c.matchPath path flags =
      links.foldl (fun v l => l.connective.apply v (l.arena.matchPath path flags))
        (a.matchPath path flags)) := by
  refine ⟨fun y b hy hyne hundivided => ⟨fun c hc => ?_, fun c hc => ?_⟩, fun hhead c hc => ?_,
    fun links c hc => ?_⟩
  · exact matchPath_connected hx hxne hy hyne hundivided .conj hc hflags path
  · exact matchPath_connected hx hxne hy hyne hundivided .disj hc hflags path
  · exact matchPath_grouped hx hxne hhead hc hflags path
  · exact matchPath_chained hx hxne links hc hflags path

/-- Behind `a|b`, a further operand `(a|c)` is taken together with both of its operands. -/
theorem matchPath_connectives_mixed :
    ∃ a b c d, compile (pointsOf ['a', '|', 'b']) = .ok a ∧
      compile (pointsOf ['(', 'a', '|', 'c', ')']) = .ok b ∧
      compile (pointsOf ['a', '|', 'b', '&', '(', 'a', '|', 'c', ')']) = .ok c ∧
      compile (pointsOf ['(', 'a', '|', 'b', ')']) = .ok d ∧
      ∀ path, c.matchPath path .none = (a.matchPath path .none && b.matchPath path .none) ∧
        d.matchPath path .none = a.matchPath path .none := by
  have ha : ∃ a, compile (pointsOf ['a', '|', 'b']) = .ok a := ⟨_, rfl⟩
  have hb : ∃ b, compile (pointsOf ['(', 'a', '|', 'c', ')']) = .ok b := ⟨_, rfl⟩
  have hc : ∃ c, compile (pointsOf ['a', '|', 'b', '&', '(', 'a', '|', 'c', ')']) = .ok c :=
    ⟨_, rfl⟩
  have hd : ∃ d, compile (pointsOf ['(', 'a', '|', 'b', ')']) = .ok d := ⟨_, rfl⟩
  obtain ⟨a, ha⟩ := ha
  obtain ⟨b, hb⟩ := hb
  obtain ⟨c, hc⟩ := hc
  obtain ⟨d, hd⟩ := hd
  refine ⟨a, b, c, d, ha, hb, hc, hd, fun path => ?_⟩
  obtain ⟨hconnect, hgroup, -⟩ :=
    matchPath_connectives ha (by decide) (rfl : Flags.none.inversive = false) path
  exact ⟨(hconnect _ b hb (by decide) rfl).1 c hc, hgroup (by decide) d hd⟩

end PathSieve.Pattern
