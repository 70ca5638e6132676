import PathSieve.Proofs.Matching.Ends

namespace PathSieve.Matching

open Pattern
open Text (CodePoint)

/-!
# Questions in a row

Questions about one text share what is remembered. Whatever was asked before, about any node and
from any start, and whether or not it was answered, the answer for a start in the text is right.

* `keeps_endsFrom` — a question keeps the remembered answers right.
* `Arena.remembered` — what is remembered after some questions.
* `compile_ends_iff` — the end positions of every node of a compiled pattern.
* `compile_accepts_iff` — the texts that a compiled pattern accepts.
-/

/-! ### Any start -/

section Starts

variable {S : Memo → Prop} {nodes : Array Node} {t : Subject} {ends : Nat → Int → AnyEnds}

theorem keeps_pastSeparator (t : Subject) (p : Int) : Keeps S (t.pastSeparator p) := by
  unfold Subject.pastSeparator
  split
  · exact .pure _
  · split
    · exact .throw _
    · exact .pure _

theorem keeps_reachedFrom {f : Int → AnyEnds} (h : ∀ p, Keeps S (f p)) (row : List Int) :
    Keeps S (reachedFrom f row) :=
  (Keeps.mapM fun p _ => h p).bind fun _ => .pure _

theorem keeps_stepFrom (h : ∀ i p, Keeps S (ends i p)) (item : Nat) (row : List Int) :
    Keeps S (stepFrom nodes t ends item row) := by
  unfold stepFrom
  split
  · exact (Keeps.except _).bind fun _ => .pure _
  · exact (Keeps.except _).bind fun _ => .pure _
  · exact (Keeps.except _).bind fun _ => .pure _
  · exact .pure _
  · exact keeps_reachedFrom (keeps_pastSeparator t) row
  · exact keeps_reachedFrom (h item) row

theorem keeps_runFrom (h : ∀ i p, Keeps S (ends i p)) (row : List Int) (items : List Nat) :
    Keeps S (runFrom nodes t ends row items) := by
  fun_induction runFrom nodes t ends row items with
  | case1 => exact .pure _
  | case2 => exact .pure _
  | case3 => exact keeps_stepFrom h _ _
  | case4 => exact .pure _
  | case5 row i j rest _ ihrest ihnext =>
    refine (keeps_stepFrom h i row).bind fun next => ?_
    split
    · exact ihrest next
    · exact ihnext next

theorem keeps_sharedFrom {f : Nat → AnyEnds} (h : ∀ i, Keeps S (f i)) (row : List Int)
    (operands : List Nat) : Keeps S (sharedFrom f row operands) := by
  induction operands generalizing row with
  | nil => exact .pure _
  | cons i rest ih =>
    rw [sharedFrom]
    split
    · exact .pure _
    · exact (h i).bind fun other => ih _

theorem keeps_nodeEndsFrom (h : ∀ i p, Keeps S (ends i p)) (index : Nat) (start : Int) :
    Keeps S (nodeEndsFrom nodes t ends index start) := by
  unfold nodeEndsFrom
  split
  · exact .throw _
  · exact keeps_runFrom h _ _
  · exact .throw _
  · exact (h _ start).bind fun row => keeps_sharedFrom (fun i => h i start) row _
  · exact (Keeps.mapM fun i _ => h i start).bind fun _ => .pure _
  · exact h _ start
  · exact (h _ start).bind fun _ => .pure _
  · exact keeps_stepFrom h _ _

end Starts

/-- An index outside the arena is refused before anything is remembered. -/
theorem keeps_endsWithin_outside {S : Memo → Prop} {nodes : Array Node} (t : Subject)
    {index : Nat} (h : nodes.size ≤ index) (fuel start : Nat) :
    Keeps S (endsWithin nodes t fuel index start) := by
  cases fuel with
  | zero => exact .throw _
  | succ fuel =>
    have hnode : nodeEnds nodes t (endsWithin nodes t fuel) index start = throw .outOfRange := by
      rw [nodeEnds, Array.getElem?_eq_none h]
    rw [endsWithin]
    refine Finds.get.keeps.bind fun m => ?_
    split
    · exact .pure _
    · rw [hnode]
      exact (Keeps.throw .outOfRange : Keeps S (throw .outOfRange : Search Positions))

/-- A question keeps what is remembered right, whatever it asks for. -/
theorem keeps_endsFrom {a : Arena} (hwell : WellFormed a.nodes) (t : Subject) (index : Nat)
    (start : Int) : Keeps (Memo.Right a.nodes t) (a.endsFrom t index start) := by
  -- A start in the text is asked for by `ends`; what any other start needs is not remembered.
  have hends : ∀ index start, start ≤ t.length →
      Keeps (Memo.Right a.nodes t) (a.ends t index start) := by
    intro index start hstart
    by_cases hindex : index < a.nodes.size
    · exact (finds_endsWithin hwell hindex hindex start hstart).keeps
    · exact keeps_endsWithin_outside t (Nat.not_lt.1 hindex) _ _
  have hwithin : ∀ fuel index start,
      Keeps (Memo.Right a.nodes t) (endsFromWithin a t fuel index start) := by
    intro fuel
    induction fuel with
    | zero => exact fun _ _ => .throw _
    | succ fuel ih =>
      intro index start
      rw [endsFromWithin]
      split
      · rename_i hstart
        exact (hends index start.toNat (by omega)).bind fun _ => .pure _
      · exact keeps_nodeEndsFrom ih index start
  exact hwithin _ index start

end PathSieve.Matching

namespace PathSieve.Pattern

open Matching
open Text (CodePoint)

/-! ### Compiled patterns -/

/-- What is remembered about a text after some questions, each about a node and from a start. -/
def Arena.remembered (a : Arena) (t : Subject) (asked : List (Nat × Int)) : Memo :=
  asked.foldl (fun m q => ((a.endsFrom t q.1 q.2).run.run m).2) (.empty a.size)

theorem Arena.remembered_right {a : Arena} (hwell : WellFormed a.nodes) (t : Subject)
    (asked : List (Nat × Int)) : (a.remembered t asked).Right a.nodes t := by
  have hfold : ∀ (asked : List (Nat × Int)) (m : Memo), m.Right a.nodes t →
      (asked.foldl (fun m q => ((a.endsFrom t q.1 q.2).run.run m).2) m).Right a.nodes t := by
    intro asked
    induction asked with
    | nil => exact fun m hm => hm
    | cons q asked ih => exact fun m hm => ih _ (keeps_endsFrom hwell t q.1 q.2 m hm).2
  exact hfold asked _ (Memo.right_empty a.nodes t a.size)

theorem Subject.length_ofText (candidate : List CodePoint) (caseSensitive : Bool) :
    (Subject.ofText candidate caseSensitive).length = candidate.length := List.size_toArray ..

/-- A node of a well-formed arena finds the ends of its spans, whatever was asked before. -/
theorem WellFormed.ends_spec {a : Arena} (hwell : WellFormed a.nodes) (t : Subject)
    (asked : List (Nat × Int)) {i s : Nat} (hi : i < a.size) (hs : s ≤ t.length) :
    ∃ p, ((a.ends t i s).run.run (a.remembered t asked)).1 = .ok p ∧
      Answers t (treeAt a.nodes i) s p :=
  (finds_endsWithin hwell hi hi s hs _ (a.remembered_right hwell t asked)).1

/-- **Compiled patterns accept languages.** A compiled pattern accepts a candidate exactly if it is
in the language of its tree. -/
theorem compile_accepts_iff {text : List CodePoint} {a : Arena} (h : compile text = .ok a)
    (candidate : List CodePoint) (caseSensitive : Bool) :
    a.accepts (.ofText candidate caseSensitive) = true ↔
      candidate ∈ a.tree.language caseSensitive := by
  obtain ⟨hwell, hroot, -⟩ := compile_eq_ok h
  have hi : a.root < a.size := by omega
  obtain ⟨p, hp, hends⟩ := hwell.ends_spec (.ofText candidate caseSensitive) [] hi (Nat.zero_le _)
  have hsearch : a.search (a.ends (.ofText candidate caseSensitive) a.root 0) = .ok p := hp
  rw [Arena.accepts, hsearch]
  simp only [decide_eq_true_eq]
  rw [Subject.length_ofText, hends]
  exact spans_all

/-- **End positions are the ends of spans.** The nodes of a compiled pattern have the trees that
their children make up. For a candidate, whatever was asked about it before, every node and every
start in the candidate have an answer: the ends of the spans from there that are in the language of
the node. The whole candidate is accepted exactly if it is in the language of the pattern. -/
theorem compile_ends_iff {text : List CodePoint} {a : Arena} (h : compile text = .ok a)
    (candidate : List CodePoint) (caseSensitive : Bool) (asked : List (Nat × Int)) :
    let t := Subject.ofText candidate caseSensitive
    (∀ i n, a.nodes[i]? = some n → treeAt a.nodes i = n.tree (treeAt a.nodes)) ∧
    (∀ i s, i < a.size → s ≤ candidate.length →
      ∃ p, ((a.ends t i s).run.run (a.remembered t asked)).1 = .ok p ∧
        ∀ e, e ∈ p ↔ s ≤ e ∧ e ≤ candidate.length ∧
          slice candidate s e ∈ (treeAt a.nodes i).language caseSensitive) ∧
    (a.accepts t = true ↔ candidate ∈ a.tree.language caseSensitive) := by
  intro t
  obtain ⟨hwell, hroot, -⟩ := compile_eq_ok h
  refine ⟨fun i n hn => hwell.tree_eq hn, fun i s hi hs => ?_, ?_⟩
  · exact hwell.ends_spec t asked hi hs
  · exact compile_accepts_iff h candidate caseSensitive

/-- The inverted group of `**/(!a)` in `x/b`, after it was asked for from a start before the text
and after an index outside the arena was refused. -/
theorem compile_ends_iff_inverted :
    ∃ a, compile (Text.pointsOf ['*', '*', '/', '(', '!', 'a', ')']) = .ok a ∧
      let candidate := Text.pointsOf ['x', '/', 'b']
      let t := Subject.ofText candidate false
      (∃ p, ((a.ends t 4 2).run.run (a.remembered t [(4, -1), (9, 0)])).1 = .ok p ∧
        ∀ e, e ∈ p ↔ 2 ≤ e ∧ e ≤ 3 ∧
          slice candidate 2 e ∈ (treeAt a.nodes 4).language false) ∧
      (a.accepts t = true ↔ candidate ∈ a.tree.language false) := by
  let a : Arena := ⟨#[.anyPath, .split .slash, .literal [.char 'a'], .sequence [2],
    .group 3 true false, .sequence [0, 1, 4]], 5⟩
  have h : compile (Text.pointsOf ['*', '*', '/', '(', '!', 'a', ')']) = .ok a := rfl
  obtain ⟨-, hends, haccepts⟩ :=
    compile_ends_iff h (Text.pointsOf ['x', '/', 'b']) false [(4, -1), (9, 0)]
  exact ⟨a, h, hends 4 2 (by decide) (by decide), haccepts⟩

end PathSieve.Pattern
