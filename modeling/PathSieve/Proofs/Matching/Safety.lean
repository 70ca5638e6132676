import PathSieve.Proofs.Matching.Verdict
import PathSieve.Proofs.Matching.Watching
import PathSieve.Proofs.Pattern.Coupling

namespace PathSieve.Matching

open Pattern

/-!
# Safe searches

A search makes no checks of its own: it relies on how arenas are built and on positions that stay in
the text. What a watched search of a compiled pattern records is safe, event by event.

* `Between` — positions from a start to the end of the text.
* `Event.Safe` — what may happen in a search.
* `Memo.Bounded` — remembered answers do not leave the text.
* `Watches` — a watched search does not stumble, and all that it records has some property.
* `watches_sequence`, `watches_shared`, `watches_node`, `watches_ends` — the parts of the search.
* `compile_watch` — the verdict of a compiled pattern on a path.
-/

/-! ### Positions in the text -/

/-- All positions are between a start and the end of the text. -/
def Between (t : Subject) (start : Nat) (row : Positions) : Prop :=
  ∀ e ∈ row, start ≤ e ∧ e ≤ t.length

section Positions

variable {t : Subject} {start : Nat} {row next : Positions}

theorem Between.within (h : Between t start row) : Within t row := fun e he => (h e he).2

theorem between_single (h : start ≤ t.length) : Between t start (.single start) := by
  intro e he
  rw [Positions.mem_single.1 he]
  exact ⟨Nat.le_refl _, h⟩

theorem exists_mem_of_isEmpty_eq_false (h : row.isEmpty = false) : ∃ p, p ∈ row := by
  by_contra hnone
  have hempty : row = .empty := Positions.ext fun p =>
    iff_of_false (fun hp => hnone ⟨p, hp⟩) (Positions.not_mem_empty p)
  rw [Positions.isEmpty_iff.2 hempty] at h
  cases h

/-- Spans do not lead back. -/
theorem Moves.between {l : Language Text.CodePoint} (h : Moves t l row next)
    (hrow : Between t start row) : Between t start next := by
  intro e he
  obtain ⟨s, hs, hse, hle, -⟩ := (h e).1 he
  exact ⟨(hrow s hs).1.trans hse, hle⟩

/-- What is reached from the positions of a row is reached from where they began. -/
theorem between_unionOf {sets : List Positions}
    (h : ∀ p ∈ sets, ∃ s, start ≤ s ∧ Between t s p) : Between t start (unionOf sets) := by
  intro e he
  obtain ⟨p, hp, hep⟩ := mem_unionOf.1 he
  obtain ⟨s, hs, hbetween⟩ := h p hp
  exact ⟨hs.trans (hbetween e hep).1, (hbetween e hep).2⟩

theorem between_diff_reach (multi : Bool) (p : Positions) :
    Between t start ((reach t multi start).diff p) := by
  intro e he
  obtain ⟨hse, hle, -⟩ := mem_reach.1 (Positions.mem_diff.1 he).1
  exact ⟨hse, hle⟩

/-- An atom does not lead out of the text. -/
theorem between_atomStep {n : Node} (h : atomStep t row n = .ok next)
    (hrow : Between t start row) : Between t start next :=
  (moves_atomStep h hrow.within).between hrow

theorem exists_segmentFrom {nodes : Array Node} {run : List Nat}
    (hrun : ∀ i ∈ run, atomAt nodes i = true) (hrow : Between t start row) :
    ∃ next, segmentFrom nodes t row (run.map Int.ofNat) = .ok next ∧ Between t start next := by
  induction run generalizing row with
  | nil => exact ⟨row, rfl, hrow⟩
  | cons i run ih =>
    obtain ⟨hi, hrest⟩ := List.forall_mem_cons.1 hrun
    obtain ⟨n, hn, hatom⟩ := (Option.any_eq_true ..).1 hi
    obtain ⟨next, hnext⟩ := exists_atomStep hatom
    have hbetween := between_atomStep hnext hrow
    rw [List.map_cons, Int.ofNat_eq_natCast,
      segmentFrom_cons ((nodeAt?_natCast nodes i).trans hn) hnext]
    split
    · exact ⟨next, rfl, hbetween⟩
    · exact ih hrest hbetween

end Positions

/-! ### Safe events -/

/-- What may happen in a search. A question is asked about a node of the arena and a start in the
text, inside questions about ever later nodes only; it is answered by positions from there to the
end of the text. A run has nothing but atoms and starts in the text. What is passed over behind a
path wildcard is the separator that was added with it. The least position is taken of rows that have
one. -/
def Event.Safe (nodes : Array Node) (t : Subject) : Event → Prop
  | .asked outer index start =>
    (index :: outer).Pairwise (· < ·) ∧ (∀ i ∈ index :: outer, i < nodes.size) ∧ start ≤ t.length
  | .answered _ start ends => start ≤ t.length ∧ Between t start ends
  | .looked index => index < nodes.size
  | .matched atoms starts => (∀ i ∈ atoms, atomAt nodes i = true) ∧ Within t starts
  | .skipped wildcard behind =>
    behind = some (wildcard + 1) ∧ ∃ s, nodes[wildcard + 1]? = some (.split s)
  | .least row => ∃ p, p ∈ row
  | .crossed row => Within t row

/-- All answers that are remembered are positions between their start and the end of the text. -/
def Memo.Bounded (t : Subject) (m : Memo) : Prop :=
  ∀ i s p, m.find? i s = some p → Between t s p

theorem Memo.bounded_empty (t : Subject) (size : Nat) : (Memo.empty size).Bounded t := by
  intro i s p h
  rw [Memo.find?_empty] at h
  cases h

theorem Memo.Bounded.insert {t : Subject} {m : Memo} (h : m.Bounded t) {i s : Nat} {p : Positions}
    (hp : Between t s p) : (m.insert i s p).Bounded t := by
  intro j r q hq
  rcases Memo.find?_insert hq with ⟨-, rfl, rfl⟩ | hq
  · exact hp
  · exact h j r q hq

/-! ### Searches that record safe events -/

section Watching

variable {α β : Type} {nodes : Array Node} {t : Subject}

/-- From bounded answers a watched search comes to a result with `Q` and to bounded answers again,
and all that it records is safe. -/
def Watches (nodes : Array Node) (t : Subject) (w : Watch α) (Q : α → Prop) : Prop :=
  Finds (Memo.Bounded t) w.run fun r => Q r.1 ∧ ∀ e ∈ r.2, e.Safe nodes t

namespace Watches

theorem pure {Q : α → Prop} {x : α} (h : Q x) : Watches nodes t (pure x) Q :=
  Finds.pure ⟨h, by simp⟩

theorem note {es : List Event} (h : ∀ e ∈ es, e.Safe nodes t) :
    Watches nodes t (Watch.note es) fun _ => True :=
  Finds.pure ⟨trivial, h⟩

theorem plain {s : Search α} {Q : α → Prop} (h : Finds (Memo.Bounded t) s Q) :
    Watches nodes t (Watch.plain s) Q := by
  show Finds _ ((fun x => (x, [])) <$> s) _
  rw [map_eq_pure_bind]
  exact h.bind fun x hx => .pure ⟨hx, by simp⟩

theorem bind {w : Watch α} {f : α → Watch β} {Q : α → Prop} {R : β → Prop}
    (hw : Watches nodes t w Q) (hf : ∀ x, Q x → Watches nodes t (f x) R) :
    Watches nodes t (w >>= f) R := by
  show Finds _ (w.run >>= fun x => (fun y => (y.1, x.2 ++ y.2)) <$> (f x.1).run) _
  refine Finds.bind hw fun x hx => ?_
  rw [map_eq_pure_bind]
  have hnext : Finds (Memo.Bounded t) (f x.1).run fun r => R r.1 ∧ ∀ e ∈ r.2, e.Safe nodes t :=
    hf x.1 hx.1
  exact hnext.bind fun y hy => .pure ⟨hy.1, List.forall_mem_append.2 ⟨hx.2, hy.2⟩⟩

theorem mono {w : Watch α} {Q R : α → Prop} (h : Watches nodes t w Q) (hQR : ∀ x, Q x → R x) :
    Watches nodes t w R :=
  Finds.mono h fun x hx => ⟨hQR x.1 hx.1, hx.2⟩

theorem mapM {f : α → Watch β} {Q : β → Prop} {xs : List α}
    (h : ∀ x ∈ xs, Watches nodes t (f x) Q) :
    Watches nodes t (xs.mapM f) fun ys => ∀ y ∈ ys, Q y := by
  induction xs with
  | nil =>
    rw [List.mapM_nil]
    exact .pure (by simp)
  | cons x xs ih =>
    rw [List.mapM_cons]
    obtain ⟨hx, hxs⟩ := List.forall_mem_cons.1 h
    exact hx.bind fun y hy => (ih hxs).bind fun ys hys =>
      .pure (List.forall_mem_cons.2 ⟨hy, hys⟩)

end Watches

/-! ### Sequences -/

variable {ends : Nat → Nat → Watch Positions} {start : Nat} {row : Positions}

/-- From every start in the text, a node is answered by positions from there to the end of the
text. -/
def Answering (nodes : Array Node) (t : Subject) (ends : Nat → Watch Positions) : Prop :=
  ∀ s, s ≤ t.length → Watches nodes t (ends s) (Between t s)

theorem watches_run {run : List Nat} {behind : Option Nat}
    (hrun : ∀ i ∈ run, atomAt nodes i = true) (hbehind : ∀ i ∈ behind, i < nodes.size)
    (hrow : Between t start row) :
    Watches nodes t (watchRun nodes t row run behind) (Between t start) := by
  have hlooked : ∀ e ∈ (run ++ behind.toList).map Event.looked, e.Safe nodes t := by
    intro e he
    obtain ⟨i, hi, rfl⟩ := List.mem_map.1 he
    rcases List.mem_append.1 hi with hi | hi
    · obtain ⟨n, hn, -⟩ := (Option.any_eq_true ..).1 (hrun i hi)
      exact (Array.getElem?_eq_some_iff.1 hn).1
    · exact hbehind i (Option.mem_toList.1 hi)
  obtain ⟨next, hnext, hbetween⟩ := exists_segmentFrom hrun hrow
  have hmatched : ∀ e ∈ [Event.matched run row], e.Safe nodes t :=
    List.forall_mem_singleton.2 ⟨hrun, hrow.within⟩
  exact (Watches.note hlooked).bind fun _ _ => (Watches.note hmatched).bind fun _ _ =>
    .plain (.except hnext hbetween)

theorem watches_parts {ends : Nat → Watch Positions} (hends : Answering nodes t ends)
    (hrow : Between t start row) : Watches nodes t (watchParts ends row) (Between t start) := by
  have hall : ∀ s ∈ row.toList, Watches nodes t (ends s) fun p =>
      ∃ s, start ≤ s ∧ Between t s p := by
    intro s hs
    obtain ⟨hle, hs⟩ := hrow s (Positions.mem_toList.1 hs)
    exact (hends s hs).mono fun p hp => ⟨s, hle, hp⟩
  exact (Watches.mapM hall).bind fun sets hsets => .pure (between_unionOf hsets)

/-- What is left of coupled items behind a run of atoms is coupled. -/
theorem coupled_dropWhile {items : List Nat} (h : Coupled nodes items) :
    Coupled nodes (items.dropWhile (atomAt nodes)) := by
  induction items with
  | nil => exact h
  | cons i rest ih =>
    rw [List.dropWhile_cons]
    split
    · rename_i hi
      exact ih (h.tail (ne_anyPath_of_atomAt hi))
    · exact h

/-- Atoms are matched up to the first item that is none, which is still in the arena. -/
theorem watches_atoms {i : Nat} {rest : List Nat} (hi : atomAt nodes i = true)
    (hrest : Coupled nodes rest) (hrow : Between t start row) :
    Watches nodes t (watchRun nodes t row (i :: rest.takeWhile (atomAt nodes))
      (rest.dropWhile (atomAt nodes)).head?) (Between t start) := by
  have hrun : ∀ j ∈ i :: rest.takeWhile (atomAt nodes), atomAt nodes j = true :=
    List.forall_mem_cons.2 ⟨hi, fun j hj => List.mem_takeWhile_imp hj⟩
  refine watches_run hrun (fun j hj => ?_) hrow
  exact (coupled_dropWhile hrest).lt_size j (List.mem_of_head? hj)

/-- A sequence whose path wildcards have their separators leads on in the text. -/
theorem watches_sequence {items : List Nat} (hitems : Coupled nodes items)
    (hends : ∀ i ∈ items, ∀ n, nodes[i]? = some n → n.isLeaf = false →
      Answering nodes t (ends i)) (hrow : Between t start row) :
    Watches nodes t (watchSequence nodes t ends row items) (Between t start) := by
  fun_induction watchSequence nodes t ends row items with
  | case1 => exact .pure hrow
  | case2 => exact .pure hrow
  | case3 row i rest hne ihtail ihsplit ihrun ihnext =>
    obtain ⟨hi, hall⟩ := List.forall_mem_cons.1 hends
    have hlt : i < nodes.size := hitems.lt_size i (List.mem_cons_self ..)
    have hn : nodes[i]? = some nodes[i] := Array.getElem?_eq_getElem hlt
    have hlooked : ∀ e ∈ [Event.looked i], e.Safe nodes t := List.forall_mem_singleton.2 hlt
    refine (Watches.note hlooked).bind fun _ _ => ?_
    generalize nodes[i] = n at hn
    rw [hn]
    by_cases hany : n = .anyPath
    · -- The separator of the path wildcard is passed over with it.
      subst hany
      obtain ⟨hhead, hseparator, htail⟩ := hitems.separator hn
      have hnext := (moves_anyPath hrow.within).between hrow
      have hsafe : ∀ e ∈ [Event.skipped i rest.head?, .least row], e.Safe nodes t :=
        List.forall_mem_cons.2 ⟨⟨hhead, hseparator⟩, List.forall_mem_singleton.2
          (exists_mem_of_isEmpty_eq_false (Bool.not_eq_true _ ▸ hne))⟩
      exact (Watches.note hsafe).bind fun _ _ =>
        ihtail htail (fun j hj => hall j (List.mem_of_mem_tail hj)) hnext
    · have hrest : Coupled nodes rest :=
        hitems.tail fun h => hany (Option.some.inj (hn.symm.trans h))
      have hparts := fun next => ihnext next hrest hall
      have hatoms : atomAt nodes i = true → Watches nodes t
          (watchRun nodes t row (i :: rest.takeWhile (atomAt nodes))
              (rest.dropWhile (atomAt nodes)).head? >>= fun next =>
            watchSequence nodes t ends next (rest.dropWhile (atomAt nodes))) (Between t start) :=
        fun hatom => (watches_atoms hatom hrest hrow).bind fun next =>
          ihrun next (coupled_dropWhile hrest) fun j hj =>
            hall j ((List.dropWhile_sublist _).subset hj)
      cases n with
      | anyPath => exact absurd rfl hany
      | split s =>
        have hcrossed : ∀ e ∈ [Event.crossed row], e.Safe nodes t :=
          List.forall_mem_singleton.2 hrow.within
        exact (Watches.note hcrossed).bind fun _ _ =>
          ihsplit hrest hall (moves_afterSeparator.between hrow)
      | literal text => exact hatoms (by simp [atomAt, hn, isAtom])
      | anyChar => exact hatoms (by simp [atomAt, hn, isAtom])
      | anyChars => exact hatoms (by simp [atomAt, hn, isAtom])
      | _ => exact (watches_parts (hi _ hn rfl) hrow).bind hparts

/-! ### Nodes -/

theorem watches_shared {ends : Nat → Watch Positions} {operands : List Nat}
    (hends : ∀ i ∈ operands, Watches nodes t (ends i) (Between t start))
    (hrow : Between t start row) :
    Watches nodes t (watchShared ends row operands) (Between t start) := by
  induction operands generalizing row with
  | nil => exact .pure hrow
  | cons i rest ih =>
    obtain ⟨hi, hrest⟩ := List.forall_mem_cons.1 hends
    rw [watchShared]
    split
    · exact .pure hrow
    · exact hi.bind fun other _ => ih hrest fun e he => hrow e (Positions.mem_inter.1 he).1

/-- A node is answered by positions in the text when its children are. -/
theorem watches_node (hwell : WellFormed nodes) (hcoupling : Coupling nodes) {i : Nat}
    (hi : Whole nodes i)
    (hends : ∀ j, Links nodes i j → Whole nodes j → Answering nodes t (ends j))
    (hstart : start ≤ t.length) :
    Watches nodes t (watchNode nodes t ends i start) (Between t start) := by
  obtain ⟨n, hn, hne⟩ := id hi
  have hcouples := hcoupling i n hn
  have hadmitted := hwell.admitted hn
  have hchild : ∀ j ∈ n.children, Whole nodes j → Answering nodes t (ends j) :=
    fun j hj => hends j ⟨n, hn, hj⟩
  have hsingle := between_single hstart
  -- A leaf is a sequence of itself, which asks nothing.
  have hleaf : n.isLeaf = true →
      Watches nodes t (watchSequence nodes t ends (.single start) [i]) (Between t start) := by
    refine fun hl => watches_sequence (.item hi .nil) (fun j hj m hm hparts => ?_) hsingle
    rw [List.mem_singleton.1 hj, hn] at hm
    rw [← Option.some.inj hm, hl] at hparts
    cases hparts
  unfold watchNode
  rw [hn]
  cases n with
  | sequence items =>
    refine watches_sequence hcouples (fun j hj m hm hparts => hchild j hj ⟨m, hm, ?_⟩) hsingle
    rintro rfl
    cases hparts
  | combine op operands =>
    have hall : ∀ j ∈ operands, Watches nodes t (ends j start) (Between t start) :=
      fun j hj => hchild j hj (hcouples j hj) start hstart
    cases op with
    | conj =>
      cases operands with
      | nil => exact absurd rfl hadmitted
      | cons j rest =>
        obtain ⟨hj, hrest⟩ := List.forall_mem_cons.1 hall
        exact hj.bind fun row hrow => watches_shared hrest hrow
    | disj =>
      exact (Watches.mapM hall).bind fun sets hsets =>
        .pure (between_unionOf fun p hp => ⟨start, Nat.le_refl _, hsets p hp⟩)
  | group child inverted multi =>
    have hmem : child ∈ (Node.group child inverted multi).children := by simp [Node.children]
    have hasked := hchild child hmem (hcouples child hmem) start hstart
    cases inverted with
    | false => exact hasked
    | true => exact hasked.bind fun p _ => .pure (between_diff_reach multi p)
  | _ => exact hleaf rfl

/-- A node that may stand by itself is answered by positions in the text, with as much fuel as there
are nodes up to it. -/
theorem watches_ends (hwell : WellFormed nodes) (hcoupling : Coupling nodes) {fuel i : Nat}
    (hfuel : i < fuel) (hi : Whole nodes i) {outer : List Nat}
    (hnested : (i :: outer).Pairwise (· < ·)) (houter : ∀ j ∈ i :: outer, j < nodes.size) :
    Answering nodes t (watchEnds nodes t fuel outer i) := by
  induction fuel generalizing i outer with
  | zero => exact absurd hfuel (Nat.not_lt_zero i)
  | succ fuel ih =>
    intro start hstart
    -- A child stands before its parent, so it is asked inside questions about later nodes.
    have hchild : ∀ j, Links nodes i j → Whole nodes j →
        Answering nodes t (watchEnds nodes t fuel (i :: outer) j) := by
      intro j hij hj
      have hlt : j < i := hwell.lt_of_links hij
      refine ih (by omega) hj (List.pairwise_cons.2 ⟨?_, hnested⟩) (List.forall_mem_cons.2
        ⟨hlt.trans (houter i (List.mem_cons_self ..)), houter⟩)
      refine List.forall_mem_cons.2 ⟨hlt, fun k hk => hlt.trans ?_⟩
      exact List.rel_of_pairwise_cons hnested hk
    have hasked : ∀ e ∈ [Event.asked outer i start], e.Safe nodes t :=
      List.forall_mem_singleton.2 ⟨hnested, houter, hstart⟩
    have hanswer : ∀ p, Between t start p → Watches nodes t
        (do Watch.note [.answered i start p]; return p) (Between t start) := by
      intro p hp
      have hanswered : ∀ e ∈ [Event.answered i start p], e.Safe nodes t :=
        List.forall_mem_singleton.2 ⟨hstart, hp⟩
      exact (Watches.note hanswered).bind fun _ _ => .pure hp
    rw [watchEnds]
    refine (Watches.note hasked).bind fun _ _ => (Watches.plain Finds.get).bind fun m hm => ?_
    dsimp only
    split
    · rename_i p hp
      exact (Watches.pure (hm i start p hp)).bind hanswer
    · refine (watches_node hwell hcoupling hi hchild hstart).bind fun p hp => ?_
      have hinsert : Finds (Memo.Bounded t) (modify (·.insert i start p)) fun _ => True :=
        Finds.modify fun m' hm' => hm'.insert hp
      exact (Watches.plain hinsert).bind fun _ _ => (Watches.pure hp).bind hanswer

end Watching

end PathSieve.Matching

namespace PathSieve.Pattern

open Matching
open Text (CodePoint pointsOf)

/-! ### Compiled patterns -/

/-- A search without its record comes to what the watched search comes to. -/
theorem Arena.search_forget {α : Type} (a : Arena) (w : Watch α) :
    a.search w.forget = (a.search w.run).map Prod.fst := by
  unfold Arena.search Watch.forget
  rw [ExceptT.run_map, StateT.run_map]
  rfl

section Compiled

variable {text : List CodePoint} {a : Arena}

/-- What a search from the root does is safe, and it comes to the same positions with all fuel that
is enough. -/
theorem compile_search_safe (h : compile text = .ok a) (t : Subject) :
    ∃ p, Between t 0 p ∧ ∀ fuel, a.size ≤ fuel →
      a.search (endsWithin a.nodes t fuel a.root 0) = .ok p ∧
      ∃ events, a.search (watchEnds a.nodes t fuel [] a.root 0).run = .ok (p, events) ∧
        ∀ e ∈ events, e.Safe a.nodes t := by
  obtain ⟨hwell, hroot, -⟩ := compile_eq_ok h
  obtain ⟨hcoupling, hwhole⟩ := compile_coupling h
  have hlt : a.root < a.nodes.size := show a.root < a.size by omega
  have hwatched : ∀ fuel, a.size ≤ fuel → ∃ p events,
      a.search (watchEnds a.nodes t fuel [] a.root 0).run = .ok (p, events) ∧
        Between t 0 p ∧ ∀ e ∈ events, e.Safe a.nodes t := by
    intro fuel hfuel
    have hwatches := watches_ends (t := t) hwell hcoupling (show a.root < fuel by omega) hwhole
      (List.pairwise_singleton ..) (List.forall_mem_singleton.2 hlt) 0 (Nat.zero_le _)
    obtain ⟨⟨⟨p, events⟩, hrun, hbetween, hsafe⟩, -⟩ :=
      hwatches (.empty a.size) (Memo.bounded_empty t a.size)
    exact ⟨p, events, hrun, hbetween, hsafe⟩
  have hplain : ∀ fuel p events,
      a.search (watchEnds a.nodes t fuel [] a.root 0).run = .ok (p, events) →
        a.search (endsWithin a.nodes t fuel a.root 0) = .ok p := by
    intro fuel p events hrun
    rw [← forget_watchEnds a.nodes t fuel [], Arena.search_forget, hrun]
    rfl
  -- Whatever the fuel, the positions are the ends of the same spans.
  have hanswers : ∀ fuel p, a.size ≤ fuel →
      a.search (endsWithin a.nodes t fuel a.root 0) = .ok p →
        Answers t (treeAt a.nodes a.root) 0 p := by
    intro fuel p hfuel hp
    obtain ⟨⟨q, hq, hanswers⟩, -⟩ := finds_endsWithin hwell (show a.root < fuel by omega) hlt 0
      (Nat.zero_le t.length) (.empty a.size) (Memo.right_empty a.nodes t a.size)
    obtain rfl := Except.ok.inj (hq.symm.trans hp)
    exact hanswers
  obtain ⟨p, events, hrun, hbetween, -⟩ := hwatched a.size (Nat.le_refl _)
  have hp := hanswers a.size p (Nat.le_refl _) (hplain a.size p events hrun)
  refine ⟨p, hbetween, fun fuel hfuel => ?_⟩
  obtain ⟨q, events, hrun, -, hsafe⟩ := hwatched fuel hfuel
  have hq := hanswers fuel q hfuel (hplain fuel q events hrun)
  obtain rfl : p = q := Positions.ext fun e => (hp e).trans (hq e).symm
  exact ⟨hplain fuel p events hrun, events, hrun, hsafe⟩

/-- **Matching cannot fail.** For a compiled pattern, every path and all flags: a path has a last
segment, and the search for the end positions of the root, from the start of what is tried, comes to
positions in the text that give the verdict. It does so with any fuel from the number of nodes on,
so questions do not nest without end. All that it does is safe: it asks about nodes of the arena
from starts in the text, inside questions about later nodes only, and is answered by positions from
there to the end of the text; it matches runs of atoms from starts in the text, looks up nodes of the
arena only, takes the least position of rows that have one, and passes over the separator that was
compiled with the path wildcard in front of it. -/
theorem matchPath_safe (h : compile text = .ok a) (path : List CodePoint) (flags : Flags) :
    let t := Subject.ofText (subjectText path flags) flags.caseSensitive
    splitPath path ≠ [] ∧
    ∃ p, a.matchPath path flags = (decide (t.length ∈ p) != flags.inversive) ∧ Between t 0 p ∧
      ∀ fuel, a.size ≤ fuel →
        a.search (endsWithin a.nodes t fuel a.root 0) = .ok p ∧
        ∃ events, a.search (watchEnds a.nodes t fuel [] a.root 0).run = .ok (p, events) ∧
          ∀ e ∈ events, e.Safe a.nodes t := by
  intro t
  obtain ⟨p, hbetween, hsearch⟩ := compile_search_safe h t
  refine ⟨Text.splitWhere_ne_nil _ _, p, ?_, hbetween, hsearch⟩
  have haccepts : a.accepts t = decide (t.length ∈ p) := by
    have hp : a.search (a.ends t a.root 0) = .ok p := (hsearch a.size (Nat.le_refl _)).1
    rw [Arena.accepts, hp]
  show (if flags.inversive then !a.accepts t else a.accepts t) = _
  rw [haccepts]
  cases flags.inversive <;> simp

/-- `**/(!a)&*b` on any whole path, with a path wildcard, an inverted group and a connective. -/
theorem matchPath_safe_pathway :
    ∃ a, compile (pointsOf ['*', '*', '/', '(', '!', 'a', ')', '&', '*', 'b']) = .ok a ∧
      ∀ path, let t := Subject.ofText path false
        ∃ p, a.matchPath path ⟨4⟩ = decide (t.length ∈ p) ∧ Between t 0 p ∧
          ∃ events, a.search (watchEnds a.nodes t a.size [] a.root 0).run = .ok (p, events) ∧
            ∀ e ∈ events, e.Safe a.nodes t := by
  have h : ∃ a, compile (pointsOf ['*', '*', '/', '(', '!', 'a', ')', '&', '*', 'b']) = .ok a :=
    ⟨_, rfl⟩
  obtain ⟨a, h⟩ := h
  refine ⟨a, h, fun path => ?_⟩
  obtain ⟨-, p, hverdict, hbetween, hsearch⟩ := matchPath_safe h path ⟨4⟩
  exact ⟨p, hverdict.trans (Bool.bne_false _), hbetween, (hsearch a.size (Nat.le_refl _)).2⟩

/-- The search for `**/a` in `x/a`: behind the wildcard and its separator, the atom is matched from
the starts of both segments, the bits 0 and 2, and ends at the end of the text. -/
example :
    let a : Arena := ⟨#[.anyPath, .split .slash, .literal [.char 'a'], .sequence [0, 1, 2]], 3⟩
    let t := Subject.ofText (pointsOf ['x', '/', 'a']) false
    a.search (watchEnds a.nodes t a.size [] a.root 0).run = .ok (⟨8⟩,
      [.asked [] 3 0, .looked 0, .skipped 0 (some 1), .least ⟨1⟩, .looked 2, .looked 2,
        .matched [2] ⟨5⟩, .answered 3 0 ⟨8⟩]) := by
  cbv

end Compiled

end PathSieve.Pattern
