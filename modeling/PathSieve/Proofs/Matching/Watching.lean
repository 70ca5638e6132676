import Mathlib.Control.Monad.Writer
import Mathlib.Data.List.TakeWhile
import PathSieve.Proofs.Matching.Ends

namespace PathSieve.Matching

open Pattern

/-!
# Watched searches

A search for end positions that also records what it does: which questions it asks inside which
others, which nodes it looks up, which positions it hands on. Sequences are walked the way a matcher
with loops walks them, a whole run of atoms at a time. Without its record, a watched search is the
search itself, answer by answer and stumble by stumble, on every arena and every text.

* `Event`, `Watch` — what is recorded, and a search with a record.
* `Watch.forget` — the search without its record.
* `watchSequence`, `watchShared`, `watchNode`, `watchEnds` — the watched search.
* `forget_watchEnds` — it is the same search.
-/

/-! ### Records -/

/-- What a search does. -/
inductive Event where
  /-- A node is asked for the ends of its spans from a start, inside questions about other nodes,
  the innermost of them first. -/
  | asked (outer : List Nat) (index start : Nat)
  /-- A question is answered. -/
  | answered (index start : Nat) (ends : Positions)
  /-- A node is looked up for its kind. -/
  | looked (index : Nat)
  /-- A run of atoms is matched from a row of starts. -/
  | matched (atoms : List Nat) (starts : Positions)
  /-- The item behind a path wildcard is passed over. -/
  | skipped (wildcard : Nat) (behind : Option Nat)
  /-- The least position of a row is taken. -/
  | least (row : Positions)
  /-- The text is looked up at the positions of a row that are not its end. -/
  | crossed (row : Positions)

/-- A search that records what it does; one that stumbles has no record. -/
abbrev Watch := WriterT (List Event) Search

namespace Watch

variable {α β : Type}

/-- Records what is done. -/
def note (es : List Event) : Watch PUnit := tell es

/-- A search without anything to record. -/
def plain (s : Search α) : Watch α := monadLift s

/-- A search without its record. -/
def forget (w : Watch α) : Search α := Prod.fst <$> w.run

theorem forget_pure (x : α) : (pure x : Watch α).forget = pure x := rfl

theorem forget_plain (s : Search α) : (plain s).forget = s := by
  simp [forget, plain]

theorem forget_note (es : List Event) : (note es).forget = pure ⟨⟩ := rfl

theorem forget_bind (w : Watch α) (f : α → Watch β) :
    (w >>= f).forget = w.forget >>= fun x => (f x).forget := by
  simp [forget]

theorem id_map (w : Watch α) : id <$> w = w := WriterT.ext _ _ (by simp)

theorem pure_bind (x : α) (f : α → Watch β) : pure x >>= f = f x := WriterT.ext _ _ (by simp)

theorem bind_assoc {γ : Type} (w : Watch α) (f : α → Watch β) (g : β → Watch γ) :
    w >>= f >>= g = w >>= fun x => f x >>= g := WriterT.ext _ _ (by simp)

theorem bind_pure_comp (f : α → β) (w : Watch α) : (w >>= fun x => pure (f x)) = f <$> w :=
  WriterT.ext _ _ (by simp)

instance : LawfulMonad Watch :=
  .mk' Watch id_map pure_bind bind_assoc (fun _ _ => rfl) (fun _ _ => rfl) (fun _ _ => rfl)
    bind_pure_comp

theorem forget_mapM {f : α → Watch β} {g : α → Search β} {xs : List α}
    (h : ∀ x ∈ xs, (f x).forget = g x) : (xs.mapM f).forget = xs.mapM g := by
  induction xs with
  | nil => rw [List.mapM_nil, List.mapM_nil, forget_pure]
  | cons x xs ih =>
    have hxs := ih fun y hy => h y (List.mem_cons_of_mem _ hy)
    rw [List.mapM_cons, List.mapM_cons, forget_bind, h x (List.mem_cons_self ..)]
    refine bind_congr fun y => ?_
    rw [forget_bind, hxs]
    rfl

end Watch

/-! ### One node -/

/-- An index of an atom. -/
def atomAt (nodes : Array Node) (i : Nat) : Bool := nodes[i]?.any isAtom

/-- The positions after a run of atoms; for its end, the item behind it is looked up as well. -/
def watchRun (nodes : Array Node) (t : Subject) (row : Positions) (run : List Nat)
    (behind : Option Nat) : Watch Positions := do
  Watch.note ((run ++ behind.toList).map .looked)
  Watch.note [.matched run row]
  Watch.plain (liftM (segmentFrom nodes t row (run.map Int.ofNat)))

/-- The positions after a node with parts, which is asked from every position of the row. -/
def watchParts (ends : Nat → Watch Positions) (row : Positions) : Watch Positions :=
  return unionOf (← row.toList.mapM ends)

/-- The positions after a sequence of items. A run of atoms is matched at once, and a path wildcard
is passed over together with the item behind it. -/
def watchSequence (nodes : Array Node) (t : Subject) (ends : Nat → Nat → Watch Positions)
    (row : Positions) : List Nat → Watch Positions
  | [] => return row
  | i :: rest =>
    if row.isEmpty then return row
    else do
      Watch.note [.looked i]
      match nodes[i]? with
      | none => throw .outOfRange
      | some .anyPath =>
        Watch.note [.skipped i rest.head?, .least row]
        watchSequence nodes t ends (t.anyPath row) rest.tail
      | some (.split _) =>
        Watch.note [.crossed row]
        watchSequence nodes t ends (t.afterSeparator row) rest
      | some n =>
        if isAtom n then
          let run := rest.takeWhile (atomAt nodes)
          let behind := rest.dropWhile (atomAt nodes)
          watchSequence nodes t ends (← watchRun nodes t row (i :: run) behind.head?) behind
        else watchSequence nodes t ends (← watchParts (ends i) row) rest
termination_by items => items.length
decreasing_by
  · simp only [List.length_tail, List.length_cons]; omega
  · simp
  · exact Nat.lt_succ_of_le (List.dropWhile_suffix (l := rest) (atomAt nodes)).length_le
  · simp

/-- The positions of a row that all operands reach. -/
def watchShared (ends : Nat → Watch Positions) (row : Positions) : List Nat → Watch Positions
  | [] => return row
  | i :: rest =>
    if row.isEmpty then return row
    else do watchShared ends (row.inter (← ends i)) rest

/-- The end positions of a node from one start, where `ends` knows those of its children. -/
def watchNode (nodes : Array Node) (t : Subject) (ends : Nat → Nat → Watch Positions)
    (index start : Nat) : Watch Positions :=
  match nodes[index]? with
  | none => throw .outOfRange
  | some (.sequence items) => watchSequence nodes t ends (.single start) items
  | some (.combine .conj []) => throw .outOfRange
  | some (.combine .conj (i :: rest)) => do watchShared (ends · start) (← ends i start) rest
  | some (.combine .disj operands) => return unionOf (← operands.mapM (ends · start))
  | some (.group child false _) => ends child start
  | some (.group child true multi) => return (reach t multi start).diff (← ends child start)
  | some _ => watchSequence nodes t ends (.single start) [index]

/-- The end positions of a node from one start, remembered or worked out, inside questions about
the nodes of `outer`. -/
def watchEnds (nodes : Array Node) (t : Subject) :
    (fuel : Nat) → (outer : List Nat) → (index start : Nat) → Watch Positions
  | 0, _, _, _ => throw .outOfRange
  | fuel + 1, outer, index, start => do
    Watch.note [.asked outer index start]
    let found ← match (← Watch.plain get).find? index start with
      | some s => pure s
      | none => do
        let s ← watchNode nodes t (watchEnds nodes t fuel (index :: outer)) index start
        Watch.plain (modify (·.insert index start s))
        pure s
    Watch.note [.answered index start found]
    return found

/-! ### The same search -/

section Forgetting

variable {nodes : Array Node} {t : Subject} {row : Positions}

variable {ends : Nat → Nat → Search Positions} {watched : Nat → Nat → Watch Positions}

/-- An atom that is an item is a run by itself. -/
theorem itemEnds_atom {i : Nat} (h : atomAt nodes i = true) :
    itemEnds nodes t ends row i = liftM (segmentFrom nodes t row [(i : Int)]) := by
  obtain ⟨n, hn, hatom⟩ := (Option.any_eq_true ..).1 h
  unfold itemEnds
  rw [hn]
  cases n with
  | literal => rfl
  | anyChar => rfl
  | anyChars => rfl
  | _ => cases hatom

theorem ne_anyPath_of_atomAt {i : Nat} (h : atomAt nodes i = true) :
    nodes[i]? ≠ some .anyPath := by
  intro hany
  rw [atomAt, hany] at h
  cases h

theorem liftM_ok {α : Type} (x : α) : (liftM (.ok x : Except SegmentError α) : Search α) = pure x :=
  rfl

/-- A run of atoms may be matched one atom after the other. -/
theorem sequenceEnds_run {run : List Nat} (hrun : ∀ i ∈ run, atomAt nodes i = true)
    (behind : List Nat) (hrow : row.isEmpty = false) :
    sequenceEnds nodes t ends row (run ++ behind) = (do
      let next ← (liftM (segmentFrom nodes t row (run.map Int.ofNat)) : Search Positions)
      sequenceEnds nodes t ends next behind) := by
  induction run generalizing row with
  | nil => rw [List.map_nil, segmentFrom, liftM_ok, pure_bind, List.nil_append]
  | cons i run ih =>
    obtain ⟨hi, hrest⟩ := List.forall_mem_cons.1 hrun
    obtain ⟨n, hn, hatom⟩ := (Option.any_eq_true ..).1 hi
    obtain ⟨next, hnext⟩ := exists_atomStep hatom
    have hi' := (nodeAt?_natCast nodes i).trans hn
    rw [List.cons_append, sequenceEnds_cons (ne_anyPath_of_atomAt hi) hrow, itemEnds_atom hi,
      List.map_cons, Int.ofNat_eq_natCast, segmentFrom_cons hi' hnext, segmentFrom_cons hi' hnext]
    split
    · -- Without positions the run ends, and so does the sequence.
      rename_i hempty
      rw [liftM_ok, pure_bind, pure_bind, sequenceEnds_of_isEmpty hempty,
        sequenceEnds_of_isEmpty hempty]
    · rename_i hempty
      rw [segmentFrom, liftM_ok, pure_bind, ih hrest (Bool.not_eq_true _ ▸ hempty)]

/-- A path wildcard takes the item behind it along, if there is one. -/
theorem sequenceEnds_wildcard {i : Nat} (h : nodes[i]? = some .anyPath)
    (hrow : row.isEmpty = false) (rest : List Nat) :
    sequenceEnds nodes t ends row (i :: rest) =
      sequenceEnds nodes t ends (t.anyPath row) rest.tail := by
  cases rest with
  | nil =>
    rw [sequenceEnds, hrow, if_neg Bool.false_ne_true, itemEnds, h]
    rfl
  | cons j rest => exact sequenceEnds_anyPath h hrow j rest

theorem forget_watchRun (run : List Nat) (behind : Option Nat) :
    (watchRun nodes t row run behind).forget =
      liftM (segmentFrom nodes t row (run.map Int.ofNat)) := by
  rw [watchRun, Watch.forget_bind, Watch.forget_note, pure_bind, Watch.forget_bind,
    Watch.forget_note, pure_bind, Watch.forget_plain]

theorem forget_watchParts {i : Nat} (h : ∀ s, (watched i s).forget = ends i s) :
    (watchParts (watched i) row).forget = (do return unionOf (← row.toList.mapM (ends i))) := by
  rw [watchParts, Watch.forget_bind, Watch.forget_mapM fun s _ => h s]
  rfl

/-- Atoms at the head of a sequence are matched together up to the first item that is none. -/
theorem forget_atoms {i : Nat} (hi : atomAt nodes i = true) (hrow : row.isEmpty = false)
    {run behind rest : List Nat} (hrun : rest.takeWhile (atomAt nodes) = run)
    (hbehind : rest.dropWhile (atomAt nodes) = behind) {f : Positions → Watch Positions}
    (hf : ∀ next, (f next).forget = sequenceEnds nodes t ends next behind) :
    (watchRun nodes t row (i :: run) behind.head? >>= f).forget =
      sequenceEnds nodes t ends row (i :: rest) := by
  have hall : ∀ j ∈ i :: run, atomAt nodes j = true :=
    List.forall_mem_cons.2 ⟨hi, fun j hj => List.mem_takeWhile_imp (hrun.symm ▸ hj)⟩
  have hsplit : i :: rest = i :: run ++ behind := by
    rw [← hrun, ← hbehind, List.cons_append, List.takeWhile_append_dropWhile]
  rw [hsplit, sequenceEnds_run hall behind hrow, Watch.forget_bind, forget_watchRun]
  exact bind_congr hf

/-- A node with parts at the head of a sequence is asked from every position. -/
theorem forget_parts {i : Nat} {n : Node} (hn : nodes[i]? = some n) (hleaf : n.isLeaf = false)
    (hrow : row.isEmpty = false) (h : ∀ s, (watched i s).forget = ends i s) {rest : List Nat}
    {f : Positions → Watch Positions}
    (hf : ∀ next, (f next).forget = sequenceEnds nodes t ends next rest) :
    (watchParts (watched i) row >>= f).forget = sequenceEnds nodes t ends row (i :: rest) := by
  have hany : nodes[i]? ≠ some .anyPath := by
    rw [hn]
    rintro ⟨⟩
    cases hleaf
  have hitem : itemEnds nodes t ends row i = (do
      return unionOf (← row.toList.mapM (ends i))) := by
    rw [itemEnds, hn]
    cases n with
    | sequence => rfl
    | combine => rfl
    | group => rfl
    | _ => cases hleaf
  rw [sequenceEnds_cons hany hrow, hitem, Watch.forget_bind, forget_watchParts h]
  exact bind_congr hf

/-- Sequences are walked alike, by runs and one item after the other. -/
theorem forget_watchSequence (h : ∀ i s, (watched i s).forget = ends i s) (items : List Nat) :
    (watchSequence nodes t watched row items).forget = sequenceEnds nodes t ends row items := by
  fun_induction watchSequence nodes t watched row items with
  | case1 => rfl
  | case2 row i rest hempty => rw [sequenceEnds_of_isEmpty hempty, Watch.forget_pure]
  | case3 row i rest hrow ihtail ihsplit ihrun ihnext =>
    have hrow : row.isEmpty = false := Bool.not_eq_true _ ▸ hrow
    rw [Watch.forget_bind, Watch.forget_note, pure_bind]
    cases hn : nodes[i]? with
    | none =>
      rw [sequenceEnds_cons (by simp [hn]) hrow, itemEnds, hn]
      rfl
    | some n =>
      cases n with
      | anyPath =>
        rw [sequenceEnds_wildcard hn hrow, ← ihtail, Watch.forget_bind, Watch.forget_note]
        rfl
      | split s =>
        rw [sequenceEnds_cons (by simp [hn]) hrow, itemEnds, hn]
        simp only [Watch.forget_bind, Watch.forget_note, pure_bind, ihsplit]
      | literal text => exact forget_atoms (by simp [atomAt, hn, isAtom]) hrow rfl rfl ihrun
      | anyChar => exact forget_atoms (by simp [atomAt, hn, isAtom]) hrow rfl rfl ihrun
      | anyChars => exact forget_atoms (by simp [atomAt, hn, isAtom]) hrow rfl rfl ihrun
      | sequence items => exact forget_parts hn rfl hrow (h i) ihnext
      | combine op operands => exact forget_parts hn rfl hrow (h i) ihnext
      | group child inverted multi => exact forget_parts hn rfl hrow (h i) ihnext

theorem forget_watchShared {watched : Nat → Watch Positions} {ends : Nat → Search Positions}
    (h : ∀ i, (watched i).forget = ends i) (operands : List Nat) :
    (watchShared watched row operands).forget = sharedEnds ends row operands := by
  induction operands generalizing row with
  | nil => rfl
  | cons i rest ih =>
    rw [watchShared, sharedEnds]
    split
    · rfl
    · rw [Watch.forget_bind, h]
      exact bind_congr fun other => ih

theorem forget_watchNode (h : ∀ i s, (watched i s).forget = ends i s) (index start : Nat) :
    (watchNode nodes t watched index start).forget = nodeEnds nodes t ends index start := by
  unfold watchNode nodeEnds
  cases nodes[index]? with
  | none => rfl
  | some n =>
    cases n with
    | sequence items => exact forget_watchSequence h items
    | combine op operands =>
      cases op with
      | conj =>
        cases operands with
        | nil => rfl
        | cons i rest =>
          simp only [Watch.forget_bind, h]
          exact bind_congr fun row => forget_watchShared (fun i => h i start) rest
      | disj =>
        simp only [Watch.forget_bind, Watch.forget_mapM fun i _ => h i start]
        rfl
    | group child inverted multi =>
      cases inverted with
      | false => exact h child start
      | true =>
        simp only [Watch.forget_bind, h]
        rfl
    | _ => exact forget_watchSequence h [index]

/-- **A watched search is the search.** On any arena and any text, from any start and with any fuel,
a watched search without its record comes to what the search itself comes to. -/
theorem forget_watchEnds (nodes : Array Node) (t : Subject) (fuel : Nat) (outer : List Nat)
    (index start : Nat) :
    (watchEnds nodes t fuel outer index start).forget = endsWithin nodes t fuel index start := by
  induction fuel generalizing outer index start with
  | zero => rfl
  | succ fuel ih =>
    rw [watchEnds, endsWithin, Watch.forget_bind, Watch.forget_note, pure_bind]
    simp only [Watch.forget_bind, Watch.forget_plain]
    refine bind_congr fun m => ?_
    cases m.find? index start with
    | some s => rfl
    | none =>
      have hnode :
          (watchNode nodes t (watchEnds nodes t fuel (index :: outer)) index start).forget =
            nodeEnds nodes t (endsWithin nodes t fuel) index start :=
        forget_watchNode (ih (index :: outer)) index start
      simp only [Watch.forget_bind, hnode]
      rfl

end Forgetting

end PathSieve.Matching
