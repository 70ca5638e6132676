import Mathlib.Data.List.Forall2
import PathSieve.Proofs.Matching.Rows
import PathSieve.Proofs.Matching.Search

namespace PathSieve.Matching

open Pattern
open Text (CodePoint pointsOf)

/-!
# Pieces of a span

A run of literals, `?` and `*` accepts a span exactly if the span can be cut into consecutive pieces,
one for each atom and in their order. The rows of a run hold the same ends as a search that tries
every way to cut.

* `isAtom`, `StandsFor` — atoms, and the indices that stand for them.
* `atomTexts`, `piecewise` — the texts of an atom, and those that can be cut into pieces.
* `moves_atomStep`, `moves_segmentFrom` — an atom, and a run of atoms, takes a row to the ends of its
  spans.
* `backtrack` — how far a run can come by trying every way to cut.
* `segment_piecewise` — the ends of a run.
-/

/-! ### Atoms -/

/-- Nodes that are matched inside a run. -/
def isAtom : Node → Bool
  | .literal _ | .anyChar | .anyChars => true
  | _ => false

/-- The node at an index; a negative one counts from the end of the arena. -/
def nodeAt? (nodes : Array Node) (i : Int) : Option Node := (place? nodes.size i).bind (nodes[·]?)

theorem nodeAt?_natCast (nodes : Array Node) (i : Nat) : nodeAt? nodes i = nodes[i]? := by
  rw [nodeAt?, place?, if_pos (Int.natCast_nonneg i)]
  split
  · rfl
  · rename_i hi
    exact (Array.getElem?_eq_none (by omega)).symm

/-- An index stands for an atom of the arena. -/
def StandsFor (nodes : Array Node) (i : Int) (n : Node) : Prop :=
  nodeAt? nodes i = some n ∧ isAtom n = true

/-- The texts of an atom: those that equal a literal, exactly or by the case folds of their code
points, those of one code point that is no separator, or all those without separators. -/
def atomTexts (caseSensitive : Bool) : Node → Language CodePoint
  | .literal text => literalTexts caseSensitive text
  | .anyChar => oneOf (!isSeparator ·)
  | .anyChars => separatorFree
  | _ => 0

/-- The texts that can be cut into consecutive pieces, one for each of some atoms. -/
def piecewise (caseSensitive : Bool) (ns : List Node) : Language CodePoint :=
  {w | ∃ pieces, List.Forall₂ (fun n piece => piece ∈ atomTexts caseSensitive n) ns pieces ∧
    pieces.flatten = w}

theorem piecewise_nil (b : Bool) : piecewise b [] = 1 := by
  ext w
  rw [Language.mem_one]
  constructor
  · rintro ⟨pieces, hpieces, rfl⟩
    rw [List.forall₂_nil_left_iff.1 hpieces]
    rfl
  · rintro rfl
    exact ⟨[], .nil, rfl⟩

theorem piecewise_cons (b : Bool) (n : Node) (ns : List Node) :
    piecewise b (n :: ns) = atomTexts b n * piecewise b ns := by
  ext w
  rw [Language.mem_mul]
  constructor
  · rintro ⟨pieces, hpieces, rfl⟩
    obtain ⟨piece, rest, hpiece, hrest, rfl⟩ := List.forall₂_cons_left_iff.1 hpieces
    exact ⟨piece, hpiece, rest.flatten, ⟨rest, hrest, rfl⟩, rfl⟩
  · rintro ⟨piece, hpiece, -, ⟨rest, hrest, rfl⟩, rfl⟩
    exact ⟨piece :: rest, .cons hpiece hrest, rfl⟩

/-! ### Runs -/

section Runs

variable {nodes : Array Node} {t : Subject} {row : Positions}

theorem exists_atomStep {n : Node} (h : isAtom n = true) :
    ∃ next, atomStep t row n = .ok next := by
  cases n with
  | literal cs => exact ⟨_, rfl⟩
  | anyChar => exact ⟨_, rfl⟩
  | anyChars => exact ⟨_, rfl⟩
  | _ => cases h

/-- An atom takes a row to the ends of its spans. -/
theorem moves_atomStep {n : Node} {next : Positions} (h : atomStep t row n = .ok next)
    (hrow : Within t row) : Moves t (atomTexts t.caseSensitive n) row next := by
  cases n with
  | literal cs => exact Except.ok.inj h ▸ moves_afterLiteral cs hrow
  | anyChar => exact Except.ok.inj h ▸ moves_afterChar
  | anyChars => exact Except.ok.inj h ▸ moves_spread hrow
  | _ => cases h

/-- What a run of atoms comes to, by its first atom. -/
theorem segmentFrom_cons {next : Positions} {i : Int} {n : Node} (hn : nodeAt? nodes i = some n)
    (hstep : atomStep t row n = .ok next) (rest : List Int) :
    segmentFrom nodes t row (i :: rest) =
      if next.isEmpty then .ok next else segmentFrom nodes t next rest := by
  rw [nodeAt?] at hn
  rw [segmentFrom, hn]
  simp only [hstep]

/-- A run of atoms takes a row to the ends of its spans. -/
theorem moves_segmentFrom {atoms : List Int} {ns : List Node}
    (hatoms : List.Forall₂ (StandsFor nodes) atoms ns) (hrow : Within t row) :
    ∃ ends, segmentFrom nodes t row atoms = .ok ends ∧
      Moves t (piecewise t.caseSensitive ns) row ends := by
  induction hatoms generalizing row with
  | nil =>
    rw [piecewise_nil]
    exact ⟨row, rfl, moves_one hrow⟩
  | cons hi _ ih =>
    obtain ⟨next, hstep⟩ := exists_atomStep hi.2
    have hmoves := moves_atomStep hstep hrow
    rw [piecewise_cons, segmentFrom_cons hi.1 hstep]
    split
    · -- No position is left, and none comes back with the atoms behind.
      rename_i hempty
      exact ⟨next, rfl, hmoves.trans (moves_of_isEmpty _ hempty)⟩
    · obtain ⟨ends, hends, hrest⟩ := ih hmoves.within
      exact ⟨ends, hends, hmoves.trans hrest⟩

/-! ### Starts -/

/-- Starts in the text are taken as they are. -/
theorem mapM_place?_eq {n : Nat} {starts : List Int} (h : ∀ s ∈ starts, 0 ≤ s ∧ s ≤ n) :
    starts.mapM (place? (n + 1)) = some (starts.map Int.toNat) := by
  induction starts with
  | nil => rfl
  | cons s starts ih =>
    obtain ⟨⟨hnonneg, hle⟩, hrest⟩ := List.forall_mem_cons.1 h
    have hplace : place? (n + 1) s = some s.toNat := by
      rw [place?, if_pos hnonneg, if_pos (by omega)]
    rw [List.mapM_cons, hplace, ih hrest]
    rfl

/-- A run of atoms that begins in the text ends where its spans do. -/
theorem exists_segment {atoms : List Int} {ns : List Node}
    (hatoms : List.Forall₂ (StandsFor nodes) atoms ns) {starts : List Int}
    (hstarts : ∀ s ∈ starts, 0 ≤ s ∧ s ≤ t.length) :
    ∃ ends, segment nodes atoms t starts = .ok ends ∧ ∀ e, e ∈ ends ↔
      ∃ s : Nat, (s : Int) ∈ starts ∧ Spans t (piecewise t.caseSensitive ns) s e := by
  have hmem : ∀ s : Nat, s ∈ Positions.ofList (starts.map Int.toNat) ↔ (s : Int) ∈ starts := by
    intro s
    rw [Positions.mem_ofList, List.mem_map]
    constructor
    · rintro ⟨i, hi, rfl⟩
      rw [Int.toNat_of_nonneg (hstarts i hi).1]
      exact hi
    · exact fun hs => ⟨s, hs, Int.toNat_natCast s⟩
  have hrow : Within t (.ofList (starts.map Int.toNat)) := fun s hs => by
    exact_mod_cast (hstarts s ((hmem s).1 hs)).2
  obtain ⟨ends, hends, hmoves⟩ := moves_segmentFrom hatoms hrow
  refine ⟨ends, ?_, fun e => ?_⟩
  · rw [segment, mapM_place?_eq hstarts]
    exact hends
  · rw [hmoves e]
    exact exists_congr fun s => and_congr_left fun _ => hmem s

end Runs

/-! ### Backtracking -/

/-- Whether a text is one of an atom. -/
def fits (caseSensitive : Bool) : Node → List CodePoint → Bool
  | .literal text, piece =>
    if caseSensitive then piece = text else piece.map CodePoint.fold = text.map CodePoint.fold
  | .anyChar, [c] => !isSeparator c
  | .anyChars, piece => piece.all (!isSeparator ·)
  | _, _ => false

/-- How many code points of a text some atoms can take from its beginning: every length is tried for
the first atom, and the others go on behind it. -/
def backtrack (caseSensitive : Bool) : List Node → List CodePoint → List Nat
  | [], _ => [0]
  | n :: ns, text =>
    ((List.range (text.length + 1)).filter fun k => fits caseSensitive n (text.take k)).flatMap
      fun k => (backtrack caseSensitive ns (text.drop k)).map (k + ·)

theorem fits_iff {b : Bool} {n : Node} {piece : List CodePoint} :
    fits b n piece = true ↔ piece ∈ atomTexts b n := by
  cases n with
  | literal text =>
    cases b with
    | false => exact decide_eq_true_iff
    | true => exact decide_eq_true_iff
  | anyChar =>
    match piece with
    | [] => exact iff_of_false Bool.false_ne_true fun ⟨_, hpiece, _⟩ => by cases hpiece
    | [c] => exact ⟨fun h => ⟨c, rfl, h⟩, fun ⟨d, hpiece, hd⟩ => List.singleton_inj.1 hpiece ▸ hd⟩
    | _ :: _ :: _ => exact iff_of_false Bool.false_ne_true fun ⟨_, hpiece, _⟩ => by cases hpiece
  | anyChars =>
    show piece.all (!isSeparator ·) = true ↔ ∀ c ∈ piece, isSeparator c = false
    simp only [List.all_eq_true, Bool.not_eq_true']
  | _ => exact iff_of_false Bool.false_ne_true id

/-- Backtracking takes the beginnings of a text that can be cut into pieces. -/
theorem mem_backtrack {b : Bool} {ns : List Node} {text : List CodePoint} {k : Nat} :
    k ∈ backtrack b ns text ↔ k ≤ text.length ∧ text.take k ∈ piecewise b ns := by
  induction ns generalizing text k with
  | nil =>
    rw [backtrack, List.mem_singleton, piecewise_nil, Language.mem_one, List.take_eq_nil_iff]
    constructor
    · rintro rfl
      exact ⟨Nat.zero_le _, .inl rfl⟩
    · rintro ⟨hle, rfl | rfl⟩
      · rfl
      · exact Nat.le_zero.1 hle
  | cons n ns ih =>
    simp only [backtrack, List.mem_flatMap, List.mem_filter, List.mem_range, List.mem_map, ih,
      fits_iff, List.length_drop]
    rw [piecewise_cons, Language.mem_mul]
    constructor
    · rintro ⟨j, ⟨hj, hfirst⟩, m, ⟨hm, hrest⟩, rfl⟩
      exact ⟨by omega, _, hfirst, _, hrest, List.take_add.symm⟩
    · rintro ⟨hk, u, hu, v, hv, htake⟩
      -- The first piece tells where the text is cut.
      have hlength := congrArg List.length htake
      rw [List.length_append, List.length_take_of_le hk] at hlength
      have htext : text = u ++ (v ++ text.drop k) := by
        rw [← List.append_assoc, htake, List.take_append_drop]
      refine ⟨u.length, ⟨by omega, ?_⟩, v.length, ⟨by omega, ?_⟩, hlength⟩
      · rw [htext, List.take_left]
        exact hu
      · rw [htext, List.drop_left, List.take_left]
        exact hv

/-- Backtracking from a position of a text comes to the ends of its spans. -/
theorem exists_backtrack_iff {b : Bool} {ns : List Node} {text : List CodePoint} {s e : Nat}
    (hs : s ≤ text.length) :
    (∃ k ∈ backtrack b ns (text.drop s), s + k = e) ↔
      s ≤ e ∧ e ≤ text.length ∧ slice text s e ∈ piecewise b ns := by
  simp only [mem_backtrack, List.length_drop]
  constructor
  · rintro ⟨k, ⟨hk, hmem⟩, rfl⟩
    refine ⟨Nat.le_add_right .., by omega, ?_⟩
    rw [slice, Nat.add_sub_cancel_left]
    exact hmem
  · rintro ⟨hse, he, hmem⟩
    exact ⟨e - s, ⟨by omega, hmem⟩, by omega⟩

/-! ### Runs from several starts -/

/-- The union of the sets that are computed one by one. -/
theorem exists_mapM_union {ε α : Type} {f : α → Except ε Positions} {A : α → Nat → Prop}
    {xs : List α} (h : ∀ x ∈ xs, ∃ p, f x = .ok p ∧ ∀ e, e ∈ p ↔ A x e) :
    ∃ each, xs.mapM f = .ok each ∧ ∀ e, e ∈ unionOf each ↔ ∃ x ∈ xs, A x e := by
  simp only [mem_unionOf]
  induction xs with
  | nil => exact ⟨[], rfl, by simp⟩
  | cons x xs ih =>
    obtain ⟨⟨p, hp, hmem⟩, hrest⟩ := List.forall_mem_cons.1 h
    obtain ⟨each, heach, hall⟩ := ih hrest
    refine ⟨p :: each, ?_, fun e => ?_⟩
    · rw [List.mapM_cons, hp, heach]
      rfl
    · rw [List.exists_mem_cons_iff, List.exists_mem_cons_iff, hmem, hall]

/-- **Rows find what backtracking finds.** Take any arena, any indices of literals, `?` and `*` in
it, any text and any starts in the text. The run of these atoms succeeds, and it ends exactly where a
span ends that begins at one of the starts and can be cut into consecutive pieces, one for each atom
and in their order. These are the ends that trying every way to cut comes to, and those of all
starts together are the union of those of each. -/
theorem segment_piecewise {nodes : Array Node} {atoms : List Int} {ns : List Node}
    (hatoms : List.Forall₂ (StandsFor nodes) atoms ns) (text : List CodePoint)
    (caseSensitive : Bool) {starts : List Int} (hstarts : ∀ s ∈ starts, 0 ≤ s ∧ s ≤ text.length) :
    ∃ ends, segment nodes atoms (.ofText text caseSensitive) starts = .ok ends ∧
      (∀ e, e ∈ ends ↔ ∃ s : Nat, (s : Int) ∈ starts ∧ s ≤ e ∧ e ≤ text.length ∧
        slice text s e ∈ piecewise caseSensitive ns) ∧
      (∀ e, e ∈ ends ↔ ∃ s : Nat, (s : Int) ∈ starts ∧
        ∃ k ∈ backtrack caseSensitive ns (text.drop s), s + k = e) ∧
      ∃ each, starts.mapM (fun s => segment nodes atoms (.ofText text caseSensitive) [s]) =
        .ok each ∧ ends = unionOf each := by
  obtain ⟨ends, hends, hspans⟩ := exists_segment (t := .ofText text caseSensitive) hatoms hstarts
  refine ⟨ends, hends, hspans, fun e => ?_, ?_⟩
  · rw [hspans e]
    refine exists_congr fun s => and_congr_right fun hs => (exists_backtrack_iff ?_).symm
    exact_mod_cast (hstarts s hs).2
  · have hone : ∀ s ∈ starts, ∃ p, segment nodes atoms (.ofText text caseSensitive) [s] = .ok p ∧
        ∀ e, e ∈ p ↔ ∃ r : Nat, (r : Int) ∈ [s] ∧
          Spans (.ofText text caseSensitive) (piecewise caseSensitive ns) r e :=
      fun s hs => exists_segment hatoms (List.forall_mem_singleton.2 (hstarts s hs))
    obtain ⟨each, heach, hunion⟩ := exists_mapM_union hone
    refine ⟨each, heach, Positions.ext fun e => ?_⟩
    rw [hspans e, hunion e]
    constructor
    · rintro ⟨s, hs, hse⟩
      exact ⟨s, hs, s, List.mem_singleton_self _, hse⟩
    · rintro ⟨_, hs, r, hr, hre⟩
      exact ⟨r, List.mem_singleton.1 hr ▸ hs, hre⟩

/-- The run `*a?` on `AaB/ab` without regard to case: from the beginning it ends behind `Aa` and
behind `AaB`, from the separator nowhere, and behind it at the end. -/
theorem segment_piecewise_three_starts :
    ∃ ends, segment #[.anyChars, .literal (pointsOf ['a']), .anyChar] [0, 1, -1]
        (.ofText (pointsOf ['A', 'a', 'B', '/', 'a', 'b']) false) [0, 3, 4] = .ok ends ∧
      ∀ e, e ∈ ends ↔ e = 2 ∨ e = 3 ∨ e = 6 := by
  let text := pointsOf ['A', 'a', 'B', '/', 'a', 'b']
  let ns : List Node := [.anyChars, .literal (pointsOf ['a']), .anyChar]
  have hatoms : List.Forall₂ (StandsFor ns.toArray) [0, 1, -1] ns :=
    .cons ⟨rfl, rfl⟩ (.cons ⟨rfl, rfl⟩ (.cons ⟨rfl, rfl⟩ .nil))
  have hstarts : ∀ s ∈ ([0, 3, 4] : List Int), 0 ≤ s ∧ s ≤ text.length := by decide
  obtain ⟨ends, hends, -, hback, -⟩ := segment_piecewise hatoms text false hstarts
  refine ⟨ends, hends, fun e => ?_⟩
  have hzero : backtrack false ns (text.drop 0) = [2, 3] := by decide +kernel
  have hthree : backtrack false ns (text.drop 3) = [] := by decide +kernel
  have hfour : backtrack false ns (text.drop 4) = [2] := by decide +kernel
  have hstart : ∀ s : Nat, (s : Int) ∈ ([0, 3, 4] : List Int) ↔ s = 0 ∨ s = 3 ∨ s = 4 := by
    intro s
    simp only [List.mem_cons, List.not_mem_nil, or_false]
    omega
  rw [hback e]
  simp only [hstart, exists_eq_or_imp, exists_eq_left, hzero, hthree, hfour, List.mem_cons,
    List.not_mem_nil, or_false, false_and, exists_false, false_or]
  omega

end PathSieve.Matching
