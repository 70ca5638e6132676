import PathSieve.Matching.Positions
import PathSieve.Pattern.Lexeme
import PathSieve.Text.CaseFold

namespace PathSieve.Matching

open Pattern (isSeparator)
open Text (CodePoint)

/-!
# Candidate text

The text that a pattern is tried on, and how each leaf of a pattern moves a set of positions in
it. Code points are compared by case fold unless case matters. Where those of each kind stand is
found once and kept as sets of positions, so that a leaf moves all positions at once.

* `Subject.ofText` — the candidate of a text.
* `Subject.afterLiteral`, `Subject.afterChar`, `Subject.afterSeparator` — the positions after a
  leaf of known length.
* `Subject.spread` — the positions reached over code points other than separators.
* `Subject.anyPath` — the positions reached over whole leading segments.
-/

/-! ### Places -/

/-- The places of an array where an item satisfies `q`. -/
def places {α : Type} (items : Array α) (q : α → Bool) : Positions :=
  .select items.size fun p => items[p]?.any q

theorem mem_places {α : Type} {items : Array α} {q : α → Bool} {p : Nat} :
    p ∈ places items q ↔ ∃ a, items[p]? = some a ∧ q a := by
  rw [places, Positions.mem_select, Option.any_eq_true]
  exact and_iff_right_of_imp fun ⟨_, h, _⟩ => (Array.getElem?_eq_some_iff.1 h).1

/-- What a code point is compared by. -/
def comparisonKey (caseSensitive : Bool) (c : CodePoint) : List CodePoint :=
  if caseSensitive then [c] else c.fold

/-- The places of each key in a list of keys. -/
def placesByKey (keys : List (List CodePoint)) : List (List CodePoint × Thunk Positions) :=
  let items := keys.toArray
  keys.eraseDups.map fun k => (k, Thunk.mk fun _ => places items (· = k))

/-- A look-up in a table of the values of a function at some keys. -/
theorem lookup_map_self {α β : Type} [BEq α] [LawfulBEq α] (f : α → β) (k : α) (ks : List α) :
    (ks.map fun a => (a, f a)).lookup k = if k ∈ ks then some (f k) else none := by
  induction ks with
  | nil => rfl
  | cons a ks ih =>
    rw [List.map_cons, List.lookup_cons, ih]
    by_cases h : k = a
    · simp [h]
    · simp [h, beq_false_of_ne h]

theorem lookup_placesByKey (keys : List (List CodePoint)) (k : List CodePoint) :
    ((placesByKey keys).lookup k).elim .empty Thunk.get = places keys.toArray (· = k) := by
  simp only [placesByKey, lookup_map_self, List.mem_eraseDups]
  split
  · rfl
  · refine Positions.ext fun p => ?_
    simp only [Option.elim_none, Positions.not_mem_empty, mem_places, false_iff]
    rintro ⟨a, ha, hk⟩
    simp only [List.getElem?_toArray, decide_eq_true_eq] at ha hk
    exact absurd (List.mem_of_getElem? (hk ▸ ha)) ‹_›

/-! ### Subjects -/

/-- A candidate text, whether the case of its letters matters, and where its code points stand:
those that are no separators, the separators, and those with each key. -/
structure Subject where
  text : Array CodePoint
  caseSensitive : Bool
  plain : Positions
  separators : Positions
  marks : List (List CodePoint × Thunk Positions)
  plain_eq : plain = places text (!isSeparator ·)
  separators_eq : separators = places text isSeparator
  marks_eq : marks = placesByKey (text.toList.map (comparisonKey caseSensitive))

namespace Subject

/-- The candidate of a text. -/
def ofText (text : List CodePoint) (caseSensitive : Bool) : Subject where
  text := text.toArray
  caseSensitive
  plain := _
  separators := _
  marks := _
  plain_eq := rfl
  separators_eq := rfl
  marks_eq := rfl

@[simp] theorem text_ofText (cs : List CodePoint) (b : Bool) :
    (ofText cs b).text = cs.toArray := rfl

@[simp] theorem caseSensitive_ofText (cs : List CodePoint) (b : Bool) :
    (ofText cs b).caseSensitive = b := rfl

/-- The number of code points. -/
def length (t : Subject) : Nat := t.text.size

/-- What a code point is compared by. -/
def key (t : Subject) (c : CodePoint) : List CodePoint := comparisonKey t.caseSensitive c

@[simp] theorem mem_plain {t : Subject} {p : Nat} :
    p ∈ t.plain ↔ ∃ c, t.text[p]? = some c ∧ isSeparator c = false := by
  simp [t.plain_eq, mem_places]

@[simp] theorem mem_separators {t : Subject} {p : Nat} :
    p ∈ t.separators ↔ ∃ c, t.text[p]? = some c ∧ isSeparator c := by
  simp [t.separators_eq, mem_places]

/-- The positions of the code points with a key. -/
def mark (t : Subject) (k : List CodePoint) : Positions := (t.marks.lookup k).elim .empty Thunk.get

theorem mem_mark {t : Subject} {k : List CodePoint} {p : Nat} :
    p ∈ t.mark k ↔ ∃ c, t.text[p]? = some c ∧ t.key c = k := by
  simp [mark, t.marks_eq, lookup_placesByKey, mem_places, key]

/-- A literal stands at position `p`. -/
def Occurs (t : Subject) (p : Nat) : List CodePoint → Prop
  | [] => True
  | c :: cs => (∃ d, t.text[p]? = some d ∧ t.key d = t.key c) ∧ t.Occurs (p + 1) cs

/-! ### Steps -/

/-- The positions after a code point that equals `c`. -/
def afterLetter (t : Subject) (row : Positions) (c : CodePoint) : Positions :=
  (row.inter (t.mark (t.key c))).shift 1

/-- The positions after a literal. -/
def afterLiteral (t : Subject) (cs : List CodePoint) (row : Positions) : Positions :=
  cs.foldl t.afterLetter row

theorem mem_afterLetter {t : Subject} {row : Positions} {c : CodePoint} {p : Nat} :
    p + 1 ∈ t.afterLetter row c ↔ p ∈ row ∧ ∃ d, t.text[p]? = some d ∧ t.key d = t.key c := by
  simp [afterLetter, mem_mark]

theorem mem_afterLiteral {t : Subject} {cs : List CodePoint} {row : Positions} {p : Nat} :
    p + cs.length ∈ t.afterLiteral cs row ↔ p ∈ row ∧ t.Occurs p cs := by
  induction cs generalizing row p with
  | nil => simp [afterLiteral, Occurs]
  | cons c cs ih =>
    have h : p + (c :: cs).length = p + 1 + cs.length := by simp only [List.length_cons]; omega
    rw [h]
    exact (@ih (t.afterLetter row c) (p + 1)).trans (by rw [mem_afterLetter, Occurs, and_assoc])

/-- The positions after one code point that is no separator. -/
def afterChar (t : Subject) (row : Positions) : Positions := (row.inter t.plain).shift 1

/-- The positions after a separator. -/
def afterSeparator (t : Subject) (row : Positions) : Positions := (row.inter t.separators).shift 1

/-- The positions after any number of code points that are no separators. -/
def spread (t : Subject) (row : Positions) : Positions := row.spread t.plain

theorem mem_afterChar {t : Subject} {row : Positions} {p : Nat} :
    p + 1 ∈ t.afterChar row ↔ p ∈ row ∧ p ∈ t.plain := by simp [afterChar]

theorem mem_afterSeparator {t : Subject} {row : Positions} {p : Nat} :
    p + 1 ∈ t.afterSeparator row ↔ p ∈ row ∧ p ∈ t.separators := by simp [afterSeparator]

theorem mem_spread {t : Subject} {row : Positions} {p : Nat} :
    p ∈ t.spread row ↔ ∃ q ∈ row, q ≤ p ∧ ∀ r, q ≤ r → r < p → r ∈ t.plain :=
  Positions.mem_spread

/-- The separators from `p` on. -/
def separatorsFrom (t : Subject) (p : Nat) : Positions :=
  (Positions.interval p t.length).inter t.separators

theorem mem_separatorsFrom {t : Subject} {p q : Nat} :
    q ∈ t.separatorsFrom p ↔ p ≤ q ∧ q ∈ t.separators := by
  rw [separatorsFrom, Positions.mem_inter, Positions.mem_interval, and_assoc, and_congr_right_iff]
  refine fun _ => and_iff_right_of_imp fun h => ?_
  obtain ⟨_, h, _⟩ := mem_separators.1 h
  exact Nat.le_of_lt (Array.getElem?_eq_some_iff.1 h).1

/-- The positions themselves and every position after a separator from the least of them on. -/
def anyPath (t : Subject) (row : Positions) : Positions :=
  match row.least? with
  | none => row
  | some p => row.union ((t.separatorsFrom p).shift 1)

/-- The position of the first separator from `p` on, or the end of the text. -/
def segmentEnd (t : Subject) (p : Nat) : Nat := (t.separatorsFrom p).least?.getD t.length

end Subject

end PathSieve.Matching
