namespace PathSieve.Text

/-!
# Code points

A text that is put together from codes may hold surrogates, which are halves of characters and no
characters on their own. Such a text is a list of code points.

* `CodePoint.ofNat?` — the code point of a code.
* `wellFormed?` — the characters of a list of code points, if all of them are characters.
* `shownPoints` — a list of code points as a text, with a mark for every surrogate.
-/

/-- A character, or a surrogate given by its distance from the first one. -/
inductive CodePoint where
  | char (c : Char)
  | surrogate (n : Fin 0x800)
  deriving DecidableEq, Repr

/-- The code of the first surrogate. -/
def firstSurrogate : Nat := 0xd800

namespace CodePoint

/-- The code of a code point. -/
def code : CodePoint → Nat
  | .char c => c.toNat
  | .surrogate n => firstSurrogate + n

/-- The code point of a code. -/
def ofNat? (n : Nat) : Option CodePoint :=
  if n.isValidChar then some (.char (Char.ofNat n))
  else if h : firstSurrogate ≤ n ∧ n - firstSurrogate < 0x800 then
    some (.surrogate ⟨n - firstSurrogate, h.2⟩)
  else none

/-- Every code up to the greatest is that of a code point. -/
theorem ofNat?_isSome {n : Nat} (h : n ≤ 0x10ffff) : (ofNat? n).isSome := by
  unfold ofNat?
  split
  · rfl
  · rename_i hv
    have : firstSurrogate ≤ n ∧ n - firstSurrogate < 0x800 := by
      simp only [Nat.isValidChar, firstSurrogate] at hv ⊢; omega
    rw [dif_pos this]; rfl

/-- A code point has the code that it was made from. -/
theorem code_of_ofNat? {n : Nat} {p : CodePoint} (h : ofNat? n = some p) : p.code = n := by
  unfold ofNat? at h
  split at h
  · rename_i hv
    cases h
    rw [code, Char.ofNat, dif_pos hv]
    rfl
  · split at h
    · rename_i hn
      cases h
      exact Nat.add_sub_cancel' hn.1
    · cases h

/-- The character that a code point is. -/
def char? : CodePoint → Option Char
  | .char c => some c
  | .surrogate _ => none

/-- The character of a code point, or `c` in place of a surrogate. -/
def charOr (c : Char) (p : CodePoint) : Char := p.char?.getD c

end CodePoint

/-- The code points of a text. -/
def pointsOf (cs : List Char) : List CodePoint := cs.map .char

/-- The characters of a list of code points without surrogates. -/
def wellFormed? (ps : List CodePoint) : Option (List Char) := ps.mapM CodePoint.char?

@[simp] theorem wellFormed?_pointsOf (cs : List Char) : wellFormed? (pointsOf cs) = some cs := by
  induction cs with
  | nil => rfl
  | cons c cs ih => simp_all [wellFormed?, pointsOf, CodePoint.char?]

/-- The mark for a character that cannot be shown. -/
def replacementMark : Char := Char.ofNat 0xfffd

/-- A list of code points as a text, with a mark for every surrogate. -/
def shownPoints (ps : List CodePoint) : String := String.ofList (ps.map (·.charOr replacementMark))

@[simp] theorem shownPoints_pointsOf (cs : List Char) :
    shownPoints (pointsOf cs) = String.ofList cs := by
  simp [shownPoints, pointsOf, Function.comp_def, CodePoint.charOr, CodePoint.char?]

end PathSieve.Text
