import PathSieve.Text.CodePoint

namespace PathSieve.Text

/-!
# Stand-ins

Where only characters can be held, each surrogate of a text is held by a stand-in: a character that
the text does not use.

* `standIns ps` — the surrogates of a text with their stand-ins.
* `StandIns.encode`, `StandIns.decode` — the text with stand-ins, and back.
-/

/-- Surrogates with their stand-ins. -/
abbrev StandIns := List (Fin 0x800 × Char)

/-- The code of the first character that is tried as a stand-in; it is for private use, as are
those that follow. -/
def firstStandIn : Nat := 0xf0000

/-- The first `n` characters for private use that are not in a text. -/
def unusedChars (used : List Char) (n : Nat) : List Char :=
  (((List.range (used.length + n)).map fun i => Char.ofNat (firstStandIn + i)).filter
    (· ∉ used)).take n

/-- The surrogate that a code point is. -/
def CodePoint.surrogate? : CodePoint → Option (Fin 0x800)
  | .char _ => none
  | .surrogate n => some n

/-- The surrogates of a text with their stand-ins. -/
def standIns (ps : List CodePoint) : StandIns :=
  let halves := (ps.filterMap CodePoint.surrogate?).eraseDups
  halves.zip (unusedChars (ps.filterMap CodePoint.char?) halves.length)

@[simp] theorem standIns_pointsOf (cs : List Char) : standIns (pointsOf cs) = [] := by
  have h : (pointsOf cs).filterMap CodePoint.surrogate? = [] := by
    simp [pointsOf, List.filterMap_map, Function.comp_def, CodePoint.surrogate?]
  simp [standIns, h]

namespace StandIns

/-- The character that holds a code point. -/
def encodePoint (t : StandIns) : CodePoint → Char
  | .char c => c
  | .surrogate n => (t.lookup n).getD replacementMark

/-- The code point that a character holds. -/
def decodeChar (t : StandIns) (c : Char) : CodePoint :=
  match t.find? (·.2 = c) with
  | some (n, _) => .surrogate n
  | none => .char c

/-- A text with stand-ins for its surrogates. -/
def encode (t : StandIns) (ps : List CodePoint) : String := String.ofList (ps.map t.encodePoint)

/-- The text that is held with stand-ins. -/
def decode (t : StandIns) (s : String) : List CodePoint := s.toList.map t.decodeChar

@[simp] theorem encode_nil (cs : List Char) : encode [] (pointsOf cs) = String.ofList cs := by
  simp [encode, pointsOf, Function.comp_def, encodePoint]

@[simp] theorem decode_nil (s : String) : decode [] s = pointsOf s.toList := by
  simp [decode, pointsOf, decodeChar]

end StandIns

end PathSieve.Text
