import PathSieve.Text.CodePoint
import PathSieve.Yaml.Cursor
import PathSieve.Yaml.Fault

namespace PathSieve.Yaml

open Text (CodePoint pointsOf)

/-!
# Text of scalars

A scalar is written plainly or between quotes, and may go on over several lines: a line end
becomes a space, unless empty lines follow, which stay.

* `plainText` — the text of a plain scalar.
* `singleQuoted`, `doubleQuoted` — the text between quotes, with the number of characters read. A
  code between double quotes may be that of a surrogate, which stays as it is.
-/

/-! ### Line ends inside scalars -/

/-- The text of a line end that is followed by the given empty lines. -/
def foldedBreak (first : Char) (breaks : List Char) : List Char :=
  if breakText first ≠ '\n' then breakText first :: breaks
  else if breaks.isEmpty then [' '] else breaks

/-- Puts a line end in front of those that follow and counts its character. -/
def consBreak (c : Char) (r : List Char × Nat) : List Char × Nat := (breakText c :: r.1, r.2 + 1)

/-- Counts one more character. -/
def countOne (r : List Char × Nat) : List Char × Nat := (r.1, r.2 + 1)

/-! ### Plain scalars -/

/-- Whether a plain scalar cannot go on with `c`, where `ahead` comes after it. -/
def stopsPlain (inFlow : Bool) (c : Char) (ahead : List Char) : Bool :=
  isSpaceOrTab c || isBreak c ||
    (c = ':' &&
      (endsWord ahead || (inFlow && ahead.head?.any (· ∈ [',', '[', ']', '\x7b', '\x7d']))))
    || (inFlow && c ∈ [',', '?', '[', ']', '\x7b', '\x7d'])

/-- The piece of a plain scalar up to the next gap. -/
def plainPiece (inFlow : Bool) : List Char → List Char
  | [] => []
  | c :: cs => if stopsPlain inFlow c cs then [] else c :: plainPiece inFlow cs

/-- The empty lines in a gap and the characters up to the next text; a marker between documents
ends the scalar. -/
def plainBreaks (lineStart : Bool) : List Char → Option (List Char × Nat)
  | [] => some ([], 0)
  | c :: cs =>
    if lineStart && startsMarker (c :: cs) then none
    else if c = ' ' then (plainBreaks false cs).map countOne
    else if isBreak c then (plainBreaks true cs).map (consBreak c)
    else some ([], 0)

/-- A gap in a plain scalar: its text, the number of its characters, and whether it holds a line
end. -/
structure Gap where
  text : List Char
  width : Nat
  overLine : Bool
  deriving Repr

/-- The gap that starts here; before a marker between documents it has no text. -/
def plainGap (cs : List Char) : Gap :=
  let spaces := cs.takeWhile (· = ' ')
  match cs.drop spaces.length with
  | [] => ⟨spaces, spaces.length, false⟩
  | c :: rest =>
    if isBreak c then
      match plainBreaks true rest with
      | none => ⟨[], spaces.length + 1, true⟩
      | some (breaks, n) => ⟨foldedBreak c breaks, spaces.length + 1 + n, true⟩
    else ⟨spaces, spaces.length, false⟩

/-- The text of a plain scalar, the place after it, and whether its last gap holds a line end.
Outside of flow collections it ends at a line that is indented less than `indent`; `pending` is
the text of the gap before the next piece, and `fuel` bounds the number of pieces. -/
def plainText (inFlow : Bool) (indent : Int) : Nat → Cursor → List Char →
    List Char × Cursor × Bool
  | 0, c, _ => ([], c, false)
  | fuel + 1, c, pending =>
    let piece := plainPiece inFlow c.rest
    let c' := c.advance piece.length
    let gap := plainGap c'.rest
    let after := c'.advance gap.width
    let done := gap.text.isEmpty || after.rest.head? = some '#' ||
      (!inFlow && (after.column : Int) < indent) || (plainPiece inFlow after.rest).isEmpty
    if done then (pending ++ piece, after, gap.overLine)
    else
      let (more, final, overLine) := plainText inFlow indent fuel after gap.text
      (pending ++ piece ++ more, final, overLine)

/-! ### Quoted scalars -/

/-- The empty lines after a line end between quotes, and the characters up to the next text; a
marker between documents is refused. -/
def quotedBreaks (lineStart : Bool) : List Char → Option (List Char × Nat)
  | [] => some ([], 0)
  | c :: cs =>
    if lineStart && startsMarker (c :: cs) then none
    else if isSpaceOrTab c then (quotedBreaks false cs).map countOne
    else if isBreak c then (quotedBreaks true cs).map (consBreak c)
    else some ([], 0)

/-- The text and the width of a gap between quotes that starts here; the quotes must still be
closed after it. -/
def quotedGap (cs : List Char) : Option (List Char × Nat) :=
  let blanks := cs.takeWhile isSpaceOrTab
  match cs.drop blanks.length with
  | [] => none
  | c :: rest =>
    if isBreak c then
      (quotedBreaks true rest).map fun (breaks, n) => (foldedBreak c breaks, blanks.length + 1 + n)
    else some (blanks, blanks.length)

/-- Adds text in front of the text that follows and counts `n` characters. -/
def before (text : List CodePoint) (n : Nat) (r : List CodePoint × Nat) : List CodePoint × Nat :=
  (text ++ r.1, r.2 + n)

/-- The text up to the closing apostrophe, and the number of characters read with it; `fuel` bounds
the number of pieces. -/
def singleQuoted : Nat → List Char → Reading (List CodePoint × Nat)
  | 0, _ => .error .malformed
  | _, [] => .error .malformed
  | fuel + 1, c :: cs =>
    if c = '\x27' then
      match cs with
      | d :: rest =>
        if d = '\x27' then (singleQuoted fuel rest).map (before [.char '\x27'] 2) else .ok ([], 1)
      | [] => .ok ([], 1)
    else if isSpaceOrTab c || isBreak c then do
      let (text, n) ← ofOption (quotedGap (c :: cs))
      (singleQuoted fuel ((c :: cs).drop n)).map (before (pointsOf text) n)
    else (singleQuoted fuel cs).map (before [.char c] 1)

/-- The character of a one-letter escape. -/
def escapeLetter? (c : Char) : Option Char :=
  match c with
  | '0' => some '\x00'
  | 'a' => some '\x07'
  | 'b' => some '\x08'
  | 't' | '\t' => some '\t'
  | 'n' => some '\n'
  | 'v' => some '\x0b'
  | 'f' => some '\x0c'
  | 'r' => some '\r'
  | 'e' => some '\x1b'
  | ' ' => some ' '
  | '\x22' => some '\x22'
  | '\\' => some '\\'
  | '/' => some '/'
  | 'N' => some (Char.ofNat 0x85)
  | '_' => some (Char.ofNat 0xa0)
  | 'L' => some (Char.ofNat 0x2028)
  | 'P' => some (Char.ofNat 0x2029)
  | _ => none

/-- The number of hexadecimal digits of a numeric escape. -/
def escapeWidth? (c : Char) : Option Nat :=
  match c with
  | 'x' => some 2
  | 'u' => some 4
  | 'U' => some 8
  | _ => none

/-- The code point of a numeric escape with the given digits. -/
def codedPoint (width : Nat) (digits : List Char) : Reading CodePoint :=
  if digits.length ≠ width then .error .malformed
  else match digits.mapM hexValue? with
    | none => .error .malformed
    | some ns =>
      let n := ns.foldl (fun m d => m * 16 + d) 0
      match CodePoint.ofNat? n with
      | some p => .ok p
      | none => .error (.noCharacter n)

/-- The text and the width of an escape, where the list starts after the backslash. -/
def escape : List Char → Reading (List CodePoint × Nat)
  | [] => .error .malformed
  | c :: cs =>
    match escapeLetter? c with
    | some x => .ok ([.char x], 1)
    | none => match escapeWidth? c with
      | some width => (codedPoint width (cs.take width)).map fun x => ([x], width + 1)
      | none =>
        if isBreak c then
          (ofOption (quotedBreaks true cs)).map fun (breaks, n) => (pointsOf breaks, n + 1)
        else .error .malformed

/-- The text up to the closing double quote, and the number of characters read with it; `fuel`
bounds the number of pieces. -/
def doubleQuoted : Nat → List Char → Reading (List CodePoint × Nat)
  | 0, _ => .error .malformed
  | _, [] => .error .malformed
  | fuel + 1, c :: cs =>
    if c = '\x22' then .ok ([], 1)
    else if c = '\\' then do
      let (text, n) ← escape cs
      (doubleQuoted fuel (cs.drop n)).map (before text (n + 1))
    else if isSpaceOrTab c || isBreak c then do
      let (text, n) ← ofOption (quotedGap (c :: cs))
      (doubleQuoted fuel ((c :: cs).drop n)).map (before (pointsOf text) n)
    else (doubleQuoted fuel cs).map (before [.char c] 1)

end PathSieve.Yaml
