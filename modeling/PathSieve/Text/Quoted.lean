import PathSieve.Text.CodePoint
import PathSieve.Text.Printable

namespace PathSieve.Text

/-!
# Quoted text

The form in which a message quotes a text inside a list or a map: between apostrophes, or between
double quotes when the text holds an apostrophe and no double quote. The backslash, the chosen
quote, the line feed, the carriage return and the tab are escaped by one letter, every other
character that is not printable, and every surrogate, by its code in hexadecimal.

* `quote s`, `quotePoints ps` — the quoted form of a text.
* `escapeChar` — the form of one character.
-/

/-- The `width` low hexadecimal digits of `n`, in lower case. -/
def hexDigits : Nat → Nat → List Char
  | 0, _ => []
  | width + 1, n => hexDigits width (n / 16) ++ [Nat.digitChar (n % 16)]

@[simp] theorem length_hexDigits (width n : Nat) : (hexDigits width n).length = width := by
  induction width generalizing n with
  | zero => rfl
  | succ w ih => simp [hexDigits, ih]

/-- The code of a character: two digits after `x`, four after `u` or eight after `U`. -/
def escapeCode (c : Char) : List Char :=
  if c.toNat < 0x100 then '\\' :: 'x' :: hexDigits 2 c.toNat
  else if c.toNat < 0x10000 then '\\' :: 'u' :: hexDigits 4 c.toNat
  else '\\' :: 'U' :: hexDigits 8 c.toNat

/-- The form of one character between quotes `q`. -/
def escapeChar (q c : Char) : List Char :=
  if c = q ∨ c = '\\' then ['\\', c]
  else if c = '\n' then ['\\', 'n']
  else if c = '\r' then ['\\', 'r']
  else if c = '\t' then ['\\', 't']
  else if isPrintable c then [c]
  else escapeCode c

/-- The quote for a text: a double quote exactly if that avoids escaping an apostrophe. -/
def chooseQuote (cs : List Char) : Char :=
  if '\x27' ∈ cs ∧ '\x22' ∉ cs then '\x22' else '\x27'

/-- The quoted form of a text. -/
def quote (s : String) : String :=
  let q := chooseQuote s.toList
  String.ofList (q :: s.toList.flatMap (escapeChar q) ++ [q])

/-- The form of one code point between quotes `q`. -/
def escapePoint (q : Char) : CodePoint → List Char
  | .char c => escapeChar q c
  | .surrogate n => '\\' :: 'u' :: hexDigits 4 (firstSurrogate + n)

/-- The quoted form of a list of code points. -/
def quotePoints (ps : List CodePoint) : String :=
  let q := chooseQuote (ps.filterMap CodePoint.char?)
  String.ofList (q :: ps.flatMap (escapePoint q) ++ [q])

/-- Without surrogates both forms agree. -/
@[simp] theorem quotePoints_pointsOf (s : String) : quotePoints (pointsOf s.toList) = quote s := by
  have h : (pointsOf s.toList).filterMap CodePoint.char? = s.toList := by
    simp [pointsOf, List.filterMap_map, Function.comp_def, CodePoint.char?]
  simp only [quotePoints, quote, h]
  simp [pointsOf, List.flatMap_map, escapePoint]

end PathSieve.Text
