import PathSieve.Text.Ranges

namespace PathSieve.Text

/-!
# Blank characters

The characters that count as blank when a name or a line is trimmed: the white space of Unicode 14
together with the information separators U+001C to U+001F, which are blank for text and not for
numbers.

* `isBlank c`, `isSpace c` — blank for text, blank for numbers.
* `strip s` — a text without the blanks at its two ends.
-/

/-- Ranges of blank characters. -/
def blankRanges : Ranges :=
  [(9, 13), (28, 32), (133, 133), (160, 160), (5760, 5760), (8192, 8202), (8232, 8233),
   (8239, 8239), (8287, 8287), (12288, 12288)]

/-- Whether `c` is blank. -/
def isBlank (c : Char) : Bool := blankRanges.contains c

/-- Whether `c` is white space; the information separators are not. -/
def isSpace (c : Char) : Bool := isBlank c && !(28 ≤ c.toNat && c.toNat ≤ 31)

theorem isBlank_of_isSpace {c : Char} (h : isSpace c) : isBlank c := by
  simp only [isSpace, Bool.and_eq_true] at h; exact h.1

/-- A list of characters without those at its end that satisfy `p`. -/
def stripRight (p : Char → Bool) (cs : List Char) : List Char := (cs.reverse.dropWhile p).reverse

/-- A list of characters without those at its two ends that satisfy `p`. -/
def stripBoth (p : Char → Bool) (cs : List Char) : List Char := stripRight p (cs.dropWhile p)

/-- A text without the blanks at its two ends. -/
def strip (s : String) : String := String.ofList (stripBoth isBlank s.toList)

end PathSieve.Text
