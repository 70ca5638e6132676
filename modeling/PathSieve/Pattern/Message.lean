import PathSieve.Pattern.Compile

namespace PathSieve.Pattern

/-!
# Wording of format errors

* `FormatError.message` — what is said about a fault of pattern text.
-/

/-- The wording of a cause. -/
def FormatCause.message : FormatCause → String
  | .tooLong => "Pattern longer than " ++ toString maxLength ++ " characters"
  | .danglingEscape => "Dangling escape character at end of pattern"
  | .invalidEscape c =>
    "Invalid escape sequence '" ++ Text.shownPoints [.char escapeMark, c] ++ "'"
  | .emptyGroup => "Empty group"
  | .emptyBefore op => "Empty operand before '" ++ String.ofList op.spelling ++ "'"
  | .emptyAfter op => "Empty operand after '" ++ String.ofList op.spelling ++ "'"
  | .tooDeep => "Groups nested too deeply"
  | .unbalanced => "Unbalanced ')'"
  | .unterminated => "Unterminated group"

/-- The wording of an error, with its position. -/
def FormatError.message (e : FormatError) : String :=
  e.cause.message ++ " (at position " ++ toString e.position ++ ")"

end PathSieve.Pattern
