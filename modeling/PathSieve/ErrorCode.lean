namespace PathSieve

/-!
# Error codes

Every refusal of a pattern, a rule or a configuration belongs to one of a few classes, which have
a number and a name.

* `ErrorCode.number`, `ErrorCode.name` — the two forms of a class.
-/

/-- The class of a refusal. -/
inductive ErrorCode where
  | badArguments
  | badFormat
  | noMemory
  | notFound
  | invalidInput
  | internalError
  deriving DecidableEq, Repr

namespace ErrorCode

/-- The number of a class. -/
def number : ErrorCode → Nat
  | .badArguments => 1
  | .badFormat => 2
  | .noMemory => 3
  | .notFound => 4
  | .invalidInput => 5
  | .internalError => 6

/-- The name of a class. -/
def name : ErrorCode → String
  | .badArguments => "BAD_ARGUMENTS"
  | .badFormat => "BAD_FORMAT"
  | .noMemory => "NO_MEM"
  | .notFound => "NOT_FOUND"
  | .invalidInput => "INVALID_INPUT"
  | .internalError => "INTERNAL_ERROR"

end ErrorCode

end PathSieve
