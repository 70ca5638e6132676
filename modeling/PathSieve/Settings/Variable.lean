import PathSieve.Number.Numeral
import PathSieve.Text.Lower
import PathSieve.Text.Split
import PathSieve.Value.Basic

namespace PathSieve.Settings

/-!
# Values of environment variables

The text of a variable stands for a truth value, an integer, a double or a list of texts, the
first of these that it can be read as, and else for itself.

* `readVariable s` — the value that a text stands for.
-/

/-- The truth value that a word stands for. -/
def truthWord? (s : String) : Option Bool :=
  match Text.lower s with
  | "true" | "yes" | "on" => some true
  | "false" | "no" | "off" => some false
  | _ => none

/-- The items between commas, without blanks around them; empty items are dropped. -/
def commaItems (s : String) : List String :=
  ((Text.splitWhere (· = ',') s.toList).map (Text.stripBoth Text.isBlank)).filterMap fun cs =>
    if cs.isEmpty then none else some (String.ofList cs)

/-- The value that the text of a variable stands for. -/
def readVariable (s : String) : Value :=
  match truthWord? s with
  | some b => .bool b
  | none => match Numeral.int? s with
    | some n => .int n
    | none => match Numeral.double? s with
      | some d => .float d
      | none =>
        if ',' ∈ s.toList then .list ((commaItems s).map .text) else .text s

end PathSieve.Settings
