import PathSieve.Calendar.Printer
import PathSieve.Number.Numeral
import PathSieve.Number.Shortest
import PathSieve.Text.Quoted
import PathSieve.Value.Basic

namespace PathSieve

/-!
# Values in messages

A message shows a text, a date and a moment as they are (surrogates by a mark), and every other
value by its literal form: `None`, `True` and `False`, numbers, lists in brackets and maps in
braces, with the texts inside them quoted and the parts of dates named. A value with an integer of
too many digits cannot be shown.

* `Value.literal` — the literal form.
* `Value.display` — the form shown by a message.
* `Value.isWritable` — whether a value can be shown.
-/

/-- The literal form of a scalar. -/
def Scalar.literal : Scalar → String
  | .null => "None"
  | .bool b => if b then "True" else "False"
  | .int n => toString n
  | .float d => d.text
  | .text s => Text.quote s
  | .codes ps => Text.quotePoints ps
  | .date d => d.literal
  | .moment m => m.literal

/-- Whether a scalar can be shown. -/
def Scalar.isWritable : Scalar → Bool
  | .int n => Numeral.isWritable n
  | _ => true

namespace Value

mutual

/-- The literal form of a value. -/
def literal : Value → String
  | .scalar s => s.literal
  | .list items => "[" ++ ", ".intercalate (literals items) ++ "]"
  | .map entries => "\x7b" ++ ", ".intercalate (entryLiterals entries) ++ "\x7d"

/-- The literal forms of the items of a list. -/
def literals : List Value → List String
  | [] => []
  | v :: rest => literal v :: literals rest

/-- The literal forms of the entries of a map. -/
def entryLiterals : List (Scalar × Value) → List String
  | [] => []
  | (k, v) :: rest => (k.literal ++ ": " ++ literal v) :: entryLiterals rest

end

/-- The form shown by a message. -/
def display : Value → String
  | .text s => s
  | .scalar (.codes ps) => Text.shownPoints ps
  | .scalar (.date d) => d.text
  | .scalar (.moment m) => m.text
  | v => v.literal

@[simp] theorem display_text (s : String) : display (.text s) = s := rfl

mutual

/-- Whether a value can be shown. -/
def isWritable : Value → Bool
  | .scalar s => s.isWritable
  | .list items => areWritable items
  | .map entries => areEntriesWritable entries

/-- Whether the items of a list can be shown. -/
def areWritable : List Value → Bool
  | [] => true
  | v :: rest => v.isWritable && areWritable rest

/-- Whether the entries of a map can be shown. -/
def areEntriesWritable : List (Scalar × Value) → Bool
  | [] => true
  | (k, v) :: rest => k.isWritable && v.isWritable && areEntriesWritable rest

end

/-- The name of the kind of a value. -/
def typeName : Value → String
  | .null => "NoneType"
  | .bool _ => "bool"
  | .int _ => "int"
  | .float _ => "float"
  | .text _ | .scalar (.codes _) => "str"
  | .scalar (.date _) => "datetime.date"
  | .scalar (.moment _) => "datetime.datetime"
  | .list _ => "list"
  | .map _ => "dict"

end Value

end PathSieve
