import PathSieve.Number.Double
import PathSieve.Text.Blank
import PathSieve.Text.Digit

namespace PathSieve.Numeral

/-!
# Numerals

The numerals that a value given as plain text may hold: integers and decimal fractions with an
optional sign, digits of any script, single underscores between digits, and space around them.

* `int?` — an integer; more than 4300 digits are refused.
* `double?` — a fraction, an exponent, an infinity or `nan`.
-/

/-! ### Parts -/

/-- The most digits that an integer may have where it is read or written. -/
def maxDigits : Nat := 4300

/-- Whether an integer has few enough digits to be written. -/
def isWritable (n : Int) : Bool := n.natAbs < Nat.pow 10 maxDigits

/-- The wording about an integer with too many digits, whose number is told if it is known. -/
def limitMessage (count : Option Nat) : String :=
  "Exceeds the limit (" ++ toString maxDigits ++ " digits) for integer string conversion" ++
    (count.elim "" fun n => ": value has " ++ toString n ++ " digits") ++
    "; use sys.set_int_max_str_digits() to increase the limit"

/-- Whether a digit comes next. -/
def startsWithDigit : List Char → Bool
  | c :: _ => (Text.digitValue? c).isSome
  | [] => false

/-- A maximal run of digits with single underscores between them, and what follows it;
`inside` says that a digit has just been read. -/
def digitRunFrom (inside : Bool) : List Char → List Nat × List Char
  | [] => ([], [])
  | c :: cs =>
    match Text.digitValue? c with
    | some d =>
      let (ds, rest) := digitRunFrom true cs
      (d :: ds, rest)
    | none =>
      if c = '_' ∧ inside ∧ startsWithDigit cs then digitRunFrom false cs else ([], c :: cs)

/-- A run of digits from its start. -/
def digitRun (cs : List Char) : List Nat × List Char := digitRunFrom false cs

/-- The number that a list of digits denotes. -/
def ofDigits (ds : List Nat) : Nat := ds.foldl (fun n d => n * 10 + d) 0

/-- An optional sign and what follows it; `true` stands for minus. -/
def signed : List Char → Bool × List Char
  | '-' :: cs => (true, cs)
  | '+' :: cs => (false, cs)
  | cs => (false, cs)

/-- The characters of a text without the space around them. -/
def body (s : String) : List Char := Text.stripBoth Text.isSpace s.toList

/-! ### Integers -/

/-- Reads an integer. -/
def int? (s : String) : Option Int :=
  let (negative, cs) := signed (body s)
  match digitRun cs with
  | ([], _) | (_, _ :: _) => none
  | (ds, []) =>
    if maxDigits < ds.length then none
    else some (if negative then -(ofDigits ds : Int) else ofDigits ds)

/-! ### Fractions -/

/-- Reads the exponent at the end of a numeral; nothing at all counts as zero. -/
def exponent? : List Char → Option Int
  | [] => some 0
  | c :: cs =>
    if c = 'e' ∨ c = 'E' then
      let (negative, cs) := signed cs
      match digitRun cs with
      | ([], _) | (_, _ :: _) => none
      | (ds, []) => some (if negative then -(ofDigits ds : Int) else ofDigits ds)
    else none

/-- Digits with an optional point and fraction, of which one part may be empty. -/
def mantissa (cs : List Char) : (List Nat × List Nat) × List Char :=
  match digitRun cs with
  | (whole, '.' :: rest) =>
    let (fraction, rest) := digitRun rest
    ((whole, fraction), rest)
  | (whole, rest) => ((whole, []), rest)

/-- The words for numbers without digits. -/
def word? (negative : Bool) (cs : List Char) : Option Double :=
  match String.ofList (cs.map Char.toLower) with
  | "inf" | "infinity" => some (.infinity negative)
  | "nan" => some .nan
  | _ => none

/-- Reads a fraction, an exponent, an infinity or `nan`. -/
def double? (s : String) : Option Double :=
  let (negative, cs) := signed (body s)
  match word? negative cs with
  | some d => some d
  | none =>
    match mantissa cs with
    | ((whole, fraction), rest) =>
      if whole.isEmpty ∧ fraction.isEmpty then none
      else (exponent? rest).map fun e =>
        Double.ofDecimal negative (ofDigits (whole ++ fraction)) (e - fraction.length)

end PathSieve.Numeral
