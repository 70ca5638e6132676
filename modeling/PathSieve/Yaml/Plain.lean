import PathSieve.Value.Basic
import PathSieve.Yaml.Fault
import PathSieve.Yaml.Timestamp

namespace PathSieve.Yaml

/-!
# Plain scalars

A scalar without quotes stands for a truth value, nothing, an integer, a double, a date or a moment
if it has the form of one in YAML 1.1, and for a text otherwise. A scalar that has such a form need
not stand for anything: it may lack digits, have too many of them, or name a day that there is not.

* `int?`, `double?`, `dated?` — what a text of the form of a number or of a date stands for.
* `plainScalar` — the scalar that a text stands for; the two texts with a special meaning are
  refused.
-/

/-! ### Words -/

/-- The truth value of a word, which may be written small, capitalised or in capitals. -/
def truthWord? (s : String) : Option Bool :=
  if s ∈ ["yes", "Yes", "YES", "true", "True", "TRUE", "on", "On", "ON"] then some true
  else if s ∈ ["no", "No", "NO", "false", "False", "FALSE", "off", "Off", "OFF"] then some false
  else none

/-- The texts that stand for nothing. -/
def nullWords : List String := ["", "~", "null", "Null", "NULL"]

/-- The key whose value is merged into the map around it. -/
def mergeKey : String := "<<"

/-- The key that stands for the value of a map as a whole; it is an ordinary key here. -/
def valueKey : String := "="

/-! ### Digits -/

/-- The value of an ASCII digit in a base of at most sixteen. -/
def digit? (base : Nat) (c : Char) : Option Nat :=
  let n :=
    if '0' ≤ c ∧ c ≤ '9' then c.toNat - '0'.toNat
    else if 'a' ≤ c ∧ c ≤ 'f' then c.toNat - 'a'.toNat + 10
    else if 'A' ≤ c ∧ c ≤ 'F' then c.toNat - 'A'.toNat + 10
    else base
  if n < base then some n else none

/-- Whether a character is a digit of a base or an underscore. -/
def isDigitOrBar (base : Nat) (c : Char) : Bool := (digit? base c).isSome || c = '_'

/-- The values of the digits in a text, underscores left out. -/
def digitValues (base : Nat) (cs : List Char) : List Nat := cs.filterMap (digit? base)

/-- The number that a list of digits denotes. -/
def ofDigits (base : Nat) (ds : List Nat) : Nat := ds.foldl (fun n d => n * base + d) 0

/-- The number with the digits in a text; where the base is no power of two their number is
limited. -/
def inBase (base : Nat) (cs : List Char) : Reading Nat :=
  let ds := digitValues base cs
  if ds.isEmpty then .error (.noDigits base)
  else if base = 10 ∧ Numeral.maxDigits < ds.length then .error (.tooManyDigits ds.length)
  else .ok (ofDigits base ds)

/-- The number of a text that consists of digits of a base and underscores. -/
def digitsIn? (base : Nat) (cs : List Char) : Option (Reading Nat) :=
  if !cs.isEmpty && cs.all (isDigitOrBar base) then some (inBase base cs) else none

/-! ### Numbers in base sixty -/

/-- Cuts a list at every colon. -/
def colonParts : List Char → List (List Char)
  | [] => [[]]
  | c :: cs =>
    match colonParts cs with
    | [] => [[c]]
    | s :: rest => if c = ':' then [] :: s :: rest else (c :: s) :: rest

/-- Whether a text is a part of a number in base sixty behind the first: one or two digits that are
below sixty. -/
def isSixtieth : List Char → Bool
  | [d] => d.isDigit
  | [c, d] => '0' ≤ c && c ≤ '5' && d.isDigit
  | _ => false

/-! ### Integers -/

/-- An integer in base sixty. -/
def sexagesimal (first : List Char) (rest : List (List Char)) : Reading Nat := do
  let head ← inBase 10 first
  return rest.foldl (fun n part => n * 60 + ofDigits 10 (digitValues 10 part)) head

/-- The magnitude of an integer: binary, hexadecimal, octal after a zero, decimal, or in base
sixty. -/
def magnitude? : List Char → Option (Reading Nat)
  | ['0'] => some (.ok 0)
  | '0' :: 'b' :: cs => digitsIn? 2 cs
  | '0' :: 'x' :: cs => digitsIn? 16 cs
  | '0' :: cs => (digitsIn? 8 cs).map fun _ => inBase 8 ('0' :: cs)
  | '_' :: _ => none
  | cs => match colonParts cs with
    | [only] => digitsIn? 10 only
    | first :: rest =>
      if rest.all isSixtieth then (digitsIn? 10 first).map fun _ => sexagesimal first rest
      else none
    | [] => none

/-- Reads an integer. -/
def int? (cs : List Char) : Option (Reading Int) :=
  let (negative, body) := Numeral.signed cs
  (magnitude? body).map fun r => r.map fun n => if negative then -(n : Int) else n

/-! ### Doubles -/

/-- The exponent of a double, which needs a sign and digits; nothing counts as zero. -/
def exponent? : List Char → Option Int
  | [] => some 0
  | e :: sign :: cs =>
    if (e = 'e' ∨ e = 'E') ∧ (sign = '+' ∨ sign = '-') ∧ ¬cs.isEmpty ∧ cs.all Char.isDigit then
      let n : Int := ofDigits 10 (digitValues 10 cs)
      some (if sign = '-' then -n else n)
    else none
  | _ => none

/-- The double with the given digits before and after the point. -/
def decimal (negative : Bool) (whole fraction : List Char) (e : Int) : Double :=
  let ds := digitValues 10 (whole ++ fraction)
  Double.ofDecimal negative (ofDigits 10 ds) (e - (digitValues 10 fraction).length)

/-- The sum of the parts of a double in base sixty, the last part first; product and sum are
rounded at every part. -/
def sixtiethSum (sum : Double) (unit : Nat) : List Double → Reading Double
  | [] => .ok sum
  | d :: rest => match Double.ofInt? unit with
    | none => .error .tooLarge
    | some u => sixtiethSum (sum.add (d.mul u)) (unit * 60) rest

/-- A double in base sixty: its last part has a point and may have decimals. -/
def sexagesimalDouble? (negative : Bool) (cs : List Char) : Option (Reading Double) :=
  let fraction := (cs.dropWhile (· ≠ '.')).drop 1
  let whole := colonParts (cs.takeWhile (· ≠ '.'))
  match whole.reverse with
  | last :: before :: rest =>
    let parts := decimal false last fraction 0 :: (before :: rest).map (decimal false · [] 0)
    if '.' ∈ cs ∧ fraction.all (isDigitOrBar 10) ∧ (whole.drop 1).all isSixtieth ∧
        (whole.headD []).all (isDigitOrBar 10) then
      some ((sixtiethSum (.finite false 0 (-1074)) 1 parts).map fun d =>
        if negative then d.neg else d)
    else none
  | _ => none

/-- Reads a double; it needs a point. -/
def double? (cs : List Char) : Option (Reading Double) :=
  let (negative, body) := Numeral.signed cs
  let signed := body.length ≠ cs.length
  match body with
  | ['.', 'i', 'n', 'f'] | ['.', 'I', 'n', 'f'] | ['.', 'I', 'N', 'F'] =>
    some (.ok (.infinity negative))
  | ['.', 'n', 'a', 'n'] | ['.', 'N', 'a', 'N'] | ['.', 'N', 'A', 'N'] =>
    if signed then none else some (.ok .nan)
  | '.' :: rest =>
    let fraction := rest.takeWhile (isDigitOrBar 10)
    if signed ∨ ¬(fraction.head?.any Char.isDigit) then none
    else (exponent? (rest.dropWhile (isDigitOrBar 10))).map fun e =>
      .ok (decimal negative [] fraction e)
  | first :: _ =>
    if ¬first.isDigit then none
    else
      let whole := body.takeWhile (isDigitOrBar 10)
      match body.dropWhile (isDigitOrBar 10) with
      | '.' :: rest => (exponent? (rest.dropWhile (isDigitOrBar 10))).map fun e =>
          .ok (decimal negative whole (rest.takeWhile (isDigitOrBar 10)) e)
      | ':' :: _ => sexagesimalDouble? negative body
      | _ => none
  | [] => none

/-! ### Dates -/

/-- Reads a date or a moment. -/
def dated? (cs : List Char) : Option (Reading Scalar) :=
  match date? cs with
  | some d => some (((Calendar.Date.make d.year d.month d.day).map .date).mapError .calendar)
  | none => (moment? cs).map fun m => (m.make.map .moment).mapError .calendar

/-! ### Scalars -/

/-- The scalar that a text without quotes stands for. -/
def plainScalar (s : String) : Reading Scalar :=
  if s = valueKey ∨ s = mergeKey then .error .malformed
  else if s ∈ nullWords then .ok .null
  else match truthWord? s with
    | some b => .ok (.bool b)
    | none => match double? s.toList with
      | some d => d.map .float
      | none => match int? s.toList with
        | some n => n.map .int
        | none => (dated? s.toList).getD (.ok (.text s))

end PathSieve.Yaml
