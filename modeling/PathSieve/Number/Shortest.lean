import PathSieve.Number.Double

namespace PathSieve.Double

/-!
# Shortest decimals

The text of a double has the fewest digits that read back as that double, and among those the
digits nearest to it, a tie going to the even neighbour. It is positional while the exponent of ten
lies from -4 to 15, with at least one digit after the point, and has an exponent of two digits or
more otherwise.

* `Decimal.shortest` — the digits, as an integer and a power of ten.
* `Double.text` — the text.
-/

/-! ### Digits -/

/-- The number `digits * 10 ^ exponent`. -/
structure Decimal where
  digits : Nat
  exponent : Int
  deriving DecidableEq, Repr

/-- The number of decimal digits of a natural number, one for zero. -/
def digitCount (n : Nat) : Nat := (Nat.toDigits 10 n).length

/-- The exponent of the first digit of `num / den`, both positive. -/
def leadingExponent (num den : Nat) : Int :=
  let e : Int := (digitCount num : Int) - digitCount den
  let (n, d) := if 0 ≤ e then (num, den * tenTo e) else (num * tenTo (-e), den)
  if d ≤ n then e else e - 1

/-- The magnitude of a finite double as a quotient. -/
def ratio (m : Nat) (e : Int) : Nat × Nat :=
  if 0 ≤ e then (m <<< e.toNat, 1) else (m, 1 <<< (-e).toNat)

/-- The quotient `num / den` in units of `10 ^ e`, as a quotient of natural numbers. -/
def rescaleTen (num den : Nat) (e : Int) : Nat × Nat :=
  if 0 ≤ e then (num, den * tenTo e) else (num * tenTo (-e), den)

/-- The neighbour of the value on the grid of `10 ^ e` that reads back; if both do, the nearer one,
and of two that are equally near the even one. -/
def readsBack (m : Nat) (e : Int) (grid : Int) : Option Decimal :=
  let (num, den) := rescaleTen (ratio m e).1 (ratio m e).2 grid
  let low := num / den
  let reads (c : Nat) : Bool := ofDecimal false c grid = .finite false m e
  let nearLow := 2 * (num % den) < den ∨ (2 * (num % den) = den ∧ low % 2 = 0)
  match reads low, reads (low + 1) with
  | true, true => some ⟨if nearLow then low else low + 1, grid⟩
  | true, false => some ⟨low, grid⟩
  | false, true => some ⟨low + 1, grid⟩
  | false, false => none

/-- Moves the zeros at the end of the digits into the exponent, at most `fuel` of them. -/
def Decimal.trim : Nat → Decimal → Decimal
  | 0, d => d
  | fuel + 1, d =>
    if d.digits % 10 = 0 ∧ d.digits ≠ 0 then Decimal.trim fuel ⟨d.digits / 10, d.exponent + 1⟩
    else d

/-- The first grid, from one digit to seventeen, on which a neighbour of the value reads back. -/
def Decimal.shortest (m : Nat) (e : Int) : Decimal :=
  let first := leadingExponent (ratio m e).1 (ratio m e).2
  let found := (List.range 17).findSome? fun n : Nat => readsBack m e (first - n)
  (found.getD ⟨m, e⟩).trim 20

/-! ### Text -/

/-- An exponent of ten: a sign and at least two digits. -/
def exponentText (e : Int) : String :=
  let n := e.natAbs
  (if e < 0 then "-" else "+") ++ (if n < 10 then "0" else "") ++ toString n

/-- The text of a positive decimal. -/
def Decimal.text (d : Decimal) : String :=
  let ds := toString d.digits
  let first := d.exponent + ds.length - 1
  let zeros (n : Int) := String.ofList (List.replicate n.toNat '0')
  if first < -4 ∨ 16 ≤ first then
    let rest := ds.toList.drop 1
    String.ofList (ds.toList.take 1) ++ (if rest.isEmpty then "" else "." ++ String.ofList rest)
      ++ "e" ++ exponentText first
  else if first < 0 then "0." ++ zeros (-first - 1) ++ ds
  else if 0 ≤ d.exponent then ds ++ zeros d.exponent ++ ".0"
  else
    String.ofList (ds.toList.take (first + 1).toNat) ++ "." ++
      String.ofList (ds.toList.drop (first + 1).toNat)

/-- The text of a double. -/
def text : Double → String
  | .nan => "nan"
  | .infinity negative => if negative then "-inf" else "inf"
  | .finite negative m e =>
    (if negative then "-" else "") ++ (if m = 0 then "0.0" else (Decimal.shortest m e).text)

end PathSieve.Double
