namespace PathSieve

/-!
# Double-precision numbers

A finite double is a sign, a mantissa below `2 ^ 53` and an exponent of two that is at least
`-1074`; the mantissa is at least `2 ^ 52` unless the exponent is the least one.

* `Double.ofRatio` — the double nearest to a quotient of natural numbers, a half to the even
  mantissa.
* `Double.ofDecimal` — the double nearest to `m * 10 ^ e`.
* `Double.scaled` — the exact value in units of the least positive double, by which doubles are
  compared with each other and with integers.
* `Double.add`, `Double.mul` — sum and product: the exact value, rounded once.
-/

/-- A double-precision number. -/
inductive Double where
  | nan
  | infinity (negative : Bool)
  | finite (negative : Bool) (mantissa : Nat) (exponent : Int)
  deriving DecidableEq, Repr

namespace Double

/-! ### Rounding -/

/-- The natural number nearest to `num / den`, a half going to the even neighbour. -/
def roundHalfEven (num den : Nat) : Nat :=
  let q := num / den
  let r := num % den
  if 2 * r < den then q else if den < 2 * r then q + 1 else q + q % 2

/-- The quotient `num / den` in units of `2 ^ e`, as a quotient of natural numbers. -/
def rescale (num den : Nat) (e : Int) : Nat × Nat :=
  if 0 ≤ e then (num, den <<< e.toNat) else (num <<< (-e).toNat, den)

/-- The exponent that gives `num / den` a mantissa of 53 binary digits, or the least exponent. -/
def exponentFor (num den : Nat) : Int :=
  let e : Int := (num.log2 : Int) - den.log2 - 52
  let s := rescale num den e
  max (if s.1 < s.2 <<< 52 then e - 1 else e) (-1074)

/-- The double nearest to `num / den` for a positive `den`. -/
def ofRatio (negative : Bool) (num den : Nat) : Double :=
  let e := exponentFor num den
  let s := rescale num den e
  let m := roundHalfEven s.1 s.2
  let (m, e) := if m = 1 <<< 53 then (1 <<< 52, e + 1) else (m, e)
  if m = 0 then .finite negative 0 (-1074)
  else if e ≤ 971 then .finite negative m e
  else .infinity negative

/-- A power of ten; a negative exponent counts as zero. -/
def tenTo (e : Int) : Nat := Nat.pow 10 e.toNat

/-- The double nearest to `m * 10 ^ e`; far outside the range of doubles the power is not
computed. -/
def ofDecimal (negative : Bool) (m : Nat) (e : Int) : Double :=
  if m = 0 then .finite negative 0 (-1074)
  else if 400 < (m.log2 * 3 / 10 : Nat) + e then .infinity negative
  else if ((m.log2 + 1) * 31 / 100 + 1 : Nat) + e < -400 then .finite negative 0 (-1074)
  else if 0 ≤ e then ofRatio negative (m * tenTo e) 1
  else ofRatio negative m (tenTo (-e))

/-- The double nearest to an integer, unless the integer lies beyond all doubles. -/
def ofInt? (n : Int) : Option Double :=
  match ofRatio (n < 0) n.natAbs 1 with
  | .infinity _ => none
  | d => some d

/-! ### Exact values -/

/-- The exact value in units of `2 ^ -1074`; nothing for what is not finite. -/
def scaled : Double → Option Int
  | .finite negative m e =>
    let n : Int := (m <<< (e + 1074).toNat : Nat)
    some (if negative then -n else n)
  | _ => none

/-- An integer in the same units. -/
def scaledInt (n : Int) : Int := n * (1 <<< 1074 : Nat)

/-- Whether the value is zero, of either sign. -/
def isZero : Double → Bool
  | .finite _ m _ => m = 0
  | _ => false

/-! ### Arithmetic -/

/-- The sum of two doubles. -/
def add : Double → Double → Double
  | .nan, _ | _, .nan => .nan
  | .infinity a, .infinity b => if a = b then .infinity a else .nan
  | .infinity a, _ | _, .infinity a => .infinity a
  | a@(.finite s _ _), b@(.finite t _ _) =>
    match (a.scaled.getD 0) + (b.scaled.getD 0) with
    | 0 => .finite (s && t) 0 (-1074)
    | n => ofRatio (n < 0) n.natAbs (1 <<< 1074)

/-- The product of two doubles. -/
def mul : Double → Double → Double
  | .nan, _ | _, .nan => .nan
  | .infinity a, .infinity b => .infinity (xor a b)
  | .infinity a, .finite b m _ | .finite b m _, .infinity a =>
    if m = 0 then .nan else .infinity (xor a b)
  | .finite a m e, .finite b n f =>
    ofRatio (xor a b) ((m * n) <<< (e + f).toNat) (1 <<< (-(e + f)).toNat)

/-- The double with the opposite sign. -/
def neg : Double → Double
  | .nan => .nan
  | .infinity s => .infinity (!s)
  | .finite s m e => .finite (!s) m e

@[simp] theorem neg_neg (d : Double) : d.neg.neg = d := by cases d <;> simp [neg]

/-! ### Comparison -/

/-- The order of numbers, with `nan` below and above nothing. -/
def lt : Double → Double → Bool
  | .nan, _ | _, .nan => false
  | .infinity true, b => b ≠ .infinity true
  | .infinity false, _ => false
  | _, .infinity negative => !negative
  | a, b => match a.scaled, b.scaled with
    | some x, some y => x < y
    | _, _ => false

/-- Equality of numbers: zeros of either sign are equal, and `nan` differs from itself. -/
def eqv : Double → Double → Bool
  | .infinity a, .infinity b => a = b
  | a, b => match a.scaled, b.scaled with
    | some x, some y => x = y
    | _, _ => false

/-- Whether a double is below an integer. -/
def ltInt : Double → Int → Bool
  | .infinity negative, _ => negative
  | a, n => match a.scaled with
    | some x => x < scaledInt n
    | none => false

/-- Whether an integer is below a double. -/
def intLt : Int → Double → Bool
  | _, .infinity negative => !negative
  | n, a => match a.scaled with
    | some x => scaledInt n < x
    | none => false

/-- Whether a double and an integer are the same number. -/
def eqvInt (a : Double) (n : Int) : Bool := a.scaled = some (scaledInt n)

end Double

end PathSieve
