namespace PathSieve.Text

/-!
# Code point ranges and case maps

A property of characters is a sorted list of closed ranges of code points, and a case map is a
sorted list of runs of code points that share one shift, beside the code points that expand to
several.

* `Ranges.contains` — membership of a character in a property.
* `CaseMap.apply` — the image of one character, the character itself where the map is silent.
-/

/-! ### Properties -/

/-- Closed ranges of code points, in increasing order. -/
abbrev Ranges := List (Nat × Nat)

/-- Whether the code point of `c` lies in one of the ranges. -/
def Ranges.contains (r : Ranges) (c : Char) : Bool :=
  r.any fun b => b.1 ≤ c.toNat && c.toNat ≤ b.2

/-! ### Case maps -/

/-- The code points `first`, `first + step`, … up to `last`, each moved by `shift`. -/
structure CaseRun where
  first : Nat
  last : Nat
  step : Nat
  shift : Int

/-- The image of code point `n` when the run covers it. -/
def CaseRun.image? (r : CaseRun) (n : Nat) : Option Nat :=
  if r.first ≤ n ∧ n ≤ r.last ∧ (n - r.first) % r.step = 0 then some (n + r.shift).toNat else none

/-- A full case map: `runs` hold the one-to-one images, `expansions` the longer ones; both are
sorted by code point and disjoint. -/
structure CaseMap where
  runs : List CaseRun
  expansions : List (Nat × List Nat)

/-- The one-to-one image of code point `n`; the search stops at the first run beyond `n`. -/
def CaseMap.lookup (n : Nat) : List CaseRun → Option Nat
  | [] => none
  | r :: rs => if n < r.first then none else (r.image? n).or (CaseMap.lookup n rs)

/-- The image of one character. -/
def CaseMap.apply (m : CaseMap) (c : Char) : List Char :=
  match CaseMap.lookup c.toNat m.runs with
  | some n => [Char.ofNat n]
  | none =>
    if c.toNat < 128 then [c]
    else match m.expansions.lookup c.toNat with
      | some ns => ns.map Char.ofNat
      | none => [c]

end PathSieve.Text
