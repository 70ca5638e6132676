import PathSieve.Value.Basic

namespace PathSieve.Value

/-!
# Equality and order of values

Values are compared as numbers, as texts by code point, or as lists item by item; maps are equal
when they hold equal values under equal keys in any order. Other pairs are never equal and have no
order.

* `Value.eqv` — equality.
* `Value.lt?` — the order, `none` for two values that have none.
-/

mutual

/-- Equality of values. -/
def eqv : Value → Value → Bool
  | .scalar a, .scalar b => a.eqv b
  | .list as, .list bs => eqvItems as bs
  | .map as, .map bs => as.length = bs.length && eqvEntries as bs
  | _, _ => false

/-- Equality of lists, item by item. -/
def eqvItems : List Value → List Value → Bool
  | [], [] => true
  | a :: as, b :: bs => a.eqv b && eqvItems as bs
  | _, _ => false

/-- Whether every entry has an equal one in `bs`. -/
def eqvEntries : List (Scalar × Value) → List (Scalar × Value) → Bool
  | [], _ => true
  | (k, v) :: rest, bs =>
    (match Entries.get? k bs with
      | some w => v.eqv w
      | none => false) && eqvEntries rest bs

end

/-- The codes of a text. -/
def codesOf? : Scalar → Option (List Nat)
  | .text s => some (s.toList.map Char.toNat)
  | .codes ps => some (ps.map Text.CodePoint.code)
  | _ => none

/-- The order of scalars: numbers and truth values among each other, and texts. -/
def scalarLt? : Scalar → Scalar → Option Bool
  | .text a, .text b => some (a < b)
  | .codes a, b => (codesOf? b).map fun cs => a.map Text.CodePoint.code < cs
  | a, .codes b => (codesOf? a).map fun cs => cs < b.map Text.CodePoint.code
  | .float a, .float b => some (a.lt b)
  | .float a, b => b.integer?.map (a.ltInt ·)
  | a, .float b => a.integer?.map (Double.intLt · b)
  | a, b => match a.integer?, b.integer? with
    | some m, some n => some (m < n)
    | _, _ => none

mutual

/-- The order of values. -/
def lt? : Value → Value → Option Bool
  | .scalar a, .scalar b => scalarLt? a b
  | .list as, .list bs => ltItems? as bs
  | _, _ => none

/-- The order of lists: the first items that differ decide, else the shorter list comes first. -/
def ltItems? : List Value → List Value → Option Bool
  | [], [] => some false
  | [], _ :: _ => some true
  | _ :: _, [] => some false
  | a :: as, b :: bs => if a.eqv b then ltItems? as bs else a.lt? b

end

end PathSieve.Value
