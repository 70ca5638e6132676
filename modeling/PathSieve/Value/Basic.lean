import PathSieve.Calendar.Moment
import PathSieve.Number.Double
import PathSieve.Text.CodePoint

namespace PathSieve

/-!
# Configuration values

Configuration arrives as data of unknown shape: scalars, lists and maps whose keys are scalars in
the order in which they were written.

* `Scalar.eqv` — equality of scalars: a truth value, an integer and a double are equal when they
  are the same number.
* `Entries.get?`, `Entries.put`, `Entries.merge` — access, update and overlay of maps; an update
  keeps the place of a key that is already there.
* `Scalar.ofPoints` — the value of a text that may hold surrogates.
* `Value.truthy` — whether a value counts as set.
-/

/-! ### Types -/

/-- A value without parts. A text with surrogates is kept by its code points. -/
inductive Scalar where
  | null
  | bool (b : Bool)
  | int (n : Int)
  | float (d : Double)
  | text (s : String)
  | codes (points : List Text.CodePoint)
  | date (d : Calendar.Date)
  | moment (m : Calendar.Moment)
  deriving DecidableEq, Repr

/-- A value of a configuration. -/
inductive Value where
  | scalar (s : Scalar)
  | list (items : List Value)
  | map (entries : List (Scalar × Value))
  deriving Repr

namespace Value

mutual

/-- Whether two values are the same. -/
def decEq : (v w : Value) → Decidable (v = w)
  | .scalar a, .scalar b => decidable_of_iff (a = b) ⟨congrArg scalar, scalar.inj⟩
  | .list as, .list bs =>
    @decidable_of_iff _ (as = bs) ⟨congrArg list, list.inj⟩ (decEqItems as bs)
  | .map as, .map bs =>
    @decidable_of_iff _ (as = bs) ⟨congrArg map, map.inj⟩ (decEqEntries as bs)
  | .scalar _, .list _ | .scalar _, .map _ | .list _, .scalar _ | .list _, .map _
  | .map _, .scalar _ | .map _, .list _ => isFalse fun h => nomatch h

/-- Whether two lists of values are the same. -/
def decEqItems : (as bs : List Value) → Decidable (as = bs)
  | [], [] => isTrue rfl
  | a :: as, b :: bs =>
    @decidable_of_iff _ (a = b ∧ as = bs) List.cons_eq_cons.symm
      (@instDecidableAnd _ _ (decEq a b) (decEqItems as bs))
  | [], _ :: _ | _ :: _, [] => isFalse fun h => nomatch h

/-- Whether two lists of entries are the same. -/
def decEqEntries : (as bs : List (Scalar × Value)) → Decidable (as = bs)
  | [], [] => isTrue rfl
  | (k, v) :: as, (k', w) :: bs =>
    @decidable_of_iff _ ((k = k' ∧ v = w) ∧ as = bs) (by simp)
      (@instDecidableAnd _ _ (@instDecidableAnd _ _ (instDecidableEqScalar k k') (decEq v w))
        (decEqEntries as bs))
  | [], _ :: _ | _ :: _, [] => isFalse fun h => nomatch h

end

instance : DecidableEq Value := decEq

end Value

/-- The entries of a map in the order of their first appearance. -/
abbrev Entries (α : Type := Value) := List (Scalar × α)

/-- The text of some code points. -/
def Scalar.ofPoints (ps : List Text.CodePoint) : Scalar :=
  match Text.wellFormed? ps with
  | some cs => .text (String.ofList cs)
  | none => .codes ps

@[simp] theorem Scalar.ofPoints_pointsOf (cs : List Char) :
    ofPoints (Text.pointsOf cs) = .text (String.ofList cs) := by simp [ofPoints]

namespace Value

/-- The absent value. -/
@[match_pattern] abbrev null : Value := .scalar .null

/-- A truth value. -/
@[match_pattern] abbrev bool (b : Bool) : Value := .scalar (.bool b)

/-- An integer. -/
@[match_pattern] abbrev int (n : Int) : Value := .scalar (.int n)

/-- A double-precision number. -/
@[match_pattern] abbrev float (d : Double) : Value := .scalar (.float d)

/-- A text. -/
@[match_pattern] abbrev text (s : String) : Value := .scalar (.text s)

/-- The text of some code points. -/
def ofPoints (ps : List Text.CodePoint) : Value := .scalar (.ofPoints ps)

instance : Inhabited Value := ⟨.null⟩

/-- Whether the value is absent. -/
def isNull : Value → Bool
  | .null => true
  | _ => false

/-- Whether the value is a map. -/
def isMap : Value → Bool
  | .map _ => true
  | _ => false

end Value

/-! ### Scalars -/

namespace Scalar

/-- The number that a truth value or an integer stands for. -/
def integer? : Scalar → Option Int
  | .bool b => some (if b then 1 else 0)
  | .int n => some n
  | _ => none

/-- Equality of scalars across the kinds of number. -/
def eqv : Scalar → Scalar → Bool
  | .null, .null => true
  | .text a, .text b => a = b
  | .codes a, .codes b => a = b
  | .date a, .date b => a = b
  | .moment a, .moment b => a.same b
  | .float a, .float b => a.eqv b
  | .float a, b => match b.integer? with
    | some n => a.eqvInt n
    | none => false
  | a, .float b => match a.integer? with
    | some n => b.eqvInt n
    | none => false
  | a, b => match a.integer?, b.integer? with
    | some m, some n => m = n
    | _, _ => false

@[simp] theorem eqv_text (a b : String) : eqv (.text a) (.text b) = decide (a = b) := rfl

/-- Whether a scalar counts as set: `null`, `false`, zero and the empty text do not. -/
def truthy : Scalar → Bool
  | .null => false
  | .bool b => b
  | .int n => n ≠ 0
  | .float d => !d.isZero
  | .text s => s ≠ ""
  | .codes ps => !ps.isEmpty
  | .date _ | .moment _ => true

end Scalar

/-! ### Maps -/

namespace Entries

variable {α : Type}

/-- The value of a key. -/
def get? (key : Scalar) : Entries α → Option α
  | [] => none
  | (k, v) :: rest => if k.eqv key then some v else get? key rest

/-- The value of a text key. -/
def field? (e : Entries α) (name : String) : Option α := get? (.text name) e

/-- Sets a key; a new key goes to the end. -/
def put (key : Scalar) (value : α) : Entries α → Entries α
  | [] => [(key, value)]
  | (k, v) :: rest => if k.eqv key then (k, value) :: rest else (k, v) :: put key value rest

/-- The map of a list of entries, of which the later ones with a key win. -/
def ofList (es : List (Scalar × α)) : Entries α := es.foldl (fun e kv => put kv.1 kv.2 e) []

/-- Sets a text key. -/
def setField (e : Entries α) (name : String) (value : α) : Entries α := put (.text name) value e

@[simp] theorem get?_nil (key : Scalar) : get? key ([] : Entries α) = none := rfl

/-- A text key that has been set has its value. -/
@[simp] theorem field?_setField (e : Entries α) (name : String) (v : α) :
    field? (setField e name v) name = some v := by
  unfold field? setField
  induction e with
  | nil => simp [put, get?]
  | cons kv rest ih =>
    obtain ⟨k, w⟩ := kv
    by_cases h : k.eqv (.text name) <;> simp [put, get?, h, ih]

/-- The keys of a map, in order. -/
def keys (e : Entries α) : List Scalar := e.map (·.1)

end Entries

namespace Value

mutual

/-- A value laid over an older one: maps are merged, anything else replaces it. -/
def laidOver (old : Option Value) : Value → Value
  | .map new => match old with
    | some (.map base) => .map (mergeEntries base new)
    | _ => .map new
  | v => v

/-- The entries of `new` laid over `base`, one after the other. -/
def mergeEntries (base : Entries) : Entries → Entries
  | [] => base
  | (k, v) :: rest => mergeEntries (Entries.put k (laidOver (Entries.get? k base) v) base) rest

end

/-- Whether a value counts as set: an empty list or map does not. -/
def truthy : Value → Bool
  | .scalar s => s.truthy
  | .list items => !items.isEmpty
  | .map entries => !entries.isEmpty

end Value

/-- The map `new` laid over the map `base`: where both hold a map under one key the two are
merged, and otherwise `new` wins. -/
def Entries.merge (base new : Entries) : Entries := Value.mergeEntries base new

end PathSieve
