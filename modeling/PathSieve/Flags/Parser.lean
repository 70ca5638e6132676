import PathSieve.Argument
import PathSieve.Text.Blank
import PathSieve.Text.Upper

namespace PathSieve

/-!
# Reading flags

Flags are given as a mask, as a name, or as several names; a name may be written in any case, with
`-` for `_`, and with blanks around it.

* `Flags.ofName?` — the flag of a name.
* `Flags.ofArgument` — the flags that an argument stands for.
* `FlagsError.message` — the wording of what can go wrong.
-/

/-- What can be wrong with a specification of flags. -/
inductive FlagsError where
  | badMask (shown : Scalar)
  | badElement (shown : String)
  | notWritable
  | unknownName (name : String)
  | notIterable (typeName : String)
  deriving DecidableEq, Repr

/-- The wording of an error. -/
def FlagsError.message : FlagsError → String
  | .badMask s => "Invalid pattern flags: " ++ s.literal
  | .badElement s => "Invalid pattern flag: " ++ s
  | .notWritable => Numeral.limitMessage Option.none
  | .unknownName name => "Unknown pattern flag: " ++ name ++
      ". Must be one of ['inversive', 'case_sensitive', 'full_path']"
  | .notIterable typeName => "'" ++ typeName ++ "' object is not iterable"

namespace Flags

/-- The flag of a name in its plain form. -/
def named? : String → Option Flags
  | "NONE" => some none
  | "INVERSIVE" => some ⟨1⟩
  | "CASE_SENSITIVE" => some ⟨2⟩
  | "FULL_PATH" => some ⟨4⟩
  | _ => Option.none

/-- The plain form of a name: upper case, without blanks around it, `_` for `-`. -/
def plainName (s : String) : String :=
  (Text.upper (Text.strip s)).map fun c => if c = '-' then '_' else c

/-- The flag of a name. -/
def ofName? (s : String) : Option Flags := named? (plainName s)

/-- The flags of an integer mask, which must have no unknown bits. -/
def ofMask (n : Int) : Except FlagsError Flags :=
  if 0 ≤ n ∧ n ≤ knownMask then .ok ⟨n.toNat⟩
  else if Numeral.isWritable n then .error (.badMask (.int n))
  else .error .notWritable

/-- Adds the flag that an element names. -/
def addElement (f : Flags) (a : Argument) : Except FlagsError Flags :=
  match a with
  | .text s => match ofName? s with
    | some g => .ok (f.union g)
    | Option.none => .error (.unknownName s)
  | .value (.scalar (.codes ps)) => .error (.unknownName (Text.shownPoints ps))
  | a => .error (if a.isWritable then .badElement a.literal else .notWritable)

/-- The flags that an argument stands for. -/
def ofArgument : Argument → Except FlagsError Flags
  | .absent => .ok none
  | .flags f => .ok f
  | .value (.bool b) => .error (.badMask (.bool b))
  | .value (.int n) => ofMask n
  | .text s => addElement none (.text s)
  | .value (.scalar (.codes ps)) => addElement none (.value (.scalar (.codes ps)))
  | a => match a.elements? with
    | some items => items.foldlM addElement none
    | Option.none => .error (.notIterable a.typeName)

/-- The flags that a value of a configuration stands for. -/
def ofValue (v : Value) : Except FlagsError Flags := ofArgument (.value v)

end Flags

end PathSieve
