import PathSieve.Calendar.Printer
import PathSieve.Number.Numeral

namespace PathSieve.Yaml

/-!
# Faults of YAML text

A text may be malformed, or it may hold a scalar that has the form of a number, of a date or of a
character and yet stands for none. The bytes of a file may be no text at all, and a reader may fail
for reasons of its own.

* `Fault.message` — the wording of a fault.
-/

/-- Why there is no value. -/
inductive Fault where
  | malformed
  | undecodable
  | other (message : String)
  | noDigits (base : Nat)
  | tooManyDigits (count : Nat)
  | tooLarge
  | noCharacter (code : Nat)
  | calendar (e : Calendar.Fault)
  deriving DecidableEq, Repr

/-- The wording of a fault. -/
def Fault.message : Fault → String
  | .malformed => "malformed text"
  | .undecodable => "'utf-8' codec can't decode"
  | .other message => message
  | .noDigits base => "invalid literal for int() with base " ++ toString base ++ ": ''"
  | .tooManyDigits count => Numeral.limitMessage (some count)
  | .tooLarge => "int too large to convert to float"
  | .noCharacter _ => "chr() arg not in range(0x110000)"
  | .calendar e => e.message

/-- What a reader of YAML text gives: a result, or the fault that it met. -/
abbrev Reading (α : Type) := Except Fault α

/-- The result of a reader that takes any failure for a malformed text. -/
def ofOption {α : Type} : Option α → Reading α
  | some a => .ok a
  | none => .error .malformed

end PathSieve.Yaml
