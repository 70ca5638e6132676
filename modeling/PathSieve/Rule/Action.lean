import PathSieve.Argument

namespace PathSieve

/-!
# Actions

What a rule does with the paths it accepts.

* `Action.ofArgument?` — the action that an argument names.
-/

/-- What is done with a path. -/
inductive Action where
  | included
  | excluded
  deriving DecidableEq, Repr

namespace Action

/-- The name of an action. -/
def name : Action → String
  | .included => "include"
  | .excluded => "exclude"

/-- The action of a name. -/
def ofName? (s : String) : Option Action :=
  if s = "include" then some .included else if s = "exclude" then some .excluded else none

@[simp] theorem ofName?_name (a : Action) : ofName? a.name = some a := by cases a <;> rfl

/-- The action that an argument names. -/
def ofArgument? : Argument → Option Action
  | .text s => ofName? s
  | _ => none

/-- The action that a value names. -/
def ofValue? (v : Value) : Option Action := ofArgument? (.value v)

end Action

end PathSieve
