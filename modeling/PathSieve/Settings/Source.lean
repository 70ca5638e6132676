namespace PathSieve.Settings

/-!
# Sources

Settings come from several sources; what a higher one says goes before what a lower one says.

* `Source.rising` — the sources from the lowest to the highest.
* `Source.rank` — the place of a source among them.
-/

/-- Where a setting comes from. -/
inductive Source where
  | builtIn
  | system
  | user
  | environment
  | commandLine
  | runtime
  deriving DecidableEq, Repr

namespace Source

/-- The sources from the lowest to the highest. -/
def rising : List Source := [.builtIn, .system, .user, .environment, .commandLine, .runtime]

/-- Every source has its place. -/
@[simp] theorem mem_rising (s : Source) : s ∈ rising := by cases s <;> simp [rising]

/-- The place of a source: one with a higher rank goes before one with a lower rank. -/
def rank : Source → Nat
  | .builtIn => 1
  | .system => 2
  | .user => 3
  | .environment => 4
  | .commandLine => 5
  | .runtime => 6

theorem rising_pairwise : rising.Pairwise (·.rank < ·.rank) := by decide

/-- The name of a source. -/
def name : Source → String
  | .builtIn => "COMPILED_DEFAULTS"
  | .system => "SYSTEM_CONFIG"
  | .user => "USER_CONFIG"
  | .environment => "ENVIRONMENT"
  | .commandLine => "CLI_ARGS"
  | .runtime => "RUNTIME"

/-- The source of a name. -/
def ofName? (s : String) : Option Source := rising.find? (·.name = s)

@[simp] theorem ofName?_name (s : Source) : ofName? s.name = some s := by cases s <;> decide

end Source

end PathSieve.Settings
