namespace PathSieve.Command

/-!
# Help

What is shown on request about the use of the command.

* `usageText`, `helpText` — the short and the long form.
-/

/-- The use of the command in short. -/
def usageText : String :=
  "usage: pathpattern [-h] [-v] [-c FILE] [-r DIR] [-i] [-s] [-f] [--debug]\n" ++
  "                   [--log-file FILE]\n" ++
  "                   [pattern] [PATH ...]\n"

/-- The help on patterns. -/
def patternHelp : String :=
  "Pattern syntax:\n" ++
  "  *  ?          any characters / one character within a segment\n" ++
  "  **/           any number of whole directories\n" ++
  "  a&b  a|b      conjunction / disjunction, evaluated left to right\n" ++
  "  (...) (!...)  group / inverted group\n" ++
  "  $*            escaped character\n"

/-- The help on options. -/
def optionHelp : String :=
  "options:\n" ++
  "  -h, --help            show this help message and exit\n" ++
  "  -v, --version         show program's version number and exit\n" ++
  "  -c FILE, --config FILE\n" ++
  "                        Configuration file with rules (YAML format)\n" ++
  "  -r DIR, --root DIR    Walk DIR and test every file path relative to it\n" ++
  "  -i, --invert          Print paths that do NOT match\n" ++
  "  -s, --case-sensitive  Compare literal characters exactly\n" ++
  "  -f, --full-path       Match the whole path instead of the file name\n" ++
  "  --debug               Enable debug logging\n" ++
  "  --log-file FILE       Write log messages to FILE\n"

/-- The use of the command in full. -/
def helpText : String :=
  usageText ++ "\npathpattern - filter paths with a compact pattern language\n\n" ++
  "positional arguments:\n" ++
  "  pattern               Pattern to test candidate paths against\n" ++
  "  PATH                  Candidate paths (default: read from stdin)\n\n" ++
  optionHelp ++ "\n" ++ patternHelp ++
  "\nWith --config, every positional argument is a candidate path.\n"

end PathSieve.Command
