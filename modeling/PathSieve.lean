import PathSieve.Text.Quoted
import PathSieve.Text.CaseFold
import PathSieve.Text.Upper
import PathSieve.Text.Lower
import PathSieve.Text.Blank
import PathSieve.Text.Digit
import PathSieve.Value.Printer
import PathSieve.Value.Order
import PathSieve.Number.Numeral
import PathSieve.Number.Shortest
import PathSieve.Pattern.Message
import PathSieve.Matching.AnyStart
import PathSieve.Matching.Path
import PathSieve.Flags.Parser
import PathSieve.PathPattern.Filter
import PathSieve.Selection
import PathSieve.Rule.Engine
import PathSieve.Files.Walk
import PathSieve.Yaml.Document
import PathSieve.Settings.Watched
import PathSieve.Log.Loggers
import PathSieve.Command.Run
import PathSieve.Command.Help
import PathSieve.Main
import PathSieve.Proofs.Pattern.Derivation
import PathSieve.Proofs.Pattern.Draft
import PathSieve.Proofs.Pattern.Joining
import PathSieve.Proofs.Pattern.Building
import PathSieve.Proofs.Pattern.Grammar
import PathSieve.Proofs.Matching.Language
import PathSieve.Proofs.Matching.Spans
import PathSieve.Proofs.Matching.Rows
import PathSieve.Proofs.Matching.Search
import PathSieve.Proofs.Matching.Pieces
import PathSieve.Proofs.Matching.Ends
import PathSieve.Proofs.Matching.Questions
import PathSieve.Proofs.Pattern.Lexing
import PathSieve.Proofs.Pattern.Connecting
import PathSieve.Proofs.Matching.Verdict
import PathSieve.Proofs.PathPattern.Store
import PathSieve.Proofs.Pattern.Enclosing
import PathSieve.Proofs.Matching.Segments
import PathSieve.Proofs.Matching.Inversion
import PathSieve.Proofs.Matching.Depth
import PathSieve.Proofs.Rule.Arrangement
import PathSieve.Proofs.Rule.Valid
import PathSieve.Proofs.Rule.Building
import PathSieve.Proofs.Log.Naming
import PathSieve.Yaml.Reader
import PathSieve.Proofs.Settings.Merging
import PathSieve.Proofs.Settings.Loading
import PathSieve.Proofs.Command.Judging
import PathSieve.Proofs.Command.Ending
import PathSieve.Proofs.Pattern.Height
import PathSieve.Proofs.Pattern.Rooted
import PathSieve.Proofs.Pattern.Runs
import PathSieve.Proofs.Matching.Nesting
import PathSieve.Proofs.Settings.Precedence
import PathSieve.Proofs.Settings.Sharing
import PathSieve.Proofs.Settings.Calls
import PathSieve.Proofs.Settings.Lookups
import PathSieve.Proofs.Settings.Notices
import PathSieve.Proofs.Pattern.Size
import PathSieve.Proofs.Command.Telling
import PathSieve.Proofs.Pattern.Likeness
import PathSieve.Proofs.Matching.Likeness
import PathSieve.Proofs.Matching.Interchange
import PathSieve.Proofs.Matching.Escaping
import PathSieve.Proofs.PathPattern.Duplicates
import PathSieve.Proofs.Settings.Assigning
import PathSieve.Proofs.Settings.Variables
import PathSieve.Proofs.Files.Likeness
import PathSieve.Proofs.Command.Candidates
import PathSieve.Proofs.Command.Inverting
import PathSieve.Proofs.Command.Agreeing
import PathSieve.Proofs.Settings.InPlace
import PathSieve.Proofs.PathPattern.Deciding
import PathSieve.Proofs.Rule.Deciding
import PathSieve.Proofs.Log.Merging
import PathSieve.Proofs.Log.Edits
import PathSieve.Proofs.Log.Runs
import PathSieve.Proofs.Pattern.Steps
import PathSieve.Proofs.Pattern.Coupling
import PathSieve.Proofs.Matching.Watching
import PathSieve.Proofs.Matching.Safety
import PathSieve.Proofs.Rule.Sorting
import PathSieve.Proofs.Rule.Adding
import PathSieve.Proofs.PathPattern.Using
import PathSieve.Proofs.PathPattern.Present
import PathSieve.Proofs.Rule.Reaching
import PathSieve.Proofs.Rule.Standing
import PathSieve.Proofs.Rule.Taking
import PathSieve.Proofs.Pattern.Cutting
import PathSieve.Proofs.Pattern.Faults
import PathSieve.Proofs.Pattern.Shapes
import PathSieve.Proofs.Pattern.Regular
import PathSieve.Proofs.Matching.Leniency
import PathSieve.Proofs.Matching.Meaning
import PathSieve.Proofs.Matching.Repetition
import PathSieve.Proofs.Pattern.Regular
