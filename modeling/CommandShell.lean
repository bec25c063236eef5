import CommandShell.Main
import CommandShell.Proofs.Lexer.Scanning
import CommandShell.Proofs.Lexer.Mending
import CommandShell.Proofs.LogicalLine.Gathering
import CommandShell.Proofs.Quoting
import CommandShell.Proofs.LogicalLine.Blocks
import CommandShell.Proofs.Lexer.NormalForm
import CommandShell.Proofs.Lexer.Spelling
import CommandShell.Proofs.Lexer.Delimiters
import CommandShell.Proofs.LogicalLine.Requests
import CommandShell.Proofs.LogicalLine.InputEnd
import CommandShell.Proofs.Shell.LineByLine
import CommandShell.Proofs.Text.Lines
import CommandShell.Proofs.LogicalLine.Texts
import CommandShell.Proofs.Output.Streams
import CommandShell.Proofs.Quoting.LineEnds
import CommandShell.Proofs.Shell.ExportLine
import CommandShell.Proofs.Shell.Export
import CommandShell.Proofs.Shell.Writing
import CommandShell.Proofs.Builtin.Effects
import CommandShell.Proofs.Expansion.Assignments
import CommandShell.Proofs.Builtin.Validity
import CommandShell.Proofs.Shell.Turns
import CommandShell.Proofs.Shell.Validity
import CommandShell.Proofs.Shell.ExitStatus
import CommandShell.Proofs.CommandLine.ExitCode
import CommandShell.Proofs.LogicalLine.Lookahead
import CommandShell.Proofs.Shell.Lookahead
import CommandShell.Proofs.LogicalLine.LastLine
import CommandShell.Proofs.Shell.OpenQuote
import CommandShell.Proofs.Shell.Dispatch
import CommandShell.Proofs.Shell.Assignments
import CommandShell.Proofs.Lexer.WordEnds
import CommandShell.Proofs.Lexer.LineJoins
import CommandShell.Proofs.History
import CommandShell.Proofs.Shell.Memory
import CommandShell.Proofs.Shell.Calls
import CommandShell.Proofs.Shell.Interruptions
import CommandShell.Proofs.Lexer.Separation
import CommandShell.Proofs.Expansion.Roles
import CommandShell.Proofs.Expansion.Opacity
import CommandShell.Proofs.Expansion.Aliases
import CommandShell.Proofs.Machine.CanonicalPaths
import CommandShell.Proofs.Builtin.Directories
import CommandShell.Proofs.Builtin.Footprint
import CommandShell.Proofs.Output.Limits
import CommandShell.Proofs.Builtin.Diagnostics
import CommandShell.Proofs.Builtin.Operands
import CommandShell.Proofs.PathSearch
import CommandShell.Proofs.Builtin.Aliases
import CommandShell.Proofs.PathSearch.BareNames
import CommandShell.Proofs.Variables.Changes
import CommandShell.Proofs.Builtin.EndMarks
import CommandShell.Proofs.Lexer.Braces
