import LineShell.Command.Basic
import LineShell.Command.Builtin
import LineShell.Command.Directory
import LineShell.Command.Probe
import LineShell.Command.Registry
import LineShell.Command.Search
import LineShell.Command.Start
import LineShell.Command.Topic
import LineShell.CommandLine.Directive
import LineShell.CommandLine.Frontend
import LineShell.CommandLine.Invocation
import LineShell.CommandLine.LogFilter
import LineShell.CommandLine.Options
import LineShell.Environment
import LineShell.Error
import LineShell.FileTree.Basic
import LineShell.FileTree.Edit
import LineShell.FileTree.Lookup
import LineShell.FileTree.Path
import LineShell.Interpreter.Effect
import LineShell.Interpreter.Execute
import LineShell.Interpreter.Line
import LineShell.Interpreter.Loop
import LineShell.Interpreter.Trace
import LineShell.Line.Bytewise
import LineShell.Line.Chain
import LineShell.Line.Comment
import LineShell.Line.Operator
import LineShell.Line.Reference
import LineShell.Main
import LineShell.OutStream
import LineShell.Pattern.Basic
import LineShell.Pattern.CharSet
import LineShell.Pattern.Check
import LineShell.Pattern.Escape
import LineShell.Pattern.Group
import LineShell.Program
import LineShell.Program.Announcer
import LineShell.Proofs.Acceptance
import LineShell.Proofs.Assignment
import LineShell.Proofs.Boundary
import LineShell.Proofs.Bytewise
import LineShell.Proofs.Call
import LineShell.Proofs.CanonicalPath
import LineShell.Proofs.Chain
import LineShell.Proofs.Child
import LineShell.Proofs.CleanSession
import LineShell.Proofs.Decoding
import LineShell.Proofs.DirectoryChange
import LineShell.Proofs.ErrorStream
import LineShell.Proofs.Exit
import LineShell.Proofs.Expansion
import LineShell.Proofs.Expression
import LineShell.Proofs.FieldSplitting
import LineShell.Proofs.Frame
import LineShell.Proofs.History
import LineShell.Proofs.Invocation
import LineShell.Proofs.Joining
import LineShell.Proofs.Layout
import LineShell.Proofs.LineEnding
import LineShell.Proofs.LineNumber
import LineShell.Proofs.LineReading
import LineShell.Proofs.Lines
import LineShell.Proofs.Listing
import LineShell.Proofs.Loop
import LineShell.Proofs.LossyDecoding
import LineShell.Proofs.Numeral
import LineShell.Proofs.Operator
import LineShell.Proofs.ProgramRun
import LineShell.Proofs.Rendering
import LineShell.Proofs.Respacing
import LineShell.Proofs.Search
import LineShell.Proofs.Sequence
import LineShell.Proofs.ShortCircuit
import LineShell.Proofs.Source
import LineShell.Proofs.StatusRange
import LineShell.Proofs.Steps
import LineShell.Proofs.Substitution
import LineShell.Proofs.SyntaxError
import LineShell.Proofs.Trace
import LineShell.Proofs.Truncation
import LineShell.Proofs.VariableName
import LineShell.Proofs.Word
import LineShell.Proofs.WorkingDirectory
import LineShell.Session
import LineShell.Status
import LineShell.Text.Alphabetic
import LineShell.Text.Basic
import LineShell.Text.CharClass
import LineShell.Text.Cut
import LineShell.Text.Lines
import LineShell.Text.Numeric
import LineShell.Text.Slice
import LineShell.Text.Utf8
import LineShell.Text.Word
