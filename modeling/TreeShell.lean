import TreeShell.Text
import TreeShell.Text.Alphanumeric
import TreeShell.Text.Blank
import TreeShell.Text.Digit
import TreeShell.Text.Integer
import TreeShell.Text.Lines
import TreeShell.Text.Lowercase
import TreeShell.Text.Printable
import TreeShell.Text.Quoted
import TreeShell.Text.Utf8
import TreeShell.Fault
import TreeShell.Instant
import TreeShell.Volume.Basic
import TreeShell.Volume.Create
import TreeShell.Volume.Relocate
import TreeShell.Volume.Snapshot
import TreeShell.Line.Lexeme
import TreeShell.Line.Redirection
import TreeShell.Line.Segment
import TreeShell.Line.ForLoop
import TreeShell.Line.Heredoc
import TreeShell.Line.Substitution
import TreeShell.Pattern.Glob
import TreeShell.Pattern.Wildcard
import TreeShell.Volume.Operation
import TreeShell.Diff.Comparison
import TreeShell.Diff.EditScript
import TreeShell.Diff.Hunk
import TreeShell.Diff.Render
import TreeShell.Patch.Apply
import TreeShell.Patch.Reader
import TreeShell.Regex.Basic
import TreeShell.Regex.CaseForms
import TreeShell.Regex.Matcher
import TreeShell.Regex.Reader
import TreeShell.Sed
import TreeShell.Options.Basic
import TreeShell.Options.Help
import TreeShell.Options.Reader
import TreeShell.Host.Basic
import TreeShell.Shell.Pipeline
import TreeShell.Line.Heredoc.Segments
import TreeShell.Line.Weight
import TreeShell.Shell.Interpreter
import TreeShell.Builtin.Basic
import TreeShell.Builtin.Content
import TreeShell.Builtin.Directory
import TreeShell.Builtin.Tree
import TreeShell.Builtin.Edit
import TreeShell.Builtin.Name
import TreeShell.Builtin.Order
import TreeShell.Builtin.Search
import TreeShell.Builtin.All
import TreeShell.Tool
import TreeShell.Proofs.Text
import TreeShell.Proofs.Fault
import TreeShell.Proofs.Diff.EditScript
import TreeShell.Proofs.Diff.Hunk
import TreeShell.Proofs.Diff.Splice
import TreeShell.Proofs.Patch.Splice
import TreeShell.Proofs.Patch.Unified
import TreeShell.Proofs.Volume.Forest
import TreeShell.Proofs.Volume.Create
import TreeShell.Proofs.Volume.History
import TreeShell.Proofs.Line.Quoting
import TreeShell.Proofs.Line.Region
import TreeShell.Proofs.Line.Operator
import TreeShell.Proofs.Line.Heredoc
import TreeShell.Proofs.Shell.Quoting
import TreeShell.Proofs.Shell.Heredoc
import TreeShell.Proofs.Patch.Normal
import TreeShell.Proofs.Diff.Shown
import TreeShell.Proofs.Patch.Context
import TreeShell.Proofs.Shell.Sequence
import TreeShell.Proofs.Shell.Termination
import TreeShell.Proofs.Diff.Comparison
import TreeShell.Proofs.Builtin.Compare
import TreeShell.Proofs.Patch.Returns
import TreeShell.Proofs.Volume.Alike
import TreeShell.Proofs.Volume.Bisimulation
import TreeShell.Proofs.Volume.Answers
import TreeShell.Proofs.Volume.Tidy
import TreeShell.Proofs.Volume.Restore
import TreeShell.Proofs.Volume.Address
import TreeShell.Proofs.Volume.Naming
import TreeShell.Proofs.Volume.Reload
import TreeShell.Proofs.Host.Export
import TreeShell.Proofs.Volume.InPlace
import TreeShell.Proofs.Tool
import TreeShell.Proofs.Patch.Sections
import TreeShell.Proofs.Line.Substitution
import TreeShell.Proofs.Line.QuotedHeredoc
import TreeShell.Proofs.Line.Moved
import TreeShell.Proofs.Shell.QuotedHeredoc
import TreeShell.Proofs.Shell.Output
import TreeShell.Proofs.Mild
import TreeShell.Proofs.Volume.Mild
import TreeShell.Proofs.Builtin.Mild
import TreeShell.Proofs.Shell.Rejection
import TreeShell.Proofs.Diff.Longest
import TreeShell.Proofs.Patch.Locate
import TreeShell.Proofs.Patch.Simultaneous
import TreeShell.Proofs.Patch.Sizes
import TreeShell.Proofs.Diff.Reported
import TreeShell.Proofs.Shell.Pipeline
import TreeShell.Proofs.Line.HeredocContent
import TreeShell.Proofs.Text.Order
import TreeShell.Proofs.Pattern.Wildcard
import TreeShell.Proofs.Volume.Frame
import TreeShell.Proofs.Volume.Removal
import TreeShell.Proofs.Volume.Move
import TreeShell.Proofs.Volume.Extension
import TreeShell.Proofs.Volume.Write
import TreeShell.Proofs.Volume.Apart
import TreeShell.Proofs.Volume.Copy
import TreeShell.Proofs.Volume.Directories
import TreeShell.Proofs.Volume.Place
import TreeShell.Proofs.Shell.Redirect
import TreeShell.Proofs.Line.Span
import TreeShell.Proofs.Shell.Expansion
import TreeShell.Proofs.Line.Balanced
import TreeShell.Proofs.Shell.Nesting
import TreeShell.Proofs.Volume.Descent
import TreeShell.Proofs.Volume.Contents
import TreeShell.Proofs.Host.Seed
import TreeShell.Proofs.Text.Utf8
import TreeShell.Proofs.Host.Places
import TreeShell.Proofs.Host.RoundTrip
import TreeShell.Proofs.Line.EndOfLine
import TreeShell.Proofs.Line.Segment
import TreeShell.Proofs.Line.Redirection
import TreeShell.Proofs.Sed
import TreeShell.Proofs.Options
import TreeShell.Proofs.Builtin.Basic
import TreeShell.Proofs.Volume.Joined
import TreeShell.Proofs.Volume.Walk
import TreeShell.Proofs.Builtin.Search
import TreeShell.Proofs.Line.Spelling
import TreeShell.Proofs.Builtin.Order
import TreeShell.Proofs.Diff.DeletesFirst
import TreeShell.Proofs.Patch.Nearest
import TreeShell.Proofs.Line.Enclosed
import TreeShell.Proofs.Shell.Splicing
import TreeShell.Proofs.Line.Reattached
