import ConditionTree.CommandLine.Arguments
import ConditionTree.CommandLine.Invocation
import ConditionTree.CommandLine.Run
import ConditionTree.Condition
import ConditionTree.Condition.Infix
import ConditionTree.Condition.Outline
import ConditionTree.Condition.Text
import ConditionTree.Condition.Violation
import ConditionTree.Condition.Wire
import ConditionTree.Config
import ConditionTree.Diff
import ConditionTree.Document
import ConditionTree.Edit.Change
import ConditionTree.Edit.Editor
import ConditionTree.Edit.Operations
import ConditionTree.Edit.Session
import ConditionTree.Json
import ConditionTree.Json.Pointer
import ConditionTree.Json.Text
import ConditionTree.Json5.Quoted
import ConditionTree.Json5.Reader
import ConditionTree.Json5.Space
import ConditionTree.Main
import ConditionTree.Number.Decimal
import ConditionTree.Number.Double
import ConditionTree.Number.Layout
import ConditionTree.Number.Numeral
import ConditionTree.Operator
import ConditionTree.Path
import ConditionTree.Summary
import ConditionTree.Text.Blank
import ConditionTree.Text.Letter
import ConditionTree.Text.Paint
import ConditionTree.Proofs.Edits
import ConditionTree.Proofs.Runs
import ConditionTree.Proofs.Violations
import ConditionTree.Proofs.Uniform
import ConditionTree.Proofs.Override
import ConditionTree.Proofs.Rounding
import ConditionTree.Proofs.Wire
import ConditionTree.Proofs.Saving
import ConditionTree.Proofs.Ascent
import ConditionTree.Proofs.Sites
import ConditionTree.Proofs.Deletion
import ConditionTree.Proofs.Failure
import ConditionTree.Proofs.RoundTrip
import ConditionTree.Proofs.Enclosing
import ConditionTree.Proofs.Leaves
import ConditionTree.Proofs.Locality
import ConditionTree.Proofs.Meaning
import ConditionTree.Proofs.Undo
import ConditionTree.Proofs.Blame
import ConditionTree.Proofs.InfixReading
import ConditionTree.Proofs.Documents
import ConditionTree.Proofs.Signs
import ConditionTree.Proofs.Decimals
import ConditionTree.Proofs.Numerals
import ConditionTree.Proofs.Normal
import ConditionTree.Proofs.Spelling
import ConditionTree.Proofs.Endings
import ConditionTree.Proofs.Printing
import ConditionTree.Proofs.Commands
import ConditionTree.Proofs.Refinement
import ConditionTree.Proofs.TreeText
import ConditionTree.Proofs.Flattening
import ConditionTree.Proofs.Courses
import ConditionTree.Proofs.Repair
import ConditionTree.Proofs.Arguments
import ConditionTree.Proofs.Delivery
import ConditionTree.Proofs.Outcomes
import ConditionTree.Proofs.Alternation
import ConditionTree.Proofs.Polarity
import ConditionTree.Proofs.Walk
import ConditionTree.Proofs.Reports
import ConditionTree.Proofs.Collapse
import ConditionTree.Proofs.Extent
import ConditionTree.Proofs.Figures
import ConditionTree.Proofs.Scripts
import ConditionTree.Proofs.Lines
import ConditionTree.Proofs.Differences
import ConditionTree.Proofs.Outlines
import ConditionTree.Proofs.Settings
import ConditionTree.Proofs.PathSegments
import ConditionTree.Proofs.Visits
