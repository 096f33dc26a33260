import ScalarScript.Text.Identifier
import ScalarScript.Text.Quoted
import ScalarScript.Decimal.Shortest
import ScalarScript.ScalarString.Basic
import ScalarScript.Value.Operand
import ScalarScript.Literal.Decode
import ScalarScript.Token.Scan
import ScalarScript.Syntax.Script
import ScalarScript.Syntax.Parser
import ScalarScript.Syntax.Parse
import ScalarScript.Document.Script
import ScalarScript.Json.Read
import ScalarScript.Json.Write
import ScalarScript.Registry
import ScalarScript.Settings
import ScalarScript.Engine.Traced
import ScalarScript.Engine.State
import ScalarScript.Engine.Evaluate
import ScalarScript.Engine.Execute
import ScalarScript.Yaml.Read
import ScalarScript.Yaml.Write
import ScalarScript.Main
import ScalarScript.Proofs.StringView
import ScalarScript.Proofs.Plan
import ScalarScript.Proofs.FailedRun
import ScalarScript.Proofs.Steps
import ScalarScript.Proofs.Constants
import ScalarScript.Proofs.StringLimit
import ScalarScript.Proofs.Grammar.Derivation
import ScalarScript.Proofs.Grammar.Unambiguous
import ScalarScript.Proofs.Grammar.Reading
import ScalarScript.Proofs.Grammar.Complete
import ScalarScript.Proofs.Grammar.Sound
import ScalarScript.Proofs.Grammar.Statement
import ScalarScript.Proofs.Grammar.Script
import ScalarScript.Proofs.Evaluation.Order
import ScalarScript.Proofs.Evaluation.TextNames
import ScalarScript.Proofs.Evaluation.Operators
import ScalarScript.Proofs.Evaluation.Escape
import ScalarScript.Proofs.Evaluation.Values
import ScalarScript.Proofs.Literal.Content
import ScalarScript.Proofs.Literal.Units
import ScalarScript.Proofs.Source.WellFormed
import ScalarScript.Proofs.IntegerRange
import ScalarScript.Proofs.Source.Same
import ScalarScript.Proofs.Source.Words
import ScalarScript.Proofs.Source.Rendering
import ScalarScript.Proofs.Document.Trees
import ScalarScript.Proofs.Document.Restored
import ScalarScript.Proofs.Json.Strings
import ScalarScript.Proofs.Json.RoundTrip
import ScalarScript.Proofs.Document.Literals
import ScalarScript.Proofs.Yaml.Characters
import ScalarScript.Proofs.Yaml.Folding
import ScalarScript.Proofs.Yaml.Escaped
import ScalarScript.Proofs.Yaml.Scalars
import ScalarScript.Proofs.Yaml.Words
import ScalarScript.Proofs.Yaml.Blocks
import ScalarScript.Proofs.Yaml.Documents
import ScalarScript.Proofs.Yaml.RoundTrip
import ScalarScript.Proofs.StringOrder
import ScalarScript.Proofs.Literal.Quotes
import ScalarScript.Proofs.Literal.Failures
import ScalarScript.Proofs.Source.Layout
import ScalarScript.Proofs.Places
import ScalarScript.Proofs.Variables
import ScalarScript.Proofs.Resumption
import ScalarScript.Proofs.LargerLimit
import ScalarScript.Proofs.Grammar.Lookahead.Reader
import ScalarScript.Proofs.Grammar.Lookahead.Expression
import ScalarScript.Proofs.Grammar.Lookahead.Script
import ScalarScript.Proofs.Grammar.Lookahead.Moved
import ScalarScript.Proofs.Grammar.Viable.Expression
import ScalarScript.Proofs.Grammar.Viable.Script
import ScalarScript.Proofs.Grammar.Indexed.Reader
import ScalarScript.Proofs.Grammar.Indexed.Mirror
import ScalarScript.Proofs.Grammar.Indexed.Within
import ScalarScript.Proofs.Source.Separators
import ScalarScript.Proofs.Source.Concatenation
import ScalarScript.Proofs.Source.Failures
import ScalarScript.Proofs.Source.Order
import ScalarScript.Proofs.IndexedAssignment
import ScalarScript.Proofs.Calls
import ScalarScript.Proofs.FailurePlaces
import ScalarScript.Proofs.Independence
import ScalarScript.Proofs.PrintedJoin
import ScalarScript.Proofs.Bracketing
import ScalarScript.Proofs.StringBuilding
import ScalarScript.Proofs.DeclaredNames
import ScalarScript.Proofs.Document.Distinct
import ScalarScript.Proofs.Document.Stored
