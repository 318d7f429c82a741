import BlockScript.Main
import BlockScript.CommandLine.Launch
import BlockScript.Syntax.SExpression
import BlockScript.Source.Tokens
import BlockScript.Proofs.Grammar.Acceptance
import BlockScript.Proofs.Semantics.Interpretation
import BlockScript.Proofs.Resolution.LexicalScoping
import BlockScript.Proofs.Scope.Answers
import BlockScript.Proofs.Session.Law
import BlockScript.Proofs.Effect.EmptyScope
import BlockScript.Proofs.Effect.Execution
import BlockScript.Proofs.Effect.Frame
import BlockScript.Proofs.Loop.Break
import BlockScript.Proofs.Loop.Counting
import BlockScript.Proofs.Layout.Independence
import BlockScript.Proofs.Layout.Reading
import BlockScript.Proofs.Source.NextLine
import BlockScript.Proofs.Source.Numbering
import BlockScript.Proofs.Source.Rejoining
import BlockScript.Proofs.Session.Joining
import BlockScript.Proofs.Session.Output
import BlockScript.Proofs.Session.Prompting
import BlockScript.Proofs.Failure.Location
import BlockScript.Proofs.Recovery.Segments
import BlockScript.Proofs.Recovery.Blame
import BlockScript.Proofs.Recovery.Resumption
import BlockScript.Proofs.Cursor.Progress
import BlockScript.Proofs.Syntax.Identification
import BlockScript.Proofs.Syntax.NormalForm
