import Reckon.Main
import Reckon.Highlight
import Reckon.Proofs.Grammar.Cursor
import Reckon.Proofs.Grammar.Derivation
import Reckon.Proofs.Grammar.Matching
import Reckon.Proofs.Grammar.Settling.Text
import Reckon.Proofs.Syntax.Acceptance
import Reckon.Proofs.Evaluation.Recursion
import Reckon.Proofs.Syntax.Parents
import Reckon.Proofs.Syntax.Placement
import Reckon.Proofs.Evaluation.Literal
import Reckon.Proofs.Expression.Basic
import Reckon.Proofs.Expression.Phrase
import Reckon.Proofs.Expression.Denotation
import Reckon.Proofs.Evaluation.Ordinary
import Reckon.Proofs.Expression.Rendering
import Reckon.Proofs.Expression.Spacing
import Reckon.Proofs.Evaluation.Meaning
import Reckon.Proofs.Syntax.Depth
import Reckon.Proofs.Syntax.NestingLimit
import Reckon.Proofs.Evaluation.Unfolded
import Reckon.Proofs.Evaluation.Sharing
import Reckon.Proofs.Evaluation.Spans
import Reckon.Proofs.Evaluation.Trees
import Reckon.Proofs.Grammar.Respacing
import Reckon.Proofs.Syntax.Outline
import Reckon.Proofs.Syntax.Tokens
import Reckon.Proofs.Evaluation.Tokens
import Reckon.Proofs.Grammar.Embedded
import Reckon.Proofs.Evaluation.Results
import Reckon.Proofs.Evaluation.Blame
import Reckon.Proofs.Evaluation.Reproduction
import Reckon.Proofs.Grammar.Continuation
import Reckon.Proofs.Syntax.Expected
import Reckon.Proofs.Syntax.Threshold
import Reckon.Proofs.Syntax.Shallow
import Reckon.Proofs.Evaluation.Lookups
import Reckon.Proofs.Value.Literal
import Reckon.Proofs.Evaluation.Scalars
import Reckon.Proofs.Syntax.Coverage
import Reckon.Proofs.Syntax.Lossless
import Reckon.Proofs.Command.Binding
import Reckon.Proofs.Highlight
import Reckon.Proofs.Evaluation.Indexing
import Reckon.Proofs.Report.Heading
import Reckon.Proofs.Report.Place
import Reckon.Proofs.Syntax.Visits
import Reckon.Proofs.Syntax.Links
import Reckon.Proofs.Command.Modes
import Reckon.Proofs.Value.Integers
