import Stylesheet.Parse
import Stylesheet.Scope.Evaluate
import Stylesheet.Text.Pattern
import Stylesheet.Proofs.Calls
import Stylesheet.Proofs.Collecting
import Stylesheet.Proofs.Coverage
import Stylesheet.Proofs.Cutoff
import Stylesheet.Proofs.Excerpt
import Stylesheet.Proofs.FreshStart
import Stylesheet.Proofs.Expressions
import Stylesheet.Proofs.Lexeme
import Stylesheet.Proofs.Lockstep
import Stylesheet.Proofs.Lookahead
import Stylesheet.Proofs.Matching
import Stylesheet.Proofs.Ordering
import Stylesheet.Proofs.LineEnd
import Stylesheet.Proofs.Seam
import Stylesheet.Proofs.SeamLists
import Stylesheet.Proofs.SeamProductions
import Stylesheet.Proofs.SeamSelectors
import Stylesheet.Proofs.SeamStatements
import Stylesheet.Proofs.SeamTokens
import Stylesheet.Proofs.Transplant
import Stylesheet.Proofs.Concatenation
import Stylesheet.Proofs.NestedStatements
import Stylesheet.Proofs.WellFormed
import Stylesheet.Proofs.Outcome
import Stylesheet.Proofs.Place
import Stylesheet.Proofs.Quotation
import Stylesheet.Proofs.Reading
import Stylesheet.Proofs.Retry
import Stylesheet.Proofs.Rollback
import Stylesheet.Proofs.SelectorSpan
import Stylesheet.Proofs.Session
import Stylesheet.Proofs.SpecialFunction
import Stylesheet.Proofs.Stable
import Stylesheet.Proofs.Relocation
import Stylesheet.Proofs.Replica
import Stylesheet.Proofs.Rerun
import Stylesheet.Proofs.Word
import Stylesheet.Proofs.NestedProperty
import Stylesheet.Proofs.Spending
import Stylesheet.Proofs.Termination
import Stylesheet.Proofs.StartLine
import Stylesheet.Proofs.Walk
import Stylesheet.Proofs.Evaluation
import Stylesheet.Proofs.ScopeStack
import Stylesheet.Proofs.Operations
import Stylesheet.Proofs.Assignment
import Stylesheet.Proofs.Closures
import Stylesheet.Proofs.Forest
import Stylesheet.Proofs.Residue
import Stylesheet.Proofs.Scanning
import Stylesheet.Proofs.Deprecations
import Stylesheet.Proofs.TextWarnings
import Stylesheet.Proofs.KeptWarnings
import Stylesheet.Proofs.Wording
import Stylesheet.Proofs.Enclosure
import Stylesheet.Proofs.Flags
import Stylesheet.Proofs.Agreement
import Stylesheet.Proofs.ByteCursor
import Stylesheet.Proofs.ByteForms
import Stylesheet.Proofs.ByteLexer
import Stylesheet.Proofs.ByteProductions
import Stylesheet.Proofs.ByteStatements
import Stylesheet.Proofs.Unescaping
import Stylesheet.Proofs.TokenCount
import Stylesheet.Proofs.Splitting
import Stylesheet.Proofs.Arguments
import Stylesheet.Proofs.ArgumentLists
import Stylesheet.Proofs.ErrorContext
import Stylesheet.Proofs.FunctionPieces
import Stylesheet.Proofs.OpenComment
import Stylesheet.Proofs.WholeWords
import Stylesheet.Proofs.Declined
import Stylesheet.Proofs.Parentheses
