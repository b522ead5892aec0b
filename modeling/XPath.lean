import XPath.Expr.Equality
import XPath.Main
import XPath.Sequence
import XPath.Proofs.Hoisting
import XPath.Proofs.ItemTypes
import XPath.Proofs.Optimization
import XPath.Proofs.Purity
import XPath.Proofs.Sharing
import XPath.Proofs.Resolution
import XPath.Proofs.Reading
import XPath.Proofs.Naming
import XPath.Proofs.Scoping
import XPath.Proofs.Absence
import XPath.Proofs.Texts
import XPath.Proofs.LexicalScope
import XPath.Proofs.Standing
import XPath.Proofs.Rejection
import XPath.Proofs.Balance
import XPath.Proofs.Isolation
import XPath.Proofs.Comments
import XPath.Proofs.TypeRelations
import XPath.Proofs.Keeping
import XPath.Proofs.Loops
import XPath.Proofs.Presence
import XPath.Proofs.Selecting
import XPath.Proofs.Rechecking
import XPath.Proofs.Specialization
import XPath.Proofs.Lookup
import XPath.Proofs.Deciding
import XPath.Proofs.Simplification
import XPath.Proofs.Stability
import XPath.Proofs.OneShot
import XPath.Proofs.Spelling
import XPath.Proofs.Infix
import XPath.Proofs.Chains
import XPath.Proofs.Operands
import XPath.Proofs.Keywords
import XPath.Proofs.Precedence
import XPath.Proofs.Formation
import XPath.Proofs.Ancestry
import XPath.Proofs.Matching
import XPath.Proofs.Assembly
import XPath.Proofs.Constructing
import XPath.Proofs.Comparison
import XPath.Proofs.Writing
import XPath.Proofs.Lookahead
import XPath.Proofs.Templates
import XPath.Proofs.Tails
import XPath.Proofs.Signs
import XPath.Proofs.Division
import XPath.Proofs.Casting
import XPath.Proofs.Termination
import XPath.Proofs.Indexing
