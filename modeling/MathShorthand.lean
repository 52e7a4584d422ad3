import MathShorthand.Compile
import MathShorthand.Parser.State
import MathShorthand.Proofs.Grammar.Phrase
import MathShorthand.Proofs.Grammar.Reading
import MathShorthand.Proofs.Grammar.Derivable
import MathShorthand.Proofs.Grammar.Accepted
import MathShorthand.Proofs.Grammar.Sequence
import MathShorthand.Proofs.Tree.InOrder
import MathShorthand.Proofs.Tree.Height
import MathShorthand.Proofs.Pattern.Takes
import MathShorthand.Proofs.Pattern.Covered
import MathShorthand.Proofs.Pattern.Search
import MathShorthand.Proofs.Pattern.Wrapped
import MathShorthand.Proofs.Operator.Lawful
import MathShorthand.Proofs.Pattern.Lawful
import MathShorthand.Proofs.Token.Slices
import MathShorthand.Proofs.Token.Merge
import MathShorthand.Proofs.Compile.Stages
import MathShorthand.Proofs.Pattern.Words
import MathShorthand.Proofs.Token.Parted
import MathShorthand.Proofs.Token.Respacing
import MathShorthand.Proofs.Tree.Spelling
import MathShorthand.Proofs.Grammar.Follow
import MathShorthand.Proofs.Grammar.Bounds
import MathShorthand.Proofs.Grammar.Refusal
import MathShorthand.Proofs.Grammar.Failure
import MathShorthand.Proofs.Grammar.Earliest
import MathShorthand.Proofs.Grammar.Link
import MathShorthand.Proofs.Tree.Ordered
import MathShorthand.Proofs.Grammar.Redundant
import MathShorthand.Proofs.Compile.Enclosed
import MathShorthand.Proofs.Grammar.Limit
import MathShorthand.Proofs.Compile.BackToBack
import MathShorthand.Proofs.Grammar.Respelled
import MathShorthand.Proofs.Token.Folded
import MathShorthand.Proofs.Compile.LowerCase
import MathShorthand.Proofs.Tree.Chain
import MathShorthand.Proofs.Compile.Braces
import MathShorthand.Proofs.Parser.Levels
import MathShorthand.Proofs.Parser.Ending
import MathShorthand.Proofs.Parser.Session
import MathShorthand.Proofs.Grammar.Spine
import MathShorthand.Proofs.Tree.Symbols
import MathShorthand.Proofs.Tree.Frame
import MathShorthand.Proofs.Token.NameLanguage
import MathShorthand.Proofs.Token.Remaining
import MathShorthand.Proofs.Tree.TokenTexts
import MathShorthand.Proofs.Operator.Order
import MathShorthand.Proofs.Operator.Literal
