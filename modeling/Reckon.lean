import Reckon.Main
import Reckon.Proofs.Reading
import Reckon.Proofs.Grammar
import Reckon.Proofs.Acceptance
import Reckon.Proofs.Lexeme
import Reckon.Proofs.MaximalMunch
import Reckon.Proofs.NumberText
import Reckon.Proofs.Signs
import Reckon.Proofs.Writing
import Reckon.Proofs.RoundTrip
import Reckon.Proofs.TreeHeight
import Reckon.Proofs.Postorder
import Reckon.Proofs.Naming
import Reckon.Proofs.Lookahead
import Reckon.Proofs.ViablePrefix
import Reckon.Proofs.Agreement
import Reckon.Proofs.Splicing
import Reckon.Proofs.Inlining
import Reckon.Proofs.History
import Reckon.Proofs.Variables
import Reckon.Proofs.Placement
import Reckon.Proofs.Wording
import Reckon.Proofs.Places
import Reckon.Proofs.Caret
import Reckon.Proofs.Layout
import Reckon.Proofs.Dependence
import Reckon.Proofs.Tiling
import Reckon.Proofs.Retyping
import Reckon.Proofs.ArrowWidth
import Reckon.Proofs.Conversation
import Reckon.Proofs.Commuting
import Reckon.Proofs.Levels
import Reckon.Proofs.Headroom
import Reckon.Proofs.EndOfSource
import Reckon.Proofs.LineNumbers
import Reckon.Proofs.Concatenation
import Reckon.Proofs.Tips
import Reckon.Proofs.ClassOrder
import Reckon.Proofs.Rounding
import Reckon.Proofs.Literals
import Reckon.Proofs.Verbosity
import Reckon.Proofs.Budget
import Reckon.Proofs.Turns
import Reckon.Proofs.FirstRejection
