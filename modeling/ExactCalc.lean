import ExactCalc.History.Span
import ExactCalc.Main
import ExactCalc.Number.Scale
import ExactCalc.Proofs.Expr.Acceptance
import ExactCalc.Proofs.Expr.Exactness
import ExactCalc.Proofs.Engine.Presentation
import ExactCalc.Proofs.History.Course
import ExactCalc.Proofs.History.Version1
import ExactCalc.Proofs.Engine.Durability
import ExactCalc.Proofs.Engine.Opening
import ExactCalc.Proofs.Engine.Storage
import ExactCalc.Proofs.Engine.Effect
import ExactCalc.Proofs.Engine.Replay
import ExactCalc.Proofs.Expr.Size
import ExactCalc.Proofs.Expr.Totality
import ExactCalc.Proofs.Expr.Rendering
import ExactCalc.Proofs.History.Found
import ExactCalc.Proofs.Console.Lines
import ExactCalc.Proofs.Engine.Texts
import ExactCalc.Proofs.Console.Eval
import ExactCalc.Proofs.Number.Power
import ExactCalc.Proofs.Number.RootDigits
import ExactCalc.Proofs.Expr.Reentry
import ExactCalc.Proofs.Expr.Positions
import ExactCalc.Proofs.Variables
import ExactCalc.Proofs.Updates
import ExactCalc.Proofs.Number.Descent
import ExactCalc.Proofs.Number.Denotation
import ExactCalc.Proofs.Number.Conversion
import ExactCalc.Proofs.Expr.Messages
import ExactCalc.Proofs.Console.Dialogue
