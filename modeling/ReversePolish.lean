import ReversePolish.Converter.Session
import ReversePolish.Stack.Session
import ReversePolish.Queue.Session
import ReversePolish.Registry.Operators
import ReversePolish.Registry.Session
import ReversePolish.Table
import ReversePolish.Proofs.Moves
import ReversePolish.Proofs.Yard
import ReversePolish.Proofs.Refinement
import ReversePolish.Proofs.Capacity
import ReversePolish.Proofs.Outcome
import ReversePolish.Proofs.Release
import ReversePolish.Proofs.Expression
import ReversePolish.Proofs.Events
import ReversePolish.Proofs.StackOrder
import ReversePolish.Proofs.Conservation
import ReversePolish.Proofs.Evaluation
import ReversePolish.Proofs.Group
import ReversePolish.Proofs.Machine
import ReversePolish.Proofs.Tiling
import ReversePolish.Proofs.Relocation
import ReversePolish.Proofs.Spacing
import ReversePolish.Proofs.Frame
import ReversePolish.Proofs.Once
import ReversePolish.Proofs.Refusal
import ReversePolish.Proofs.Observation
import ReversePolish.Proofs.Online
import ReversePolish.Proofs.Resumption
import ReversePolish.Proofs.Handout
import ReversePolish.Proofs.Unwinding
import ReversePolish.Proofs.Quotation
import ReversePolish.Proofs.Reading
import ReversePolish.Proofs.Rows
import ReversePolish.Proofs.SingleMoves
import ReversePolish.Proofs.Display
import ReversePolish.Proofs.Layout
import ReversePolish.Proofs.Union
import ReversePolish.Proofs.Sameness
import ReversePolish.Proofs.ReadOnly
import ReversePolish.Proofs.Progress
import ReversePolish.Proofs.BoundedList
