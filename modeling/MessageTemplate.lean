import MessageTemplate.Diagnostic
import MessageTemplate.Table
import MessageTemplate.Grammar.Stmt
import MessageTemplate.Decimal.Reading
import MessageTemplate.Decimal.Shortest
import MessageTemplate.Calendar.Reading
import MessageTemplate.Calendar.Text
import MessageTemplate.Value.Operator
import MessageTemplate.Message.Json
import MessageTemplate.Context
import MessageTemplate.Evaluation.Stmt
import MessageTemplate.Render
import MessageTemplate.CommandLine.FileTree
import MessageTemplate.Main
import MessageTemplate.Proofs.Grammar.Moving
import MessageTemplate.Proofs.Evaluation.Keeping
import MessageTemplate.Proofs.Evaluation.Shadowing
import MessageTemplate.Proofs.Interference
import MessageTemplate.Proofs.Message.Constants
import MessageTemplate.Proofs.Reserved
import MessageTemplate.Proofs.Compiling
import MessageTemplate.Proofs.Acceptance
import MessageTemplate.Proofs.Message.Growth
import MessageTemplate.Proofs.Message.NullWrites
import MessageTemplate.Proofs.Regrouping
import MessageTemplate.Proofs.Evaluation.Loops
import MessageTemplate.Proofs.Evaluation.Returning
import MessageTemplate.Proofs.Evaluation.Visiting
import MessageTemplate.Proofs.Message.Replacing
import MessageTemplate.Proofs.Message.FieldOrder
import MessageTemplate.Proofs.Message.Atomicity
import MessageTemplate.Proofs.Message.Commuting
import MessageTemplate.Proofs.Grammar.FieldTitles
import MessageTemplate.Proofs.Token.Shape
import MessageTemplate.Proofs.Grammar.Unplaced
import MessageTemplate.Proofs.Timestamps
import MessageTemplate.Proofs.Concatenation
import MessageTemplate.Proofs.Scope.Assignment
import MessageTemplate.Proofs.Value.Integer
import MessageTemplate.Proofs.Grammar.NodePlaces
import MessageTemplate.Proofs.Grammar.Termination
