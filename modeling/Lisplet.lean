import Lisplet.Document.Workspace
import Lisplet.Main
import Lisplet.Proofs.CommandLine.Limit
import Lisplet.Proofs.CommandLine.SelfTest
import Lisplet.Proofs.Console.Chunks
import Lisplet.Proofs.Console.Rounds
import Lisplet.Proofs.Console.Script
import Lisplet.Proofs.Decimal.Fidelity
import Lisplet.Proofs.Decimal.Recognition
import Lisplet.Proofs.Document.Coverage
import Lisplet.Proofs.Document.DefinedNames
import Lisplet.Proofs.Document.Hover
import Lisplet.Proofs.Document.Publication
import Lisplet.Proofs.Evaluation.Application
import Lisplet.Proofs.Evaluation.Checks
import Lisplet.Proofs.Evaluation.ClosureFree
import Lisplet.Proofs.Evaluation.Equality
import Lisplet.Proofs.Evaluation.Independence
import Lisplet.Proofs.Evaluation.Parameters
import Lisplet.Proofs.Evaluation.Scopes
import Lisplet.Proofs.Evaluation.Unread
import Lisplet.Proofs.Reading.Grammar
import Lisplet.Proofs.Reading.Stability
