import Mend.Main
import Mend.Command.Memory
import Mend.Proofs.Command.Check
import Mend.Proofs.Machine.Expect
import Mend.Proofs.Parse.Diagnostics
import Mend.Proofs.Parse.Exhaustion
import Mend.Proofs.Parse.Language
import Mend.Proofs.Parse.Operators
import Mend.Proofs.Parse.Rendering
import Mend.Proofs.Parse.Safety
import Mend.Proofs.Parse.Shape
import Mend.Proofs.Parse.Simulation
import Mend.Proofs.Parse.Stability
import Mend.Proofs.Parse.Supply
import Mend.Proofs.Parse.Termination
import Mend.Proofs.Repair.Choice
import Mend.Proofs.Repair.Conclusion
import Mend.Proofs.Repair.Ending
import Mend.Proofs.Repair.Optimal
import Mend.Proofs.Token.Canonical
import Mend.Proofs.Token.Seam
import Mend.Proofs.Tree.Outline
