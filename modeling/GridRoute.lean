import GridRoute.Main
import GridRoute.Command.Directory
import GridRoute.Walk
import GridRoute.Value.Forms
import GridRoute.Proofs.SearchRun
import GridRoute.Proofs.Soundness
import GridRoute.Proofs.Convergence
import GridRoute.Proofs.RouteChain
import GridRoute.Proofs.Program.Execution
import GridRoute.Proofs.Clamp
import GridRoute.Proofs.Program.Running
import GridRoute.Proofs.Program.Simulation
import GridRoute.Proofs.Layout
import GridRoute.Proofs.Program.Printing
import GridRoute.Proofs.Program.Target
import GridRoute.Proofs.Program.Agreement
import GridRoute.Proofs.Approach
import GridRoute.Proofs.Acyclicity
import GridRoute.Proofs.OpenGround
import GridRoute.Proofs.PlainBoard
import GridRoute.Proofs.Pursuit
import GridRoute.Proofs.Surroundings
import GridRoute.Proofs.WiderWindow
import GridRoute.Proofs.Braces
import GridRoute.Proofs.CheapestOffer
import GridRoute.Proofs.Standstill
import GridRoute.Proofs.EasierGround
import GridRoute.Proofs.Recognition
import GridRoute.Proofs.Remarks
import GridRoute.Proofs.Program.Wording
import GridRoute.Proofs.Program.Recovery
import GridRoute.Proofs.Shells
import GridRoute.Proofs.UniformGround
import GridRoute.Proofs.Placing
import GridRoute.Proofs.Coverage
import GridRoute.Proofs.Admission
import GridRoute.Proofs.Tabulation
import GridRoute.Proofs.Ledger
import GridRoute.Proofs.Program.Decoration
import GridRoute.Proofs.Depth
import GridRoute.Proofs.Indentation
import GridRoute.Proofs.Balance
import GridRoute.Proofs.Program.Bracing
import GridRoute.Proofs.Landmarks
import GridRoute.Proofs.Program.Census
import GridRoute.Proofs.Budget
import GridRoute.Proofs.Chronicle
import GridRoute.Proofs.Recording
import GridRoute.Proofs.Beeline
import GridRoute.Proofs.Heading
import GridRoute.Proofs.Grammar
import GridRoute.Proofs.Survey
