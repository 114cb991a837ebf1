import Workflow.Block.Scripted
import Workflow.Block.Standard
import Workflow.Component.Document
import Workflow.Log.Bus
import Workflow.Log.Stamped
import Workflow.Main
import Workflow.Run.Runner
import Workflow.Validation.Check
import Workflow.CommandLine.Perform
import Workflow.Proofs.Run.Contained
import Workflow.Proofs.Run.Cycles
import Workflow.Proofs.Run.Reached
import Workflow.Proofs.Validation.Loops
import Workflow.Proofs.Validation.Validated
import Workflow.Proofs.Run.Pruned
import Workflow.Proofs.Run.History
import Workflow.Proofs.Environment
import Workflow.Proofs.Run.Informed
import Workflow.Proofs.Run.Pool
import Workflow.Proofs.Run.Branch
import Workflow.Proofs.Block.ForEach
import Workflow.Proofs.Run.Levels
import Workflow.Proofs.Run.Logged
import Workflow.Proofs.Run.Written
import Workflow.Proofs.Component.Accepted
import Workflow.Proofs.Component.Preorder
import Workflow.Proofs.Run.Reordered
import Workflow.Proofs.Run.Unrelated
import Workflow.Proofs.State.Independent
import Workflow.Proofs.Template.Quoted
import Workflow.Proofs.Block.Failing
import Workflow.Proofs.Run.LoopBodies
