import EvenPad.Op.Summary
import EvenPad.Op.Attributes
import EvenPad.Optimizer
import EvenPad.Rank
import EvenPad.Proofs.Edit
import EvenPad.Proofs.Provenance
import EvenPad.Proofs.Graph.Edges
import EvenPad.Proofs.Graph.Built
import EvenPad.Proofs.Graph.Acyclic
import EvenPad.Proofs.Graph.Progress
import EvenPad.Proofs.Volume
import EvenPad.Proofs.Patch.Draft
import EvenPad.Proofs.Patch.Touched
import EvenPad.Proofs.Patch.Progress
import EvenPad.Proofs.Unpad.Forward
import EvenPad.Proofs.Conv
import EvenPad.Proofs.Conv.Grown
import EvenPad.Proofs.Conv.Unpadded
import EvenPad.Proofs.Slice
import EvenPad.Proofs.Slice.Length
import EvenPad.Proofs.Unpad.Transposed
import EvenPad.Proofs.Unpad.Target
import EvenPad.Proofs.Unpad.Parts
import EvenPad.Proofs.Patch.Apply
import EvenPad.Proofs.Patch.Rewrite
import EvenPad.Proofs.Unpad.Rewrites
import EvenPad.Proofs.Graph.Order
import EvenPad.Proofs.RuleSet
import EvenPad.Proofs.RuleSet.Progress
import EvenPad.Proofs.Graph.Compact
import EvenPad.Proofs.Graph.Twins
import EvenPad.Proofs.Unpad.Accept
import EvenPad.Proofs.Unpad.Total
import EvenPad.Proofs.Unpad.Pass
import EvenPad.Proofs.Unpad.Progress
import EvenPad.Proofs.Unpad.Fixpoint
import EvenPad.Proofs.Unpad.Addend
import EvenPad.Proofs.Interface
import EvenPad.Proofs.Graph.Compact.Progress
import EvenPad.Proofs.Optimizer
import EvenPad.Proofs.Reachable
import EvenPad.Proofs.Op.Refinement
import EvenPad.Proofs.Patch.Ready
import EvenPad.Proofs.Patch.Effect
import EvenPad.Proofs.Graph.Referenced
import EvenPad.Proofs.Graph.Compact.Dataflow
import EvenPad.Proofs.RuleSet.Failure
import EvenPad.Proofs.Unpad.Failure
import EvenPad.Proofs.Patch.Failure
import EvenPad.Proofs.Graph.Draws
import EvenPad.Proofs.Graph.Inputs
import EvenPad.Proofs.Unpad.Draws
import EvenPad.Proofs.Unpad.Expand.Live
import EvenPad.Proofs.Optimizer.Limit
import EvenPad.Proofs.Faultless
import EvenPad.Proofs.Graph.Compact.Normal
import EvenPad.Proofs.Graph.Compact.Kept
import EvenPad.Proofs.Graph.Assembled
import EvenPad.Proofs.Graph.Compact.Faults
import EvenPad.Proofs.Strict
import EvenPad.Proofs.Strict.Window
import EvenPad.Proofs.Strict.SamePads
import EvenPad.Proofs.Strict.Conv
import EvenPad.Proofs.Strict.Op
import EvenPad.Proofs.Graph.Order.Loops
import EvenPad.Proofs.Graph.Connect
import EvenPad.Proofs.Graph.Wiring
import EvenPad.Proofs.Graph.Compact.Infers
import EvenPad.Proofs.Window.Forward
import EvenPad.Proofs.Window.Same
import EvenPad.Proofs.Conv.Resolve
import EvenPad.Proofs.Conv.Same
import EvenPad.Proofs.Conv.CutBack
import EvenPad.Proofs.Window.Positions
import EvenPad.Proofs.Conv.Geometry
import EvenPad.Proofs.Conv.Written
import EvenPad.Proofs.Conv.Query
import EvenPad.Proofs.Edit.Leads
import EvenPad.Proofs.RuleSet.Reports
import EvenPad.Proofs.Unpad.Reports
import EvenPad.Proofs.Optimizer.Counter
import EvenPad.Proofs.Unpad.Obstacle
import EvenPad.Proofs.Optimizer.Outcome
import EvenPad.Proofs.Op.Attributes
import EvenPad.Proofs.Graph.Order.DepthFirst
