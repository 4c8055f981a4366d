import EvenPad.Unpad.Pass

/-!
Passes run in rounds, until a round applies nothing or a limit on the number of patches is
reached.
-/

namespace EvenPad

structure Optimizer where
  passes : List Pass
  stepLimit : Option Nat
  deriving DecidableEq, Inhabited

/-- A graph being optimized, and the number of patches applied to it so far. -/
structure Session where
  work : LoggedGraph
  applied : Nat
  deriving DecidableEq, Inhabited

namespace Session

variable {α : Type}

/-- A change of the graph and its log. -/
def onWork (e : Edit LoggedGraph α) : Edit Session α :=
  e.onPart Session.work fun work s => { s with work := work }

end Session

namespace Optimizer

/-- The optimizer that takes uneven pads away from every kind of convolution. -/
def unpadding : Optimizer := ⟨Pass.all, none⟩

def text (o : Optimizer) : String :=
  Text.record "Optimizer"
    [("passes", Text.bracketed (o.passes.map Pass.text)),
      ("steps", Text.optional (o.stepLimit.map toString))]

/-- The limit is reached. -/
def isExhausted (o : Optimizer) (applied : Nat) : Bool := o.stepLimit.any (· ≤ applied)

/-- One pass of a round. Its patches are counted once the graph was found consistent after it. -/
def runPass (o : Optimizer) (round : Nat) (pass : Pass) : Edit Session Unit := do
  let s ← get
  let budget := o.stepLimit.map (· - s.applied)
  let patches ← (Session.onWork (pass.run budget)).within (.inRound round pass.name)
  if 0 < patches then
    Session.onWork (LoggedGraph.report (.passApplied round pass.name patches))
    let s ← get
    s.work.graph.checkEdges.within (.afterPass pass.name)
  modify fun s => { s with applied := s.applied + patches }

/-- One round: the passes in order, as long as the limit is not reached. -/
def runPasses (o : Optimizer) (round : Nat) : Edit Session Unit :=
  o.passes.forM fun pass => do
    let s ← get
    if o.isExhausted s.applied then return ()
    else o.runPass round pass

/-- Rounds until one applies nothing or the limit is reached. Every round but the last applies a
patch. -/
def rounds (o : Optimizer) (left round : Nat) : Edit Session Unit :=
  match left with
  | 0 => Checked.fault (α := Unit) .endlessWork
  | left + 1 => do
    let before ← get
    o.runPasses round
    let after ← get
    if before.applied = after.applied || o.isExhausted after.applied then return ()
    else o.rounds left (round + 1)

/-- More rounds than there are if they come to an end: more than a limit has patches, and without
a limit more than a word counts and more than one for each node. -/
def patience (o : Optimizer) (g : Graph) : Nat := o.stepLimit.getD Word.modulus + g.size + 2

/-- Optimizes the graph of a session. -/
def optimizeSession (o : Optimizer) : Edit Session Unit := do
  let s ← get
  o.rounds (o.patience s.work.graph) 0

/-- Optimizes a consistent graph, which is compacted first. -/
def optimize (o : Optimizer) : Edit LoggedGraph Unit := do
  let s ← get
  s.graph.checkEdges
  Graph.compact
  fun s =>
    match o.optimizeSession ⟨s, 0⟩ with
    | .ok _ session => .ok () session.work
    | .error f session => .error f session.work

end Optimizer

end EvenPad
