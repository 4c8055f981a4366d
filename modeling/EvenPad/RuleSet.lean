import EvenPad.Graph.Compact
import EvenPad.Patch
import EvenPad.Text.Quoted

/-!
Changing a graph by rules. Nodes wait in a queue, in evaluation order at first; the first rule
that has a patch for the node in front gets it applied, and the nodes that the patch touched are
queued again.
-/

namespace EvenPad

/-- A rule for one type of operator: it looks at a node and may propose a patch. -/
structure Rule where
  type : OpType
  name : String
  propose : Graph → Node → Logged (Option Patch)

/-- Rules in the order in which they are tried. -/
abbrev RuleSet := List Rule

namespace RuleSet

def rulesFor (r : RuleSet) (op : Op) : List Rule := r.filter (·.type = op.type)

/-- The names of the rules in alphabetical order. -/
def ruleNames (r : RuleSet) : List String := (r.map Rule.name).mergeSort fun a b => a ≤ b

/-- The rules by their names. -/
def text (r : RuleSet) : String := Text.bracketed (r.ruleNames.map Text.quoted)

/-- There is a rule for the node at a position, which has to be in the table. -/
def concerns (r : RuleSet) (g : Graph) (id : Nat) : Checked Bool := do
  return !(r.rulesFor (← g.nodeAt id).op).isEmpty

/-- Tries some rules on a node until one proposes a patch, and applies that. The result is the
touched nodes, or nothing if no rule has a patch. -/
def tryRules (node : Node) : List Rule → Edit LoggedGraph (Option (List Nat))
  | [] => return none
  | rule :: rest => do
    let s ← get
    let proposed ←
      (LoggedGraph.onLog (rule.propose s.graph node)).within (.evaluatingRule rule.name node)
    match proposed with
    | none => do
      LoggedGraph.report (.declined rule.name node)
      tryRules node rest
    | some patch => do
      LoggedGraph.report (.applying rule.name node)
      let touched ← (LoggedGraph.onGraph patch.apply).within (.applyingRule rule.name node)
      return some touched

/-- A node that nothing reads and that is no output waits for compaction only. -/
def isBypassed (g : Graph) (id : Nat) (node : Node) : Bool :=
  node.isUnread && g.outputs.all (·.node ≠ id)

/-- One node of the queue. -/
def step (r : RuleSet) (id : Nat) : Edit LoggedGraph (Option (List Nat)) := do
  let s ← get
  let node ← s.graph.nodeAt id
  if isBypassed s.graph id node then return none
  else tryRules node (r.rulesFor node.op)

/-- The touched nodes that there are rules for join the queue, each once. -/
def requeue (r : RuleSet) (touched queue : List Nat) : Edit LoggedGraph (List Nat) := do
  let s ← get
  (touched.foldlM (fun queue id => do
    if (← r.concerns s.graph id) && !queue.contains id then return queue ++ [id]
    else return queue) queue : Checked (List Nat))

/-- Works through the queue while patches are allowed, and counts those that were applied. What
happens when the allowance is used up with nodes still in the queue is up to the caller. -/
def drain (r : RuleSet) (usedUp : Nat → Checked Nat) (allowance : Nat) (queue : List Nat)
    (applied : Nat) : Edit LoggedGraph Nat :=
  match queue, allowance with
  | [], _ => return applied
  | _ :: _, 0 => usedUp applied
  | id :: rest, left + 1 => do
    match ← r.step id with
    | none => drain r usedUp (left + 1) rest applied
    | some touched => do
      let queue ← r.requeue touched rest
      drain r usedUp left queue (applied + 1)
termination_by (allowance, queue.length)

/-- More patches than a run without a budget applies if it comes to an end: more than a word
counts, and more than one for each node. -/
def patience (g : Graph) : Nat := Word.modulus + g.size

/-- Applies patches until no rule has one or the budget is spent, compacts the graph if it
changed, and returns the number of applied patches. -/
def run (r : RuleSet) (budget : Option Nat) : Edit LoggedGraph Nat := do
  let s ← get
  let order ← s.graph.evalOrder
  let queue ← (order.filterM (r.concerns s.graph) : Checked (List Nat))
  let applied ←
    match budget with
    | some allowance => r.drain .ok allowance queue 0
    | none =>
      r.drain (fun _ => Checked.fault .endlessWork) (patience s.graph) queue 0
  if 0 < applied then Graph.compact
  return applied

end RuleSet

end EvenPad
