import EvenPad.Edit

/-!
What is reported while a graph is changed, apart from the result.
-/

namespace EvenPad

inductive Event where
  | keepingUnused (node : Node)
  | declined (rule : String) (node : Node)
  | applying (rule : String) (node : Node)
  | padsUnknown (node : Node)
  | padsNegative (node : Node)
  | outputUnknown (node : Node)
  | passApplied (round : Nat) (pass : String) (patches : Nat)
  deriving DecidableEq, Inhabited

namespace Event

/-- The importance of an event: what changes a graph is for debugging, the rest for tracing. -/
def level : Event → String
  | .applying .. | .passApplied .. => "DEBUG"
  | _ => "TRACE"

def text : Event → String
  | .keepingUnused node => "Keeping unused source " ++ node.text
  | .declined rule node => "Rule \"" ++ rule ++ "\" declined " ++ node.text
  | .applying rule node => "Rule \"" ++ rule ++ "\" rewrites " ++ node.text
  | .padsUnknown node => node.text ++ ": pads depend on unknown shapes"
  | .padsNegative node => node.text ++ ": negative padding"
  | .outputUnknown node => node.text ++ ": output shape is not known"
  | .passApplied round pass patches =>
    "Round " ++ toString round ++ ", pass " ++ pass ++ ": applied " ++ toString patches
      ++ " patch(es)"

/-- One line: the level and the text. -/
def line (e : Event) : String := e.level ++ " " ++ e.text

end Event

/-- Events, the latest first. -/
abbrev Log := List Event

/-- The lines of a log, the earliest first. -/
def Log.lines (log : Log) : List String := (log.map Event.line).reverse

/-- A computation that reports events. They stay reported if it fails. -/
abbrev Logged (α : Type) := Edit Log α

namespace Logged

def report (e : Event) : Logged Unit := modify fun log => e :: log

end Logged

/-- A graph with what was reported while it was changed. -/
structure LoggedGraph where
  graph : Graph
  log : Log
  deriving DecidableEq, Inhabited

namespace LoggedGraph

variable {α : Type}

/-- A change of the graph alone. -/
def onGraph (e : Edit Graph α) : Edit LoggedGraph α :=
  e.onPart LoggedGraph.graph fun graph s => { s with graph := graph }

/-- A report alone. -/
def onLog (e : Logged α) : Edit LoggedGraph α :=
  e.onPart LoggedGraph.log fun log s => { s with log := log }

def report (e : Event) : Edit LoggedGraph Unit := onLog (Logged.report e)

end LoggedGraph

end EvenPad
