/-!
The length of one axis, as far as it is known before a graph runs.
-/

namespace EvenPad

/-- The length of an axis: a number, or something that only a run of the graph decides. -/
inductive Extent where
  | fixed (length : Nat)
  | dynamic
  deriving DecidableEq, Inhabited

namespace Extent

def length? : Extent → Option Nat
  | .fixed n => some n
  | .dynamic => none

def isFixed : Extent → Bool
  | .fixed _ => true
  | .dynamic => false

/-- What two views of one axis say together, unless they contradict each other. -/
def merge : Extent → Extent → Option Extent
  | .dynamic, e => some e
  | e, .dynamic => some e
  | .fixed a, .fixed b => if a = b then some (.fixed a) else none

def text : Extent → String
  | .fixed n => toString n
  | .dynamic => "?"

def detail : Extent → String
  | .fixed n => "Val(" ++ toString n ++ ")"
  | .dynamic => "Dyn"

@[simp] theorem length?_fixed (n : Nat) : (fixed n).length? = some n := rfl

@[simp] theorem length?_dynamic : dynamic.length? = none := rfl

end Extent

end EvenPad
