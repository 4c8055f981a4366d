import EvenPad.Shape.Axes
import EvenPad.Window.Rank

/-!
Ranks that a caller makes up. A rank that comes from a list is as long as the list; one that does
not may be more than any list can hold, and asking for that many entries is a fault.
-/

namespace EvenPad.Rank

/-- No list has this many entries of eight bytes or more. -/
def limit : Nat := 576460752303423488

/-- A rank for which there can be a list. -/
def accept (rank : Nat) : Checked Nat :=
  if rank < limit then .ok rank else Checked.fault (.rankTooLarge rank)

/-- A shape of a made-up rank. -/
def dynamicShape (rank : Nat) : Checked Shape := (accept rank).map Shape.dynamic

/-- The default steps and pads of a made-up rank. -/
def defaults (rank : Nat) : Checked (List Nat × List Int) :=
  (accept rank).map fun rank => (Window.unitSteps rank, Window.zeroPads rank)

/-- A window with its defaults for a made-up rank, which counts only if a list is missing. -/
def windowDefaults (w : Window) (rank : Nat) : Checked Window :=
  if w.lengths.any fun (_, length) => length = 0 then (accept rank).map w.withDefaults
  else .ok (w.withDefaults rank)

/-- The tail of a shape of a made-up rank, which counts only if the shape has none. -/
def tail (s : Shape) (axis rank : Nat) : Checked (List Extent) :=
  match s with
  | .unranked => (accept rank).bind (s.tail axis)
  | .ranked _ => s.tail axis rank

end EvenPad.Rank
