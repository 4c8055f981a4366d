import EvenPad.Extent
import EvenPad.Text

/-!
The shape of a tensor as far as it is known before a graph runs: not even the rank, or one extent
for each axis.
-/

namespace EvenPad

inductive Shape where
  | unranked
  | ranked (extents : List Extent)
  deriving DecidableEq, Inhabited

namespace Shape

/-- The shape of a rank about whose axes nothing is known. -/
def dynamic (rank : Nat) : Shape := .ranked (List.replicate rank .dynamic)

def ofLengths (lengths : List Nat) : Shape := .ranked (lengths.map .fixed)

def rank? : Shape → Option Nat
  | .unranked => none
  | .ranked extents => some extents.length

def extents? : Shape → Option (List Extent)
  | .unranked => none
  | .ranked extents => some extents

/-- Every length, when all of them are known. -/
def lengths? : Shape → Option (List Nat)
  | .unranked => none
  | .ranked extents => extents.mapM Extent.length?

/-- The rank and every extent are known. -/
def isFixed : Shape → Bool
  | .unranked => false
  | .ranked extents => extents.all Extent.isFixed

/-- Extents joined by commas, or `..` when the rank is unknown. -/
def text : Shape → String
  | .unranked => ".."
  | .ranked extents => Text.commaJoined (extents.map Extent.text)

end Shape

end EvenPad
