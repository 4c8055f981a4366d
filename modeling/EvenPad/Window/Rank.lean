import EvenPad.Failure

/-!
Windows against the number of spatial axes that they move over.
-/

namespace EvenPad

/-- The pad mode that a text names. -/
def PadMode.ofText (s : String) : Checked PadMode :=
  Checked.ofOption (.unknownPadMode s) (PadMode.ofText? s)

namespace Window

/-- The lists of a window with their lengths. -/
def lengths (w : Window) : List (SpatialList × Nat) :=
  [(.strides, w.strides.length), (.dilations, w.dilations.length),
    (.padsBegin, w.padsBegin.length), (.padsEnd, w.padsEnd.length),
    (.outputPadding, w.outputPadding.length)]

/-- Every list has one entry for each spatial axis, and the window moves and spreads by at least
one element. -/
def checkRank (w : Window) (spatialRank : Nat) : Checked Unit := do
  w.lengths.forM fun (list, length) =>
    Checked.require (length = spatialRank) (.featureLength list spatialRank length)
  Checked.require (w.strides.all (0 < ·)) (.nullStrideIn w.strides)
  Checked.require (w.dilations.all (0 < ·)) (.nullDilationIn w.dilations)

end Window

end EvenPad
