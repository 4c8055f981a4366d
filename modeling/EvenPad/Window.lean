import EvenPad.Text

/-!
How a filter moves over its input: strides, dilations and pads for each spatial axis, and how pads
that are not written down are derived.
-/

namespace EvenPad

/-- Where the pads of a window come from. -/
inductive PadMode where
  /-- The pads are taken as written. -/
  | explicit
  /-- The pads give each output the length `⌈input / stride⌉`; an odd unit goes at the end, or at
  the beginning when the convolution is transposed. -/
  | sameUpper
  /-- The same with the odd unit on the other side. -/
  | sameLower
  /-- There are no pads. -/
  | valid
  deriving DecidableEq, Inhabited

namespace PadMode

def isSame : PadMode → Bool
  | .sameUpper | .sameLower => true
  | _ => false

def text : PadMode → String
  | .explicit => "explicit"
  | .sameUpper => "same_upper"
  | .sameLower => "same_lower"
  | .valid => "valid"

def detail : PadMode → String
  | .explicit => "Explicit"
  | .sameUpper => "SameUpper"
  | .sameLower => "SameLower"
  | .valid => "Valid"

/-- The mode that a text names, whatever the case of its ASCII letters. -/
def ofText? (s : String) : Option PadMode :=
  match s.map Char.toLower with
  | "explicit" | "notset" => some .explicit
  | "same_upper" => some .sameUpper
  | "same_lower" => some .sameLower
  | "valid" => some .valid
  | _ => none

end PadMode

/-- The movement of a filter, one entry for each spatial axis. An empty list is one that was not
written down. -/
structure Window where
  strides : List Nat
  dilations : List Nat
  padsBegin : List Int
  padsEnd : List Int
  mode : PadMode
  outputPadding : List Int
  deriving DecidableEq, Inhabited

namespace Window

/-- One step per output, over adjacent elements. -/
def unitSteps (spatialRank : Nat) : List Nat := List.replicate spatialRank 1

def zeroPads (spatialRank : Nat) : List Int := List.replicate spatialRank 0

/-- Pads of the spatial axes extended to all axes: batch and channel are never padded. -/
def fullPads (pads : List Int) : List Int := 0 :: 0 :: pads

/-- The same movement over an input that is padded already. -/
def unpadded (w : Window) : Window :=
  let rank := max w.padsBegin.length w.padsEnd.length
  { w with padsBegin := zeroPads rank, padsEnd := zeroPads rank, mode := .explicit }

/-- The spatial rank that the lists tell, if any is written down. -/
def spatialRank? (w : Window) : Option Nat :=
  [w.strides.length, w.dilations.length, w.padsBegin.length, w.padsEnd.length,
    w.outputPadding.length].find? (0 < ·)

/-- The lists that are not written down filled in: ones for steps, zeros for pads. -/
def withDefaults (w : Window) (spatialRank : Nat) : Window where
  strides := if w.strides.isEmpty then unitSteps spatialRank else w.strides
  dilations := if w.dilations.isEmpty then unitSteps spatialRank else w.dilations
  padsBegin := if w.padsBegin.isEmpty then zeroPads spatialRank else w.padsBegin
  padsEnd := if w.padsEnd.isEmpty then zeroPads spatialRank else w.padsEnd
  mode := w.mode
  outputPadding := if w.outputPadding.isEmpty then zeroPads spatialRank else w.outputPadding

/-- Some axis is padded differently at its two ends. -/
def isAsymmetric (w : Window) : Bool := w.padsBegin != w.padsEnd

/-- The pads set to zero, as many as there were. -/
def clearPads (w : Window) : Window :=
  { w with padsBegin := w.padsBegin.map fun _ => 0, padsEnd := w.padsEnd.map fun _ => 0 }

def text (w : Window) : String :=
  Text.record "ConvParams"
    [("strides", Text.nats w.strides), ("dilations", Text.nats w.dilations),
      ("pads_begin", Text.ints w.padsBegin), ("pads_end", Text.ints w.padsEnd),
      ("auto_pad", w.mode.detail), ("output_padding", Text.ints w.outputPadding)]

end Window

end EvenPad
