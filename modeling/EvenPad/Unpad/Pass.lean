import EvenPad.RuleSet
import EvenPad.Unpad.Forward
import EvenPad.Unpad.Transposed

/-!
The four passes: each has the rules for some kinds of convolution.
-/

namespace EvenPad.Unpad

/-- A rule for forward convolutions of one kind. -/
def forwardRule (name : String) (kind : ConvKind) : Rule where
  type := .conv
  name := name
  propose g node :=
    match node.op with
    | .conv k w => if k = kind then forward k w g node else return none
    | _ => return none

/-- A rule for transposed convolutions of one kind. -/
def deconvRule (name : String) (kind : ConvKind) : Rule where
  type := .deconv
  name := name
  propose g node :=
    match node.op with
    | .deconv k w takesOutputShape =>
      if k = kind then deconv k w takesOutputShape g node else return none
    | _ => return none

/-- A rule for transposed convolutions with an addend. -/
def fusedRule (name : String) : Rule where
  type := .fusedDeconv
  name := name
  propose g node :=
    match node.op with
    | .fusedDeconv w takesOutputShape _ => fused w takesOutputShape g node
    | _ => return none

end EvenPad.Unpad

namespace EvenPad

inductive Pass where
  | conv
  | groupConv
  | convBackprop
  | groupConvBackprop
  deriving DecidableEq, Inhabited

namespace Pass

def name : Pass → String
  | .conv => "conv-asym-padding"
  | .groupConv => "group-conv-asym-padding"
  | .convBackprop => "conv-backprop-data-asym-padding"
  | .groupConvBackprop => "group-conv-backprop-data-asym-padding"

def all : List Pass := [.conv, .groupConv, .convBackprop, .groupConvBackprop]

/-- The pass of a name. -/
def ofName? (name : String) : Option Pass := all.find? (·.name = name)

/-- The rules of a pass. The one for grouped transposed convolutions also has that for transposed
convolutions with an addend. -/
def rules : Pass → RuleSet
  | .conv => [Unpad.forwardRule "conv-asym-padding" .convolution]
  | .groupConv => [Unpad.forwardRule "group-conv-asym-padding" .groupConvolution]
  | .convBackprop =>
    [Unpad.deconvRule "conv-backprop-data-asym-padding" .convolutionBackpropData]
  | .groupConvBackprop =>
    [Unpad.fusedRule "fused-conv-backprop-data-asym-padding",
      Unpad.deconvRule "group-conv-backprop-data-asym-padding" .groupConvolutionBackpropData]

/-- The pass with its rules. -/
def text (p : Pass) : String :=
  let title := match p with
    | .conv => "ConvolutionAsymPadding"
    | .groupConv => "GroupConvolutionAsymPadding"
    | .convBackprop => "ConvBackpropDataAsymPadding"
    | .groupConvBackprop => "GroupConvBackpropDataAsymPadding"
  title ++ "(" ++ RuleSet.text p.rules ++ ")"

/-- Applies patches to a graph until no rule of the pass has one or the budget is spent, and
returns their number. -/
def run (p : Pass) (budget : Option Nat) : Edit LoggedGraph Nat :=
  (RuleSet.run p.rules budget).within (.runningPass p.name)

end Pass

end EvenPad
