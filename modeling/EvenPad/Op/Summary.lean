import EvenPad.Op

/-!
Short lines about the configuration of an operator, for listings of a graph.
-/

namespace EvenPad

/-- Strides and dilations, then the pads with their mode. -/
def Window.summary (w : Window) : List String :=
  ["Strides: " ++ Text.nats w.strides ++ ", dilations: " ++ Text.nats w.dilations,
    "Padding: " ++ w.mode.text ++ " " ++ Text.ints w.padsBegin ++ " " ++ Text.ints w.padsEnd]

def Window.outputPaddingSummary (w : Window) : String :=
  "Output padding: " ++ Text.ints w.outputPadding

def Op.summary : Op → List String
  | .conv _ w => w.summary
  | .deconv _ w _ => w.summary ++ [w.outputPaddingSummary]
  | .fusedDeconv w _ addend =>
    w.summary ++ [w.outputPaddingSummary, "Add: " ++ addend.text]
  | .pad => []
  | .stridedSlice b e =>
    ["begin_mask: " ++ Text.binary b.toNat ++ ", end_mask: " ++ Text.binary e.toNat]
  | .const t => [t.text]
  | .source _ => []

end EvenPad
