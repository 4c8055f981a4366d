import EvenPad.Graph.Basic

/-!
Why an operation fails. A refusal has a cause and says where it arose, outermost place first; a
fault is a use that breaks a promise of its caller, such as an index past the end of a table.
-/

namespace EvenPad

/-! ## Causes -/

/-- The lists that have to have one entry for each spatial axis. -/
inductive SpatialList where
  | filterShape | outputShape | strides | dilations | padsBegin | padsEnd | outputPadding
  deriving DecidableEq, Inhabited

def SpatialList.text : SpatialList → String
  | .filterShape => "Filter shape"
  | .outputShape => "Output shape"
  | .strides => "Strides"
  | .dilations => "Dilations"
  | .padsBegin => "Pads begin"
  | .padsEnd => "Pads end"
  | .outputPadding => "Output padding"

/-- The operands that have to be constant vectors of integers. -/
inductive VectorOperand where
  | padBegin | padEnd | sliceBegin | sliceEnd | sliceStrides
  deriving DecidableEq, Inhabited

def VectorOperand.text : VectorOperand → String
  | .padBegin => "Pad begin"
  | .padEnd => "Pad end"
  | .sliceBegin => "StridedSlice begin"
  | .sliceEnd => "StridedSlice end"
  | .sliceStrides => "StridedSlice strides"

inductive Cause where
  -- extents, shapes and tensors
  | dynamicExtent
  | negativeExtent (length : Int)
  | axisOutOfRange (axis : Nat) (shape : Shape)
  | rankMismatch (expected : Nat) (shape : Shape)
  | notIntegers (tensor : Tensor)
  | negativeElement (value : Int) (tensor : Tensor)
  | notSingleElement (tensor : Tensor)
  -- windows
  | unknownPadMode (text : String)
  | spatialLength (list : SpatialList) (expected actual : Nat)
  | featureLength (list : SpatialList) (expected actual : Nat)
  | nullStrideOn (axis : Nat)
  | nullDilationOn (axis : Nat)
  | nullStrideIn (strides : List Nat)
  | nullDilationIn (dilations : List Nat)
  | emptyFilter (axis : Nat)
  | filterDoesNotFit (field padded : Int) (axis : Nat)
  | nullSameGeometry
  -- convolutions
  | notForward (kind : ConvKind)
  | notTransposed (kind : ConvKind)
  | notDataAndFilters (inputs : List Fact)
  | convInputCount (kind : ConvKind) (expected actual : Nat)
  | elementTypesDiffer (data filters : ElementType)
  | dataRank (data : Fact)
  | forwardFilterRank (kind : ConvKind) (rank spatialRank : Nat)
  | transposedFilterRank (rank spatialRank : Nat)
  | forwardChannels (kind : ConvKind) (data filters : Extent)
  | transposedChannels (data filters : Extent)
  | outputShapeNotVector (tensor : Tensor)
  | outputShapeNotIntegers (tensor : Tensor)
  | outputShapeLength (requested : List Nat) (spatialRank : Nat)
  | addendType (actual built : Fact)
  | addendOutputType (output addend : ElementType)
  -- pads, slices, sources and attributes
  | operandNotConstant (operand : VectorOperand)
  | operandNotVector (operand : VectorOperand) (tensor : Tensor)
  | operandNotI64 (operand : VectorOperand) (tensor : Tensor)
  | padInputCount (actual : Nat)
  | padLengthsDiffer
  | padValueType (value data : ElementType)
  | padValueRank (value : Fact)
  | padCount (rank : Nat) (data : Fact) (actual : Nat)
  | sliceInputCount (actual : Nat)
  | sliceLengthsDiffer (begins ends strides : List Int)
  | sliceRangeCount (ranges rank : Nat)
  | nullSliceStride (axis : Nat)
  | sourceWithInputs
  | attributeTwice (name : String)
  -- graphs
  | invalidOutlet (outlet : Outlet)
  | invalidInlet (inlet : Inlet)
  | outletPastNode (outlet : Outlet) (node : Node)
  | inletOutOfOrder (slot : Nat) (node : Node)
  | outletOutsideGraph
  | noSuchOutlet (outlet : Outlet)
  | noOutput (index : Nat)
  | noNodeNamed (name : String)
  | readsMissingNode (node : Node) (slot : Nat)
  | readsMissingOutlet (node : Node) (slot : Nat)
  | readerUnknown (node : Node) (slot : Nat) (outlet : Outlet)
  | feedsMissingNode (node : Node) (reader : Inlet)
  | readerElsewhere (reader node : Node)
  | targetOutsideGraph (target : Nat)
  | loop (node : Node)
  | inputNotCarried (node : Node) (outlet : Outlet)
  -- patches and rules
  | substitutionDiffers (context : List String) (current substitute : Fact)
  | newGraphInput (context : List String) (node : Node)
  | wireNotMapped (context : List String) (wire : Outlet)
  | inputNotMapped (context : List String) (outlet : Outlet)
  | padLengthsOf (node : Node) (begins ends : List Int)
  | keepsPaddedShape (node : Node) (padded : Fact)
  | croppedDiffers (node : Node) (cropped wanted : Fact)
  /-- A reason that a rule of the caller's own gives. -/
  | reported (reason : String)
  deriving DecidableEq, Inhabited

/-- The labels of a patch in one line. -/
def contextText (context : List String) : String := " > ".intercalate context

def Cause.text : Cause → String
  | .dynamicExtent => "Dimension is dynamic"
  | .negativeExtent length => "Negative dimension: " ++ toString length
  | .axisOutOfRange axis shape =>
    "Axis " ++ toString axis ++ " out of range for shape " ++ shape.text
  | .rankMismatch expected shape =>
    "Expected a rank " ++ toString expected ++ " shape, got " ++ shape.text
  | .notIntegers tensor => "Expected an integer tensor, got " ++ tensor.text
  | .negativeElement value tensor => "Negative value " ++ toString value ++ " in " ++ tensor.text
  | .notSingleElement tensor => "Expected a scalar, got " ++ tensor.text
  | .unknownPadMode text => "Unknown auto pad mode " ++ text
  | .spatialLength list expected actual =>
    list.text ++ " should be defined for all and only spatial axes: expected "
      ++ toString expected ++ " values, got " ++ toString actual
  | .featureLength list expected actual =>
    list.text ++ " should be defined for all and only spatial features (" ++ toString expected
      ++ " expected, got " ++ toString actual ++ ")"
  | .nullStrideOn axis => "Null stride on spatial axis " ++ toString axis
  | .nullDilationOn axis => "Null dilation on spatial axis " ++ toString axis
  | .nullStrideIn strides => "Null stride in " ++ Text.nats strides
  | .nullDilationIn dilations => "Null dilation in " ++ Text.nats dilations
  | .emptyFilter axis => "Empty filter on spatial axis " ++ toString axis
  | .filterDoesNotFit field padded axis =>
    "Filter field of " ++ toString field ++ " does not fit in padded input of " ++ toString padded
      ++ " on spatial axis " ++ toString axis
  | .nullSameGeometry => "Invalid SAME geometry"
  | .notForward kind => kind.text ++ " is not a forward convolution"
  | .notTransposed kind => kind.text ++ " is not a transposed convolution"
  | .notDataAndFilters inputs =>
    "Expected 2 arg, got " ++ Text.bracketed (inputs.map Fact.text)
  | .convInputCount kind expected actual =>
    kind.text ++ " expects " ++ toString expected ++ " inputs, got " ++ toString actual
  | .elementTypesDiffer data filters =>
    "Element types for data batch and filters do not match (data batch element type: "
      ++ data.text ++ ", filters element type: " ++ filters.text ++ ")"
  | .dataRank data =>
    "Convolution data must have batch, channel and spatial axes, got " ++ data.text
  | .forwardFilterRank kind rank spatialRank =>
    kind.text ++ " filters of rank " ++ toString rank ++ " do not match " ++ toString spatialRank
      ++ " spatial axes"
  | .transposedFilterRank rank spatialRank =>
    "Filters of rank " ++ toString rank ++ " do not match " ++ toString spatialRank
      ++ " spatial axes"
  | .forwardChannels kind data filters =>
    kind.text ++ ": data has " ++ data.text ++ " channels, filters expect " ++ filters.text
  | .transposedChannels data filters =>
    "Data has " ++ data.text ++ " channels, filters expect " ++ filters.text
  | .outputShapeNotVector tensor => "Output shape must be a 1-D tensor, got " ++ tensor.text
  | .outputShapeNotIntegers tensor =>
    "Output shape must be an integer tensor, got " ++ tensor.text
  | .outputShapeLength requested spatialRank =>
    "Output shape should be specified only and for all spatial dimensions, got "
      ++ Text.nats requested ++ " for " ++ toString spatialRank ++ " axes"
  | .addendType actual built =>
    "FusedConvBackpropData add input is " ++ actual.text ++ ", node was built for " ++ built.text
  | .addendOutputType output addend =>
    "FusedConvBackpropData output type " ++ output.text ++ " does not match add input type "
      ++ addend.text
  | .operandNotConstant operand => operand.text ++ " must be a constant"
  | .operandNotVector operand tensor => operand.text ++ " must be 1-D, got " ++ tensor.text
  | .operandNotI64 operand tensor => operand.text ++ " must be i64, got " ++ tensor.text
  | .padInputCount actual => "Pad expects 3 or 4 inputs, got " ++ toString actual
  | .padLengthsDiffer => "Pad begin and end lengths differ"
  | .padValueType value data => "Pad value is " ++ value.detail ++ ", data is " ++ data.detail
  | .padValueRank value => "Pad value must be a scalar, got " ++ value.text
  | .padCount rank data actual =>
    "Pad expects " ++ toString rank ++ " pads for input " ++ data.text ++ ", got "
      ++ toString actual
  | .sliceInputCount actual => "StridedSlice expects 3 or 4 inputs, got " ++ toString actual
  | .sliceLengthsDiffer begins ends strides =>
    "StridedSlice begin, end and strides lengths differ: " ++ Text.ints begins ++ " "
      ++ Text.ints ends ++ " " ++ Text.ints strides
  | .sliceRangeCount ranges rank =>
    "StridedSlice has " ++ toString ranges ++ " ranges for an input of rank " ++ toString rank
  | .nullSliceStride axis => "Null stride on axis " ++ toString axis
  | .sourceWithInputs => "Source takes no input"
  | .attributeTwice name => "Attribute " ++ name ++ " visited twice"
  | .invalidOutlet outlet => "Invalid outlet " ++ outlet.text
  | .invalidInlet inlet => "Invalid inlet " ++ inlet.text
  | .outletPastNode outlet node => "Invalid outlet " ++ outlet.text ++ " for " ++ node.text
  | .inletOutOfOrder slot node =>
    "Edges must be added in order and consecutive. Trying to connect input " ++ toString slot
      ++ " of node " ++ node.text
  | .outletOutsideGraph => "Invalid outlet for graph"
  | .noSuchOutlet outlet => "Invalid outlet reference: " ++ outlet.text
  | .noOutput index => "Model has no output #" ++ toString index
  | .noNodeNamed name => "No node found for name: \"" ++ name ++ "\""
  | .readsMissingNode node slot =>
    node.text ++ " input #" ++ toString slot ++ " refers to missing node"
  | .readsMissingOutlet node slot =>
    node.text ++ " input #" ++ toString slot ++ " refers to missing outlet"
  | .readerUnknown node slot outlet =>
    "Inconsistent model: " ++ node.text ++ " input #" ++ toString slot ++ " comes from "
      ++ outlet.text ++ ", which does not know it"
  | .feedsMissingNode node reader => node.text ++ " feeds missing node " ++ reader.text
  | .readerElsewhere reader node =>
    "Inconsistent model: " ++ reader.text ++ " is registered as a successor of " ++ node.text
      ++ ", but does not consume it"
  | .targetOutsideGraph target => "Target node #" ++ toString target ++ " is not in the model"
  | .loop node => "Loop detected in graph around " ++ node.text
  | .inputNotCarried node outlet =>
    "Compacting " ++ node.text ++ ": input " ++ outlet.text ++ " not translated"
  | .substitutionDiffers context current substitute =>
    "Patch " ++ contextText context ++ ": trying to substitute a " ++ current.text ++ " by "
      ++ substitute.text
  | .newGraphInput context node =>
    "Patch " ++ contextText context ++ " introduces a new model input: " ++ node.text
  | .wireNotMapped context wire =>
    "Patch " ++ contextText context ++ ": unmapped wire " ++ wire.text
  | .inputNotMapped context outlet =>
    "Patch " ++ contextText context ++ ": unmapped input " ++ outlet.text
  | .padLengthsOf node begins ends =>
    node.text ++ ": pads begin " ++ Text.ints begins ++ " and end " ++ Text.ints ends
      ++ " differ in length"
  | .keepsPaddedShape node padded =>
    node.text ++ ": convolution without padding keeps the padded shape " ++ padded.text
  | .croppedDiffers node cropped wanted =>
    node.text ++ ": cropped output " ++ cropped.text ++ " does not match original output "
      ++ wanted.text
  | .reported reason => reason

/-! ## Places -/

/-- What was being done when a refusal arose. -/
inductive Place where
  | transposedAxis (axis : Nat)
  | wiring (name : String) (op : Op)
  | inferring (name : String) (op : Op)
  | graphOutput
  | evaluatingRule (rule : String) (node : Node)
  | applyingRule (rule : String) (node : Node)
  | runningPass (pass : String)
  | inRound (round : Nat) (pass : String)
  | afterPass (pass : String)
  deriving DecidableEq, Inhabited

def Place.text : Place → String
  | .transposedAxis axis => "Transposed convolution output on spatial axis " ++ toString axis
  | .wiring name op => "Wiring node \"" ++ name ++ "\", " ++ op.text
  | .inferring name op => "in output_facts invocation for " ++ name ++ ": " ++ op.name
  | .graphOutput => "Model output"
  | .evaluatingRule rule node =>
    "Evaluating rewriting rule \"" ++ rule ++ "\" on node " ++ node.text
  | .applyingRule rule node =>
    "Applying patch for rewriting rule \"" ++ rule ++ "\" on node " ++ node.text
  | .runningPass pass => "Running " ++ pass
  | .inRound round pass => "Round " ++ toString round ++ ", pass " ++ pass
  | .afterPass pass => "after pass " ++ pass

/-! ## Failures -/

inductive Fault where
  | missingNode (id : Nat)
  | missingOutlet (outlet : Outlet)
  | missingInput (node slot : Nat)
  | outletNotKept (outlet : Outlet)
  | emptyRange (low high : Int)
  | tensorTooLarge (shape : List Nat)
  | rankTooLarge (rank : Nat)
  | endlessWork
  deriving DecidableEq, Inhabited

inductive Failure where
  | refused (places : List Place) (cause : Cause)
  | faulty (fault : Fault)
  deriving DecidableEq, Inhabited

namespace Failure

/-- The failure as seen from one place further out. A fault is the same everywhere. -/
def within (place : Place) : Failure → Failure
  | .refused places cause => .refused (place :: places) cause
  | .faulty fault => .faulty fault

/-- The places, outermost first, and the cause. A fault has no message. -/
def message? : Failure → Option String
  | .refused places cause => some (": ".intercalate (places.map Place.text ++ [cause.text]))
  | .faulty _ => none

end Failure

/-- A result, or why there is none. -/
abbrev Checked (α : Type) := Except Failure α

namespace Checked

variable {α : Type}

def refuse (cause : Cause) : Checked α := .error (.refused [] cause)

def fault (f : Fault) : Checked α := .error (.faulty f)

/-- Nothing if a condition holds, and a refusal otherwise. -/
def require (condition : Bool) (cause : Cause) : Checked Unit :=
  if condition then .ok () else refuse cause

def within (place : Place) : Checked α → Checked α
  | .ok a => .ok a
  | .error f => .error (f.within place)

/-- A value that has to be there, or a refusal. -/
def ofOption (cause : Cause) : Option α → Checked α
  | some a => .ok a
  | none => refuse cause

/-- A value that has to be there, or a fault. -/
def ofPresent (f : Fault) : Option α → Checked α
  | some a => .ok a
  | none => fault f

end Checked

end EvenPad
