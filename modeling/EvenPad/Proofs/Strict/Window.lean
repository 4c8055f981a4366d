import EvenPad.Proofs.Strict
import EvenPad.Proofs.Volume
import EvenPad.Window.SamePads

/-!
Windows over their spatial axes, by position. Every list of a window is checked for its length
before an axis of it is looked up, and every stride before something is divided by it. Main
statements: the output shapes and the pads of the SAME modes are found without a miss
(`Strict.gives_forwardShape`, `Strict.gives_transposedShape`, `Strict.gives_samePads`,
`Strict.gives_samePadsFor`).
-/

namespace EvenPad

/-- Strides are words. -/
def Window.WordStrides (w : Window) : Prop := ∀ s ∈ w.strides, s < Word.modulus

/-- A stride that is not zero is not zero when it is read with a sign. -/
theorem Word.signed_ne_zero {n : Nat} (pos : 0 < n) (word : n < modulus) : signed n ≠ 0 := by
  unfold signed modulus at *
  rw [Int.bmod_def]
  split <;> omega

namespace Strict

/-! ## The computations -/

/-- The places where a filter fits along an axis. -/
def forwardExtent (w : Window) (input filter : List Extent) (axis : Nat) : Strict Extent := do
  let stride ← entry w.strides axis
  Checked.require (0 < stride) (.nullStrideOn axis)
  let dilation ← entry w.dilations axis
  Checked.require (0 < dilation) (.nullDilationOn axis)
  match ← entry input axis, ← entry filter axis with
  | .fixed i, .fixed f => do
    Checked.require (0 < f) (.emptyFilter axis)
    let field := Word.signed ((f - 1) * dilation + 1)
    let padded := Word.signed i + (← entry w.padsBegin axis) + (← entry w.padsEnd axis)
    Checked.require (field ≤ padded) (.filterDoesNotFit field padded axis)
    return .fixed (Word.unsigned ((padded - field).tdiv (← divisor (Word.signed stride)) + 1))
  | _, _ => return .dynamic

def forwardShape (w : Window) (input filter : List Extent) : Strict (List Extent) := do
  Window.checkLengths input.length
    [(.filterShape, filter.length), (.strides, w.strides.length),
      (.dilations, w.dilations.length), (.padsBegin, w.padsBegin.length),
      (.padsEnd, w.padsEnd.length)]
  (List.range input.length).mapM (forwardExtent w input filter)

/-- The extent that a transposed convolution leaves along an axis. -/
def transposedExtent (w : Window) (input filter : List Extent) (axis : Nat) : Strict Extent := do
  match ← entry input axis, ← entry filter axis with
  | .fixed i, .fixed f => do
    let natural := Word.signed (← entry w.strides axis) * (Word.signed i - 1) +
      Word.signed (← entry w.dilations axis) * (Word.signed f - 1) + 1
    let cut := natural - (← entry w.padsBegin axis) - (← entry w.padsEnd axis)
    let left := cut + (← entry w.outputPadding axis)
    (Extent.ofSigned left).within (.transposedAxis axis)
  | _, _ => return .dynamic

def transposedShape (w : Window) (input filter : List Extent) : Strict (List Extent) := do
  Window.checkLengths input.length
    [(.filterShape, filter.length), (.strides, w.strides.length),
      (.dilations, w.dilations.length), (.padsBegin, w.padsBegin.length),
      (.padsEnd, w.padsEnd.length), (.outputPadding, w.outputPadding.length)]
  (List.range input.length).mapM (transposedExtent w input filter)

def samePads (input kernel dilation stride : Nat) (upper : Bool) : Strict Window.SameAxis := do
  Checked.require (0 < stride && 0 < dilation && 0 < kernel) .nullSameGeometry
  let output := (input + stride - 1) / (← divisor stride)
  let total := (max output 1 - 1) * stride + ((kernel - 1) * dilation + 1) - input
  let smaller := total / 2
  let larger := total - smaller
  return if upper then ⟨input, output, smaller, larger⟩ else ⟨input, output, larger, smaller⟩

/-- The pads of one axis that leave a wanted length. -/
def sameAxisPads (w : Window) (input filter wanted : List Nat) (axis : Nat) :
    Strict (Int × Int) := do
  let natural := Word.signed (← entry w.strides axis) * (Word.signed (← entry input axis) - 1) +
    Word.signed (← entry w.dilations axis) * (Word.signed (← entry filter axis) - 1) + 1
  let total :=
    max (natural - Word.signed (← entry wanted axis) + (← entry w.outputPadding axis)) 0
  return Window.splitPads total (w.mode = .sameUpper)

def samePadsFor (w : Window) (input filter wanted : List Nat) : Strict (List Int × List Int) := do
  Window.checkLengths input.length
    [(.filterShape, filter.length), (.outputShape, wanted.length),
      (.strides, w.strides.length), (.dilations, w.dilations.length),
      (.outputPadding, w.outputPadding.length)]
  return (← (List.range input.length).mapM (sameAxisPads w input filter wanted)).unzip

/-! ## Output shapes -/

variable {w : Window} {input filter : List Extent} {axis : Nat} {a : Window.Axis} {i f : Extent}

theorem faultless_checkLengths {rank : Nat} {lengths : List (SpatialList × Nat)} :
    (Window.checkLengths rank lengths).Faultless :=
  Checked.faultless_forM fun _ _ => Checked.faultless_require

theorem faultless_ofSigned {length : Int} : (Extent.ofSigned length).Faultless := by
  unfold Extent.ofSigned
  split
  · exact Checked.faultless_pure
  · exact Checked.faultless_refuse

theorem gives_forwardExtent (words : w.WordStrides) (axisAt : w.axes[axis]? = some a)
    (inputAt : input[axis]? = some i) (filterAt : filter[axis]? = some f) :
    Gives (forwardExtent w input filter axis) (a.forwardExtent axis i f) := by
  obtain ⟨strideAt, dilationAt, beginAt, endAt⟩ := Window.axes_getElem?.1 axisAt
  simp only [forwardExtent, entry_of_getElem? strideAt, entry_of_getElem? dilationAt,
    entry_of_getElem? inputAt, entry_of_getElem? filterAt, pure_bind]
  refine gives_require fun moves => ?_
  refine gives_require fun _ => ?_
  cases i with
  | dynamic => exact gives_pure
  | fixed i =>
    cases f with
    | dynamic => exact gives_pure
    | fixed f =>
      have nonzero : Word.signed a.stride ≠ 0 :=
        Word.signed_ne_zero (by simpa using moves) (words _ (List.mem_of_getElem? strideAt))
      simp only [entry_of_getElem? beginAt, entry_of_getElem? endAt,
        divisor_of_ne_zero nonzero, pure_bind]
      refine gives_require fun _ => ?_
      refine gives_require fun _ => ?_
      exact gives_pure

theorem gives_forwardShape (words : w.WordStrides) :
    Gives (forwardShape w input filter) (w.forwardShape input filter) := by
  refine gives_check faultless_checkLengths fun _ checked => ?_
  simp only [Window.checkLengths_eq_ok, List.forall_mem_cons] at checked
  obtain ⟨filters, strides, dilations, padsBegin, padsEnd, -⟩ := checked
  have ofRank : w.OfRank input.length := ⟨strides, dilations, padsBegin, padsEnd⟩
  refine gives_mapM_range (by simp [ofRank.length_axes, filters]) fun axis parts found => ?_
  obtain ⟨a, i, f⟩ := parts
  simp only [List.getElem?_zip_eq_some] at found
  exact gives_forwardExtent words found.1 found.2.1 found.2.2

theorem gives_transposedExtent {outputPadding : Int} (axisAt : w.axes[axis]? = some a)
    (paddingAt : w.outputPadding[axis]? = some outputPadding) (inputAt : input[axis]? = some i)
    (filterAt : filter[axis]? = some f) :
    Gives (transposedExtent w input filter axis) (a.transposedExtent outputPadding axis i f) := by
  obtain ⟨strideAt, dilationAt, beginAt, endAt⟩ := Window.axes_getElem?.1 axisAt
  simp only [transposedExtent, entry_of_getElem? inputAt, entry_of_getElem? filterAt, pure_bind]
  cases i with
  | dynamic => exact gives_pure
  | fixed i =>
    cases f with
    | dynamic => exact gives_pure
    | fixed f =>
      simp only [entry_of_getElem? strideAt, entry_of_getElem? dilationAt,
        entry_of_getElem? beginAt, entry_of_getElem? endAt, entry_of_getElem? paddingAt,
        pure_bind, Window.Axis.transposedExtent, Window.Axis.naturalLength]
      -- the padding of the output is added here after the pads are cut off, there before
      have same :
          Word.signed a.stride * (Word.signed i - 1) +
            Word.signed a.dilation * (Word.signed f - 1) + 1 -
            a.padBegin - a.padEnd + outputPadding =
          Word.signed a.stride * (Word.signed i - 1) +
            Word.signed a.dilation * (Word.signed f - 1) + 1 +
            outputPadding - a.padBegin - a.padEnd := by omega
      rw [same]
      exact gives_lift faultless_ofSigned.within

theorem gives_transposedShape :
    Gives (transposedShape w input filter) (w.transposedShape input filter) := by
  refine gives_check faultless_checkLengths fun _ checked => ?_
  simp only [Window.checkLengths_eq_ok, List.forall_mem_cons] at checked
  obtain ⟨filters, strides, dilations, padsBegin, padsEnd, outputPadding, -⟩ := checked
  have ofRank : w.OfRank input.length := ⟨strides, dilations, padsBegin, padsEnd⟩
  refine gives_mapM_range (by simp [ofRank.length_axes, filters, outputPadding])
    fun axis parts found => ?_
  obtain ⟨⟨a, padding⟩, i, f⟩ := parts
  simp only [List.getElem?_zip_eq_some] at found
  exact gives_transposedExtent found.1.1 found.1.2 found.2.1 found.2.2

/-! ## Pads of the SAME modes -/

theorem gives_samePads {input kernel dilation stride : Nat} {upper : Bool} :
    Gives (samePads input kernel dilation stride upper)
      (Window.samePads input kernel dilation stride upper) := by
  refine gives_require fun moves => ?_
  simp only [Bool.and_eq_true, decide_eq_true_eq] at moves
  rw [divisor_of_ne_zero (by omega), pure_bind]
  exact gives_pure

theorem gives_samePadsFor {input filter wanted : List Nat} :
    Gives (samePadsFor w input filter wanted) (w.samePadsFor input filter wanted) := by
  refine gives_check faultless_checkLengths fun _ checked => ?_
  simp only [Window.checkLengths_eq_ok, List.forall_mem_cons] at checked
  obtain ⟨filters, lengths, strides, dilations, outputPadding, -⟩ := checked
  refine gives_map_range (by simp [filters, lengths, strides, dilations, outputPadding]) ?_
  rintro axis ⟨⟨⟨stride, dilation⟩, padding⟩, ⟨i, f⟩, o⟩ found
  simp only [List.getElem?_zip_eq_some] at found
  obtain ⟨⟨⟨strideAt, dilationAt⟩, paddingAt⟩, ⟨inputAt, filterAt⟩, wantedAt⟩ := found
  simp only [sameAxisPads, entry_of_getElem? strideAt, entry_of_getElem? dilationAt,
    entry_of_getElem? paddingAt, entry_of_getElem? inputAt, entry_of_getElem? filterAt,
    entry_of_getElem? wantedAt, pure_bind, Window.Axis.naturalLength]
  have same :
      Word.signed stride * (Word.signed i - 1) + Word.signed dilation * (Word.signed f - 1) + 1 -
        Word.signed o + padding =
      Word.signed stride * (Word.signed i - 1) + Word.signed dilation * (Word.signed f - 1) + 1 +
        padding - Word.signed o := by omega
  rw [same]

end Strict

end EvenPad
