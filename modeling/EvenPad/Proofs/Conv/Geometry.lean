import EvenPad.Proofs.Conv.Refinement
import EvenPad.Proofs.Conv.Same
import EvenPad.Proofs.Unpad.Match
import EvenPad.Proofs.Window.CutBack
import EvenPad.Proofs.Window.Positions

/-!
The geometry of a resolved convolution. Whichever source tells the number of spatial axes, the
lists of the window and the ranks of data, filters and output agree on it (`Conv.Geometry`). Main
statements: pads that a mode derives are not negative (`Conv.padsNonneg_of_forwardPads`,
`Conv.padsNonneg_of_transposedSpatial`), and a convolution whose output has a known rank resolves
to a geometry over two axes less, a forward one to no empty axis (`Op.Resolves.exists_geometry`).
-/

namespace EvenPad

/-! ## Pads -/

section Pads

variable {w w' : Window} {rank : Nat} {padsKnown : Bool}

/-- No pad is negative. -/
def Window.PadsNonneg (w : Window) : Prop := ∀ pad ∈ w.padsBegin ++ w.padsEnd, 0 ≤ pad

theorem Window.padsNonneg_clearPads : w.clearPads.PadsNonneg := by
  simp [PadsNonneg, clearPads]

theorem Window.OfRank.padsNonneg (ofRank : w.OfRank rank)
    (each : ∀ a ∈ w.axes, 0 ≤ a.padBegin ∧ 0 ≤ a.padEnd) :
    w.PadsNonneg := by
  obtain ⟨-, -, padsBegin, padsEnd⟩ := ofRank.lists_eq
  rw [PadsNonneg, padsBegin, padsEnd, List.forall_mem_append, List.forall_mem_map,
    List.forall_mem_map]
  exact ⟨fun a mem => (each a mem).1, fun a mem => (each a mem).2⟩

/-- Halves of a total that is not negative. -/
theorem Window.padsNonneg_of_samePadsFor {input filter wanted : List Nat}
    {padsBegin padsEnd : List Int}
    (pads : w.samePadsFor input filter wanted = .ok (padsBegin, padsEnd)) :
    Window.PadsNonneg { w with padsBegin, padsEnd } := by
  simp only [samePadsFor, Checked.bind_eq_ok, Checked.pure_eq_ok, List.unzip_eq_map,
    Prod.mk.injEq, List.map_map]
    at pads
  obtain ⟨_, -, rfl, rfl⟩ := pads
  rw [PadsNonneg, List.forall_mem_append, List.forall_mem_map, List.forall_mem_map]
  exact ⟨fun _ _ => (splitPads_spec _ (Int.le_max_right _ _)).1,
    fun _ _ => (splitPads_spec _ (Int.le_max_right _ _)).2.1⟩

namespace Conv

variable {input kernel spatial : List Extent} {operands : Operands}
  {requested : Option (List Nat)} {hasOutputShape : Bool}

theorem HasSamePads.nonneg {a : Window.Axis} {upper : Bool} {i k : Nat}
    (pads : HasSamePads upper a i k) (signFree : Window.SameSignFree i k a.dilation a.stride) :
    0 ≤ a.padBegin ∧ 0 ≤ a.padEnd := by
  obtain ⟨same, derived, padBegin, padEnd⟩ := pads
  obtain ⟨-, -, -, total, -⟩ := Window.samePads_eq_ok_iff.1 derived
  have lastSmall := signFree.lastSmall
  rw [padBegin, padEnd, Word.signed_of_lt (by omega), Word.signed_of_lt (by omega)]
  omega

/-- The pads of a forward convolution: one for each axis. -/
theorem ofRank_of_forwardPads (ofRank : w.OfRank rank) (inputs : input.length = rank)
    (kernels : kernel.length = rank) (pads : forwardPads w input kernel = .ok (w', padsKnown)) :
    w'.OfRank rank := by
  cases mode : w.mode with
  | explicit =>
    simp only [forwardPads, mode] at pads
    cases pads
    exact ofRank
  | valid =>
    simp only [forwardPads, mode] at pads
    cases pads
    exact ofRank.clearPads
  -- the two SAME modes
  | _ =>
    rw [forwardPads_same (by rw [mode]; rfl)] at pads
    exact (forwardSamePads_eq_ok ofRank inputs kernels pads).1

/-- The pads of a forward convolution are not negative where its mode derives all of them. -/
theorem padsNonneg_of_forwardPads (ofRank : w.OfRank rank) (inputs : input.length = rank)
    (kernels : kernel.length = rank) (pads : forwardPads w input kernel = .ok (w', true))
    (derived : w.mode ≠ .explicit)
    (signFree : ∀ {axis : Nat} {a i k}, w'.axes[axis]? = some a → input[axis]? = some (.fixed i) →
      kernel[axis]? = some (.fixed k) → w.mode.isSame = true →
      Window.SameSignFree i k a.dilation a.stride) :
    w'.PadsNonneg := by
  cases mode : w.mode with
  | explicit => exact absurd mode derived
  | valid =>
    simp only [forwardPads, mode] at pads
    cases pads
    exact Window.padsNonneg_clearPads
  -- the two SAME modes
  | _ =>
    have same : w.mode.isSame = true := by rw [mode]; rfl
    rw [forwardPads_same same] at pads
    obtain ⟨ofRank', each⟩ := forwardSamePads_eq_ok ofRank inputs kernels pads
    refine ofRank'.padsNonneg fun a mem => ?_
    obtain ⟨axis, axisAt⟩ := List.mem_iff_getElem?.1 mem
    have lt := (List.getElem?_eq_some_iff.1 axisAt).1
    have axes := ofRank'.length_axes
    have inputAt := List.getElem?_eq_getElem (show axis < input.length by omega)
    have kernelAt := List.getElem?_eq_getElem (show axis < kernel.length by omega)
    obtain ⟨i, k, fixed, fixed', sames⟩ := each rfl axisAt inputAt kernelAt
    rw [fixed] at inputAt
    rw [fixed'] at kernelAt
    exact sames.nonneg (signFree axisAt inputAt kernelAt same)

theorem padsNonneg_of_requestedPads (derived : operands.window.mode ≠ .explicit)
    (pads : requestedPads operands requested = .ok (w, true)) : w.PadsNonneg := by
  unfold requestedPads at pads
  dsimp only at pads
  split at pads
  · next mode => exact absurd mode derived
  · cases pads
    exact Window.padsNonneg_clearPads
  -- the two SAME modes
  all_goals
    split at pads
    · simp only [Checked.bind_eq_ok, Checked.pure_eq_ok, Prod.mk.injEq, Prod.exists] at pads
      obtain ⟨_, _, pads, rfl, -⟩ := pads
      exact Window.padsNonneg_of_samePadsFor pads
    · simp at pads

/-- The pads of a transposed convolution are not negative where its mode derives all of them. -/
theorem padsNonneg_of_transposedSpatial (derived : operands.window.mode ≠ .explicit)
    (spatials : transposedSpatial operands rank hasOutputShape requested =
      .ok (w, true, spatial)) :
    w.PadsNonneg := by
  obtain ⟨-, -, pads, -⟩ | ⟨-, -, rfl, -⟩ := transposedSpatial_eq_ok_iff.1 spatials
  · exact padsNonneg_of_requestedPads derived pads
  · rw [if_neg derived]
    exact Window.padsNonneg_clearPads

end Conv

end Pads

/-! ## Ranks and extents -/

/-- The last extents of a shape are those of its axes. -/
theorem Shape.extentAt_of_tail {s : Shape} {first rank axis : Nat}
    {extents : List Extent} {e : Extent} (tail : s.tail first rank = .ok extents)
    (here : extents[axis]? = some e) : s.extentAt (axis + first) = .ok e := by
  unfold Shape.tail at tail
  split at tail
  · cases tail
    rw [List.getElem?_replicate] at here
    split at here
    · rw [← Option.some.inj here]
      rfl
    · simp at here
  · split at tail
    · cases tail
      rw [List.getElem?_drop, Nat.add_comm] at here
      simp [extentAt, here]
    · split at tail <;> simp at tail

/-- An axis on which a filter fits has an output. -/
theorem Window.Axis.Fits.pos {a : Window.Axis} {input filter n : Nat}
    (fits : a.Fits (.fixed input) (.fixed filter))
    (counts : a.Counts (.fixed input) (.fixed filter) (.fixed n)) : 0 < n := by
  obtain ⟨_, ⟨⟩, counted⟩ := counts
  have pos := fits.2.encard_pos
  rw [counted] at pos
  exact_mod_cast pos

/-- The output of a forward convolution has an element at least on each axis of known length. -/
theorem Window.pos_of_forwardShape {w : Window} {input filter output : List Extent} {axis n : Nat}
    (shape : w.forwardShape input filter = .ok output)
    (signFree : ∀ {axis : Nat} {a i f}, w.axes[axis]? = some a → input[axis]? = some (.fixed i) →
      filter[axis]? = some (.fixed f) → a.ForwardSignFree i f)
    (here : output[axis]? = some (.fixed n)) : 0 < n := by
  obtain ⟨ofRank, filters, outputs, extents⟩ := forwardShape_eq_ok_iff.1 shape
  have axes := ofRank.length_axes
  have lt := (List.getElem?_eq_some_iff.1 here).1
  have axisAt := List.getElem?_eq_getElem (show axis < w.axes.length by omega)
  have inputAt := List.getElem?_eq_getElem (show axis < input.length by omega)
  have filterAt := List.getElem?_eq_getElem (show axis < filter.length by omega)
  obtain ⟨-, -, fits, counts⟩ :=
    (forwardExtent_along signFree axisAt inputAt filterAt).1
      (extents axisAt inputAt filterAt here)
  -- an output of known length has operands of known lengths
  cases known : input[axis] with
  | dynamic => simp [known, Axis.Counts] at counts
  | fixed i =>
    cases known' : filter[axis] with
    | dynamic => simp [known, known', Axis.Counts] at counts
    | fixed f =>
      rw [known, known'] at fits counts
      exact fits.pos counts

namespace Conv

variable {kind : ConvKind} {t : ConvTraits} {w : Window} {data filters : Fact}
  {outputShape : Option Fact} {r : Resolution} {rank n : Nat} {input kernel spatial : List Extent}

/-- Each list of a window has one entry for each spatial axis, it moves and spreads, and the
operands have as many axes as their ranks tell. -/
structure Geometry (t : ConvTraits) (w : Window) (data filters : Fact) (rank : Nat) : Prop where
  ofRank : w.OfRank rank
  outputPadding : w.outputPadding.length = rank
  strides : ∀ s ∈ w.strides, 0 < s
  dilations : ∀ d ∈ w.dilations, 0 < d
  data : ∀ count, data.rank? = some count → count = rank + 2 ∧ 3 ≤ count
  filters : ∀ count, filters.rank? = some count → count = rank + t.leadingFilterAxes

theorem Fit.geometry (fit : Fit t data filters rank input kernel)
    (checked : w.checkRank rank = .ok ⟨⟩) :
    Geometry t w data filters rank := by
  obtain ⟨ofRank, outputPadding, strides, dilations⟩ := Window.checkRank_eq_ok_iff.1 checked
  refine ⟨ofRank, outputPadding, by simpa using strides, by simpa using dilations,
    fun count known => ?_, fun count known => ?_⟩
  · have spatial : data.rank?.all (· = 2 + rank) = true := Shape.rank?_of_tail fit.input
    have least := fit.dataRank
    simp only [known, Option.all_some, decide_eq_true_eq] at spatial least
    omega
  · simpa [known] using fit.filterRank

theorem rank?_of_outputFact {type : ElementType} {fact : Fact}
    (output : outputFact t type data filters spatial = .ok fact) :
    fact.rank? = some (spatial.length + 2) := by
  obtain ⟨batch, channels, shape⟩ := shape_of_outputFact output
  simp [Fact.rank?, shape, Shape.rank?]

/-- A forward convolution whose output has a known rank is one over spatial axes. -/
theorem resolveForward_ranked (resolves : resolveForward kind w [data, filters] = .ok r)
    (ranked : r.fact.rank? = some n) :
    ∃ rank input kernel spatial, n = rank + 2 ∧ Fit kind.traits data filters rank input kernel ∧
      (w.withDefaults rank).OfRank rank ∧ Geometry kind.traits r.window data filters rank ∧
      forwardPads (w.withDefaults rank) input kernel = .ok (r.window, r.padsKnown) ∧
      (if r.padsKnown then r.window.forwardShape input kernel = .ok spatial
        else spatial = List.replicate rank .dynamic) ∧
      ∃ batch channels, r.fact.shape = .ranked (batch :: channels :: spatial) := by
  obtain ⟨-, type, -, ⟨-, rfl⟩ | ⟨rank, operands, spatial, -, checked, pads, shape, output⟩⟩ :=
    resolveForward_eq_ok_iff.1 resolves
  · simp [Fact.rank?, Fact.typed, Shape.rank?] at ranked
  obtain ⟨fit, windowEq, written⟩ := checkOperands_eq_ok_iff.1 checked
  obtain ⟨batch, channels, outputs⟩ := shape_of_outputFact output
  have inputs := Shape.length_of_tail fit.input
  have kernels := Shape.length_of_tail fit.kernel
  have ofRank := (Window.checkRank_eq_ok_iff.1 written).1
  rw [windowEq] at pads
  have length : spatial.length = rank := by
    cases known : r.padsKnown with
    | true =>
      rw [if_pos known] at shape
      exact (Window.forwardShape_eq_ok shape).2.2.1.trans inputs
    | false =>
      simp only [known, Bool.false_eq_true, if_false] at shape
      rw [shape, List.length_replicate]
  have same : n = rank + 2 := by
    rw [rank?_of_outputFact output, length] at ranked
    exact (Option.some.inj ranked).symm
  have resolved := (sameSteps_of_forwardPads pads).checkRank written
    (ofRank_of_forwardPads ofRank inputs kernels pads)
  exact ⟨rank, _, _, spatial, same, fit, ofRank, fit.geometry resolved, pads, shape,
    batch, channels, outputs⟩

/-- A transposed convolution whose output has a known rank has a geometry. -/
theorem resolveTransposed_geometry
    (resolves : resolveTransposed t w data filters outputShape = .ok r)
    (ranked : r.fact.rank? = some n) :
    ∃ rank, n = rank + 2 ∧ Geometry t r.window data filters rank ∧
      (w.mode ≠ .explicit → r.padsKnown = true → r.window.PadsNonneg) := by
  obtain ⟨type, requested, -, -,
      ⟨-, rfl⟩ | ⟨rank, operands, spatial, -, checked, spatials, output⟩⟩ :=
    resolveTransposed_eq_ok_iff.1 resolves
  · simp [Fact.rank?, Fact.typed, Shape.rank?] at ranked
  obtain ⟨fit, windowEq, written⟩ := checkOperands_eq_ok_iff.1 checked
  rw [← windowEq] at written
  have length := length_of_transposedSpatial (Shape.length_of_tail fit.input) spatials
  have same : n = rank + 2 := by
    rw [rank?_of_outputFact output, length] at ranked
    exact (Option.some.inj ranked).symm
  have ofRank := (transposedSpatial_eq_ok (Window.checkRank_eq_ok_iff.1 written).1 spatials).1
  refine ⟨rank, same,
    fit.geometry ((transposedSpatial_steps spatials).1.checkRank written ofRank), ?_⟩
  intro derived known
  rw [known] at spatials
  refine padsNonneg_of_transposedSpatial ?_ spatials
  rw [windowEq]
  exact derived

end Conv

/-! ## Operators -/

/-- The window of a node of the convolution family. -/
def Op.window? : Op → Option Window
  | .conv _ w => some w
  | .deconv _ w _ => some w
  | .fusedDeconv w _ _ => some w
  | _ => none

/-- On an axis of known lengths, the numbers that a forward convolution computes with a resolved
window read the same with a sign. -/
def Op.SignFree (resolved : Window) (facts : List Fact) : Op → Prop
  | .conv kind w =>
    ∀ {data filters axis a i k}, facts = [data, filters] → resolved.axes[axis]? = some a →
      data.shape.extentAt (axis + 2) = .ok (.fixed i) →
      filters.shape.extentAt (axis + kind.traits.leadingFilterAxes) = .ok (.fixed k) →
        a.ForwardSignFree i k ∧
        (w.mode.isSame = true → Window.SameSignFree i k a.dilation a.stride)
  | _ => True

/-- If the rank of the output is known, it is two more than the number of spatial axes, and the
window and the operands agree with that number, whichever of them told it. Pads that a mode
derives are not negative once they are known. The output of a forward convolution has an element
at least on each spatial axis of known length. -/
theorem Op.Resolves.exists_geometry {op : Op} {facts : List Fact} {r : Resolution} {n : Nat}
    (resolves : op.Resolves facts r) (ranked : r.fact.rank? = some n)
    (signFree : op.SignFree r.window facts) :
    ∃ w t data filters rank, op.window? = some w ∧ op.traits? = some t ∧ facts[0]? = some data ∧
      facts[1]? = some filters ∧ n = rank + 2 ∧ Conv.Geometry t r.window data filters rank ∧
      (w.mode ≠ .explicit → r.padsKnown = true → r.window.PadsNonneg) ∧
      (op.isTransposed = false → ∀ {axis length},
        r.fact.shape.extentAt (axis + 2) = .ok (.fixed length) → 0 < length) := by
  cases resolves with
  | @conv kind w _ _ resolves =>
    obtain ⟨data, filters, rfl⟩ := Conv.operands_of_resolveForward resolves
    obtain ⟨rank, input, kernel, spatial, same, fit, ofRank, geometry, pads, shape, batch,
        channels, outputs⟩ :=
      Conv.resolveForward_ranked resolves ranked
    have along {axis : Nat} {a i k} (axisAt : r.window.axes[axis]? = some a)
        (inputAt : input[axis]? = some (.fixed i)) (kernelAt : kernel[axis]? = some (.fixed k)) :=
      signFree rfl axisAt (Shape.extentAt_of_tail fit.input inputAt)
        (Shape.extentAt_of_tail fit.kernel kernelAt)
    refine ⟨w, _, data, filters, rank, rfl, rfl, rfl, rfl, same, geometry,
      fun derived known => ?_, ?_⟩
    · rw [known] at pads
      exact Conv.padsNonneg_of_forwardPads ofRank (Shape.length_of_tail fit.input)
        (Shape.length_of_tail fit.kernel)
        pads derived fun axisAt inputAt kernelAt => (along axisAt inputAt kernelAt).2
    · rintro - axis length there
      have here : spatial[axis]? = some (.fixed length) := by
        simpa [outputs, Shape.extentAt] using there
      cases known : r.padsKnown with
      | true =>
        rw [if_pos known] at shape
        exact Window.pos_of_forwardShape shape
          (fun axisAt inputAt kernelAt => (along axisAt inputAt kernelAt).1) here
      | false =>
        simp only [known, Bool.false_eq_true, if_false] at shape
        simp [shape, List.getElem?_replicate] at here
  | @deconv kind w takesOutputShape _ _ resolves =>
    simp only [Conv.resolveDeconv, Conv.deconvInputs, Checked.bind_eq_ok] at resolves
    obtain ⟨i, ⟨_, -, roles⟩, resolves⟩ := resolves
    obtain ⟨dataAt, filtersAt, -⟩ := Conv.transposedInputs_eq_ok roles
    obtain ⟨rank, same, geometry, nonneg⟩ := Conv.resolveTransposed_geometry resolves ranked
    exact ⟨w, _, _, _, rank, rfl, rfl, dataAt, filtersAt, same, geometry, nonneg,
      by simp [isTransposed]⟩
  | @fusedDeconv w takesOutputShape built _ _ resolves =>
    simp only [Conv.resolveFused, Conv.fusedInputs, Checked.bind_eq_ok] at resolves
    obtain ⟨i, roles, resolves⟩ := resolves
    obtain ⟨dataAt, filtersAt, -⟩ := Conv.transposedInputs_eq_ok roles
    obtain ⟨rank, same, geometry, nonneg⟩ := Conv.resolveTransposed_geometry resolves ranked
    exact ⟨w, _, _, _, rank, rfl, rfl, dataAt, filtersAt, same, geometry, nonneg,
      by simp [isTransposed]⟩

/-- Four windows of two elements, three apart, in each of two groups: an element of padding at the
beginning. And a transposed convolution with an addend that is asked for one element less than it
fills. -/
theorem Op.Resolves.exists_geometry_groups :
    ∃ r, (Op.conv .groupConvolution ⟨[3], [], [], [], .sameLower, []⟩).Resolves
        [.typed .f32 (.ofLengths [1, 2, 10]), .typed .f32 (.ofLengths [2, 1, 1, 2])] r ∧
      r.window = ⟨[3], [1], [1], [0], .sameLower, [0]⟩ ∧ r.fact.shape = .ofLengths [1, 2, 4] ∧
      Conv.Geometry ConvKind.groupConvolution.traits r.window
        (.typed .f32 (.ofLengths [1, 2, 10])) (.typed .f32 (.ofLengths [2, 1, 1, 2])) 1 ∧
      r.window.PadsNonneg ∧
    ∃ r, (Op.fusedDeconv ⟨[2], [], [], [], .sameUpper, []⟩ true
          (.typed .f32 (.ofLengths [1, 1, 10]))).Resolves
        [.typed .f32 (.ofLengths [1, 1, 5]), .typed .f32 (.ofLengths [1, 1, 3]),
          .constant (.vector [10]), .typed .f32 (.ofLengths [1, 1, 10])] r ∧
      r.window = ⟨[2], [1], [1], [0], .sameUpper, [0]⟩ ∧ r.fact.shape = .ofLengths [1, 1, 10] ∧
      Conv.Geometry { ConvKind.fusedConvBackpropData.traits with takesOutputShape := true }
        r.window (.typed .f32 (.ofLengths [1, 1, 5])) (.typed .f32 (.ofLengths [1, 1, 3])) 1 ∧
      r.window.PadsNonneg := by
  have resolves : Conv.resolveForward .groupConvolution ⟨[3], [], [], [], .sameLower, []⟩
      [.typed .f32 (.ofLengths [1, 2, 10]), .typed .f32 (.ofLengths [2, 1, 1, 2])] =
        .ok ⟨⟨[3], [1], [1], [0], .sameLower, [0]⟩, true,
          .typed .f32 (.ofLengths [1, 2, 4])⟩ := by decide +kernel
  have signFree : (Op.conv .groupConvolution ⟨[3], [], [], [], .sameLower, []⟩).SignFree
      ⟨[3], [1], [1], [0], .sameLower, [0]⟩
      [.typed .f32 (.ofLengths [1, 2, 10]), .typed .f32 (.ofLengths [2, 1, 1, 2])] := by
    rintro _ _ (_ | axis) a i k ⟨⟩ ⟨⟩ ⟨⟩ ⟨⟩
    exact ⟨⟨by decide, by decide, by decide, by decide⟩,
      fun _ => ⟨by decide, by decide, by decide⟩⟩
  obtain ⟨_, _, _, _, rank, ⟨⟩, ⟨⟩, ⟨⟩, ⟨⟩, same, geometry, nonneg, -⟩ :=
    (Op.Resolves.conv resolves).exists_geometry (n := 3) rfl signFree
  obtain rfl : rank = 1 := by omega
  refine ⟨_, .conv resolves, rfl, rfl, geometry, nonneg (by decide) rfl, ?_⟩
  have resolves : (Op.fusedDeconv ⟨[2], [], [], [], .sameUpper, []⟩ true
      (.typed .f32 (.ofLengths [1, 1, 10]))).Resolves
      [.typed .f32 (.ofLengths [1, 1, 5]), .typed .f32 (.ofLengths [1, 1, 3]),
        .constant (.vector [10]), .typed .f32 (.ofLengths [1, 1, 10])]
      ⟨⟨[2], [1], [1], [0], .sameUpper, [0]⟩, true, .typed .f32 (.ofLengths [1, 1, 10])⟩ :=
    .fusedDeconv (by decide +kernel)
  obtain ⟨_, _, _, _, rank, ⟨⟩, ⟨⟩, ⟨⟩, ⟨⟩, same, geometry, nonneg, -⟩ :=
    resolves.exists_geometry (n := 3) rfl trivial
  obtain rfl : rank = 1 := by omega
  exact ⟨_, resolves, rfl, rfl, geometry, nonneg (by decide) rfl⟩

end EvenPad
