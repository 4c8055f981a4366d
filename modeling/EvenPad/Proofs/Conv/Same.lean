import EvenPad.Proofs.Conv.Resolve
import EvenPad.Proofs.Conv.Unpadded
import EvenPad.Proofs.Refinement
import EvenPad.Proofs.Window.Same

/-!
Forward convolutions in a SAME mode. The pads are derived on each axis by itself
(`Conv.forwardSamePads_eq_ok`), and the output is inferred from them by the formula for given
pads. Main statement: on axes of known extents it is `⌈input / stride⌉`, which is also what is
reported when the pads are derived, except that an axis without elements has one output
(`Conv.resolveForward_same`).
-/

namespace EvenPad

/-- A loop whose results are all changed in one way. -/
theorem Checked.mapM_map_eq_ok {α β γ : Type} {f : α → Checked β} {g : β → γ}
    {l : List α} {cs : List γ} :
    l.mapM (fun a => (f a).map g) = .ok cs ↔ ∃ bs, l.mapM f = .ok bs ∧ bs.map g = cs := by
  induction l generalizing cs with
  | nil => simp [List.mapM_nil, pure_eq_ok]
  | cons a rest ih =>
    simp only [List.mapM_cons, bind_eq_ok, pure_eq_ok, exceptMap_eq_ok, ih]
    constructor
    · rintro ⟨_, ⟨b, first, rfl⟩, _, ⟨bs, others, rfl⟩, rfl⟩
      exact ⟨b :: bs, ⟨b, first, bs, others, rfl⟩, rfl⟩
    · rintro ⟨_, ⟨b, first, bs, others, rfl⟩, rfl⟩
      exact ⟨_, ⟨b, first, rfl⟩, _, ⟨bs, others, rfl⟩, rfl⟩

namespace Conv

variable {kind : ConvKind} {w w' : Window} {data filters : Fact} {r : Resolution} {rank : Nat}
  {input kernel : List Nat} {padsKnown : Bool} {batch given : Extent} {lead : List Extent}

theorem forwardPads_same {input kernel : List Extent} (same : w.mode.isSame = true) :
    forwardPads w input kernel = forwardSamePads w input kernel := by
  cases mode : w.mode <;> simp [forwardPads, mode, PadMode.isSame] at same ⊢

/-- The pads of an axis are those that a SAME mode derives for it. -/
def HasSamePads (upper : Bool) (a : Window.Axis) (input kernel : Nat) : Prop :=
  ∃ same, Window.samePads input kernel a.dilation a.stride upper = .ok same ∧
    a.padBegin = Word.signed same.padBefore ∧ a.padEnd = Word.signed same.padAfter

/-- A SAME mode derives the pads of each axis by itself. They are all known only if all extents
are. -/
theorem forwardSamePads_eq_ok {input kernel : List Extent} (ofRank : w.OfRank rank)
    (inputs : input.length = rank) (kernels : kernel.length = rank)
    (pads : forwardSamePads w input kernel = .ok (w', padsKnown)) :
    w'.OfRank rank ∧ (padsKnown = true →
      ∀ {axis : Nat} {a e f}, w'.axes[axis]? = some a → input[axis]? = some e →
        kernel[axis]? = some f →
        ∃ i k, e = .fixed i ∧ f = .fixed k ∧ HasSamePads (w.mode = .sameUpper) a i k) := by
  simp only [forwardSamePads, Checked.bind_eq_ok, Checked.pure_eq_ok, Prod.mk.injEq] at pads
  obtain ⟨found, each, rfl, rfl⟩ := pads
  rw [Checked.mapM_eq_ok_iff] at each
  have length : found.length = rank := by
    rw [← each.length_eq]
    simp [ofRank.length_axes, inputs, kernels]
  refine ⟨⟨ofRank.strides, ofRank.dilations, ?_, ?_⟩, ?_⟩
  · simp [ofRank.padsBegin, length]
  · simp [ofRank.padsEnd, length]
  · intro known axis a e f axisAt inputAt kernelAt
    obtain ⟨strideAt, dilationAt, beginAt, endAt⟩ := Window.axes_getElem?.1 axisAt
    simp only [List.getElem?_zipWith_eq_some] at beginAt endAt
    obtain ⟨oldBegin, new, oldBeginAt, newAt, beginEq⟩ := beginAt
    obtain ⟨oldEnd, _, oldEndAt, newAt', endEq⟩ := endAt
    cases newAt.symm.trans newAt'
    have oldAt : w.axes[axis]? = some ⟨a.stride, a.dilation, oldBegin, oldEnd⟩ :=
      Window.axes_getElem?.2 ⟨strideAt, dilationAt, oldBeginAt, oldEndAt⟩
    have operandsAt : (w.axes.zip (input.zip kernel))[axis]? =
        some (⟨a.stride, a.dilation, oldBegin, oldEnd⟩, e, f) := by
      simp [List.getElem?_zip_eq_some, oldAt, inputAt, kernelAt]
    obtain ⟨_, newAt', pads⟩ := forall₂_getElem? each operandsAt
    cases newAt.symm.trans newAt'
    obtain ⟨same, rfl⟩ :=
      Option.isSome_iff_exists.1 (List.all_eq_true.1 known _ (List.mem_of_getElem? newAt))
    rw [Option.elim_some] at beginEq endEq
    cases e with
    | dynamic => simp at pads
    | fixed i =>
      cases f with
      | dynamic => simp at pads
      | fixed k =>
        obtain ⟨_, derived, ⟨⟩⟩ := Checked.exceptMap_eq_ok.1 pads
        exact ⟨i, k, rfl, rfl, same, derived, beginEq.symm, endEq.symm⟩

/-- Where all extents are known, so are the pads of a SAME mode. -/
theorem forwardSamePads_fixed (ofRank : w.OfRank rank) (inputs : input.length = rank)
    (kernels : kernel.length = rank)
    (pads : forwardSamePads w (input.map .fixed) (kernel.map .fixed) = .ok (w', padsKnown)) :
    padsKnown = true ∧ w'.OfRank rank ∧
      ∀ {axis : Nat} {a i k}, w'.axes[axis]? = some a → input[axis]? = some i →
        kernel[axis]? = some k → HasSamePads (w.mode = .sameUpper) a i k := by
  obtain ⟨ofRank', derived⟩ :=
    forwardSamePads_eq_ok ofRank (by simpa using inputs) (by simpa using kernels) pads
  have known : padsKnown = true := by
    have extents : w.axes.zip ((input.map Extent.fixed).zip (kernel.map Extent.fixed)) =
        (w.axes.zip (input.zip kernel)).map fun x =>
          (x.1, Extent.fixed x.2.1, Extent.fixed x.2.2) := by
      rw [List.zip_map, List.zip_map_right]
      rfl
    simp only [forwardSamePads, extents, List.mapM_map, Checked.bind_eq_ok, Checked.pure_eq_ok,
      Prod.mk.injEq] at pads
    obtain ⟨found, eachFound, -, rfl⟩ := pads
    obtain ⟨sames, -, rfl⟩ := Checked.mapM_map_eq_ok.1 eachFound
    simp
  refine ⟨known, ofRank', fun {axis a i k} axisAt inputAt kernelAt => ?_⟩
  obtain ⟨_, _, sameInput, sameKernel, pads⟩ :=
    @derived known axis a (.fixed i) (.fixed k) axisAt (by simp [inputAt]) (by simp [kernelAt])
  cases sameInput
  cases sameKernel
  exact pads

/-- A convolution in a SAME mode over axes of known extents has on each of them the pads that are
derived for it and one output at least. So it has as many outputs as are reported along with the
pads, `⌈input / stride⌉`, exactly where there is something to read. -/
theorem resolveForward_same (same : w.mode.isSame = true)
    (dataShape : data.shape = .ranked (batch :: given :: input.map .fixed))
    (filterShape : filters.shape = .ranked (lead ++ kernel.map .fixed))
    (leading : lead.length = kind.traits.leadingFilterAxes)
    (resolves : resolveForward kind w [data, filters] = .ok r)
    (signFree : ∀ x ∈ r.window.axes.zip (input.zip kernel),
      Window.SameSignFree x.2.1 x.2.2 x.1.dilation x.1.stride) :
    ∃ channels spatial, r.fact.shape = .ranked (batch :: channels :: spatial) ∧
      spatial.length = input.length ∧
      r.window.OfRank input.length ∧ kernel.length = input.length ∧
      ∀ {axis : Nat} {a i k e}, r.window.axes[axis]? = some a → input[axis]? = some i →
        kernel[axis]? = some k → spatial[axis]? = some e →
          ∃ same, Window.samePads i k a.dilation a.stride (w.mode = .sameUpper) = .ok same ∧
            a.padBegin = same.padBefore ∧ a.padEnd = same.padAfter ∧
            same.output = i ⌈/⌉ a.stride ∧
            e = .fixed (max 1 same.output) ∧ (e = .fixed same.output ↔ 0 < i) := by
  obtain ⟨-, type, -,
      ⟨unknown, -⟩ | ⟨rank, operands, spatial, -, checked, pads, shape, output⟩⟩ :=
    resolveForward_eq_ok_iff.1 resolves
  · simp [spatialRank?, Fact.rank?, dataShape, Shape.rank?] at unknown
  · obtain ⟨fit, windowEq, ranked⟩ := checkOperands_eq_ok_iff.1 checked
    rw [← windowEq] at ranked
    obtain ⟨rfl, inputEq⟩ := Shape.fixed_of_tail [batch, given] dataShape rfl fit.input
    obtain ⟨kernels, kernelEq⟩ := Shape.fixed_of_tail lead filterShape leading fit.kernel
    have mode : operands.window.mode = w.mode := by rw [windowEq]; rfl
    rw [forwardPads_same (mode ▸ same), inputEq, kernelEq] at pads
    obtain ⟨known, ofRank, derived⟩ :=
      forwardSamePads_fixed (Window.checkRank_eq_ok_iff.1 ranked).1 rfl kernels pads
    rw [if_pos known, inputEq, kernelEq, Window.forwardShape_eq_ok_iff] at shape
    obtain ⟨-, -, outputs, extents⟩ := shape
    simp only [outputFact, dataShape, Checked.bind_eq_ok, Checked.pure_eq_ok] at output
    obtain ⟨_, batchAt, channels, -, fact⟩ := output
    cases batchAt
    refine ⟨channels, spatial, by rw [← fact]; rfl, by simpa using outputs, ofRank, kernels, ?_⟩
    intro axis a i k e axisAt inputAt kernelAt spatialAt
    obtain ⟨found, sames, padBegin, padEnd⟩ := derived axisAt inputAt kernelAt
    have small : Window.SameSignFree i k a.dilation a.stride :=
      signFree (a, i, k) (List.mem_of_getElem? (List.getElem?_zip_eq_some.2
        ⟨axisAt, List.getElem?_zip_eq_some.2 ⟨inputAt, kernelAt⟩⟩))
    obtain ⟨⟨stridePos, -⟩, -, reported, total, -⟩ := Window.samePads_eq_ok_iff.1 sames
    have lastSmall := small.lastSmall
    rw [Word.signed_of_lt (by omega)] at padBegin padEnd
    have extent : a.forwardExtent axis (.fixed i) (.fixed k) =
        .ok (.fixed (max 1 found.output)) := by
      rw [reported, ← Window.forwardExtent_same sames small, ← padBegin, ← padEnd]
    have counted := extents (n := .fixed i) (f := .fixed k) axisAt
      (by simp [inputAt]) (by simp [kernelAt]) spatialAt
    obtain rfl : e = .fixed (max 1 found.output) := Except.ok.inj (counted.symm.trans extent)
    refine ⟨found, mode ▸ sames, padBegin, padEnd, reported, rfl, ?_⟩
    rw [Extent.fixed.injEq, ← Window.ceilDiv_pos_iff stridePos, ← reported]
    omega

/-- An axis without elements is padded, and then has one output where none is reported. -/
theorem resolveForward_same_emptyAxis :
    ∃ r same, resolveForward .convolution ⟨[], [], [], [], .sameUpper, []⟩
        [.typed .f32 (.ofLengths [1, 1, 0]), .typed .f32 (.ofLengths [1, 1, 1])] = .ok r ∧
      r.fact.shape = .ofLengths [1, 1, 1] ∧
      Window.samePads 0 1 1 1 true = .ok same ∧ same.output = 0 ∧
      r.fact.shape ≠ .ofLengths [1, 1, same.output] := by
  have dataShape : (Fact.typed .f32 (.ofLengths [1, 1, 0])).shape =
      .ranked (.fixed 1 :: .fixed 1 :: [0].map .fixed) := rfl
  have filterShape : (Fact.typed .f32 (.ofLengths [1, 1, 1])).shape =
      .ranked ([.fixed 1, .fixed 1] ++ [1].map .fixed) := rfl
  have resolves : resolveForward .convolution ⟨[], [], [], [], .sameUpper, []⟩
      [.typed .f32 (.ofLengths [1, 1, 0]), .typed .f32 (.ofLengths [1, 1, 1])] =
        .ok ⟨⟨[1], [1], [0], [1], .sameUpper, [0]⟩, true,
          .typed .f32 (.ofLengths [1, 1, 1])⟩ := by decide +kernel
  obtain ⟨channels, spatial, shape, -, -, -, axes⟩ :=
    resolveForward_same rfl dataShape filterShape rfl resolves
      (List.forall_mem_singleton.2 ⟨by decide, by decide, by decide⟩)
  cases shape
  obtain ⟨same, derived, -, -, reported, -, counted⟩ :=
    @axes 0 ⟨1, 1, 0, 1⟩ 0 1 (.fixed 1) rfl rfl rfl rfl
  refine ⟨_, same, resolves, rfl, derived, reported, fun equal => ?_⟩
  simp only [Fact.typed, Shape.ofLengths, List.map_cons, List.map_nil, Shape.ranked.injEq,
    List.cons.injEq, true_and, and_true] at equal
  exact absurd (counted.1 equal) (by decide)

end Conv

end EvenPad
