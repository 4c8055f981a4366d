import EvenPad.Proofs.Conv.Unpadded
import EvenPad.Proofs.Unpad.Transposed

/-!
The lengths that a transposed convolution has to produce: those of its output, whether they are
asked for or not (`Unpad.shape_of_targetLengths`). What a plan adds to them is what the pads cut
off (`Unpad.plan_eq`, `Unpad.plan_of_plans`).
-/

namespace EvenPad

/-- Spatial lengths that are all known are those of a shape of known rank. -/
theorem Shape.tail_fixed {s : Shape} {rank : Nat} {lengths : List Nat} (pos : 0 < rank)
    (tail : s.tail 2 rank = .ok (lengths.map .fixed)) :
    ∃ batch channels, s = .ranked (batch :: channels :: lengths.map .fixed) := by
  unfold Shape.tail at tail
  split at tail
  · have same := Except.ok.inj tail
    have dynamic : Extent.dynamic ∈ lengths.map Extent.fixed := by
      rw [← same]
      exact List.mem_replicate.2 ⟨Nat.ne_of_gt pos, rfl⟩
    simp at dynamic
  · next extents =>
    split at tail
    · next length =>
      rcases extents with _ | ⟨batch, _ | ⟨channels, rest⟩⟩
      · simp at length
        omega
      · simp at length
        omega
      · exact ⟨batch, channels, by rw [← Except.ok.inj tail]; rfl⟩
    · split at tail <;> simp at tail

/-- A transposed convolution, with or without an addend, resolves as one, and asks for an output
shape as one. -/
def Conv.ResolvesTransposed (w : Window) (r : Resolution) (requested : Shape) : Prop :=
  ∃ t data filters outputShape, resolveTransposed t w data filters outputShape = .ok r ∧
    outputShapeQuery t w data filters outputShape = .ok requested

theorem Conv.resolvesTransposed_of_deconv {kind : ConvKind} {w : Window} {takesOutputShape : Bool}
    {facts : List Fact} {r : Resolution} {requested : Shape}
    (resolves : resolveDeconv kind w takesOutputShape facts = .ok r)
    (query : deconvQuery kind w takesOutputShape facts = .ok requested) :
    ResolvesTransposed w r requested := by
  simp only [resolveDeconv, deconvQuery, Checked.bind_eq_ok] at resolves query
  obtain ⟨i, roles, resolves⟩ := resolves
  obtain ⟨i', roles', query⟩ := query
  cases Except.ok.inj (roles.symm.trans roles')
  exact ⟨_, _, _, _, resolves, query⟩

theorem Conv.resolvesTransposed_of_fused {w : Window}
    {takesOutputShape : Bool} {facts : List Fact} {r : Resolution} {requested : Shape}
    (resolves : resolveFused w takesOutputShape facts = .ok r)
    (query : fusedQuery w takesOutputShape facts = .ok requested) :
    ResolvesTransposed w r requested := by
  simp only [resolveFused, fusedQuery, Checked.bind_eq_ok] at resolves query
  obtain ⟨i, roles, resolves⟩ := resolves
  obtain ⟨i', roles', query⟩ := query
  cases Except.ok.inj (roles.symm.trans roles')
  exact ⟨_, _, _, _, resolves, query⟩

/-- Lengths that are asked for are those of the output. -/
theorem Conv.shape_of_outputShapeQuery {t : ConvTraits} {w : Window} {data filters : Fact}
    {outputShape : Option Fact} {resolved : Resolution} {requested : Shape} {lengths : List Nat}
    (resolves : resolveTransposed t w data filters outputShape = .ok resolved)
    (query : outputShapeQuery t w data filters outputShape = .ok requested)
    (known : requested.lengths? = some lengths) (pos : 0 < lengths.length) :
    ∃ batch channels, resolved.fact.shape =
      .ranked (batch :: channels :: lengths.map .fixed) := by
  cases outputShape with
  | some fact =>
    simp only [outputShapeQuery, Checked.bind_eq_ok] at query
    obtain ⟨wanted, asked, query⟩ := query
    cases wanted with
    | some wanted =>
      cases Checked.pure_eq_ok.1 query
      rw [Shape.ofLengths, Shape.lengths?, Extent.mapM_length?_eq_some] at known
      rw [← known]
      exact resolveTransposed_requested resolves asked
    | none =>
      cases Checked.pure_eq_ok.1 query
      simp [Shape.lengths?] at known
  | none =>
    cases Checked.pure_eq_ok.1 query
    generalize (data.rank?.map (· - 2)).or _ = rank at known
    cases rank with
    | none => simp [Shape.lengths?] at known
    | some rank =>
      rw [Option.elim_some, Shape.dynamic, Shape.lengths?, Extent.mapM_length?_eq_some] at known
      have dynamic : Extent.dynamic ∈ lengths.map Extent.fixed := by
        rw [← known, List.mem_replicate]
        refine ⟨?_, rfl⟩
        rintro rfl
        have length : (List.replicate 0 Extent.dynamic).length =
            (lengths.map Extent.fixed).length := by
          rw [known]
        simp at length
        omega
      simp at dynamic

namespace Unpad

variable {g : Graph} {node : Node} {fact : Fact} {requested : Shape} {rank : Nat}
  {lengths : List Nat} {resolved : Resolution} {log log' : Log} {kind : ConvKind} {w : Window}
  {takesOutputShape : Bool} {batch channels : Extent}

theorem fact_of_facts {output : Output} (facts : node.facts = [fact])
    (there : node.outputs[0]? = some output) : output.fact = fact := by
  have known : node.facts[0]? = some output.fact := by
    rw [Node.facts, List.getElem?_map, there, Option.map_some]
  rw [facts] at known
  exact (Option.some.inj known).symm

/-- The lengths that a node has to produce are those of its output. -/
theorem shape_of_targetLengths (facts : node.facts = [fact]) (pos : 0 < rank)
    (asked : ∀ {lengths : List Nat}, requested.lengths? = some lengths → 0 < lengths.length →
      ∃ batch channels, fact.shape = .ranked (batch :: channels :: lengths.map .fixed))
    (told : targetLengths node requested rank = .ok (some lengths)) :
    ∃ batch channels, fact.shape = .ranked (batch :: channels :: lengths.map .fixed) := by
  unfold targetLengths at told
  cases found : requested.lengths?.filter (·.length = rank) with
  | some wanted =>
    simp only [found] at told
    cases Checked.pure_eq_ok.1 told
    obtain ⟨known, length⟩ := Option.filter_eq_some_iff.1 found
    refine asked known ?_
    rw [decide_eq_true_eq] at length
    rwa [length]
  | none =>
    simp only [found, Checked.bind_eq_ok, Checked.pure_eq_ok, Checked.ofPresent_eq_ok] at told
    obtain ⟨output, there, extents, tail, known⟩ := told
    rw [Extent.mapM_length?_eq_some] at known
    rw [fact_of_facts facts there, known] at tail
    exact Shape.tail_fixed pos tail

/-- They are known if the output has known lengths. -/
theorem targetLengths_ne_none (facts : node.facts = [fact])
    (shape : fact.shape = .ranked (batch :: channels :: lengths.map .fixed)) :
    targetLengths node requested rank ≠ .ok none := by
  intro told
  unfold targetLengths at told
  cases found : requested.lengths?.filter (·.length = rank) with
  | some wanted => simp [found] at told
  | none =>
    simp only [found, Checked.bind_eq_ok, Checked.pure_eq_ok, Checked.ofPresent_eq_ok] at told
    obtain ⟨output, there, extents, tail, unknown⟩ := told
    rw [fact_of_facts facts there, shape, Shape.tail] at tail
    split at tail
    · have known : extents.mapM Extent.length? = some lengths := by
        rw [Extent.mapM_length?_eq_some, ← Except.ok.inj tail]
        rfl
      rw [known] at unknown
      simp at unknown
    · split at tail <;> simp at tail

/-- They are found if the output has that many spatial axes, known or not. -/
theorem targetLengths_ok (requested : Shape) {extents : List Extent} (facts : node.facts = [fact])
    (tail : fact.shape.tail 2 rank = .ok extents) :
    ∃ target, targetLengths node requested rank = .ok target := by
  unfold targetLengths
  cases found : requested.lengths?.filter (·.length = rank) with
  | some wanted => exact ⟨_, rfl⟩
  | none =>
    obtain ⟨output, there⟩ : ∃ output, node.outputs[0]? = some output := by
      cases outputs : node.outputs with
      | nil => simp [Node.facts, outputs] at facts
      | cons output _ => exact ⟨output, rfl⟩
    rw [← fact_of_facts facts there] at tail
    refine ⟨extents.mapM Extent.length?, ?_⟩
    simp only [Checked.bind_eq_ok, Checked.pure_eq_ok, Checked.ofPresent_eq_ok]
    exact ⟨output, there, extents, tail, rfl⟩

/-! ## Plans -/

/-- The plan for a transposed convolution that resolves to known pads, which are uneven and not
negative, and whose output has known lengths. -/
structure Plans (r : Resolution) (fact : Fact) (plan : Plan) : Prop where
  padsKnown : r.padsKnown = true
  uneven : r.window.isAsymmetric = true
  nonneg : ∀ pad ∈ r.window.padsBegin ++ r.window.padsEnd, 0 ≤ pad
  inflates : ∃ batch channels, ∃ target : List Nat,
    fact.shape = .ranked (batch :: channels :: target.map .fixed) ∧
      plan = ⟨r.window, r.window.inflated target⟩

theorem map_fixed_injective : Function.Injective (List.map Extent.fixed) :=
  List.map_injective_iff.2 fun _ _ => Extent.fixed.inj

theorem Plans.unique {r : Resolution} {plan plan' : Plan} (plans : Plans r fact plan)
    (plans' : Plans r fact plan') : plan = plan' := by
  obtain ⟨_, _, target, shape, rfl⟩ := plans.inflates
  obtain ⟨_, _, target', shape', rfl⟩ := plans'.inflates
  rw [shape] at shape'
  simp only [Shape.ranked.injEq, List.cons.injEq] at shape'
  rw [map_fixed_injective shape'.2.2]

section

variable {r : Resolution} {plan : Plan} {target : List Nat}

theorem pos_of_isAsymmetric (ofRank : w.OfRank rank)
    (uneven : w.isAsymmetric = true) : 0 < rank := by
  rcases Nat.eq_zero_or_pos rank with rfl | pos
  · have begins := List.length_eq_zero_iff.1 ofRank.padsBegin
    have ends := List.length_eq_zero_iff.1 ofRank.padsEnd
    simp [Window.isAsymmetric, begins, ends] at uneven
  · exact pos

/-- The lengths that are found for a convolution with uneven pads are those of its output. -/
theorem shape_of_told (facts : node.facts = [r.fact])
    (transposed : Conv.ResolvesTransposed w r requested)
    (uneven : r.window.isAsymmetric = true)
    (told : targetLengths node requested r.window.padsBegin.length = .ok (some target)) :
    ∃ batch channels, r.fact.shape = .ranked (batch :: channels :: target.map .fixed) := by
  obtain ⟨_, _, _, _, resolves, query⟩ := transposed
  obtain ⟨rank, ofRank⟩ := Conv.resolveTransposed_ofRank resolves uneven
  have pos := pos_of_isAsymmetric ofRank uneven
  rw [← ofRank.padsBegin] at pos
  exact shape_of_targetLengths facts pos (Conv.shape_of_outputShapeQuery resolves query) told

/-- What a plan is for. -/
theorem plan_eq (facts : node.facts = [r.fact])
    (transposed : Conv.ResolvesTransposed w r requested)
    (planned : Unpad.plan node r requested log = .ok (some plan) log') : Plans r r.fact plan := by
  obtain ⟨padsKnown, window, uneven, nonneg, lengths, target, told, inflated⟩ :=
    plan_eq_some planned
  obtain ⟨_, planInflated⟩ := plan
  obtain rfl : _ = r.window := window
  obtain ⟨batch, channels, shape⟩ := shape_of_told facts transposed uneven told
  exact ⟨padsKnown, uneven, nonneg, batch, channels, target, shape, congrArg (Plan.mk _) inflated⟩

/-- The output of a convolution with uneven pads has as many spatial axes as there are pads. -/
theorem tail_of_resolveTransposed (transposed : Conv.ResolvesTransposed w r requested)
    (uneven : r.window.isAsymmetric = true) :
    r.window.padsBegin.length = r.window.padsEnd.length ∧
      ∃ extents, r.fact.shape.tail 2 r.window.padsBegin.length = .ok extents := by
  obtain ⟨_, _, _, _, resolves, -⟩ := transposed
  obtain ⟨type, _, rank, _, _, spatial, -, -, -, checked, length, -, output⟩ :=
    Conv.resolveTransposed_eq_ok resolves uneven
  have ofRank := (Window.checkRank_eq_ok_iff.1 checked).1
  simp only [Conv.outputFact, Checked.bind_eq_ok, Checked.pure_eq_ok] at output
  obtain ⟨batch, -, channels, -, output⟩ := output
  refine ⟨ofRank.padsBegin.trans ofRank.padsEnd.symm, spatial, ?_⟩
  rw [← output, ofRank.padsBegin, Fact.typed, Shape.tail, if_pos (by simp [length]; omega)]
  rfl

/-- It is found. -/
theorem plan_of_plans (log : Log) (facts : node.facts = [r.fact])
    (transposed : Conv.ResolvesTransposed w r requested)
    (plans : Plans r r.fact plan) :
    Unpad.plan node r requested log = .ok (some plan) log := by
  obtain ⟨padsKnown, uneven, nonneg, batch, channels, target, shape, rfl⟩ := plans
  obtain ⟨lengths, extents, tail⟩ := tail_of_resolveTransposed transposed uneven
  obtain ⟨found, told⟩ := targetLengths_ok requested facts tail
  obtain ⟨target', rfl⟩ : ∃ target', found = some target' := by
    cases found with
    | none => exact absurd told (targetLengths_ne_none facts shape)
    | some target' => exact ⟨target', rfl⟩
  obtain ⟨_, _, shape'⟩ := shape_of_told facts transposed uneven told
  rw [shape] at shape'
  simp only [Shape.ranked.injEq, List.cons.injEq] at shape'
  obtain rfl : target = target' := map_fixed_injective shape'.2.2
  have positive : (r.window.padsBegin ++ r.window.padsEnd).any (· < 0) = false := by
    simpa only [List.any_eq_false, decide_eq_true_eq, Int.not_lt] using nonneg
  simp only [Unpad.plan, padsKnown, uneven, positive, Bool.not_true, Bool.false_eq_true, if_false,
    Edit.bind_eq_ok, Edit.lift_eq_ok, Checked.require_eq_ok, decide_eq_true_eq]
  exact ⟨⟨⟩, log, ⟨lengths, rfl⟩, some target, log, ⟨told, rfl⟩, rfl⟩

/-- Where there is none, that is found out. -/
theorem plan_declines (log : Log) (facts : node.facts = [r.fact])
    (transposed : Conv.ResolvesTransposed w r requested)
    (other : ∀ plan, ¬ Plans r r.fact plan) :
    ∃ log', Unpad.plan node r requested log = .ok none log' := by
  cases padsKnown : r.padsKnown with
  | false => exact ⟨_, by simp only [Unpad.plan, padsKnown]; rfl⟩
  | true =>
    cases uneven : r.window.isAsymmetric with
    | false => exact ⟨_, by simp only [Unpad.plan, padsKnown, uneven]; rfl⟩
    | true =>
      cases negative : (r.window.padsBegin ++ r.window.padsEnd).any (· < 0) with
      | true => exact ⟨_, by simp only [Unpad.plan, padsKnown, uneven, negative]; rfl⟩
      | false =>
        obtain ⟨lengths, extents, tail⟩ := tail_of_resolveTransposed transposed uneven
        obtain ⟨found, told⟩ := targetLengths_ok requested facts tail
        obtain rfl : found = none := by
          rcases found with _ | target
          · rfl
          · obtain ⟨batch, channels, shape⟩ := shape_of_told facts transposed uneven told
            refine absurd ⟨padsKnown, uneven, ?_, batch, channels, target, shape, rfl⟩ (other _)
            simpa only [List.any_eq_false, decide_eq_true_eq, Int.not_lt] using negative
        refine ⟨.outputUnknown node :: log, ?_⟩
        simp only [Unpad.plan, padsKnown, uneven, negative, Bool.not_true, Bool.false_eq_true,
          if_false, Edit.bind_eq_ok, Edit.lift_eq_ok, Checked.require_eq_ok, decide_eq_true_eq]
        exact ⟨⟨⟩, log, ⟨lengths, rfl⟩, none, log, ⟨told, rfl⟩, rfl⟩

end

end Unpad

end EvenPad
