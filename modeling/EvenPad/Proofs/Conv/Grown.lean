import EvenPad.Proofs.Conv

/-!
Data that grows by the pads of a window. Main statements: data can be padded if each spatial
extent allows it (`Pad.shape_eq_ok`), and a forward convolution without its pads has over padded
data the spatial output that it has with them (`Window.OfRank.forwardShape_grown`).
-/

namespace EvenPad

/-! ## Extents that grow -/

namespace Extent

variable {e e' : Extent} {delta : Int}

/-- The extent and what it grows to are the same numbers when they are read with a sign. -/
def SignFree : Extent → Int → Prop
  | .fixed n, delta => n < 9223372036854775808 ∧ n + delta < 9223372036854775808
  | .dynamic, _ => True

/-- The extent has as many elements as it may lose. -/
def Allows : Extent → Int → Prop
  | .fixed n, delta => 0 ≤ n + delta
  | .dynamic, _ => True

/-- The extent after it grew. -/
def grown : Extent → Int → Extent
  | .fixed n, delta => .fixed (n + delta).toNat
  | .dynamic, _ => .dynamic

instance : Decidable (e.SignFree delta) := by
  cases e <;> unfold SignFree <;> infer_instance

instance : Decidable (e.Allows delta) := by
  cases e <;> unfold Allows <;> infer_instance

theorem offset_eq_ok (signFree : e.SignFree delta) :
    e.offset delta = .ok e' ↔ e.Allows delta ∧ e.grown delta = e' := by
  cases e with
  | dynamic => simp [offset, Allows, grown]
  | fixed n =>
    obtain ⟨small, grownSmall⟩ := signFree
    rw [offset, ofSigned, Word.signed_of_lt small, Allows, grown]
    split
    · next nonneg =>
      rw [Word.unsigned_of_nonneg nonneg (by omega)]
      simp [nonneg]
    · next negative => simp [negative]

theorem grown_zero : e.grown 0 = e := by
  cases e <;> simp [grown]

end Extent

/-- A filter fits as often into padded data as it does with the pads. -/
theorem Window.Axis.forwardExtent_grown {a : Window.Axis} {axis : Nat} {e f : Extent}
    (signFree : e.SignFree (a.padBegin + a.padEnd)) (allows : e.Allows (a.padBegin + a.padEnd)) :
    { a with padBegin := 0, padEnd := 0 }.forwardExtent axis (e.grown (a.padBegin + a.padEnd)) f =
      a.forwardExtent axis e f := by
  cases e with
  | dynamic => rfl
  | fixed n =>
    obtain ⟨small, grownSmall⟩ := signFree
    have nonneg : 0 ≤ (n : Int) + (a.padBegin + a.padEnd) := allows
    have padded : Word.signed ((n : Int) + (a.padBegin + a.padEnd)).toNat + 0 + 0 =
        Word.signed n + a.padBegin + a.padEnd := by
      rw [Word.signed_of_lt (by omega), Word.signed_of_lt small]
      omega
    cases f with
    | dynamic => rfl
    | fixed f => simp only [Extent.grown, forwardExtent, padded]

/-- Every extent is the same number with a sign, and so is what it grows to by the pads of its
axis. Batch and channel do not grow. -/
def Shape.SignFree (s : Shape) (w : Window) : Prop :=
  ∀ extents ∈ s.extents?, (∀ e ∈ extents.take 2, e.SignFree 0) ∧
    ∀ x ∈ w.axes.zip (extents.drop 2), x.2.SignFree (x.1.padBegin + x.1.padEnd)

instance {s : Shape} {w : Window} : Decidable (s.SignFree w) := by
  unfold Shape.SignFree
  infer_instance

theorem Shape.SignFree.spatial {s : Shape} {w : Window} {rank : Nat} {input : List Extent}
    (signFree : s.SignFree w) (tail : s.tail 2 rank = .ok input) :
    ∀ x ∈ w.axes.zip input, x.2.SignFree (x.1.padBegin + x.1.padEnd) := by
  unfold Shape.tail at tail
  split at tail
  · cases Except.ok.inj tail
    rintro ⟨a, e⟩ mem
    obtain rfl : e = .dynamic := (List.mem_replicate.1 (List.of_mem_zip mem).2).2
    trivial
  · split at tail
    · cases Except.ok.inj tail
      exact (signFree _ rfl).2
    · split at tail <;> simp at tail

/-! ## Padding -/

theorem Checked.mapM_congr {α β : Type} {f f' : α → Checked β} {l : List α}
    (same : ∀ a ∈ l, f a = f' a) : l.mapM f = l.mapM f' := by
  induction l with
  | nil => rfl
  | cons a rest ih =>
    obtain ⟨head, tail⟩ := List.forall_mem_cons.1 same
    rw [List.mapM_cons, List.mapM_cons, head, ih tail]

namespace Window

variable {w : Window} {rank : Nat} {input kernel : List Extent}

/-- The spatial extents after they grew by the pads of their axes. -/
def grown (w : Window) (input : List Extent) : List Extent :=
  (w.axes.zip input).map fun (a, e) => e.grown (a.padBegin + a.padEnd)

/-- Each spatial extent has as many elements as its pads take away. -/
def Allowed (w : Window) (input : List Extent) : Prop :=
  ∀ x ∈ w.axes.zip input, x.2.Allows (x.1.padBegin + x.1.padEnd)

instance : Decidable (w.Allowed input) := by
  unfold Allowed
  infer_instance

/-- A forward convolution without pads has the spatial output over the padded input that it has
with pads over the input. -/
theorem OfRank.forwardShape_grown (ofRank : w.OfRank rank) (length : input.length = rank)
    (signFree : ∀ x ∈ w.axes.zip input, x.2.SignFree (x.1.padBegin + x.1.padEnd))
    (allowed : w.Allowed input) :
    w.unpadded.forwardShape (w.grown input) kernel = w.forwardShape input kernel := by
  have grownLength : (w.grown input).length = input.length := by
    simp [grown, ofRank.length_axes, length]
  have axes : (w.unpadded.axes.zip ((w.grown input).zip kernel)).zipIdx =
      ((w.axes.zip (input.zip kernel)).zipIdx).map fun x =>
        (({ x.1.1 with padBegin := 0, padEnd := 0 },
          x.1.2.1.grown (x.1.1.padBegin + x.1.1.padEnd), x.1.2.2), x.2) := by
    rw [ofRank.axes_unpadded]
    apply List.ext_getElem
    · simp [grown, ofRank.length_axes, length]
    · intro i _ _
      simp [grown]
  rw [forwardShape, forwardShape, axes, grownLength, ofRank.unpadded.padsBegin,
    ofRank.unpadded.padsEnd, ofRank.padsBegin, ofRank.padsEnd, List.mapM_map]
  congr 1
  funext _
  refine Checked.mapM_congr ?_
  rintro ⟨⟨a, e, f⟩, axis⟩ mem
  have among : (a, e) ∈ w.axes.zip input := by
    obtain ⟨i, at_i⟩ := List.mem_iff_getElem?.1 mem
    rw [List.getElem?_zipIdx, Option.map_eq_some_iff] at at_i
    obtain ⟨_, at_i, same⟩ := at_i
    cases (Prod.mk.inj same).1
    simp only [List.getElem?_zip_eq_some] at at_i
    exact List.mem_of_getElem? (List.getElem?_zip_eq_some.2 ⟨at_i.1, at_i.2.1⟩)
  exact Axis.forwardExtent_grown (signFree _ among) (allowed _ among)

end Window

/-- Each known spatial extent has as many elements as its pads take away. -/
def Shape.Allows (s : Shape) (w : Window) : Prop :=
  ∀ extents ∈ s.extents?, w.Allowed (extents.drop 2)

instance {s : Shape} {w : Window} : Decidable (s.Allows w) := by
  unfold Shape.Allows
  infer_instance

theorem Shape.allows_iff {s : Shape} {w : Window} {rank : Nat} {input : List Extent}
    (tail : s.tail 2 rank = .ok input) : s.Allows w ↔ w.Allowed input := by
  unfold Shape.tail at tail
  split at tail
  · cases Except.ok.inj tail
    refine iff_of_true (fun _ known => by simp [Shape.extents?] at known) ?_
    rintro ⟨a, e⟩ mem
    obtain rfl : e = .dynamic := (List.mem_replicate.1 (List.of_mem_zip mem).2).2
    trivial
  · split at tail
    · cases Except.ok.inj tail
      simp [Shape.Allows, Shape.extents?]
    · split at tail <;> simp at tail

namespace Pad

variable {data : Fact} {w : Window} {rank : Nat} {input : List Extent} {batch channels : Extent}
  {s : Shape}

/-- The extents of spatial axes grow by their pads if they allow it. -/
theorem mapM_offset_eq_ok {l : List (Window.Axis × Extent)} {extents : List Extent}
    (signFree : ∀ x ∈ l, x.2.SignFree (x.1.padBegin + x.1.padEnd)) :
    l.mapM (fun x => x.2.offset (x.1.padBegin + x.1.padEnd)) = .ok extents ↔
      (∀ x ∈ l, x.2.Allows (x.1.padBegin + x.1.padEnd)) ∧
        l.map (fun x => x.2.grown (x.1.padBegin + x.1.padEnd)) = extents := by
  induction l generalizing extents with
  | nil => simp
  | cons x rest ih =>
    obtain ⟨head, tail⟩ := List.forall_mem_cons.1 signFree
    rw [List.mapM_cons]
    simp only [Checked.bind_eq_ok, Checked.pure_eq_ok, Extent.offset_eq_ok head, ih tail,
      List.forall_mem_cons, List.map_cons]
    constructor
    · rintro ⟨_, ⟨first, rfl⟩, _, ⟨others, rfl⟩, rfl⟩
      exact ⟨⟨first, others⟩, rfl⟩
    · rintro ⟨⟨first, others⟩, rfl⟩
      exact ⟨_, ⟨first, rfl⟩, _, ⟨others, rfl⟩, rfl⟩

/-- Data can be padded if each spatial extent allows it. Batch and channel stay as they are. -/
theorem shape_eq_ok (ofRank : w.OfRank rank) (tail : data.shape.tail 2 rank = .ok input)
    (batchAt : data.shape.extentAt 0 = .ok batch)
    (channelsAt : data.shape.extentAt 1 = .ok channels) (signFree : data.shape.SignFree w) :
    shape data (Window.fullPads w.padsBegin) (Window.fullPads w.padsEnd) = .ok s ↔
      w.Allowed input ∧ .ranked (batch :: channels :: w.grown input) = s := by
  cases shapeEq : data.shape with
  | unranked =>
    rw [shapeEq] at tail batchAt channelsAt
    cases Except.ok.inj tail
    cases Except.ok.inj batchAt
    cases Except.ok.inj channelsAt
    have dynamic : ∀ x ∈ w.axes.zip (List.replicate rank Extent.dynamic), x.2 = .dynamic :=
      fun x mem => (List.mem_replicate.1 (List.of_mem_zip mem).2).2
    have allowed : w.Allowed (List.replicate rank .dynamic) := by
      intro x mem
      rw [dynamic x mem]
      trivial
    have grown : w.grown (List.replicate rank .dynamic) = List.replicate rank .dynamic := by
      rw [Window.grown, List.eq_replicate_iff]
      refine ⟨by simp [ofRank.length_axes], fun e mem => ?_⟩
      obtain ⟨⟨a, e⟩, among, rfl⟩ := List.mem_map.1 mem
      change e.grown _ = .dynamic
      rw [show e = .dynamic from dynamic _ among, Extent.grown]
    simp only [shape, shapeEq, Except.ok.injEq, grown, allowed, true_and]
    simp [Shape.dynamic, Window.fullPads, ofRank.padsBegin, List.replicate_succ]
  | ranked extents =>
    rw [shapeEq] at tail batchAt channelsAt
    obtain ⟨length, rfl⟩ : extents.length = 2 + rank ∧ extents.drop 2 = input := by
      unfold Shape.tail at tail
      split at tail
      · next unranked => simp at unranked
      · next ranked =>
        cases ranked
        split at tail
        · next length => exact ⟨length, Except.ok.inj tail⟩
        · split at tail <;> simp at tail
    obtain ⟨lead, spatial⟩ := signFree extents (by rw [shapeEq]; rfl)
    rcases extents with _ | ⟨b, _ | ⟨c, input⟩⟩
    · simp at length
      omega
    · simp at length
      omega
    obtain rfl : b = batch := by simpa [Shape.extentAt] using batchAt
    obtain rfl : c = channels := by simpa [Shape.extentAt] using channelsAt
    simp only [List.length_cons, List.drop_succ_cons, List.drop_zero, List.take_succ_cons,
      List.take_zero, List.forall_mem_cons] at length lead spatial ⊢
    have pads : input.zip (w.padsBegin.zip w.padsEnd) =
        (w.axes.zip input).map fun x => (x.2, x.1.padBegin, x.1.padEnd) := by
      apply List.ext_getElem
      · simp [ofRank.length_axes, ofRank.padsBegin, ofRank.padsEnd, Nat.min_comm]
      · intro i _ _
        simp [Window.axes]
    have batchKept : b.offset (0 + 0) = .ok b :=
      (Extent.offset_eq_ok lead.1).2 ⟨by cases b <;> simp [Extent.Allows], Extent.grown_zero⟩
    have channelsKept : c.offset (0 + 0) = .ok c :=
      (Extent.offset_eq_ok lead.2.1).2 ⟨by cases c <;> simp [Extent.Allows], Extent.grown_zero⟩
    simp only [shape, shapeEq, Window.fullPads, List.zip_cons_cons, List.mapM_cons, pads,
      List.mapM_map, batchKept, channelsKept, Checked.bind_eq_ok, Checked.require_eq_ok,
      Checked.pure_eq_ok, List.length_cons, ofRank.padsBegin, Except.ok.injEq]
    constructor
    · rintro ⟨_, -, _, ⟨_, rfl, _, ⟨_, rfl, _, others, rfl⟩, rfl⟩, rfl⟩
      obtain ⟨allowed, rfl⟩ := (mapM_offset_eq_ok spatial).1 others
      exact ⟨allowed, rfl⟩
    · rintro ⟨allowed, rfl⟩
      refine ⟨⟨⟩, by simp; omega, _,
        ⟨_, rfl, _, ⟨_, rfl, _, (mapM_offset_eq_ok spatial).2 ⟨allowed, rfl⟩, rfl⟩, rfl⟩, rfl⟩

/-- The fact of padded data has the shape of padded data. -/
theorem outputFact_eq_ok {begins ends : List Int} {fact : Fact} :
    Op.pad.outputFact [data, .constant (.vector begins), .constant (.vector ends),
        .constant (.zeroScalar data.elementType)] = .ok fact ↔
      begins.length = ends.length ∧
        ∃ s, shape data begins ends = .ok s ∧ .typed data.elementType s = fact := by
  have vector (values : List Int) (operand : VectorOperand) :
      (Fact.constant (.vector values)).vector operand = .ok values := rfl
  have scalar : checkValue data (.constant (.zeroScalar data.elementType)) = .ok ⟨⟩ := by
    simp [checkValue, Fact.constant, Tensor.zeroScalar, Fact.rank?, Shape.rank?, Shape.ofLengths,
      Checked.bind_eq_ok, Checked.require_eq_ok]
  simp only [Op.outputFact, outputFact, vector, scalar, Checked.bind_eq_ok, Checked.require_eq_ok,
    Checked.pure_eq_ok, Except.ok.injEq, decide_eq_true_eq]
  constructor
  · rintro ⟨_, rfl, _, rfl, ⟨⟩, length, ⟨⟩, -, s, made, rfl⟩
    exact ⟨length, s, made, rfl⟩
  · rintro ⟨length, s, made, rfl⟩
    exact ⟨_, rfl, _, rfl, ⟨⟩, length, ⟨⟩, ⟨⟩, s, made, rfl⟩

end Pad

end EvenPad
