import EvenPad.Op.Attributes
import EvenPad.Proofs.Edit
import Mathlib

/-!
What the configuration of an operator tells. Numbers that are joined by commas can be told apart,
since a decimal is not empty and holds no comma (`commaJoined_inj`), and attributes are refused
only if a name comes twice (`AttributeList.of_eq_ok_iff`). Main statement:
`Op.attributeList_determines`, transposed convolutions and slices have a list of attributes, and
two of them have the same list exactly if they are configured in the same way.
-/

namespace EvenPad

/-! ## Joined texts -/

namespace Text

variable {items items' : List String}

/-- A text that stays apart from its neighbours when it is joined to them by commas. -/
structure Separable (t : String) : Prop where
  plain : ',' ∉ t.toList
  ne_empty : t ≠ ""

theorem splitOn_commaJoined (separable : ∀ t ∈ items, Separable t) (some : items ≠ []) :
    (commaJoined items).toList.splitOn ',' = items.map String.toList := by
  have joined : (commaJoined items).toList = [','].intercalate (items.map String.toList) :=
    String.toList_intercalate
  rw [joined]
  refine List.splitOn_intercalate ',' (fun part among => ?_) (by simpa using some)
  obtain ⟨t, mem, rfl⟩ := List.mem_map.1 among
  exact (separable t mem).plain

/-- Only no items at all are written as the empty text. -/
theorem commaJoined_eq_empty_iff (separable : ∀ t ∈ items, Separable t) :
    commaJoined items = "" ↔ items = [] := by
  constructor
  · intro empty
    by_contra some
    have parts := splitOn_commaJoined separable some
    rw [empty, String.toList_empty, List.splitOn_nil] at parts
    obtain ⟨t, mem, blank⟩ := List.mem_map.1 (parts ▸ List.mem_singleton_self [])
    exact (separable t mem).ne_empty (String.toList_eq_nil_iff.1 blank)
  · intro none
    rw [none]
    rfl

theorem commaJoined_inj (separable : ∀ t ∈ items, Separable t)
    (separable' : ∀ t ∈ items', Separable t) :
    commaJoined items = commaJoined items' ↔ items = items' := by
  refine ⟨fun same => ?_, congrArg commaJoined⟩
  by_cases none : items = []
  · rw [(commaJoined_eq_empty_iff separable).2 none] at same
    rw [none, (commaJoined_eq_empty_iff separable').1 same.symm]
  · have some : items' ≠ [] := by
      intro none'
      exact none ((commaJoined_eq_empty_iff separable).1
        (same.trans (congrArg commaJoined none')))
    have parts := splitOn_commaJoined separable none
    rw [same, splitOn_commaJoined separable' some] at parts
    exact (List.map_inj_right fun _ _ => String.toList_injective).1 parts.symm

/-! ## Decimals -/

theorem separable_repr (n : Nat) : Separable n.repr where
  plain mem := by
    rw [Nat.toList_repr] at mem
    exact absurd (Nat.isDigit_of_mem_toDigits (by decide) (by decide) mem) (by decide)
  ne_empty := Nat.repr_ne_empty

/-- A sign changes nothing about that. -/
theorem separable_intRepr (n : Int) : Separable n.repr := by
  rw [Int.repr_eq_if]
  split
  · exact separable_repr n.toNat
  · exact ⟨by simpa using (separable_repr (-n).toNat).plain, by simp⟩

/-- Lists of numbers can be told apart if the numbers can. -/
theorem commaJoined_map_inj {α : Type} {write : α → String} (separable : ∀ a, Separable (write a))
    (injective : write.Injective) {values values' : List α} :
    commaJoined (values.map write) = commaJoined (values'.map write) ↔ values = values' := by
  have each (l : List α) : ∀ t ∈ l.map write, Separable t := by
    intro t mem
    obtain ⟨a, -, rfl⟩ := List.mem_map.1 mem
    exact separable a
  rw [commaJoined_inj (each values) (each values')]
  exact (List.map_injective_iff.2 injective).eq_iff

theorem commaJoined_nats_inj {values values' : List Nat} :
    commaJoined (values.map toString) = commaJoined (values'.map toString) ↔ values = values' :=
  commaJoined_map_inj separable_repr fun _ _ => Nat.repr_injective

theorem commaJoined_ints_inj {values values' : List Int} :
    commaJoined (values.map toString) = commaJoined (values'.map toString) ↔ values = values' :=
  commaJoined_map_inj separable_intRepr fun _ _ => Int.repr_injective

end Text

theorem PadMode.text_inj {m m' : PadMode} : m.text = m'.text ↔ m = m' := by
  cases m <;> cases m' <;> decide

/-! ## Lists of attributes -/

namespace AttributeList

variable {attributes : List (String × Attribute)} {list before : AttributeList}

/-- The attributes with their values as they are written. -/
def written (attributes : List (String × Attribute)) : AttributeList :=
  attributes.map fun (name, value) => (name, value.render)

theorem add_eq_ok_iff {name : String} {value : Attribute} :
    before.add name value = .ok list ↔
      name ∉ before.map Prod.fst ∧ list = before ++ [(name, value.render)] := by
  have fresh : (before.lookup name).isNone = true ↔ name ∉ before.map Prod.fst := by
    rw [Option.isNone_iff_eq_none, List.lookup_eq_none_iff, List.mem_map]
    grind
  simp only [AttributeList.add, Checked.bind_eq_ok, Checked.require_eq_ok, Checked.pure_eq_ok,
    fresh, exists_const]
  rw [@eq_comm _ list]

/-- Each attribute is compared with those before it, which comes to one condition on all the
names. -/
private theorem addAll_eq_ok_iff (distinct : (before.map Prod.fst).Nodup) :
    attributes.foldlM (fun list (name, value) => AttributeList.add list name value) before =
      .ok list ↔
      (before.map Prod.fst ++ attributes.map Prod.fst).Nodup ∧
      list = before ++ written attributes := by
  induction attributes generalizing before with
  | nil =>
    rw [List.foldlM_nil, Checked.pure_eq_ok, @eq_comm _ before]
    simp [written, distinct]
  | cons entry rest ih =>
    obtain ⟨name, value⟩ := entry
    have step (fresh : name ∉ before.map Prod.fst) :=
      @ih (before ++ [(name, value.render)]) <| by
        rw [List.map_append, List.map_singleton, ← List.concat_eq_append]
        exact distinct.concat fresh
    rw [List.foldlM_cons, Checked.bind_eq_ok]
    constructor
    · intro ⟨middle, added, others⟩
      obtain ⟨fresh, rfl⟩ := add_eq_ok_iff.1 added
      simpa [written] using (step fresh).1 others
    · intro ⟨nodup, same⟩
      have fresh : name ∉ before.map Prod.fst := by
        intro mem
        exact (List.nodup_append.1 nodup).2.2 name mem name (by simp) rfl
      refine ⟨_, add_eq_ok_iff.2 ⟨fresh, rfl⟩, (step fresh).2 ?_⟩
      simpa [written] using And.intro nodup same

/-- Attributes are added in order unless a name comes twice. -/
theorem of_eq_ok_iff :
    AttributeList.of attributes = .ok list ↔
      (attributes.map Prod.fst).Nodup ∧ list = written attributes :=
  addAll_eq_ok_iff .nil

end AttributeList

/-! ## Operators -/

/-- Each field is read back from what is written under its name. -/
theorem Window.attributes_inj {w w' : Window} :
    AttributeList.written (w.attributes true) = AttributeList.written (w'.attributes true) ↔
      w = w' := by
  cases w
  cases w'
  simp [AttributeList.written, Window.attributes, Attribute.render, Text.commaJoined_nats_inj,
    Text.commaJoined_ints_inj, PadMode.text_inj]

/-- No operator names an attribute twice. -/
theorem Op.attributeList_eq (op : Op) :
    op.attributeList = .ok (AttributeList.written op.attributes) := by
  refine AttributeList.of_eq_ok_iff.2 ⟨?_, rfl⟩
  cases op <;> simp [Op.attributes, Window.attributes]

/-- Every operator has a list of attributes. That of a transposed convolution, fused or not, tells
its window, and that of a slice tells the two masks. -/
theorem Op.attributeList_determines :
    (∀ op : Op, ∃ list, op.attributeList = .ok list) ∧
    (∀ kind kind' w w' told told',
      (Op.deconv kind w told).attributeList = (Op.deconv kind' w' told').attributeList ↔ w = w') ∧
    (∀ w w' told told' addend addend',
      (Op.fusedDeconv w told addend).attributeList =
          (Op.fusedDeconv w' told' addend').attributeList ↔ w = w') ∧
    ∀ b b' e e',
      (Op.stridedSlice b e).attributeList = (Op.stridedSlice b' e').attributeList ↔
        b = b' ∧ e = e' := by
  simp only [Op.attributeList_eq, Except.ok.injEq]
  refine ⟨fun op => ⟨_, rfl⟩, ?_, ?_, ?_⟩
  · intro kind kind' w w' told told'
    exact Window.attributes_inj
  · intro w w' told told' addend addend'
    exact Window.attributes_inj
  · intro b b' e e'
    simp [AttributeList.written, Op.attributes, Attribute.render, Int.repr_inj, BitVec.toInt_inj]

end EvenPad
