import Mathlib.Algebra.BigOperators.Group.List.Lemmas
import Mathlib.Algebra.BigOperators.Ring.List
import Mathlib.Algebra.Ring.Nat
import OpGraph.Proofs.Edits
import OpGraph.Tensor.Basic

/-! Which tensors can be made. The elements of a shape are counted dimension after dimension, and counting stops where a
product does not fit in 64 bits, even if a later dimension is 0. So a shape without elements may have too many of them
on the way, and then the order of its dimensions decides. -/

namespace OpGraph

namespace Shape

/-- The number of elements of a shape, however large. -/
def elements (shape : Shape) : Nat := (shape.map UInt64.toNat).prod

/-- From the first dimension up to any other, the number of elements is below `2 ^ 64`. -/
def FrontsFit (shape : Shape) : Prop := ∀ front : Shape, front <+: shape → front.elements < UInt64.size

def positives (shape : Shape) : Shape := shape.filter (· != 0)

@[simp] theorem elements_nil : elements [] = 1 := rfl

@[simp] theorem elements_cons (dimension : UInt64) (shape : Shape) :
    elements (dimension :: shape) = dimension.toNat * elements shape := by
  rw [elements, List.map_cons, List.prod_cons, elements]

/-! ## Counting -/

def countOn (count : Nat) (dimension : UInt64) : Option Nat :=
  if count * dimension.toNat < UInt64.size then some (count * dimension.toNat) else none

theorem count?_eq_foldlM (shape : Shape) : shape.count? = shape.foldlM countOn 1 := rfl

theorem foldlM_countOn_eq_some_iff {shape : Shape} {start count : Nat} (small : start < UInt64.size) :
    shape.foldlM countOn start = some count ↔
      count = start * shape.elements ∧ ∀ front : Shape, front <+: shape → start * front.elements < UInt64.size := by
  induction shape generalizing start with
  | nil => simp [small, eq_comm]
  | cons dimension shape ih =>
    rw [List.foldlM_cons, countOn]
    split
    next fits =>
      rw [Option.bind_eq_bind, Option.bind_some, ih fits, elements_cons, Nat.mul_assoc]
      refine and_congr_right fun _ => ⟨fun rest front leads => ?_, fun all front leads => ?_⟩
      · rcases List.prefix_cons_iff.mp leads with rfl | ⟨inner, rfl, follows⟩
        · simpa using small
        · rw [elements_cons, ← Nat.mul_assoc]
          exact rest inner follows
      · rw [Nat.mul_assoc, ← elements_cons]
        exact all _ ((List.prefix_cons_inj dimension).mpr leads)
    next large =>
      have first : [dimension] <+: dimension :: shape := (List.prefix_cons_inj dimension).mpr List.nil_prefix
      constructor
      · intro impossible
        cases impossible
      · rintro ⟨_, all⟩
        exact absurd (all [dimension] first) (by simpa using large)

theorem count?_eq_some_iff {shape : Shape} {count : Nat} :
    shape.count? = some count ↔ count = shape.elements ∧ shape.FrontsFit := by
  rw [count?_eq_foldlM, foldlM_countOn_eq_some_iff (by decide)]
  simp only [Nat.one_mul, FrontsFit]

theorem count?_eq_none_iff {shape : Shape} : shape.count? = none ↔ ¬ shape.FrontsFit := by
  rw [← not_iff_not, not_not, ← ne_eq, Option.ne_none_iff_exists']
  simp only [count?_eq_some_iff, exists_eq_left]

theorem count?_singleton (dimension : UInt64) : count? [dimension] = some dimension.toNat := by
  rw [count?_eq_foldlM, List.foldlM_cons, countOn, Nat.one_mul, if_pos dimension.toNat_lt]
  rfl

/-! ## The order of the dimensions -/

theorem elements_perm {shape other : Shape} (same : other.Perm shape) : other.elements = shape.elements :=
  (same.map _).prod_eq

theorem elements_ne_zero {shape : Shape} (positive : 0 ∉ shape) : shape.elements ≠ 0 := by
  apply List.prod_ne_zero
  intro member
  obtain ⟨dimension, inside, zero⟩ := List.mem_map.mp member
  exact positive (UInt64.toNat_inj.mp (zero.trans rfl : dimension.toNat = (0 : UInt64).toNat) ▸ inside)

theorem elements_eq_zero {shape : Shape} (zero : 0 ∈ shape) : shape.elements = 0 :=
  List.prod_eq_zero (List.mem_map.mpr ⟨0, zero, rfl⟩)

theorem zero_not_mem_positives (shape : Shape) : 0 ∉ shape.positives := by
  simp [positives]

theorem positives_eq_self {shape : Shape} (positive : 0 ∉ shape) : shape.positives = shape := by
  apply List.filter_eq_self.mpr
  intro dimension member
  exact bne_iff_ne.mpr fun zero => positive (zero ▸ member)

/-- Without a 0, a part of a shape has no more elements than the whole. -/
theorem elements_le_of_sublist {part shape : Shape} (inside : part.Sublist shape) (positive : 0 ∉ shape) :
    part.elements ≤ shape.elements :=
  Nat.le_of_dvd (Nat.pos_of_ne_zero (elements_ne_zero positive)) (inside.map UInt64.toNat).prod_dvd_prod

/-- In every order the elements can be counted exactly if they can with all zeros at the end. -/
theorem frontsFit_in_all_orders_iff {shape : Shape} :
    (∀ other : Shape, other.Perm shape → other.FrontsFit) ↔ shape.positives.elements < UInt64.size := by
  constructor
  · intro all
    have zerosLast := List.filter_append_perm (· != 0) shape
    exact all _ zerosLast _ (List.prefix_append _ _)
  · intro small other same front leads
    by_cases zero : 0 ∈ front
    · rw [elements_eq_zero zero]
      decide
    · have inside : front.Sublist other.positives := positives_eq_self zero ▸ leads.sublist.filter _
      have bounded := elements_le_of_sublist inside (zero_not_mem_positives other)
      exact Nat.lt_of_le_of_lt (bounded.trans_eq (elements_perm (same.filter _))) small

/-- Without a 0, the elements of a shape can be counted if there are not too many. -/
theorem frontsFit_of_positive {shape : Shape} (positive : 0 ∉ shape) (small : shape.elements < UInt64.size) :
    shape.FrontsFit :=
  frontsFit_in_all_orders_iff.mpr (by rwa [positives_eq_self positive]) shape (.refl shape)

end Shape

/-! ## What can be made -/

namespace Tensor

theorem make_eq_ok_iff {elementType : ElementType} {shape : Shape} {data : TensorData} {tensor : Tensor} :
    make elementType shape data = .ok tensor ↔ tensor = ⟨elementType, shape, data⟩ ∧
      shape.count? = some data.length ∧ data.isInteger = elementType.isInteger := by
  unfold make
  cases counted : shape.count? with
  | none => simp
  | some count =>
    simp only [Option.some.injEq]
    split
    next different => simp [Ne.symm different]
    next same =>
      split
      next other => simp [other]
      next stored =>
        rw [Except.ok.injEq, eq_comm, and_iff_left ⟨(not_not.mp same).symm, not_not.mp stored⟩]

theorem make_eq_tooLarge_iff {elementType : ElementType} {shape : Shape} {data : TensorData} :
    make elementType shape data = .error (.tooLarge shape) ↔ ¬ shape.FrontsFit := by
  rw [← Shape.count?_eq_none_iff]
  unfold make
  cases shape.count? with
  | none => simp
  | some count =>
    simp only [reduceCtorEq, iff_false]
    split
    next => simp
    next => split <;> simp

theorem isOk_make_iff {elementType : ElementType} {shape : Shape} {data : TensorData} :
    (make elementType shape data).isOk ↔
      shape.elements = data.length ∧ data.isInteger = elementType.isInteger ∧ shape.FrontsFit := by
  simp only [isOk_iff, make_eq_ok_iff, exists_eq_left, Shape.count?_eq_some_iff]
  rw [and_assoc, and_comm (b := _ = elementType.isInteger), eq_comm]

def Made (tensor : Tensor) : Prop := make tensor.elementType tensor.shape tensor.data = .ok tensor

instance (tensor : Tensor) : Decidable tensor.Made :=
  inferInstanceAs (Decidable (make tensor.elementType tensor.shape tensor.data = .ok tensor))

theorem made_iff {tensor : Tensor} : tensor.Made ↔
    tensor.shape.count? = some tensor.data.length ∧ tensor.data.isInteger = tensor.elementType.isInteger :=
  make_eq_ok_iff.trans (and_iff_right rfl)

theorem made_of_make {elementType : ElementType} {shape : Shape} {data : TensorData} {tensor : Tensor}
    (made : make elementType shape data = .ok tensor) : tensor.Made := by
  obtain ⟨rfl, _⟩ := make_eq_ok_iff.mp made
  exact made

/-- Under a shape that counts alike a tensor can be made of the same data. -/
theorem Made.reshape {tensor : Tensor} (made : tensor.Made) {shape : Shape}
    (same : shape.count? = tensor.shape.count?) : tensor.reshape shape = .ok { tensor with shape } := by
  obtain ⟨filled, stored⟩ := made_iff.mp made
  exact make_eq_ok_iff.mpr ⟨rfl, same.trans filled, stored⟩

/-- The list of a shape has as many elements as its own shape says. -/
theorem count?_ofShape {shape : Shape} (rank : shape.length < UInt64.size) (elementType : ElementType) :
    (ofShape shape elementType).shape.count? = some (ofShape shape elementType).data.length := by
  rw [ofShape, Shape.count?_singleton, UInt64.toNat_ofNat_of_lt' rank]
  exact congrArg some (List.length_map _).symm

theorem made_ofShape_iff {shape : Shape} (rank : shape.length < UInt64.size) (elementType : ElementType) :
    (ofShape shape elementType).Made ↔ elementType.isInteger :=
  made_iff.trans ((and_iff_right (count?_ofShape rank elementType)).trans eq_comm)

theorem made_ofShape_singleton (dimension : UInt64) {elementType : ElementType} (integers : elementType.isInteger) :
    (ofShape [dimension] elementType).Made := by
  have short : List.length [dimension] < UInt64.size := by
    rw [List.length_singleton]
    decide
  exact (made_ofShape_iff short elementType).mpr integers

/-- What can be made are the tensors whose data are stored as their type asks and are as many as the shape has elements,
if these can be counted. A shape that cannot be counted is refused as too large. If its elements are as many as the
data, then one of its dimensions is 0; there are shapes that are accepted in one order of the dimensions and
not in another. -/
theorem make_succeeds_iff (elementType : ElementType) (shape : Shape) (data : TensorData) :
    ((make elementType shape data).isOk ↔
      shape.elements = data.length ∧ data.isInteger = elementType.isInteger ∧ shape.FrontsFit) ∧
    (make elementType shape data = .error (.tooLarge shape) ↔ ¬ shape.FrontsFit) ∧
    (data.length < UInt64.size → shape.elements = data.length → ¬ shape.FrontsFit → 0 ∈ shape) ∧
    (∀ tensor, make elementType shape data = .ok tensor →
      ((∀ other : Shape, other.Perm shape → (make elementType other data).isOk) ↔
        shape.positives.elements < UInt64.size) ∧
      ∀ other : Shape, (tensor.reshape other).isOk ↔ other.elements = tensor.length ∧ other.FrontsFit) := by
  refine ⟨isOk_make_iff, make_eq_tooLarge_iff, fun held whole large => ?_, fun tensor made => ?_⟩
  · by_contra positive
    exact large (Shape.frontsFit_of_positive positive (whole ▸ held))
  · obtain ⟨rfl, filled, stored⟩ := make_eq_ok_iff.mp made
    obtain ⟨whole, _⟩ := Shape.count?_eq_some_iff.mp filled
    constructor
    · rw [← Shape.frontsFit_in_all_orders_iff]
      refine forall₂_congr fun other same => ?_
      rw [isOk_make_iff, Shape.elements_perm same, and_iff_right whole.symm, and_iff_right stored]
    · intro other
      exact isOk_make_iff.trans (and_congr_right fun _ => and_iff_right stored)

/-- No elements, with the 0 first and last. -/
theorem make_succeeds_iff_reordered :
    let zeroFirst : Shape := [0, 0xffffffffffffffff, 2]
    let zeroLast : Shape := [0xffffffffffffffff, 2, 0]
    let tensor : Tensor := ⟨.i64, zeroFirst, .int []⟩
    zeroLast.Perm zeroFirst ∧ zeroLast.elements = 0 ∧ make .i64 zeroFirst (.int []) = .ok tensor ∧
      make .i64 zeroLast (.int []) = .error (.tooLarge zeroLast) ∧ ¬ (tensor.reshape zeroLast).isOk := by
  intro zeroFirst zeroLast tensor
  have front : ¬ zeroLast.FrontsFit := fun fit => absurd (fit [0xffffffffffffffff, 2] ⟨[0], rfl⟩) (by decide +kernel)
  have made : make .i64 zeroFirst (.int []) = .ok tensor := by decide +kernel
  obtain ⟨_, _, _, accepted⟩ := make_succeeds_iff .i64 zeroFirst (.int [])
  obtain ⟨_, refused, _⟩ := make_succeeds_iff .i64 zeroLast (.int [])
  refine ⟨by decide, by decide, made, refused.mpr front, fun reshaped => ?_⟩
  exact front ((accepted tensor made).2 zeroLast |>.mp reshaped).2

end Tensor
end OpGraph
