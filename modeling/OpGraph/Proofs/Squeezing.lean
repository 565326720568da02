import Mathlib.Data.List.Forall2
import OpGraph.Inference.Basic
import OpGraph.Proofs.TensorConstruction

/-! Squeezing takes factors of 1 out of a product. The products on the way along a shape stay as they were, so what
could be counted before can be counted afterwards, with the same count. -/

namespace OpGraph

theorem mapM_eq_ok {ε α β : Type} {change : α → Except ε β} {items : List α} {values : List β} :
    items.mapM change = .ok values ↔ List.Forall₂ (fun item value => change item = .ok value) items values := by
  induction items generalizing values with
  | nil => simp [pure, Except.pure, eq_comm]
  | cons item items ih =>
    rw [List.mapM_cons, bind_eq_ok]
    constructor
    · rintro ⟨value, first, ran⟩
      obtain ⟨rest, others, same⟩ := bind_eq_ok.mp ran
      cases same
      exact .cons first (ih.mp others)
    · intro related
      cases related with
      | cons first rest => exact ⟨_, first, bind_eq_ok.mpr ⟨_, ih.mpr rest, rfl⟩⟩

/-! ## Dimensions of size 1 -/

namespace Shape

/-- Wherever the given positions are inside a shape, its dimension there is 1. -/
def UnitsAt (shape : Shape) (positions : List Nat) : Prop :=
  ∀ index ∈ positions, ∀ dimension, shape[index]? = some dimension → dimension = 1

/-- Factors of 1 change no product on the way. -/
theorem foldlM_countOn_filter {α : Type} (dimension : α → UInt64) (kept : α → Bool) {items : List α}
    (units : ∀ item ∈ items, kept item = false → dimension item = 1) {start : Nat} (small : start < UInt64.size) :
    ((items.filter kept).map dimension).foldlM countOn start = (items.map dimension).foldlM countOn start := by
  induction items generalizing start with
  | nil => rfl
  | cons item items ih =>
    obtain ⟨first, units⟩ := List.forall_mem_cons.mp units
    have rest {count : Nat} (small : count < UInt64.size) := ih units small
    rw [List.map_cons, List.foldlM_cons, List.filter_cons]
    split
    next =>
      rw [List.map_cons, List.foldlM_cons, countOn]
      split
      next fits => exact rest fits
      next => rfl
    next gone =>
      have unit := first (Bool.eq_false_iff.mpr gone)
      rw [countOn, unit, UInt64.toNat_one, Nat.mul_one, if_pos small]
      exact rest small

theorem elements_map_filter {α : Type} (dimension : α → UInt64) (kept : α → Bool) {items : List α}
    (units : ∀ item ∈ items, kept item = false → dimension item = 1) :
    elements ((items.filter kept).map dimension) = elements (items.map dimension) := by
  induction items with
  | nil => rfl
  | cons item items ih =>
    obtain ⟨first, units⟩ := List.forall_mem_cons.mp units
    rw [List.map_cons, elements_cons, List.filter_cons]
    split
    next => rw [List.map_cons, elements_cons, ih units]
    next gone => rw [first (Bool.eq_false_iff.mpr gone), UInt64.toNat_one, Nat.one_mul, ih units]

theorem UnitsAt.eq_one {shape : Shape} {positions : List Nat} (units : shape.UnitsAt positions) {item : UInt64 × Nat}
    (member : item ∈ shape.zipIdx) (gone : (!positions.contains item.2) = false) : item.1 = 1 := by
  have named : item.2 ∈ positions := by simpa using gone
  exact units item.2 named item.1 (List.mem_zipIdx_iff_getElem?.mp member)

end Shape

namespace Inference

theorem count?_dropPositions {shape : Shape} {positions : List Nat} (units : shape.UnitsAt positions) :
    (dropPositions shape positions).count? = shape.count? := by
  rw [Shape.count?_eq_foldlM, Shape.count?_eq_foldlM, dropPositions,
    Shape.foldlM_countOn_filter Prod.fst _ (fun _ => units.eq_one) (by decide), List.zipIdx_map_fst]

theorem elements_dropPositions {shape : Shape} {positions : List Nat} (units : shape.UnitsAt positions) :
    (dropPositions shape positions).elements = shape.elements := by
  rw [dropPositions, Shape.elements_map_filter Prod.fst _ fun _ => units.eq_one, List.zipIdx_map_fst]

theorem length_dropPositions_le (shape : Shape) (positions : List Nat) :
    (dropPositions shape positions).length ≤ shape.length := by
  rw [dropPositions, List.length_map]
  exact (List.length_filter_le _ _).trans_eq List.length_zipIdx

def checkUnit (id : NodeId) (shape : Shape) (index : Nat) : Except InferError Unit :=
  match shape[index]? with
  | some dimension => if dimension = 1 then .ok () else .error (.nonUnitAxis id index dimension)
  | none => .ok ()

theorem checkUnit_eq_ok {id : NodeId} {shape : Shape} {index : Nat} :
    checkUnit id shape index = .ok () ↔ ∀ dimension, shape[index]? = some dimension → dimension = 1 := by
  unfold checkUnit
  cases shape[index]? <;> simp

def reshaped (data : Inferred) (shape : Shape) : Except InferError Inferred :=
  match data.value with
  | none => .ok ⟨shape, none⟩
  | some value =>
    match value.reshape shape with
    | .ok value => .ok ⟨shape, some value⟩
    | .error error => .error (.tensor error)

theorem squeezeAt_eq_bind (id : NodeId) (data : Inferred) (positions : List Nat) : squeezeAt id data positions =
    positions.forM (checkUnit id data.shape) >>= fun _ => reshaped data (dropPositions data.shape positions) := rfl

theorem forM_checkUnit_eq_ok {id : NodeId} {shape : Shape} {positions : List Nat} :
    positions.forM (checkUnit id shape) = .ok () ↔ shape.UnitsAt positions :=
  forM_eq_ok.trans (forall₂_congr fun _ _ => checkUnit_eq_ok)

theorem squeezeAt_eq_ok_iff {id : NodeId} {data squeezed : Inferred} {positions : List Nat} :
    squeezeAt id data positions = .ok squeezed ↔
      data.shape.UnitsAt positions ∧ reshaped data (dropPositions data.shape positions) = .ok squeezed := by
  rw [squeezeAt_eq_bind, bind_eq_ok, ← forM_checkUnit_eq_ok]
  exact ⟨fun ⟨_, units, ran⟩ => ⟨units, ran⟩, fun ⟨units, ran⟩ => ⟨_, units, ran⟩⟩

/-- What is known under another shape was made under it. -/
theorem reshaped_eq_ok {data moved : Inferred} {shape : Shape} (ran : reshaped data shape = .ok moved) :
    moved.shape = shape ∧ ∀ value, moved.value = some value → value.shape = shape ∧ value.Made := by
  unfold reshaped at ran
  split at ran
  next =>
    cases ran
    exact ⟨rfl, nofun⟩
  next =>
    split at ran
    next value changed =>
      cases ran
      refine ⟨rfl, ?_⟩
      rintro _ ⟨⟩
      exact ⟨congrArg Tensor.shape (Tensor.make_eq_ok_iff.mp changed).1, Tensor.made_of_make changed⟩
    next => cases ran

theorem made_of_squeezeAt {id : NodeId} {data squeezed : Inferred} {positions : List Nat} {value : Tensor}
    (ran : squeezeAt id data positions = .ok squeezed) (known : squeezed.value = some value) : value.Made :=
  ((reshaped_eq_ok (squeezeAt_eq_ok_iff.mp ran).2).2 value known).2

end Inference
end OpGraph
