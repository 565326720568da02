import Mathlib.Data.List.Forall2
import OpGraph.Proofs.Histories
import OpGraph.Proofs.Squeezing

/-! Squeezing removes a set of positions. An axis names a position from either end, so a list of axes may say the same
set in many ways; the outcome depends on the set alone, and without a list it is that of the positions of size 1. -/

namespace OpGraph.Inference

/-! ## Positions named by axes -/

/-- The axis counts up to a position of the shape, from its start or, below 0, from its end. -/
def InRange (rank : Nat) (axis : Int64) : Prop := -(rank : Int) ≤ axis.toInt ∧ axis.toInt < rank

def Names (rank : Nat) (axis : Int64) (index : Nat) : Prop :=
  index < rank ∧ (axis.toInt = index ∨ axis.toInt + rank = index)

instance (rank : Nat) (axis : Int64) : Decidable (InRange rank axis) := inferInstanceAs (Decidable (_ ∧ _))

instance (rank : Nat) (axis : Int64) (index : Nat) : Decidable (Names rank axis index) :=
  inferInstanceAs (Decidable (_ ∧ _))

theorem Names.unique {rank index other : Nat} {axis : Int64} (first : Names rank axis index)
    (second : Names rank axis other) : index = other := by
  unfold Names at first second
  omega

theorem exists_names_iff {rank : Nat} {axis : Int64} : (∃ index, Names rank axis index) ↔ InRange rank axis := by
  unfold Names InRange
  constructor
  · rintro ⟨index, inside, named⟩
    omega
  · intro bounds
    by_cases negative : axis.toInt < 0
    · exact ⟨(axis.toInt + rank).toNat, by omega, .inr (by omega)⟩
    · exact ⟨axis.toInt.toNat, by omega, .inl (by omega)⟩

/-- An axis counted from the start, before it is known to be inside of the shape. -/
def fromStart (rank : Nat) (axis : Int64) : Int64 := if axis < 0 then axis + Int64.ofNat rank else axis

theorem position_eq (id : NodeId) (rank : Nat) (axis : Int64) : position id rank axis =
    if fromStart rank axis < 0 ∨ Int64.ofNat rank ≤ fromStart rank axis then .error (.axisOutOfRange id axis rank)
    else .ok (fromStart rank axis).toInt.toNat := rfl

/-- A rank is added only to what is below 0, so the sum fits in 64 bits. -/
theorem toInt_fromStart {rank : Nat} (small : rank < 2 ^ 63) (axis : Int64) :
    (fromStart rank axis).toInt = if axis.toInt < 0 then axis.toInt + rank else axis.toInt := by
  have sign : axis < 0 ↔ axis.toInt < 0 := Int64.lt_iff_toInt_lt
  have least := axis.le_toInt
  unfold fromStart
  simp only [sign]
  split
  next negative =>
    rw [Int64.toInt_add, Int64.toInt_ofNat_of_lt small]
    exact Int.bmod_eq_of_le (by omega) (by omega)
  next => rfl

theorem outside_iff {rank : Nat} (small : rank < 2 ^ 63) (axis : Int64) :
    fromStart rank axis < 0 ∨ Int64.ofNat rank ≤ fromStart rank axis ↔ ¬ InRange rank axis := by
  rw [Int64.lt_iff_toInt_lt, Int64.le_iff_toInt_le, Int64.toInt_ofNat_of_lt small, Int64.toInt_zero,
    toInt_fromStart small]
  unfold InRange
  split <;> omega

theorem names_fromStart {rank : Nat} (small : rank < 2 ^ 63) {axis : Int64} (inside : InRange rank axis) :
    Names rank axis (fromStart rank axis).toInt.toNat := by
  rw [toInt_fromStart small]
  unfold InRange at inside
  unfold Names
  split <;> omega

theorem position_eq_ok_iff {id : NodeId} {rank index : Nat} {axis : Int64} (small : rank < 2 ^ 63) :
    position id rank axis = .ok index ↔ Names rank axis index := by
  rw [position_eq]
  split
  next outside =>
    simp only [reduceCtorEq, false_iff]
    intro named
    exact (outside_iff small axis).mp outside (exists_names_iff.mp ⟨index, named⟩)
  next inside =>
    have found := names_fromStart small (not_not.mp (mt (outside_iff small axis).mpr inside))
    rw [Except.ok.injEq]
    constructor
    · rintro rfl
      exact found
    · exact found.unique

/-! ## Lists of axes -/

section
variable {rank : Nat} {axes : List Int64} {positions : List Nat}

theorem mapM_position_eq_ok_iff {id : NodeId} (small : rank < 2 ^ 63) :
    axes.mapM (position id rank) = .ok positions ↔ List.Forall₂ (Names rank) axes positions := by
  simp only [mapM_eq_ok, position_eq_ok_iff small]

theorem mem_positions_iff (named : List.Forall₂ (Names rank) axes positions) {index : Nat} :
    index ∈ positions ↔ ∃ axis ∈ axes, Names rank axis index := by
  induction named with
  | nil => simp
  | @cons axis found axes positions first _ ih =>
    rw [List.mem_cons, List.exists_mem_cons_iff, ih]
    refine or_congr_left ⟨?_, fun named => named.unique first⟩
    rintro rfl
    exact first

theorem exists_positions_iff :
    (∃ positions, List.Forall₂ (Names rank) axes positions) ↔ ∀ axis ∈ axes, InRange rank axis := by
  simp only [← exists_names_iff]
  induction axes with
  | nil => simp
  | cons axis axes ih =>
    rw [List.forall_mem_cons, ← ih]
    constructor
    · rintro ⟨_, _ | ⟨first, rest⟩⟩
      exact ⟨⟨_, first⟩, _, rest⟩
    · rintro ⟨⟨index, first⟩, positions, rest⟩
      exact ⟨index :: positions, .cons first rest⟩

end

/-! ## Removed positions -/

/-- Exactly some positions of the data are gone: the other dimensions are there in their order, and they hold as many
elements as before, with the same values. -/
structure Removed (data : Inferred) (gone : Nat → Prop) (left : Inferred) : Prop where
  kept : ∃ kept : List Nat, kept.Pairwise (· < ·) ∧ (∀ index, index ∈ kept ↔ index < data.shape.length ∧ ¬ gone index) ∧
    left.shape.map some = kept.map (data.shape[·]?)
  elements : left.shape.elements = data.shape.elements
  value : left.value = data.value.map fun value => { value with shape := left.shape }

theorem Removed.unique {data left other : Inferred} {gone : Nat → Prop} (first : Removed data gone left)
    (second : Removed data gone other) : left = other := by
  obtain ⟨kept, ascending, mem, entries⟩ := first.kept
  obtain ⟨others, othersAscending, memOthers, otherEntries⟩ := second.kept
  have perm : kept.Perm others := by
    apply (List.perm_ext_iff_of_nodup (ascending.imp Nat.ne_of_lt) (othersAscending.imp Nat.ne_of_lt)).mpr
    intro index
    rw [mem, memOthers]
  have same : kept = others :=
    perm.eq_of_pairwise (fun _ _ _ _ below above => absurd below (Nat.lt_asymm above)) ascending othersAscending
  have shapes : left.shape = other.shape := by
    apply List.map_injective_iff.mpr (Option.some_injective _)
    rw [entries, otherEntries, same]
  have values : left.value = other.value := by rw [first.value, second.value, shapes]
  cases left
  cases other
  cases shapes
  cases values
  rfl

theorem dropPositions_kept (shape : Shape) (positions : List Nat) :
    ∃ kept : List Nat, kept.Pairwise (· < ·) ∧ (∀ index, index ∈ kept ↔ index < shape.length ∧ ¬ index ∈ positions) ∧
      (dropPositions shape positions).map some = kept.map (shape[·]?) := by
  refine ⟨(shape.zipIdx.filter fun entry => !positions.contains entry.2).map Prod.snd, ?_, ?_, ?_⟩
  · have all := List.pairwise_lt_range' (s := 0) (n := shape.length)
    rw [← List.zipIdx_map_snd] at all
    exact all.sublist (List.filter_sublist.map Prod.snd)
  · intro index
    simp [List.mem_zipIdx_iff_getElem?, ← Option.isSome_iff_exists]
  · rw [dropPositions, List.map_map, List.map_map]
    apply List.map_congr_left
    intro entry member
    exact (List.mem_zipIdx_iff_getElem?.mp (List.mem_of_mem_filter member)).symm

def Consistent (data : Inferred) : Prop := ∀ value, data.value = some value → value.shape = data.shape ∧ value.Made

def withShape (data : Inferred) (shape : Shape) : Inferred := ⟨shape, data.value.map fun value => { value with shape }⟩

theorem removed_withShape (data : Inferred) {positions : List Nat} (units : data.shape.UnitsAt positions) :
    Removed data (· ∈ positions) (withShape data (dropPositions data.shape positions)) :=
  ⟨dropPositions_kept data.shape positions, elements_dropPositions units, rfl⟩

theorem reshaped_eq {data : Inferred} (consistent : Consistent data) {shape : Shape}
    (same : shape.count? = data.shape.count?) : reshaped data shape = .ok (withShape data shape) := by
  unfold reshaped withShape
  cases found : data.value with
  | none => rfl
  | some value =>
    obtain ⟨fits, made⟩ := consistent value found
    simp only [made.reshape (same.trans (congrArg Shape.count? fits.symm)), Option.map_some]

theorem squeezeAt_eq_ok_iff_removed {id : NodeId} {data squeezed : Inferred} {positions : List Nat}
    (consistent : Consistent data) : squeezeAt id data positions = .ok squeezed ↔
      data.shape.UnitsAt positions ∧ Removed data (· ∈ positions) squeezed := by
  rw [squeezeAt_eq_ok_iff]
  refine and_congr_right fun units => ?_
  rw [reshaped_eq consistent (count?_dropPositions units), Except.ok.injEq]
  have removed := removed_withShape data units
  constructor
  · rintro rfl
    exact removed
  · exact removed.unique

/-! ## Squeeze nodes -/

/-- What a squeeze node reads: data, and a list of axes if its input port 1 is connected. -/
structure SqueezeReads (graph : Graph) (known : Known) (node : Node) (data : Inferred)
    (axes : Option (List Int64)) : Prop where
  kind : node.kind = .squeeze
  data : input graph known node 0 = .ok data
  connected : axes.isSome = (graph.inEdge? ⟨node.id, 1⟩).isSome
  axes : ∀ listed ∈ axes, ∃ given, input graph known node 1 = .ok given ∧ given.value >>= Tensor.ints? = some listed

/-- The positions that go: those that the axes name, or without axes all of size 1. -/
def Asked (shape : Shape) : Option (List Int64) → Nat → Prop
  | some axes, index => ∃ axis ∈ axes, Names shape.length axis index
  | none, index => shape[index]? = some 1

def AllInRange (shape : Shape) (axes : Option (List Int64)) : Prop :=
  ∀ listed ∈ axes, ∀ axis ∈ listed, InRange shape.length axis

instance (shape : Shape) (axes : Option (List Int64)) (index : Nat) : Decidable (Asked shape axes index) :=
  match axes with
  | some axes => List.decidableBEx (Names shape.length · index) axes
  | none => inferInstanceAs (Decidable (shape[index]? = some 1))

instance (shape : Shape) (axes : Option (List Int64)) : Decidable (AllInRange shape axes) :=
  match axes with
  | some axes => @decidable_of_iff _ (∀ axis ∈ axes, InRange shape.length axis) (by simp [AllInRange])
      (List.decidableBAll (InRange shape.length) axes)
  | none => isTrue (by simp [AllInRange])

section
variable {graph : Graph} {known : Known} {node : Node} {data squeezed : Inferred} {axes : Option (List Int64)}

theorem mem_unitPositions {shape : Shape} {index : Nat} : index ∈ unitPositions shape ↔ shape[index]? = some 1 := by
  simp [unitPositions, List.mem_zipIdx_iff_getElem?]

theorem Asked.lt_length {shape : Shape} {index : Nat} (asked : Asked shape axes index) : index < shape.length := by
  cases axes with
  | none => exact (List.getElem?_eq_some_iff.mp asked).1
  | some listed =>
    obtain ⟨_, _, inside, _⟩ := asked
    exact inside

theorem squeezeAt_asked_iff {id : NodeId} {positions : List Nat} (consistent : Consistent data)
    (asked : ∀ index, index ∈ positions ↔ Asked data.shape axes index) :
    squeezeAt id data positions = .ok squeezed ↔
      (∀ index, Asked data.shape axes index → data.shape[index]? = some 1) ∧
        Removed data (Asked data.shape axes) squeezed := by
  have same : (· ∈ positions) = Asked data.shape axes := funext fun index => propext (asked index)
  rw [squeezeAt_eq_ok_iff_removed consistent, same]
  refine and_congr_left fun _ => ?_
  simp only [Shape.UnitsAt, asked]
  refine forall₂_congr fun index named => ?_
  rw [List.getElem?_eq_getElem named.lt_length, Option.some.injEq]
  exact ⟨fun unit => unit _ rfl, fun unit _ found => Option.some.inj found ▸ unit⟩

/-- The rule of a squeeze node, by the set of positions that it is asked to remove. -/
theorem SqueezeReads.inferNode_eq_ok_iff (reads : SqueezeReads graph known node data axes)
    (small : data.shape.length < 2 ^ 63) (consistent : Consistent data) :
    inferNode graph known node = .ok squeezed ↔ AllInRange data.shape axes ∧
      (∀ index, Asked data.shape axes index → data.shape[index]? = some 1) ∧
        Removed data (Asked data.shape axes) squeezed := by
  have rule : inferNode graph known node = squeeze graph known node := by rw [inferNode, reads.kind]
  rw [rule, squeeze, reads.data, bind_eq_ok]
  simp only [Except.ok.injEq, exists_eq_left', ← reads.connected]
  cases axes with
  | none =>
    have all : AllInRange data.shape none := nofun
    have asked (index : Nat) : index ∈ unitPositions data.shape ↔ Asked data.shape none index := mem_unitPositions
    rw [if_neg (by simp), squeezeAt_asked_iff consistent asked, and_iff_right all]
  | some listed =>
    obtain ⟨given, read, integers⟩ := reads.axes listed rfl
    rw [if_pos Option.isSome_some, read, bind_eq_ok]
    simp only [Except.ok.injEq, exists_eq_left', integers, bind_eq_ok, mapM_position_eq_ok_iff small]
    constructor
    · rintro ⟨positions, named, ran⟩
      exact ⟨fun _ same => Option.some.inj same ▸ exists_positions_iff.mp ⟨positions, named⟩,
        (squeezeAt_asked_iff consistent fun _ => mem_positions_iff named).mp ran⟩
    · intro ⟨inside, rest⟩
      obtain ⟨positions, named⟩ := exists_positions_iff.mpr (inside listed rfl)
      exact ⟨positions, named, (squeezeAt_asked_iff consistent fun _ => mem_positions_iff named).mpr rest⟩

theorem exists_removed (units : ∀ index, Asked data.shape axes index → data.shape[index]? = some 1) :
    ∃ left, Removed data (Asked data.shape axes) left := by
  have same : (· ∈ (List.range data.shape.length).filter fun index => Asked data.shape axes index) =
      Asked data.shape axes := by
    funext index
    simp only [List.mem_filter, List.mem_range, decide_eq_true_eq, and_iff_right_of_imp Asked.lt_length]
  refine ⟨_, same ▸ removed_withShape data ?_⟩
  intro index member dimension found
  rw [units index (of_decide_eq_true (List.mem_filter.mp member).2)] at found
  exact (Option.some.inj found).symm

theorem units_iff {shape : Shape} :
    AllInRange shape axes ∧ (∀ index, Asked shape axes index → shape[index]? = some 1) ↔
      ∀ listed ∈ axes, ∀ axis ∈ listed, InRange shape.length axis ∧
        ∀ index, Names shape.length axis index → shape[index]? = some 1 := by
  unfold AllInRange
  cases axes with
  | none => simp [Asked]
  | some listed =>
    simp only [Option.mem_some_iff, forall_eq', Asked]
    constructor
    · intro ⟨inside, units⟩ axis member
      exact ⟨inside axis member, fun index named => units index ⟨axis, member, named⟩⟩
    · intro all
      refine ⟨fun axis member => (all axis member).1, ?_⟩
      rintro index ⟨axis, member, named⟩
      exact (all axis member).2 index named

/-- An axis of the shape names one position, and no sum overflows on the way to it. A squeeze succeeds exactly if all
its axes are axes of the shape and name dimensions of size 1. Then these positions are gone and nothing else has
changed. So only the set of the positions matters: how often, in which order and from which end the axes name them
does not, and squeezing without axes is squeezing with axes that name all dimensions of size 1. -/
theorem squeeze_removes_asked (reads : SqueezeReads graph known node data axes) (small : data.shape.length < 2 ^ 63)
    (consistent : Consistent data) :
    (∀ axis : Int64, axis < 0 → (axis + Int64.ofNat data.shape.length).toInt = axis.toInt + (data.shape.length : Int)) ∧
    (∀ (axis : Int64) (index : Nat), position node.id data.shape.length axis = .ok index ↔
      index < data.shape.length ∧ (axis.toInt = index ∨ axis.toInt + data.shape.length = index)) ∧
    ((inferNode graph known node).isOk ↔ ∀ listed ∈ axes, ∀ axis ∈ listed, InRange data.shape.length axis ∧
      ∀ index, Names data.shape.length axis index → data.shape[index]? = some 1) ∧
    (∀ squeezed, inferNode graph known node = .ok squeezed → Removed data (Asked data.shape axes) squeezed) ∧
    ∀ {other : Graph} {otherKnown : Known} {otherNode : Node} {others : Option (List Int64)},
      SqueezeReads other otherKnown otherNode data others →
      (AllInRange data.shape axes ↔ AllInRange data.shape others) →
      (∀ index < data.shape.length, Asked data.shape axes index ↔ Asked data.shape others index) →
      ∀ squeezed, inferNode graph known node = .ok squeezed ↔ inferNode other otherKnown otherNode = .ok squeezed := by
  refine ⟨?_, fun axis index => position_eq_ok_iff small, ?_, ?_, ?_⟩
  · intro axis negative
    have sum := toInt_fromStart small axis
    have below : axis.toInt < 0 := Int64.lt_iff_toInt_lt.mp negative
    rwa [fromStart, if_pos negative, if_pos below] at sum
  · rw [isOk_iff, ← units_iff]
    simp only [reads.inferNode_eq_ok_iff small consistent]
    constructor
    · rintro ⟨squeezed, inside, units, _⟩
      exact ⟨inside, units⟩
    · rintro ⟨inside, units⟩
      obtain ⟨left, removed⟩ := exists_removed units
      exact ⟨left, inside, units, removed⟩
  · intro squeezed ran
    exact ((reads.inferNode_eq_ok_iff small consistent).mp ran).2.2
  · intro other otherKnown otherNode others otherReads ranges asked squeezed
    have same : Asked data.shape axes = Asked data.shape others := by
      funext index
      exact propext ⟨fun here => (asked index here.lt_length).mp here,
        fun there => (asked index there.lt_length).mpr there⟩
    rw [reads.inferNode_eq_ok_iff small consistent, otherReads.inferNode_eq_ok_iff small consistent, ranges, same]

end

/-- Three squeezes of the same data: two whose axes name the first and the last dimension, and one without axes. -/
def spellings : Graph := Graph.empty.history
  [.addNode (.const "x" ⟨.i64, [1, 2, 1], .int [7, 8]⟩), .addNode (.const "a" (.ofInts [0, -1, 0])),
    .addNode (.const "b" (.ofInts [2, -3])), .addNode { id := "p", kind := .squeeze },
    .addNode { id := "q", kind := .squeeze }, .addNode { id := "r", kind := .squeeze },
    .connect ⟨"x", 0⟩ ⟨"p", 0⟩, .connect ⟨"a", 0⟩ ⟨"p", 1⟩, .connect ⟨"x", 0⟩ ⟨"q", 0⟩, .connect ⟨"b", 0⟩ ⟨"q", 1⟩,
    .connect ⟨"x", 0⟩ ⟨"r", 0⟩]

def spelled : Known := spellings.infer.toOption.getD ∅

theorem squeeze_removes_asked_spellings :
    let data : Inferred := .ofTensor ⟨.i64, [1, 2, 1], .int [7, 8]⟩
    let left : Inferred := .ofTensor ⟨.i64, [2], .int [7, 8]⟩
    let squeezed (id : NodeId) := inferNode spellings spelled { id, kind := .squeeze }
    SqueezeReads spellings spelled { id := "p", kind := .squeeze } data (some [0, -1, 0]) ∧
      SqueezeReads spellings spelled { id := "q", kind := .squeeze } data (some [2, -3]) ∧
      SqueezeReads spellings spelled { id := "r", kind := .squeeze } data none ∧ Consistent data ∧
      squeezed "p" = .ok left ∧ squeezed "q" = .ok left ∧ squeezed "r" = .ok left := by
  intro data left squeezed
  have readsFirst : SqueezeReads spellings spelled { id := "p", kind := .squeeze } data (some [0, -1, 0]) := by
    refine ⟨rfl, by decide +kernel, by decide +kernel, ?_⟩
    rintro _ ⟨⟩
    exact ⟨.ofTensor (.ofInts [0, -1, 0]), by decide +kernel, rfl⟩
  have readsSecond : SqueezeReads spellings spelled { id := "q", kind := .squeeze } data (some [2, -3]) := by
    refine ⟨rfl, by decide +kernel, by decide +kernel, ?_⟩
    rintro _ ⟨⟩
    exact ⟨.ofTensor (.ofInts [2, -3]), by decide +kernel, rfl⟩
  have readsNone : SqueezeReads spellings spelled { id := "r", kind := .squeeze } data none :=
    ⟨rfl, by decide +kernel, by decide +kernel, nofun⟩
  have consistent : Consistent data := by
    rintro _ ⟨⟩
    exact ⟨rfl, by decide⟩
  have ran : squeezed "p" = .ok left := by decide +kernel
  obtain ⟨_, _, _, _, same⟩ := squeeze_removes_asked readsFirst (by decide) consistent
  refine ⟨readsFirst, readsSecond, readsNone, consistent, ran, ?_, ?_⟩
  · exact (same readsSecond (by decide +kernel) (by decide +kernel) left).mp ran
  · exact (same readsNone (by decide +kernel) (by decide +kernel) left).mp ran

end OpGraph.Inference
