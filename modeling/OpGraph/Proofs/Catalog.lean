import Mathlib.Data.List.Nodup
import OpGraph.Graph.Builder
import OpGraph.Proofs.Edits

/-! What a builder holds after a history of calls. The slots say of each id where its node is in the catalog, so a
node that is registered again takes the place of the former one and no id is in the catalog twice. A connection that
cannot be read leaves the builder as it was: a history comes down to the nodes that were declared and the connections
that were read. -/

namespace OpGraph.GraphBuilder

/-! ## The catalog -/

def Indexed (builder : GraphBuilder) : Prop :=
  ∀ (id : NodeId) (slot : Nat), builder.slots[id]? = some slot ↔ (builder.catalog.map Node.id)[slot]? = some id

def registered? (builder : GraphBuilder) (id : NodeId) : Option Node := builder.slots[id]? >>= (builder.catalog[·]?)

theorem indexed_empty : Indexed {} := by
  intro id slot
  simp

namespace Indexed

variable {builder : GraphBuilder}

theorem distinct (indexed : builder.Indexed) : (builder.catalog.map Node.id).Nodup := by
  apply List.nodup_iff_getElem?_ne_getElem?.mpr
  intro first second before inside same
  have found := List.getElem?_eq_getElem inside
  have later := (indexed _ second).mpr found
  rw [(indexed _ first).mpr (same.trans found)] at later
  exact Nat.ne_of_lt before (Option.some.inj later)

theorem slots_eq_some_iff (indexed : builder.Indexed) {id : NodeId} {slot : Nat} :
    builder.slots[id]? = some slot ↔ ∃ node, builder.catalog[slot]? = some node ∧ node.id = id := by
  rw [indexed, List.getElem?_map, Option.map_eq_some_iff]

theorem registered?_eq_some_iff (indexed : builder.Indexed) {id : NodeId} {node : Node} :
    builder.registered? id = some node ↔ node ∈ builder.catalog ∧ node.id = id := by
  simp only [registered?, Option.bind_eq_bind, Option.bind_eq_some_iff, indexed.slots_eq_some_iff]
  constructor
  · rintro ⟨slot, ⟨other, stored, own⟩, found⟩
    cases stored.symm.trans found
    exact ⟨List.mem_of_getElem? found, own⟩
  · rintro ⟨member, own⟩
    obtain ⟨slot, found⟩ := List.mem_iff_getElem?.mp member
    exact ⟨slot, ⟨node, found, own⟩, found⟩

theorem node (indexed : builder.Indexed) (added : Node) : (builder.node added).Indexed := by
  simp only [GraphBuilder.node]
  split
  next slot known =>
    -- the entry has this id already, so the ids stay as they are
    have kept : (builder.catalog.set slot added).map Node.id = builder.catalog.map Node.id := by
      have entry := (indexed added.id slot).mp known
      obtain ⟨inside, same⟩ := List.getElem?_eq_some_iff.mp entry
      rw [List.map_set, ← same, List.set_getElem_self]
    intro id place
    rw [kept]
    exact indexed id place
  next unknown =>
    have absent (place : Nat) : (builder.catalog.map Node.id)[place]? ≠ some added.id := by
      intro found
      rw [(indexed added.id place).mpr found] at unknown
      cases unknown
    intro id place
    simp only [Std.ExtTreeMap.getElem?_insert, Std.LawfulEqCmp.compare_eq_iff_eq, List.map_append, List.getElem?_append,
      List.length_map]
    grind [indexed id place]

theorem registered?_node (indexed : builder.Indexed) (added : Node) (id : NodeId) :
    (builder.node added).registered? id = if added.id = id then some added else builder.registered? id := by
  simp only [GraphBuilder.node, registered?]
  split
  next slot known =>
    obtain ⟨former, stored, own⟩ := indexed.slots_eq_some_iff.mp known
    obtain ⟨inside, _⟩ := List.getElem?_eq_some_iff.mp stored
    by_cases same : added.id = id
    · subst same
      simp [known, inside]
    · cases other : builder.slots[id]? with
      | none => simp [same]
      | some elsewhere =>
        have different : slot ≠ elsewhere := by
          rintro rfl
          obtain ⟨node, found, its⟩ := indexed.slots_eq_some_iff.mp other
          cases stored.symm.trans found
          exact same (own.symm.trans its)
        simp [same, different]
  next unknown =>
    by_cases same : added.id = id
    · subst same
      simp
    · cases other : builder.slots[id]? with
      | none => simp [same, other, Std.ExtTreeMap.getElem?_insert]
      | some elsewhere =>
        obtain ⟨node, found, _⟩ := indexed.slots_eq_some_iff.mp other
        obtain ⟨inside, _⟩ := List.getElem?_eq_some_iff.mp found
        simp [same, other, Std.ExtTreeMap.getElem?_insert, List.getElem?_append_left inside]

theorem nodes (indexed : builder.Indexed) (nodes : List Node) : (builder.nodes nodes).Indexed := by
  induction nodes generalizing builder with
  | nil => exact indexed
  | cons first nodes ih => exact ih (indexed.node first)

/-- Of several nodes with one id the last counts. -/
theorem registered?_nodes (indexed : builder.Indexed) (nodes : List Node) (id : NodeId) :
    (builder.nodes nodes).registered? id = (nodes.reverse.find? (·.id == id)).or (builder.registered? id) := by
  induction nodes generalizing builder with
  | nil => rfl
  | cons first nodes ih =>
    have later : (builder.nodes (first :: nodes)) = (builder.node first).nodes nodes := rfl
    rw [later, ih (indexed.node first), indexed.registered?_node, List.reverse_cons, List.find?_append, Option.or_assoc]
    by_cases same : first.id = id <;> simp [same]

end Indexed

/-! ## Histories -/

inductive Call where
  | node (added : Node)
  | nodes (added : List Node)
  | connect (source target : String)

/-- What a call leaves behind, also where it is refused. -/
def Call.apply (builder : GraphBuilder) : Call → GraphBuilder
  | .node added => builder.node added
  | .nodes added => builder.nodes added
  | .connect source target => (builder.recordIn source target).2

def history (calls : List Call) : GraphBuilder := calls.foldl Call.apply {}

def Call.declared : Call → List Node
  | .node added => [added]
  | .nodes added => added
  | .connect _ _ => []

def Call.recorded : Call → List (Port × Port)
  | .connect source target =>
    match PortSpec.parseSource source, PortSpec.parseTarget target with
    | .ok source, .ok target => [(source, target)]
    | _, _ => []
  | _ => []

/-- The node that was last declared under an id. -/
def declared? (calls : List Call) (id : NodeId) : Option Node :=
  (calls.flatMap Call.declared).reverse.find? (·.id == id)

theorem recordIn_eq (builder : GraphBuilder) (source target : String) : builder.recordIn source target =
    match PortSpec.parseSource source, PortSpec.parseTarget target with
    | .ok source, .ok target => (.ok (), { builder with connections := builder.connections ++ [(source, target)] })
    | .ok _, .error error => (.error error, builder)
    | .error error, _ => (.error error, builder) := by
  simp only [recordIn, record]
  cases PortSpec.parseSource source with
  | error error => rfl
  | ok source => cases PortSpec.parseTarget target <;> rfl

/-- A refused connection leaves no trace. -/
theorem recordIn_error {builder after : GraphBuilder} {source target : String} {error : GraphError}
    (refused : builder.recordIn source target = (.error error, after)) : after = builder := by
  rw [recordIn_eq] at refused
  grind

theorem connections_node (builder : GraphBuilder) (added : Node) :
    (builder.node added).connections = builder.connections := by
  simp only [node]
  split <;> rfl

theorem connections_nodes (builder : GraphBuilder) (added : List Node) :
    (builder.nodes added).connections = builder.connections := by
  induction added generalizing builder with
  | nil => rfl
  | cons first added ih => exact (ih (builder.node first)).trans (builder.connections_node first)

/-- A call to connect has no effect on the catalog. -/
theorem catalog_recordIn (builder : GraphBuilder) (source target : String) :
    (builder.recordIn source target).2.catalog = builder.catalog ∧
      (builder.recordIn source target).2.slots = builder.slots := by
  rw [recordIn_eq]
  grind

theorem Call.connections_apply (builder : GraphBuilder) (call : Call) :
    (call.apply builder).connections = builder.connections ++ call.recorded := by
  cases call with
  | node added => simp [apply, recorded, connections_node]
  | nodes added => simp [apply, recorded, connections_nodes]
  | connect source target =>
    rw [apply, recordIn_eq, recorded]
    grind

theorem connections_history (calls : List Call) : (history calls).connections = calls.flatMap Call.recorded := by
  have run (builder : GraphBuilder) :
      (calls.foldl Call.apply builder).connections = builder.connections ++ calls.flatMap Call.recorded := by
    induction calls generalizing builder with
    | nil => simp
    | cons call calls ih => rw [List.foldl_cons, ih, call.connections_apply, List.flatMap_cons, List.append_assoc]
  exact run {}

namespace Indexed

variable {builder : GraphBuilder}

theorem apply (indexed : builder.Indexed) (call : Call) : (call.apply builder).Indexed ∧ ∀ id,
    (call.apply builder).registered? id = (call.declared.reverse.find? (·.id == id)).or (builder.registered? id) := by
  cases call with
  | node added =>
    refine ⟨indexed.node added, fun id => (indexed.registered?_node added id).trans ?_⟩
    by_cases same : added.id = id <;> simp [Call.declared, same]
  | nodes added => exact ⟨indexed.nodes added, indexed.registered?_nodes added⟩
  | connect source target =>
    obtain ⟨catalog, slots⟩ := builder.catalog_recordIn source target
    simpa [Call.apply, Call.declared, Indexed, registered?, catalog, slots] using indexed

theorem foldl (indexed : builder.Indexed) (calls : List Call) : (calls.foldl Call.apply builder).Indexed ∧ ∀ id,
    (calls.foldl Call.apply builder).registered? id = (declared? calls id).or (builder.registered? id) := by
  induction calls generalizing builder with
  | nil => exact ⟨indexed, fun id => rfl⟩
  | cons call calls ih =>
    obtain ⟨kept, registered⟩ := indexed.apply call
    obtain ⟨last, later⟩ := ih kept
    refine ⟨last, fun id => ?_⟩
    rw [List.foldl_cons, later, registered, declared?, declared?, List.flatMap_cons, List.reverse_append,
      List.find?_append, Option.or_assoc]

end Indexed

theorem indexed_history (calls : List Call) : (history calls).Indexed := (indexed_empty.foldl calls).1

theorem registered?_history (calls : List Call) (id : NodeId) :
    (history calls).registered? id = declared? calls id := by
  rw [history, (indexed_empty.foldl calls).2]
  simp [registered?]

end OpGraph.GraphBuilder
