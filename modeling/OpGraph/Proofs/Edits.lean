import OpGraph.Pass.Error

/-! What running an edit gives. A refused edit of one node or edge leaves the graph as it was, so
each has a closed equation; composed edits are taken apart at their binds. -/

namespace OpGraph

theorem bind_eq_ok {ε α β : Type} {result : Except ε α} {next : α → Except ε β} {value : β} :
    (result >>= next) = .ok value ↔ ∃ middle, result = .ok middle ∧ next middle = .ok value := by
  cases result <;> simp [bind, Except.bind]

theorem bind_eq_error {ε α β : Type} {result : Except ε α} {next : α → Except ε β} {error : ε} :
    (result >>= next) = .error error ↔ result = .error error ∨ ∃ middle, result = .ok middle ∧
      next middle = .error error := by
  cases result <;> simp [bind, Except.bind]

theorem isOk_iff {ε α : Type} {result : Except ε α} : result.isOk ↔ ∃ value, result = .ok value := by
  cases result <;> simp [Except.isOk, Except.toBool]

theorem isOk_map {ε α β : Type} (result : Except ε α) (change : α → β) : (result.map change).isOk = result.isOk := by
  cases result <;> rfl

theorem map_eq_error {ε α β : Type} {result : Except ε α} {change : α → β} {error : ε} :
    result.map change = .error error ↔ result = .error error := by
  cases result <;> simp [Except.map]

theorem forM_eq_ok {ε α : Type} {check : α → Except ε PUnit} {items : List α} :
    items.forM check = .ok () ↔ ∀ item ∈ items, check item = .ok () := by
  induction items with
  | nil => simp [pure, Except.pure]
  | cons item items ih =>
    rw [List.forM_eq_forM] at ih ⊢
    rw [List.forM_cons, bind_eq_ok, List.forall_mem_cons, ih]
    constructor
    · intro ⟨_, first, rest⟩
      exact ⟨first, rest⟩
    · intro ⟨first, rest⟩
      exact ⟨(), first, rest⟩

theorem exists_of_forM_eq_error {ε α : Type} {check : α → Except ε PUnit} {items : List α} {error : ε}
    (failed : items.forM check = .error error) : ∃ item ∈ items, check item = .error error := by
  induction items with
  | nil => cases failed
  | cons item items ih =>
    rw [List.forM_eq_forM] at failed ih
    rw [List.forM_cons] at failed
    cases first : check item with
    | error other =>
      rw [first] at failed
      cases failed
      exact ⟨item, List.mem_cons_self, first⟩
    | ok value =>
      rw [first] at failed
      obtain ⟨other, member, found⟩ := ih failed
      exact ⟨other, List.mem_cons_of_mem item member, found⟩

theorem exists_of_mapM_eq_error {ε α β : Type} {change : α → Except ε β} {items : List α} {error : ε}
    (failed : items.mapM change = .error error) : ∃ item ∈ items, change item = .error error := by
  induction items with
  | nil => cases failed
  | cons item items ih =>
    rw [List.mapM_cons] at failed
    rcases bind_eq_error.mp failed with first | ⟨value, _, failed⟩
    · exact ⟨item, List.mem_cons_self, first⟩
    · rcases bind_eq_error.mp failed with rest | ⟨values, _, impossible⟩
      · obtain ⟨other, member, found⟩ := ih rest
        exact ⟨other, List.mem_cons_of_mem item member, found⟩
      · cases impossible

theorem mapError_eq_ok {ε ε' α : Type} {result : Except ε α} {wrap : ε → ε'} {value : α} :
    result.mapError wrap = .ok value ↔ result = .ok value := by
  cases result with
  | ok found =>
    exact ⟨fun same => congrArg Except.ok (Except.ok.inj same), fun same => congrArg Except.ok (Except.ok.inj same)⟩
  | error failure => exact ⟨nofun, nofun⟩

namespace Graph

variable {ε : Type} {α β : Type}

@[simp] theorem edit_pure (graph : Graph) (value : α) :
    graph.edit (pure value : Edit ε α) = (.ok value, graph) := rfl

@[simp] theorem edit_throw (graph : Graph) (error : ε) :
    graph.edit (throw error : Edit ε α) = (.error error, graph) := rfl

@[simp] theorem edit_get (graph : Graph) : graph.edit (get : Edit ε Graph) = (.ok graph, graph) := rfl

@[simp] theorem edit_modify (graph : Graph) (change : Graph → Graph) :
    graph.edit (modify change : Edit ε PUnit) = (.ok ⟨⟩, change graph) := rfl

@[simp] theorem edit_liftM (graph : Graph) (result : Except ε α) :
    graph.edit (liftM result : Edit ε α) = (result, graph) := rfl

/-- Telling that an edit succeeds is enough; what it leaves behind is computed. -/
theorem edit_eq_of_fst {graph : Graph} {action : Edit ε α} {result : Except ε α}
    (ran : (graph.edit action).1 = result) : graph.edit action = (result, (graph.edit action).2) := Prod.ext ran rfl

theorem edit_bind (graph : Graph) (action : Edit ε α) (next : α → Edit ε β) :
    graph.edit (action >>= next) =
      match graph.edit action with
      | (.ok value, after) => after.edit (next value)
      | (.error error, after) => (.error error, after) := by
  change (ExceptT.run (action >>= next)).run graph = _
  simp only [edit, ExceptT.run_bind, StateT.run_bind]
  generalize (ExceptT.run action).run graph = outcome
  obtain ⟨result, after⟩ := outcome
  cases result <;> rfl

theorem edit_bind_ok {graph after : Graph} {action : Edit ε α} {value : α}
    (ran : graph.edit action = (.ok value, after)) (next : α → Edit ε β) :
    graph.edit (action >>= next) = after.edit (next value) := by
  rw [edit_bind, ran]

theorem edit_bind_error {graph after : Graph} {action : Edit ε α} {error : ε}
    (refused : graph.edit action = (.error error, after)) (next : α → Edit ε β) :
    graph.edit (action >>= next) = (.error error, after) := by
  rw [edit_bind, refused]

theorem edit_bind_eq_ok {graph after : Graph} {action : Edit ε α} {next : α → Edit ε β} {value : β} :
    graph.edit (action >>= next) = (.ok value, after) ↔
      ∃ first middle, graph.edit action = (.ok first, middle) ∧ middle.edit (next first) = (.ok value, after) := by
  rw [edit_bind]
  obtain ⟨result, middle⟩ := graph.edit action
  cases result with
  | ok first => simp [and_assoc]
  | error error => simp

theorem edit_bind_pure (graph : Graph) (action : Edit ε α) (change : α → β) :
    graph.edit (action >>= fun value => pure (change value)) =
      ((graph.edit action).1.map change, (graph.edit action).2) := by
  rw [edit_bind]
  obtain ⟨result, after⟩ := graph.edit action
  cases result <;> rfl

theorem edit_map (graph : Graph) (action : Edit ε α) (change : α → β) :
    graph.edit (change <$> action) = ((graph.edit action).1.map change, (graph.edit action).2) := by
  rw [← bind_pure_comp, edit_bind_pure]

theorem edit_discard (graph : Graph) (action : Edit ε α) :
    graph.edit (discard action) = ((graph.edit action).1.map fun _ => (), (graph.edit action).2) := by
  have mapped : (discard action : Edit ε Unit) = (action >>= fun _ => pure ()) := by
    rw [bind_pure_comp]
    rfl
  rw [mapped, edit_bind_pure]

theorem edit_discard_ok {graph after : Graph} {action : Edit ε α} {value : α}
    (ran : graph.edit action = (.ok value, after)) : graph.edit (discard action) = (.ok (), after) := by
  rw [edit_discard, ran]
  rfl

theorem edit_discard_eq_error {graph after : Graph} {action : Edit ε α} {error : ε} :
    graph.edit (discard action) = (.error error, after) ↔ graph.edit action = (.error error, after) := by
  rw [edit_discard]
  obtain ⟨result, last⟩ := graph.edit action
  cases result <;> simp [Except.map]

theorem edit_inPass (graph : Graph) (action : Edit GraphError α) :
    graph.edit action.inPass = ((graph.edit action).1.mapError .graph, (graph.edit action).2) := rfl

theorem edit_mapM_cons_ok {graph middle : Graph} {action : α → Edit ε β} {item : α} {value : β}
    (ran : graph.edit (action item) = (.ok value, middle)) (items : List α) :
    graph.edit ((item :: items).mapM action) =
      ((middle.edit (items.mapM action)).1.map (value :: ·), (middle.edit (items.mapM action)).2) := by
  rw [List.mapM_cons, edit_bind_ok ran, edit_bind_pure]

theorem edit_mapM_cons_error {graph after : Graph} {action : α → Edit ε β} {item : α} {error : ε}
    (refused : graph.edit (action item) = (.error error, after)) (items : List α) :
    graph.edit ((item :: items).mapM action) = (.error error, after) := by
  rw [List.mapM_cons, edit_bind_error refused]

/-- What holds of each value that an action gives holds of all that a loop over it collects. -/
theorem edit_mapM_values {action : α → Edit ε β} {property : β → Prop}
    (each : ∀ item value (graph after : Graph), graph.edit (action item) = (.ok value, after) → property value)
    {graph after : Graph} {items : List α} {values : List β}
    (ran : graph.edit (items.mapM action) = (.ok values, after)) :
    values.length = items.length ∧ ∀ value ∈ values, property value := by
  induction items generalizing graph values with
  | nil =>
    cases ran
    exact ⟨rfl, by simp⟩
  | cons item items ih =>
    rw [List.mapM_cons] at ran
    obtain ⟨value, middle, first, ran⟩ := edit_bind_eq_ok.mp ran
    obtain ⟨rest, last, others, done⟩ := edit_bind_eq_ok.mp ran
    cases done
    obtain ⟨length, all⟩ := ih others
    exact ⟨congrArg (· + 1) length, List.forall_mem_cons.mpr ⟨each item value graph middle first, all⟩⟩

/-- A sequence of checks changes nothing. -/
theorem edit_forM_liftM (graph : Graph) (check : α → Except ε PUnit) (items : List α) :
    graph.edit (items.forM fun item => (liftM (check item) : Edit ε PUnit)) = (items.forM check, graph) := by
  induction items with
  | nil => rfl
  | cons item items ih =>
    simp only [List.forM_eq_forM, List.forM_cons, edit_bind, edit_liftM] at ih ⊢
    cases check item with
    | error error => rfl
    | ok value => exact ih

/-! ## Single edits -/

theorem edit_addNode (graph : Graph) (node : Node) :
    graph.edit (addNode node) =
      if graph.hasNode node.id then (.error (.duplicateNode node.id), graph)
      else (.ok node.id, graph.withNode node) := by
  simp only [addNode, edit_bind, edit_get]
  split <;> rfl

theorem edit_addEdge (graph : Graph) (edge : Edge) :
    graph.edit (addEdge edge) =
      if graph.edges.contains edge.id then (.error (.duplicateEdge edge.id), graph)
      else if !graph.hasNode edge.source.node || !graph.hasNode edge.target.node then
        (.error (.danglingEdge edge.source.node edge.target.node), graph)
      else if (graph.inEdge? edge.target).isSome then
        (.error (.inputPortOccupied edge.target.node edge.target.index), graph)
      else (.ok edge.id, graph.withEdge edge) := by
  simp only [addEdge, edit_bind, edit_get]
  split
  · rfl
  · split
    · rfl
    · split <;> rfl

theorem edit_connect [EdgeIdSupply] (graph : Graph) (source target : Port) :
    graph.edit (connect source target) = graph.edit (addEdge ⟨graph.unusedEdgeId, source, target⟩) := by
  simp only [connect, edit_bind, edit_get]

theorem edit_removeEdge (graph : Graph) (id : EdgeId) :
    graph.edit (removeEdge id) =
      match graph.edge? id with
      | some edge => (.ok edge, graph.withoutEdge edge)
      | none => (.error (.edgeNotFound id), graph) := by
  simp only [removeEdge, edit_bind, edit_get]
  cases graph.edge? id <;> rfl

theorem edit_removeNode (graph : Graph) (id : NodeId) :
    graph.edit (removeNode id) =
      match graph.node? id with
      | some node => (.ok node, graph.withoutNode id)
      | none => (.error (.nodeNotFound id), graph) := by
  simp only [removeNode, edit_bind, edit_get]
  cases graph.node? id <;> rfl

theorem edit_requireNode (graph : Graph) (id : NodeId) :
    graph.edit (requireNode id) =
      if graph.hasNode id then (.ok (), graph) else (.error (.nodeNotFound id), graph) := by
  simp only [requireNode, edit_bind, edit_get]
  split <;> simp_all

theorem edit_requireNode_ok {graph : Graph} {id : NodeId} (present : graph.hasNode id) :
    graph.edit (requireNode id) = (.ok (), graph) := by
  rw [edit_requireNode, if_pos present]

theorem edit_requireNode_error {graph : Graph} {id : NodeId} (absent : ¬ graph.hasNode id) :
    graph.edit (requireNode id) = (.error (.nodeNotFound id), graph) := by
  rw [edit_requireNode, if_neg absent]

end Graph

/-- An edit keeps a property of graphs, also where it is refused. -/
def Edit.Keeps {ε α : Type} (property : Graph → Prop) (action : Edit ε α) : Prop :=
  ∀ graph, property graph → property (graph.edit action).2

namespace Edit.Keeps
open OpGraph.Graph

variable {ε α β : Type} {property : Graph → Prop}

theorem pure (value : α) : Keeps property (Pure.pure value : Edit ε α) := fun _ holds => holds

theorem lift (result : Except ε α) : Keeps property (liftM result : Edit ε α) := fun _ holds => holds

theorem bind {action : Edit ε α} {next : α → Edit ε β} (first : Keeps property action)
    (rest : ∀ value, Keeps property (next value)) : Keeps property (action >>= next) := by
  intro graph holds
  have middle := first graph holds
  rw [edit_bind]
  generalize graph.edit action = outcome at middle ⊢
  obtain ⟨result, after⟩ := outcome
  cases result with
  | ok value => exact rest value after middle
  | error error => exact middle

/-- Where an edit looks at the graph first, the rest may rely on the property of what it saw. -/
theorem get_bind {next : Graph → Edit ε β}
    (rest : ∀ graph, property graph → property (graph.edit (next graph)).2) :
    Keeps property (get >>= next) := by
  intro graph holds
  simpa only [edit_bind, edit_get] using rest graph holds

theorem discard {action : Edit ε α} (kept : Keeps property action) : Keeps property (discard action) := by
  intro graph holds
  simpa only [edit_discard] using kept graph holds

theorem inPass {action : Edit GraphError α} (kept : Keeps property action) :
    Keeps property action.inPass := by
  intro graph holds
  simpa only [edit_inPass] using kept graph holds

theorem forM {action : α → Edit ε PUnit} (kept : ∀ item, Keeps property (action item)) (items : List α) :
    Keeps property (items.forM action) := by
  induction items with
  | nil => exact .pure _
  | cons item items ih => exact .bind (kept item) fun _ => ih

theorem mapM {action : α → Edit ε β} (kept : ∀ item, Keeps property (action item)) (items : List α) :
    Keeps property (items.mapM action) := by
  induction items with
  | nil => exact .pure _
  | cons item items ih =>
    rw [List.mapM_cons]
    exact .bind (kept item) fun _ => .bind ih fun _ => .pure _

end Edit.Keeps

/-- A loop fails where one of its turns does, on a graph with what the turns before it keep. -/
theorem Graph.exists_of_edit_mapM_eq_error {ε α β : Type} {property : Graph → Prop} {action : α → Edit ε β}
    {items : List α} (kept : ∀ item ∈ items, Edit.Keeps property (action item)) {graph : Graph} (holds : property graph)
    {error : ε} (failed : (graph.edit (items.mapM action)).1 = .error error) :
    ∃ item ∈ items, ∃ graph, property graph ∧ (graph.edit (action item)).1 = .error error := by
  induction items generalizing graph with
  | nil => cases failed
  | cons item items ih =>
    obtain ⟨here, later⟩ := List.forall_mem_cons.mp kept
    have middle := here graph holds
    cases outcome : graph.edit (action item) with
    | mk result after =>
      rw [outcome] at middle
      cases result with
      | error other =>
        rw [edit_mapM_cons_error outcome] at failed
        cases failed
        exact ⟨item, List.mem_cons_self, graph, holds, congrArg Prod.fst outcome⟩
      | ok value =>
        rw [edit_mapM_cons_ok outcome] at failed
        obtain ⟨other, member, found⟩ := ih later middle (map_eq_error.mp failed)
        exact ⟨other, List.mem_cons_of_mem item member, found⟩

end OpGraph
