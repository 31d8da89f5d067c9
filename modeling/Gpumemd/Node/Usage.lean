import Gpumemd.Library.Isolation
import Gpumemd.Library.Machine
import Gpumemd.Node.Registry

/-!
# What is used of the nodes

All calls of a `NodeRegistry`, with `update_usage` and `set_health`, which the program never makes.
Each is about one node (`Action.on`):

* in any order of calls, what is listed is sorted, one record for each node, and no node uses more
  than its capacity (`NodeRegistry.reachable_nodes`);
* calls about different nodes may come in any order: they answer the same and leave the same
  registry (`NodeRegistry.reordered_calls`).
-/

namespace Gpumemd

open Library

namespace NodeRegistry

variable (s : NodeRegistry)

/-- `NodeRegistry::update_usage`. -/
def updateUsage (id : Str) (used : Bytes) : NodeRegistry × NodeOperationResult :=
  match s.table.lookup id with
  | none => (s, ⟨.unknownNode, 0⟩)
  | some node =>
    if used > node.capacity then (s, ⟨.invalidCapacity, 0⟩)
    else ({ table := s.table.insert id { node with used } }, ⟨.none, used⟩)

/-- `NodeRegistry::set_health`. -/
def setHealth (id : Str) (healthy : Bool) : NodeRegistry × NodeOperationResult :=
  match s.table.lookup id with
  | none => (s, ⟨.unknownNode, 0⟩)
  | some node => ({ table := s.table.insert id { node with healthy } }, ⟨.none, 0⟩)

/-- The calls. -/
inductive Action
  | registerNode (id endpoint : Str) (capacity : Bytes)
  | unregisterNode (id : Str)
  | updateUsage (id : Str) (used : Bytes)
  | setHealth (id : Str) (healthy : Bool)
  deriving DecidableEq

/-- The effect of a call, and its answer. -/
def perform : Action → NodeRegistry × NodeOperationResult
  | .registerNode id endpoint capacity => s.registerNode id endpoint capacity
  | .unregisterNode id => s.unregisterNode id
  | .updateUsage id used => s.updateUsage id used
  | .setHealth id healthy => s.setHealth id healthy

/-- The runs of a registry. -/
def machine : Machine NodeRegistry Action where
  init s := s = {}
  step s a t := (s.perform a).1 = t

namespace Action

/-- The node that a call is about. -/
def node : Action → Str
  | .registerNode id _ _ | .unregisterNode id | .updateUsage id _ | .setHealth id _ => id

/-- What a call makes of the record of its node, and what it answers. -/
def on (record : Option NodeRecord) : Action → Option NodeRecord × NodeOperationResult
  | .registerNode id endpoint capacity =>
    if !validId id then (record, ⟨.invalidId, 0⟩)
    else if !validEndpoint endpoint then (record, ⟨.invalidEndpoint, 0⟩)
    else if capacity = 0 then (record, ⟨.invalidCapacity, 0⟩)
    else if record.isSome then (record, ⟨.duplicateNode, 0⟩)
    else (some { id, endpoint, capacity }, ⟨.none, capacity⟩)
  | .unregisterNode _ => (none, if record.isSome then ⟨.none, 0⟩ else ⟨.unknownNode, 0⟩)
  | .updateUsage _ used =>
    match record with
    | none => (none, ⟨.unknownNode, 0⟩)
    | some record =>
      if used > record.capacity then (some record, ⟨.invalidCapacity, 0⟩)
      else (some { record with used }, ⟨.none, used⟩)
  | .setHealth _ healthy =>
    match record with
    | none => (none, ⟨.unknownNode, 0⟩)
    | some record => (some { record with healthy }, ⟨.none, 0⟩)

end Action

variable {s t : NodeRegistry} {id : Str} {as bs : List Action} {record : NodeRecord}

/-! ## Calls -/

/-- A call changes the record of its node, and leaves the others alone. -/
theorem perform_on (s : NodeRegistry) (a : Action) :
    (s.perform a).2 = (a.on (s.table.lookup a.node)).2 ∧
      ∀ id, (s.perform a).1.table.lookup id =
        if id = a.node then (a.on (s.table.lookup a.node)).1 else s.table.lookup id := by
  have hself (node id : Str) :
      s.table.lookup id = if id = node then s.table.lookup node else s.table.lookup id := by
    split_ifs with heq
    · rw [heq]
    · rfl
  cases a with
  | registerNode node endpoint capacity =>
    simp only [perform, registerNode, Action.on, Action.node, Finmap.lookup_isSome]
    split_ifs with hid hendpoint hcapacity hmem
    · exact ⟨rfl, hself node⟩
    · exact ⟨rfl, hself node⟩
    · exact ⟨rfl, hself node⟩
    · exact ⟨rfl, hself node⟩
    · refine ⟨rfl, fun id => ?_⟩
      rw [Table.emplace_of_notMem hmem, Table.lookup_insert]
  | unregisterNode node =>
    simp only [perform, unregisterNode, Action.on, Action.node, Finmap.lookup_isSome]
    split_ifs with hmem
    · exact ⟨rfl, fun id => Table.lookup_erase⟩
    · refine ⟨rfl, fun id => (hself node id).trans ?_⟩
      rw [Finmap.lookup_eq_none.2 hmem]
  | updateUsage node used =>
    simp only [perform, updateUsage, Action.on, Action.node]
    cases hlookup : s.table.lookup node with
    | none => exact ⟨rfl, fun id => (hself node id).trans (by rw [hlookup]; rfl)⟩
    | some record =>
      dsimp only
      split_ifs
      · exact ⟨rfl, fun id => (hself node id).trans (by rw [hlookup])⟩
      · exact ⟨rfl, fun id => Table.lookup_insert⟩
  | setHealth node healthy =>
    simp only [perform, setHealth, Action.on, Action.node]
    cases hlookup : s.table.lookup node with
    | none => exact ⟨rfl, fun id => (hself node id).trans (by rw [hlookup]; rfl)⟩
    | some record => exact ⟨rfl, fun id => Table.lookup_insert⟩

/-- Calls about different nodes have nothing to do with each other. -/
theorem isolated : Isolated perform Action.node fun s id => s.table.lookup id where
  answer s t a hrecord := by rw [(perform_on s a).1, (perform_on t a).1, hrecord]
  change s t a hrecord := by
    rw [(perform_on s a).2, (perform_on t a).2, if_pos rfl, if_pos rfl, hrecord]
  frame s a id hne := by rw [(perform_on s a).2, if_neg (Ne.symm hne)]

/-- The order of calls about different nodes makes no difference: wherever the calls about each node
    come in the same order, they answer the same, and leave the same registry. -/
theorem reordered_calls (s : NodeRegistry)
    (hcalls : ∀ id, as.filter (·.node = id) = bs.filter (·.node = id)) :
    stateAfter perform s as = stateAfter perform s bs ∧
      ∀ id, (callsAnswered perform s as).filter (·.1.node = id) =
        (callsAnswered perform s bs).filter (·.1.node = id) := by
  refine ⟨?_, fun id => (isolated.reorder (hcalls id)).2⟩
  have htable : (stateAfter perform s as).table = (stateAfter perform s bs).table :=
    Finmap.ext_lookup fun id => (isolated.reorder (hcalls id)).1
  exact congrArg NodeRegistry.mk htable

/-- Two nodes are registered and used, and the calls about one come first. -/
theorem reordered_usage :
    stateAfter perform {} [.registerNode (ascii "a") (ascii "x") 9, .registerNode (ascii "b") (ascii "y") 5,
        .updateUsage (ascii "a") 7, .updateUsage (ascii "b") 6] =
      stateAfter perform {} [.registerNode (ascii "b") (ascii "y") 5, .updateUsage (ascii "b") 6,
        .registerNode (ascii "a") (ascii "x") 9, .updateUsage (ascii "a") 7] := by
  refine (reordered_calls {} fun id => ?_).1
  by_cases ha : id = ascii "a"
  · subst ha
    decide
  by_cases hb : id = ascii "b"
  · subst hb
    decide
  · simp [Action.node, Ne.symm ha, Ne.symm hb]

/-! ## What is listed -/

/-- A record that is kept for a node: what is used is within the capacity. -/
structure Kept (id : Str) (record : NodeRecord) : Prop where
  named : record.id = id
  idValid : validId id = true
  endpointValid : validEndpoint record.endpoint = true
  capacity : record.capacity ≠ 0
  used : record.used ≤ record.capacity

theorem Kept.on {a : Action} {before : Option NodeRecord} (h : ∀ r, before = some r → Kept a.node r)
    (hrecord : (a.on before).1 = some record) : Kept a.node record := by
  cases a with
  | registerNode node endpoint capacity =>
    rw [Action.on] at hrecord
    split_ifs at hrecord with hid hendpoint hcapacity hsome
    · exact h record hrecord
    · exact h record hrecord
    · exact h record hrecord
    · exact h record hrecord
    · have hvalid : validId node = true := by simpa using hid
      obtain rfl := Option.some.inj hrecord
      exact ⟨rfl, hvalid, by simpa using hendpoint, hcapacity, UInt64.zero_le⟩
  | unregisterNode node => cases hrecord
  | updateUsage node used =>
    cases before with
    | none => cases hrecord
    | some r =>
      have hr := h r rfl
      rw [Action.on] at hrecord
      split_ifs at hrecord with hused
      · exact h record hrecord
      · obtain rfl := Option.some.inj hrecord
        exact ⟨hr.named, hr.idValid, hr.endpointValid, hr.capacity, UInt64.not_lt.1 hused⟩
  | setHealth node healthy =>
    cases before with
    | none => cases hrecord
    | some r =>
      have hr := h r rfl
      obtain rfl := Option.some.inj hrecord
      exact ⟨hr.named, hr.idValid, hr.endpointValid, hr.capacity, hr.used⟩

theorem reachable_kept (h : machine.Reachable s) :
    ∀ id record, s.table.lookup id = some record → Kept id record := by
  refine h.invariant
    (P := fun s => ∀ id record, s.table.lookup id = some record → Kept id record) ?_ ?_
  · rintro s rfl id record hrecord
    cases hrecord
  · rintro s a t - hs rfl id record hrecord
    rw [(perform_on s a).2] at hrecord
    split_ifs at hrecord with heq
    · rw [heq]
      exact Kept.on (hs a.node) hrecord
    · exact hs id record hrecord

/-- In every state of a registry: what `nodes` lists is the records of the table, in the order of
    their ids, one for each node, and no node uses more than its capacity. -/
theorem reachable_nodes (h : machine.Reachable s) :
    s.nodes.Pairwise (fun left right => left.id ≤ right.id) ∧ (s.nodes.map (·.id)).Nodup ∧
      (∀ record, record ∈ s.nodes ↔ s.table.lookup record.id = some record) ∧
      ∀ record ∈ s.nodes, validId record.id = true ∧ validEndpoint record.endpoint = true ∧
        record.capacity ≠ 0 ∧ record.used ≤ record.capacity := by
  have hkept := reachable_kept h
  have hmem (record : NodeRecord) : record ∈ s.nodes ↔ s.table.lookup record.id = some record := by
    rw [nodes, List.mem_insertionSort, Table.mem_values]
    refine ⟨?_, fun hrecord => ⟨record.id, hrecord⟩⟩
    rintro ⟨id, hrecord⟩
    rwa [(hkept id record hrecord).named]
  have hvalues : (Table.values s.table).map (·.id) = Table.sortedKeys s.table := by
    rw [Table.values, List.map_map, ← Table.map_fst_sortedEntries]
    exact List.map_congr_left fun entry hentry =>
      (hkept entry.1 entry.2 (Table.mem_sortedEntries.1 hentry)).named
  refine ⟨?_, ?_, hmem, fun record hrecord => ?_⟩
  · have htotal : Std.Total fun left right : NodeRecord => left.id ≤ right.id :=
      ⟨fun left right => Std.Total.total left.id right.id⟩
    have htrans : IsTrans NodeRecord fun left right => left.id ≤ right.id :=
      ⟨fun left middle right => IsTrans.trans left.id middle.id right.id⟩
    exact List.pairwise_insertionSort _ _
  · have hperm := (List.perm_insertionSort (fun left right : NodeRecord => left.id ≤ right.id)
      (Table.values s.table)).map (·.id)
    exact hperm.nodup_iff.2 (hvalues ▸ Table.nodup_sortedKeys _)
  · have hrecord := hkept record.id record ((hmem record).1 hrecord)
    exact ⟨hrecord.idValid, hrecord.endpointValid, hrecord.capacity, hrecord.used⟩

/-- A node is used, and one is gone. -/
def usage : List Action :=
  [.registerNode (ascii "b") (ascii "y") 5, .registerNode (ascii "a") (ascii "x") 9,
    .updateUsage (ascii "a") 7, .updateUsage (ascii "a") 10, .unregisterNode (ascii "b")]

theorem reachable_stateAfter (h : machine.Reachable s) (as : List Action) :
    machine.Reachable (stateAfter perform s as) := by
  induction as generalizing s with
  | nil => exact h
  | cons a as ih => exact ih (h.step rfl)

theorem usage_nodes :
    (stateAfter perform {} usage).nodes = [⟨ascii "a", ascii "x", 9, 7, true⟩] ∧
      ∀ record ∈ (stateAfter perform {} usage).nodes, record.used ≤ record.capacity :=
  ⟨by decide, fun record hrecord =>
    ((reachable_nodes (reachable_stateAfter (.init rfl) usage)).2.2.2 record hrecord).2.2.2⟩

end NodeRegistry

end Gpumemd
