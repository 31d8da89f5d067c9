import Gpumemd.Basic
import Gpumemd.Library.Sorted

/-!
# The node registry

`NodeRegistry` (`src/core/node_registry.cpp`): the nodes of a cluster with their endpoints
and capacities, under a mutex of its own. What is used of a node and its health are only
changed by calls that no command makes.

Every node is registered under its own id, and ids and endpoints have no blanks
(`NodeRegistry.WellFormed`).
-/

namespace Gpumemd

open Library

/-- `NodeError`. -/
inductive NodeError
  | none
  | invalidId
  | invalidEndpoint
  | invalidCapacity
  | duplicateNode
  | unknownNode
  deriving DecidableEq

/-- `NodeOperationResult`. -/
structure NodeOperationResult where
  error : NodeError
  amount : Bytes
  deriving DecidableEq

/-- `NodeOperationResult::ok`. -/
def NodeOperationResult.ok (result : NodeOperationResult) : Bool := result.error == .none

/-- `NodeRecord`. -/
structure NodeRecord where
  id : Str
  endpoint : Str
  capacity : Bytes
  used : Bytes := 0
  healthy : Bool := true
  deriving DecidableEq

/-- The state of a `NodeRegistry`. -/
structure NodeRegistry where
  table : Table Str NodeRecord := ∅

namespace NodeRegistry

/-- `NodeRegistry::valid_id`. -/
def validId (id : Str) : Bool := nameShape id

/-- `NodeRegistry::valid_endpoint`. -/
def validEndpoint (endpoint : Str) : Bool :=
  if endpoint.isEmpty || endpoint.length > 256 then false
  else endpoint.all fun character => 32 < character && character != '\n'.toUInt8

variable (s : NodeRegistry)

/-- `NodeRegistry::register_node`. -/
def registerNode (id endpoint : Str) (capacity : Bytes) : NodeRegistry × NodeOperationResult :=
  if !validId id then (s, ⟨.invalidId, 0⟩)
  else if !validEndpoint endpoint then (s, ⟨.invalidEndpoint, 0⟩)
  else if capacity = 0 then (s, ⟨.invalidCapacity, 0⟩)
  else if id ∈ s.table then (s, ⟨.duplicateNode, 0⟩)
  else ({ table := Table.emplace s.table id { id, endpoint, capacity } }, ⟨.none, capacity⟩)

/-- `NodeRegistry::unregister_node`. -/
def unregisterNode (id : Str) : NodeRegistry × NodeOperationResult :=
  if id ∈ s.table then ({ table := s.table.erase id }, ⟨.none, 0⟩) else (s, ⟨.unknownNode, 0⟩)

/-- `NodeRegistry::nodes`. -/
def nodes : List NodeRecord :=
  (Table.values s.table).insertionSort fun left right => left.id ≤ right.id

/-- Every node is registered under its own id, with a valid endpoint. -/
def WellFormed : Prop :=
  ∀ id node, s.table.lookup id = some node →
    node.id = id ∧ validId id = true ∧ validEndpoint node.endpoint = true

variable {s}

theorem wellFormed_registerNode (h : s.WellFormed) (id endpoint : Str) (capacity : Bytes) :
    (s.registerNode id endpoint capacity).1.WellFormed := by
  rw [registerNode]
  split_ifs with hid hendpoint hcapacity hnew
  · exact h
  · exact h
  · exact h
  · exact h
  · intro id' node hnode
    rw [Table.emplace_of_notMem hnew, Table.lookup_insert] at hnode
    split_ifs at hnode with heq
    · obtain rfl := Option.some.inj hnode
      exact ⟨heq.symm, heq ▸ by simpa using hid, by simpa using hendpoint⟩
    · exact h id' node hnode

theorem wellFormed_unregisterNode (h : s.WellFormed) (id : Str) :
    (s.unregisterNode id).1.WellFormed := by
  rw [unregisterNode]
  split_ifs
  · intro id' node hnode
    rw [Table.lookup_erase] at hnode
    split_ifs at hnode
    exact h id' node hnode
  · exact h

theorem WellFormed.of_mem_nodes (h : s.WellFormed) {node : NodeRecord} (hnode : node ∈ s.nodes) :
    validId node.id = true ∧ validEndpoint node.endpoint = true := by
  rw [nodes, List.mem_insertionSort, Table.mem_values] at hnode
  obtain ⟨id, hlookup⟩ := hnode
  obtain ⟨rfl, hvalid⟩ := h id node hlookup
  exact hvalid

end NodeRegistry

end Gpumemd
