import Rocsift.Sift.Handles

/-! Where the partitions of an engine come from: each is made for a GPU node, by the builder of the
device that the node is on. -/
namespace Rocsift.Sift
open Numbering

section
variable {m : Machine} {dev : Nat} {p : Partition}

theorem mem_makePartitions {i : Nat} {nodes : List (NodePtr × Nat)} {ids : List (List Nat)}
    {ps : List Partition} (h : makePartitions m dev i nodes ids = .ok ps) (member : p ∈ ps) :
    ∃ n ∈ nodes, ∃ i xcc_die_ids, makePartition m dev i n.1 n.2 xcc_die_ids = .ok p := by
  induction nodes generalizing i ids ps with
  | nil =>
    cases h
    cases member
  | cons n nodes ih =>
    cases ids with
    | nil =>
      cases h
      cases member
    | cons xcc ids =>
      obtain ⟨first, made, h⟩ := Outcome.bind_ok h
      obtain ⟨rest, others, h⟩ := Outcome.bind_ok h
      cases h
      rcases List.mem_cons.mp member with rfl | later
      · exact ⟨n, List.mem_cons_self, i, xcc, made⟩
      · obtain ⟨n', hn, made⟩ := ih others later
        exact ⟨n', List.mem_cons_of_mem n hn, made⟩

theorem mem_partitionsFromNodes {table : Option (List Die)} {nodes : List (NodePtr × Nat)}
    {ps : List Partition} (h : partitionsFromNodes m dev table nodes = .ok ps) (member : p ∈ ps) :
    ∃ n ∈ nodes, ∃ i xcc_die_ids, makePartition m dev i n.1 n.2 xcc_die_ids = .ok p := by
  unfold partitionsFromNodes at h
  split at h
  · cases h
    cases member
  · obtain ⟨ids, -, h⟩ := Outcome.bind_ok h
    cases ids with
    | none =>
      cases h
      cases member
    | some ids => exact mem_makePartitions h member

theorem makePartition_ok {i global_id : Nat} {ptr : NodePtr} {xcc_die_ids : List Nat}
    (h : makePartition m dev i ptr global_id xcc_die_ids = .ok p) :
    p.dev_ = dev ∧ p.kfdnode_ = ptr.index ∧
      m.node_by_name ptr.node.drm_render_minor = some p.drmnode_ ∧
      m.resolve_debugfs ptr.index = .ok p.amdgpu_debugfs_ := by
  unfold makePartition at h
  split at h
  · cases h
  · rename_i drm found
    obtain ⟨debugfs, resolved, h⟩ := Outcome.bind_ok h
    cases h
    exact ⟨rfl, rfl, found, resolved⟩

end

section
variable {m : Machine} {nodes : List KFDNode} {eng : Engine} {p : Partition}

def deviceOf (nodes : List KFDNode) (ptr : NodePtr) : Nat :=
  (firsts ((gpus nodes).map keyOf)).idxOf (keyOf ptr)

/-- The partition is made for the node, by what the machine says about it. -/
structure MadeFor (m : Machine) (nodes : List KFDNode) (p : Partition) (ptr : NodePtr) : Prop where
  gpu : ptr ∈ gpus nodes
  node : p.kfdnode_ = ptr.index
  dev : p.dev_ = deviceOf nodes ptr
  drm : m.node_by_name ptr.node.drm_render_minor = some p.drmnode_
  debugfs : m.resolve_debugfs ptr.index = .ok p.amdgpu_debugfs_

theorem partition_made (h : makeEngine m nodes = .ok eng) (member : p ∈ eng.partitions_) :
    ∃ ptr, MadeFor m nodes p ptr := by
  obtain ⟨d, dev, hd, hp⟩ := (mem_partitions_iff h p).mp member
  obtain ⟨k, -, made⟩ := (device_built h d).1 dev hd
  obtain ⟨table, -, made⟩ := Outcome.bind_ok made
  obtain ⟨ps, parts, made⟩ := Outcome.bind_ok made
  cases made
  obtain ⟨n, hn, i, xcc, made⟩ := mem_partitionsFromNodes parts hp
  obtain ⟨listed, key⟩ := List.mem_filter.mp hn
  obtain ⟨dev, node, drm, debugfs⟩ := makePartition_ok made
  refine ⟨n.1, List.fst_mem_of_mem_zipIdx listed, node, ?_, drm, debugfs⟩
  rw [dev, deviceOf, of_decide_eq_true key]
  rfl

theorem gpus_index {ptr : NodePtr} (gpu : ptr ∈ gpus nodes) :
    nodes[ptr.index]? = some ptr.node := by
  obtain ⟨n, hn, rfl⟩ := List.mem_map.mp (List.mem_filter.mp gpu).1
  exact (List.mem_zipIdx_iff_getElem?).mp hn

theorem deviceOf_eq_iff {a b : NodePtr} (ha : a ∈ gpus nodes) :
    deviceOf nodes a = deviceOf nodes b ↔ keyOf a = keyOf b := by
  have member : keyOf a ∈ firsts ((gpus nodes).map keyOf) :=
    (mem_firsts _ _).mpr (List.mem_map.mpr ⟨a, ha, rfl⟩)
  exact List.idxOf_inj member

end

end Rocsift.Sift
