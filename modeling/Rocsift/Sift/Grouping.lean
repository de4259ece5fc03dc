import Rocsift.Base.BitField
import Rocsift.Sift.Enumeration

/-! The grouping of KFD nodes into devices: every GPU node in one builder, with its place among the
GPU nodes as its global partition id. -/
namespace Rocsift.Sift
open Numbering

def builders (nodes : List KFDNode) : List DeviceBuilder :=
  (enumerate (nodePtrs nodes)).builders.entries.map Prod.snd

def numbered (nodes : List KFDNode) : List (NodePtr × Nat) := (gpus nodes).zipIdx

def SameDevice (a b : KFDNode) : Prop :=
  a.domain_id = b.domain_id ∧ a.location_id.toNat / 8 = b.location_id.toNat / 8

/-- A bus, device and function, and a domain that leaves them 16 bits of the key. -/
structure KFDNode.Addressed (n : KFDNode) : Prop where
  location : n.location_id.toNat < 2 ^ 16
  domain : n.domain_id.toNat < 2 ^ 48

theorem deviceKey_toNat {n : KFDNode} (addressed : n.Addressed) :
    (deviceKey n).toNat = n.domain_id.toNat * 2 ^ 16 + n.location_id.toNat / 8 * 8 := by
  obtain ⟨location, domain⟩ := addressed
  have low : (n.location_id &&& 0xffffff8#64).toNat = n.location_id.toNat / 8 * 8 := by
    have mask : (0xffffff8#64).toNat = (2 ^ 25 - 1) <<< 3 := by decide
    rw [BitVec.toNat_and, mask, BitField.and_shifted_mask, Nat.shiftLeft_eq]
    omega
  have high : (n.domain_id <<< 16).toNat = n.domain_id.toNat <<< 16 := by
    rw [BitVec.toNat_shiftLeft, Nat.shiftLeft_eq]
    omega
  have below : n.location_id.toNat / 8 * 8 < 2 ^ 16 := by omega
  rw [deviceKey, BitVec.toNat_or, low, high, ← Nat.shiftLeft_add_eq_or_of_lt below,
    Nat.shiftLeft_eq]

theorem deviceKey_eq_iff {a b : KFDNode} (ha : a.Addressed) (hb : b.Addressed) :
    (deviceKey a).toNat = (deviceKey b).toNat ↔ SameDevice a b := by
  have la := ha.location
  have lb := hb.location
  rw [deviceKey_toNat ha, deviceKey_toNat hb]
  constructor
  · intro same
    exact ⟨BitVec.eq_of_toNat_eq (by omega), by omega⟩
  · rintro ⟨domain, location⟩
    rw [domain, location]

section
variable {nodes : List KFDNode}

theorem mem_builders_iff (b : DeviceBuilder) :
    b ∈ builders nodes ↔ ∃ k ∈ (gpus nodes).map keyOf, b = builderOf (gpus nodes) k := by
  rw [builders, List.mem_map]
  constructor
  · rintro ⟨e, he, rfl⟩
    obtain ⟨member, built⟩ := ((enumerated nodes).mem e).mp he
    exact ⟨e.1, member, built⟩
  · rintro ⟨k, member, rfl⟩
    exact ⟨(k, _), ((enumerated nodes).mem _).mpr ⟨member, rfl⟩, rfl⟩

theorem builders_nodes : (builders nodes).flatMap DeviceBuilder.nodes =
    (enumerate (nodePtrs nodes)).builders.keys.flatMap fun k =>
      (numbered nodes).filter fun n => keyOf n.1 = k := by
  rw [builders, OrderedMap.keys, List.flatMap_map, List.flatMap_map]
  refine List.flatMap_congr fun e he => ?_
  rw [(((enumerated nodes).mem e).mp he).2]
  rfl

theorem node_addressed (all : ∀ n ∈ nodes, n.Addressed) {p : NodePtr} (hp : p ∈ gpus nodes) :
    p.node.Addressed := by
  obtain ⟨n, hn, rfl⟩ := List.mem_map.mp (List.mem_filter.mp hp).1
  exact all n.1 (List.fst_mem_of_mem_zipIdx hn)

/-- The builders hold every GPU node once and no other node; in each of them the nodes are in KFD
order; two nodes share one exactly if they are on one device. The partition ids count the GPU nodes
in KFD order. -/
theorem enumeration_groups (all : ∀ n ∈ nodes, n.Addressed) :
    ((builders nodes).flatMap DeviceBuilder.nodes).Perm (numbered nodes) ∧
    (∀ b ∈ builders nodes, b.nodes.Sublist (numbered nodes)) ∧
    (∀ p ∈ numbered nodes, ∀ q ∈ numbered nodes,
      (∃ b ∈ builders nodes, p ∈ b.nodes ∧ q ∈ b.nodes) ↔ SameDevice p.1.node q.1.node) ∧
    (numbered nodes).map Prod.fst = (nodePtrs nodes).filter (fun p => p.node.simd_count ≠ 0#64) ∧
    (numbered nodes).map Prod.snd = List.range (gpus nodes).length := by
  have keys := (enumerate (nodePtrs nodes)).builders.keys_nodup
  have every : ∀ n ∈ numbered nodes, keyOf n.1 ∈ (enumerate (nodePtrs nodes)).builders.keys := by
    intro n hn
    have member := List.mem_map_of_mem (f := keyOf) (List.fst_mem_of_mem_zipIdx hn)
    exact List.mem_map.mpr ⟨(keyOf n.1, builderOf (gpus nodes) (keyOf n.1)),
      ((enumerated nodes).mem _).mpr ⟨member, rfl⟩, rfl⟩
  refine ⟨?_, ?_, ?_, List.zipIdx_map_fst .., ?_⟩
  · have whole := groups_perm (fun n : NodePtr × Nat => keyOf n.1) (numbered nodes) keys
    rw [List.filter_eq_self.mpr fun n hn => decide_eq_true (every n hn)] at whole
    rw [builders_nodes]
    exact whole
  · intro b hb
    obtain ⟨k, -, rfl⟩ := (mem_builders_iff b).mp hb
    exact List.filter_sublist
  · intro p hp q hq
    have own := List.fst_mem_of_mem_zipIdx hp
    rw [← deviceKey_eq_iff (node_addressed all own)
      (node_addressed all (List.fst_mem_of_mem_zipIdx hq))]
    constructor
    · rintro ⟨b, hb, hpb, hqb⟩
      obtain ⟨k, -, rfl⟩ := (mem_builders_iff b).mp hb
      have keyed := of_decide_eq_true (List.mem_filter.mp hpb).2
      exact keyed.trans (of_decide_eq_true (List.mem_filter.mp hqb).2).symm
    · intro same
      refine ⟨_, (mem_builders_iff _).mpr ⟨keyOf p.1, List.mem_map_of_mem own, rfl⟩, ?_, ?_⟩
      · exact List.mem_filter.mpr ⟨hp, decide_eq_true rfl⟩
      · exact List.mem_filter.mpr ⟨hq, decide_eq_true same.symm⟩
  · rw [numbered, List.zipIdx_map_snd, List.range_eq_range']

end

theorem enumeration_groups_three :
    let nodes : List KFDNode := [⟨0#64, 0#64, 0#64, 0#64, 0#64⟩,
      ⟨4#64, 0x0300#64, 0#64, 1#64, 128#64⟩, ⟨4#64, 0x4100#64, 1#64, 1#64, 129#64⟩,
      ⟨4#64, 0x0301#64, 0#64, 1#64, 130#64⟩]
    ((builders nodes).flatMap DeviceBuilder.nodes).Perm (numbered nodes) := by
  intro nodes
  have grouped := @enumeration_groups nodes (by
    simp only [nodes, List.forall_mem_cons]
    refine ⟨⟨?_, ?_⟩, ⟨?_, ?_⟩, ⟨?_, ?_⟩, ⟨?_, ?_⟩, ?_⟩ <;> simp)
  exact grouped.1

end Rocsift.Sift
