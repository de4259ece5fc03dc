import Mathlib.Algebra.Ring.Nat
import Rocsift.Sift.Handles

/-! The functions that turn a number into a handle. They compare it with the size of a container as
signed numbers, and only from above. -/
namespace Rocsift.Sift
open Numbering

def handleOf (n : Int) : Nat := (BitVec.ofInt 64 n).toNat

def siftGetDevice (eng : Engine) (n : Int) : SiftStatus × Option Nat :=
  if n ≥ eng.devices_.length then (.outOfRange, none) else (.success, some (handleOf n))

def siftGetPartition (eng : Engine) (n : Int) : SiftStatus × Option Nat :=
  if n ≥ eng.partitions_.length then (.outOfRange, none) else (.success, some (handleOf n))

def siftKfdGetNode (nodes : List KFDNode) (n : Int) : SiftStatus × Option Nat :=
  if n ≥ nodes.length then (.error, none) else (.success, some (handleOf n))

/-- The right answers for number `n` of `size` elements, if handles index `bound` elements. -/
structure Answered (size bound : Nat) (n : Int) (r : SiftStatus × Option Nat) : Prop where
  success : r.1 = .success → (0 ≤ n ∧ n < size) ∧ ∃ h, r.2 = some h ∧ h < bound
  out : ¬ (0 ≤ n ∧ n < size) → r.1 ≠ .success ∧ r.2 = none

structure HandlesInRange (eng : Engine) (nodes : List KFDNode) (n : Int) : Prop where
  device : Answered eng.devices_.length eng.devices_.length n (siftGetDevice eng n)
  partition : Answered eng.partitions_.length eng.partitions_.length n (siftGetPartition eng n)
  node : Answered nodes.length nodes.length n (siftKfdGetNode nodes n)
  of_device : ∀ d dev, eng.devices_[d]? = some dev →
    ∃ r, siftDeviceGetPartition eng d n = some r ∧
      Answered dev.partitions_.length eng.partitions_.length n r

/-- In no device that keeps its partitions is node `n` behind as many other GPU nodes as there are
partitions. -/
def NotTooFar (m : Machine) (nodes : List KFDNode) (n : Nat) : Prop :=
  ∀ k ∈ (gpus nodes).map keyOf, keeps m nodes k →
    ∀ e, (builderOf (gpus nodes) k).nodes[n]? = some e →
      e.2 < ((gpus nodes).filter fun p => keeps m nodes (keyOf p)).length

theorem answered (size : Nat) {n : BitVec 32} {e : SiftStatus} (fails : e ≠ .success)
    (low : 0 ≤ n.toInt) : Answered size size n.toInt
      (if n.toInt ≥ size then (e, none) else (.success, some (handleOf n.toInt))) := by
  split
  · rename_i high
    exact ⟨fun ok => absurd ok fails, fun _ => ⟨fails, rfl⟩⟩
  · rename_i inside
    have small := BitVec.toInt_lt (x := n)
    obtain ⟨i, same⟩ := Int.eq_ofNat_of_zero_le low
    rw [same] at inside small ⊢
    have handle : handleOf i = i := by
      rw [handleOf, BitVec.ofInt_natCast, BitVec.toNat_ofNat]
      omega
    exact ⟨fun _ => ⟨by omega, i, congrArg some handle, by omega⟩,
      fun out => absurd ⟨by omega, by omega⟩ out⟩

section
variable {m : Machine} {nodes : List KFDNode} {eng : Engine}

theorem partitions_length (h : makeEngine m nodes = .ok eng) :
    eng.partitions_.length = ((gpus nodes).filter fun p => keeps m nodes (keyOf p)).length := by
  have ids := congrArg List.length (global_ids h)
  have once : (deviceKeys nodes).Nodup := (enumerate (nodePtrs nodes)).builders.keys_nodup
  rw [List.length_map, List.length_map, grouped_length once fun k => (mem_deviceKeys k).mpr] at ids
  rw [ids, List.filter_map, List.length_map]
  rfl

theorem partition_number (h : makeEngine m nodes = .ok eng) {d : Nat} {dev : Device}
    (hd : eng.devices_[d]? = some dev) {k : Nat} (at_k : (deviceKeys nodes)[d]? = some k) :
    dev.partitions_.map Partition.global_id_ =
      if keeps m nodes k then (builderOf (gpus nodes) k).nodes.map Prod.snd else [] := by
  obtain ⟨k', at_k', made⟩ := (device_built h d).1 dev hd
  obtain rfl : k' = k := Option.some.inj (at_k'.symm.trans at_k)
  have shape := congrArg (List.map Prod.snd) (makeDevice_ok made).2
  rw [List.map_map] at shape
  change _ = List.map Prod.snd (if keeps m nodes k' then _ else _) at shape
  split at shape
  · rename_i kept
    rw [if_pos kept]
    rwa [List.map_map] at shape
  · rename_i left_out
    rwa [if_neg left_out]

theorem device_partition_at (h : makeEngine m nodes = .ok eng) {d n : Nat} {dev : Device}
    (hd : eng.devices_[d]? = some dev) {k : Nat} (at_k : (deviceKeys nodes)[d]? = some k) :
    (dev.partitions_[n]?).map Partition.global_id_ =
      if keeps m nodes k then ((builderOf (gpus nodes) k).nodes[n]?).map Prod.snd else none := by
  rw [← List.getElem?_map, partition_number h hd at_k]
  split
  · exact List.getElem?_map ..
  · rfl

theorem siftDeviceGetPartition_none {d n : Nat} {dev : Device} (hd : eng.devices_[d]? = some dev)
    (hn : dev.partitions_[n]? = none) : siftDeviceGetPartition eng d n = some (.error, none) := by
  have high : (n : Int) ≥ dev.partitions_.length := by
    have beyond := List.getElem?_eq_none_iff.mp hn
    omega
  simp only [siftDeviceGetPartition, hd, Option.bind_eq_bind, Option.bind_some, if_pos high]
  rfl

theorem of_device_iff (h : makeEngine m nodes = .ok eng) (n : Nat) :
    (∀ d dev, eng.devices_[d]? = some dev → ∃ r, siftDeviceGetPartition eng d n = some r ∧
      Answered dev.partitions_.length eng.partitions_.length n r) ↔ NotTooFar m nodes n := by
  constructor
  · intro answers k member kept e at_n
    obtain ⟨d, at_k⟩ := List.getElem?_of_mem ((mem_deviceKeys k).mpr member)
    obtain ⟨dev, hd, _⟩ := (device_built h d).2 k at_k
    have id := device_partition_at (n := n) h hd at_k
    rw [if_pos kept, at_n] at id
    obtain ⟨part, hp, same⟩ := Option.map_eq_some_iff.mp id
    obtain ⟨r, call, right⟩ := answers d dev hd
    rw [siftDeviceGetPartition_eq hd hp] at call
    cases call
    obtain ⟨-, g, stored, inside⟩ := right.success rfl
    cases stored
    rwa [same, partitions_length h] at inside
  · intro near d dev hd
    obtain ⟨k, at_k, _⟩ := (device_built h d).1 dev hd
    cases hp : dev.partitions_[n]? with
    | none =>
      refine ⟨_, siftDeviceGetPartition_none hd hp, ?_⟩
      exact ⟨fun ok => (nomatch ok), fun _ => ⟨fun ok => (nomatch ok), rfl⟩⟩
    | some part =>
      refine ⟨_, siftDeviceGetPartition_eq hd hp, ?_⟩
      have id := device_partition_at (n := n) h hd at_k
      rw [hp] at id
      split at id
      · rename_i kept
        obtain ⟨e, at_n, same⟩ := Option.map_eq_some_iff.mp id.symm
        have inside := near k ((mem_deviceKeys k).mp (List.mem_of_getElem? at_k)) kept e at_n
        rw [same, ← partitions_length h] at inside
        obtain ⟨less, _⟩ := List.getElem?_eq_some_iff.mp hp
        exact ⟨fun _ => ⟨by omega, _, rfl, inside⟩, fun out => absurd ⟨by omega, by omega⟩ out⟩
      · cases id

end

theorem handles_in_range_iff {m : Machine} {nodes : List KFDNode} {eng : Engine}
    (h : makeEngine m nodes = .ok eng) (n : BitVec 32) :
    HandlesInRange eng nodes n.toInt ↔ 0 ≤ n.toInt ∧ NotTooFar m nodes n.toInt.toNat := by
  constructor
  · intro right
    have low : 0 ≤ n.toInt := by
      by_contra negative
      have taken : siftGetDevice eng n.toInt = (.success, some (handleOf n.toInt)) :=
        if_neg (by omega)
      have inside := (right.device.success (by rw [taken])).1
      exact negative inside.1
    refine ⟨low, (of_device_iff h n.toInt.toNat).mp ?_⟩
    rw [Int.toNat_of_nonneg low]
    exact right.of_device
  · rintro ⟨low, near⟩
    have of_device := (of_device_iff h n.toInt.toNat).mpr near
    rw [Int.toNat_of_nonneg low] at of_device
    exact ⟨answered _ (by decide) low, answered _ (by decide) low, answered _ (by decide) low,
      of_device⟩

theorem handles_in_range_swapped :
    HandlesInRange swappedEngine swappedNodes 0 ↔
      0 ≤ (0 : Int) ∧ NotTooFar bareMachine swappedNodes 0 :=
  handles_in_range_iff (rfl : makeEngine bareMachine swappedNodes = .ok swappedEngine) 0#32

/-- Number -1 gives a handle to a device, far behind the last one. -/
theorem negative_number_taken :
    makeEngine bareMachine swappedNodes = .ok swappedEngine ∧
      siftGetDevice swappedEngine (-1) = (.success, some (2 ^ 64 - 1)) ∧
        ¬ HandlesInRange swappedEngine swappedNodes (-1) := by
  refine ⟨rfl, rfl, fun right => ?_⟩
  have inside := (right.device.success rfl).1
  exact absurd inside.1 (by decide)

end Rocsift.Sift
