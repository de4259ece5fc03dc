import Mathlib.Order.Nat
import Rocsift.Base.OrderedMap
import Rocsift.Sift.Lifetime

/-! Construction of the engine: devices and partitions from the list of KFD nodes, and the
functions of capi.cc that hand out handles. What the file system says is a parameter. -/
namespace Rocsift.Sift

structure KFDNode where
  simd_count : BitVec 64
  location_id : BitVec 64
  domain_id : BitVec 64
  num_xcc : BitVec 64
  drm_render_minor : BitVec 64

structure NodePtr where
  index : Nat
  node : KFDNode

structure IPInstance where
  num_instance : BitVec 8
  harvest : BitVec 8

structure Die where
  gc : Option (List IPInstance)

/-- The file system: the IP discovery table of a device, DRM nodes by their render minor, and
the debugfs directory of a KFD node. -/
structure Machine where
  ip_discovery : BitVec 32 → BitVec 16 → Except SiftStatus (Option (List Die))
  node_by_name : BitVec 64 → Option Nat
  resolve_debugfs : Nat → Except SiftStatus (Option Nat)

/-- `dev_` is kept as the instance number of the device it points to. -/
structure Partition where
  dev_ : Nat
  kfdnode_ : Nat
  local_id_ : Nat
  global_id_ : Nat
  drmnode_ : Nat
  xcc_die_ids_ : List Nat
  amdgpu_debugfs_ : Option Nat
  deriving DecidableEq

structure Device where
  instance_ : Nat
  domain_ : BitVec 32
  bdf_ : BitVec 16
  partitions_ : List Partition
  deriving DecidableEq

structure DeviceBuilder where
  inst : Nat
  domain : BitVec 32
  bdf : BitVec 16
  nodes : List (NodePtr × Nat)

structure Engine where
  devices_ : List Device
  partitions_ : List Partition
  deriving DecidableEq

/-- One GC instance goes to the first node from `current_node` on that has room for it; a node
without room is left behind for good. -/
def dealInstance (nodes : List KFDNode) (num_instance : Nat) :
    Nat → Nat × List (List Nat) → Nat × List (List Nat)
  | 0, s => s
  | fuel + 1, (current_node, xcc_die_ids) =>
    match nodes[current_node]? with
    | none => (current_node, xcc_die_ids)
    | some n =>
      if (xcc_die_ids.getD current_node []).length < n.num_xcc.toNat then
        (current_node, xcc_die_ids.modify current_node (· ++ [num_instance]))
      else dealInstance nodes num_instance fuel (current_node + 1, xcc_die_ids)

def dealDie (nodes : List KFDNode) (s : Nat × List (List Nat)) (die : Die) :
    Except SiftStatus (Nat × List (List Nat)) :=
  match die.gc with
  | none => .error .error
  | some instances =>
    .ok (instances.foldl (fun s inst =>
      if inst.harvest ≠ 0#8 then s
      else dealInstance nodes inst.num_instance.toNat nodes.length s) s)

def xccDieIds (ipdiscovery_table : Option (List Die)) (nodes : List KFDNode) :
    Except SiftStatus (Option (List (List Nat))) :=
  match ipdiscovery_table with
  | some dies => do
    let dealt ← dies.foldlM (dealDie nodes) (0, nodes.map fun _ => [])
    return some dealt.2
  | none =>
    if nodes.any fun n => 1#64 < n.num_xcc then return none
    else return some (nodes.map fun _ => [0])

def makePartition (m : Machine) (dev i : Nat) (ptr : NodePtr) (global_id : Nat)
    (xcc_die_ids : List Nat) : Except SiftStatus Partition :=
  match m.node_by_name ptr.node.drm_render_minor with
  | none => .error .outOfRange
  | some drm_node => do
    let debugfs ← m.resolve_debugfs ptr.index
    return ⟨dev, ptr.index, i, global_id, drm_node, xcc_die_ids, debugfs⟩

def makePartitions (m : Machine) (dev : Nat) :
    Nat → List (NodePtr × Nat) → List (List Nat) → Except SiftStatus (List Partition)
  | i, (ptr, global_id) :: nodes, xcc_die_ids :: ids => do
    let p ← makePartition m dev i ptr global_id xcc_die_ids
    let ps ← makePartitions m dev (i + 1) nodes ids
    return p :: ps
  | _, _, _ => return []

def partitionsFromNodes (m : Machine) (dev : Nat) (ipdiscovery_table : Option (List Die))
    (nodes : List (NodePtr × Nat)) : Except SiftStatus (List Partition) :=
  if nodes = [] then return []
  else do
    let ids ← xccDieIds ipdiscovery_table (nodes.map fun n => n.1.node)
    match ids with
    | none => return []
    | some xcc_die_ids => makePartitions m dev 0 nodes xcc_die_ids

def makeDevice (m : Machine) (b : DeviceBuilder) : Except SiftStatus Device := do
  let table ← m.ip_discovery b.domain b.bdf
  let partitions ← partitionsFromNodes m b.inst table b.nodes
  return ⟨b.inst, b.domain, b.bdf, partitions⟩

def deviceKey (n : KFDNode) : BitVec 64 := n.domain_id <<< 16 ||| (n.location_id &&& 0xffffff8#64)

structure Enumeration where
  builders : OrderedMap Nat DeviceBuilder
  global_partition_id : Nat
  num_builders : Nat

def addNode (s : Enumeration) (ptr : NodePtr) : Enumeration :=
  if ptr.node.simd_count = 0#64 then s
  else
    let bdf := (deviceKey ptr.node).toNat
    let (builder, num_builders) : DeviceBuilder × Nat :=
      match s.builders.find? bdf with
      | some builder => (builder, s.num_builders)
      | none =>
        (⟨s.num_builders, ptr.node.domain_id.setWidth 32, ptr.node.location_id.setWidth 16, []⟩,
          s.num_builders + 1)
    { builders := s.builders.insert bdf
        { builder with nodes := builder.nodes ++ [(ptr, s.global_partition_id)] }
      global_partition_id := s.global_partition_id + 1
      num_builders := num_builders }

def nodePtrs (nodes : List KFDNode) : List NodePtr := nodes.zipIdx.map fun n => ⟨n.2, n.1⟩

def enumerate (ptrs : List NodePtr) : Enumeration := ptrs.foldl addNode ⟨.empty, 0, 0⟩

def enumerateDevices (m : Machine) (nodes : List KFDNode) : Except SiftStatus (List Device) :=
  (enumerate (nodePtrs nodes)).builders.entries.mapM fun e => makeDevice m e.2

def makeEngine (m : Machine) (nodes : List KFDNode) : Except SiftStatus Engine := do
  let devices ← enumerateDevices m nodes
  return ⟨devices, devices.flatMap Device.partitions_⟩

/-- An index outside its vector is undefined behaviour: `none`. -/
def siftDeviceGetPartition (eng : Engine) (dev : Nat) (n : Int) :
    Option (SiftStatus × Option Nat) := do
  let h ← eng.devices_[dev]?
  if n ≥ h.partitions_.length then return (.error, none)
  else if n < 0 then none
  else
    let p ← h.partitions_[n.toNat]?
    return (.success, some p.global_id_)

def siftPartitionGetDevice (eng : Engine) (part : Nat) : Option (SiftStatus × Option Nat) := do
  let p ← eng.partitions_[part]?
  return (.success, some p.dev_)

end Rocsift.Sift
