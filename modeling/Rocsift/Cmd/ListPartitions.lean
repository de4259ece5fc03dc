import Mathlib.Data.List.Perm.Subperm
import Rocsift.Kfd.Topology
import Rocsift.Sift.HandleRange
import Rocsift.Sift.Members
import Rocsift.Sift.SysFS

/-! `list_partitions`: it asks each device for its partitions, and prints a line for the partition
that each handle denotes. -/
namespace Rocsift.Cmd
open Sift

/-- An index outside its vector is undefined behaviour: `none`. -/
def siftDeviceGetPartitionCount (eng : Engine) (dev : Nat) : Option (SiftStatus × Option Nat) := do
  let h ← eng.devices_[dev]?
  return (.success, some h.partitions_.length)

def siftPartitionGetKfdNode (nodes : List Kfd.KFDNode) (eng : Engine) (part : Nat) :
    Option (SiftStatus × Option Nat) := do
  let p ← eng.partitions_[part]?
  match (List.range nodes.length).find? fun i => i = p.kfdnode_ with
  | some i => return (.success, some i)
  | none => return (.outOfRange, none)

def siftKfdNodeGetId (nodes : List Kfd.KFDNode) (node : Nat) :
    Option (SiftStatus × Option Int) := do
  let n ← nodes[node]?
  return (.success, some n.node_)

def siftKfdNodeGetGpuid (nodes : List Kfd.KFDNode) (node : Nat) :
    Option (SiftStatus × Option Int) := do
  let n ← nodes[node]?
  return (.success, some n.gpu_id_)

def siftKfdNodeGetProperties (nodes : List Kfd.KFDNode) (node : Nat) :
    Option (SiftStatus × Option Kfd.Properties) := do
  let n ← nodes[node]?
  return (.success, some n.kfd_properties_)

/-- What has been printed, the number of the next line, and the base that numbers are printed in:
`std::hex` stays in force. -/
structure Lines where
  printed : List Char
  total_num_partitions : Nat
  base : Nat

inductive Stop where
  | undefined
  | thrown (printed : List Char)

def siftThrow {A : Type} (s : Lines) : Option (SiftStatus × Option A) → Except Stop A
  | none => .error .undefined
  | some (.success, some a) => .ok a
  | some _ => .error (.thrown s.printed)

/-- An `int` in the stream; in base 16 it is printed as an unsigned one. -/
def streamed (base : Nat) (n : Int) : List Char :=
  if base = 16 then Numerals.digits 16 (BitVec.ofInt 32 n).toNat
  else if n < 0 then '-' :: Numerals.digits 10 n.natAbs
  else Numerals.digits 10 n.natAbs

def partitionLine (base total i p : Nat) (n : Kfd.KFDNode) : List Char :=
  streamed base total ++ ":  Device ".toList ++ streamed base i ++ ['.'] ++ streamed base p ++
    " Node ".toList ++ streamed base n.node_ ++ " GPU_ID ".toList ++
    Numerals.padded 16 8 (BitVec.ofInt 32 n.gpu_id_).toNat ++ [' '] ++
    Numerals.digits 16 (n.kfd_properties_ .vendor_id).toNat ++ [':'] ++
    Numerals.digits 16 (n.kfd_properties_ .device_id).toNat ++ ['\n']

def Lines.add (s : Lines) (i p : Nat) (n : Kfd.KFDNode) : Lines where
  printed := s.printed ++ partitionLine s.base s.total_num_partitions i p n
  total_num_partitions := s.total_num_partitions + 1
  base := 16

section
variable (nodes : List Kfd.KFDNode) (eng : Engine)

def listPartition (i dev p : Nat) (s : Lines) : Except Stop Lines := do
  let part ← siftThrow s (siftDeviceGetPartition eng dev p)
  let node ← siftThrow s (siftPartitionGetKfdNode nodes eng part)
  let node_id ← siftThrow s (siftKfdNodeGetId nodes node)
  let gpu_id ← siftThrow s (siftKfdNodeGetGpuid nodes node)
  let props ← siftThrow s (siftKfdNodeGetProperties nodes node)
  return s.add i p ⟨node_id, props, gpu_id⟩

def listDevice (s : Lines) (i : Nat) : Except Stop Lines := do
  let dev ← siftThrow s (some (siftGetDevice eng i))
  let num_partitions ← siftThrow s (siftDeviceGetPartitionCount eng dev)
  (List.range num_partitions).foldlM (fun s p => listPartition nodes eng i dev p s) s

/-- The output and the exit code once `sift_init` has succeeded; `none` is undefined behaviour. -/
def listPartitions : Option (List Char × Int) :=
  match (List.range eng.devices_.length).foldlM (listDevice nodes eng) ⟨[], 0, 10⟩ with
  | .ok s => some (s.printed, 0)
  | .error (.thrown printed) => some (printed, -1)
  | .error .undefined => none

end

structure Place where
  device : Nat
  number : Nat
  partition : Partition

structure Listed where
  device : Nat
  number : Nat
  node : Kfd.KFDNode

def places (eng : Engine) : List Place :=
  eng.devices_.zipIdx.flatMap fun dev => dev.1.partitions_.zipIdx.map fun part =>
    ⟨dev.2, part.2, part.1⟩

def listing (lines : List Listed) : List Char :=
  lines.zipIdx.flatMap fun l =>
    partitionLine (if l.2 = 0 then 10 else 16) l.2 l.1.device l.1.number l.1.node

section
variable {nodes : List Kfd.KFDNode} {eng : Engine}

def listed (nodes : List Kfd.KFDNode) (eng : Engine) (at_ : Place) : Option Listed := do
  let part ← eng.partitions_[at_.partition.global_id_]?
  let node ← nodes[part.kfdnode_]?
  return ⟨at_.device, at_.number, node⟩

theorem places_partitions (devices : List Device) (k : Nat) :
    ((devices.zipIdx k).flatMap fun dev => dev.1.partitions_.zipIdx.map fun part =>
      (⟨dev.2, part.2, part.1⟩ : Place)).map Place.partition =
        devices.flatMap Device.partitions_ := by
  induction devices generalizing k with
  | nil => rfl
  | cons dev devices ih =>
    rw [List.zipIdx_cons, List.flatMap_cons, List.map_append, ih, List.flatMap_cons, List.map_map]
    exact congrArg (· ++ _) (List.zipIdx_map_fst 0 dev.partitions_)

theorem siftPartitionGetKfdNode_eq {part : Nat} {p : Partition}
    (found : eng.partitions_[part]? = some p) (inside : p.kfdnode_ < nodes.length) :
    siftPartitionGetKfdNode nodes eng part = some (.success, some p.kfdnode_) := by
  have at_node : (List.range nodes.length).find? (fun i => i = p.kfdnode_) = some p.kfdnode_ := by
    refine List.find?_range_eq_some.mpr ⟨decide_eq_true rfl, List.mem_range.mpr inside, ?_⟩
    intro j less
    simpa using Nat.ne_of_lt less
  simp only [siftPartitionGetKfdNode, found, Option.bind_eq_bind, Option.bind_some, at_node]
  rfl

def Pointed (nodes : List Kfd.KFDNode) (eng : Engine) : Prop :=
  ∀ part ∈ eng.partitions_, part.kfdnode_ < nodes.length

theorem listPartition_eq (pointed : Pointed nodes eng) {d p : Nat} {dev : Device} {q : Partition}
    (hd : eng.devices_[d]? = some dev) (hp : dev.partitions_[p]? = some q) (s : Lines) :
    listPartition nodes eng d d p s = (listed nodes eng ⟨d, p, q⟩).elim (.error .undefined)
      fun l => .ok (s.add l.device l.number l.node) := by
  rw [listPartition, siftDeviceGetPartition_eq hd hp, listed]
  cases found : eng.partitions_[q.global_id_]? with
  | none =>
    have outside : siftPartitionGetKfdNode nodes eng q.global_id_ = none := by
      rw [siftPartitionGetKfdNode, found]
      rfl
    simp only [siftThrow, outside, bind, Except.bind]
    rfl
  | some part =>
    have inside := pointed part (List.mem_of_getElem? found)
    have node := List.getElem?_eq_getElem inside
    simp only [siftThrow, siftPartitionGetKfdNode_eq found inside, siftKfdNodeGetId,
      siftKfdNodeGetGpuid, siftKfdNodeGetProperties, node, bind, Except.bind, Option.bind]
    rfl

theorem handleOf_natCast {n : Nat} (small : n < 2 ^ 64) : handleOf n = n := by
  rw [handleOf, BitVec.ofInt_natCast, BitVec.toNat_ofNat, Nat.mod_eq_of_lt small]

theorem listDevice_eq (pointed : Pointed nodes eng) {d : Nat} {dev : Device} (small : d < 2 ^ 64)
    (hd : eng.devices_[d]? = some dev) (s : Lines) :
    listDevice nodes eng s d =
      (dev.partitions_.zipIdx.map fun part => (⟨d, part.2, part.1⟩ : Place)).foldlM
        (fun s at_ => (listed nodes eng at_).elim (.error .undefined)
          fun l => .ok (s.add l.device l.number l.node)) s := by
  have inside : ¬ (d : Int) ≥ eng.devices_.length := by
    have less := (List.getElem?_eq_some_iff.mp hd).1
    omega
  have device : siftGetDevice eng d = (.success, some d) := by
    rw [siftGetDevice, if_neg inside, handleOf_natCast small]
  have numbers : List.range dev.partitions_.length = dev.partitions_.zipIdx.map Prod.snd := by
    rw [List.zipIdx_map_snd, List.range_eq_range']
  have count : siftDeviceGetPartitionCount eng d =
      some (.success, some dev.partitions_.length) := by
    rw [siftDeviceGetPartitionCount, hd]
    rfl
  rw [listDevice, device]
  simp only [siftThrow, count, bind, Except.bind]
  rw [numbers, List.foldlM_map, List.foldlM_map]
  apply Outcome.foldlM_congr
  intro s part member
  exact listPartition_eq pointed hd (List.mem_zipIdx_iff_getElem?.mp member) s

theorem loops_eq (pointed : Pointed nodes eng) (small : eng.devices_.length < 2 ^ 64) (s : Lines) :
    (List.range eng.devices_.length).foldlM (listDevice nodes eng) s =
      ((places eng).mapM (listed nodes eng)).elim (.error .undefined)
        fun ls => .ok (ls.foldl (fun s l => s.add l.device l.number l.node) s) := by
  have numbers : List.range eng.devices_.length = eng.devices_.zipIdx.map Prod.snd := by
    rw [List.zipIdx_map_snd, List.range_eq_range']
  rw [← Outcome.foldlM_lookup (fun _ _ _ => rfl), places, Outcome.foldlM_flatMap, numbers,
    List.foldlM_map]
  apply Outcome.foldlM_congr
  intro s dev member
  have hd := List.mem_zipIdx_iff_getElem?.mp member
  have less := (List.getElem?_eq_some_iff.mp hd).1
  exact listDevice_eq pointed (Nat.lt_trans less small) hd s

theorem printed_add (lines : List Listed) (s : Lines)
    (base : s.base = if s.total_num_partitions = 0 then 10 else 16) :
    (lines.foldl (fun s l => s.add l.device l.number l.node) s).printed =
      s.printed ++ (lines.zipIdx s.total_num_partitions).flatMap fun l =>
        partitionLine (if l.2 = 0 then 10 else 16) l.2 l.1.device l.1.number l.1.node := by
  induction lines generalizing s with
  | nil => exact (List.append_nil _).symm
  | cons l lines ih =>
    rw [List.foldl_cons, ih _ (if_neg (Nat.succ_ne_zero _)).symm, List.zipIdx_cons,
      List.flatMap_cons, ← List.append_assoc, ← base]
    rfl

theorem listPartitions_eq (pointed : Pointed nodes eng) (small : eng.devices_.length < 2 ^ 64) :
    listPartitions nodes eng =
      ((places eng).mapM (listed nodes eng)).map fun ls => (listing ls, 0) := by
  rw [listPartitions, loops_eq pointed small]
  cases (places eng).mapM (listed nodes eng) with
  | none => rfl
  | some ls => exact congrArg (fun printed => some (printed, 0)) (printed_add ls ⟨[], 0, 10⟩ rfl)

end

/-- No GPU whose device gets no partitions comes before one whose device does. -/
def KeptFirst (m : Machine) (nodes : List KFDNode) : Prop :=
  (gpus nodes).Pairwise fun a b => keeps m nodes (keyOf b) → keeps m nodes (keyOf a)

instance (m : Machine) (nodes : List KFDNode) : Decidable (KeptFirst m nodes) :=
  inferInstanceAs (Decidable (List.Pairwise _ _))

section
variable {m : Machine} {kfd : List KFDNode} {nodes : List Kfd.KFDNode} {eng : Engine}

theorem ids_inside_iff (h : makeEngine m kfd = .ok eng) :
    (∀ q ∈ eng.partitions_, q.global_id_ < eng.partitions_.length) ↔ KeptFirst m kfd := by
  have increasing : (deviceKeys kfd).Pairwise (· < ·) :=
    (enumerate (nodePtrs kfd)).builders.keys_sorted
  have inside := Numbering.positions_inside_iff (keeps m kfd) increasing mem_deviceKeys
  rw [← global_ids h, List.forall_mem_map, List.pairwise_map] at inside
  have length := congrArg List.length (global_ids h)
  rw [List.length_map, List.length_map] at length
  rwa [← length] at inside

theorem filterMap_all {A B : Type} {g : A → Option B} {l : List A}
    (every : ∀ a ∈ l, (g a).isSome) : (l.filterMap g).map some = l.map g := by
  induction l with
  | nil => rfl
  | cons a l ih =>
    obtain ⟨here, later⟩ := List.forall_mem_cons.mp every
    obtain ⟨b, found⟩ := Option.isSome_iff_exists.mp here
    rw [List.filterMap_cons_some found, List.map_cons, List.map_cons, ih later, found]

theorem filterMap_range {A : Type} (l : List A) :
    (List.range l.length).filterMap (fun i => l[i]?) = l := by
  have each : (List.range l.length).map (fun i => l[i]?) = l.map some := by
    apply List.ext_getElem?
    intro i
    rw [List.getElem?_map, List.getElem?_map]
    by_cases inside : i < l.length
    · rw [List.getElem?_range inside, List.getElem?_eq_getElem inside]
      exact congrArg some (List.getElem?_eq_getElem inside)
    · have outside := Nat.not_lt.mp inside
      rw [List.getElem?_eq_none outside, List.getElem?_eq_none (by simpa using outside)]
      rfl
  have flat := List.filterMap_map (f := fun i => l[i]?) (g := id) (l := List.range l.length)
  rw [each, List.filterMap_map] at flat
  exact flat.symm.trans List.filterMap_some

theorem denoted (h : makeEngine m kfd = .ok eng)
    (inside : ∀ q ∈ eng.partitions_, q.global_id_ < eng.partitions_.length) :
    ∃ parts : List Partition, parts.Perm eng.partitions_ ∧
      parts.map some = eng.partitions_.map fun q => eng.partitions_[q.global_id_]? := by
  have once : (eng.partitions_.map Partition.global_id_).Nodup := by
    rw [global_ids h]
    exact Numbering.positions_nodup (enumerate (nodePtrs kfd)).builders.keys_sorted
  have perm := Numbering.perm_range once (by rwa [List.forall_mem_map, List.length_map])
  rw [List.length_map] at perm
  have parts := perm.filterMap fun i => eng.partitions_[i]?
  rw [List.filterMap_map, filterMap_range] at parts
  refine ⟨_, parts, filterMap_all fun q member => ?_⟩
  exact Option.isSome_iff_exists.mpr ⟨_, List.getElem?_eq_getElem (inside q member)⟩

theorem pointed_of_made (h : makeEngine m (nodes.map nodeOf) = .ok eng) : Pointed nodes eng := by
  intro part member
  obtain ⟨ptr, made⟩ := partition_made h member
  have index := gpus_index made.gpu
  obtain ⟨inside, -⟩ := List.getElem?_eq_some_iff.mp index
  rw [made.node]
  rwa [List.length_map] at inside

theorem devices_length (h : makeEngine m kfd = .ok eng) : eng.devices_.length ≤ kfd.length := by
  obtain ⟨devices, built, h⟩ := Outcome.bind_ok h
  cases h
  have same := (Outcome.mapM_ok built).length_eq
  have once : (deviceKeys kfd).Nodup := (enumerate (nodePtrs kfd)).builders.keys_nodup
  have keys : deviceKeys kfd ⊆ (gpus kfd).map keyOf := fun k => (mem_deviceKeys k).mp
  have short := (List.subperm_of_subset once keys).length_le
  have pointers : (gpus kfd).length ≤ (nodePtrs kfd).length := List.length_filter_le _ _
  rw [nodePtrs, List.length_map, List.length_zipIdx] at pointers
  rw [deviceKeys, OrderedMap.keys, List.length_map, List.length_map, same] at short
  exact Nat.le_trans short pointers

theorem mapM_listed (pointed : Pointed nodes eng) {at_ : List Place} {parts : List Partition}
    (leads : parts.map some = at_.map fun a => eng.partitions_[a.partition.global_id_]?) :
    ∃ ls, at_.mapM (listed nodes eng) = some ls ∧
      ls.map (fun l => (l.device, l.number)) = at_.map (fun a => (a.device, a.number)) ∧
      ls.map (fun l => some l.node) = parts.map fun q => nodes[q.kfdnode_]? := by
  induction at_ generalizing parts with
  | nil =>
    obtain rfl := List.map_eq_nil_iff.mp leads
    exact ⟨[], rfl, rfl, rfl⟩
  | cons a at_ ih =>
    cases parts with
    | nil => cases leads
    | cons q parts =>
      obtain ⟨here, later⟩ := List.cons.inj leads
      obtain ⟨ls, run, labels, described⟩ := ih later
      have denotes : eng.partitions_[a.partition.global_id_]? = some q := here.symm
      have inside := pointed q (List.mem_of_getElem? denotes)
      obtain ⟨n, node⟩ : ∃ n, nodes[q.kfdnode_]? = some n := ⟨_, List.getElem?_eq_getElem inside⟩
      have first : listed nodes eng a = some ⟨a.device, a.number, n⟩ := by
        rw [listed, denotes]
        simp only [Option.bind_eq_bind, Option.bind_some, node]
        rfl
      refine ⟨⟨a.device, a.number, n⟩ :: ls, ?_, ?_, ?_⟩
      · rw [List.mapM_cons, first, run]
        rfl
      · rw [List.map_cons, labels, List.map_cons]
      · rw [List.map_cons, described, List.map_cons, node]

theorem listed_of_mapM {at_ : List Place} {ls : List Listed}
    (run : at_.mapM (listed nodes eng) = some ls) :
    ∀ a ∈ at_, ∃ l, listed nodes eng a = some l := by
  induction at_ generalizing ls with
  | nil => exact List.forall_mem_nil _
  | cons a at_ ih =>
    rw [List.mapM_cons] at run
    obtain ⟨l, here, run⟩ := Option.bind_eq_some_iff.mp run
    obtain ⟨rest, later, -⟩ := Option.bind_eq_some_iff.mp run
    exact List.forall_mem_cons.mpr ⟨⟨l, here⟩, ih later⟩

theorem places_all (h : makeEngine m kfd = .ok eng) :
    (places eng).map Place.partition = eng.partitions_ := by
  obtain ⟨built, -, made⟩ := Outcome.bind_ok h
  cases made
  exact places_partitions built 0

theorem inside_of_listed (h : makeEngine m kfd = .ok eng) {ls : List Listed}
    (run : (places eng).mapM (listed nodes eng) = some ls) :
    ∀ q ∈ eng.partitions_, q.global_id_ < eng.partitions_.length := by
  intro q member
  rw [← places_all h] at member
  obtain ⟨a, ha, rfl⟩ := List.mem_map.mp member
  obtain ⟨l, here⟩ := listed_of_mapM run a ha
  obtain ⟨part, found, -⟩ := Option.bind_eq_some_iff.mp here
  exact (List.getElem?_eq_some_iff.mp found).1

structure Lists (nodes : List Kfd.KFDNode) (eng : Engine) (ls : List Listed)
    (parts : List Partition) : Prop where
  labels : ls.map (fun l => (l.device, l.number)) =
    (places eng).map fun a => (a.device, a.number)
  described : ls.map (fun l => some l.node) = parts.map fun q => nodes[q.kfdnode_]?
  once : parts.Perm eng.partitions_
  denotes : HandlesDenote eng → parts = (places eng).map Place.partition

/-- The loops come to their end, and list every partition, exactly when no GPU without partitions
is before one with them; else they use a handle that is out of range. -/
theorem each_partition_listed (h : makeEngine m (nodes.map nodeOf) = .ok eng)
    (short : nodes.length < 2 ^ 31) :
    (KeptFirst m (nodes.map nodeOf) → ∃ ls parts,
      listPartitions nodes eng = some (listing ls, 0) ∧ Lists nodes eng ls parts) ∧
    (¬ KeptFirst m (nodes.map nodeOf) → listPartitions nodes eng = none) := by
  have pointed := pointed_of_made h
  have devices := devices_length h
  rw [List.length_map] at devices
  have ends := listPartitions_eq pointed (by omega)
  rw [← ids_inside_iff h, ends]
  constructor
  · intro inside
    obtain ⟨parts, perm, leads⟩ := denoted h inside
    have by_place := List.map_map (f := Place.partition)
      (g := fun q => eng.partitions_[q.global_id_]?) (l := places eng)
    rw [places_all h, ← leads] at by_place
    obtain ⟨ls, run, labels, described⟩ := mapM_listed pointed by_place
    refine ⟨ls, parts, by rw [run]; rfl, labels, described, perm, fun handles => ?_⟩
    have own : ∀ q ∈ eng.partitions_, eng.partitions_[q.global_id_]? = some q := by
      intro q member
      obtain ⟨d, dev, hd, hq⟩ := (mem_partitions_iff h q).mp member
      obtain ⟨p, hp⟩ := List.getElem?_of_mem hq
      obtain ⟨g, call, found⟩ := handles.partition d dev p q hd hp
      rw [siftDeviceGetPartition_eq hd hp] at call
      cases call
      exact found
    rw [List.map_congr_left own] at leads
    rw [places_all h]
    exact List.map_injective_iff.mpr (Option.some_injective _) leads
  · intro outside
    cases run : (places eng).mapM (listed nodes eng) with
    | none => rfl
    | some ls => exact absurd (inside_of_listed h run) outside

end

def swappedKfd : List Kfd.KFDNode :=
  let props (location minor : BitVec 64) : Kfd.Properties
    | .simd_count => 4#64
    | .location_id => location
    | .num_xcc => 1#64
    | .drm_render_minor => minor
    | .vendor_id => 0x1002#64
    | .device_id => 0x74a1#64
    | _ => 0#64
  [⟨1, props 0x4100#64 128#64, 0x1f5⟩, ⟨2, props 0x0300#64 129#64, 0x2a6⟩]

theorem each_partition_listed_swapped : ∃ ls parts,
    listPartitions swappedKfd swappedEngine = some (listing ls, 0) ∧
      Lists swappedKfd swappedEngine ls parts := by
  have made : makeEngine bareMachine (swappedKfd.map nodeOf) = .ok swappedEngine := rfl
  exact (each_partition_listed made (by decide)).1 (by decide)

end Rocsift.Cmd
