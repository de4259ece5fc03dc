import Rocsift.Base.Outcome
import Rocsift.Sift.Enumeration

/-! Handles as indices. A partition handle is the global id that was counted in KFD order, a
device handle the number of its builder; both index vectors that are built in key order, without
the partitions of devices that came out empty. -/
namespace Rocsift.Sift
open Numbering

/-- Without an IP discovery table, none of the nodes may have more than one XCC. -/
def guessable (table : Option (List Die)) (nodes : List (NodePtr × Nat)) : Bool :=
  table.isSome || nodes.all fun n => ¬ 1#64 < n.1.node.num_xcc

def keepsPartitions (m : Machine) (b : DeviceBuilder) : Bool :=
  match m.ip_discovery b.domain b.bdf with
  | .ok table => guessable table b.nodes
  | .error _ => false

structure HandlesDenote (eng : Engine) : Prop where
  partition : ∀ (d : Nat) dev (p : Nat) part, eng.devices_[d]? = some dev →
    dev.partitions_[p]? = some part →
    ∃ h, siftDeviceGetPartition eng d p = some (.success, some h) ∧
      eng.partitions_[h]? = some part
  device : ∀ h part d dev, eng.partitions_[h]? = some part → eng.devices_[d]? = some dev →
    part ∈ dev.partitions_ → siftPartitionGetDevice eng h = some (.success, some d)

theorem dealInstance_length (nodes : List KFDNode) (inst fuel : Nat) (s : Nat × List (List Nat)) :
    (dealInstance nodes inst fuel s).2.length = s.2.length := by
  induction fuel generalizing s with
  | zero => rfl
  | succ fuel ih =>
    unfold dealInstance
    split
    · rfl
    · split
      · exact List.length_modify ..
      · exact ih _

theorem dealDie_length {nodes : List KFDNode} {s t : Nat × List (List Nat)} {die : Die}
    (h : dealDie nodes s die = .ok t) : t.2.length = s.2.length := by
  unfold dealDie at h
  split at h
  · cases h
  · rename_i instances _
    cases h
    clear *-
    induction instances generalizing s with
    | nil => rfl
    | cons inst rest ih =>
      rw [List.foldl_cons, ih]
      split
      · rfl
      · exact dealInstance_length ..

theorem xccDieIds_length {table : Option (List Die)} {nodes : List KFDNode}
    {ids : List (List Nat)} (h : xccDieIds table nodes = .ok (some ids)) :
    ids.length = nodes.length := by
  cases table with
  | none =>
    rw [xccDieIds] at h
    split at h
    · cases h
    · cases h
      exact List.length_map ..
  | some dies =>
    obtain ⟨dealt, folded, h⟩ := Outcome.bind_ok h
    cases h
    refine Outcome.foldlM_ok (fun s => s.2.length = nodes.length) ?_ (by simp) folded
    exact fun s die _ t start step => (dealDie_length step).trans start

theorem makePartitions_ok {m : Machine} {dev i : Nat} {nodes : List (NodePtr × Nat)}
    {ids : List (List Nat)} {ps : List Partition} (h : makePartitions m dev i nodes ids = .ok ps)
    (same : ids.length = nodes.length) :
    ps.map (fun p => (p.dev_, p.global_id_)) = (nodes.map fun n => (dev, n.2)) ∧
      ps.map Partition.xcc_die_ids_ = ids := by
  induction nodes generalizing i ids ps with
  | nil =>
    cases h
    exact ⟨rfl, (List.eq_nil_of_length_eq_zero same).symm⟩
  | cons n nodes ih =>
    cases ids with
    | nil => cases same
    | cons xcc ids =>
      obtain ⟨p, hp, h⟩ := Outcome.bind_ok h
      obtain ⟨rest, hr, h⟩ := Outcome.bind_ok h
      cases h
      have first : (p.dev_, p.global_id_) = (dev, n.2) ∧ p.xcc_die_ids_ = xcc := by
        unfold makePartition at hp
        split at hp
        · cases hp
        · obtain ⟨fs, _, hp⟩ := Outcome.bind_ok hp
          cases hp
          exact ⟨rfl, rfl⟩
      obtain ⟨numbers, dies⟩ := ih hr (Nat.succ.inj same)
      exact ⟨congrArg₂ List.cons first.1 numbers, congrArg₂ List.cons first.2 dies⟩

theorem partitionsFromNodes_ok {m : Machine} {dev : Nat} {table : Option (List Die)}
    {nodes : List (NodePtr × Nat)} {ps : List Partition}
    (h : partitionsFromNodes m dev table nodes = .ok ps) :
    ps.map (fun p => (p.dev_, p.global_id_)) =
      if guessable table nodes then nodes.map fun n => (dev, n.2) else [] := by
  unfold partitionsFromNodes at h
  split at h
  · rename_i empty
    cases h
    simp [empty]
  · obtain ⟨ids, hids, h⟩ := Outcome.bind_ok h
    cases ids with
    | none =>
      cases h
      cases table with
      | some dies =>
        obtain ⟨dealt, _, hids⟩ := Outcome.bind_ok hids
        cases hids
      | none =>
        rw [xccDieIds] at hids
        split at hids
        · rename_i many
          have no : guessable none nodes = false := by simpa [guessable] using many
          rw [no]
          rfl
        · cases hids
    | some ids =>
      have same := xccDieIds_length hids
      have yes : guessable table nodes = true := by
        cases table with
        | some dies => rfl
        | none =>
          rw [xccDieIds] at hids
          split at hids
          · cases hids
          · rename_i few
            simpa [guessable] using few
      rw [(makePartitions_ok h (by simpa using same)).1, if_pos yes]

theorem makeDevice_ok {m : Machine} {b : DeviceBuilder} {dev : Device}
    (h : makeDevice m b = .ok dev) : dev.instance_ = b.inst ∧
      dev.partitions_.map (fun p => (p.dev_, p.global_id_)) =
        if keepsPartitions m b then b.nodes.map fun n => (b.inst, n.2) else [] := by
  obtain ⟨table, ht, h⟩ := Outcome.bind_ok h
  obtain ⟨ps, hps, h⟩ := Outcome.bind_ok h
  cases h
  refine ⟨rfl, ?_⟩
  rw [keepsPartitions, ht]
  exact partitionsFromNodes_ok hps

section
variable {m : Machine} {nodes : List KFDNode} {eng : Engine}

def deviceKeys (nodes : List KFDNode) : List Nat := (enumerate (nodePtrs nodes)).builders.keys

theorem mem_deviceKeys (k : Nat) : k ∈ deviceKeys nodes ↔ k ∈ (gpus nodes).map keyOf := by
  rw [deviceKeys, OrderedMap.keys, List.mem_map]
  constructor
  · rintro ⟨e, he, rfl⟩
    exact (((enumerated nodes).mem e).mp he).1
  · intro member
    exact ⟨(k, builderOf (gpus nodes) k), ((enumerated nodes).mem _).mpr ⟨member, rfl⟩, rfl⟩

theorem device_built (h : makeEngine m nodes = .ok eng) (d : Nat) :
    (∀ dev, eng.devices_[d]? = some dev → ∃ k, (deviceKeys nodes)[d]? = some k ∧
      makeDevice m (builderOf (gpus nodes) k) = .ok dev) ∧
    ∀ k, (deviceKeys nodes)[d]? = some k → ∃ dev, eng.devices_[d]? = some dev ∧
      makeDevice m (builderOf (gpus nodes) k) = .ok dev := by
  obtain ⟨devices, hd, h⟩ := Outcome.bind_ok h
  cases h
  have built := Outcome.mapM_getElem? hd d
  have entry : ∀ e, (enumerate (nodePtrs nodes)).builders.entries[d]? = some e →
      e.2 = builderOf (gpus nodes) e.1 := fun e he =>
    (((enumerated nodes).mem e).mp (List.mem_of_getElem? he)).2
  constructor
  · intro dev hdev
    obtain ⟨e, he, made⟩ := built.1 dev hdev
    refine ⟨e.1, ?_, entry e he ▸ made⟩
    rw [deviceKeys, OrderedMap.keys, List.getElem?_map, he]
    rfl
  · intro k hk
    rw [deviceKeys, OrderedMap.keys, List.getElem?_map] at hk
    obtain ⟨e, he, rfl⟩ := Option.map_eq_some_iff.mp hk
    obtain ⟨dev, hdev, made⟩ := built.2 e he
    exact ⟨dev, hdev, entry e he ▸ made⟩

def keeps (m : Machine) (nodes : List KFDNode) (k : Nat) : Bool :=
  keepsPartitions m (builderOf (gpus nodes) k)

theorem members_builderOf (ps : List NodePtr) (k : Nat) :
    (builderOf ps k).nodes.map Prod.snd = (members (ps.map keyOf) k).map Prod.snd := by
  have zip : (ps.map keyOf).zipIdx = ps.zipIdx.map fun n => (keyOf n.1, n.2) := by
    rw [List.zipIdx_map]
    rfl
  rw [members, zip, List.filter_map, List.map_map]
  rfl

theorem global_ids_of {es : List (Nat × DeviceBuilder)} {devices : List Device}
    (all : List.Forall₂ (fun e dev => makeDevice m e.2 = .ok dev) es devices)
    (entry : ∀ e ∈ es, e.2 = builderOf (gpus nodes) e.1) :
    (devices.flatMap Device.partitions_).map Partition.global_id_ =
      (grouped (keeps m nodes) ((gpus nodes).map keyOf) (es.map Prod.fst)).map Prod.snd := by
  induction all with
  | nil => rfl
  | @cons e dev es devices made _ ih =>
    have rest := ih fun d hd => entry d (List.mem_cons_of_mem e hd)
    have built := congrArg (List.map Prod.snd) (makeDevice_ok made).2
    rw [entry e List.mem_cons_self, List.map_map] at built
    change List.map Partition.global_id_ dev.partitions_ =
      List.map Prod.snd (if keeps m nodes e.1 then _ else _) at built
    rw [List.flatMap_cons, List.map_append, rest, List.map_cons, grouped, grouped]
    by_cases kept : keeps m nodes e.1
    · rw [if_pos kept, List.map_map] at built
      rw [List.filter_cons_of_pos kept, List.flatMap_cons, List.map_append,
        ← members_builderOf]
      exact congrArg (· ++ _) built
    · rw [if_neg kept] at built
      rw [List.filter_cons_of_neg kept]
      exact congrArg (· ++ _) built

theorem global_ids (h : makeEngine m nodes = .ok eng) :
    eng.partitions_.map Partition.global_id_ =
      (grouped (keeps m nodes) ((gpus nodes).map keyOf) (deviceKeys nodes)).map Prod.snd := by
  obtain ⟨devices, hd, h⟩ := Outcome.bind_ok h
  cases h
  exact global_ids_of (Outcome.mapM_ok hd) fun e he => (((enumerated nodes).mem e).mp he).2

theorem mem_partitions_iff (h : makeEngine m nodes = .ok eng) (part : Partition) :
    part ∈ eng.partitions_ ↔
      ∃ (d : Nat) (dev : Device), eng.devices_[d]? = some dev ∧ part ∈ dev.partitions_ := by
  obtain ⟨devices, _, h⟩ := Outcome.bind_ok h
  cases h
  rw [List.mem_flatMap]
  constructor
  · rintro ⟨dev, hdev, hp⟩
    obtain ⟨d, hd⟩ := List.getElem?_of_mem hdev
    exact ⟨d, dev, hd, hp⟩
  · rintro ⟨d, dev, hd, hp⟩
    exact ⟨dev, List.mem_of_getElem? hd, hp⟩

theorem siftDeviceGetPartition_eq {d p : Nat} {dev : Device} {part : Partition}
    (hd : eng.devices_[d]? = some dev) (hp : dev.partitions_[p]? = some part) :
    siftDeviceGetPartition eng d p = some (.success, some part.global_id_) := by
  obtain ⟨inside, _⟩ := List.getElem?_eq_some_iff.mp hp
  have low : ¬ (p : Int) ≥ dev.partitions_.length := by omega
  have high : ¬ (p : Int) < 0 := by omega
  simp only [siftDeviceGetPartition, hd, Option.bind_eq_bind, Option.bind_some, if_neg low,
    if_neg high, Int.toNat_natCast, hp]
  rfl

theorem partition_handles_iff (h : makeEngine m nodes = .ok eng) :
    (∀ (d : Nat) dev (p : Nat) part, eng.devices_[d]? = some dev →
      dev.partitions_[p]? = some part →
        ∃ h, siftDeviceGetPartition eng d p = some (.success, some h) ∧
        eng.partitions_[h]? = some part) ↔
    eng.partitions_.map Partition.global_id_ = List.range eng.partitions_.length := by
  have distinct : (eng.partitions_.map Partition.global_id_).Nodup := by
    rw [global_ids h]
    exact positions_nodup (enumerate (nodePtrs nodes)).builders.keys_sorted
  constructor
  · intro handles
    have own : ∀ part ∈ eng.partitions_, eng.partitions_[part.global_id_]? = some part := by
      intro part hp
      obtain ⟨d, dev, hd, hp⟩ := (mem_partitions_iff h part).mp hp
      obtain ⟨p, hp⟩ := List.getElem?_of_mem hp
      obtain ⟨g, call, at_g⟩ := handles d dev p part hd hp
      rw [siftDeviceGetPartition_eq hd hp] at call
      cases call
      exact at_g
    refine List.ext_getElem (by simp) fun i hi _ => ?_
    rw [List.length_map] at hi
    obtain ⟨inside, same⟩ := List.getElem?_eq_some_iff.mp (own _ (List.getElem_mem hi))
    rw [List.getElem_map, List.getElem_range]
    exact (List.Nodup.getElem_inj_iff (List.Nodup.of_map _ distinct)).mp same
  · intro positions d dev p part hd hp
    refine ⟨part.global_id_, siftDeviceGetPartition_eq hd hp, ?_⟩
    have member := (mem_partitions_iff h part).mpr ⟨d, dev, hd, List.mem_of_getElem? hp⟩
    obtain ⟨i, hi⟩ := List.getElem?_of_mem member
    obtain ⟨inside, _⟩ := List.getElem?_eq_some_iff.mp hi
    have id : part.global_id_ = i := by
      have at_i : (eng.partitions_.map Partition.global_id_)[i]? = some part.global_id_ := by
        rw [List.getElem?_map, hi]
        rfl
      rw [positions, List.getElem?_range inside] at at_i
      exact (Option.some.inj at_i).symm
    rw [id, hi]

theorem device_partitions (h : makeEngine m nodes = .ok eng) {d k : Nat} {dev : Device}
    (at_k : (deviceKeys nodes)[d]? = some k) (hd : eng.devices_[d]? = some dev) :
    (dev.partitions_ ≠ [] ↔ keeps m nodes k) ∧
      ∀ part ∈ dev.partitions_, part.dev_ = (firsts ((gpus nodes).map keyOf)).idxOf k := by
  obtain ⟨k', at_k', made⟩ := (device_built h d).1 dev hd
  obtain rfl : k' = k := Option.some.inj (at_k'.symm.trans at_k)
  have shape := (makeDevice_ok made).2
  change _ = if keeps m nodes k' then _ else _ at shape
  have some_node : (builderOf (gpus nodes) k').nodes ≠ [] := by
    obtain ⟨p, hp, same⟩ := List.mem_map.mp ((mem_deviceKeys k').mp (List.mem_of_getElem? at_k))
    obtain ⟨i, hi⟩ := List.getElem?_of_mem hp
    have member : (p, i) ∈ (builderOf (gpus nodes) k').nodes :=
      List.mem_filter.mpr ⟨List.mk_mem_zipIdx_iff_getElem?.mpr hi, by simpa using same⟩
    exact List.ne_nil_of_mem member
  constructor
  · constructor
    · intro some_part
      by_contra left_out
      rw [if_neg left_out] at shape
      exact some_part (List.map_eq_nil_iff.mp shape)
    · intro kept empty
      rw [if_pos kept, empty] at shape
      exact some_node (List.map_eq_nil_iff.mp shape.symm)
  · intro part hp
    have member : (part.dev_, part.global_id_) ∈
        dev.partitions_.map fun p => (p.dev_, p.global_id_) := List.mem_map.mpr ⟨part, hp, rfl⟩
    rw [shape] at member
    split at member
    · obtain ⟨n, _, same⟩ := List.mem_map.mp member
      exact (congrArg Prod.fst same).symm
    · cases member

theorem device_handles_iff (h : makeEngine m nodes = .ok eng) :
    (∀ (h : Nat) part (d : Nat) dev, eng.partitions_[h]? = some part → eng.devices_[d]? = some dev →
      part ∈ dev.partitions_ → siftPartitionGetDevice eng h = some (.success, some d)) ↔
    ∀ k ∈ (gpus nodes).map keyOf, keeps m nodes k →
      (firsts ((gpus nodes).map keyOf)).idxOf k = (deviceKeys nodes).idxOf k := by
  have nodup : (deviceKeys nodes).Nodup := (enumerate (nodePtrs nodes)).builders.keys_nodup
  have call : ∀ (h : Nat) part, eng.partitions_[h]? = some part →
      siftPartitionGetDevice eng h = some (.success, some part.dev_) := by
    intro h part hp
    simp only [siftPartitionGetDevice, hp]
    rfl
  have place : ∀ (d k : Nat), (deviceKeys nodes)[d]? = some k → (deviceKeys nodes).idxOf k = d := by
    intro d k hk
    obtain ⟨hd, rfl⟩ := List.getElem?_eq_some_iff.mp hk
    exact nodup.idxOf_getElem d hd
  constructor
  · intro handles k member kept
    obtain ⟨d, at_k⟩ := List.getElem?_of_mem ((mem_deviceKeys k).mpr member)
    obtain ⟨dev, hd, _⟩ := (device_built h d).2 k at_k
    obtain ⟨some_part, numbers⟩ := device_partitions h at_k hd
    obtain ⟨part, hp⟩ := List.exists_mem_of_ne_nil _ (some_part.mpr kept)
    obtain ⟨i, hi⟩ := List.getElem?_of_mem ((mem_partitions_iff h part).mpr ⟨d, dev, hd, hp⟩)
    have right := handles i part d dev hi hd hp
    rw [call i part hi] at right
    cases right
    rw [place _ k at_k, numbers part hp]
  · intro indices i part d dev hi hd hp
    obtain ⟨k, at_k, _⟩ := (device_built h d).1 dev hd
    obtain ⟨some_part, numbers⟩ := device_partitions h at_k hd
    have kept := some_part.mp (List.ne_nil_of_mem hp)
    have member := (mem_deviceKeys k).mp (List.mem_of_getElem? at_k)
    rw [call i part hi, numbers part hp, indices k member kept, place d k at_k]

/-- The nodes that become partitions come in the order of their devices' keys, and those of
devices that stay empty come last. -/
def InOrder (m : Machine) (nodes : List KFDNode) : Prop :=
  (gpus nodes).Pairwise fun a b => (keeps m nodes (keyOf b) → keeps m nodes (keyOf a)) ∧
    (keeps m nodes (keyOf a) → keyOf a ≤ keyOf b)

theorem handles_denote_iff (h : makeEngine m nodes = .ok eng) :
    HandlesDenote eng ↔ InOrder m nodes := by
  have order : InOrder m nodes ↔ Aligned (keeps m nodes) ((gpus nodes).map keyOf) :=
    (@List.pairwise_map _ _ keyOf (fun x y => (keeps m nodes y → keeps m nodes x) ∧
      (keeps m nodes x → x ≤ y)) (gpus nodes)).symm
  have increasing : (deviceKeys nodes).Pairwise (· < ·) :=
    (enumerate (nodePtrs nodes)).builders.keys_sorted
  have length : eng.partitions_.length =
      (grouped (keeps m nodes) ((gpus nodes).map keyOf) (deviceKeys nodes)).length := by
    have ids := congrArg List.length (global_ids h)
    rwa [List.length_map, List.length_map] at ids
  rw [order, ← aligned_iff increasing mem_deviceKeys, ← length, ← global_ids h,
    ← partition_handles_iff h, ← device_handles_iff h]
  exact ⟨fun handles => ⟨handles.partition, handles.device⟩,
    fun handles => ⟨handles.1, handles.2⟩⟩

end

def bareMachine : Machine := ⟨fun _ _ => .ok none, fun minor => some minor.toNat, fun _ => .ok none⟩

def swappedNodes : List KFDNode :=
  [⟨4#64, 0x4100#64, 0#64, 1#64, 128#64⟩, ⟨4#64, 0x0300#64, 0#64, 1#64, 129#64⟩]

def swappedEngine : Engine :=
  let low : Partition := ⟨1, 1, 0, 1, 129, [0], none⟩
  let high : Partition := ⟨0, 0, 0, 0, 128, [0], none⟩
  ⟨[⟨1, 0#32, 0x0300#16, [low]⟩, ⟨0, 0#32, 0x4100#16, [high]⟩], [low, high]⟩

theorem handles_denote_swapped :
    HandlesDenote swappedEngine ↔ InOrder bareMachine swappedNodes :=
  handles_denote_iff (rfl : makeEngine bareMachine swappedNodes = .ok swappedEngine)

/-- The handle of the only partition of device 0 leads to the partition of the other device. -/
theorem swapped_handles_wrong :
    makeEngine bareMachine swappedNodes = .ok swappedEngine ∧ ¬ HandlesDenote swappedEngine := by
  refine ⟨rfl, fun handles => ?_⟩
  obtain ⟨h, call, at_h⟩ := handles.partition 0 _ 0 _ rfl rfl
  cases call
  exact absurd at_h (by decide)

end Rocsift.Sift
