import Rocsift.Drm.RenderNodes
import Rocsift.Sift.Forwarding
import Rocsift.Sift.Members

/-! The VRAM of a hive as the partitions of its GPUs see it: the engine, built on the DRM nodes that
are found by the names of render nodes, and the bytes behind the VRAM files. -/
namespace Rocsift.Sift

/-- The engine of a machine with hives. Partitions have one device id exactly if they are of one
GPU, and it is that of their card; the cards of a hive have different ones. -/
structure HiveSystem where
  hives : Drm.HiveTopology
  std_sort : Sorting.Sorter Nat Nat
  card_name : Nat → String
  total_vram_bytes : Nat → BitVec 64
  m : Machine
  nodes : List KFDNode
  eng : Engine
  built : makeEngine m nodes = .ok eng
  by_name : ∀ minor, m.node_by_name minor = Drm.nodeByName hives.root (Drm.renderName minor)
  same_gpu : ∀ p ∈ eng.partitions_, ∀ q ∈ eng.partitions_,
    (Drm.makeDRM hives.root std_sort p.drmnode_).device_id =
      (Drm.makeDRM hives.root std_sort q.drmnode_).device_id ↔ p.dev_ = q.dev_
  own_card : ∀ p ∈ eng.partitions_, ∀ n ∈ (Drm.makeDRM hives.root std_sort p.drmnode_).nodes,
    card_name n = card_name p.drmnode_ →
      (Drm.makeDRM hives.root std_sort n).device_id =
        (Drm.makeDRM hives.root std_sort p.drmnode_).device_id
  cards_apart : ∀ hive c d id id', Drm.HiveCard hives.root hive c id →
    Drm.HiveCard hives.root hive d id' →
    (Drm.makeDRM hives.root std_sort c).device_id =
      (Drm.makeDRM hives.root std_sort d).device_id → c = d

abbrev VramBytes := Nat → BitVec 64 → BitVec 8

namespace VramAccess

def load (mem : VramBytes) : VramAccess → Option (BitVec 8)
  | .reached p address => some (mem p.dev_ address)
  | _ => none

def store (v : BitVec 8) (mem : VramBytes) : VramAccess → VramBytes
  | .reached p address => Function.update mem p.dev_ (Function.update (mem p.dev_) address v)
  | _ => mem

end VramAccess

namespace HiveSystem
variable (s : HiveSystem)

def drm (n : Nat) : DRMNode :=
  let xgmi := Drm.makeDRM s.hives.root s.std_sort n
  ⟨s.card_name n, s.total_vram_bytes n, xgmi.hive_id, xgmi.device_id, xgmi.nodes⟩

structure InHive (hive : BitVec 64) (p : Partition) : Prop where
  member : p ∈ s.eng.partitions_
  files : ∃ f, Drm.InHive s.hives.root hive p.drmnode_ f
  hive : hive ≠ 0#64

def topology : Topology where
  drm := s.drm
  eng := s.eng
  same_gpu := fun p hp q hq same => (s.same_gpu p hp q hq).mp same
  own_card := s.own_card

section
variable {s} {hive : BitVec 64} {p q : Partition}

theorem InHive.members (here : s.InHive hive p) :
    Drm.MembersInOrder s.hives.root (Drm.makeDRM s.hives.root s.std_sort) hive p.drmnode_ := by
  obtain ⟨f, inHive⟩ := here.files
  obtain ⟨ptr, made⟩ := partition_made s.built here.member
  have found := made.drm
  rw [s.by_name] at found
  exact s.hives.render_in_order s.std_sort found inHive

theorem InHive.hive_id (here : s.InHive hive p) : (s.drm p.drmnode_).hive_id ≠ 0#64 := by
  obtain ⟨f, inHive⟩ := here.files
  have id := Drm.makeDRM_hive_id s.hives.root s.std_sort inHive
  exact fun zero => here.hive (id.symm.trans zero)

theorem InHive.same_members (here : s.InHive hive p) (there : s.InHive hive q) :
    (s.drm p.drmnode_).nodes = (s.drm q.drmnode_).nodes :=
  s.hives.members_unique s.std_sort here.members there.members

structure Reaches (s : HiveSystem) (nodes : List Nat) (a : BitVec 64) (r : Partition)
    (address : BitVec 64) (m : PaddedBlocks.Selected Nat 64) : Prop where
  selected : selectMember s.drm nodes a = some m
  address : m.offset = address
  partition : r ∈ s.eng.partitions_
  same_id : (s.drm r.drmnode_).device_id = (s.drm m.item).device_id

theorem vram_reached {r q : Partition} {offset address : BitVec 64}
    (reached : q.vram offset = .reached r address) : q = r ∧ offset = address := by
  rcases q.vram_cases offset with through | missing
  · exact VramAccess.reached.inj (through.symm.trans reached)
  · cases missing.symm.trans reached

theorem forward_reaches {nodes : List Nat} {a address : BitVec 64}
    {m : PaddedBlocks.Selected Nat 64} {r : Partition}
    (selected : selectMember s.drm nodes a = some m)
    (reached : forward s.drm s.eng m.item m.offset = .reached r address) :
    Reaches s nodes a r address m := by
  unfold forward at reached
  cases found : partitionOf s.drm s.eng m.item with
  | none =>
    rw [found] at reached
    cases reached
  | some q =>
    rw [found] at reached
    obtain ⟨rfl, rfl⟩ := vram_reached reached
    have serves := (partitionOf_iff s.drm s.eng m.item q).mp found
    exact ⟨selected, rfl, List.mem_of_find?_eq_some found, serves.same_id⟩

theorem write_reaches (here : s.InHive hive p) {a address : BitVec 64} {r : Partition}
    (reached : p.writeVRAM s.drm s.eng a = .reached r address) :
    ∃ m, Reaches s (s.drm p.drmnode_).nodes a r address m := by
  unfold Partition.writeVRAM at reached
  split at reached
  · cases reached
  · rw [if_neg here.hive_id, writeMember_eq] at reached
    cases selected : selectMember s.drm (s.drm p.drmnode_).nodes a with
    | none =>
      rw [selected] at reached
      cases reached
    | some m =>
      rw [selected] at reached
      exact ⟨m, forward_reaches selected reached⟩

theorem mem_of_selected {nodes : List Nat} {a : BitVec 64} {m : PaddedBlocks.Selected Nat 64}
    (selected : selectMember s.drm nodes a = some m) : nodes[m.place]? = some m.item :=
  ((PaddedBlocks.select_first_iff _ _ nodes a m).mp selected).item

theorem read_reaches (here : s.InHive hive p) {a address : BitVec 64} {r : Partition}
    (reached : p.readVRAM s.drm s.eng a = .reached r address) :
    ∃ m, Reaches s (s.drm p.drmnode_).nodes a r address m := by
  unfold Partition.readVRAM at reached
  split at reached
  · cases reached
  · rw [if_neg here.hive_id, readMember_eq] at reached
    cases selected : selectMember s.drm (s.drm p.drmnode_).nodes a with
    | none =>
      rw [selected] at reached
      cases reached
    | some m =>
      rw [selected] at reached
      have member := List.mem_of_getElem? (mem_of_selected selected)
      refine ⟨m, ?_⟩
      by_cases card : (s.drm m.item).card_name = (s.drm p.drmnode_).card_name
      · simp only [Partition.readLocal, if_pos card] at reached
        obtain ⟨rfl, rfl⟩ := vram_reached reached
        exact ⟨selected, rfl, here.member, (s.own_card p here.member _ member card).symm⟩
      · simp only [Partition.readLocal, if_neg card] at reached
        exact forward_reaches selected reached

theorem reaches_injective (here : s.InHive hive p)
    (fits : hiveBytes s.drm (s.drm p.drmnode_).nodes < 2 ^ 63) {a b : BitVec 64}
    {address : BitVec 64} {r r' : Partition} {m m' : PaddedBlocks.Selected Nat 64}
    (at_a : Reaches s (s.drm p.drmnode_).nodes a r address m)
    (at_b : Reaches s (s.drm p.drmnode_).nodes b r' address m') (same : r.dev_ = r'.dev_) :
    a = b := by
  have member := mem_of_selected at_a.selected
  have member' := mem_of_selected at_b.selected
  have id := (s.same_gpu r at_a.partition r' at_b.partition).mpr same
  obtain ⟨_, card⟩ := (here.members.members m.item).mp (List.mem_of_getElem? member)
  obtain ⟨_, card'⟩ := (here.members.members m'.item).mp (List.mem_of_getElem? member')
  have item : m.item = m'.item := s.cards_apart hive _ _ _ _ card card'
    (at_a.same_id.symm.trans (id.trans at_b.same_id))
  obtain ⟨inside, here_m⟩ := List.getElem?_eq_some_iff.mp member
  obtain ⟨inside', here_m'⟩ := List.getElem?_eq_some_iff.mp member'
  have place : m.place = m'.place := (List.Nodup.getElem_inj_iff here.members.once).mp
    (here_m.trans (item.trans here_m'.symm))
  exact PaddedBlocks.select_injective (hive_padded fits) (hive_room fits) at_a.selected
    at_b.selected place (at_a.address.trans at_b.address.symm)

theorem routed_alike (here : s.InHive hive p) (there : s.InHive hive q)
    (handles : ∀ r ∈ s.eng.partitions_, r.amdgpu_debugfs_ ≠ none) (a : BitVec 64) :
    Alike (q.readVRAM s.drm s.eng a) (p.writeVRAM s.drm s.eng a) := by
  have same := here.same_members there
  rw [Partition.readVRAM, if_neg (handles q there.member), if_neg there.hive_id,
    Partition.writeVRAM, if_neg (handles p here.member), if_neg here.hive_id, same]
  apply (s.topology.members_alike there.member (handles q there.member) _ (fun _ hn => hn)
    a).resolve_right
  rintro ⟨r, missing⟩
  have sound : (Partition.writeMember s.drm s.eng (s.drm q.drmnode_).nodes a).Sound := by
    rw [writeMember_eq]
    cases selectMember s.drm (s.drm q.drmnode_).nodes a with
    | none => trivial
    | some m =>
      refine (forward_sound_iff s.drm s.eng m.item m.offset).mpr fun r serves => ?_
      exact handles r (List.mem_of_find?_eq_some ((partitionOf_iff s.drm s.eng _ r).mpr serves))
  change Partition.writeMember s.drm s.eng (s.drm q.drmnode_).nodes a = .undefined r at missing
  rw [missing] at sound
  exact sound

end

end HiveSystem

/-- A hive is one memory: what one partition writes at an address is what another one reads there,
and all other addresses read as before. -/
theorem hive_read_after_write (s : HiveSystem) (hive : BitVec 64) (p q : Partition)
    (here : s.InHive hive p) (there : s.InHive hive q)
    (handles : ∀ r ∈ s.eng.partitions_, r.amdgpu_debugfs_ ≠ none)
    (fits : hiveBytes s.drm (s.drm p.drmnode_).nodes < 2 ^ 63) (mem : VramBytes)
    (a b : BitVec 64) (v : BitVec 8) :
    (q.readVRAM s.drm s.eng b).load ((p.writeVRAM s.drm s.eng a).store v mem) =
      if b = a then ((q.readVRAM s.drm s.eng b).load mem).map fun _ => v
      else (q.readVRAM s.drm s.eng b).load mem := by
  split
  · rename_i same
    have alike := HiveSystem.routed_alike here there handles a
    rw [← same] at alike ⊢
    generalize q.readVRAM s.drm s.eng b = read, p.writeVRAM s.drm s.eng b = write at alike
    cases alike with
    | reached address gpu =>
      simp only [VramAccess.load, VramAccess.store, gpu, Function.update_self, Option.map_some]
    | outOfRange => rfl
  · rename_i other
    cases write : p.writeVRAM s.drm s.eng a with
    | thrown status => rfl
    | undefined r => rfl
    | reached r address =>
      cases read : q.readVRAM s.drm s.eng b with
      | thrown status => rfl
      | undefined r' => rfl
      | reached r' address' =>
        obtain ⟨m, at_a⟩ := HiveSystem.write_reaches here write
        obtain ⟨m', at_b⟩ := HiveSystem.read_reaches there read
        rw [← here.same_members there] at at_b
        simp only [VramAccess.load, VramAccess.store]
        by_cases gpu : r'.dev_ = r.dev_
        · rw [gpu, Function.update_self]
          have apart : address' ≠ address := by
            rintro rfl
            exact other (HiveSystem.reaches_injective here fits at_a at_b gpu.symm).symm
          rw [Function.update_of_ne apart]
        · rw [Function.update_of_ne gpu]

def linkedFiles (id : Drm.Contents) : Drm.NodeFiles :=
  ⟨some id, some id, some ⟨some ['7'], [["card0", "renderD128"], ["card1", "renderD129"]]⟩⟩

def linkedRoot : OrderedMap String Drm.NodeFiles where
  entries := [("card0", linkedFiles ['1']), ("card1", linkedFiles ['2']),
    ("renderD128", linkedFiles ['1']), ("renderD129", linkedFiles ['2'])]
  sorted := by decide

theorem linkedRoot_card_iff (hive : BitVec 64) (c : Nat) (id : BitVec 64) :
    Drm.HiveCard linkedRoot hive c id ↔
      hive = 7#64 ∧ (c = 0 ∧ id = 1#64 ∨ c = 1 ∧ id = 2#64) := by
  constructor
  · rintro ⟨name, f, at_c, card, inHive, rfl⟩
    match c, at_c with
    | 0, rfl => exact ⟨(Option.some.inj inHive).symm, Or.inl ⟨rfl, rfl⟩⟩
    | 1, rfl => exact ⟨(Option.some.inj inHive).symm, Or.inr ⟨rfl, rfl⟩⟩
    | 2, rfl => exact absurd card (by decide)
    | 3, rfl => exact absurd card (by decide)
  · rintro ⟨rfl, ⟨rfl, rfl⟩ | ⟨rfl, rfl⟩⟩
    · exact ⟨"card0", linkedFiles ['1'], rfl, by decide, rfl, rfl⟩
    · exact ⟨"card1", linkedFiles ['2'], rfl, by decide, rfl, rfl⟩

theorem linkedRoot_files {hive : BitVec 64} {x : Nat} {f : Drm.NodeFiles}
    (inHive : Drm.InHive linkedRoot hive x f) : hive = 7#64 ∧ ∃ id, f = linkedFiles id := by
  obtain ⟨⟨name, at_x⟩, hive_eq⟩ := inHive
  match x, at_x with
  | 0, rfl => exact ⟨(Option.some.inj hive_eq).symm, _, rfl⟩
  | 1, rfl => exact ⟨(Option.some.inj hive_eq).symm, _, rfl⟩
  | 2, rfl => exact ⟨(Option.some.inj hive_eq).symm, _, rfl⟩
  | 3, rfl => exact ⟨(Option.some.inj hive_eq).symm, _, rfl⟩

def linkedHive : Drm.HiveTopology where
  root := linkedRoot
  listed := by
    intro hive x f hive_info inHive info
    obtain ⟨rfl, id, rfl⟩ := linkedRoot_files inHive
    cases info
    refine ⟨[0, 1], ?_, by decide, fun c => ?_⟩
    · refine .cons ⟨"card0", rfl, ?_⟩ (.cons ⟨"card1", rfl, ?_⟩ .nil)
      · simp only [List.forall_mem_cons]
        decide
      · simp only [List.forall_mem_cons]
        decide
    · simp only [linkedRoot_card_iff, List.mem_cons, List.not_mem_nil, or_false]
      constructor
      · rintro (rfl | rfl)
        · exact ⟨1#64, trivial, Or.inl ⟨rfl, rfl⟩⟩
        · exact ⟨2#64, trivial, Or.inr ⟨rfl, rfl⟩⟩
      · rintro ⟨_, -, ⟨rfl, -⟩ | ⟨rfl, -⟩⟩
        · exact Or.inl rfl
        · exact Or.inr rfl
  distinct := by
    intro hive c d id card card'
    rw [linkedRoot_card_iff] at card card'
    rcases card with ⟨-, ⟨rfl, rfl⟩ | ⟨rfl, rfl⟩⟩ <;>
      rcases card' with ⟨-, ⟨rfl, same⟩ | ⟨rfl, same⟩⟩
    · rfl
    · exact absurd same (by decide)
    · exact absurd same (by decide)
    · rfl

def linkedMachine : Machine where
  ip_discovery _ _ := .ok none
  node_by_name minor := Drm.nodeByName linkedRoot (Drm.renderName minor)
  resolve_debugfs node := .ok (some node)

def linkedSystem : HiveSystem where
  hives := linkedHive
  std_sort := Sorting.ranked id
  card_name n := if n % 2 = 0 then "card0" else "card1"
  total_vram_bytes _ := 0x40000000#64
  m := linkedMachine
  nodes := [⟨4#64, 0x0300#64, 0#64, 1#64, 128#64⟩, ⟨4#64, 0x4100#64, 0#64, 1#64, 129#64⟩]
  eng :=
    let p : Partition := ⟨0, 0, 0, 0, 2, [0], some 0⟩
    let q : Partition := ⟨1, 1, 0, 1, 3, [0], some 1⟩
    ⟨[⟨0, 0#32, 0x0300#16, [p]⟩, ⟨1, 0#32, 0x4100#16, [q]⟩], [p, q]⟩
  built := by
    rfl
  by_name _ := rfl
  same_gpu := by
    simp only [List.forall_mem_cons]
    decide
  own_card := by
    simp only [List.forall_mem_cons]
    decide
  cards_apart := by
    intro hive c d id id' card card' same
    obtain ⟨-, ⟨rfl, -⟩ | ⟨rfl, -⟩⟩ := (linkedRoot_card_iff ..).mp card <;>
      obtain ⟨-, ⟨rfl, -⟩ | ⟨rfl, -⟩⟩ := (linkedRoot_card_iff ..).mp card'
    · rfl
    · exact absurd same (by decide)
    · exact absurd same (by decide)
    · rfl

/-- The first GPU writes to the memory of the second one, which reads the byte. -/
theorem hive_read_after_write_linked :
    let p : Partition := ⟨0, 0, 0, 0, 2, [0], some 0⟩
    let q : Partition := ⟨1, 1, 0, 1, 3, [0], some 1⟩
    let s := linkedSystem
    (q.readVRAM s.drm s.eng 0x40001000#64).load
      ((p.writeVRAM s.drm s.eng 0x40001000#64).store 0x5a#8 fun _ _ => 0#8) = some 0x5a#8 := by
  intro p q s
  have here : s.InHive 7#64 p :=
    ⟨List.mem_cons_self, ⟨_, ⟨"renderD128", rfl⟩, rfl⟩, by decide⟩
  have there : s.InHive 7#64 q :=
    ⟨List.mem_cons_of_mem _ List.mem_cons_self, ⟨_, ⟨"renderD129", rfl⟩, rfl⟩, by decide⟩
  have handles : ∀ r ∈ s.eng.partitions_, r.amdgpu_debugfs_ ≠ none := by
    simp only [s, linkedSystem, List.forall_mem_cons]
    decide
  have stored := hive_read_after_write s 7#64 p q here there handles (by decide +kernel)
    (fun _ _ => 0#8) 0x40001000#64 0x40001000#64 0x5a#8
  have found : (q.readVRAM s.drm s.eng 0x40001000#64).load (fun _ _ => 0#8) = some 0#8 := by
    decide +kernel
  rw [stored, if_pos rfl, found]
  rfl

end Rocsift.Sift
