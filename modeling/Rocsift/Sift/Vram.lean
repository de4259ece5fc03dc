import Rocsift.Sift.Engine

/-! Reads and writes of hive VRAM. Both functions of partition.cc turn an address of the hive into
a member and an address in its memory, each with a loop of its own. A call is followed up to the
VRAM file it uses; what the file does with it is not. -/
namespace Rocsift.Sift

structure DRMNode where
  card_name : String
  total_vram_bytes : BitVec 64
  hive_id : BitVec 64
  device_id : BitVec 64
  nodes : List Nat

inductive VramAccess where
  /-- `p->amdgpu_debugfs_->VRAM()` at an address. -/
  | reached (p : Partition) (address : BitVec 64)
  | thrown (status : SiftStatus)
  /-- The handle of `p` is null. -/
  | undefined (p : Partition)
  deriving DecidableEq

def Partition.vram (p : Partition) (address : BitVec 64) : VramAccess :=
  match p.amdgpu_debugfs_ with
  | some _ => .reached p address
  | none => .undefined p

def gib : BitVec 64 := 1#64 <<< 30

/-- What a member takes of the address space of the hive: its memory, rounded up to a GiB. -/
def takenBytes (vram_size : BitVec 64) : BitVec 64 := gib * ((vram_size + gib - 1#64) / gib)

section
variable (drm : Nat → DRMNode) (eng : Engine)

def partitionOf (n : Nat) : Option Partition :=
  eng.partitions_.find? fun p => (drm p.drmnode_).device_id = (drm n).device_id

namespace Partition
variable (p : Partition)

def readMember : List Nat → BitVec 64 → VramAccess
  | [], _ => .thrown .outOfRange
  | n :: nodes, address =>
    let vram_size := (drm n).total_vram_bytes
    if address < vram_size then
      if (drm n).card_name = (drm p.drmnode_).card_name then p.vram address
      else match partitionOf drm eng n with
        | some q => q.vram address
        | none => .thrown .outOfRange
    else readMember nodes (address - takenBytes vram_size)

def readVRAM (address : BitVec 64) : VramAccess :=
  if p.amdgpu_debugfs_ = none then .thrown .notPrivileged
  else if (drm p.drmnode_).hive_id = 0#64 then p.vram address
  else p.readMember drm eng (drm p.drmnode_).nodes address

def writeMember : List Nat → BitVec 64 → VramAccess
  | [], _ => .thrown .outOfRange
  | n :: nodes, address =>
    let vram_size := (drm n).total_vram_bytes
    if address < vram_size then
      match partitionOf drm eng n with
      | some q => q.vram address
      | none => .thrown .outOfRange
    else writeMember nodes (address - takenBytes vram_size)

def writeVRAM (address : BitVec 64) : VramAccess :=
  if p.amdgpu_debugfs_ = none then .thrown .notPrivileged
  else if (drm p.drmnode_).hive_id = 0#64 then p.vram address
  else writeMember drm eng (drm p.drmnode_).nodes address

end Partition

end

/-- Partitions and DRM nodes that fit together: partitions with one device id are of one GPU, and
where the card of a partition is a member of its hive, both have the same device id. -/
structure Topology where
  drm : Nat → DRMNode
  eng : Engine
  same_gpu : ∀ p ∈ eng.partitions_, ∀ q ∈ eng.partitions_,
    (drm p.drmnode_).device_id = (drm q.drmnode_).device_id → p.dev_ = q.dev_
  own_card : ∀ p ∈ eng.partitions_, ∀ n ∈ (drm p.drmnode_).nodes,
    (drm n).card_name = (drm p.drmnode_).card_name →
      (drm n).device_id = (drm p.drmnode_).device_id

inductive Alike : VramAccess → VramAccess → Prop
  | reached {p q : Partition} (address : BitVec 64) (same : p.dev_ = q.dev_) :
      Alike (.reached p address) (.reached q address)
  | outOfRange : Alike (.thrown .outOfRange) (.thrown .outOfRange)

section
variable {p : Partition} {address : BitVec 64}

theorem Partition.vram_cases (p : Partition) (address : BitVec 64) :
    p.vram address = .reached p address ∨ p.vram address = .undefined p := by
  unfold Partition.vram
  split
  · exact Or.inl rfl
  · exact Or.inr rfl

theorem Partition.vram_alike {q : Partition} (handle : p.amdgpu_debugfs_ ≠ none)
    (same : p.dev_ = q.dev_) :
    Alike (p.vram address) (q.vram address) ∨ q.vram address = .undefined q := by
  obtain ⟨dir, own⟩ := Option.ne_none_iff_exists'.mp handle
  have here : p.vram address = .reached p address := by
    simp only [Partition.vram, own]
  rw [here]
  apply (q.vram_cases address).imp_left
  intro there
  rw [there]
  exact .reached address same

end

namespace Topology
variable (t : Topology) {p : Partition}

theorem partitionOf_own (member : p ∈ t.eng.partitions_) {n : Nat}
    (own : n ∈ (t.drm p.drmnode_).nodes)
    (card : (t.drm n).card_name = (t.drm p.drmnode_).card_name) :
    ∃ q, partitionOf t.drm t.eng n = some q ∧ p.dev_ = q.dev_ := by
  have id := t.own_card p member n own card
  cases found : partitionOf t.drm t.eng n with
  | none =>
    have none := List.find?_eq_none.mp found p member
    exact absurd id.symm (of_decide_eq_false (Bool.eq_false_iff.mpr none))
  | some q =>
    have other := of_decide_eq_true (List.find?_some (p := fun r : Partition =>
      decide ((t.drm r.drmnode_).device_id = (t.drm n).device_id)) found)
    have partition := List.mem_of_find?_eq_some found
    exact ⟨q, rfl, t.same_gpu p member q partition (id.symm.trans other.symm)⟩

theorem members_alike (member : p ∈ t.eng.partitions_) (handle : p.amdgpu_debugfs_ ≠ none)
    (nodes : List Nat) (hive : ∀ n ∈ nodes, n ∈ (t.drm p.drmnode_).nodes) (address : BitVec 64) :
    Alike (p.readMember t.drm t.eng nodes address)
        (Partition.writeMember t.drm t.eng nodes address) ∨
      ∃ q, Partition.writeMember t.drm t.eng nodes address = .undefined q := by
  induction nodes generalizing address with
  | nil => exact Or.inl .outOfRange
  | cons n nodes ih =>
    obtain ⟨here, later⟩ := List.forall_mem_cons.mp hive
    unfold Partition.readMember Partition.writeMember
    by_cases inside : address < (t.drm n).total_vram_bytes
    · simp only [if_pos inside]
      by_cases card : (t.drm n).card_name = (t.drm p.drmnode_).card_name
      · obtain ⟨q, found, same⟩ := t.partitionOf_own member here card
        simp only [if_pos card, found]
        exact (Partition.vram_alike handle same).imp_right fun missing => ⟨q, missing⟩
      · simp only [if_neg card]
        cases found : partitionOf t.drm t.eng n with
        | none => exact Or.inl .outOfRange
        | some q =>
          rcases q.vram_cases address with reached | missing
          · simp only [reached]
            exact Or.inl (.reached address rfl)
          · exact Or.inr ⟨q, missing⟩
    · simp only [if_neg inside]
      exact ih later _

/-- Without a handle of its own a partition throws for reads and for writes; with one, both come
to the VRAM of one GPU at one address or are both out of range, unless the write comes to a
partition without a handle. -/
theorem read_write_alike (member : p ∈ t.eng.partitions_) (address : BitVec 64) :
    (p.amdgpu_debugfs_ = none →
      p.readVRAM t.drm t.eng address = .thrown .notPrivileged ∧
        p.writeVRAM t.drm t.eng address = .thrown .notPrivileged) ∧
    (p.amdgpu_debugfs_ ≠ none → (∀ q, p.writeVRAM t.drm t.eng address ≠ .undefined q) →
      Alike (p.readVRAM t.drm t.eng address) (p.writeVRAM t.drm t.eng address)) := by
  constructor
  · intro none
    exact ⟨if_pos none, if_pos none⟩
  · intro handle defined
    unfold Partition.readVRAM Partition.writeVRAM at *
    simp only [if_neg handle] at *
    by_cases alone : (t.drm p.drmnode_).hive_id = 0#64
    · simp only [if_pos alone] at *
      exact (Partition.vram_alike handle rfl).resolve_right (defined p)
    · simp only [if_neg alone] at *
      apply (t.members_alike member handle _ (fun _ hn => hn) address).resolve_right
      exact fun ⟨q, missing⟩ => defined q missing

end Topology

def pairOf (handle : Option Nat) : Topology where
  drm n := ⟨if n = 0 then "card0" else "card1", 0x40000000#64, 1#64,
    if n = 0 then 10#64 else 11#64, [0, 1]⟩
  eng := ⟨[], [⟨0, 0, 0, 0, 0, [0], handle⟩, ⟨1, 1, 0, 1, 1, [0], some 1⟩]⟩
  same_gpu := by
    simp only [List.forall_mem_cons]
    decide
  own_card := by
    simp only [List.forall_mem_cons]
    decide

theorem read_write_alike_pair :
    let p : Partition := ⟨0, 0, 0, 0, 0, [0], some 0⟩
    let t := pairOf (some 0)
    Alike (p.readVRAM t.drm t.eng 0x40001000#64) (p.writeVRAM t.drm t.eng 0x40001000#64) := by
  intro p t
  have reached : p.writeVRAM t.drm t.eng 0x40001000#64 =
      .reached ⟨1, 1, 0, 1, 1, [0], some 1⟩ 0x1000#64 := by decide
  apply (t.read_write_alike (p := p) List.mem_cons_self _).2 (Option.some_ne_none 0)
  intro q
  rw [reached]
  exact VramAccess.noConfusion

theorem unprivileged_partition :
    let p : Partition := ⟨0, 0, 0, 0, 0, [0], none⟩
    let t := pairOf none
    p ∈ t.eng.partitions_ ∧
      ¬Alike (p.readVRAM t.drm t.eng 0x1000#64) (p.writeVRAM t.drm t.eng 0x1000#64) := by
  intro p t
  refine ⟨List.mem_cons_self, fun alike => ?_⟩
  have thrown : p.readVRAM t.drm t.eng 0x1000#64 = .thrown .notPrivileged := rfl
  rw [thrown] at alike
  cases alike

end Rocsift.Sift
