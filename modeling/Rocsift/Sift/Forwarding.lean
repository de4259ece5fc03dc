import Rocsift.Sift.Hive

/-! The handle that an access in a hive goes through. The guard at the entry looks at the partition
that is called; the loop may forward the access to another one, whose handle was resolved on its
own. -/
namespace Rocsift.Sift

def VramAccess.Sound : VramAccess → Prop
  | .reached q _ => q.amdgpu_debugfs_ ≠ none
  | .thrown _ => True
  | .undefined _ => False

theorem Partition.vram_sound_iff (q : Partition) (address : BitVec 64) :
    (q.vram address).Sound ↔ q.amdgpu_debugfs_ ≠ none := by
  unfold Partition.vram
  split
  · rename_i handle
    exact ⟨id, id⟩
  · rename_i missing
    exact ⟨False.elim, fun handle => handle missing⟩

section
variable (drm : Nat → DRMNode) (eng : Engine)

structure Serves (n : Nat) (q : Partition) : Prop where
  same_id : (drm q.drmnode_).device_id = (drm n).device_id
  first : ∃ before after, eng.partitions_ = before ++ q :: after ∧
    ∀ r ∈ before, (drm r.drmnode_).device_id ≠ (drm n).device_id

/-- The member that an address falls in: the first one that is larger than what is left of the
address when each member before it is taken off, rounded up to GiB, in 64 bits. -/
def FallsIn (nodes : List Nat) (address : BitVec 64) (n : Nat) : Prop :=
  ∃ m, PaddedBlocks.First (vramSize drm) (fun n => takenBytes (vramSize drm n)) nodes address m ∧
    m.item = n

def forward (n : Nat) (address : BitVec 64) : VramAccess :=
  match partitionOf drm eng n with
  | some q => q.vram address
  | none => .thrown .outOfRange

theorem partitionOf_iff (n : Nat) (q : Partition) :
    partitionOf drm eng n = some q ↔ Serves drm eng n q := by
  rw [partitionOf, List.find?_eq_some_iff_append]
  simp only [decide_eq_true_eq, Bool.not_eq_true', decide_eq_false_iff_not]
  constructor
  · rintro ⟨same, first⟩
    exact ⟨same, first⟩
  · rintro ⟨same, first⟩
    exact ⟨same, first⟩

theorem forward_sound_iff (n : Nat) (address : BitVec 64) :
    (forward drm eng n address).Sound ↔
      ∀ q, Serves drm eng n q → q.amdgpu_debugfs_ ≠ none := by
  simp only [forward, ← partitionOf_iff]
  cases partitionOf drm eng n with
  | none => exact ⟨fun _ _ served => (nomatch served), fun _ => trivial⟩
  | some r =>
    rw [r.vram_sound_iff]
    constructor
    · intro handle q served
      exact Option.some.inj served ▸ handle
    · intro handles
      exact handles r rfl

theorem writeMember_eq (nodes : List Nat) (address : BitVec 64) :
    Partition.writeMember drm eng nodes address =
      match selectMember drm nodes address with
      | some m => forward drm eng m.item m.offset
      | none => .thrown .outOfRange :=
  walk_selected drm _ _ (fun _ => rfl) (fun _ _ _ => rfl) nodes address

theorem selected_sound_iff (nodes : List Nat) (address : BitVec 64)
    (access : Nat → BitVec 64 → VramAccess) (sound : Nat → Prop)
    (own : ∀ n offset, (access n offset).Sound ↔ sound n) :
    (match selectMember drm nodes address with
      | some m => access m.item m.offset
      | none => .thrown .outOfRange).Sound ↔
      ∀ n, FallsIn drm nodes address n → sound n := by
  have falls : ∀ m, selectMember drm nodes address = some m ↔ PaddedBlocks.First (vramSize drm)
      (fun n => takenBytes (vramSize drm n)) nodes address m :=
    PaddedBlocks.select_first_iff _ _ nodes address
  constructor
  · rintro through n ⟨m, first, rfl⟩
    rw [(falls m).mpr first] at through
    exact (own _ _).mp through
  · intro all
    cases found : selectMember drm nodes address with
    | none => trivial
    | some m => exact (own _ _).mpr (all m.item ⟨m, (falls m).mp found, rfl⟩)

namespace Partition
variable (p : Partition) (address : BitVec 64)

structure InHive : Prop where
  handle : p.amdgpu_debugfs_ ≠ none
  hive : (drm p.drmnode_).hive_id ≠ 0#64

theorem guarded_sound_iff (member : VramAccess) :
    (if p.amdgpu_debugfs_ = none then VramAccess.thrown .notPrivileged
      else if (drm p.drmnode_).hive_id = 0#64 then p.vram address
      else member).Sound ↔ (p.InHive drm → member.Sound) := by
  by_cases handle : p.amdgpu_debugfs_ = none
  · rw [if_pos handle]
    exact ⟨fun _ inHive => absurd handle inHive.handle, fun _ => trivial⟩
  · rw [if_neg handle]
    by_cases alone : (drm p.drmnode_).hive_id = 0#64
    · rw [if_pos alone, p.vram_sound_iff]
      exact ⟨fun _ inHive => absurd alone inHive.hive, fun _ => handle⟩
    · rw [if_neg alone]
      exact ⟨fun sound _ => sound, fun sound => sound ⟨handle, alone⟩⟩

/-- A read uses no missing handle exactly if the member that its address falls in is the card of
the partition itself or is served by a partition with a handle; a write, which forwards the
accesses to its own card too, exactly if the member is served by a partition with a handle. -/
theorem handles_exist_iff :
    ((p.readVRAM drm eng address).Sound ↔
      (p.InHive drm → ∀ n, FallsIn drm (drm p.drmnode_).nodes address n →
        (drm n).card_name ≠ (drm p.drmnode_).card_name →
          ∀ q, Serves drm eng n q → q.amdgpu_debugfs_ ≠ none)) ∧
    ((p.writeVRAM drm eng address).Sound ↔
      (p.InHive drm → ∀ n, FallsIn drm (drm p.drmnode_).nodes address n →
        ∀ q, Serves drm eng n q → q.amdgpu_debugfs_ ≠ none)) := by
  constructor
  · rw [readVRAM, p.guarded_sound_iff, readMember_eq]
    refine forall_congr' fun inHive => ?_
    refine selected_sound_iff drm _ address (p.readLocal drm eng) _ fun n offset => ?_
    by_cases card : (drm n).card_name = (drm p.drmnode_).card_name
    · rw [readLocal, if_pos card, p.vram_sound_iff]
      exact ⟨fun _ other => absurd card other, fun _ => inHive.handle⟩
    · rw [readLocal, if_neg card]
      exact (forward_sound_iff drm eng n offset).trans
        ⟨fun served _ => served, fun served => served card⟩
  · rw [writeVRAM, p.guarded_sound_iff, writeMember_eq]
    refine forall_congr' fun _ => ?_
    exact selected_sound_iff drm _ address (forward drm eng) _ (forward_sound_iff drm eng)

end Partition

end

def halfMachine : Machine where
  ip_discovery _ _ := .ok none
  node_by_name minor := some (minor.toNat - 128)
  resolve_debugfs node := .ok (if node = 0 then some 0 else none)

theorem missing_handle_used :
    let nodes : List KFDNode :=
      [⟨4#64, 0x0300#64, 0#64, 1#64, 128#64⟩, ⟨4#64, 0x4100#64, 0#64, 1#64, 129#64⟩]
    let p : Partition := ⟨0, 0, 0, 0, 0, [0], some 0⟩
    let q : Partition := ⟨1, 1, 0, 1, 1, [0], none⟩
    let drm := (pairOf none).drm
    ∃ eng, makeEngine halfMachine nodes = .ok eng ∧ p ∈ eng.partitions_ ∧
      p.readVRAM drm eng 0x40001000#64 = .undefined q ∧
      p.writeVRAM drm eng 0x40001000#64 = .undefined q ∧
      ¬(p.readVRAM drm eng 0x40001000#64).Sound := by
  intro nodes p q drm
  refine ⟨⟨[⟨0, 0#32, 0x0300#16, [p]⟩, ⟨1, 0#32, 0x4100#16, [q]⟩], [p, q]⟩, rfl,
    List.mem_cons_self, by decide, by decide, ?_⟩
  have used : p.readVRAM drm ⟨[⟨0, 0#32, 0x0300#16, [p]⟩, ⟨1, 0#32, 0x4100#16, [q]⟩], [p, q]⟩
      0x40001000#64 = .undefined q := by decide
  rw [used]
  exact id

end Rocsift.Sift
