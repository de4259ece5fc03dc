import Rocsift.Sift.Interference

/-! A read or a write of a register of a partition, alone with the drivers: it comes to the register
file of the GPU of the partition. -/
namespace Rocsift.Sift
open Seeking Blocks Unwinding

theorem regOfBytes_bytesOfReg (v : BitVec 32) : regOfBytes (bytesOfReg v) = v := by
  simp only [bytesOfReg, regOfBytes, List.foldr_cons, List.foldr_nil]
  ext i hi
  simp
  grind

def registerOf (bytes : Option (List (BitVec 8))) : Except SiftStatus (BitVec 32) :=
  match bytes with
  | some bytes => if bytes.length = 4 then .ok (regOfBytes bytes) else .error .error
  | none => .error .error

def writtenOf (n : Option Nat) : Except SiftStatus Unit :=
  match n with
  | some n => if n = 4 then .ok () else .error .error
  | none => .error .error

theorem registerOf_bytes (v : Option (BitVec 32)) :
    registerOf (v.map bytesOfReg) = v.elim (.error .error) .ok := by
  cases v with
  | none => rfl
  | some v => exact congrArg Except.ok (regOfBytes_bytesOfReg v)

theorem mmioReadReg32_run (d : AMDGPUDebugFS) (reg : BitVec 64) :
    (d.mmioReadReg32 reg).run = .call ⟨d.mmio_.id, reg, .read 4#64⟩ fun n =>
      .done (registerOf (n : Option (Option (List (BitVec 8)))).join) := by
  refine congrArg (Client.call _) (funext fun n => ?_)
  obtain _ | _ | bytes : Option (Option (List (BitVec 8))) := n
  · rfl
  · rfl
  · change (ExceptT.run (if bytes.length = 4 then pure (regOfBytes bytes)
      else throw SiftStatus.error) : Accesses _) = .done (registerOf (some bytes))
    unfold registerOf
    dsimp only
    split
    · rfl
    · rfl

theorem mmioWriteReg32_run (d : AMDGPUDebugFS) (reg : BitVec 64) (value : BitVec 32) :
    (d.mmioWriteReg32 reg value).run =
      .call ⟨d.mmio_.id, reg, .write (bytesOfReg value)⟩ fun n =>
        .done (writtenOf (n : Option (Option Nat)).join) := by
  refine congrArg (Client.call _) (funext fun n => ?_)
  obtain _ | _ | n : Option (Option Nat) := n
  · rfl
  · rfl
  · change (ExceptT.run (if n = 4 then pure () else throw SiftStatus.error) : Accesses _) =
      .done (writtenOf (some n))
    unfold writtenOf
    dsimp only
    split
    · rfl
    · rfl

namespace Kernel
variable {S : Type} (k : Kernel S)

/-- What a call on an engine does, alone. -/
def answer (table : Nat → Option File) (eng : OpenEngine) (drm : Nat → DRMNode) (c : ApiCall) :
    S → c.Answer × S :=
  (eng.accesses drm c).finish (k.files table).access

variable (contents : S)

def readRegister (root : Nat) (reg : BitVec 64) : Except SiftStatus (BitVec 32) × S :=
  if k.seeks (.amdgpu_regs2 root) reg then
    let (bytes, contents) := k.transfer (.amdgpu_regs2 root) reg (.read 4#64) contents
    (registerOf bytes, contents)
  else (.error .error, contents)

def writeRegister (root : Nat) (reg : BitVec 64) (value : BitVec 32) :
    Except SiftStatus Unit × S :=
  if k.seeks (.amdgpu_regs2 root) reg then
    let (n, contents) := k.transfer (.amdgpu_regs2 root) reg (.write (bytesOfReg value)) contents
    (writtenOf n, contents)
  else (.error .error, contents)

def partitionRead (p : OpenPartition) (reg : BitVec 64) : Except SiftStatus (BitVec 32) × S :=
  match p.amdgpu_debugfs_ with
  | some d => k.readRegister contents d.root_ reg
  | none => (.error .notPrivileged, contents)

def partitionWrite (p : OpenPartition) (reg : BitVec 64) (value : BitVec 32) :
    Except SiftStatus Unit × S :=
  match p.amdgpu_debugfs_ with
  | some d => k.writeRegister contents d.root_ reg value
  | none => (.error .notPrivileged, contents)

variable {k}

theorem partitionRead_failed {p : OpenPartition} {reg : BitVec 64}
    (fails : ∀ d, p.amdgpu_debugfs_ = some d → ¬k.seeks (.amdgpu_regs2 d.root_) reg) :
    ∃ status, k.partitionRead contents p reg = (.error status, contents) := by
  unfold partitionRead
  cases own : p.amdgpu_debugfs_ with
  | none => exact ⟨.notPrivileged, rfl⟩
  | some d => exact ⟨.error, if_neg (fails d own)⟩

theorem partitionWrite_failed {p : OpenPartition} {reg : BitVec 64} {value : BitVec 32}
    (fails : ∀ d, p.amdgpu_debugfs_ = some d → ¬k.seeks (.amdgpu_regs2 d.root_) reg) :
    ∃ status, k.partitionWrite contents p reg value = (.error status, contents) := by
  unfold partitionWrite
  cases own : p.amdgpu_debugfs_ with
  | none => exact ⟨.notPrivileged, rfl⟩
  | some d => exact ⟨.error, if_neg (fails d own)⟩

variable {contents} {table : Nat → Option File} {d : AMDGPUDebugFS}

theorem mmioReadReg32_finish (opened : table d.mmio_.id = some (.amdgpu_regs2 d.root_))
    (reg : BitVec 64) :
    ((d.mmioReadReg32 reg).run).finish (k.files table).access contents =
      k.readRegister contents d.root_ reg := by
  rw [mmioReadReg32_run]
  simp only [Client.finish, Files.access, files, opened, Option.any_some, readRegister]
  split
  · rfl
  · rfl

theorem mmioWriteReg32_finish (opened : table d.mmio_.id = some (.amdgpu_regs2 d.root_))
    (reg : BitVec 64) (value : BitVec 32) :
    ((d.mmioWriteReg32 reg value).run).finish (k.files table).access contents =
      k.writeRegister contents d.root_ reg value := by
  rw [mmioWriteReg32_run]
  simp only [Client.finish, Files.access, files, opened, Option.any_some, writeRegister]
  split
  · rfl
  · rfl

end Kernel

section
variable {S : Type} {k : Kernel S} {opens : Nat → File → Bool} {m : Machine}
  {nodes : List KFDNode} {s t : Store File} {eng : OpenEngine}

theorem systemCalls_finish {R : Type} (eng : OpenEngine) (drm : Nat → DRMNode)
    (p : Client ApiCall ApiCall.Answer R) (now : Positioned Nat (BitVec 64) S) :
    let ran := (p.through (eng.systemCalls drm)).finish (k.files t.cells).step now
    (ran.1, ran.2.contents) =
      p.finish (k.answer t.cells eng drm) now.contents := by
  intro ran
  have steps : p.through (eng.systemCalls drm) = (p.through (eng.accesses drm)).through split :=
    (Client.through_through _ _ _).symm
  have split_up := finish_split (k.files t.cells) (p.through (eng.accesses drm)) now
  rw [← steps] at split_up
  exact split_up.trans (Client.finish_through _ _ _ _)

variable (drm : Nat → DRMNode) {i : Nat} {p : OpenPartition} (found : eng.partitions[i]? = some p)
include found

theorem answer_eq (c : ApiCall) (handle : c.handle = .partition i)
    (target : eng.target drm c = .through c.handle 0#64) (contents : S) :
    k.answer t.cells eng drm c contents =
      Prod.map some id (((OpenEngine.partitionInterface p).perform 0#64 c.request).finish
        (k.files t.cells).access contents) := by
  have face : eng.interface c.handle = some (OpenEngine.partitionInterface p) := by
    rw [handle, OpenEngine.interface, found]
    rfl
  have accesses : eng.accesses drm c =
      ((OpenEngine.partitionInterface p).perform 0#64 c.request).bind fun v => .done (some v) := by
    simp only [OpenEngine.accesses, target, face]
  rw [Kernel.answer, accesses, Client.finish_bind]
  rfl

variable (built : openEngine opens m nodes s = .ok (.ok eng, t))
include built

theorem regs2_opened {d : AMDGPUDebugFS} (own : p.amdgpu_debugfs_ = some d) :
    t.cells d.mmio_.id = some (.amdgpu_regs2 d.root_) := by
  have held : (d.mmio_.id, File.amdgpu_regs2 d.root_) ∈ eng.held (.partition i) := by
    rw [OpenEngine.held, OpenEngine.interface, found]
    refine Interface.holds_debugfs own ?_
    exact List.mem_append_right _ (List.mem_append_right _ List.mem_cons_self)
  exact (built_took built).found _ (OpenEngine.mem_holds held)

theorem answer_readReg32 (reg : BitVec 64) (contents : S) :
    k.answer t.cells eng drm ⟨.partition i, .readReg32 .mmio reg⟩ contents =
      Prod.map some id (k.partitionRead contents p reg) := by
  rw [answer_eq drm found _ rfl rfl]
  refine congrArg (Prod.map some id) ?_
  unfold Kernel.partitionRead
  cases own : p.amdgpu_debugfs_ with
  | none =>
    simp only [Interface.perform, OpenEngine.partitionInterface, own]
    rfl
  | some d =>
    simp only [Interface.perform, OpenEngine.partitionInterface, own]
    exact Kernel.mmioReadReg32_finish (regs2_opened found built own) reg

theorem answer_writeReg32 (value : BitVec 32) (reg : BitVec 64) (contents : S) :
    k.answer t.cells eng drm ⟨.partition i, .writeReg32 value .mmio reg⟩ contents =
      Prod.map some id (k.partitionWrite contents p reg value) := by
  rw [answer_eq drm found _ rfl rfl]
  refine congrArg (Prod.map some id) ?_
  unfold Kernel.partitionWrite
  cases own : p.amdgpu_debugfs_ with
  | none =>
    simp only [Interface.perform, OpenEngine.partitionInterface, own]
    rfl
  | some d =>
    simp only [Interface.perform, OpenEngine.partitionInterface, own]
    exact Kernel.mmioWriteReg32_finish (regs2_opened found built own) reg value

end

end Rocsift.Sift
