import Rocsift.Base.Seeking
import Rocsift.Sift.Rights
import Rocsift.Sift.SmnAccess
import Rocsift.Sift.Vram

/-! Reads and writes through the descriptors of an engine: the accessors, and the functions of
capi.cc that use them for a partition or a device. Each accessor sets the position of its descriptor
with `lseek` and then reads or writes there, which makes an access. -/
namespace Rocsift.Sift
open Seeking Unwinding

inductive Transfer where
  | read (count : BitVec 64)
  | write (bytes : List (BitVec 8))
  deriving DecidableEq

abbrev Transfer.Answer : Transfer → Type
  | .read _ => Option (List (BitVec 8))
  | .write _ => Option Nat

abbrev Accesses : Type → Type :=
  Client (Located Nat (BitVec 64) Transfer) (Located.Answer Transfer.Answer)

abbrev SystemCalls : Type → Type :=
  Client (Step Nat (BitVec 64) Transfer) (Step.Answer Transfer.Answer)

def seekRead (fd : Nat) (address count : BitVec 64) : Accesses (Option (List (BitVec 8))) :=
  .call ⟨fd, address, .read count⟩ fun n => .done n.join

def seekWrite (fd : Nat) (address : BitVec 64) (bytes : List (BitVec 8)) :
    Accesses (Option Nat) :=
  .call ⟨fd, address, .write bytes⟩ fun n => .done n.join

def regOfBytes (bytes : List (BitVec 8)) : BitVec 32 :=
  bytes.foldr (fun b reg => reg <<< 8 ||| b.setWidth 32) 0#32

def bytesOfReg (value : BitVec 32) : List (BitVec 8) :=
  [value.setWidth 8, (value >>> 8).setWidth 8, (value >>> 16).setWidth 8, (value >>> 24).setWidth 8]

abbrev Throwing : Type → Type := ExceptT SiftStatus Accesses

namespace AMDGPUDebugFS
variable (d : AMDGPUDebugFS)

/- `DebugFSVRAMAccessor` and `DebugFSIOMEMAccessor`. -/

def vramRead (address count : BitVec 64) : Accesses (Option (List (BitVec 8))) :=
  seekRead d.vram_.id address count

def vramWrite (address : BitVec 64) (bytes : List (BitVec 8)) : Accesses (Option Nat) :=
  seekWrite d.vram_.id address bytes

def iomemRead (address count : BitVec 64) : Accesses (Option (List (BitVec 8))) :=
  seekRead d.iomem_.id address count

def iomemWrite (address : BitVec 64) (bytes : List (BitVec 8)) : Accesses (Option Nat) :=
  seekWrite d.iomem_.id address bytes

/- `DebugFSMMIOAccessor` and `DebugFSSMNAccessor`. -/

def mmioReadReg32 (reg : BitVec 64) : Throwing (BitVec 32) := do
  match ← seekRead d.mmio_.id reg 4#64 with
  | some bytes => if bytes.length = 4 then return regOfBytes bytes else throw .error
  | none => throw .error

def mmioWriteReg32 (reg : BitVec 64) (value : BitVec 32) : Throwing Unit := do
  match ← seekWrite d.mmio_.id reg (bytesOfReg value) with
  | some n => if n = 4 then return () else throw .error
  | none => throw .error

def smnReadReg32 (reg : BitVec 64) : Throwing (BitVec 32) := do
  let reg_lo := (reg &&& 0xFFFFFFFF#64).setWidth 32
  let reg_hi := ((reg >>> 32) &&& 0xFF#64).setWidth 32
  d.mmioWriteReg32 RSMU_INDEX_HI_OFFSET reg_hi
  d.mmioWriteReg32 RSMU_INDEX_OFFSET reg_lo
  d.mmioReadReg32 RSMU_DATA_OFFSET

def smnWriteReg32 (reg : BitVec 64) (value : BitVec 32) : Throwing Unit := do
  let reg_lo := (reg &&& 0xFFFFFFFF#64).setWidth 32
  let reg_hi := ((reg >>> 32) &&& 0xFF#64).setWidth 32
  d.mmioWriteReg32 RSMU_INDEX_HI_OFFSET reg_hi
  d.mmioWriteReg32 RSMU_INDEX_OFFSET reg_lo
  d.mmioWriteReg32 RSMU_DATA_OFFSET value

end AMDGPUDebugFS

namespace SRAMAccessor
variable (a : SRAMAccessor) (iomem : AMDGPUDebugFS)

/-- `/dev/mem` is read if the IO memory file cannot be. -/
def read (address count : BitVec 64) : Accesses (Option (List (BitVec 8))) := do
  match ← iomem.iomemRead address count with
  | some bytes => return some bytes
  | none => seekRead a.devmem_.id address count

def write (address : BitVec 64) (bytes : List (BitVec 8)) : Accesses (Option Nat) := do
  match ← iomem.iomemWrite address bytes with
  | some n => return some n
  | none => seekWrite a.devmem_.id address bytes

end SRAMAccessor

inductive MemRegion where
  | videoMem | systemMem | other
  deriving DecidableEq

inductive Aperture where
  | smn | mmio
  deriving DecidableEq

inductive Request where
  | read (region : MemRegion) (addr size : BitVec 64)
  | write (region : MemRegion) (addr : BitVec 64) (data : List (BitVec 8))
  | readReg32 (ap : Aperture) (reg : BitVec 64)
  | writeReg32 (value : BitVec 32) (ap : Aperture) (reg : BitVec 64)
  deriving DecidableEq

namespace Request

abbrev Answer : Request → Type
  | .read .. => Option (List (BitVec 8))
  | .write .. => Option Nat
  | .readReg32 .. => Except SiftStatus (BitVec 32)
  | .writeReg32 .. => Except SiftStatus Unit

/-- What the caller gets when the status is thrown. -/
def caught (status : SiftStatus) : (r : Request) → r.Answer
  | .read .. => none
  | .write .. => none
  | .readReg32 .. => .error status
  | .writeReg32 .. => .error status

end Request

structure Interface where
  debugfs : Option AMDGPUDebugFS
  sram : Option SRAMAccessor

instance : Owner File Interface := ⟨fun i => holds (i.debugfs, i.sram)⟩

/-- A request on the own files; a request for video memory is at an address of the own memory. -/
def Interface.perform (i : Interface) (address : BitVec 64) :
    (r : Request) → Accesses r.Answer
  | .read .videoMem _ size =>
    match i.debugfs with
    | some d => d.vramRead address size
    | none => .done none
  | .read .systemMem addr size =>
    match i.debugfs, i.sram with
    | some d, some a => a.read d addr size
    | _, _ => .done none
  | .read .other _ _ => .done none
  | .write .videoMem _ data =>
    match i.debugfs with
    | some d => d.vramWrite address data
    | none => .done none
  | .write .systemMem addr data =>
    match i.debugfs, i.sram with
    | some d, some a => a.write d addr data
    | _, _ => .done none
  | .write .other _ _ => .done none
  | .readReg32 ap reg =>
    match i.debugfs with
    | some d =>
      match ap with
      | .mmio => (d.mmioReadReg32 reg).run
      | .smn => (d.smnReadReg32 reg).run
    | none => .done (.error .notPrivileged)
  | .writeReg32 value ap reg =>
    match i.debugfs with
    | some d =>
      match ap with
      | .mmio => (d.mmioWriteReg32 reg value).run
      | .smn => (d.smnWriteReg32 reg value).run
    | none => .done (.error .notPrivileged)

inductive Handle where
  | partition (n : Nat)
  | device (n : Nat)
  deriving DecidableEq

structure ApiCall where
  handle : Handle
  request : Request

abbrev ApiCall.Answer (c : ApiCall) : Type := Option c.request.Answer

inductive Target where
  | through (h : Handle) (address : BitVec 64)
  | thrown (status : SiftStatus)
  | undefined

namespace OpenEngine
variable (eng : OpenEngine) (drm : Nat → DRMNode)

def partitions : List OpenPartition := eng.devices_.flatMap OpenDevice.partitions_

def interface : Handle → Option Interface
  | .partition n => eng.partitions[n]?.map fun p => ⟨p.amdgpu_debugfs_, p.sram_⟩
  | .device n => eng.devices_[n]?.map fun d => ⟨d.debugfs_, d.sram_⟩

/-- `access` is `ReadVRAM` or `WriteVRAM`; devices do not look at the hive. -/
def vramTarget (access : Partition → VramAccess) (address : BitVec 64) : Handle → Target
  | .device n => .through (.device n) address
  | .partition n =>
    match eng.partitions[n]? with
    | none => .undefined
    | some p =>
      match access p.partition with
      | .thrown status => .thrown status
      | .undefined _ => .undefined
      | .reached q address =>
        match eng.partitions.findIdx? (·.partition = q) with
        | some k => .through (.partition k) address
        | none => .undefined

def target (c : ApiCall) : Target :=
  match c.request with
  | .read .videoMem addr _ =>
    eng.vramTarget (fun p => p.readVRAM drm eng.engine addr) addr c.handle
  | .write .videoMem addr _ =>
    eng.vramTarget (fun p => p.writeVRAM drm eng.engine addr) addr c.handle
  | _ => .through c.handle 0#64

def accesses (c : ApiCall) : Accesses c.Answer :=
  match eng.target drm c with
  | .undefined => .done none
  | .thrown status => .done (some (c.request.caught status))
  | .through h address =>
    match eng.interface h with
    | none => .done none
    | some i => (i.perform address c.request).bind fun v => .done (some v)

def systemCalls (c : ApiCall) : SystemCalls c.Answer := (eng.accesses drm c).through split

end OpenEngine

end Rocsift.Sift
