import Rocsift.Xlator.Range

/-! The reads of read_mem.cc. What `fwrite` writes to stdout is kept as a list of bytes; it and
the creation of the translator succeed. -/
namespace Rocsift.Cmd
open Looping Xlator

abbrev Byte := BitVec 8

/-- `sift_partition_read` on system or video memory, from an address on, of a number of bytes;
`none` is a negative result. -/
abbrev PartitionRead := Bool → BitVec 64 → BitVec 64 → Option (List Byte)

def BUF_SIZE : BitVec 64 := 2#64 <<< 20

structure PhysRead where
  addr : BitVec 64
  size : BitVec 64
  written : List Byte

inductive Ret where
  | ok | error | exited
  deriving DecidableEq, Repr

section
variable (read : PartitionRead)

def readPhysAddrBody (system : Bool) (s : PhysRead) : Turn PhysRead (List Byte × Ret) :=
  if 0#64 < s.size then
    let num_to_read := if BUF_SIZE < s.size then BUF_SIZE else s.size
    match read system s.addr num_to_read with
    | none => .leave (s.written, .error)
    | some bytes =>
      let num_read := BitVec.ofNat 64 bytes.length
      .again ⟨s.addr + num_read, s.size - num_read, s.written ++ bytes⟩
  else .leave (s.written, .ok)

def readFragments (fuel : Nat) : List Fragment → BitVec 64 → BitVec 64 → List Byte →
    Option (List Byte × Ret)
  | [], _, _, written => some (written, .ok)
  | f :: fs, virt_addr, size, written =>
    if size = 0#64 then some (written, .ok)
    else if f.flags.valid = 0#8 then some (written, .error)
    else
      let system := decide (f.flags.system ≠ 0#8)
      let virt_addr_lower_bits := virt_addr &&& (f.size - 1#64)
      let phys_addr := f.pa ||| virt_addr_lower_bits
      let rest := f.size - virt_addr_lower_bits
      let current_size := if size < rest then size else rest
      match run (readPhysAddrBody read system) fuel ⟨phys_addr, current_size, written⟩ with
      | none => none
      | some (written, .ok) =>
        readFragments fuel fs (virt_addr + current_size) (size - current_size) written
      | some (written, ret) => some (written, ret)

/-- `none`: the fuel does not suffice. -/
def readVirtAddr (mem : Memory) (r : Registers) (fuel : Nat) (virt_addr size : BitVec 64) :
    Option (List Byte × Ret) :=
  match run (translateRangeBody mem (populateWalkHelper r) virt_addr true) fuel
      (rangeStart virt_addr size) with
  | none => none
  | some (.list fs) => readFragments read fuel fs virt_addr size []
  | some .failed => some ([], .error)
  | some .exited => some ([], .exited)

end

def bytesFrom (memory : BitVec 64 → Byte) (addr : BitVec 64) (n : Nat) : List Byte :=
  (List.range n).map fun i => memory (addr + BitVec.ofNat 64 i)

def exactRead (bytes : Bool → BitVec 64 → Byte) : PartitionRead := fun system addr n =>
  some (bytesFrom (bytes system) addr n.toNat)

def leafAddr (mem : Memory) (r : Registers) (va : BitVec 64) : Option (Bool × BitVec 64) :=
  (walkMemory (populateWalkHelper r) mem va).map fun w =>
    (decide (w.pte.system ≠ 0#8), w.pte.base_address + (va &&& (w.size - 1#64)))

/-- The read returns 0 and writes the mapped bytes: `size` of them, each from where the leaf of
its address puts it. -/
def ReadsMapped (mem : Memory) (r : Registers) (bytes : Bool → BitVec 64 → Byte)
    (va size : BitVec 64) : Prop :=
  ∃ fuel written, readVirtAddr (exactRead bytes) mem r fuel va size = some (written, .ok) ∧
    written.length = size.toNat ∧
      ∀ i < size.toNat, written[i]? =
        (leafAddr mem r (va + BitVec.ofNat 64 i)).map fun a => bytes a.1 a.2

theorem bytesFrom_length (memory : BitVec 64 → Byte) (addr : BitVec 64) (n : Nat) :
    (bytesFrom memory addr n).length = n := by
  rw [bytesFrom, List.length_map, List.length_range]

theorem bytesFrom_add (memory : BitVec 64 → Byte) (addr : BitVec 64) (m n : Nat) :
    bytesFrom memory addr (m + n) =
      bytesFrom memory addr m ++ bytesFrom memory (addr + BitVec.ofNat 64 m) n := by
  rw [bytesFrom, List.range_add, List.map_append, List.map_map]
  refine congrArg (bytesFrom memory addr m ++ ·) (List.map_congr_left fun i _ => ?_)
  rw [Function.comp_apply, BitVec.ofNat_add, BitVec.add_assoc]

theorem bytesFrom_getElem? (memory : BitVec 64 → Byte) (addr : BitVec 64) {n i : Nat} (h : i < n) :
    (bytesFrom memory addr n)[i]? = some (memory (addr + BitVec.ofNat 64 i)) := by
  rw [bytesFrom, List.getElem?_map, List.getElem?_range h]
  rfl

section
variable {bytes : Bool → BitVec 64 → Byte}

theorem readPhysAddr_exact (system : Bool) {fuel : Nat} (addr size : BitVec 64)
    (written : List Byte) (enough : size.toNat < fuel) :
    run (readPhysAddrBody (exactRead bytes) system) fuel ⟨addr, size, written⟩ =
      some (written ++ bytesFrom (bytes system) addr size.toNat, .ok) := by
  induction fuel generalizing addr size written with
  | zero => exact absurd enough (Nat.not_lt_zero _)
  | succ fuel ih =>
    by_cases more : 0#64 < size
    · obtain ⟨n, pos, le, chosen⟩ : ∃ n : BitVec 64, 0 < n.toNat ∧ n.toNat ≤ size.toNat ∧
          n = if BUF_SIZE < size then BUF_SIZE else size := by
        refine ⟨_, ?_, ?_, rfl⟩ <;> split <;> rename_i order
        · decide
        · exact more
        · exact Nat.le_of_lt order
        · exact Nat.le_refl _
      have turn : readPhysAddrBody (exactRead bytes) system ⟨addr, size, written⟩ =
          .again ⟨addr + n, size - n, written ++ bytesFrom (bytes system) addr n.toNat⟩ := by
        simp only [readPhysAddrBody, if_pos more, exactRead, ← chosen, bytesFrom_length,
          BitVec.ofNat_toNat, BitVec.setWidth_eq]
      have rest : (size - n).toNat = size.toNat - n.toNat :=
        BitVec.toNat_sub_of_le (BitVec.le_def.mpr le)
      have whole : size.toNat = n.toNat + (size - n).toNat := by omega
      rw [run_again turn, ih _ _ _ (by omega), whole, bytesFrom_add, List.append_assoc,
        BitVec.ofNat_toNat, BitVec.setWidth_eq]
    · have none : size = 0#64 := by bv_omega
      have turn : readPhysAddrBody (exactRead bytes) system ⟨addr, size, written⟩ =
          .leave (written, .ok) := if_neg more
      rw [run_leave turn, none]
      exact congrArg (fun w => some (w, Ret.ok)) (List.append_nil written).symm

end

section
variable {read : PartitionRead} {fuel more : Nat} (le : fuel ≤ more)
include le

theorem readFragments_mono {fs : List Fragment} {virt_addr size : BitVec 64} {written : List Byte}
    {result : List Byte × Ret}
    (done : readFragments read fuel fs virt_addr size written = some result) :
    readFragments read more fs virt_addr size written = some result := by
  induction fs generalizing virt_addr size written with
  | nil => exact done
  | cons f fs ih =>
    unfold readFragments at done ⊢
    split
    · rename_i finished
      rwa [if_pos finished] at done
    · rename_i left
      rw [if_neg left] at done
      split
      · rename_i invalid
        rwa [if_pos invalid] at done
      · rename_i valid
        simp only [if_neg valid] at done ⊢
        split at done
        · cases done
        · rename_i found
          rw [run_mono le found]
          exact ih done
        · rename_i found
          simp only [run_mono le found]
          exact done

theorem readVirtAddr_mono {mem : Memory} {r : Registers} {va size : BitVec 64}
    {result : List Byte × Ret} (done : readVirtAddr read mem r fuel va size = some result) :
    readVirtAddr read mem r more va size = some result := by
  unfold readVirtAddr at done ⊢
  split at done
  · cases done
  · rename_i found
    rw [run_mono le found]
    exact readFragments_mono le done
  · rename_i found
    rwa [run_mono le found]
  · rename_i found
    rwa [run_mono le found]

end

end Rocsift.Cmd
