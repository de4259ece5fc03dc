import Rocsift.Cmd.Status

/-! `cpc_scratch`: it looks for the partition that has a die and reads the scratch memory of the die
through one register, whose reads move the index in that memory on. -/
namespace Rocsift.Cmd
open Sift Seeking Unwinding Numerals
open Blocks (Store)

def DATA_WIDTH : Nat := 4

def CPC_SCRATCH_INDEX (xcc_id : Nat) : BitVec 64 := GFXHUB_OFFSET xcc_id + 0x8240#64

def CPC_SCRATCH_DATA (xcc_id : Nat) : BitVec 64 := GFXHUB_OFFSET xcc_id + 0x8244#64

def partitionWith (eng : OpenEngine) (xcc_id : Nat) : Option Nat :=
  eng.partitions.findIdx? fun p => p.xcc_die_ids_.contains xcc_id

/-- The loop over the partitions from the `p`-th on, each with a buffer for its ids: the partition
and the place of the die in it, unless no partition has it or there is no memory for a buffer. -/
def findDie (supply : Nat → Bool) (xcc_id : Nat) : Nat → List OpenPartition → Option (Nat × Nat)
  | _, [] => none
  | p, part :: parts =>
    if supply p = true then
      if part.xcc_die_ids_.contains xcc_id then
        some (p, part.xcc_die_ids_.findIdx fun id => id = xcc_id)
      else findDie supply xcc_id (p + 1) parts
    else none

structure Dump where
  printed : List Char
  data : List (BitVec 8)
  code : Int
  deriving DecidableEq

def usingLine (verbose : Bool) (part_id logical_xcc_id xcc_id : Nat) : List Char :=
  if verbose then
    "Using partition ".toList ++ digits 10 part_id ++ " logical XCC_ID ".toList ++
      digits 10 logical_xcc_id ++ " to target XCC_DIE_ID ".toList ++ digits 10 xcc_id ++ ['\n']
  else []

def readScratch (line : List Char) (part xcc_id : Nat) (data : List (BitVec 32)) :
    Nat → Client ApiCall ApiCall.Answer (Option Dump)
  | 0 => .done (some ⟨line, data.flatMap bytesOfReg, 0⟩)
  | left + 1 =>
    .call ⟨.partition part, .readReg32 .mmio (CPC_SCRATCH_DATA xcc_id)⟩ fun read =>
      match (read : Option (Except SiftStatus (BitVec 32))) with
      | none => .done none
      | some (.error _) => .done (some ⟨line, [], -1⟩)
      | some (.ok value) => readScratch line part xcc_id (data ++ [value]) left

def dumpFrom (part xcc_id : Nat) (size : BitVec 64) (line : List Char) :
    Client ApiCall ApiCall.Answer (Option Dump) :=
  .call ⟨.partition part, .writeReg32 0#32 .mmio (CPC_SCRATCH_INDEX xcc_id)⟩ fun written =>
    match (written : Option (Except SiftStatus Unit)) with
    | none => .done none
    | some (.error _) => .done (some ⟨line, [], -1⟩)
    | some (.ok ()) => readScratch line part xcc_id [] (size.toNat / DATA_WIDTH)

/-- The tool once `sift_init` has succeeded; nothing where the behaviour is undefined. A call of
`malloc` succeeds or fails by its number. -/
def cpcScratch (supply : Nat → Bool) (eng : OpenEngine) (xcc_id : Nat) (size : BitVec 64)
    (verbose : Bool) : Client ApiCall ApiCall.Answer (Option Dump) :=
  if size.toNat % DATA_WIDTH ≠ 0 then .done (some ⟨[], [], -1⟩)
  else
    match findDie supply xcc_id 0 eng.partitions with
    | none => .done (some ⟨[], [], -1⟩)
    | some (part, logical_xcc_id) =>
      let line := usingLine verbose part logical_xcc_id xcc_id
      if supply (part + 1) = true then dumpFrom part xcc_id size line
      else .done (some ⟨line, [], -1⟩)

section
variable {supply : Nat → Bool} {xcc_id : Nat}

theorem findDie_none {ps : List OpenPartition}
    (nowhere : ps.findIdx? (fun p => p.xcc_die_ids_.contains xcc_id) = none) (n : Nat) :
    findDie supply xcc_id n ps = none := by
  induction ps generalizing n with
  | nil => rfl
  | cons p ps ih =>
    obtain ⟨here, later⟩ := List.forall_mem_cons.mp (List.findIdx?_eq_none_iff.mp nowhere)
    unfold findDie
    rw [if_neg (Bool.eq_false_iff.mp here), ih (List.findIdx?_eq_none_iff.mpr later), ite_self]

theorem findDie_some {ps : List OpenPartition} {i : Nat} {p : OpenPartition}
    (first : ps.findIdx? (fun p => p.xcc_die_ids_.contains xcc_id) = some i)
    (at_i : ps[i]? = some p) (n : Nat) :
    findDie supply xcc_id n ps =
      if ∀ k ≤ i, supply (n + k) = true then
        some (n + i, p.xcc_die_ids_.findIdx fun id => id = xcc_id)
      else none := by
  induction ps generalizing i n with
  | nil => cases first
  | cons q ps ih =>
    rw [List.findIdx?_cons] at first
    unfold findDie
    by_cases here : q.xcc_die_ids_.contains xcc_id = true
    · rw [if_pos here, Option.some.injEq] at first
      subst first
      cases Option.some.inj at_i
      simp only [here, if_true, Nat.le_zero_eq, forall_eq, Nat.add_zero]
    · rw [if_neg here, Option.map_eq_some_iff] at first
      obtain ⟨j, first, rfl⟩ := first
      have steps : (∀ k ≤ j + 1, supply (n + k) = true) ↔
          supply n = true ∧ ∀ k ≤ j, supply (n + 1 + k) = true := by
        constructor
        · intro all
          refine ⟨all 0 (Nat.zero_le _), fun k le => ?_⟩
          rw [Nat.add_right_comm]
          exact all (k + 1) (Nat.succ_le_succ le)
        · rintro ⟨zero, later⟩ k le
          cases k with
          | zero => exact zero
          | succ k =>
            have there := later k (Nat.le_of_succ_le_succ le)
            rwa [Nat.add_right_comm] at there
      rw [if_neg here, ih first at_i (n + 1)]
      by_cases memory : supply n = true
      · simp only [steps, memory, if_true, true_and, Nat.add_right_comm n 1 j]
        rfl
      · rw [if_neg memory, if_neg fun all => memory (steps.mp all).1]

end

structure Scratch where
  index : BitVec 32
  memory : BitVec 32 → BitVec 32

/-- Drivers of GPUs whose dies have a scratch memory behind the two registers: a write of the one
sets the index, and a read of the other gives the word there and moves on to the next. -/
structure ScratchKernel (S : Type) extends Kernel S where
  scratch : S → Nat → Nat → Scratch
  next : BitVec 32 → BitVec 32
  /-- The state with another index for a die. -/
  pointed : S → Nat → Nat → BitVec 32 → S
  scratch_pointed : ∀ s root xcc_id index, scratch (pointed s root xcc_id index) =
    Function.update (scratch s) root (Function.update (scratch s root) xcc_id
      { scratch s root xcc_id with index })
  writes : ∀ s root, ∀ xcc_id < 0x2000, ∀ index,
    transfer (.amdgpu_regs2 root) (CPC_SCRATCH_INDEX xcc_id) (.write (bytesOfReg index)) s =
      (some 4, pointed s root xcc_id index)
  reads : ∀ s root, ∀ xcc_id < 0x2000,
    let here := scratch s root xcc_id
    transfer (.amdgpu_regs2 root) (CPC_SCRATCH_DATA xcc_id) (.read 4#64) s =
      (some (bytesOfReg (here.memory here.index)), pointed s root xcc_id (next here.index))

namespace ScratchKernel
variable {S : Type} (k : ScratchKernel S)

def words (memory : BitVec 32 → BitVec 32) (index : BitVec 32) (count : Nat) : List (BitVec 32) :=
  (List.range count).map fun n => memory (k.next^[n] index)

def Moved (s t : S) (root xcc_id : Nat) (index : BitVec 32) : Prop :=
  k.scratch t = Function.update (k.scratch s) root
    (Function.update (k.scratch s root) xcc_id { k.scratch s root xcc_id with index })

def Seeks (root xcc_id : Nat) (size : BitVec 64) : Prop :=
  k.seeks (.amdgpu_regs2 root) (CPC_SCRATCH_INDEX xcc_id) ∧
    (size.toNat / DATA_WIDTH ≠ 0 → k.seeks (.amdgpu_regs2 root) (CPC_SCRATCH_DATA xcc_id))

variable {k}

theorem words_succ (memory : BitVec 32 → BitVec 32) (index : BitVec 32) (count : Nat) :
    k.words memory index (count + 1) =
      memory index :: k.words memory (k.next index) count := by
  simp only [words, List.range_succ_eq_map, List.map_cons, List.map_map]
  rfl

theorem moved_pointed (s : S) (root xcc_id : Nat) (index : BitVec 32) :
    k.Moved s (k.pointed s root xcc_id index) root xcc_id index := k.scratch_pointed ..

theorem Moved.here {s t : S} {root xcc_id : Nat} {index : BitVec 32}
    (moved : k.Moved s t root xcc_id index) :
    k.scratch t root xcc_id = { k.scratch s root xcc_id with index } := by
  rw [moved, Function.update_self, Function.update_self]

theorem Moved.memory {s t : S} {root xcc_id : Nat} {index : BitVec 32}
    (moved : k.Moved s t root xcc_id index) (gpu die : Nat) :
    (k.scratch t gpu die).memory = (k.scratch s gpu die).memory := by
  rw [moved]
  by_cases same : gpu = root
  · subst same
    rw [Function.update_self, Function.update_apply]
    split
    · next here => rw [here]
    · rfl
  · rw [Function.update_of_ne same]

theorem Moved.pointed {s t : S} {root xcc_id : Nat} {index : BitVec 32}
    (moved : k.Moved s t root xcc_id index) (last : BitVec 32) :
    k.Moved s (k.pointed t root xcc_id last) root xcc_id last := by
  unfold Moved
  rw [k.scratch_pointed, moved.here, moved]
  simp only [Function.update_self, Function.update_idem]

end ScratchKernel

section
variable {S : Type} {k : ScratchKernel S} {opens : Nat → File → Bool} {m : Machine}
  {nodes : List KFDNode} {s t : Store File} {eng : OpenEngine}
  (built : openEngine opens m nodes s = .ok (.ok eng, t)) (drm : Nat → DRMNode)
  {part xcc_id : Nat} {p : OpenPartition} {d : AMDGPUDebugFS}
  (found : eng.partitions[part]? = some p)
include built found

theorem readScratch_failed (fails : ∀ d, p.amdgpu_debugfs_ = some d →
      ¬k.seeks (.amdgpu_regs2 d.root_) (CPC_SCRATCH_DATA xcc_id))
    (line : List Char) (data : List (BitVec 32)) {left : Nat} (more : left ≠ 0) (contents : S) :
    (readScratch line part xcc_id data left).finish (k.answer t.cells eng drm) contents =
      (some ⟨line, [], -1⟩, contents) := by
  obtain ⟨left, rfl⟩ := Nat.exists_eq_succ_of_ne_zero more
  have call := answer_readReg32 (k := k.toKernel) drm found built (CPC_SCRATCH_DATA xcc_id) contents
  obtain ⟨status, read⟩ := Kernel.partitionRead_failed (k := k.toKernel) contents fails
  rw [read] at call
  simp only [readScratch, Client.finish, call, Prod.map, id]

variable (own : p.amdgpu_debugfs_ = some d) (small : xcc_id < 0x2000)
include own small

theorem readScratch_finish {before contents : S} {index : BitVec 32}
    (moved : k.Moved before contents d.root_ xcc_id index) (line : List Char)
    (data : List (BitVec 32)) {left : Nat}
    (seeks : left ≠ 0 → k.seeks (.amdgpu_regs2 d.root_) (CPC_SCRATCH_DATA xcc_id)) :
    ∃ after, (readScratch line part xcc_id data left).finish (k.answer t.cells eng drm) contents =
        (some ⟨line, (data ++ k.words (k.scratch before d.root_ xcc_id).memory index left).flatMap
          bytesOfReg, 0⟩, after) ∧
      k.Moved before after d.root_ xcc_id (k.next^[left] index) := by
  induction left generalizing contents index data with
  | zero =>
    refine ⟨contents, ?_, moved⟩
    rw [ScratchKernel.words, List.range_zero, List.map_nil, List.append_nil]
    rfl
  | succ left ih =>
    have data_seeks := seeks (Nat.succ_ne_zero left)
    let word := (k.scratch before d.root_ xcc_id).memory index
    have value : registerOf (some (bytesOfReg word)) = .ok word := registerOf_bytes (some word)
    have read : k.partitionRead contents p (CPC_SCRATCH_DATA xcc_id) =
        (.ok word, k.pointed contents d.root_ xcc_id (k.next index)) := by
      simp only [Kernel.partitionRead, own, Kernel.readRegister, data_seeks, if_true,
        k.reads contents d.root_ xcc_id small, moved.here]
      exact congrArg (·, _) value
    have call := answer_readReg32 (k := k.toKernel) drm found built (CPC_SCRATCH_DATA xcc_id)
      contents
    rw [read] at call
    obtain ⟨after, ran, there⟩ := ih (moved.pointed (k.next index)) (data ++ [word])
      fun _ => data_seeks
    refine ⟨after, ?_, there⟩
    simp only [readScratch, Client.finish, call, Prod.map, id]
    rw [k.words_succ, ran, List.append_assoc]
    rfl

theorem selected_write (contents : S)
    (seeks : k.seeks (.amdgpu_regs2 d.root_) (CPC_SCRATCH_INDEX xcc_id)) :
    k.answer t.cells eng drm ⟨.partition part, .writeReg32 0#32 .mmio (CPC_SCRATCH_INDEX xcc_id)⟩
        contents =
      (some (.ok ()), k.pointed contents d.root_ xcc_id 0#32) := by
  rw [answer_writeReg32 (k := k.toKernel) drm found built]
  simp only [Kernel.partitionWrite, own, Kernel.writeRegister, seeks, if_true,
    k.writes contents d.root_ xcc_id small]
  rfl

end

section
variable {supply : Nat → Bool} {eng : OpenEngine} {part xcc_id : Nat} {size : BitVec 64}
  {p : OpenPartition} (verbose : Bool)

theorem cpcScratch_refused
    (refused : size.toNat % DATA_WIDTH ≠ 0 ∨ partitionWith eng xcc_id = none) :
    cpcScratch supply eng xcc_id size verbose = .done (some ⟨[], [], -1⟩) := by
  unfold cpcScratch
  rcases refused with odd | nowhere
  · exact if_pos odd
  · rw [findDie_none nowhere]
    exact ite_self _

variable (whole : size.toNat % DATA_WIDTH = 0) (first : partitionWith eng xcc_id = some part)
  (found : eng.partitions[part]? = some p)
include whole first found

theorem cpcScratch_supplied (memory : ∀ n ≤ part + 1, supply n = true) :
    cpcScratch supply eng xcc_id size verbose = dumpFrom part xcc_id size
      (usingLine verbose part (p.xcc_die_ids_.findIdx fun id => id = xcc_id) xcc_id) := by
  have buffers : ∀ n ≤ part, supply (0 + n) = true := fun n le => by
    rw [Nat.zero_add]
    exact memory n (Nat.le_succ_of_le le)
  unfold cpcScratch
  rw [if_neg (not_not.mpr whole), findDie_some first found 0, if_pos buffers]
  simp only [Nat.zero_add, memory (part + 1) (Nat.le_refl _), if_true]

theorem cpcScratch_no_memory {n : Nat} (le : n ≤ part + 1) (fails : supply n = false) :
    ∃ printed, cpcScratch supply eng xcc_id size verbose = .done (some ⟨printed, [], -1⟩) := by
  unfold cpcScratch
  rw [if_neg (not_not.mpr whole), findDie_some first found 0]
  by_cases buffers : ∀ n ≤ part, supply (0 + n) = true
  · have last : n = part + 1 := by
      by_contra early
      have buffer := buffers n (by omega)
      rw [Nat.zero_add, fails] at buffer
      cases buffer
    subst last
    rw [if_pos buffers]
    simp only [Nat.zero_add, fails, Bool.false_eq_true, if_false]
    exact ⟨_, rfl⟩
  · rw [if_neg buffers]
    exact ⟨_, rfl⟩

end

section
variable {S : Type} {k : ScratchKernel S} {opens : Nat → File → Bool} {m : Machine}
  {nodes : List KFDNode} {s t : Store File} {eng : OpenEngine}
  (built : openEngine opens m nodes s = .ok (.ok eng, t)) (drm : Nat → DRMNode)
  {part xcc_id : Nat} {size : BitVec 64} {p : OpenPartition}
  (found : eng.partitions[part]? = some p) (small : xcc_id < 0x2000)
include built found small

theorem dumpFrom_reads {d : AMDGPUDebugFS} (own : p.amdgpu_debugfs_ = some d)
    (seeks : k.Seeks d.root_ xcc_id size) (line : List Char) (contents : S) :
    let count := size.toNat / DATA_WIDTH
    ∃ after, (dumpFrom part xcc_id size line).finish (k.answer t.cells eng drm) contents =
        (some ⟨line, (k.words (k.scratch contents d.root_ xcc_id).memory 0#32 count).flatMap
          bytesOfReg, 0⟩, after) ∧
      k.Moved contents after d.root_ xcc_id (k.next^[count] 0#32) := by
  have call := selected_write built drm found own small contents seeks.1
  obtain ⟨after, read, moved⟩ := readScratch_finish built drm found own small
    (ScratchKernel.moved_pointed contents d.root_ xcc_id 0#32) line [] seeks.2
  refine ⟨after, ?_, moved⟩
  simp only [dumpFrom, Client.finish, call]
  exact read

theorem dumpFrom_fails (fails : ∀ d, p.amdgpu_debugfs_ = some d → ¬k.Seeks d.root_ xcc_id size)
    (line : List Char) (contents : S) :
    ∃ after, (dumpFrom part xcc_id size line).finish (k.answer t.cells eng drm) contents =
        (some ⟨line, [], -1⟩, after) ∧
      ∀ root die, (k.scratch after root die).memory = (k.scratch contents root die).memory := by
  simp only [dumpFrom, Client.finish]
  by_cases index : ∃ d, p.amdgpu_debugfs_ = some d ∧
      k.seeks (.amdgpu_regs2 d.root_) (CPC_SCRATCH_INDEX xcc_id)
  · obtain ⟨d, own, seeks⟩ := index
    obtain ⟨more, data_fails⟩ := Classical.not_imp.mp fun data => fails d own ⟨seeks, data⟩
    have call := selected_write built drm found own small contents seeks
    refine ⟨k.pointed contents d.root_ xcc_id 0#32, ?_, fun gpu die => ?_⟩
    · simp only [call]
      refine readScratch_failed built drm found (fun d' own' => ?_) line [] more _
      cases own.symm.trans own'
      exact data_fails
    · exact (ScratchKernel.moved_pointed contents d.root_ xcc_id 0#32).memory gpu die
  · have call := answer_writeReg32 (k := k.toKernel) drm found built 0#32 (CPC_SCRATCH_INDEX xcc_id)
      contents
    obtain ⟨status, write⟩ := Kernel.partitionWrite_failed (k := k.toKernel) contents
      fun d own seeks => index ⟨d, own, seeks⟩
    rw [write] at call
    simp only [call, Prod.map, id]
    exact ⟨contents, rfl, fun _ _ => rfl⟩

end

section
variable {S : Type} {k : ScratchKernel S} {opens : Nat → File → Bool} {m : Machine}
  {nodes : List KFDNode} {s t : Store File} {eng : OpenEngine}
  (built : openEngine opens m nodes s = .ok (.ok eng, t)) (drm : Nat → DRMNode)
include built

/-- The tool dumps the scratch memory of the die from its start on, `size` bytes of it, and leaves
all as it was but for the index of that memory; if it cannot, it dumps nothing. -/
theorem cpc_scratch_dumps {xcc_id : Nat} (small : xcc_id < 0x2000) (supply : Nat → Bool)
    (size : BitVec 64) (verbose : Bool) (now : Positioned Nat (BitVec 64) S) :
    let ran := ((cpcScratch supply eng xcc_id size verbose).through (eng.systemCalls drm)).finish
      (k.files t.cells).step now
    let count := size.toNat / DATA_WIDTH
    (size.toNat % DATA_WIDTH ≠ 0 ∨ partitionWith eng xcc_id = none →
      ran = (some ⟨[], [], -1⟩, now)) ∧
    ∀ part p, size.toNat % DATA_WIDTH = 0 → partitionWith eng xcc_id = some part →
      eng.partitions[part]? = some p →
        let line := usingLine verbose part (p.xcc_die_ids_.findIdx fun id => id = xcc_id) xcc_id
        ((∃ n ≤ part + 1, supply n = false) →
          ∃ printed, ran = (some ⟨printed, [], -1⟩, now)) ∧
        ((∀ n ≤ part + 1, supply n = true) →
          (∀ d, p.amdgpu_debugfs_ = some d → k.Seeks d.root_ xcc_id size →
            ran.1 = some ⟨line, (k.words (k.scratch now.contents d.root_ xcc_id).memory 0#32
                count).flatMap bytesOfReg, 0⟩ ∧
              k.Moved now.contents ran.2.contents d.root_ xcc_id (k.next^[count] 0#32)) ∧
          ((∀ d, p.amdgpu_debugfs_ = some d → ¬k.Seeks d.root_ xcc_id size) →
            ran.1 = some ⟨line, [], -1⟩ ∧ ∀ root die, (k.scratch ran.2.contents root die).memory =
              (k.scratch now.contents root die).memory)) := by
  intro ran count
  refine ⟨fun refused => ?_, fun part p whole first found => ⟨?_, fun memory => ?_⟩⟩
  · simp only [ran, cpcScratch_refused verbose refused]
    rfl
  · rintro ⟨n, le, fails⟩
    obtain ⟨printed, nothing⟩ := cpcScratch_no_memory verbose whole first found le fails
    refine ⟨printed, ?_⟩
    simp only [ran, nothing]
    rfl
  · have finished := systemCalls_finish (k := k.toKernel) (t := t) eng drm
      (cpcScratch supply eng xcc_id size verbose) now
    rw [cpcScratch_supplied verbose whole first found memory] at finished
    have same : ran = ((dumpFrom part xcc_id size (usingLine verbose part
        (p.xcc_die_ids_.findIdx fun id => id = xcc_id) xcc_id)).through
          (eng.systemCalls drm)).finish (k.files t.cells).step now := by
      simp only [ran, cpcScratch_supplied verbose whole first found memory]
    rw [← same] at finished
    refine ⟨fun d own seeks => ?_, fun fails => ?_⟩
    · obtain ⟨after, printed, moved⟩ :=
        dumpFrom_reads built drm found small own seeks _ now.contents
      have both := finished.trans printed
      have left : ran.2.contents = after := congrArg Prod.snd both
      exact ⟨congrArg Prod.fst both, left ▸ moved⟩
    · obtain ⟨after, printed, same⟩ := dumpFrom_fails built drm found small fails _ now.contents
      have both := finished.trans printed
      have left : ran.2.contents = after := congrArg Prod.snd both
      exact ⟨congrArg Prod.fst both, left ▸ same⟩

end

def pointIndex (s : Nat → Nat → Scratch) (root xcc_id : Nat) (index : BitVec 32) :
    Nat → Nat → Scratch :=
  Function.update s root (Function.update (s root) xcc_id { s root xcc_id with index })

theorem scratch_register {xcc_id : Nat} (small : xcc_id < 0x2000) (offset : Nat)
    (inside : offset < 0x40000) :
    let reg := GFXHUB_OFFSET xcc_id + BitVec.ofNat 64 offset
    reg.toNat / 0x40000 = xcc_id ∧ reg.toNat % 0x40000 = offset := by
  have whole : (GFXHUB_OFFSET xcc_id + BitVec.ofNat 64 offset).toNat =
      0x40000 * xcc_id + offset := by
    rw [GFXHUB_OFFSET, BitVec.toNat_add, BitVec.toNat_ofNat, BitVec.toNat_ofNat]
    omega
  simp only [whole]
  omega

def scratchOnly : ScratchKernel (Nat → Nat → Scratch) where
  seeks _ _ := true
  transfer f reg t s :=
    let xcc_id := reg.toNat / 0x40000
    match f, t with
    | .amdgpu_regs2 root, .write bytes =>
      if reg.toNat % 0x40000 = 0x8240 ∧ bytes.length = 4 then
        (some 4, pointIndex s root xcc_id (regOfBytes bytes))
      else (none, s)
    | .amdgpu_regs2 root, .read n =>
      let here := s root xcc_id
      if reg.toNat % 0x40000 = 0x8244 ∧ n = 4#64 then
        (some (bytesOfReg (here.memory here.index)),
          pointIndex s root xcc_id (here.index + 1#32))
      else (none, s)
    | _, t => (t.failed, s)
  scratch s := s
  next index := index + 1#32
  pointed := pointIndex
  scratch_pointed _ _ _ _ := rfl
  writes s root xcc_id small index := by
    obtain ⟨die, offset⟩ := scratch_register small 0x8240 (by decide)
    have length : (bytesOfReg index).length = 4 := rfl
    simp only [CPC_SCRATCH_INDEX, die, offset, length, and_self, if_true, regOfBytes_bytesOfReg]
  reads s root xcc_id small := by
    obtain ⟨die, offset⟩ := scratch_register small 0x8244 (by decide)
    simp only [CPC_SCRATCH_DATA, die, offset, and_self, if_true]

def numberedScratch : Positioned Nat (BitVec 64) (Nat → Nat → Scratch) :=
  ⟨fun _ => 0#64, fun _ _ => ⟨7#32, fun index => 0xabcd0000#32 + index⟩⟩

theorem cpc_scratch_dumps_two : (((cpcScratch (fun _ => true) openPair 0 8#64 false).through
    (openPair.systemCalls pairDrm)).finish (scratchOnly.files pairStore.cells).step
      numberedScratch).1 =
    some ⟨[], [0x00#8, 0x00#8, 0xcd#8, 0xab#8, 0x01#8, 0x00#8, 0xcd#8, 0xab#8], 0⟩ := by
  have built : openEngine (fun _ _ => true) pairMachine pairNodes Store.empty =
      .ok (.ok openPair, pairStore) := rfl
  have dumps := ((cpc_scratch_dumps (k := scratchOnly) built pairDrm (Nat.zero_lt_succ _)
    (fun _ => true) 8#64 false numberedScratch).2 0 _ rfl rfl rfl).2 fun _ _ => rfl
  exact (dumps.1 _ rfl ⟨rfl, fun _ => rfl⟩).1.trans (by decide)

end Rocsift.Cmd
