import Rocsift.Base.Numerals
import Rocsift.Sift.Registers

/-! `status`: for each partition it reads the GRBM status of one XCC die after the other, up to the
first that is active. -/
namespace Rocsift.Cmd
open Sift Seeking Unwinding
open Blocks (Store)

def GFXHUB_OFFSET (xcc_id : Nat) : BitVec 64 := BitVec.ofNat 64 (0x40000 * xcc_id)

def grbm_status_offset : BitVec 64 := 0x8010#64

def guiActive (grbm_status : BitVec 32) : Bool := (grbm_status >>> 31) &&& 0x1#32 != 0#32

/-- Whether a die of partition `i` is active; nothing where the behaviour is undefined. -/
def anyBusy (i : Nat) :
    List Nat → Client ApiCall ApiCall.Answer (Option (Except SiftStatus Bool))
  | [] => .done (some (.ok false))
  | xcc_id :: xcc_ids =>
    .call ⟨.partition i, .readReg32 .mmio (GFXHUB_OFFSET xcc_id + grbm_status_offset)⟩ fun read =>
      match (read : Option (Except SiftStatus (BitVec 32))) with
      | none => .done none
      | some (.error status) => .done (some (.error status))
      | some (.ok grbm_status) =>
        if guiActive grbm_status then .done (some (.ok true)) else anyBusy i xcc_ids

def statusLine (i : Nat) (busy : Bool) : List Char :=
  "partition ".toList ++ Numerals.digits 10 i ++ " status:".toList ++
    (if busy then "BUSY" else "IDLE").toList ++ ['\n']

def statusLines (i : Nat) (states : List Bool) : List Char :=
  (states.mapIdx fun n busy => statusLine (i + n) busy).flatten

theorem statusLines_cons (i : Nat) (busy : Bool) (states : List Bool) :
    statusLines i (busy :: states) = statusLine i busy ++ statusLines (i + 1) states := by
  simp only [statusLines, List.mapIdx_cons, List.flatten_cons, Nat.add_zero, Nat.add_assoc,
    Nat.add_comm 1]

def statusFrom (i : Nat) (printed : List Char) :
    List OpenPartition → Client ApiCall ApiCall.Answer (Option (List Char × Int))
  | [] => .done (some (printed, 0))
  | p :: ps =>
    (anyBusy i p.xcc_die_ids_).bind fun busy =>
      match busy with
      | none => .done none
      | some (.error _) => .done (some (printed, -1))
      | some (.ok busy) => statusFrom (i + 1) (printed ++ statusLine i busy) ps

def status (eng : OpenEngine) : Client ApiCall ApiCall.Answer (Option (List Char × Int)) :=
  statusFrom 0 [] eng.partitions

structure RegisterKernel (S : Type) extends Kernel S where
  regs : S → Nat → BitVec 64 → Option (BitVec 32)
  reads : ∀ root reg s, transfer (.amdgpu_regs2 root) reg (.read 4#64) s =
    ((regs s root reg).map bytesOfReg, s)

def RegisterKernel.value {S : Type} (k : RegisterKernel S) (s : S) (root : Nat) (reg : BitVec 64) :
    Option (BitVec 32) :=
  if k.seeks (.amdgpu_regs2 root) reg then k.regs s root reg else none

section
variable {S : Type} (k : RegisterKernel S) (contents : S)

def dieState (p : OpenPartition) (xcc_id : Nat) : Option Bool := do
  let d ← p.amdgpu_debugfs_
  let grbm_status ← k.value contents d.root_ (GFXHUB_OFFSET xcc_id + grbm_status_offset)
  return guiActive grbm_status

def partitionState (p : OpenPartition) : Option Bool :=
  ((p.xcc_die_ids_.map (dieState k contents p)).find? (· ≠ some false)).getD (some false)

/-- The states up to the first partition with such a die that cannot be read. -/
def knownStates (ps : List OpenPartition) : List Bool :=
  ((ps.map (partitionState k contents)).takeWhile Option.isSome).reduceOption

variable {k contents} {p : OpenPartition} {ps : List OpenPartition}

theorem knownStates_none (unknown : partitionState k contents p = none) :
    knownStates k contents (p :: ps) = [] := by
  simp only [knownStates, List.map_cons, unknown]
  rfl

theorem knownStates_some {busy : Bool} (known : partitionState k contents p = some busy) :
    knownStates k contents (p :: ps) = busy :: knownStates k contents ps := by
  simp only [knownStates, List.map_cons, known]
  rfl

end

section
variable {S : Type} {k : RegisterKernel S} {opens : Nat → File → Bool} {m : Machine}
  {nodes : List KFDNode} {s t : Store File} {eng : OpenEngine}

theorem partitionRead_state (k : RegisterKernel S) (contents : S) (p : OpenPartition)
    (xcc_id : Nat) :
    ∃ r : Except SiftStatus (BitVec 32),
      k.partitionRead contents p (GFXHUB_OFFSET xcc_id + grbm_status_offset) = (r, contents) ∧
        dieState k contents p xcc_id = r.toOption.map guiActive := by
  unfold Kernel.partitionRead dieState
  cases p.amdgpu_debugfs_ with
  | none => exact ⟨.error .notPrivileged, rfl, rfl⟩
  | some d =>
    simp only [Kernel.readRegister, k.reads, registerOf_bytes, Option.bind_eq_bind,
      Option.bind_some, RegisterKernel.value]
    split
    · refine ⟨_, rfl, ?_⟩
      cases k.regs contents d.root_ (GFXHUB_OFFSET xcc_id + grbm_status_offset) with
      | none => rfl
      | some v => rfl
    · exact ⟨.error .error, rfl, rfl⟩

variable (built : openEngine opens m nodes s = .ok (.ok eng, t)) (drm : Nat → DRMNode)
include built

theorem anyBusy_finish {i : Nat} {p : OpenPartition} (found : eng.partitions[i]? = some p)
    (xcc_ids : List Nat) (contents : S) :
    ∃ answer, (anyBusy i xcc_ids).finish (k.answer t.cells eng drm) contents =
        (some answer, contents) ∧
      answer.toOption =
        ((xcc_ids.map (dieState k contents p)).find? (· ≠ some false)).getD (some false) := by
  induction xcc_ids with
  | nil => exact ⟨.ok false, rfl, rfl⟩
  | cons xcc_id xcc_ids ih =>
    have read := answer_readReg32 (k := k.toKernel) drm found built
      (GFXHUB_OFFSET xcc_id + grbm_status_offset) contents
    obtain ⟨r, gives, state⟩ := partitionRead_state k contents p xcc_id
    rw [gives] at read
    simp only [anyBusy, Client.finish, read, Prod.map, id, List.map_cons, state]
    cases r with
    | error status => exact ⟨.error status, rfl, rfl⟩
    | ok grbm_status =>
      by_cases active : guiActive grbm_status
      · refine ⟨.ok true, ?_, ?_⟩
        · simp only [active, if_true, Client.finish]
        · simp [Except.toOption, active]
      · obtain ⟨answer, ran, states⟩ := ih
        refine ⟨answer, ?_, ?_⟩
        · simp only [active]
          exact ran
        · simpa [Except.toOption, active] using states

theorem statusFrom_finish {i : Nat} {before ps : List OpenPartition}
    (parts : eng.partitions = before ++ ps) (at_i : before.length = i) (printed : List Char)
    (contents : S) :
    (statusFrom i printed ps).finish (k.answer t.cells eng drm) contents =
      (some (printed ++ statusLines i (knownStates k contents ps),
        if (ps.map (partitionState k contents)).all Option.isSome then 0 else -1), contents) := by
  induction ps generalizing i before printed with
  | nil =>
    have none_left : statusLines i (knownStates k contents []) = [] := rfl
    rw [none_left, List.append_nil]
    rfl
  | cons p ps ih =>
    have found : eng.partitions[i]? = some p := by
      rw [parts, List.getElem?_append_right at_i.le, at_i, Nat.sub_self]
      rfl
    obtain ⟨answer, ran, state⟩ := anyBusy_finish (k := k) built drm found p.xcc_die_ids_ contents
    change answer.toOption = partitionState k contents p at state
    simp only [statusFrom, Client.finish_bind, ran]
    cases answer with
    | error status =>
      have none_left : statusLines i [] = [] := rfl
      rw [knownStates_none state.symm, none_left, List.append_nil]
      simp only [List.map_cons, ← state]
      rfl
    | ok busy =>
      have rest : eng.partitions = (before ++ [p]) ++ ps := by
        rw [parts, List.append_assoc]
        rfl
      have at_next : (before ++ [p]).length = i + 1 := by
        rw [List.length_append, at_i]
        rfl
      have later := ih rest at_next (printed ++ statusLine i busy)
      rw [knownStates_some state.symm, statusLines_cons, ← List.append_assoc]
      simp only [List.map_cons, ← state]
      exact later

/-- The output tells of each partition up to the first with a die that cannot be read, and the exit
code whether that was all of them; what is behind the files stays as it was. -/
theorem status_reports (now : Positioned Nat (BitVec 64) S) :
    let ran := ((status eng).through (eng.systemCalls drm)).finish (k.files t.cells).step now
    let states := eng.partitions.map (partitionState k now.contents)
    ran.1 = some (statusLines 0 (knownStates k now.contents eng.partitions),
        if states.all Option.isSome then 0 else -1) ∧
      ran.2.contents = now.contents := by
  intro ran states
  have finished := systemCalls_finish (k := k.toKernel) (t := t) eng drm (status eng) now
  have all : eng.partitions = [] ++ eng.partitions := rfl
  have printed := statusFrom_finish (k := k) built drm all rfl [] now.contents
  have both := finished.trans printed
  exact ⟨congrArg Prod.fst both, congrArg Prod.snd both⟩

end

def pairRegisters : RegisterKernel Unit where
  seeks _ _ := true
  transfer f _ t s :=
    match f, t with
    | .amdgpu_regs2 root, .read n =>
      (some ((bytesOfReg (if root = 1 then 0x80000000#32 else 0#32)).take n.toNat), s)
    | _, t => (t.failed, s)
  regs _ root _ := some (if root = 1 then 0x80000000#32 else 0#32)
  reads _ _ _ := rfl

theorem status_reports_pair :
    (((status openPair).through (openPair.systemCalls pairDrm)).finish
      (pairRegisters.files pairStore.cells).step ⟨fun _ => 0#64, ()⟩).1 =
      some ("partition 0 status:IDLE\npartition 1 status:BUSY\n".toList, 0) := by
  have built : openEngine (fun _ _ => true) pairMachine pairNodes Store.empty =
      .ok (.ok openPair, pairStore) := rfl
  exact (status_reports (k := pairRegisters) built pairDrm ⟨fun _ => 0#64, ()⟩).1.trans (by decide)

end Rocsift.Cmd
