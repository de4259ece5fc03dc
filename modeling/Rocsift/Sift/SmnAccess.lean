import Rocsift.Base.BitField
import Rocsift.Base.Interleaving

/-! Indirect accesses to SMN registers. Each is three MMIO steps on registers that all clients of a
GPU share: the two halves of the address, then the data. Nothing holds other clients off between
them. -/
namespace Rocsift.Sift
open Interleaving

def RSMU_INDEX_OFFSET : BitVec 64 := 0x50#64
def RSMU_DATA_OFFSET : BitVec 64 := 0x54#64
def RSMU_INDEX_HI_OFFSET : BitVec 64 := 0x58#64

inductive MmioOp where
  | read (reg : BitVec 64)
  | write (reg : BitVec 64) (value : BitVec 32)
  deriving DecidableEq

structure Rsmu where
  index_hi : BitVec 32
  index : BitVec 32
  smn : BitVec 64 → BitVec 32

namespace Rsmu

def selected (hw : Rsmu) : BitVec 64 := (hw.index_hi.setWidth 8 ++ hw.index).setWidth 64

def step (hw : Rsmu) : MmioOp → Rsmu
  | .read _ => hw
  | .write reg value =>
    if reg = RSMU_INDEX_HI_OFFSET then { hw with index_hi := value }
    else if reg = RSMU_INDEX_OFFSET then { hw with index := value }
    else if reg = RSMU_DATA_OFFSET then { hw with smn := Function.update hw.smn hw.selected value }
    else hw

def data (hw : Rsmu) : BitVec 32 := hw.smn hw.selected

end Rsmu

structure SmnReg where
  reg : BitVec 64
  small : reg.toNat < 2 ^ 40

def SmnReg.lo (r : SmnReg) : BitVec 32 := (r.reg &&& 0xFFFFFFFF#64).setWidth 32
def SmnReg.hi (r : SmnReg) : BitVec 32 := ((r.reg >>> 32) &&& 0xFF#64).setWidth 32

inductive Access where
  | readReg32 (reg : SmnReg)
  | writeReg32 (reg : SmnReg) (value : BitVec 32)

namespace Access

def reg : Access → SmnReg
  | .readReg32 reg => reg
  | .writeReg32 reg _ => reg

def indexHi (a : Access) : MmioOp := .write RSMU_INDEX_HI_OFFSET a.reg.hi

def index (a : Access) : MmioOp := .write RSMU_INDEX_OFFSET a.reg.lo

def last : Access → MmioOp
  | .readReg32 _ => .read RSMU_DATA_OFFSET
  | .writeReg32 _ value => .write RSMU_DATA_OFFSET value

def steps (a : Access) : List MmioOp := [a.indexHi, a.index, a.last]

end Access

section
variable {I : Type} [DecidableEq I]

/-- An access of a client in a run: what comes before it, between its steps, and behind. -/
structure AccessRun (c : I) (a : Access) (trace : List (I × MmioOp)) where
  before : List (I × MmioOp)
  half : List (I × MmioOp)
  chosen : List (I × MmioOp)
  behind : List (I × MmioOp)
  split : trace =
    before ++ (c, a.indexHi) :: (half ++ (c, a.index) :: (chosen ++ (c, a.last) :: behind))
  alone : own c half = [] ∧ own c chosen = []

namespace AccessRun
variable {c : I} {a : Access} {trace : List (I × MmioOp)} (call : AccessRun c a trace)

def during : List (I × MmioOp) := (c, a.indexHi) :: (call.half ++ (c, a.index) :: call.chosen)

def start (hw : Rsmu) : Rsmu := after Rsmu.step hw call.before

def final (hw : Rsmu) : Rsmu := after Rsmu.step (call.start hw) call.during

def middle (hw : Rsmu) : Rsmu := after Rsmu.step (call.start hw) ((c, a.indexHi) :: call.half)

/-- A read returns a value that its register held during the call; a write changes its register
and no other one. -/
def Right (hw : Rsmu) : Prop :=
  match a with
  | .readReg32 r => ∃ early late, call.during = early ++ late ∧
      (call.final hw).data = (after Rsmu.step (call.start hw) early).smn r.reg
  | .writeReg32 r value =>
    ((call.start hw).step a.indexHi).smn = (call.start hw).smn ∧
      ((call.middle hw).step a.index).smn = (call.middle hw).smn ∧
        ((call.final hw).step a.last).smn = Function.update (call.final hw).smn r.reg value

/-- No other client puts a different value into an index register before the last step. -/
structure Undisturbed : Prop where
  hi : ∀ e ∈ call.half ++ call.chosen, ∀ v, e.2 = .write RSMU_INDEX_HI_OFFSET v → v = a.reg.hi
  lo : ∀ e ∈ call.chosen, ∀ v, e.2 = .write RSMU_INDEX_OFFSET v → v = a.reg.lo

end AccessRun

end

theorem selected_reg {hw : Rsmu} {r : SmnReg} (hi : hw.index_hi = r.hi) (lo : hw.index = r.lo) :
    hw.selected = r.reg := by
  have small := r.small
  have high : (r.hi.setWidth 8).toNat = r.reg.toNat / 2 ^ 32 := by
    have mask : (0xFF#64).toNat = 2 ^ 8 - 1 := rfl
    rw [SmnReg.hi, BitVec.toNat_setWidth, BitVec.toNat_setWidth, BitVec.toNat_and, mask,
      Nat.and_two_pow_sub_one_eq_mod, BitVec.toNat_ushiftRight, Nat.shiftRight_eq_div_pow]
    omega
  have low : r.lo.toNat = r.reg.toNat % 2 ^ 32 := by
    have mask : (0xFFFFFFFF#64).toNat = 2 ^ 32 - 1 := rfl
    rw [SmnReg.lo, BitVec.toNat_setWidth, BitVec.toNat_and, mask, Nat.and_two_pow_sub_one_eq_mod]
    omega
  apply BitVec.eq_of_toNat_eq
  rw [Rsmu.selected, hi, lo, BitVec.toNat_setWidth, BitField.append_toNat, high, low]
  omega

section
variable {hw : Rsmu} {op : MmioOp} {v : BitVec 32}

theorem step_index_hi (same : ∀ w, op = .write RSMU_INDEX_HI_OFFSET w → w = v)
    (start : hw.index_hi = v) : (hw.step op).index_hi = v := by
  cases op with
  | read reg => exact start
  | write reg value =>
    by_cases here : reg = RSMU_INDEX_HI_OFFSET
    · rw [Rsmu.step, if_pos here]
      exact same value (here ▸ rfl)
    · rw [Rsmu.step, if_neg here]
      split
      · exact start
      · split <;> exact start

theorem step_index (same : ∀ w, op = .write RSMU_INDEX_OFFSET w → w = v)
    (start : hw.index = v) : (hw.step op).index = v := by
  cases op with
  | read reg => exact start
  | write reg value =>
    rw [Rsmu.step]
    split
    · exact start
    · by_cases here : reg = RSMU_INDEX_OFFSET
      · rw [if_pos here]
        exact same value (here ▸ rfl)
      · rw [if_neg here]
        split <;> exact start

end

section
variable {I : Type} [DecidableEq I] {c : I} {a : Access} {trace : List (I × MmioOp)}

theorem AccessRun.final_selected (call : AccessRun c a trace) (alone : call.Undisturbed)
    (hw : Rsmu) : (call.final hw).selected = a.reg.reg := by
  apply selected_reg
  · rw [AccessRun.final, AccessRun.during, after_cons]
    refine after_keeps (fun s : Rsmu => s.index_hi = a.reg.hi) ?_ rfl
    intro e member s
    refine step_index_hi fun w same => ?_
    rcases List.mem_append.mp member with half | rest
    · exact alone.hi e (List.mem_append_left _ half) w same
    · rcases List.mem_cons.mp rest with rfl | chosen
      · cases same
      · exact alone.hi e (List.mem_append_right _ chosen) w same
  · have shape : call.during = ((c, a.indexHi) :: call.half) ++ (c, a.index) :: call.chosen := rfl
    rw [AccessRun.final, shape, after_append, after_cons]
    refine after_keeps (fun s : Rsmu => s.index = a.reg.lo) ?_ rfl
    intro e member s
    exact step_index fun w same => alone.lo e member w same

theorem AccessRun.right (call : AccessRun c a trace) (alone : call.Undisturbed) (hw : Rsmu) :
    call.Right hw := by
  have selected := call.final_selected alone hw
  cases a with
  | readReg32 r =>
    refine ⟨call.during, [], (List.append_nil _).symm, ?_⟩
    exact congrArg (call.final hw).smn selected
  | writeReg32 r value =>
    refine ⟨rfl, rfl, ?_⟩
    exact congrArg (fun s => Function.update (call.final hw).smn s value) selected

theorem AccessRun.unique (call call' : AccessRun c a trace)
    (place : (own c call.before).length = (own c call'.before).length) : call = call' := by
  obtain ⟨before, half, chosen, behind, split, alone⟩ := call
  obtain ⟨before', half', chosen', behind', split', alone'⟩ := call'
  obtain ⟨rfl, rest⟩ := split_unique (split.symm.trans split') place
  obtain ⟨rfl, rest'⟩ := split_unique rest (by rw [alone.1, alone'.1])
  obtain ⟨rfl, rfl⟩ := split_unique rest' (by rw [alone.2, alone'.2])
  rfl

theorem call_of_completed {programs : I → List Access}
    (order : Interleaves (fun c => (programs c).flatMap Access.steps) trace) {m : Nat}
    (at_m : (programs c)[m]? = some a) (completed : 3 * (m + 1) ≤ (own c trace).length) :
    ∃ call : AccessRun c a trace, (own c call.before).length = 3 * m := by
  obtain ⟨inside, rfl⟩ := List.getElem?_eq_some_iff.mp at_m
  have parts : programs c =
      (programs c).take m ++ (programs c)[m] :: (programs c).drop (m + 1) := by
    rw [List.getElem_cons_drop, List.take_append_drop]
  have three : ∀ l : List Access, (l.flatMap Access.steps).length = 3 * l.length := by
    intro l
    induction l with
    | nil => rfl
    | cons b l ih =>
      rw [List.flatMap_cons, List.length_append, ih, List.length_cons]
      change 3 + 3 * l.length = _
      omega
  have done : (((programs c).take m).flatMap Access.steps).length = 3 * m := by
    rw [three, List.length_take, Nat.min_eq_left (Nat.le_of_lt inside)]
  have start : ((programs c).take m).flatMap Access.steps ++ (programs c)[m].steps <+:
      (programs c).flatMap Access.steps := by
    conv_rhs => rw [parts, List.flatMap_append, List.flatMap_cons, ← List.append_assoc]
    exact List.prefix_append _ _
  obtain ⟨more, steps⟩ := List.prefix_of_prefix_length_le start (order c) (by
    rw [List.length_append, done]
    exact completed)
  rw [List.append_assoc] at steps
  obtain ⟨before, late, split, own_before, rest⟩ := own_split_at steps.symm
  obtain ⟨half, later, rfl, alone, rest⟩ := own_split rest
  obtain ⟨chosen, behind, rfl, alone', -⟩ := own_split rest
  exact ⟨⟨before, half, chosen, behind, split, alone, alone'⟩, by rw [own_before, done]⟩

end

theorem undisturbed_accesses_right {I : Type} [DecidableEq I] (programs : I → List Access)
    (trace : List (I × MmioOp))
    (order : Interleaves (fun c => (programs c).flatMap Access.steps) trace) (hw : Rsmu) (c : I)
    (m : Nat) (a : Access) (at_m : (programs c)[m]? = some a)
    (completed : 3 * (m + 1) ≤ (own c trace).length) :
    ∃ call : AccessRun c a trace, (own c call.before).length = 3 * m ∧
      (call.Undisturbed → call.Right hw) := by
  obtain ⟨call, place⟩ := call_of_completed order at_m completed
  exact ⟨call, place, fun alone => call.right alone hw⟩

def firstReg : SmnReg := ⟨0x10#64, by decide⟩
def secondReg : SmnReg := ⟨0x20#64, by decide⟩

def twoReads (c : Bool) : List Access := [.readReg32 (if c then secondReg else firstReg)]

def addressed : Rsmu := ⟨0#32, 0#32, fun reg => reg.setWidth 32⟩

def readAndWrite (c : Bool) : List Access :=
  if c then [.writeReg32 secondReg 7#32] else [.readReg32 firstReg]

/-- Both clients write index-high before either goes on; their registers have the same upper
half. -/
def sharedHi : List (Bool × MmioOp) :=
  let read := Access.readReg32 firstReg
  let write := Access.writeReg32 secondReg 7#32
  [(false, read.indexHi), (true, write.indexHi), (false, read.index), (false, read.last),
    (true, write.index), (true, write.last)]

def sharedHiRead : AccessRun false (.readReg32 firstReg) sharedHi :=
  let write := Access.writeReg32 secondReg 7#32
  ⟨[], [(true, write.indexHi)], [], [(true, write.index), (true, write.last)], rfl, rfl, rfl⟩

def sharedHiWrite : AccessRun true (.writeReg32 secondReg 7#32) sharedHi :=
  let read := Access.readReg32 firstReg
  ⟨[(false, read.indexHi)], [(false, read.index), (false, read.last)], [], [], rfl, rfl, rfl⟩

theorem sharedHiRead_undisturbed : sharedHiRead.Undisturbed := by
  refine ⟨fun e member v same => ?_, fun e member => absurd member List.not_mem_nil⟩
  obtain rfl := List.mem_singleton.mp member
  exact (MmioOp.write.inj same).2.symm

theorem sharedHiWrite_undisturbed : sharedHiWrite.Undisturbed := by
  refine ⟨fun e member v same => ?_, fun e member => absurd member List.not_mem_nil⟩
  rcases List.mem_cons.mp member with rfl | member
  · exact absurd (MmioOp.write.inj same).1 (by decide)
  · obtain rfl := List.mem_singleton.mp member
    cases same

theorem undisturbed_accesses_right_sharedHi :
    sharedHiRead.Right addressed ∧ sharedHiWrite.Right addressed := by
  have order : Interleaves (fun c => (readAndWrite c).flatMap Access.steps) sharedHi :=
    fun c => by cases c <;> exact ⟨[], by decide⟩
  constructor
  · obtain ⟨call, place, right⟩ := undisturbed_accesses_right readAndWrite sharedHi order addressed
      false 0 (.readReg32 firstReg) rfl (by decide)
    obtain rfl := call.unique sharedHiRead place
    exact right sharedHiRead_undisturbed
  · obtain ⟨call, place, right⟩ := undisturbed_accesses_right readAndWrite sharedHi order addressed
      true 0 (.writeReg32 secondReg 7#32) rfl (by decide)
    obtain rfl := call.unique sharedHiWrite place
    exact right sharedHiWrite_undisturbed

/-- The second client chooses its register before the first one reads. -/
def mixed : List (Bool × MmioOp) :=
  let first := Access.readReg32 firstReg
  let second := Access.readReg32 secondReg
  [(false, first.indexHi), (false, first.index), (true, second.indexHi), (true, second.index),
    (false, first.last), (true, second.last)]

def mixedCall : AccessRun false (.readReg32 firstReg) mixed :=
  let second := Access.readReg32 secondReg
  ⟨[], [], [(true, second.indexHi), (true, second.index)], [(true, second.last)], rfl, rfl, rfl⟩

theorem mixed_smn {early late : List (Bool × MmioOp)} (split : mixedCall.during = early ++ late) :
    (after Rsmu.step addressed early).smn = addressed.smn := by
  refine after_keeps (fun s : Rsmu => s.smn = addressed.smn) ?_ rfl
  intro e member s start
  have among : e.2 ∈ (early ++ late).map Prod.snd :=
    List.mem_map_of_mem (List.mem_append_left late member)
  rw [← split] at among
  simp only [mixedCall, AccessRun.during, List.nil_append, List.map_cons, List.map_nil,
    List.mem_cons, List.not_mem_nil, or_false] at among
  rcases among with same | same | same | same <;> rw [same] <;> exact start

theorem mixed_reads_wrong :
    Interleaves (fun c => (twoReads c).flatMap Access.steps) mixed ∧
      ∃ call : AccessRun false (.readReg32 firstReg) mixed,
        (own false call.before).length = 0 ∧ ¬ call.Right addressed := by
  refine ⟨fun c => by cases c <;> exact ⟨[], by decide⟩, mixedCall, rfl, ?_⟩
  rintro ⟨early, late, split, value⟩
  have got : (mixedCall.final addressed).data = 0x20#32 := by decide
  have start : mixedCall.start addressed = addressed := rfl
  rw [got, start, mixed_smn split] at value
  exact absurd value (by decide)

end Rocsift.Sift
