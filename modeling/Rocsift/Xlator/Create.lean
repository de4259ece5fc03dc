import Rocsift.Xlator.PageTableBase

/-! `sift_xlator_create_for_process` and the calls it is made of. The addresses of the registers
depend on the device, and the helpers that give them abort for a device they do not know; the
support of the device is checked in the last call only, and the helpers are used in the one before
it. -/
namespace Rocsift.Xlator
open Pm4 Sift

inductive Stop where
  | failed
  | aborted
  deriving DecidableEq

def isVega20 (id : BitVec 32) : Bool :=
  [0x66A0#32, 0x66A1#32, 0x66A2#32, 0x66A3#32, 0x66AF#32].contains id

def isMi200 (id : BitVec 32) : Bool := [0x740F#32, 0x7408#32, 0x740C#32].contains id
def isMi300x (id : BitVec 32) : Bool := [0x74A1#32, 0x74B5#32].contains id
def isMi300xHf (id : BitVec 32) : Bool := [0x74A9#32, 0x74BD#32].contains id
def isMi300a (id : BitVec 32) : Bool := [0x74A0#32, 0x74B4#32].contains id
def isMi325x (id : BitVec 32) : Bool := [0x74A5#32, 0x74B9#32].contains id
def isMi300 (id : BitVec 32) : Bool := isMi300a id || isMi300x id || isMi300xHf id
def isMi3xx (id : BitVec 32) : Bool := isMi300 id || isMi325x id || isMi300xHf id

def deviceSupported (device_id : BitVec 32) : Bool := isVega20 device_id || isMi3xx device_id

def RegistersKnown (device_id : BitVec 32) : Prop :=
  isMi3xx device_id = true ∨ isVega20 device_id = true ∨ isMi200 device_id = true

instance (device_id : BitVec 32) : Decidable (RegistersKnown device_id) :=
  inferInstanceAs (Decidable (_ ∨ _ ∨ _))

def registerAddr (mi3xx others : BitVec 32) (device_id : BitVec 32) : Except Stop (BitVec 32) :=
  if isMi3xx device_id then .ok mi3xx
  else if isVega20 device_id || isMi200 device_id then .ok others
  else .error .aborted

def vmContext0PageTableBaseAddrLo32 := registerAddr 0xA32C#32 0xA3AC#32
def vmContext0PageTableBaseAddrHi32 := registerAddr 0xA330#32 0xA3B0#32
def vmContext0PageTableStartAddrLo32 := registerAddr 0xA3AC#32 0xA42C#32
def vmContext0PageTableStartAddrHi32 := registerAddr 0xA3B0#32 0xA430#32
def vmContext0PageTableEndAddrLo32 := registerAddr 0xA42C#32 0xA4AC#32
def vmContext0PageTableEndAddrHi32 := registerAddr 0xA430#32 0xA4B0#32
def vmContext0Cntl := registerAddr 0xA180#32 0xA200#32
def mcVmFbOffsetBase := registerAddr 0xA51C#32 0xA5AC#32

/-- Products of `int`s, converted to `uint64_t`. -/
def gfxhubOffset (xcc_id : BitVec 32) : BitVec 64 := (0x40000#32 * xcc_id).signExtend 64
def vmidOffset (stride vmid : BitVec 32) : BitVec 64 := (stride * vmid).signExtend 64

def contextAddr (xcc_id stride vmid base : BitVec 32) : BitVec 64 :=
  gfxhubOffset xcc_id + vmidOffset stride vmid + base.setWidth 64

def findVmid (readReg32 : BitVec 64 → SiftStatus × BitVec 32) (xcc_id device_id : BitVec 32)
    (pt_base : BitVec 64) : List Nat → Except Stop (BitVec 32)
  | [] => .error .failed
  | n :: ns => do
    let v := BitVec.ofNat 32 n
    let lo_base ← vmContext0PageTableBaseAddrLo32 device_id
    let hi_base ← vmContext0PageTableBaseAddrHi32 device_id
    let pt_base_lo := readReg32 (contextAddr xcc_id 8#32 v lo_base)
    if pt_base_lo.1 ≠ .success then throw .failed
    else
      let pt_base_hi := readReg32 (contextAddr xcc_id 8#32 v hi_base)
      if pt_base_hi.1 ≠ .success then throw .failed
      else if word pt_base_hi.2 pt_base_lo.2 = pt_base then return v
      else findVmid readReg32 xcc_id device_id pt_base ns

/-- The device id is kept in 64 bits, and every use takes the lower 32. -/
def siftXlatorVmidFromPtBase (props : SiftStatus × BitVec 64) (xcc_ids : SiftStatus × BitVec 32)
    (readReg32 : BitVec 64 → SiftStatus × BitVec 32) (pt_base : BitVec 64) :
    Except Stop (BitVec 32) :=
  if props.1 ≠ .success then .error .failed
  else if xcc_ids.1 ≠ .success then .error .failed
  else findVmid readReg32 xcc_ids.2 (props.2.setWidth 32) pt_base (List.range 16)

structure XlatorT where
  part : Nat
  vmid : BitVec 32
  pt_base_addr_lo_addr : BitVec 32
  pt_base_addr_hi_addr : BitVec 32
  pt_start_addr_lo_addr : BitVec 32
  pt_start_addr_hi_addr : BitVec 32
  pt_end_addr_lo_addr : BitVec 32
  pt_end_addr_hi_addr : BitVec 32
  context_cntl_addr : BitVec 32
  mc_vm_fb_offset_addr : BitVec 32
  deriving DecidableEq

def siftXlatorCreate (part : Nat) (props : SiftStatus × BitVec 64)
    (xcc_ids : SiftStatus × BitVec 32) (vmid : BitVec 32) : Except Stop XlatorT :=
  if props.1 ≠ .success then .error .failed
  else
    let device_id : BitVec 32 := props.2.setWidth 32
    if !deviceSupported device_id then .error .failed
    else if xcc_ids.1 ≠ .success then .error .failed
    else do
      let context (stride : BitVec 32) (base : BitVec 32) : BitVec 32 :=
        (contextAddr xcc_ids.2 stride vmid base).setWidth 32
      return {
        part := part
        vmid := vmid
        pt_base_addr_lo_addr := context 8#32 (← vmContext0PageTableBaseAddrLo32 device_id)
        pt_base_addr_hi_addr := context 8#32 (← vmContext0PageTableBaseAddrHi32 device_id)
        pt_start_addr_lo_addr := context 8#32 (← vmContext0PageTableStartAddrLo32 device_id)
        pt_start_addr_hi_addr := context 8#32 (← vmContext0PageTableStartAddrHi32 device_id)
        pt_end_addr_lo_addr := context 8#32 (← vmContext0PageTableEndAddrLo32 device_id)
        pt_end_addr_hi_addr := context 8#32 (← vmContext0PageTableEndAddrHi32 device_id)
        context_cntl_addr := context 4#32 (← vmContext0Cntl device_id)
        mc_vm_fb_offset_addr :=
          (gfxhubOffset xcc_ids.2 + (← mcVmFbOffsetBase device_id).setWidth 64).setWidth 32 }

structure Proc where
  pid : BitVec 32
  pasid : BitVec 32

/-- What the calls below `sift_xlator_create_for_process` give for a partition: a status and, where
it is 0, a value. Two calls are made twice, and the second can fail on its own. -/
structure Queries where
  proc_list : SiftStatus × List Proc
  kfd_node : SiftStatus
  gpuid : SiftStatus × BitVec 32
  runlists : SiftStatus × List Runlist
  properties : SiftStatus
  properties_again : SiftStatus
  device_id : BitVec 64
  xcc_die_ids : SiftStatus
  xcc_die_ids_again : SiftStatus
  xcc_id : BitVec 32
  readReg32 : BitVec 64 → SiftStatus × BitVec 32

def siftKfdProcListDestroy (_ : List Proc) : SiftStatus := .success

def siftXlatorCreateForProcess (q : Queries) (pid : BitVec 32) (part : Nat) : Except Stop XlatorT :=
  if q.proc_list.1 ≠ .success then .error .failed
  else
    let found := q.proc_list.2.find? fun p => p.pid = pid
    if siftKfdProcListDestroy q.proc_list.2 ≠ .success then .error .failed
    else
      match found with
      | none => .error .failed
      | some proc =>
        if q.kfd_node ≠ .success then .error .failed
        else
          match siftXlatorPtBaseFromPasid q.gpuid q.runlists proc.pasid with
          | none => .error .failed
          | some pt_base => do
            let vmid ← siftXlatorVmidFromPtBase (q.properties, q.device_id)
              (q.xcc_die_ids, q.xcc_id) q.readReg32 pt_base
            siftXlatorCreate part (q.properties_again, q.device_id)
              (q.xcc_die_ids_again, q.xcc_id) vmid

/-- All calls before the first register is looked up succeed: the process is found, and so is an
entry of its pasid in the runlist that is searched. -/
structure LooksUp (q : Queries) (pid : BitVec 32) : Prop where
  proc_list : q.proc_list.1 = .success
  kfd_node : q.kfd_node = .success
  gpuid : q.gpuid.1 = .success
  runlists : q.runlists.1 = .success
  process : ∃ proc rls b, q.proc_list.2.find? (fun p => p.pid = pid) = some proc ∧
    findRunlist q.gpuid.2 none q.runlists.2 = some rls ∧ MapsProcess rls proc.pasid b
  properties : q.properties = .success
  xcc_die_ids : q.xcc_die_ids = .success

section
variable {mi3xx others device_id : BitVec 32}

theorem registerAddr_known (mi3xx others : BitVec 32) (known : RegistersKnown device_id) :
    ∃ a, registerAddr mi3xx others device_id = .ok a := by
  unfold registerAddr
  split
  · exact ⟨_, rfl⟩
  · rename_i other
    have older := known.resolve_left other
    rw [if_pos (Bool.or_eq_true _ _ ▸ older)]
    exact ⟨_, rfl⟩

theorem bind_known {A : Type} (known : RegistersKnown device_id) {f : BitVec 32 → Except Stop A}
    (rest : ∀ a, f a ≠ .error .aborted) :
    (registerAddr mi3xx others device_id >>= f) ≠ .error .aborted := by
  obtain ⟨a, lookup⟩ := registerAddr_known mi3xx others known
  rw [lookup]
  exact rest a

theorem registerAddr_unknown (unknown : ¬RegistersKnown device_id) :
    registerAddr mi3xx others device_id = .error .aborted := by
  obtain ⟨other, older⟩ := not_or.mp unknown
  rw [registerAddr, if_neg other, if_neg (by simpa only [Bool.or_eq_true] using older)]

theorem known_of_supported (supported : deviceSupported device_id = true) :
    RegistersKnown device_id := by
  rcases (Bool.or_eq_true _ _).mp supported with vega | mi3xx
  · exact Or.inr (Or.inl vega)
  · exact Or.inl mi3xx

end

section
variable {readReg32 : BitVec 64 → SiftStatus × BitVec 32} {xcc_id device_id : BitVec 32}
  {pt_base : BitVec 64}

theorem findVmid_known (known : RegistersKnown device_id) (ns : List Nat) :
    findVmid readReg32 xcc_id device_id pt_base ns ≠ .error .aborted := by
  induction ns with
  | nil => exact fun same => nomatch same
  | cons n ns ih =>
    refine bind_known known fun lo_base => bind_known known fun hi_base => ?_
    dsimp only
    split
    · exact fun same => nomatch same
    · split
      · exact fun same => nomatch same
      · split
        · exact fun same => nomatch same
        · exact ih

theorem findVmid_unknown (unknown : ¬RegistersKnown device_id) (n : Nat) (ns : List Nat) :
    findVmid readReg32 xcc_id device_id pt_base (n :: ns) = .error .aborted := by
  simp only [findVmid, vmContext0PageTableBaseAddrLo32, registerAddr_unknown unknown, bind,
    Except.bind]

end

theorem siftXlatorCreate_supported (part : Nat) (props : SiftStatus × BitVec 64)
    (xcc_ids : SiftStatus × BitVec 32) (vmid : BitVec 32) :
    siftXlatorCreate part props xcc_ids vmid ≠ .error .aborted ∧
      ∀ x, siftXlatorCreate part props xcc_ids vmid = .ok x →
        deviceSupported (props.2.setWidth 32) = true := by
  unfold siftXlatorCreate
  split
  · exact ⟨fun same => (nomatch same), fun _ none => nomatch none⟩
  · dsimp only
    split
    · exact ⟨fun same => (nomatch same), fun _ none => nomatch none⟩
    · rename_i supported
      have supported : deviceSupported (props.2.setWidth 32) = true := by simpa using supported
      have known := known_of_supported supported
      refine ⟨?_, fun _ _ => supported⟩
      split
      · exact fun same => nomatch same
      · refine bind_known known fun _ => bind_known known fun _ => bind_known known fun _ => ?_
        refine bind_known known fun _ => bind_known known fun _ => bind_known known fun _ => ?_
        exact bind_known known fun _ => bind_known known fun _ same => nomatch same

theorem ptBase_isSome_iff (gpuid : SiftStatus × BitVec 32) (runlists : SiftStatus × List Runlist)
    (pasid : BitVec 32) : (∃ base, siftXlatorPtBaseFromPasid gpuid runlists pasid = some base) ↔
      gpuid.1 = .success ∧ runlists.1 = .success ∧ ∃ rls b,
        findRunlist gpuid.2 none runlists.2 = some rls ∧ MapsProcess rls pasid b := by
  unfold siftXlatorPtBaseFromPasid
  split
  · rename_i failed
    exact iff_of_false (by simp) fun ok => failed ok.1
  · rename_i gpuid_ok
    split
    · rename_i failed
      exact iff_of_false (by simp) fun ok => failed ok.2.1
    · rename_i runlists_ok
      rw [not_not] at gpuid_ok runlists_ok
      simp only [gpuid_ok, runlists_ok, true_and]
      cases search : findRunlist gpuid.2 none runlists.2 with
      | none => simp
      | some rls =>
        dsimp only
        rcases findEntry_cases pasid rls with ⟨b, entry, maps⟩ | ⟨entry, unmapped⟩
        · rw [entry]
          exact iff_of_true ⟨_, rfl⟩ ⟨rls, b, rfl, maps⟩
        · rw [entry]
          refine iff_of_false (by simp) ?_
          rintro ⟨_, b, ⟨⟩, maps⟩
          exact unmapped b maps

section
variable {q : Queries} {pid : BitVec 32} (part : Nat)

theorem createForProcess_looksUp (looks : LooksUp q pid) : ∃ pt_base,
    siftXlatorCreateForProcess q pid part =
      findVmid q.readReg32 q.xcc_id (q.device_id.setWidth 32) pt_base (List.range 16) >>=
        siftXlatorCreate part (q.properties_again, q.device_id)
          (q.xcc_die_ids_again, q.xcc_id) := by
  obtain ⟨proc, rls, b, found, search, maps⟩ := looks.process
  obtain ⟨pt_base, lookup⟩ := (ptBase_isSome_iff q.gpuid q.runlists proc.pasid).mpr
    ⟨looks.gpuid, looks.runlists, rls, b, search, maps⟩
  refine ⟨pt_base, ?_⟩
  simp only [siftXlatorCreateForProcess, looks.proc_list, siftKfdProcListDestroy, found,
    looks.kfd_node, lookup, siftXlatorVmidFromPtBase, looks.properties, looks.xcc_die_ids, ne_eq,
    not_true, if_false]

theorem createForProcess_fails (stops : ¬LooksUp q pid) :
    siftXlatorCreateForProcess q pid part = .error .failed := by
  unfold siftXlatorCreateForProcess
  split
  · rfl
  · rename_i proc_list
    rw [not_not] at proc_list
    dsimp only
    split
    · rfl
    · split
      · rfl
      · rename_i proc found
        split
        · rfl
        · rename_i kfd_node
          rw [not_not] at kfd_node
          split
          · rfl
          · rename_i pt_base lookup
            obtain ⟨gpuid, runlists, rls, b, search, maps⟩ :=
              (ptBase_isSome_iff q.gpuid q.runlists proc.pasid).mp ⟨pt_base, lookup⟩
            unfold siftXlatorVmidFromPtBase
            split
            · rfl
            · rename_i properties
              rw [not_not] at properties
              split
              · rfl
              · rename_i xcc_die_ids
                rw [not_not] at xcc_die_ids
                exact absurd ⟨proc_list, kfd_node, gpuid, runlists,
                  ⟨proc, rls, b, found, search, maps⟩, properties, xcc_die_ids⟩ stops

end

structure ErrorNotAbort (q : Queries) (pid : BitVec 32) (part : Nat) : Prop where
  returns : siftXlatorCreateForProcess q pid part ≠ .error .aborted
  supported : ∀ x, siftXlatorCreateForProcess q pid part = .ok x →
    deviceSupported (q.device_id.setWidth 32) = true

/-- An unsupported device is reported as an error exactly where the helpers know its registers, or
a call before the first of them fails. -/
theorem error_not_abort_iff (q : Queries) (pid : BitVec 32) (part : Nat) :
    ErrorNotAbort q pid part ↔
      (LooksUp q pid → RegistersKnown (q.device_id.setWidth 32)) := by
  by_cases looks : LooksUp q pid
  · obtain ⟨pt_base, steps⟩ := createForProcess_looksUp part looks
    constructor
    · intro fine _
      by_contra unknown
      rw [List.range_succ_eq_map, findVmid_unknown unknown] at steps
      exact fine.returns steps
    · intro known
      have vmid : findVmid q.readReg32 q.xcc_id (q.device_id.setWidth 32) pt_base
          (List.range 16) ≠ .error .aborted := findVmid_known (known looks) (List.range 16)
      cases found : findVmid q.readReg32 q.xcc_id (q.device_id.setWidth 32) pt_base
          (List.range 16) with
      | error stop =>
        rw [found] at steps vmid
        refine ⟨fun same => vmid ?_, fun x same => nomatch steps.symm.trans same⟩
        exact congrArg Except.error (Except.error.inj (steps.symm.trans same))
      | ok v =>
        rw [found] at steps
        obtain ⟨returns, supported⟩ := siftXlatorCreate_supported part
          (q.properties_again, q.device_id) (q.xcc_die_ids_again, q.xcc_id) v
        exact ⟨fun same => returns (steps.symm.trans same),
          fun x same => supported x (steps.symm.trans same)⟩
  · have stops := createForProcess_fails part looks
    refine iff_of_true ⟨?_, ?_⟩ fun looks' => absurd looks' looks
    · exact fun same => nomatch stops.symm.trans same
    · exact fun x same => nomatch stops.symm.trans same

def onMi100 : Queries where
  proc_list := (.success, [⟨42#32, 0x8000#32⟩])
  kfd_node := .success
  gpuid := (.success, 1#32)
  runlists := (.success, [⟨⟨1#32, 1#32⟩, [⟨⟨opMapProcess, 20#16, .type3⟩,
    .mapProcess (processBody 0x8000#32 1#32 0x41875003#32)⟩]⟩])
  properties := .success
  properties_again := .success
  device_id := 0x738C#64
  xcc_die_ids := .success
  xcc_die_ids_again := .success
  xcc_id := 0#32
  readReg32 _ := (.success, 0#32)

theorem mi100_aborts : siftXlatorCreateForProcess onMi100 42#32 0 = .error .aborted ∧
    ¬ErrorNotAbort onMi100 42#32 0 := by
  have aborts : siftXlatorCreateForProcess onMi100 42#32 0 = .error .aborted := by
    decide +kernel
  exact ⟨aborts, fun fine => fine.returns aborts⟩

end Rocsift.Xlator
