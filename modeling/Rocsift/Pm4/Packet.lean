import Rocsift.Base.BitField
import Rocsift.Base.Reading

/-! PM4 packets as pm4.cc decodes them from an array of dwords. The decoders read through a span
without a bounds check, so they are programs over a memory that goes on past the array.
Allocations succeed. -/
namespace Rocsift.Pm4

abbrev Dword := BitVec 32

abbrev Decoder := Reading Nat Dword

def slice (val : BitVec 64) (msb lsb : Nat) : BitVec 64 := BitField.extract val msb lsb

inductive Status where
  | success | error | noMatch
  deriving DecidableEq, Repr

structure ResultStatus (A : Type) where
  status : Status
  value : Option A
  deriving DecidableEq

def ResultStatus.ok {A : Type} (a : A) : ResultStatus A := ⟨.success, some a⟩
def ResultStatus.error {A : Type} : ResultStatus A := ⟨.error, none⟩
def ResultStatus.noMatch {A : Type} : ResultStatus A := ⟨.noMatch, none⟩

inductive PacketType where
  | type1 | type2 | type3
  deriving DecidableEq, Repr

def opMapProcess : BitVec 8 := 0xA1#8
def opMapQueues : BitVec 8 := 0xA2#8

structure Header where
  opcode : BitVec 8
  count : BitVec 16
  type : PacketType
  deriving DecidableEq, Repr

structure BodyMapProcess where
  single_memop : Bool
  debug_flag : Bool
  tmz : Bool
  diq_enable : Bool
  sdma_enable : Bool
  pasid : BitVec 32
  debug_vmid : BitVec 16
  process_quantum : BitVec 8
  vm_context_page_table_base_addr_lo32 : BitVec 32
  vm_context_page_table_base_addr_hi32 : BitVec 32
  sh_mem_bases : BitVec 32
  sh_mem_config : BitVec 32
  sq_shader_tba_lo : BitVec 32
  sq_shader_tba_hi : BitVec 32
  sq_shader_tma_lo : BitVec 32
  sq_shader_tma_hi : BitVec 32
  gds_addr_lo : BitVec 32
  gds_addr_hi : BitVec 32
  num_gws : BitVec 8
  num_oac : BitVec 8
  gds_size_hi : BitVec 8
  gds_size_lo : BitVec 8
  num_queues : BitVec 16
  spi_gdbg_per_vmid_cntl : BitVec 32
  tcp_watch0_cntl : BitVec 32
  tcp_watch1_cntl : BitVec 32
  tcp_watch2_cntl : BitVec 32
  tcp_watch3_cntl : BitVec 32
  completion_signal_lo32 : BitVec 32
  completion_signal_hi32 : BitVec 32
  deriving DecidableEq

structure BodyMapQueues where
  extended_engine_sel : BitVec 8
  queue_sel : BitVec 8
  vmid : BitVec 8
  gws_enabled : Bool
  queue : BitVec 8
  queue_type : BitVec 8
  static_queue_group : BitVec 8
  engine_sel : BitVec 8
  num_queues : BitVec 8
  check_disable : Bool
  doorbell_offset : BitVec 32
  mqd_addr_lo : BitVec 32
  mqd_addr_hi : BitVec 32
  wptr_addr_lo : BitVec 32
  wptr_addr_hi : BitVec 32
  deriving DecidableEq

inductive Body where
  | mapProcess (b : BodyMapProcess)
  | mapQueues (b : BodyMapQueues)
  deriving DecidableEq

structure RunlistEntry where
  header : Header
  body : Body
  deriving DecidableEq

structure Span where
  arr : Nat
  length : Nat
  deriving DecidableEq

namespace Span

def subspan (s : Span) (offset count : Nat) : Span := ⟨s.arr + offset, count⟩

/-- `operator[]`: no check against the length. -/
def index (s : Span) (idx : Nat) : Decoder Dword := Reading.get (s.arr + idx)

def Holds (s : Span) (i : Nat) : Prop := s.arr ≤ i ∧ i < s.arr + s.length

instance (s : Span) (i : Nat) : Decidable (s.Holds i) :=
  inferInstanceAs (Decidable (s.arr ≤ i ∧ i < s.arr + s.length))

end Span

def toBool (v : BitVec 64) : Bool := v != 0#64

def getBodySlice (body_data : Span) (idx msb lsb : Nat) : Decoder (BitVec 64) := do
  let d ← body_data.index (idx - 2)
  return slice (d.setWidth 64) msb lsb

def parseBodyMapProcess (body_data : Span) : Decoder BodyMapProcess := do
  let pasid ← getBodySlice body_data 2 15 0
  let single_memop ← getBodySlice body_data 2 16 16
  let debug_vmid ← getBodySlice body_data 2 21 18
  let debug_flag ← getBodySlice body_data 2 22 22
  let tmz ← getBodySlice body_data 2 23 23
  let diq_enable ← getBodySlice body_data 2 24 24
  let process_quantum ← getBodySlice body_data 2 31 25
  let vm_context_page_table_base_addr_lo32 ← getBodySlice body_data 3 31 0
  let vm_context_page_table_base_addr_hi32 ← getBodySlice body_data 4 31 0
  let sh_mem_bases ← getBodySlice body_data 5 31 0
  let sh_mem_config ← getBodySlice body_data 6 31 0
  let sq_shader_tba_lo ← getBodySlice body_data 7 31 0
  let sq_shader_tba_hi ← getBodySlice body_data 8 31 0
  let sq_shader_tma_lo ← getBodySlice body_data 9 31 0
  let sq_shader_tma_hi ← getBodySlice body_data 10 31 0
  let gds_addr_lo ← getBodySlice body_data 12 31 0
  let gds_addr_hi ← getBodySlice body_data 13 31 0
  let num_gws ← getBodySlice body_data 14 6 0
  let sdma_enable ← getBodySlice body_data 14 7 0
  let num_oac ← getBodySlice body_data 14 11 8
  let gds_size_hi ← getBodySlice body_data 14 15 12
  let gds_size_lo ← getBodySlice body_data 14 21 16
  let num_queues ← getBodySlice body_data 14 31 22
  let spi_gdbg_per_vmid_cntl ← getBodySlice body_data 15 31 0
  let tcp_watch0_cntl ← getBodySlice body_data 16 31 0
  let tcp_watch1_cntl ← getBodySlice body_data 17 31 0
  let tcp_watch2_cntl ← getBodySlice body_data 18 31 0
  let tcp_watch3_cntl ← getBodySlice body_data 19 31 0
  let completion_signal_lo32 ← getBodySlice body_data 20 31 0
  let completion_signal_hi32 ← getBodySlice body_data 21 31 0
  return {
    single_memop := toBool single_memop
    debug_flag := toBool debug_flag
    tmz := toBool tmz
    diq_enable := toBool diq_enable
    sdma_enable := toBool sdma_enable
    pasid := pasid.setWidth 32
    debug_vmid := debug_vmid.setWidth 16
    process_quantum := process_quantum.setWidth 8
    vm_context_page_table_base_addr_lo32 := vm_context_page_table_base_addr_lo32.setWidth 32
    vm_context_page_table_base_addr_hi32 := vm_context_page_table_base_addr_hi32.setWidth 32
    sh_mem_bases := sh_mem_bases.setWidth 32
    sh_mem_config := sh_mem_config.setWidth 32
    sq_shader_tba_lo := sq_shader_tba_lo.setWidth 32
    sq_shader_tba_hi := sq_shader_tba_hi.setWidth 32
    sq_shader_tma_lo := sq_shader_tma_lo.setWidth 32
    sq_shader_tma_hi := sq_shader_tma_hi.setWidth 32
    gds_addr_lo := gds_addr_lo.setWidth 32
    gds_addr_hi := gds_addr_hi.setWidth 32
    num_gws := num_gws.setWidth 8
    num_oac := num_oac.setWidth 8
    gds_size_hi := gds_size_hi.setWidth 8
    gds_size_lo := gds_size_lo.setWidth 8
    num_queues := num_queues.setWidth 16
    spi_gdbg_per_vmid_cntl := spi_gdbg_per_vmid_cntl.setWidth 32
    tcp_watch0_cntl := tcp_watch0_cntl.setWidth 32
    tcp_watch1_cntl := tcp_watch1_cntl.setWidth 32
    tcp_watch2_cntl := tcp_watch2_cntl.setWidth 32
    tcp_watch3_cntl := tcp_watch3_cntl.setWidth 32
    completion_signal_lo32 := completion_signal_lo32.setWidth 32
    completion_signal_hi32 := completion_signal_hi32.setWidth 32 }

def parseBodyMapQueues (body_data : Span) : Decoder BodyMapQueues := do
  let extended_engine_sel ← getBodySlice body_data 2 3 2
  let queue_sel ← getBodySlice body_data 2 5 4
  let vmid ← getBodySlice body_data 2 11 8
  let gws_enabled ← getBodySlice body_data 2 12 12
  let queue ← getBodySlice body_data 2 20 13
  let queue_type ← getBodySlice body_data 2 23 21
  let static_queue_group ← getBodySlice body_data 2 25 24
  let engine_sel ← getBodySlice body_data 2 28 26
  let num_queues ← getBodySlice body_data 2 31 29
  let check_disable ← getBodySlice body_data 3 1 1
  let doorbell_offset ← getBodySlice body_data 3 27 2
  let mqd_addr_lo ← getBodySlice body_data 4 31 0
  let mqd_addr_hi ← getBodySlice body_data 5 31 0
  let wptr_addr_lo ← getBodySlice body_data 6 31 0
  let wptr_addr_hi ← getBodySlice body_data 7 31 0
  return {
    extended_engine_sel := extended_engine_sel.setWidth 8
    queue_sel := queue_sel.setWidth 8
    vmid := vmid.setWidth 8
    gws_enabled := toBool gws_enabled
    queue := queue.setWidth 8
    queue_type := queue_type.setWidth 8
    static_queue_group := static_queue_group.setWidth 8
    engine_sel := engine_sel.setWidth 8
    num_queues := num_queues.setWidth 8
    check_disable := toBool check_disable
    doorbell_offset := doorbell_offset.setWidth 32
    mqd_addr_lo := mqd_addr_lo.setWidth 32
    mqd_addr_hi := mqd_addr_hi.setWidth 32
    wptr_addr_lo := wptr_addr_lo.setWidth 32
    wptr_addr_hi := wptr_addr_hi.setWidth 32 }

/-- Bits 29:16 of a header hold the number of body dwords minus one. -/
def bodyCount (header : Dword) : BitVec 64 := slice (header.setWidth 64) 29 16 + 1#64

def opcodeField (header : Dword) : BitVec 8 := (slice (header.setWidth 64) 15 8).setWidth 8

/-- `slice(header, 31, 30) - 1`: the type field 0 wraps around. -/
def typeField (header : Dword) : BitVec 64 := slice (header.setWidth 64) 31 30 - 1#64

def packetType (type : BitVec 64) : PacketType :=
  if type = 0#64 then .type1 else if type = 1#64 then .type2 else .type3

def entryHeader (header : Dword) : Header :=
  ⟨opcodeField header, (bodyCount header).setWidth 16, packetType (typeField header)⟩

/-- The reserved bits 7:0 are only logged. -/
def parseRunlistEntry (data : Span) : Decoder (ResultStatus RunlistEntry) :=
  if data.length = 0 then return .error
  else do
    let header ← data.index 0
    if typeField header > 2#64 then return .error
    else if data.length - 1 < (entryHeader header).count.toNat then return .error
    else
      let body_data := data.subspan 1 (data.length - 1)
      if opcodeField header = opMapProcess then
        let b ← parseBodyMapProcess body_data
        return .ok ⟨entryHeader header, .mapProcess b⟩
      else if opcodeField header = opMapQueues then
        let b ← parseBodyMapQueues body_data
        return .ok ⟨entryHeader header, .mapQueues b⟩
      else return .error

def entrySizes (data : Span) : Nat → Nat → Decoder (Nat × List Nat)
  | 0, total => return (total, [])
  | fuel + 1, total =>
    if total < data.length then do
      let header ← data.index total
      let entry_size := (bodyCount header).toNat + 1
      let rest ← entrySizes data fuel (total + entry_size)
      return (rest.1, entry_size :: rest.2)
    else return (total, [])

/-- The second loop: one `parseRunlistEntry` for each size, left at the first failure. A type
other than 3 is only logged. -/
def parseEntries (data : Span) : Nat → List Nat → Decoder (ResultStatus (List RunlistEntry))
  | _, [] => return .ok []
  | start, entry_size :: sizes => do
    let result ← parseRunlistEntry (data.subspan start entry_size)
    match result.status, result.value with
    | .success, some entry =>
      let rest ← parseEntries data (start + entry_size) sizes
      match rest.status, rest.value with
      | .success, some entries => return .ok (entry :: entries)
      | _, _ => return .error
    | _, _ => return .error

def parseRunlistEntries (data : Span) : Decoder (ResultStatus (List RunlistEntry)) :=
  if data.length = 0 then return .error
  else do
    let framed ← entrySizes data data.length 0
    if framed.1 > data.length then return .error
    else parseEntries data 0 framed.2

def memory (ds : List Dword) (past : Nat → Dword) (i : Nat) : Dword := ds[i]?.getD (past i)

def whole (ds : List Dword) : Span := ⟨0, ds.length⟩

end Rocsift.Pm4
