import Rocsift.Pm4.BodyFields
import Rocsift.Pm4.Targeted

/-! Entries packed into dwords again. The decoder drops the reserved bits, and it takes the GWS
count for the SDMA flag too; every entry that it can return comes back from the dwords that are
packed from it. -/
namespace Rocsift.Pm4
open PackedWords (bits)

def PacketType.bits : PacketType → BitVec 2
  | .type1 => 1#2
  | .type2 => 2#2
  | .type3 => 3#2

def Header.dword (h : Header) : Dword :=
  h.type.bits ++ BitVec.ofNat 14 (h.count.toNat - 1) ++ h.opcode ++ 0#8

/-- The numbers that a header dword has room for. -/
def Header.Fits (h : Header) : Prop := 1 ≤ h.count.toNat ∧ h.count.toNat ≤ 2 ^ 14

namespace Body

def opcode : Body → BitVec 8
  | mapProcess _ => opMapProcess
  | mapQueues _ => opMapQueues

def words : Body → Nat → Dword
  | mapProcess b => ProcessField.layout.write (ProcessField.value b) fun _ => 0#32
  | mapQueues b => QueuesField.layout.write (QueuesField.value b) fun _ => 0#32

/-- Each member fits in its field, and a body with GWS has the SDMA flag. -/
def Fits : Body → Prop
  | mapProcess b => ProcessField.layout.Within (ProcessField.value b) ∧
      (b.num_gws.toNat ≠ 0 → b.sdma_enable = true)
  | mapQueues b => QueuesField.layout.Within (QueuesField.value b)

end Body

namespace RunlistEntry

/-- The packet of an entry, with zeros where it has no field. -/
def dwords (e : RunlistEntry) : List Dword :=
  e.header.dword :: (List.range e.header.count.toNat).map e.body.words

structure Encodable (e : RunlistEntry) : Prop where
  opcode : e.header.opcode = e.body.opcode
  header : e.header.Fits
  body : e.body.Fits

/-- The packet is as long as its decoder reads. -/
def Full (e : RunlistEntry) : Prop := bodyNeed e.header.opcode ≤ e.header.count.toNat

instance (e : RunlistEntry) : Decidable e.Full := inferInstanceAs (Decidable (_ ≤ _))

end RunlistEntry

/-! The fields of a body determine it. -/

theorem eq_of_flag {a b : Bool} (same : a.toNat = b.toNat) : a = b := by
  cases a <;> cases b <;> first | rfl | cases same

theorem ProcessField.value_injective {b c : BodyMapProcess}
    (same : ∀ f, ProcessField.value b f = ProcessField.value c f) : b = c := by
  cases b
  cases c
  simp only [BodyMapProcess.mk.injEq]
  exact ⟨eq_of_flag (same .single_memop), eq_of_flag (same .debug_flag), eq_of_flag (same .tmz),
    eq_of_flag (same .diq_enable), eq_of_flag (same .sdma_enable),
    BitVec.eq_of_toNat_eq (same .pasid), BitVec.eq_of_toNat_eq (same .debug_vmid),
    BitVec.eq_of_toNat_eq (same .process_quantum),
    BitVec.eq_of_toNat_eq (same .vm_context_page_table_base_addr_lo32),
    BitVec.eq_of_toNat_eq (same .vm_context_page_table_base_addr_hi32),
    BitVec.eq_of_toNat_eq (same .sh_mem_bases), BitVec.eq_of_toNat_eq (same .sh_mem_config),
    BitVec.eq_of_toNat_eq (same .sq_shader_tba_lo),
    BitVec.eq_of_toNat_eq (same .sq_shader_tba_hi),
    BitVec.eq_of_toNat_eq (same .sq_shader_tma_lo),
    BitVec.eq_of_toNat_eq (same .sq_shader_tma_hi), BitVec.eq_of_toNat_eq (same .gds_addr_lo),
    BitVec.eq_of_toNat_eq (same .gds_addr_hi), BitVec.eq_of_toNat_eq (same .num_gws),
    BitVec.eq_of_toNat_eq (same .num_oac), BitVec.eq_of_toNat_eq (same .gds_size_hi),
    BitVec.eq_of_toNat_eq (same .gds_size_lo), BitVec.eq_of_toNat_eq (same .num_queues),
    BitVec.eq_of_toNat_eq (same .spi_gdbg_per_vmid_cntl),
    BitVec.eq_of_toNat_eq (same .tcp_watch0_cntl), BitVec.eq_of_toNat_eq (same .tcp_watch1_cntl),
    BitVec.eq_of_toNat_eq (same .tcp_watch2_cntl), BitVec.eq_of_toNat_eq (same .tcp_watch3_cntl),
    BitVec.eq_of_toNat_eq (same .completion_signal_lo32),
    BitVec.eq_of_toNat_eq (same .completion_signal_hi32)⟩

theorem QueuesField.value_injective {b c : BodyMapQueues}
    (same : ∀ f, QueuesField.value b f = QueuesField.value c f) : b = c := by
  cases b
  cases c
  simp only [BodyMapQueues.mk.injEq]
  exact ⟨BitVec.eq_of_toNat_eq (same .extended_engine_sel),
    BitVec.eq_of_toNat_eq (same .queue_sel), BitVec.eq_of_toNat_eq (same .vmid),
    eq_of_flag (same .gws_enabled), BitVec.eq_of_toNat_eq (same .queue),
    BitVec.eq_of_toNat_eq (same .queue_type), BitVec.eq_of_toNat_eq (same .static_queue_group),
    BitVec.eq_of_toNat_eq (same .engine_sel), BitVec.eq_of_toNat_eq (same .num_queues),
    eq_of_flag (same .check_disable), BitVec.eq_of_toNat_eq (same .doorbell_offset),
    BitVec.eq_of_toNat_eq (same .mqd_addr_lo), BitVec.eq_of_toNat_eq (same .mqd_addr_hi),
    BitVec.eq_of_toNat_eq (same .wptr_addr_lo), BitVec.eq_of_toNat_eq (same .wptr_addr_hi)⟩

/-! What the body decoders return: values that fit in their fields, and from the dwords of a body
that body. -/

section
variable (s : Span) (mem : Nat → Dword)

theorem parseBodyMapProcess_congr (other : Nat → Dword)
    (same : ∀ k < 20, mem (s.arr + k) = other (s.arr + k)) :
    (parseBodyMapProcess s).value mem = (parseBodyMapProcess s).value other := by
  have below : ∀ k ∈ mapProcessReads, k < 20 := by decide
  apply And.left
  apply Reading.agree
  intro i read
  rw [parseBodyMapProcess_trace] at read
  obtain ⟨k, reads, rfl⟩ := List.mem_map.mp read
  exact same k (below k reads)

theorem parseBodyMapQueues_congr (other : Nat → Dword)
    (same : ∀ k < 6, mem (s.arr + k) = other (s.arr + k)) :
    (parseBodyMapQueues s).value mem = (parseBodyMapQueues s).value other := by
  have below : ∀ k ∈ mapQueuesReads, k < 6 := by decide
  apply And.left
  apply Reading.agree
  intro i read
  rw [parseBodyMapQueues_trace] at read
  obtain ⟨k, reads, rfl⟩ := List.mem_map.mp read
  exact same k (below k reads)

theorem placed_here (words : Nat → Dword) (k : Nat) : placed s words (s.arr + k) = words k := by
  rw [placed, Nat.add_sub_cancel_left]

theorem bits_lt (x lsb width : Nat) : bits x lsb width < 2 ^ width :=
  Nat.mod_lt _ (Nat.two_pow_pos width)

theorem parseBodyMapProcess_fits : (Body.mapProcess ((parseBodyMapProcess s).value mem)).Fits := by
  rw [parseBodyMapProcess_congr s mem (placed s fun k => mem (s.arr + k))
    fun k _ => (placed_here s (fun k => mem (s.arr + k)) k).symm]
  have flag := decodeProcess_sdma_enable_iff s fun k => mem (s.arr + k)
  constructor
  · intro f
    change decodeProcess s _ f < _
    by_cases sdma : f = .sdma_enable
    · rw [sdma, flag]
      split <;> decide
    · rw [decodeProcess_field s _ f sdma]
      exact bits_lt _ _ _
  · intro gws
    have count := decodeProcess_field s (fun k => mem (s.arr + k)) .num_gws (by decide)
    apply Bool.toNat_eq_one.mp
    change decodeProcess s _ .sdma_enable = 1
    rw [flag, if_neg]
    intro none
    exact gws (count.trans none.1)

theorem parseBodyMapQueues_fits : (Body.mapQueues ((parseBodyMapQueues s).value mem)).Fits := by
  rw [parseBodyMapQueues_congr s mem (placed s fun k => mem (s.arr + k))
    fun k _ => (placed_here s (fun k => mem (s.arr + k)) k).symm]
  intro f
  change decodeQueues s _ f < _
  rw [decodeQueues_field]
  exact bits_lt _ _ _

theorem parseBodyMapProcess_words {b : BodyMapProcess} (fits : (Body.mapProcess b).Fits)
    (same : ∀ k < 20, mem (s.arr + k) = (Body.mapProcess b).words k) :
    (parseBodyMapProcess s).value mem = b := by
  rw [parseBodyMapProcess_congr s mem (placed s (Body.mapProcess b).words)
    fun k less => (same k less).trans (placed_here s _ k).symm]
  apply ProcessField.value_injective
  intro f
  change decodeProcess s (ProcessField.layout.write (ProcessField.value b) _) f = _
  by_cases sdma : f = .sdma_enable
  · rw [sdma, decodeProcess_write_sdma_enable s _ fits.1]
    split
    · rename_i clear
      exact clear.2.symm
    · rename_i set
      cases flag : b.sdma_enable with
      | true => exact (congrArg Bool.toNat flag).symm
      | false =>
        refine absurd ⟨?_, congrArg Bool.toNat flag⟩ set
        by_contra gws
        exact absurd (fits.2 gws) (Bool.eq_false_iff.mp flag)
  · exact decodeProcess_write s _ fits.1 sdma

theorem parseBodyMapQueues_words {b : BodyMapQueues} (fits : (Body.mapQueues b).Fits)
    (same : ∀ k < 6, mem (s.arr + k) = (Body.mapQueues b).words k) :
    (parseBodyMapQueues s).value mem = b := by
  rw [parseBodyMapQueues_congr s mem (placed s (Body.mapQueues b).words)
    fun k less => (same k less).trans (placed_here s _ k).symm]
  apply QueuesField.value_injective
  intro f
  change decodeQueues s (QueuesField.layout.write (QueuesField.value b) _) f = _
  rw [decodeQueues_field]
  exact QueuesField.layout.get_write fits _ f

end

namespace Header
variable (h : Header)

theorem dword_toNat (fits : h.Fits) : h.dword.toNat =
    h.type.bits.toNat * 2 ^ 30 + (h.count.toNat - 1) * 2 ^ 16 + h.opcode.toNat * 2 ^ 8 := by
  have count : (BitVec.ofNat 14 (h.count.toNat - 1)).toNat = h.count.toNat - 1 := by
    obtain ⟨pos, le⟩ := fits
    rw [BitVec.toNat_ofNat]
    exact Nat.mod_eq_of_lt (by omega)
  simp only [dword, BitField.append_toNat, count, BitVec.toNat_ofNat]
  omega

theorem typeField_dword (fits : h.Fits) :
    typeField h.dword ≤ 2#64 ∧ packetType (typeField h.dword) = h.type := by
  have field : slice (h.dword.setWidth 64) 31 30 = h.type.bits.setWidth 64 := by
    obtain ⟨pos, le⟩ := id fits
    have opcode := h.opcode.isLt
    have type := h.type.bits.isLt
    apply BitVec.eq_of_toNat_eq
    rw [slice_dword _ _ _ (by decide) (by decide), dword_toNat h fits, BitVec.toNat_setWidth]
    omega
  rw [typeField, field]
  cases h.type <;> decide

theorem entryHeader_dword (fits : h.Fits) : entryHeader h.dword = h := by
  obtain ⟨pos, le⟩ := id fits
  have small := h.opcode.isLt
  have opcode : opcodeField h.dword = h.opcode := by
    apply BitVec.eq_of_toNat_eq
    rw [opcodeField, BitVec.toNat_setWidth, slice_dword _ _ _ (by decide) (by decide),
      dword_toNat h fits]
    omega
  have count : (bodyCount h.dword).setWidth 16 = h.count := by
    apply BitVec.eq_of_toNat_eq
    rw [BitVec.toNat_setWidth, bodyCount_toNat, dword_toNat h fits]
    omega
  rw [entryHeader, opcode, count, (typeField_dword h fits).2]

end Header

namespace RunlistEntry
variable {e : RunlistEntry}

theorem dwords_length (e : RunlistEntry) : e.dwords.length = e.header.count.toNat + 1 := by
  simp only [dwords, List.length_cons, List.length_map, List.length_range]

theorem parseRunlistEntry_eq (s : Span) (mem : Nat → Dword) :
    (parseRunlistEntry s).value mem =
      if s.length = 0 then .error
      else if typeField (mem s.arr) > 2#64 then .error
      else if s.length - 1 < (entryHeader (mem s.arr)).count.toNat then .error
      else if opcodeField (mem s.arr) = opMapProcess then
        .ok ⟨entryHeader (mem s.arr),
          .mapProcess ((parseBodyMapProcess (s.subspan 1 (s.length - 1))).value mem)⟩
      else if opcodeField (mem s.arr) = opMapQueues then
        .ok ⟨entryHeader (mem s.arr),
          .mapQueues ((parseBodyMapQueues (s.subspan 1 (s.length - 1))).value mem)⟩
      else .error := by
  have header : (s.index 0).value mem = mem s.arr := rfl
  rw [parseRunlistEntry, Reading.value_ite, Reading.value_bind, header]
  rw [Reading.value_ite, Reading.value_ite, Reading.value_ite, Reading.value_ite]
  simp only [Reading.value_bind, Reading.value_pure]

/-- The branch of its opcode decodes a body from the dwords of that body. -/
theorem branch_words {b : Body} {h : Header} (s : Span) (mem : Nat → Dword) (fits : b.Fits)
    (same : ∀ k < bodyNeed b.opcode, mem (s.arr + k) = b.words k) :
    (if b.opcode = opMapProcess then
        ResultStatus.ok (⟨h, .mapProcess ((parseBodyMapProcess s).value mem)⟩ : RunlistEntry)
      else if b.opcode = opMapQueues then
        .ok ⟨h, .mapQueues ((parseBodyMapQueues s).value mem)⟩
      else .error) = .ok ⟨h, b⟩ := by
  cases b with
  | mapProcess b =>
    have decoded := parseBodyMapProcess_words s mem fits same
    simp only [Body.opcode, if_true, decoded]
  | mapQueues b =>
    have decoded := parseBodyMapQueues_words s mem fits same
    simp only [Body.opcode, if_neg opMapQueues_ne, if_true, decoded]

/-- A decoder's entry is as its header and its fields can say it. -/
theorem encodable_of_decoded {s : Span} {mem : Nat → Dword}
    (decoded : (parseRunlistEntry s).value mem = .ok e) : e.Encodable := by
  have header : (entryHeader (mem s.arr)).Fits := by
    unfold Header.Fits
    rw [entryHeader_count, bodyCount_toNat]
    omega
  rw [parseRunlistEntry_eq] at decoded
  split at decoded
  · cases decoded
  · split at decoded
    · cases decoded
    · split at decoded
      · cases decoded
      · split at decoded
        · rename_i process
          cases decoded
          exact ⟨process, header, parseBodyMapProcess_fits _ _⟩
        · split at decoded
          · rename_i queues
            cases decoded
            exact ⟨queues, header, parseBodyMapQueues_fits _ _⟩
          · cases decoded

theorem memory_body (past : Nat → Dword) {k : Nat} (inside : k < e.header.count.toNat) :
    memory e.dwords past (1 + k) = e.body.words k := by
  rw [Nat.add_comm, memory, dwords, List.getElem?_cons_succ, List.getElem?_map,
    List.getElem?_range inside]
  rfl

theorem Encodable.isPacket (encodable : e.Encodable) : IsPacket e.dwords := by
  have count := congrArg (BitVec.toNat ∘ Header.count) (e.header.entryHeader_dword encodable.header)
  rw [Function.comp_apply, entryHeader_count] at count
  rw [dwords, IsPacket, List.length_map, List.length_range, count]
  rfl

/-- The packet of an entry decodes to the entry. -/
theorem Encodable.alone (encodable : e.Encodable) (full : e.Full) : Alone e.dwords e := by
  intro past
  obtain ⟨opcode, header, body⟩ := encodable
  have here : memory e.dwords past 0 = e.header.dword := rfl
  have type := (e.header.typeField_dword header).1
  have back := e.header.entryHeader_dword header
  have opcodes : opcodeField e.header.dword = e.body.opcode :=
    (congrArg Header.opcode back).trans opcode
  have same : ∀ k < bodyNeed e.body.opcode, memory e.dwords past (1 + k) = e.body.words k :=
    fun k less => memory_body past (Nat.lt_of_lt_of_le less (opcode ▸ full))
  rw [whole, dwords_length, parseRunlistEntry_eq, if_neg (Nat.succ_ne_zero _)]
  simp only [here, if_neg (BitVec.not_lt.mpr type), back, opcodes, Nat.add_sub_cancel,
    Nat.lt_irrefl, if_false, gt_iff_lt]
  exact branch_words _ _ body same

end RunlistEntry

end Rocsift.Pm4
