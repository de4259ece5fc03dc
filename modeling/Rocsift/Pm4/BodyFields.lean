import Rocsift.Base.PackedWords
import Rocsift.Pm4.Framing

/-! The fields of the two packet bodies, with the bits each one has in the body dwords. -/
namespace Rocsift.Pm4

open PackedWords (Field Layout bits get put)

inductive ProcessField where
  | pasid | single_memop | debug_vmid | debug_flag | tmz | diq_enable | process_quantum
  | vm_context_page_table_base_addr_lo32 | vm_context_page_table_base_addr_hi32
  | sh_mem_bases | sh_mem_config
  | sq_shader_tba_lo | sq_shader_tba_hi | sq_shader_tma_lo | sq_shader_tma_hi
  | gds_addr_lo | gds_addr_hi
  | num_gws | sdma_enable | num_oac | gds_size_hi | gds_size_lo | num_queues
  | spi_gdbg_per_vmid_cntl
  | tcp_watch0_cntl | tcp_watch1_cntl | tcp_watch2_cntl | tcp_watch3_cntl
  | completion_signal_lo32 | completion_signal_hi32
  deriving DecidableEq

inductive QueuesField where
  | extended_engine_sel | queue_sel | vmid | gws_enabled | queue | queue_type
  | static_queue_group | engine_sel | num_queues
  | check_disable | doorbell_offset
  | mqd_addr_lo | mqd_addr_hi | wptr_addr_lo | wptr_addr_hi
  deriving DecidableEq

namespace ProcessField

def range : ProcessField → Field
  | pasid => ⟨0, 0, 16⟩
  | single_memop => ⟨0, 16, 1⟩
  | debug_vmid => ⟨0, 18, 4⟩
  | debug_flag => ⟨0, 22, 1⟩
  | tmz => ⟨0, 23, 1⟩
  | diq_enable => ⟨0, 24, 1⟩
  | process_quantum => ⟨0, 25, 7⟩
  | vm_context_page_table_base_addr_lo32 => ⟨1, 0, 32⟩
  | vm_context_page_table_base_addr_hi32 => ⟨2, 0, 32⟩
  | sh_mem_bases => ⟨3, 0, 32⟩
  | sh_mem_config => ⟨4, 0, 32⟩
  | sq_shader_tba_lo => ⟨5, 0, 32⟩
  | sq_shader_tba_hi => ⟨6, 0, 32⟩
  | sq_shader_tma_lo => ⟨7, 0, 32⟩
  | sq_shader_tma_hi => ⟨8, 0, 32⟩
  | gds_addr_lo => ⟨10, 0, 32⟩
  | gds_addr_hi => ⟨11, 0, 32⟩
  | num_gws => ⟨12, 0, 7⟩
  | sdma_enable => ⟨12, 7, 1⟩
  | num_oac => ⟨12, 8, 4⟩
  | gds_size_hi => ⟨12, 12, 4⟩
  | gds_size_lo => ⟨12, 16, 6⟩
  | num_queues => ⟨12, 22, 10⟩
  | spi_gdbg_per_vmid_cntl => ⟨13, 0, 32⟩
  | tcp_watch0_cntl => ⟨14, 0, 32⟩
  | tcp_watch1_cntl => ⟨15, 0, 32⟩
  | tcp_watch2_cntl => ⟨16, 0, 32⟩
  | tcp_watch3_cntl => ⟨17, 0, 32⟩
  | completion_signal_lo32 => ⟨18, 0, 32⟩
  | completion_signal_hi32 => ⟨19, 0, 32⟩

def value (b : BodyMapProcess) : ProcessField → Nat
  | pasid => b.pasid.toNat
  | single_memop => b.single_memop.toNat
  | debug_vmid => b.debug_vmid.toNat
  | debug_flag => b.debug_flag.toNat
  | tmz => b.tmz.toNat
  | diq_enable => b.diq_enable.toNat
  | process_quantum => b.process_quantum.toNat
  | vm_context_page_table_base_addr_lo32 => b.vm_context_page_table_base_addr_lo32.toNat
  | vm_context_page_table_base_addr_hi32 => b.vm_context_page_table_base_addr_hi32.toNat
  | sh_mem_bases => b.sh_mem_bases.toNat
  | sh_mem_config => b.sh_mem_config.toNat
  | sq_shader_tba_lo => b.sq_shader_tba_lo.toNat
  | sq_shader_tba_hi => b.sq_shader_tba_hi.toNat
  | sq_shader_tma_lo => b.sq_shader_tma_lo.toNat
  | sq_shader_tma_hi => b.sq_shader_tma_hi.toNat
  | gds_addr_lo => b.gds_addr_lo.toNat
  | gds_addr_hi => b.gds_addr_hi.toNat
  | num_gws => b.num_gws.toNat
  | sdma_enable => b.sdma_enable.toNat
  | num_oac => b.num_oac.toNat
  | gds_size_hi => b.gds_size_hi.toNat
  | gds_size_lo => b.gds_size_lo.toNat
  | num_queues => b.num_queues.toNat
  | spi_gdbg_per_vmid_cntl => b.spi_gdbg_per_vmid_cntl.toNat
  | tcp_watch0_cntl => b.tcp_watch0_cntl.toNat
  | tcp_watch1_cntl => b.tcp_watch1_cntl.toNat
  | tcp_watch2_cntl => b.tcp_watch2_cntl.toNat
  | tcp_watch3_cntl => b.tcp_watch3_cntl.toNat
  | completion_signal_lo32 => b.completion_signal_lo32.toNat
  | completion_signal_hi32 => b.completion_signal_hi32.toNat

def all : List ProcessField :=
  [pasid, single_memop, debug_vmid, debug_flag, tmz, diq_enable, process_quantum,
    vm_context_page_table_base_addr_lo32, vm_context_page_table_base_addr_hi32, sh_mem_bases,
    sh_mem_config, sq_shader_tba_lo, sq_shader_tba_hi, sq_shader_tma_lo, sq_shader_tma_hi,
    gds_addr_lo, gds_addr_hi, num_gws, sdma_enable, num_oac, gds_size_hi, gds_size_lo, num_queues,
    spi_gdbg_per_vmid_cntl, tcp_watch0_cntl, tcp_watch1_cntl, tcp_watch2_cntl, tcp_watch3_cntl,
    completion_signal_lo32, completion_signal_hi32]

def layout : Layout ProcessField 32 where
  range := range
  all := all
  mem_all := by
    intro f
    cases f <;> decide
  fits := by
    intro f
    cases f <;> decide
  apart := by decide

end ProcessField

namespace QueuesField

def range : QueuesField → Field
  | extended_engine_sel => ⟨0, 2, 2⟩
  | queue_sel => ⟨0, 4, 2⟩
  | vmid => ⟨0, 8, 4⟩
  | gws_enabled => ⟨0, 12, 1⟩
  | queue => ⟨0, 13, 8⟩
  | queue_type => ⟨0, 21, 3⟩
  | static_queue_group => ⟨0, 24, 2⟩
  | engine_sel => ⟨0, 26, 3⟩
  | num_queues => ⟨0, 29, 3⟩
  | check_disable => ⟨1, 1, 1⟩
  | doorbell_offset => ⟨1, 2, 26⟩
  | mqd_addr_lo => ⟨2, 0, 32⟩
  | mqd_addr_hi => ⟨3, 0, 32⟩
  | wptr_addr_lo => ⟨4, 0, 32⟩
  | wptr_addr_hi => ⟨5, 0, 32⟩

def value (b : BodyMapQueues) : QueuesField → Nat
  | extended_engine_sel => b.extended_engine_sel.toNat
  | queue_sel => b.queue_sel.toNat
  | vmid => b.vmid.toNat
  | gws_enabled => b.gws_enabled.toNat
  | queue => b.queue.toNat
  | queue_type => b.queue_type.toNat
  | static_queue_group => b.static_queue_group.toNat
  | engine_sel => b.engine_sel.toNat
  | num_queues => b.num_queues.toNat
  | check_disable => b.check_disable.toNat
  | doorbell_offset => b.doorbell_offset.toNat
  | mqd_addr_lo => b.mqd_addr_lo.toNat
  | mqd_addr_hi => b.mqd_addr_hi.toNat
  | wptr_addr_lo => b.wptr_addr_lo.toNat
  | wptr_addr_hi => b.wptr_addr_hi.toNat

def all : List QueuesField :=
  [extended_engine_sel, queue_sel, vmid, gws_enabled, queue, queue_type, static_queue_group,
    engine_sel, num_queues, check_disable, doorbell_offset, mqd_addr_lo, mqd_addr_hi,
    wptr_addr_lo, wptr_addr_hi]

def layout : Layout QueuesField 32 where
  range := range
  all := all
  mem_all := by
    intro f
    cases f <;> decide
  fits := by
    intro f
    cases f <;> decide
  apart := by decide

end QueuesField

def placed (s : Span) (words : Nat → Dword) (i : Nat) : Dword := words (i - s.arr)

def decodeProcess (s : Span) (words : Nat → Dword) (f : ProcessField) : Nat :=
  f.value ((parseBodyMapProcess s).value (placed s words))

def decodeQueues (s : Span) (words : Nat → Dword) (f : QueuesField) : Nat :=
  f.value ((parseBodyMapQueues s).value (placed s words))

@[simp] theorem getBodySlice_value (s : Span) (words : Nat → Dword) (idx msb lsb : Nat) :
    (getBodySlice s idx msb lsb).value (placed s words) =
      slice ((words (idx - 2)).setWidth 64) msb lsb := by
  simp only [getBodySlice, Span.index, Reading.value_bind, Reading.value_get, Reading.value_pure,
    placed, Nat.add_sub_cancel_left]

theorem setWidth_slice (d : Dword) {msb lsb k : Nat} (h : msb < 64) (le : lsb ≤ msb)
    (wide : msb + 1 - lsb ≤ k) :
    ((slice (d.setWidth 64) msb lsb).setWidth k).toNat = bits d.toNat lsb (msb + 1 - lsb) := by
  have small : d.toNat / 2 ^ lsb % 2 ^ (msb + 1 - lsb) < 2 ^ k :=
    Nat.lt_of_lt_of_le (Nat.mod_lt _ (Nat.two_pow_pos _)) (Nat.pow_le_pow_right (by decide) wide)
  rw [BitVec.toNat_setWidth, slice_dword d msb lsb h le]
  exact Nat.mod_eq_of_lt small

/-- A `bool` member keeps whether any bit of its slice is set. -/
theorem toBool_slice (d : Dword) {msb lsb : Nat} (h : msb < 64) (le : lsb ≤ msb) :
    (toBool (slice (d.setWidth 64) msb lsb)).toNat =
      if bits d.toNat lsb (msb + 1 - lsb) = 0 then 0 else 1 := by
  have field := slice_dword d msb lsb h le
  have zero : slice (d.setWidth 64) msb lsb = 0#64 ↔ bits d.toNat lsb (msb + 1 - lsb) = 0 := by
    rw [← BitVec.toNat_inj, field]
    rfl
  unfold toBool
  split
  · rename_i clear
    rw [zero.mpr clear]
    rfl
  · rename_i set
    have other : (slice (d.setWidth 64) msb lsb != 0#64) = true :=
      bne_iff_ne.mpr fun h => set (zero.mp h)
    rw [other]
    rfl

theorem toBool_bit (d : Dword) {b : Nat} (h : b < 64) :
    (toBool (slice (d.setWidth 64) b b)).toNat = bits d.toNat b 1 := by
  have width : b + 1 - b = 1 := Nat.add_sub_cancel_left b 1
  have bit : bits d.toNat b 1 < 2 := Nat.mod_lt _ (by decide)
  rw [toBool_slice d h (Nat.le_refl b), width]
  split <;> omega

/-- Bits 7:0 are sliced for the flag in bit 7, so `num_gws` in bits 6:0 sets it too. -/
theorem decodeProcess_sdma_enable (s : Span) (words : Nat → Dword) :
    decodeProcess s words .sdma_enable =
      if bits (words 12).toNat 0 8 = 0 then 0 else 1 := by
  simp only [decodeProcess, ProcessField.value, parseBodyMapProcess, Reading.value_bind,
    Reading.value_pure, getBodySlice_value]
  exact toBool_slice (words 12) (by decide) (by decide)

theorem decodeProcess_field (s : Span) (words : Nat → Dword) (f : ProcessField)
    (other : f ≠ .sdma_enable) : decodeProcess s words f = get words f.range := by
  simp only [decodeProcess, parseBodyMapProcess, Reading.value_bind, Reading.value_pure,
    getBodySlice_value]
  cases f
  case sdma_enable => exact absurd rfl other
  case single_memop => exact toBool_bit (words 0) (by decide)
  case debug_flag => exact toBool_bit (words 0) (by decide)
  case tmz => exact toBool_bit (words 0) (by decide)
  case diq_enable => exact toBool_bit (words 0) (by decide)
  all_goals exact setWidth_slice _ (by decide) (by decide) (by decide)

theorem decodeQueues_field (s : Span) (words : Nat → Dword) (f : QueuesField) :
    decodeQueues s words f = get words f.range := by
  simp only [decodeQueues, parseBodyMapQueues, Reading.value_bind, Reading.value_pure,
    getBodySlice_value]
  cases f
  case gws_enabled => exact toBool_bit (words 0) (by decide)
  case check_disable => exact toBool_bit (words 1) (by decide)
  all_goals exact setWidth_slice _ (by decide) (by decide) (by decide)

theorem low_byte (x : Nat) : bits x 0 8 = 0 ↔ bits x 0 7 = 0 ∧ bits x 7 1 = 0 := by
  simp only [bits]
  omega

theorem decodeProcess_sdma_enable_iff (s : Span) (words : Nat → Dword) :
    decodeProcess s words .sdma_enable =
      if get words ProcessField.num_gws.range = 0 ∧ get words ProcessField.sdma_enable.range = 0
      then 0 else 1 := by
  rw [decodeProcess_sdma_enable]
  exact if_congr (low_byte _) rfl rfl

section
variable (s : Span) (words : Nat → Dword) {v : ProcessField → Nat}
  (within : ProcessField.layout.Within v)
include within

theorem decodeProcess_write {f : ProcessField} (other : f ≠ .sdma_enable) :
    decodeProcess s (ProcessField.layout.write v words) f = v f := by
  rw [decodeProcess_field s _ f other]
  exact ProcessField.layout.get_write within words f

theorem decodeProcess_write_sdma_enable :
    decodeProcess s (ProcessField.layout.write v words) .sdma_enable =
      if v .num_gws = 0 ∧ v .sdma_enable = 0 then 0 else 1 := by
  have gws := ProcessField.layout.get_write within words .num_gws
  have sdma := ProcessField.layout.get_write within words .sdma_enable
  rw [decodeProcess_sdma_enable_iff]
  exact if_congr (by rw [← gws, ← sdma]; rfl) rfl rfl

theorem sdma_enable_cases : v .sdma_enable = 0 ∨ v .sdma_enable = 1 := by
  have bit : v .sdma_enable < 2 := within .sdma_enable
  omega

theorem decodeProcess_put_sdma_enable {f : ProcessField} (other : .sdma_enable ≠ f) {x : Nat}
    (small : x < 2 ^ f.range.width) :
    decodeProcess s (put (ProcessField.layout.write v words) (ProcessField.layout.range f) x)
        .sdma_enable =
      if (if f = .num_gws then x else v .num_gws) = 0 ∧ v .sdma_enable = 0 then 0 else 1 := by
  have sdma : get (put (ProcessField.layout.write v words) (ProcessField.layout.range f) x)
      ProcessField.sdma_enable.range = v .sdma_enable :=
    (ProcessField.layout.get_put_other _ other x).trans
      (ProcessField.layout.get_write within words .sdma_enable)
  have gws : get (put (ProcessField.layout.write v words) (ProcessField.layout.range f) x)
      ProcessField.num_gws.range = if f = .num_gws then x else v .num_gws := by
    split
    · rename_i same
      rw [same] at small ⊢
      exact PackedWords.get_put_same _ (by decide) small
    · rename_i differ
      exact (ProcessField.layout.get_put_other _ (Ne.symm differ) x).trans
        (ProcessField.layout.get_write within words .num_gws)
  rw [decodeProcess_sdma_enable_iff, gws, sdma]

theorem mapProcess_independent_iff (f : ProcessField) {x : Nat} (small : x < 2 ^ f.range.width) :
    ProcessField.layout.Independent (decodeProcess s) v words f x ↔
      v .sdma_enable = 1 ∨ (v .num_gws = 0 ∧ (f = .num_gws → x = 0)) := by
  have written := decodeProcess_write_sdma_enable s words within
  constructor
  · intro independent
    rcases sdma_enable_cases within with clear | set
    · have back := congrFun independent.back .sdma_enable
      rw [written, clear] at back
      have gws : v .num_gws = 0 := by
        by_contra some_gws
        rw [if_neg fun h => some_gws h.1] at back
        cases back
      refine Or.inr ⟨gws, ?_⟩
      rintro rfl
      have kept := independent.others .sdma_enable (by decide)
      rw [written, decodeProcess_put_sdma_enable s words within (by decide) small, clear, gws,
        if_pos rfl] at kept
      by_contra some_x
      simp [some_x] at kept
    · exact Or.inl set
  · intro condition
    constructor
    · funext g
      by_cases flag : g = .sdma_enable
      · rw [flag, written]
        rcases condition with set | ⟨gws, _⟩
        · simp [set]
        · rcases sdma_enable_cases within with clear | set
          · simp [gws, clear]
          · simp [set]
      · exact decodeProcess_write s words within flag
    · intro g other
      by_cases flag : g = .sdma_enable
      · rw [flag] at other ⊢
        rw [written, decodeProcess_put_sdma_enable s words within other small]
        rcases condition with set | ⟨gws, kept⟩
        · simp [set]
        · split
          · rename_i same
            rw [kept same, gws]
          · rfl
      · rw [decodeProcess_field s _ g flag, decodeProcess_field s _ g flag]
        exact ProcessField.layout.get_put_other _ other x

end

/-- The fields of a MAP_QUEUES body are independent of each other. Those of a MAP_PROCESS body are
so exactly when the flag in bit 7 is set, or no GWS is counted in the bits below it. -/
theorem fields_independent (s : Span) (words : Nat → Dword) :
    (∀ (v : ProcessField → Nat) (f : ProcessField) (x : Nat), ProcessField.layout.Within v →
      x < 2 ^ f.range.width →
      (ProcessField.layout.Independent (decodeProcess s) v words f x ↔
        v .sdma_enable = 1 ∨ (v .num_gws = 0 ∧ (f = .num_gws → x = 0)))) ∧
    (∀ (v : QueuesField → Nat) (f : QueuesField) (x : Nat), QueuesField.layout.Within v →
      x < 2 ^ f.range.width →
      QueuesField.layout.Independent (decodeQueues s) v words f x) := by
  constructor
  · intro v f x within small
    exact mapProcess_independent_iff s words within f small
  · intro v f x within _
    exact QueuesField.layout.independent_of_get (decodeQueues_field s) within words f x

def oneGws : ProcessField → Nat
  | .num_gws => 1
  | _ => 0

/-- One GWS and a clear flag, each within its bits: the flag comes back set. -/
theorem oneGws_not_independent :
    ProcessField.layout.Within oneGws ∧
      decodeProcess ⟨0, 20⟩ (ProcessField.layout.write oneGws fun _ => 0#32) .sdma_enable = 1 ∧
      ¬ ProcessField.layout.Independent (decodeProcess ⟨0, 20⟩) oneGws (fun _ => 0#32)
        .pasid 0 := by
  have within : ProcessField.layout.Within oneGws := by
    intro f
    cases f <;> decide
  have set : decodeProcess ⟨0, 20⟩ (ProcessField.layout.write oneGws fun _ => 0#32)
      .sdma_enable = 1 := by
    decide
  refine ⟨within, set, ?_⟩
  intro independent
  have clear := congrFun independent.back .sdma_enable
  rw [set] at clear
  cases clear

end Rocsift.Pm4
