import Rocsift.Xlator.Directories
import Rocsift.Xlator.OwnWalk

/-! Walks that end at a directory entry with its PTE bit set. Such an entry maps all that its
level selects; the walk reports that for an entry of the lowest directory only, and the length of
a table of entries for all others. -/
namespace Rocsift.Xlator
open Looping

deriving instance DecidableEq for Descent

structure LargePage (mem : Memory) (r : Registers) (cache : PdeCache) (va raw : BitVec 64)
    (d : Nat) : Prop where
  below : d < (populateWalkHelper r).pt_depth
  stops : walkDescent mem (populateWalkHelper r) va cache = ⟨raw, getPdeFields raw, d⟩
  is_pte : (getPdeFields raw).pte ≠ 0#8

def spanBits (r : Registers) (d : Nat) : Nat := 21 + (populateWalkHelper r).pt_block_size + 9 * d

/-- The walk reports the span of the entry, and the address has a translation, by its offset in the
span. -/
structure ReportsSpan (mem : Memory) (r : Registers) (cache : PdeCache) (va raw : BitVec 64)
    (d : Nat) : Prop where
  size : ∃ w, ((walkPt (populateWalkHelper r) cache va).value mem).1 = some w ∧
    w.size.toNat = 2 ^ spanBits r d
  pa : cache = PdeCache.cleared →
    (populateWalkHelper r).pt_start_addr.toNat % 2 ^ spanBits r d = 0 →
    ∃ t, siftXlatorTranslate mem r va (some t) ∧
      t.pa.toNat = (getPteFields raw).base_address.toNat +
        (va - (populateWalkHelper r).pt_start_addr).toNat % 2 ^ spanBits r d

theorem sub_mod_of_aligned {start : BitVec 64} {k : Nat} (le : k ≤ 64)
    (aligned : start.toNat % 2 ^ k = 0) (va : BitVec 64) :
    (va - start).toNat % 2 ^ k = va.toNat % 2 ^ k := by
  have divides : 2 ^ k ∣ 2 ^ 64 := Nat.pow_dvd_pow 2 le
  have back : (va - start).toNat % 2 ^ k = ((va - start).toNat + start.toNat) % 2 ^ k := by
    rw [Nat.add_mod _ start.toNat, aligned, Nat.add_zero, Nat.mod_mod]
  have whole : ((va - start).toNat + start.toNat) % 2 ^ 64 = va.toNat := by
    rw [← BitVec.toNat_add, BitVec.sub_add_cancel]
  rw [back, ← Nat.mod_mod_of_dvd _ divides, whole]

theorem spanBits_short (r : Registers) : 2 ^ spanBits r 0 ≤ 2 ^ 36 := by
  have block := pt_block_size_lt r
  apply Nat.pow_le_pow_right (by decide)
  unfold spanBits
  omega

section
variable {mem : Memory} {r : Registers} {va raw : BitVec 64} {d : Nat}

theorem LargePage.walk {cache : PdeCache} (page : LargePage mem r cache va raw d) :
    ∃ size, ((walkPt (populateWalkHelper r) cache va).value mem).1 =
        some ⟨getPteFields raw, size, size - 1#64⟩ ∧
      size.toNat = 2 ^ (if d = 0 then spanBits r 0 else 12) := by
  have block := pt_block_size_lt r
  have deep : (populateWalkHelper r).pt_depth ≠ 0 := Nat.ne_of_gt (Nat.zero_lt_of_lt page.below)
  have table : ¬(getPdeFields raw).pte = 0#8 := page.is_pte
  refine ⟨nativeSize (populateWalkHelper r) ⟨raw, getPdeFields raw, d⟩, ?_, ?_⟩
  · have stops := page.stops
    unfold walkDescent at stops
    simp only [walkPt, walkWith, if_neg deep, Reading.value_bind, Reading.value_pure, stops, leaf,
      table, false_and, and_false, if_false]
  · by_cases lowest : d = 0
    · simp only [nativeSize, if_pos page.is_pte, if_pos lowest, spanBits, log2num_mib2,
        Nat.mul_zero, Nat.add_zero, Nat.add_comm 21]
      exact BitField.one_shiftLeft_toNat (by omega)
    · simp only [nativeSize, if_pos page.is_pte, if_neg lowest]
      rfl

theorem translate_some {w : WalkResults} (found : ((ownWalk r va).value mem).1 = some w)
    (low : va < 0xfffffffffffff000#64) {t : Translation}
    (translated : siftXlatorTranslate mem r va (some t)) : t = w.translation va := by
  obtain ⟨result, ends, same⟩ := translated
  obtain ⟨c, walk⟩ := advance_found found (restOfPage va)
  cases result with
  | failed => cases same
  | exited => cases same
  | list fs =>
    obtain ⟨ps, walked, made⟩ := (translateRange_list_iff ..).mp ends
    cases walked with
    | done finished => exact absurd ((restOfPage_more va).mpr low) finished
    | page more walk' rest =>
      cases walk.symm.trans walk'
      obtain ⟨rfl, -⟩ := (assemble_separate_iff _ _ _).mp made
      exact Option.some.inj (same.trans (translation_of_page w _))

/-- A cleared fragment has no physical address, and its mask takes off nothing. -/
theorem translate_last (high : ¬va < 0xfffffffffffff000#64) :
    ∃ t, siftXlatorTranslate mem r va (some t) ∧ t.pa = va := by
  refine ⟨_, translate_empty high, ?_⟩
  change (getPteFields 0#64).base_address + (va - (va &&& ~~~(0#64 - 1#64))) = va
  have base : (getPteFields 0#64).base_address = 0#64 := by decide
  have ones : ~~~(0#64 - 1#64) = 0#64 := by decide
  rw [base, ones, BitVec.and_zero, BitVec.sub_zero, BitVec.zero_add]

theorem LargePage.lowest_of_size {cache : PdeCache} (page : LargePage mem r cache va raw d)
    {w : WalkResults}
    (found : ((walkPt (populateWalkHelper r) cache va).value mem).1 = some w)
    (reported : w.size.toNat = 2 ^ spanBits r d) : d = 0 := by
  obtain ⟨size, walk, bits⟩ := page.walk
  cases walk.symm.trans found
  by_contra higher
  rw [bits, if_neg higher] at reported
  have same := Nat.pow_right_injective (Nat.le_refl 2) reported
  unfold spanBits at same
  omega

theorem LargePage.translation_pa {cache : PdeCache} (page : LargePage mem r cache va raw 0)
    {w : WalkResults}
    (found : ((walkPt (populateWalkHelper r) cache va).value mem).1 = some w)
    (aligned : (populateWalkHelper r).pt_start_addr.toNat % 2 ^ spanBits r 0 = 0) :
    (w.translation va).pa.toNat = (getPteFields raw).base_address.toNat +
      (va - (populateWalkHelper r).pt_start_addr).toNat % 2 ^ spanBits r 0 := by
  obtain ⟨size, walk, bits⟩ := page.walk
  cases walk.symm.trans found
  rw [if_pos rfl] at bits
  have block := pt_block_size_lt r
  have base := base_address_lt raw
  have inside : (va &&& (size - 1#64)).toNat = va.toNat % 2 ^ spanBits r 0 :=
    BitField.and_pred_toNat bits va
  have short := spanBits_short r
  have small := Nat.mod_lt va.toNat (Nat.two_pow_pos (spanBits r 0))
  rw [sub_mod_of_aligned (by unfold spanBits; omega) aligned]
  simp only [WalkResults.translation, BitVec.toNat_add, inside]
  omega

end

/-- The span is reported for entries of the lowest directory only. With an aligned start, the
translation follows it if nothing behind the page hinders it; there is none in the last 4 KiB of
the address space, and none in a space laid out in pages where two neighbours overlap. -/
theorem reports_span (mem : Memory) (r : Registers) (cache : PdeCache) (va raw : BitVec 64)
    (d : Nat) (page : LargePage mem r cache va raw d) :
    (d = 0 ∧ (cache = PdeCache.cleared →
        (populateWalkHelper r).pt_start_addr.toNat % 2 ^ spanBits r d = 0 →
          Unhindered mem r va) → ReportsSpan mem r cache va raw d) ∧
    (ReportsSpan mem r cache va raw d →
      d = 0 ∧ (cache = PdeCache.cleared →
        (populateWalkHelper r).pt_start_addr.toNat % 2 ^ spanBits r d = 0 →
          va < 0xfffffffffffff000#64 ∧ ∀ p ps lo hi, LaidOut mem r va p ps lo hi →
            (neighbours va p ps).IsChain fun f g => fragmentsOverlap f g = false)) := by
  obtain ⟨size, walk, bits⟩ := page.walk
  constructor
  · rintro ⟨rfl, clear⟩
    rw [if_pos rfl] at bits
    refine ⟨⟨_, walk, bits⟩, fun fresh aligned => ?_⟩
    have unhindered := clear fresh aligned
    have pa := page.translation_pa walk aligned
    subst fresh
    exact ⟨_, (translate_found_iff walk).mpr ⟨unhindered.low, unhindered.quiet⟩, pa⟩
  · rintro ⟨⟨w, found, reported⟩, pa⟩
    obtain rfl := page.lowest_of_size found reported
    refine ⟨rfl, fun fresh aligned => ?_⟩
    obtain ⟨t, translated, offset⟩ := pa fresh aligned
    subst fresh
    have low : va < 0xfffffffffffff000#64 := by
      by_contra high
      obtain ⟨u, empty, last⟩ := @translate_last mem r va high
      cases translated.unique empty
      rw [last] at offset
      have base := base_address_lt raw
      have inside := Nat.mod_lt (va - (populateWalkHelper r).pt_start_addr).toNat
        (Nat.two_pow_pos (spanBits r 0))
      have short := spanBits_short r
      have top : 0xfffffffffffff000 ≤ va.toNat := BitVec.not_lt.mp high
      omega
    refine ⟨low, fun p ps lo hi laid => laid.quiet_iff.mp ?_⟩
    cases translate_some found low translated
    exact ((translate_found_iff found).mp translated).2

theorem reports_span_lowest :
    let mem := systemMemory [(0x5000#64, 0x40000000200001#64)]
    ReportsSpan mem (oneDirectory 0x5003#32) PdeCache.cleared 0x1234#64 0x40000000200001#64 0 := by
  intro mem
  have page : LargePage mem (oneDirectory 0x5003#32) PdeCache.cleared 0x1234#64
      0x40000000200001#64 0 := ⟨by decide, by decide +kernel, by decide⟩
  have roomy : Roomy mem (oneDirectory 0x5003#32) 0x1234#64
      ⟨getPteFields 0x40000000200001#64, 0x200000#64, 0x1fffff#64⟩ :=
    ⟨by decide +kernel, by decide, by decide⟩
  exact (reports_span _ _ _ _ _ _ page).1 ⟨rfl, fun _ _ => .room roomy⟩

theorem higher_page_shrinks :
    let mem := systemMemory [(0x5000#64, 0x40000000200001#64)]
    let r := { oneDirectory 0x5003#32 with context_cntl := 4#32 }
    LargePage mem r PdeCache.cleared 0x1234#64 0x40000000200001#64 1 ∧
      ¬ReportsSpan mem r PdeCache.cleared 0x1234#64 0x40000000200001#64 1 := by
  intro mem r
  refine ⟨⟨by decide, by decide +kernel, by decide⟩, ?_⟩
  rintro ⟨⟨w, found, size⟩, -⟩
  have walk : ((walkPt (populateWalkHelper r) PdeCache.cleared 0x1234#64).value mem).1 =
      some ⟨getPteFields 0x40000000200001#64, 0x1000#64, 0xfff#64⟩ := by decide +kernel
  cases walk.symm.trans found
  exact absurd size (by decide)

end Rocsift.Xlator
