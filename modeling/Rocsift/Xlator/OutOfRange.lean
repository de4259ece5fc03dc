import Rocsift.Xlator.Indices
import Rocsift.Xlator.LargePages

/-! Addresses outside the range of the context. No walk compares its address with the range; the
limits bound the index of the top level alone, so the address is walked as the one in the range
that has the same indices. -/
namespace Rocsift.Xlator

def aliasOffset (h : WalkHelper) (offset : BitVec 64) : BitVec 64 :=
  let info := h.levelinfo h.pt_depth
  (tableIndex h offset h.pt_depth <<< info.pde_size_shift) + (offset &&& (info.pde_size - 1#64))

def aliasOf (r : Registers) (va : BitVec 64) : BitVec 64 :=
  (populateWalkHelper r).pt_start_addr +
    aliasOffset (populateWalkHelper r) (va - (populateWalkHelper r).pt_start_addr)

/-- The address is walked as its alias. A valid translation of it is that of the page there, and
the alias is in the range if that holds one entry of the top level. -/
structure WalkedAsAlias (mem : Memory) (r : Registers) (va : BitVec 64) : Prop where
  walk : ∀ cache, walkPt (populateWalkHelper r) cache va =
    walkPt (populateWalkHelper r) cache (aliasOf r va)
  translated : ∀ t, siftXlatorTranslate mem r va (some t) → t.ok = true →
    ∃ w, ((ownWalk r (aliasOf r va)).value mem).1 = some w ∧ w.pte.valid ≠ 0#8 ∧
      t.pte = w.pte ∧ t.size = w.size
  in_range : (populateWalkHelper r).pt_start_addr ≤ (populateWalkHelper r).pt_end_addr →
    2 ^ levelBits (populateWalkHelper r) (populateWalkHelper r).pt_depth ≤ rangeBytes r →
    InRange r (aliasOf r va)

section
variable (r : Registers) (offset : BitVec 64)

theorem tableIndex_le :
    (tableIndex (populateWalkHelper r) offset (populateWalkHelper r).pt_depth).toNat ≤
      offset.toNat / 2 ^ levelBits (populateWalkHelper r) (populateWalkHelper r).pt_depth := by
  rw [tableIndex, BitVec.toNat_and, ← shifted_toNat r offset (Nat.le_refl _)]
  exact Nat.and_le_left

theorem aliasOffset_toNat : (aliasOffset (populateWalkHelper r) offset).toNat =
    2 ^ levelBits (populateWalkHelper r) (populateWalkHelper r).pt_depth *
      (tableIndex (populateWalkHelper r) offset (populateWalkHelper r).pt_depth).toNat +
    offset.toNat % 2 ^ levelBits (populateWalkHelper r) (populateWalkHelper r).pt_depth := by
  have index := tableIndex_le r offset
  have size := pde_size_toNat r (Nat.le_refl (populateWalkHelper r).pt_depth)
  have whole := Nat.div_add_mod offset.toNat
    (2 ^ levelBits (populateWalkHelper r) (populateWalkHelper r).pt_depth)
  have below := offset.isLt
  have scaled := Nat.mul_le_mul_left
    (2 ^ levelBits (populateWalkHelper r) (populateWalkHelper r).pt_depth) index
  rw [aliasOffset, BitVec.shiftLeft_eq', pde_size_shift_toNat r (Nat.le_refl _), BitVec.toNat_add,
    BitVec.toNat_shiftLeft, Nat.shiftLeft_eq, BitField.and_pred_toNat size,
    Nat.mul_comm (BitVec.toNat _)]
  omega

theorem aliasOffset_mod : (aliasOffset (populateWalkHelper r) offset).toNat %
      2 ^ levelBits (populateWalkHelper r) (populateWalkHelper r).pt_depth =
    offset.toNat % 2 ^ levelBits (populateWalkHelper r) (populateWalkHelper r).pt_depth := by
  simp only [aliasOffset_toNat, Nat.mul_add_mod, Nat.mod_mod]

theorem aliasOffset_top : tableIndex (populateWalkHelper r)
      (aliasOffset (populateWalkHelper r) offset) (populateWalkHelper r).pt_depth =
    tableIndex (populateWalkHelper r) offset (populateWalkHelper r).pt_depth := by
  have low := Nat.mod_lt offset.toNat
    (Nat.two_pow_pos (levelBits (populateWalkHelper r) (populateWalkHelper r).pt_depth))
  have shifted : (aliasOffset (populateWalkHelper r) offset) >>>
      ((populateWalkHelper r).levelinfo (populateWalkHelper r).pt_depth).pde_size_shift =
      tableIndex (populateWalkHelper r) offset (populateWalkHelper r).pt_depth := by
    apply BitVec.eq_of_toNat_eq
    rw [shifted_toNat r _ (Nat.le_refl _), aliasOffset_toNat,
      Nat.mul_add_div (Nat.two_pow_pos _), Nat.div_eq_of_lt low, Nat.add_zero]
  simp only [tableIndex, shifted, BitVec.and_assoc, BitVec.and_self]

theorem aliasOffset_index {i : Nat} (le : i ≤ (populateWalkHelper r).pt_depth) :
    tableIndex (populateWalkHelper r) offset i =
      tableIndex (populateWalkHelper r) (aliasOffset (populateWalkHelper r) offset) i := by
  rcases Nat.lt_or_eq_of_le le with below | rfl
  · apply BitVec.eq_of_toNat_eq
    rw [tableIndex_below r _ below, tableIndex_below r _ below]
    exact BitField.field_congr (b := 9) (by unfold levelBits; omega) (aliasOffset_mod r offset).symm
  · exact (aliasOffset_top r offset).symm

theorem aliasOffset_lt (some_entry :
      0 < ((populateWalkHelper r).levelinfo (populateWalkHelper r).pt_depth).num_pdes.toNat) :
    (aliasOffset (populateWalkHelper r) offset).toNat <
      2 ^ levelBits (populateWalkHelper r) (populateWalkHelper r).pt_depth *
        ((populateWalkHelper r).levelinfo (populateWalkHelper r).pt_depth).num_pdes.toNat := by
  have low := Nat.mod_lt offset.toNat
    (Nat.two_pow_pos (levelBits (populateWalkHelper r) (populateWalkHelper r).pt_depth))
  have index :
      (tableIndex (populateWalkHelper r) offset (populateWalkHelper r).pt_depth).toNat + 1 ≤
        ((populateWalkHelper r).levelinfo (populateWalkHelper r).pt_depth).num_pdes.toNat := by
    have le : 1#64 ≤ ((populateWalkHelper r).levelinfo (populateWalkHelper r).pt_depth).num_pdes :=
      BitVec.le_def.mpr some_entry
    apply Nat.add_le_of_le_sub some_entry
    simp only [tableIndex, BitVec.toNat_and, BitVec.toNat_sub_of_le le]
    exact Nat.and_le_right
  have scaled := Nat.mul_le_mul_left
    (2 ^ levelBits (populateWalkHelper r) (populateWalkHelper r).pt_depth) index
  rw [Nat.mul_succ] at scaled
  rw [aliasOffset_toNat]
  omega

theorem aliasOffset_further (deep : (populateWalkHelper r).pt_depth ≠ 0) :
    furtherIndex offset = furtherIndex (aliasOffset (populateWalkHelper r) offset) := by
  apply BitVec.eq_of_toNat_eq
  simp only [furtherIndex_toNat]
  exact BitField.field_congr (b := 9) (by unfold levelBits; omega) (aliasOffset_mod r offset).symm

end

section
variable (r : Registers) (va : BitVec 64)

theorem walk_alias (cache : PdeCache) :
    walkPt (populateWalkHelper r) cache va =
      walkPt (populateWalkHelper r) cache (aliasOf r va) := by
  by_cases deep : (populateWalkHelper r).pt_depth = 0
  · simp only [walkPt, walkWith, if_pos deep]
  · have back : aliasOf r va - (populateWalkHelper r).pt_start_addr = aliasOffset
        (populateWalkHelper r) (va - (populateWalkHelper r).pt_start_addr) := by
      rw [aliasOf, BitVec.add_comm, BitVec.add_sub_cancel]
    apply walkWith_congr
    · intro i le
      rw [back]
      exact aliasOffset_index r _ le
    · rw [back]
      exact aliasOffset_further r _ deep

theorem translated_low {mem : Memory} {t : Translation}
    (translated : siftXlatorTranslate mem r va (some t)) (ok : t.ok = true) :
    va < 0xfffffffffffff000#64 := by
  by_contra high
  cases translated.unique (translate_empty high)
  have invalid : Fragment.cleared.flags.valid = 0#8 := by decide
  exact absurd invalid (of_decide_eq_true ok)

theorem translated_walk {mem : Memory} {t : Translation}
    (translated : siftXlatorTranslate mem r va (some t)) (ok : t.ok = true) :
    ∃ w, ((ownWalk r va).value mem).1 = some w ∧ w.pte.valid ≠ 0#8 ∧ t.pte = w.pte ∧
      t.size = w.size := by
  have low := translated_low r va translated ok
  cases found : ((ownWalk r va).value mem).1 with
  | none =>
    have failed := translate_not_found found
    rw [if_pos low] at failed
    cases translated.unique failed
  | some w =>
    obtain rfl := translate_some found low translated
    exact ⟨w, rfl, of_decide_eq_true ok, rfl, rfl⟩

theorem alias_in_range (ordered : (populateWalkHelper r).pt_start_addr ≤
      (populateWalkHelper r).pt_end_addr)
    (room : 2 ^ levelBits (populateWalkHelper r) (populateWalkHelper r).pt_depth ≤ rangeBytes r) :
    InRange r (aliasOf r va) := by
  have first : (populateWalkHelper r).pt_start_addr.toNat % 4096 = 0 := address_aligned _ _
  have last : (populateWalkHelper r).pt_end_addr.toNat % 4096 = 0 := address_aligned _ _
  have top := (populateWalkHelper r).pt_end_addr.isLt
  have le := BitVec.le_def.mp ordered
  have bytes : rangeBytes r = (populateWalkHelper r).pt_end_addr.toNat -
    (populateWalkHelper r).pt_start_addr.toNat + 4096 := rfl
  unfold InRange
  rcases Nat.lt_or_ge (rangeBytes r) (2 ^ 64) with part | all
  · have entries := num_pdes_toNat ordered
    rw [Nat.mod_eq_of_lt part] at entries
    have some_entry := entries ▸ Nat.div_pos room (Nat.two_pow_pos _)
    have offset := aliasOffset_lt r (va - (populateWalkHelper r).pt_start_addr) some_entry
    have whole := Nat.mul_div_le (rangeBytes r)
      (2 ^ levelBits (populateWalkHelper r) (populateWalkHelper r).pt_depth)
    rw [← entries] at whole
    simp only [aliasOf, BitVec.toNat_add]
    omega
  · have any := (aliasOf r va).isLt
    omega

end

theorem walked_as_alias (mem : Memory) (r : Registers) (va : BitVec 64) :
    WalkedAsAlias mem r va := by
  refine ⟨walk_alias r va, fun t translated ok => ?_, alias_in_range r va⟩
  have same : ownWalk r (aliasOf r va) = ownWalk r va := (walk_alias r va PdeCache.cleared).symm
  rw [same]
  exact translated_walk r va translated ok

/-- An address behind a range of 1 GiB: it is translated as the second page of the range. -/
theorem out_of_range_translated :
    let mem := systemMemory [(0x5000#64, 0x6003#64), (0x6008#64, 0x9003#64)]
    let r := oneDirectory 0x5003#32
    ¬InRange r 0x40001000#64 ∧
      ∃ t, siftXlatorTranslate mem r 0x40001000#64 (some t) ∧ t.ok = true := by
  intro mem r
  let pages := RangeResult.list [smallPage 0x40001000#64 0x9003#64]
  have outside : ¬InRange r 0x40001000#64 := fun inside => absurd inside.2 (by decide)
  exact ⟨outside, _, ⟨pages, ⟨2, by decide +kernel⟩, rfl⟩, by decide⟩

end Rocsift.Xlator
