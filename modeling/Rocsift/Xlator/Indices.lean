import Rocsift.Base.Radix
import Rocsift.Xlator.Decoding

/-! The indices of a walk, which are all that it sees of its address, as digits. For a range that is
a power of two of top-level entries, the mask of the top level leaves its index as it is, so the
offset from the start is written in base 512 from the bytes of a page-table entry on. -/
namespace Rocsift.Xlator

def furtherIndex (va : BitVec 64) : BitVec 64 :=
  va >>> log2num_bytes_4kib_page &&& (1#64 <<< log2num_intermediate_pdbs - 1#64)

section
variable {h : WalkHelper} {va va' : BitVec 64}

theorem tableEntry_congr {level : Nat} (same : tableIndex h va level = tableIndex h va' level)
    (pde : Pde) : tableEntry h va level pde = tableEntry h va' level pde :=
  congrArg (EntryAddr.mk _) (congrArg (· * 8#64 + _) same)

theorem descend_congr (fetch : Fetch) {level : Nat}
    (same : ∀ i ≤ level, tableIndex h va i = tableIndex h va' i) (base : BitVec 64)
    (cache : PdeCache) :
    descend fetch h va level base cache = descend fetch h va' level base cache := by
  induction level generalizing base cache with
  | zero =>
    unfold descend
    simp only [tableEntry_congr (same 0 (Nat.le_refl 0))]
  | succ level ih =>
    have below : ∀ i ≤ level, tableIndex h va i = tableIndex h va' i :=
      fun i le => same i (Nat.le_succ_of_le le)
    unfold descend
    simp only [tableEntry_congr (same (level + 1) (Nat.le_refl _)), ih below]

theorem leaf_congr (same : furtherIndex va = furtherIndex va') (d : Descent) :
    leaf h va d = leaf h va' d := by
  unfold furtherIndex at same
  simp only [leaf, same]

theorem walkWith_congr (fetch : Fetch) (cache : PdeCache)
    (same : ∀ i ≤ h.pt_depth,
      tableIndex h (va - h.pt_start_addr) i = tableIndex h (va' - h.pt_start_addr) i)
    (further : furtherIndex (va - h.pt_start_addr) = furtherIndex (va' - h.pt_start_addr)) :
    walkWith fetch h cache va = walkWith fetch h cache va' := by
  unfold walkWith
  simp only [descend_congr fetch same, leaf_congr further]

end

theorem furtherIndex_toNat (va : BitVec 64) :
    (furtherIndex va).toNat = va.toNat / 2 ^ 12 % 2 ^ 9 := by
  have power : (512#64).toNat = 2 ^ 9 := rfl
  have mask : furtherIndex va = va >>> 12 &&& (512#64 - 1#64) := rfl
  rw [mask, BitField.and_pred_toNat power, BitVec.toNat_ushiftRight, Nat.shiftRight_eq_div_pow]

def rangeBytes (r : Registers) : Nat :=
  (populateWalkHelper r).pt_end_addr.toNat - (populateWalkHelper r).pt_start_addr.toNat + 4096

structure PowerRange (r : Registers) (k : Nat) : Prop where
  deep : 1 ≤ (populateWalkHelper r).pt_depth
  ordered : (populateWalkHelper r).pt_start_addr ≤ (populateWalkHelper r).pt_end_addr
  bytes : rangeBytes r =
    2 ^ k * 2 ^ levelBits (populateWalkHelper r) (populateWalkHelper r).pt_depth

/-- The address is in the range, which goes to the end of the page that its last address names. -/
def InRange (r : Registers) (va : BitVec 64) : Prop :=
  (populateWalkHelper r).pt_start_addr.toNat ≤ va.toNat ∧
    va.toNat ≤ (populateWalkHelper r).pt_end_addr.toNat + 0xfff

def pdeIdx (r : Registers) (va : BitVec 64) (level : Nat) : Nat :=
  (tableIndex (populateWalkHelper r) (va - (populateWalkHelper r).pt_start_addr) level).toNat

def fromStart (r : Registers) (va : BitVec 64) : Nat :=
  va.toNat - (populateWalkHelper r).pt_start_addr.toNat

theorem weight_level (h : WalkHelper) (i : Nat) :
    Radix.weight (2 ^ levelBits h 0) 512 i = 2 ^ levelBits h i := by
  have base : 512 = 2 ^ 9 := rfl
  rw [Radix.weight, base, ← Nat.pow_mul, ← Nat.pow_add]
  rfl

section
variable (r : Registers) (va : BitVec 64)

theorem shifted_toNat {i : Nat} (le : i ≤ (populateWalkHelper r).pt_depth) :
    (va >>> ((populateWalkHelper r).levelinfo i).pde_size_shift).toNat =
      va.toNat / 2 ^ levelBits (populateWalkHelper r) i := by
  rw [BitVec.ushiftRight_eq', pde_size_shift_toNat r le, BitVec.toNat_ushiftRight,
    Nat.shiftRight_eq_div_pow]

theorem tableIndex_below {i : Nat} (below : i < (populateWalkHelper r).pt_depth) :
    (tableIndex (populateWalkHelper r) va i).toNat =
      va.toNat / 2 ^ levelBits (populateWalkHelper r) i % 512 := by
  have entries : ((populateWalkHelper r).levelinfo i).num_pdes = 512#64 :=
    if_neg (Nat.ne_of_lt below)
  have power : (512#64).toNat = 2 ^ 9 := rfl
  rw [tableIndex, entries, BitField.and_pred_toNat power, shifted_toNat r va (Nat.le_of_lt below)]
  rfl

theorem PowerRange.bits_le {r : Registers} {k : Nat} (range : PowerRange r k) :
    k + levelBits (populateWalkHelper r) (populateWalkHelper r).pt_depth ≤ 64 := by
  have bytes := range.bytes
  have last := (populateWalkHelper r).pt_end_addr.isLt
  rw [← Nat.pow_add, rangeBytes] at bytes
  by_contra more
  have large := Nat.pow_le_pow_right (n := 2) (by decide) (Nat.not_le.mp more)
  omega

/-- The number of top-level entries, which wraps to zero with a range of all addresses. -/
theorem num_pdes_toNat {r : Registers}
    (ordered : (populateWalkHelper r).pt_start_addr ≤ (populateWalkHelper r).pt_end_addr) :
    ((populateWalkHelper r).levelinfo (populateWalkHelper r).pt_depth).num_pdes.toNat =
      rangeBytes r % 2 ^ 64 /
        2 ^ levelBits (populateWalkHelper r) (populateWalkHelper r).pt_depth := by
  have entries : ((populateWalkHelper r).levelinfo (populateWalkHelper r).pt_depth).num_pdes =
      ((populateWalkHelper r).pt_end_addr - (populateWalkHelper r).pt_start_addr + 4096#64) /
        ((populateWalkHelper r).levelinfo (populateWalkHelper r).pt_depth).pde_size :=
    if_pos rfl
  rw [entries, BitVec.toNat_udiv, pde_size_toNat r (Nat.le_refl _), BitVec.toNat_add,
    BitVec.toNat_sub_of_le ordered]
  rfl

theorem tableIndex_top {k : Nat} (range : PowerRange r k)
    (inside : va.toNat <
      2 ^ k * 2 ^ levelBits (populateWalkHelper r) (populateWalkHelper r).pt_depth) :
    (tableIndex (populateWalkHelper r) va (populateWalkHelper r).pt_depth).toNat =
      va.toNat / 2 ^ levelBits (populateWalkHelper r) (populateWalkHelper r).pt_depth := by
  have entries := num_pdes_toNat range.ordered
  rw [range.bytes] at entries
  have shifted := shifted_toNat r va (Nat.le_refl _)
  have pos := Nat.two_pow_pos (levelBits (populateWalkHelper r) (populateWalkHelper r).pt_depth)
  rw [tableIndex]
  rcases Nat.lt_or_eq_of_le range.bits_le with part | all
  · have small : 2 ^ k * 2 ^ levelBits (populateWalkHelper r) (populateWalkHelper r).pt_depth <
        2 ^ 64 := by
      rw [← Nat.pow_add]
      exact Nat.pow_lt_pow_right (by decide) part
    rw [Nat.mod_eq_of_lt small, Nat.mul_div_cancel _ pos] at entries
    rw [BitField.and_pred_toNat entries, shifted,
      Nat.mod_eq_of_lt (Nat.div_lt_of_lt_mul (Nat.mul_comm _ _ ▸ inside))]
  · rw [← Nat.pow_add, all, Nat.mod_self, Nat.zero_div] at entries
    have none :
        ((populateWalkHelper r).levelinfo (populateWalkHelper r).pt_depth).num_pdes = 0#64 :=
      BitVec.eq_of_toNat_eq entries
    have ones : 0#64 - 1#64 = BitVec.allOnes 64 := rfl
    simp only [none, ones, BitVec.and_allOnes, shifted]

end

theorem fromStart_eq {r : Registers} {va : BitVec 64} (inside : InRange r va) :
    (va - (populateWalkHelper r).pt_start_addr).toNat = fromStart r va :=
  BitVec.toNat_sub_of_le inside.1

theorem fromStart_lt {r : Registers} {k : Nat} {va : BitVec 64} (range : PowerRange r k)
    (inside : InRange r va) : fromStart r va <
      2 ^ k * 2 ^ levelBits (populateWalkHelper r) (populateWalkHelper r).pt_depth := by
  have bytes := range.bytes
  have ordered := BitVec.le_def.mp range.ordered
  have last := inside.2
  rw [← bytes, fromStart, rangeBytes]
  omega

theorem pdeIdx_eq {r : Registers} {k : Nat} {va : BitVec 64} (range : PowerRange r k)
    (inside : InRange r va) {i : Nat} (le : i ≤ (populateWalkHelper r).pt_depth) :
    pdeIdx r va i = Radix.upTo (2 ^ levelBits (populateWalkHelper r) 0) 512 (fromStart r va)
      (populateWalkHelper r).pt_depth i := by
  rcases Nat.lt_or_eq_of_le le with below | rfl
  · rw [Radix.upTo_below _ _ _ below, pdeIdx, tableIndex_below r _ below, fromStart_eq inside,
      Radix.digit, weight_level]
  · have offset := fromStart_lt range inside
    rw [← fromStart_eq inside] at offset
    rw [Radix.upTo_last, pdeIdx, tableIndex_top r _ range offset, fromStart_eq inside,
      weight_level]

end Rocsift.Xlator
