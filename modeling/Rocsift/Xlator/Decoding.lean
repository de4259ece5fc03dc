import Rocsift.Xlator.Walk

/-! What the walk helper keeps of the registers. The values of a context are taken in 64 bits, and
the shift of each level wraps to what it should be; the framebuffer offset alone is shifted in the
32 bits of its register. -/
namespace Rocsift.Xlator

def tableIndex (h : WalkHelper) (va : BitVec 64) (level : Nat) : BitVec 64 :=
  let info := h.levelinfo level
  va >>> info.pde_size_shift &&& (info.num_pdes - 1#64)

def levelBits (h : WalkHelper) (level : Nat) : Nat := h.pt_block_size + 12 + 9 * level

/-- The values of the registers, as numbers without a bound. -/
structure DecodedExactly (r : Registers) : Prop where
  fb_offset : (populateWalkHelper r).fb_offset.toNat = r.fb_offset.toNat * 2 ^ 24
  pt_start_addr : (populateWalkHelper r).pt_start_addr.toNat =
    (r.page_table_start_addr_hi.toNat * 2 ^ 32 + r.page_table_start_addr_lo.toNat) * 2 ^ 12
  pt_end_addr : (populateWalkHelper r).pt_end_addr.toNat =
    (r.page_table_end_addr_hi.toNat * 2 ^ 32 + r.page_table_end_addr_lo.toNat) * 2 ^ 12
  pt_base_addr : (populateWalkHelper r).pt_base_addr.toNat =
    r.page_table_base_addr_hi.toNat * 2 ^ 32 + r.page_table_base_addr_lo.toNat
  shift : ∀ i ≤ (populateWalkHelper r).pt_depth, levelBits (populateWalkHelper r) i < 64 ∧
    ((populateWalkHelper r).levelinfo i).pde_size_shift.toNat = levelBits (populateWalkHelper r) i
  size : ∀ i ≤ (populateWalkHelper r).pt_depth,
    ((populateWalkHelper r).levelinfo i).pde_size.toNat = 2 ^ levelBits (populateWalkHelper r) i
  subtracted : ∀ va level pde, pde.system = 0#8 →
    (tableEntry (populateWalkHelper r) va level pde).addr =
      tableIndex (populateWalkHelper r) va level * 8#64 +
        (pde.base_address - BitVec.ofNat 64 (r.fb_offset.toNat * 2 ^ 24))

theorem tableEntry_addr (h : WalkHelper) (va : BitVec 64) (level : Nat) (pde : Pde) :
    (tableEntry h va level pde).addr = tableIndex h va level * 8#64 +
      (if pde.system = 0#8 then pde.base_address - h.fb_offset else pde.base_address) :=
  rfl

theorem levelBits_le (h : WalkHelper) {i j : Nat} (le : i ≤ j) : levelBits h i ≤ levelBits h j :=
  Nat.add_le_add_left (Nat.mul_le_mul_left 9 le) _

theorem pt_depth_lt (r : Registers) : (populateWalkHelper r).pt_depth < 4 :=
  BitField.extract_lt _ (by decide) (by decide)

section
variable (r : Registers) {i : Nat} (le : i ≤ (populateWalkHelper r).pt_depth)
include le

theorem levelBits_lt : levelBits (populateWalkHelper r) i < 64 := by
  have depth := pt_depth_lt r
  have block := pt_block_size_lt r
  unfold levelBits
  omega

theorem pde_size_shift_toNat :
    ((populateWalkHelper r).levelinfo i).pde_size_shift.toNat =
      levelBits (populateWalkHelper r) i := by
  have depth := pt_depth_lt r
  have block := pt_block_size_lt r
  have shift : ((populateWalkHelper r).levelinfo i).pde_size_shift =
      BitVec.ofNat 64 ((populateWalkHelper r).pt_block_size + log2num_mib2) +
        (BitVec.ofNat 64 i - 1#64) * 9#64 := rfl
  simp only [shift, BitVec.toNat_add, BitVec.toNat_mul, BitVec.toNat_sub]
  simp only [BitVec.toNat_ofNat, log2num_mib2, levelBits]
  omega

theorem pde_size_toNat :
    ((populateWalkHelper r).levelinfo i).pde_size.toNat =
      2 ^ levelBits (populateWalkHelper r) i := by
  have shift := pde_size_shift_toNat r le
  have size : ((populateWalkHelper r).levelinfo i).pde_size =
      1#64 <<< ((populateWalkHelper r).levelinfo i).pde_size_shift := rfl
  simp only [size, BitVec.shiftLeft_eq', shift]
  exact BitField.one_shiftLeft_toNat (levelBits_lt r le)

end

theorem fb_offset_toNat (r : Registers) :
    (populateWalkHelper r).fb_offset.toNat = r.fb_offset.toNat * 2 ^ 24 % 2 ^ 32 := by
  have offset : (populateWalkHelper r).fb_offset = (r.fb_offset <<< 24).setWidth 64 := rfl
  simp only [offset, BitVec.toNat_setWidth, BitVec.toNat_shiftLeft, Nat.shiftLeft_eq]
  omega

theorem page_address_toNat {hi lo : BitVec 32} (short : hi.toNat < 2 ^ 20) :
    (word hi lo <<< 12).toNat = (hi.toNat * 2 ^ 32 + lo.toNat) * 2 ^ 12 := by
  have low := lo.isLt
  simp only [BitVec.toNat_shiftLeft, word_toNat, Nat.shiftLeft_eq]
  omega

theorem address_aligned (hi lo : BitVec 32) : (word hi lo <<< 12).toNat % 4096 = 0 := by
  simp only [BitVec.toNat_shiftLeft, Nat.shiftLeft_eq]
  omega

/-- For start and end addresses of at most 64 bits: nothing is lost exactly if the framebuffer
offset fits in the 32 bits it is shifted in. -/
theorem decoded_exactly_iff (r : Registers) (start : r.page_table_start_addr_hi.toNat < 2 ^ 20)
    (finish : r.page_table_end_addr_hi.toNat < 2 ^ 20) :
    DecodedExactly r ↔ r.fb_offset.toNat < 2 ^ 8 := by
  have offset := fb_offset_toNat r
  constructor
  · intro exact
    have whole := exact.fb_offset
    omega
  · intro short
    have whole : (populateWalkHelper r).fb_offset.toNat = r.fb_offset.toNat * 2 ^ 24 := by omega
    refine ⟨whole, page_address_toNat start, page_address_toNat finish, word_toNat _ _,
      fun i le => ⟨levelBits_lt r le, pde_size_shift_toNat r le⟩,
      fun i le => pde_size_toNat r le, ?_⟩
    intro va level pde video
    rw [tableEntry_addr, if_pos video, ← whole, BitVec.ofNat_toNat, BitVec.setWidth_eq]

theorem decoded_exactly_short :
    DecodedExactly { oneDirectory 0x5003#32 with fb_offset := 0x80#32 } :=
  (decoded_exactly_iff _ (by decide) (by decide)).mpr (by decide)

/-- An offset of 4 GiB: nothing is left of it. -/
theorem offset_of_4GiB_lost :
    let r := { oneDirectory 0x5003#32 with fb_offset := 0x100#32 }
    ¬DecodedExactly r ∧ (populateWalkHelper r).fb_offset = 0#64 :=
  ⟨fun exact => absurd exact.fb_offset (by decide), by decide⟩

end Rocsift.Xlator
