import Rocsift.Xlator.Framebuffer
import Rocsift.Xlator.Translate

/-! The reported size of a page against the indices that found it. The size comes from a directory
entry and the index from the block size of the context; a page is masked from the address, an index
is taken from its distance from the start. They agree where the page is within one block of an
index. -/
namespace Rocsift.Xlator

def SamePage (size va va' : BitVec 64) : Prop :=
  va' &&& ~~~(size - 1#64) = va &&& ~~~(size - 1#64)

def pageOffset (r : Registers) (size va : BitVec 64) : BitVec 64 :=
  (va &&& ~~~(size - 1#64)) - (populateWalkHelper r).pt_start_addr

def InBlock (r : Registers) (size va : BitVec 64) (bits : Nat) : Prop :=
  (pageOffset r size va).toNat % 2 ^ bits + size.toNat ≤ 2 ^ bits

def lowestUsed (d : Descent) : Nat := if d.pde.pte ≠ 0#8 then d.level + 1 else 0

/-- No index tells the addresses of the page apart, and all are walked with the same results. -/
structure Homogeneous (mem : Memory) (r : Registers) (cache : PdeCache) (va : BitVec 64)
    (w : WalkResults) : Prop where
  indices : ∀ va', SamePage w.size va va' → ∀ i,
    lowestUsed (walkDescent mem (populateWalkHelper r) va cache) ≤ i →
    i ≤ (populateWalkHelper r).pt_depth →
    tableIndex (populateWalkHelper r) (va - (populateWalkHelper r).pt_start_addr) i =
      tableIndex (populateWalkHelper r) (va' - (populateWalkHelper r).pt_start_addr) i
  further : GoesFurther (populateWalkHelper r) (walkDescent mem (populateWalkHelper r) va cache) →
    ∀ va', SamePage w.size va va' → furtherIndex (va - (populateWalkHelper r).pt_start_addr) =
      furtherIndex (va' - (populateWalkHelper r).pt_start_addr)
  walks : ∀ va', SamePage w.size va va' →
    ((walkPt (populateWalkHelper r) cache va').value mem).1 = some w

/-- Where one index covers the page: one of 4 KiB; one of a page-table entry, or of an entry of the
lowest directory, that is within a block of that level; or one of an entry of the only directory,
if its mask does not tell the ends of the page apart. -/
inductive OneIndex (r : Registers) (d : Descent) (size va : BitVec 64) : Prop
  | small (least : size = 0x1000#64)
  | table (is_table : d.pde.pte = 0#8)
      (block : InBlock r size va (levelBits (populateWalkHelper r) 0))
  | directory (is_pte : d.pde.pte ≠ 0#8)
      (block : InBlock r size va (levelBits (populateWalkHelper r) 1))
  | masked (is_pte : d.pde.pte ≠ 0#8) (only : (populateWalkHelper r).pt_depth = 1)
      (ends : tableIndex (populateWalkHelper r) (pageOffset r size va) 1 =
        tableIndex (populateWalkHelper r) (pageOffset r size va + (size - 1#64)) 1)

theorem add_block (offset x : BitVec 64) {bits : Nat} (le : bits ≤ 64) :
    (offset + x).toNat / 2 ^ bits =
      (offset.toNat + x.toNat) / 2 ^ bits % 2 ^ (64 - bits) := by
  have whole : 2 ^ 64 = 2 ^ bits * 2 ^ (64 - bits) := by
    rw [← Nat.pow_add, Nat.add_sub_cancel' le]
  simp only [BitVec.toNat_add, whole, Nat.mod_mul_right_div_self]

section
variable {r : Registers} {size va va' : BitVec 64} {k : Nat} (power : size.toNat = 2 ^ k)
include power

theorem SamePage.offset (same : SamePage size va va') :
    va' - (populateWalkHelper r).pt_start_addr =
      pageOffset r size va + (va' &&& (size - 1#64)) ∧
    (va' &&& (size - 1#64)).toNat < 2 ^ k := by
  have behind : va' = (va &&& ~~~(size - 1#64)) + (va' &&& (size - 1#64)) := by
    rw [← same, BitField.and_not_eq_sub, BitVec.sub_add_cancel]
  constructor
  · simp only [pageOffset]
    bv_omega
  · simp only [BitField.and_pred_toNat power]
    exact Nat.mod_lt _ (Nat.two_pow_pos k)

theorem size_bits_lt : k < 64 :=
  (Nat.pow_lt_pow_iff_right (by decide)).mp (power ▸ size.isLt)

theorem page_start_mod : (va &&& ~~~(size - 1#64)).toNat % 2 ^ k = 0 := by
  have none : (va &&& ~~~(size - 1#64)) &&& (size - 1#64) = 0#64 := by grind
  rw [← BitField.and_pred_toNat power, none]
  rfl

theorem masked_of_offset {x : BitVec 64} (less : x.toNat < 2 ^ k) :
    ((va &&& ~~~(size - 1#64)) + x) &&& (size - 1#64) = x := by
  have divides : 2 ^ k ∣ 2 ^ 64 := Nat.pow_dvd_pow 2 (Nat.le_of_lt (size_bits_lt power))
  apply BitVec.eq_of_toNat_eq
  rw [BitField.and_pred_toNat power, BitVec.toNat_add, Nat.mod_mod_of_dvd _ divides, Nat.add_mod,
    page_start_mod power, Nat.zero_add, Nat.mod_mod, Nat.mod_eq_of_lt less]

theorem samePage_of_offset {x : BitVec 64} (less : x.toNat < 2 ^ k) :
    SamePage size va ((va &&& ~~~(size - 1#64)) + x) := by
  rw [SamePage, BitField.and_not_eq_sub _ (size - 1#64), masked_of_offset power less,
    BitVec.add_sub_cancel]

theorem InBlock.block {bits : Nat} (le : bits ≤ 64) (block : InBlock r size va bits)
    (same : SamePage size va va') :
    (va - (populateWalkHelper r).pt_start_addr).toNat / 2 ^ bits =
      (va' - (populateWalkHelper r).pt_start_addr).toNat / 2 ^ bits := by
  have own : SamePage size va va := rfl
  unfold InBlock at block
  rw [power] at block
  obtain ⟨here, less⟩ := own.offset (r := r) power
  obtain ⟨there, less'⟩ := same.offset (r := r) power
  rw [here, there, add_block _ _ le, add_block _ _ le, Radix.div_of_run block less,
    Radix.div_of_run block less']

end

section
variable (r : Registers) {offset offset' : BitVec 64} {bits : Nat}

theorem tableIndex_of_block (same : offset.toNat / 2 ^ bits = offset'.toNat / 2 ^ bits) {i : Nat}
    (above : bits ≤ levelBits (populateWalkHelper r) i)
    (le : i ≤ (populateWalkHelper r).pt_depth) :
    tableIndex (populateWalkHelper r) offset i = tableIndex (populateWalkHelper r) offset' i := by
  have scaled : ∀ x : Nat, x / 2 ^ levelBits (populateWalkHelper r) i =
      x / 2 ^ bits / 2 ^ (levelBits (populateWalkHelper r) i - bits) := by
    intro x
    rw [Nat.div_div_eq_div_mul, ← Nat.pow_add, Nat.add_sub_cancel' above]
  have shifted : offset >>> ((populateWalkHelper r).levelinfo i).pde_size_shift =
      offset' >>> ((populateWalkHelper r).levelinfo i).pde_size_shift := by
    apply BitVec.eq_of_toNat_eq
    rw [shifted_toNat r _ le, shifted_toNat r _ le, scaled, scaled, same]
  simp only [tableIndex, shifted]

theorem furtherIndex_of_block (same : offset.toNat / 2 ^ 12 = offset'.toNat / 2 ^ 12) :
    furtherIndex offset = furtherIndex offset' := by
  apply BitVec.eq_of_toNat_eq
  simp only [furtherIndex_toNat, same]

end

section
variable {r : Registers} {size va : BitVec 64} {k : Nat} (power : size.toNat = 2 ^ k)
include power

theorem inBlock_of_index {i : Nat} (below : i < (populateWalkHelper r).pt_depth)
    (same : ∀ va', SamePage size va va' →
      tableIndex (populateWalkHelper r) (va - (populateWalkHelper r).pt_start_addr) i =
        tableIndex (populateWalkHelper r) (va' - (populateWalkHelper r).pt_start_addr) i) :
    InBlock r size va (levelBits (populateWalkHelper r) i) := by
  have bits : levelBits (populateWalkHelper r) i + 9 ≤ 64 := Nat.le_of_lt (levelBits_lt r below)
  -- the digit of an address of the page, by its distance from the first
  have digit : ∀ va', SamePage size va va' →
      (tableIndex (populateWalkHelper r) (va' - (populateWalkHelper r).pt_start_addr) i).toNat =
        Radix.digit (2 ^ levelBits (populateWalkHelper r) 0) 512
          ((pageOffset r size va).toNat + (va' &&& (size - 1#64)).toNat) i := by
    intro va' page
    rw [tableIndex_below r _ below, (page.offset power).1, BitVec.toNat_add, Radix.digit,
      weight_level]
    exact BitField.field_congr (b := 9) bits (Nat.mod_mod _ _)
  unfold InBlock
  rw [power, ← weight_level]
  apply (Radix.digit_const_iff _ (by decide)).mp
  · have offset : ∀ x : BitVec 64, x.toNat < 2 ^ k →
        Radix.digit (2 ^ levelBits (populateWalkHelper r) 0) 512
            ((pageOffset r size va).toNat + x.toNat) i =
          (tableIndex (populateWalkHelper r) (va - (populateWalkHelper r).pt_start_addr)
            i).toNat := by
      intro x less
      have page : SamePage size va _ := samePage_of_offset power less
      simp only [same _ page, digit _ page, masked_of_offset power less]
    intro x less
    have value : (BitVec.ofNat 64 x).toNat = x := by
      simp only [BitVec.toNat_ofNat]
      exact Nat.mod_eq_of_lt (Nat.lt_trans less (power ▸ size.isLt))
    have here := offset (BitVec.ofNat 64 x) (by rw [value]; exact less)
    have first := offset 0#64 (Nat.two_pow_pos k)
    rw [value] at here
    exact here.trans first.symm
  · simp only [weight_level]
    exact Nat.two_pow_pos _

theorem ends_of_index {i : Nat} (same : ∀ va', SamePage size va va' →
      tableIndex (populateWalkHelper r) (va - (populateWalkHelper r).pt_start_addr) i =
        tableIndex (populateWalkHelper r) (va' - (populateWalkHelper r).pt_start_addr) i) :
    tableIndex (populateWalkHelper r) (pageOffset r size va) i =
      tableIndex (populateWalkHelper r) (pageOffset r size va + (size - 1#64)) i := by
  have at_offset : ∀ x : BitVec 64, x.toNat < 2 ^ k →
      tableIndex (populateWalkHelper r) (pageOffset r size va + x) i =
        tableIndex (populateWalkHelper r) (va - (populateWalkHelper r).pt_start_addr) i := by
    intro x less
    simp only [same _ (samePage_of_offset power less), pageOffset]
    congr 1
    bv_omega
  have first := at_offset 0#64 (Nat.two_pow_pos k)
  rw [BitVec.add_zero] at first
  refine first.trans (at_offset (size - 1#64) ?_).symm
  simp only [BitField.pred_toNat power]
  exact Nat.sub_lt (Nat.two_pow_pos k) (by decide)

end

section
variable {mem : Memory} {h : WalkHelper} {va va' : BitVec 64} {base : BitVec 64}

theorem lowestUsed_table {d : Descent} (is_table : ¬d.pde.pte ≠ 0#8) : lowestUsed d = 0 :=
  if_neg is_table

theorem lowestUsed_pte {d : Descent} (is_pte : d.pde.pte ≠ 0#8) : lowestUsed d = d.level + 1 :=
  if_pos is_pte

theorem lowestUsed_le (level : Nat) (base : BitVec 64) (cache : PdeCache) :
    lowestUsed ((descend cachedFetch h va level base cache).value mem).1 ≤ level + 1 := by
  induction level generalizing base cache with
  | zero =>
    by_cases is_pte : (getPdeFields base).pte ≠ 0#8
    · rw [descend_stops is_pte, lowestUsed_pte is_pte]
    · rw [descend_last is_pte, lowestUsed_table is_pte]
      exact Nat.zero_le _
  | succ level ih =>
    by_cases is_pte : (getPdeFields base).pte ≠ 0#8
    · rw [descend_stops is_pte, lowestUsed_pte is_pte]
    · simp only [descend_next is_pte]
      exact Nat.le_succ_of_le (ih _ _)

theorem descend_of_used (level : Nat) (base : BitVec 64) (cache : PdeCache)
    (same : ∀ i, lowestUsed ((descend cachedFetch h va level base cache).value mem).1 ≤ i →
      i ≤ level → tableIndex h va i = tableIndex h va' i) :
    (descend cachedFetch h va level base cache).value mem =
      (descend cachedFetch h va' level base cache).value mem := by
  induction level generalizing base cache with
  | zero =>
    by_cases is_pte : (getPdeFields base).pte ≠ 0#8
    · rw [descend_stops is_pte, descend_stops is_pte]
    · rw [descend_last is_pte, lowestUsed_table is_pte] at same
      have here := same 0 (Nat.le_refl 0) (Nat.le_refl 0)
      rw [descend_last is_pte, descend_last is_pte, tableEntry_congr here]
  | succ level ih =>
    by_cases is_pte : (getPdeFields base).pte ≠ 0#8
    · rw [descend_stops is_pte, descend_stops is_pte]
    · rw [descend_next is_pte] at same
      have here := same (level + 1) (lowestUsed_le _ _ _) (Nat.le_refl _)
      rw [descend_next is_pte, descend_next is_pte, ← tableEntry_congr here]
      exact ih _ _ fun i ge le => same i ge (Nat.le_succ_of_le le)

end

section
variable {mem : Memory} {h : WalkHelper} {va va' : BitVec 64} {cache : PdeCache} {w : WalkResults}

theorem leaf_of_further {d : Descent}
    (same : GoesFurther h d → furtherIndex va = furtherIndex va') :
    leaf h va d = leaf h va' d := by
  by_cases goes : GoesFurther h d
  · exact leaf_congr (same goes) d
  · rw [leaf_stays goes, leaf_stays goes]

theorem walk_leaf (found : ((walkPt h cache va).value mem).1 = some w) :
    h.pt_depth ≠ 0 ∧
      (leaf h (va - h.pt_start_addr) (walkDescent mem h va cache)).value mem = some w := by
  unfold walkPt walkWith at found
  by_cases deep : h.pt_depth = 0
  · rw [if_pos deep] at found
    cases found
  · simp only [if_neg deep, Reading.value_bind, Reading.value_pure] at found
    exact ⟨deep, found⟩

/-- Other sizes than 4 KiB are those of a page-table entry, by its directory entry, and of an entry
of the lowest directory. -/
theorem leaf_size {d : Descent} (found : (leaf h va d).value mem = some w) :
    w.size = 0x1000#64 ∨ (¬GoesFurther h d ∧ (d.pde.pte = 0#8 ∨ (d.pde.pte ≠ 0#8 ∧ d.level = 0 ∧
      w.size = 1#64 <<< (h.pt_block_size + log2num_mib2)))) := by
  by_cases goes : GoesFurther h d
  · rw [leaf_goes goes] at found
    exact Or.inl (congrArg WalkResults.size (Option.some.inj found)).symm
  · have size : nativeSize h d = w.size := by
      rw [leaf_stays goes, Reading.value_pure] at found
      split at found
      · cases found
      · exact congrArg WalkResults.size (Option.some.inj found)
    rw [nativeSize] at size
    by_cases is_pte : d.pde.pte ≠ 0#8
    · rw [if_pos is_pte] at size
      by_cases lowest : d.level = 0
      · rw [if_pos lowest] at size
        exact Or.inr ⟨goes, Or.inr ⟨is_pte, lowest, size.symm⟩⟩
      · rw [if_neg lowest] at size
        exact Or.inl size.symm
    · exact Or.inr ⟨goes, Or.inl (not_not.mp is_pte)⟩

theorem walk_of_used (same : ∀ i, lowestUsed (walkDescent mem h va cache) ≤ i → i ≤ h.pt_depth →
      tableIndex h (va - h.pt_start_addr) i = tableIndex h (va' - h.pt_start_addr) i)
    (further : GoesFurther h (walkDescent mem h va cache) →
      furtherIndex (va - h.pt_start_addr) = furtherIndex (va' - h.pt_start_addr)) :
    (walkPt h cache va).value mem = (walkPt h cache va').value mem := by
  unfold walkPt walkWith
  by_cases deep : h.pt_depth = 0
  · rw [if_pos deep, if_pos deep]
  · have descent := descend_of_used h.pt_depth h.pt_base_addr cache same
    simp only [if_neg deep, Reading.value_bind, Reading.value_pure, ← descent]
    unfold walkDescent at further
    simp only [leaf_of_further further]

end

section
variable {mem : Memory} {r : Registers} {cache : PdeCache} {va va' : BitVec 64} {w : WalkResults}

theorem homogeneous_of_indices
    (found : ((walkPt (populateWalkHelper r) cache va).value mem).1 = some w)
    (indices : ∀ va', SamePage w.size va va' → ∀ i,
      lowestUsed (walkDescent mem (populateWalkHelper r) va cache) ≤ i →
      i ≤ (populateWalkHelper r).pt_depth →
      tableIndex (populateWalkHelper r) (va - (populateWalkHelper r).pt_start_addr) i =
        tableIndex (populateWalkHelper r) (va' - (populateWalkHelper r).pt_start_addr) i)
    (further :
      GoesFurther (populateWalkHelper r) (walkDescent mem (populateWalkHelper r) va cache) →
      ∀ va', SamePage w.size va va' → furtherIndex (va - (populateWalkHelper r).pt_start_addr) =
        furtherIndex (va' - (populateWalkHelper r).pt_start_addr)) :
    Homogeneous mem r cache va w := by
  refine ⟨indices, further, fun va' page => ?_⟩
  rw [← walk_of_used (indices va' page) fun goes => further goes va' page, found]

theorem homogeneous_small
    (found : ((walkPt (populateWalkHelper r) cache va).value mem).1 = some w)
    (small : w.size = 0x1000#64) : Homogeneous mem r cache va w := by
  have power : w.size.toNat = 2 ^ 12 := congrArg BitVec.toNat small
  have block : InBlock r w.size va 12 := by
    have page : (va &&& ~~~(w.size - 1#64)).toNat % 2 ^ 12 = 0 := page_start_mod power
    have start : (populateWalkHelper r).pt_start_addr.toNat % 4096 = 0 := address_aligned _ _
    simp only [InBlock, pageOffset, BitVec.toNat_sub, power]
    omega
  apply homogeneous_of_indices found
  · intro va' page i _ le
    exact tableIndex_of_block r (block.block power (by decide) page)
      (by unfold levelBits; omega) le
  · intro _ va' page
    exact furtherIndex_of_block (block.block power (by decide) page)

theorem masked_index (power : w.size.toNat = 2 ^ levelBits (populateWalkHelper r) 1)
    (only : (populateWalkHelper r).pt_depth = 1)
    (ends : tableIndex (populateWalkHelper r) (pageOffset r w.size va) 1 =
      tableIndex (populateWalkHelper r) (pageOffset r w.size va + (w.size - 1#64)) 1)
    (page : SamePage w.size va va') :
    tableIndex (populateWalkHelper r) (va' - (populateWalkHelper r).pt_start_addr) 1 =
      tableIndex (populateWalkHelper r) (pageOffset r w.size va) 1 := by
  have le : 1 ≤ (populateWalkHelper r).pt_depth := Nat.le_of_eq only.symm
  have bits := Nat.le_of_lt (levelBits_lt r le)
  obtain ⟨offset, less⟩ := page.offset (r := r) power
  have first : (pageOffset r w.size va).toNat / 2 ^ levelBits (populateWalkHelper r) 1 =
      (pageOffset r w.size va).toNat / 2 ^ levelBits (populateWalkHelper r) 1 %
        2 ^ (64 - levelBits (populateWalkHelper r) 1) := by
    have none := add_block (pageOffset r w.size va) 0#64 bits
    rwa [BitVec.add_zero, BitVec.toNat_zero, Nat.add_zero] at none
  have last := BitField.pred_toNat power
  simp only [offset]
  rcases Radix.div_of_short_run (o := (pageOffset r w.size va).toNat) less with low | high
  · apply tableIndex_of_block r _ (Nat.le_refl _) le
    rw [add_block _ _ bits, low, ← first]
  · simp only [ends]
    apply tableIndex_of_block r _ (Nat.le_refl _) le
    rw [add_block _ _ bits, add_block _ _ bits, high, last]

theorem one_index (found : ((walkPt (populateWalkHelper r) cache va).value mem).1 = some w)
    (homogeneous : Homogeneous mem r cache va w) :
    OneIndex r (walkDescent mem (populateWalkHelper r) va cache) w.size va := by
  obtain ⟨deep, ends⟩ := walk_leaf found
  obtain ⟨k, -, -, power⟩ := (walkWith_sound cachedFetch r found).size
  rcases leaf_size ends with small | ⟨-, table | ⟨is_pte, lowest, -⟩⟩
  · exact .small small
  · have used := lowestUsed_table (not_not.mpr table)
    have index := fun va' page => homogeneous.indices va' page 0 (Nat.le_of_eq used)
      (Nat.zero_le _)
    exact .table table (inBlock_of_index power (Nat.pos_of_ne_zero deep) index)
  · have used : lowestUsed (walkDescent mem (populateWalkHelper r) va cache) = 1 := by
      simp only [lowestUsed_pte is_pte, lowest]
    have index := fun va' page => homogeneous.indices va' page 1 (Nat.le_of_eq used)
      (Nat.pos_of_ne_zero deep)
    rcases Nat.lt_or_eq_of_le (Nat.pos_of_ne_zero deep) with more | only
    · exact .directory is_pte (inBlock_of_index power more index)
    · exact .masked is_pte only.symm (ends_of_index power index)

theorem OneIndex.indices
    (one : OneIndex r (walkDescent mem (populateWalkHelper r) va cache) w.size va)
    (found : ((walkPt (populateWalkHelper r) cache va).value mem).1 = some w)
    (page : SamePage w.size va va') {i : Nat}
    (used : lowestUsed (walkDescent mem (populateWalkHelper r) va cache) ≤ i)
    (le : i ≤ (populateWalkHelper r).pt_depth) :
    tableIndex (populateWalkHelper r) (va - (populateWalkHelper r).pt_start_addr) i =
      tableIndex (populateWalkHelper r) (va' - (populateWalkHelper r).pt_start_addr) i := by
  obtain ⟨deep, ends⟩ := walk_leaf found
  obtain ⟨k, -, -, power⟩ := (walkWith_sound cachedFetch r found).size
  cases one with
  | small least => exact (homogeneous_small found least).indices va' page i used le
  | table _ block =>
    have bits := levelBits_lt r (Nat.zero_le (populateWalkHelper r).pt_depth)
    exact tableIndex_of_block r (block.block power (Nat.le_of_lt bits) page)
      (levelBits_le _ (Nat.zero_le i)) le
  | directory is_pte block =>
    rw [lowestUsed_pte is_pte] at used
    have bits := levelBits_lt r (Nat.pos_of_ne_zero deep)
    exact tableIndex_of_block r (block.block power (Nat.le_of_lt bits) page)
      (levelBits_le _ (Nat.le_of_add_left_le used)) le
  | masked is_pte only same =>
    have above := lowestUsed_pte is_pte
    obtain rfl : i = 1 := by omega
    rcases leaf_size ends with small | ⟨-, kind⟩
    · exact (homogeneous_small found small).indices va' page 1 used le
    · obtain ⟨-, -, size⟩ := kind.resolve_left is_pte
      have own : SamePage w.size va va := rfl
      have large : w.size.toNat = 2 ^ levelBits (populateWalkHelper r) 1 := by
        have bits := levelBits_lt r (Nat.pos_of_ne_zero deep)
        simp only [size]
        exact BitField.one_shiftLeft_toNat bits
      exact (masked_index large only same own).trans (masked_index large only same page).symm

end

theorem homogeneous_iff (mem : Memory) (r : Registers) (cache : PdeCache) (va : BitVec 64)
    (w : WalkResults)
    (found : ((walkPt (populateWalkHelper r) cache va).value mem).1 = some w) :
    Homogeneous mem r cache va w ↔
      OneIndex r (walkDescent mem (populateWalkHelper r) va cache) w.size va := by
  constructor
  · exact one_index found
  · intro one
    rcases leaf_size (walk_leaf found).2 with small | ⟨stays, -⟩
    · exact homogeneous_small found small
    · exact homogeneous_of_indices found (fun _ page _ => one.indices found page)
        fun goes => absurd goes stays

theorem homogeneous_aligned :
    let mem := systemMemory [(0x5000#64, 0x40000000200001#64)]
    Homogeneous mem (oneDirectory 0x5003#32) PdeCache.cleared 0x1234#64
      ⟨getPteFields 0x40000000200001#64, 0x200000#64, 0x1fffff#64⟩ := by
  intro mem
  apply (homogeneous_iff mem _ _ _ _ (by decide +kernel)).mpr
  have block : InBlock (oneDirectory 0x5003#32) 0x200000#64 0x1234#64
      (levelBits (populateWalkHelper (oneDirectory 0x5003#32)) 1) := by
    unfold InBlock
    decide +kernel
  exact .directory (by decide +kernel) block

/-- Page-table entries of 2 MiB by their directory, in a context that selects them by 4 KiB: the
next 4 KiB of the page are those of another entry. -/
theorem fragment_not_homogeneous :
    let mem := systemMemory
      [(0x5000#64, 0x4800000000006003#64), (0x6000#64, 0x9003#64), (0x6008#64, 0xf003#64)]
    let walk := fun va => ((ownWalk (oneDirectory 0x5003#32) va).value mem).1
    let first : WalkResults := ⟨getPteFields 0x9003#64, 0x200000#64, 0x1fffff#64⟩
    let second : WalkResults := ⟨getPteFields 0xf003#64, 0x200000#64, 0x1fffff#64⟩
    walk 0#64 = some first ∧ SamePage 0x200000#64 0#64 0x1000#64 ∧ walk 0x1000#64 = some second ∧
      ¬Homogeneous mem (oneDirectory 0x5003#32) PdeCache.cleared 0#64 first := by
  intro mem walk first second
  have next : walk 0x1000#64 = some second := by decide +kernel
  have page : SamePage 0x200000#64 0#64 0x1000#64 := rfl
  have other : second ≠ first := by decide
  refine ⟨by decide +kernel, page, next, fun homogeneous => ?_⟩
  exact other (Option.some.inj (next.symm.trans (homogeneous.walks 0x1000#64 page)))

end Rocsift.Xlator
