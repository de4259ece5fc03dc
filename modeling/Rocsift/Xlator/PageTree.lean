import Rocsift.Base.DigitTree
import Rocsift.Xlator.Cache
import Rocsift.Xlator.Indices

/-! What the tables in memory map, as a tree: each table is looked up with one digit of the offset
from the start of the range, in units of what one of its entries selects. The tree knows no
registers, masks or shifts, and a walk within the range is a lookup in it. -/
namespace Rocsift.Xlator

structure Page where
  pte : Pte
  bits : Nat
  deriving DecidableEq

/-- Without a page where an entry is to be followed further and may not be. -/
abbrev PageTree := DigitTree (Option Page)

def tablePlace (h : WalkHelper) (pde : Pde) (i : Nat) : EntryAddr :=
  ⟨pde.system ≠ 0#8, BitVec.ofNat 64 i * 8#64 +
    if pde.system = 0#8 then pde.base_address - h.fb_offset else pde.base_address⟩

def furtherPlace (raw : BitVec 64) (i : Nat) : EntryAddr :=
  ⟨(getPdeFields raw).system ≠ 0#8, (getPdeFields raw).base_address + BitVec.ofNat 64 i * 8#64⟩

def pageEntry (mem : Memory) (pde : Pde) (raw : BitVec 64) : PageTree :=
  let pte := getPteFields raw
  let bits := pde.block_fragment_size.toNat + log2num_bytes_4kib_page
  if pte.valid ≠ 0#8 ∧ pte.translate_further ≠ 0#8 then
    if bits ≠ log2num_mib2 then .leaf none
    else .table (2 ^ log2num_bytes_4kib_page) (2 ^ log2num_intermediate_pdbs) fun i =>
      .leaf (some ⟨getPteFields (mem (furtherPlace raw i)), log2num_bytes_4kib_page⟩)
  else .leaf (some ⟨pte, bits⟩)

/-- The entries of the top table, which the range has to be a multiple of. -/
def topEntries (r : Registers) : Nat :=
  rangeBytes r / 2 ^ levelBits (populateWalkHelper r) (populateWalkHelper r).pt_depth

def largePage (r : Registers) (level : Nat) (raw : BitVec 64) : PageTree :=
  .leaf (some ⟨getPteFields raw,
    if level = 0 then (populateWalkHelper r).pt_block_size + log2num_mib2
    else log2num_bytes_4kib_page⟩)

def levelTable (r : Registers) (level : Nat) : (Nat → PageTree) → PageTree :=
  .table (2 ^ levelBits (populateWalkHelper r) level)
    (if level = (populateWalkHelper r).pt_depth then topEntries r else 512)

def directory (mem : Memory) (r : Registers) : Nat → BitVec 64 → PageTree
  | 0, raw =>
    if (getPdeFields raw).pte ≠ 0#8 then largePage r 0 raw
    else levelTable r 0 fun i => pageEntry mem (getPdeFields raw)
      (mem (tablePlace (populateWalkHelper r) (getPdeFields raw) i))
  | level + 1, raw =>
    if (getPdeFields raw).pte ≠ 0#8 then largePage r (level + 1) raw
    else levelTable r (level + 1) fun i => directory mem r level
      (mem (tablePlace (populateWalkHelper r) (getPdeFields raw) i))

def pageTree (mem : Memory) (r : Registers) : PageTree :=
  directory mem r (populateWalkHelper r).pt_depth (populateWalkHelper r).pt_base_addr

def Page.results (p : Page) : WalkResults :=
  ⟨p.pte, 1#64 <<< p.bits, 1#64 <<< p.bits - 1#64⟩

theorem directory_leaf (mem : Memory) (r : Registers) {raw : BitVec 64}
    (is_pte : (getPdeFields raw).pte ≠ 0#8) (level : Nat) :
    directory mem r level raw = largePage r level raw := by
  cases level with
  | zero => exact if_pos is_pte
  | succ level => exact if_pos is_pte

theorem pageEntry_coarse (mem : Memory) (pde : Pde) (raw : BitVec 64) :
    (pageEntry mem pde raw).Coarse 4096 := by
  unfold pageEntry
  simp only []
  split
  · split
    · trivial
    · exact ⟨Nat.dvd_refl _, fun _ => trivial⟩
  · trivial

theorem levelTable_coarse (r : Registers) (level : Nat) {parts : Nat → PageTree}
    (coarse : ∀ i, (parts i).Coarse 4096) : (levelTable r level parts).Coarse 4096 := by
  have least : 12 ≤ levelBits (populateWalkHelper r) level := by
    unfold levelBits
    omega
  exact ⟨Nat.pow_dvd_pow 2 least, coarse⟩

theorem directory_coarse (mem : Memory) (r : Registers) (level : Nat) (raw : BitVec 64) :
    (directory mem r level raw).Coarse 4096 := by
  by_cases is_pte : (getPdeFields raw).pte ≠ 0#8
  · rw [directory_leaf mem r is_pte]
    trivial
  · induction level generalizing raw with
    | zero =>
      rw [directory, if_neg is_pte]
      exact levelTable_coarse r 0 fun i => pageEntry_coarse mem _ _
    | succ level ih =>
      rw [directory, if_neg is_pte]
      apply levelTable_coarse
      intro i
      by_cases below : (getPdeFields (mem (tablePlace (populateWalkHelper r)
          (getPdeFields raw) i))).pte ≠ 0#8
      · rw [directory_leaf mem r below]
        trivial
      · exact ih _ below

/-! The walk, level by level. -/

section
variable {mem : Memory} {r : Registers} {k : Nat} {va : BitVec 64}

theorem ofNat_pdeIdx (level : Nat) : BitVec.ofNat 64 (pdeIdx r va level) =
    tableIndex (populateWalkHelper r) (va - (populateWalkHelper r).pt_start_addr) level :=
  BitVec.eq_of_toNat_eq (by simp only [pdeIdx, BitVec.ofNat_toNat, BitVec.setWidth_eq])

theorem tableEntry_place (pde : Pde) (level : Nat) :
    tableEntry (populateWalkHelper r) (va - (populateWalkHelper r).pt_start_addr) level pde =
      tablePlace (populateWalkHelper r) pde (pdeIdx r va level) := by
  unfold tablePlace
  rw [ofNat_pdeIdx]
  rfl

theorem pdeIdx_digit (range : PowerRange r k) (inside : InRange r va) {level : Nat}
    (le : level ≤ (populateWalkHelper r).pt_depth) :
    fromStart r va / 2 ^ levelBits (populateWalkHelper r) level %
        (if level = (populateWalkHelper r).pt_depth then topEntries r else 512) =
      pdeIdx r va level := by
  have offset := fromStart_lt range inside
  rw [pdeIdx_eq range inside le]
  rcases Nat.lt_or_eq_of_le le with below | rfl
  · rw [if_neg (Nat.ne_of_lt below), Radix.upTo_below _ _ _ below, Radix.digit, weight_level]
  · have entries : topEntries r = 2 ^ k := by
      rw [topEntries, range.bytes, Nat.mul_div_cancel _ (Nat.two_pow_pos _)]
    rw [if_pos rfl, Radix.upTo_last, weight_level, entries]
    exact Nat.mod_eq_of_lt (Nat.div_lt_of_lt_mul (Nat.mul_comm _ _ ▸ offset))

theorem lookup_levelTable (range : PowerRange r k) (inside : InRange r va) {level : Nat}
    (le : level ≤ (populateWalkHelper r).pt_depth) (parts : Nat → PageTree) :
    (levelTable r level parts).lookup (fromStart r va) =
      (parts (pdeIdx r va level)).lookup (fromStart r va) := by
  rw [levelTable, DigitTree.lookup_table, pdeIdx_digit range inside le]

theorem leaf_lookup (inside : InRange r va) {d : Descent} {raw : BitVec 64}
    (decoded : d.pde = getPdeFields raw) (table : d.pde.pte = 0#8) :
    (leaf (populateWalkHelper r) (va - (populateWalkHelper r).pt_start_addr) d).value mem =
      ((pageEntry mem d.pde d.base).lookup (fromStart r va)).map Page.results := by
  have fragment := block_fragment_size_lt raw
  rw [← decoded] at fragment
  have size : nativeSize (populateWalkHelper r) d =
      1#64 <<< (d.pde.block_fragment_size.toNat + log2num_bytes_4kib_page) :=
    if_neg (not_not.mpr table)
  have power := BitField.one_shiftLeft_toNat
    (n := d.pde.block_fragment_size.toNat + log2num_bytes_4kib_page)
    (by unfold log2num_bytes_4kib_page; omega)
  have two_mib : nativeSize (populateWalkHelper r) d = 1#64 <<< 21 ↔
      d.pde.block_fragment_size.toNat + log2num_bytes_4kib_page = log2num_mib2 := by
    constructor
    · intro same
      rw [← size, same] at power
      exact (Nat.pow_right_injective (Nat.le_refl 2) power).symm
    · intro same
      rw [size, same]
      rfl
  unfold leaf pageEntry
  simp only [ne_eq, table, true_and]
  by_cases further : ¬(getPteFields d.base).valid = 0#8 ∧
      ¬(getPteFields d.base).translate_further = 0#8
  · rw [if_pos further, if_pos further]
    by_cases native : nativeSize (populateWalkHelper r) d = 1#64 <<< 21
    · rw [if_neg (not_not.mpr native), if_neg (not_not.mpr (two_mib.mp native)), native]
      have index : furtherIndex (va - (populateWalkHelper r).pt_start_addr) = BitVec.ofNat 64
          (fromStart r va / 2 ^ log2num_bytes_4kib_page % 2 ^ log2num_intermediate_pdbs) := by
        apply BitVec.eq_of_toNat_eq
        have less := Nat.mod_lt (fromStart r va / 2 ^ 12) (Nat.two_pow_pos 9)
        rw [furtherIndex_toNat, fromStart_eq inside, BitVec.toNat_ofNat]
        exact (Nat.mod_eq_of_lt (by omega)).symm
      unfold furtherIndex at index
      simp only [Reading.value_bind, Reading.value_get, Reading.value_pure, index]
      rfl
    · rw [if_pos native, if_pos (mt two_mib.mpr native)]
      rfl
  · rw [if_neg further, if_neg further, size]
    rfl

theorem leaf_largePage {raw : BitVec 64} (is_pte : (getPdeFields raw).pte ≠ 0#8)
    (level n : Nat) :
    (leaf (populateWalkHelper r) va ⟨raw, getPdeFields raw, level⟩).value mem =
      ((largePage r level raw).lookup n).map Page.results := by
  have native : ¬((getPteFields raw).valid ≠ 0#8 ∧ (getPdeFields raw).pte = 0#8 ∧
      (getPteFields raw).translate_further ≠ 0#8) := fun all => is_pte all.2.1
  simp only [leaf, if_neg native, Reading.value_pure, nativeSize, if_pos is_pte]
  by_cases lowest : level = 0
  · rw [if_pos lowest, largePage, if_pos lowest]
    rfl
  · rw [if_neg lowest, largePage, if_neg lowest]
    rfl

theorem descend_lookup (range : PowerRange r k) (inside : InRange r va) {level : Nat}
    (le : level ≤ (populateWalkHelper r).pt_depth) (base : BitVec 64) (cache : PdeCache) :
    (leaf (populateWalkHelper r) (va - (populateWalkHelper r).pt_start_addr)
        ((descend memoryFetch (populateWalkHelper r) (va - (populateWalkHelper r).pt_start_addr)
          level base cache).value mem).1).value mem =
      ((directory mem r level base).lookup (fromStart r va)).map Page.results := by
  induction level generalizing base with
  | zero =>
    by_cases is_pte : (getPdeFields base).pte ≠ 0#8
    · rw [descend_stops is_pte, directory_leaf mem r is_pte]
      exact leaf_largePage is_pte 0 _
    · rw [descend_last is_pte, directory, if_neg is_pte, lookup_levelTable range inside le,
        tableEntry_place]
      exact leaf_lookup inside
        (d := ⟨mem (tablePlace (populateWalkHelper r) (getPdeFields base) (pdeIdx r va 0)),
          getPdeFields base, 0⟩) rfl (not_not.mp is_pte)
  | succ level ih =>
    by_cases is_pte : (getPdeFields base).pte ≠ 0#8
    · rw [descend_stops is_pte, directory_leaf mem r is_pte]
      exact leaf_largePage is_pte _ _
    · rw [descend_next is_pte, directory, if_neg is_pte, lookup_levelTable range inside le,
        tableEntry_place]
      exact ih (Nat.le_of_succ_le le) _

theorem walkMemory_lookup (mem : Memory) (range : PowerRange r k) (inside : InRange r va) :
    walkMemory (populateWalkHelper r) mem va =
      ((pageTree mem r).lookup (fromStart r va)).map Page.results := by
  have deep : (populateWalkHelper r).pt_depth ≠ 0 := Nat.ne_of_gt range.deep
  unfold walkMemory walkWith
  simp only [if_neg deep, Reading.value_bind, Reading.value_pure]
  exact descend_lookup range inside (Nat.le_refl _) _ _

end

structure TreeLookups (mem : Memory) (r : Registers) (vas : List (BitVec 64)) : Prop where
  walks : walkAll mem (populateWalkHelper r) PdeCache.cleared vas =
    vas.map fun va => ((pageTree mem r).lookup (fromStart r va)).map Page.results
  pages : ∀ n n', n / 4096 = n' / 4096 → (pageTree mem r).lookup n = (pageTree mem r).lookup n'

/-- Every run of walks in a range that is a power of two of top-level entries is a run of lookups,
which do not tell the addresses of 4 KiB from the start apart. -/
theorem walks_look_up (mem : Memory) (r : Registers) (k : Nat) (range : PowerRange r k)
    (vas : List (BitVec 64)) (inside : ∀ va ∈ vas, InRange r va)
    (unambiguous : Unambiguous mem (populateWalkHelper r) vas) : TreeLookups mem r vas := by
  refine ⟨?_, fun n n' same => (directory_coarse mem r _ _).lookup_congr same⟩
  apply (walkAll_coherent _ vas unambiguous).trans
  apply List.map_congr_left
  intro va member
  exact walkMemory_lookup mem range (inside va member)

theorem walks_look_up_pages :
    TreeLookups (systemMemory [(0x5000#64, 0x6003#64), (0x6008#64, 0x9003#64), (0x6010#64, 0xa003#64)])
      (oneDirectory 0x5003#32) [0x1000#64, 0x2fff#64, 0x1000#64, 0#64] := by
  apply walks_look_up _ _ 9 ⟨by decide, by decide, by decide⟩
  · intro va member
    simp only [List.mem_cons, List.not_mem_nil, or_false] at member
    rcases member with rfl | rfl | rfl | rfl
    · exact ⟨by decide, by decide⟩
    · exact ⟨by decide, by decide⟩
    · exact ⟨by decide, by decide⟩
    · exact ⟨by decide, by decide⟩
  · exact of_decide_eq_true (by decide +kernel)

end Rocsift.Xlator
