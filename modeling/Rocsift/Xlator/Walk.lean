import Rocsift.Base.Reading
import Rocsift.Base.SlotCache
import Rocsift.Xlator.Entry

/-! One page-table walk. The helper keeps the last entry read at each level, and `walkPt` looks
there first; `walkMemory` is the same walk with every entry read from memory. -/
namespace Rocsift.Xlator

structure EntryAddr where
  system : Bool
  addr : BitVec 64
  deriving DecidableEq, Repr

abbrev Memory := EntryAddr → BitVec 64

abbrev Walker := Reading EntryAddr (BitVec 64)

/-- `pde_addrs` and `raw_pdes`, a pair for each level. -/
abbrev PdeCache := SlotCache Nat (BitVec 64) (BitVec 64)

def PdeCache.cleared : PdeCache := fun _ => (0#64, 0#64)

structure WalkResults where
  pte : Pte
  size : BitVec 64
  mask : BitVec 64
  deriving DecidableEq

structure Descent where
  base : BitVec 64
  pde : Pde
  level : Nat

def tableEntry (h : WalkHelper) (va : BitVec 64) (level : Nat) (pde : Pde) : EntryAddr :=
  let base := if pde.system = 0#8 then pde.base_address - h.fb_offset else pde.base_address
  let info := h.levelinfo level
  let idx := va >>> info.pde_size_shift &&& (info.num_pdes - 1#64)
  ⟨pde.system ≠ 0#8, idx * 8#64 + base⟩

abbrev Fetch := PdeCache → Nat → EntryAddr → Walker (BitVec 64 × PdeCache)

def cachedFetch : Fetch := fun cache level e =>
  if e.addr = (cache level).1 then pure ((cache level).2, cache)
  else do
    let base ← Reading.get e
    pure (base, cache.store level e.addr base)

def memoryFetch : Fetch := fun cache _ e => do
  let base ← Reading.get e
  pure (base, cache)

/-- The loop over the levels. It stops below level 0, or at a directory entry that is itself the
leaf. -/
def descend (fetch : Fetch) (h : WalkHelper) (va : BitVec 64) :
    Nat → BitVec 64 → PdeCache → Walker (Descent × PdeCache)
  | level, base, cache =>
    let pde := getPdeFields base
    if pde.pte ≠ 0#8 then pure (⟨base, pde, level⟩, cache)
    else do
      let next ← fetch cache level (tableEntry h va level pde)
      match level with
      | 0 => pure (⟨next.1, pde, 0⟩, next.2)
      | level + 1 => descend fetch h va level next.1 next.2

def nativeSize (h : WalkHelper) (d : Descent) : BitVec 64 :=
  if d.pde.pte ≠ 0#8 then
    if d.level = 0 then 1#64 <<< (h.pt_block_size + log2num_mib2)
    else 1#64 <<< log2num_intermediate_pdbs * 8#64
  else 1#64 <<< (d.pde.block_fragment_size.toNat + log2num_bytes_4kib_page)

/-- What follows the loop; `none` is the status -1. -/
def leaf (h : WalkHelper) (va : BitVec 64) (d : Descent) : Walker (Option WalkResults) :=
  let pte := getPteFields d.base
  let size := nativeSize h d
  if pte.valid ≠ 0#8 ∧ d.pde.pte = 0#8 ∧ pte.translate_further ≠ 0#8 then
    if size ≠ 1#64 <<< 21 then pure none
    else do
      let idx := va >>> log2num_bytes_4kib_page &&& (1#64 <<< log2num_intermediate_pdbs - 1#64)
      let size := size >>> log2num_intermediate_pdbs
      -- the framebuffer offset is not taken off here
      let pde := getPdeFields d.base
      let base ← Reading.get ⟨pde.system ≠ 0#8, pde.base_address + idx * 8#64⟩
      pure (some ⟨getPteFields base, size, size - 1#64⟩)
  else pure (some ⟨pte, size, size - 1#64⟩)

def walkWith (fetch : Fetch) (h : WalkHelper) (cache : PdeCache) (va : BitVec 64) :
    Walker (Option WalkResults × PdeCache) :=
  if h.pt_depth = 0 then pure (none, cache)
  else do
    let va := va - h.pt_start_addr
    let d ← descend fetch h va h.pt_depth h.pt_base_addr cache
    let results ← leaf h va d.1
    pure (results, d.2)

def walkPt : WalkHelper → PdeCache → BitVec 64 → Walker (Option WalkResults × PdeCache) :=
  walkWith cachedFetch

def walkMemory (h : WalkHelper) (mem : Memory) (va : BitVec 64) : Option WalkResults :=
  ((walkWith memoryFetch h PdeCache.cleared va).value mem).1

/-- What all results have: a power of two as size, its mask, and a base below 2 ^ 48. -/
structure WalkResults.Sound (w : WalkResults) : Prop where
  size : ∃ k, 12 ≤ k ∧ k ≤ 43 ∧ w.size.toNat = 2 ^ k
  mask : w.mask = w.size - 1#64
  base : w.pte.base_address.toNat < 2 ^ 48

theorem nativeSize_toNat (r : Registers) {d : Descent} {raw : BitVec 64}
    (decoded : d.pde = getPdeFields raw) :
    ∃ k, 12 ≤ k ∧ k ≤ 43 ∧ (nativeSize (populateWalkHelper r) d).toNat = 2 ^ k := by
  unfold nativeSize
  split
  · split
    · have block := pt_block_size_lt r
      refine ⟨(populateWalkHelper r).pt_block_size + log2num_mib2, ?_, ?_,
        BitField.one_shiftLeft_toNat ?_⟩ <;> simp only [log2num_mib2] <;> omega
    · exact ⟨12, by decide, by decide, rfl⟩
  · have fragment := block_fragment_size_lt raw
    rw [← decoded] at fragment
    refine ⟨d.pde.block_fragment_size.toNat + log2num_bytes_4kib_page, ?_, ?_,
      BitField.one_shiftLeft_toNat ?_⟩ <;> simp only [log2num_bytes_4kib_page] <;> omega

theorem leaf_sound (r : Registers) {va : BitVec 64} {d : Descent} {raw : BitVec 64} {mem : Memory}
    {w : WalkResults} (decoded : d.pde = getPdeFields raw)
    (found : (leaf (populateWalkHelper r) va d).value mem = some w) : w.Sound := by
  rw [leaf] at found
  split at found
  · split at found
    · cases found
    · rename_i _ native
      simp only [Reading.value_bind, Reading.value_get, Reading.value_pure, Option.some.injEq]
        at found
      subst found
      refine ⟨⟨12, by decide, by decide, ?_⟩, rfl, base_address_lt _⟩
      rw [not_not.mp native]
      rfl
  · simp only [Reading.value_pure, Option.some.injEq] at found
    subst found
    exact ⟨nativeSize_toNat r decoded, rfl, base_address_lt _⟩

/-! The descent, step by step. -/

section
variable {fetch : Fetch} {h : WalkHelper} {va : BitVec 64} {base : BitVec 64} {mem : Memory}

theorem descend_stops (is_pte : (getPdeFields base).pte ≠ 0#8) (level : Nat) (cache : PdeCache) :
    (descend fetch h va level base cache).value mem =
      (⟨base, getPdeFields base, level⟩, cache) := by
  unfold descend
  simp only [if_pos is_pte, Reading.value_pure]

theorem descend_last (is_table : ¬(getPdeFields base).pte ≠ 0#8) (cache : PdeCache) :
    (descend fetch h va 0 base cache).value mem =
      let next := (fetch cache 0 (tableEntry h va 0 (getPdeFields base))).value mem
      (⟨next.1, getPdeFields base, 0⟩, next.2) := by
  unfold descend
  simp only [if_neg is_table, Reading.value_bind, Reading.value_pure]

theorem descend_next (is_table : ¬(getPdeFields base).pte ≠ 0#8) (level : Nat)
    (cache : PdeCache) :
    (descend fetch h va (level + 1) base cache).value mem =
      let next :=
        (fetch cache (level + 1) (tableEntry h va (level + 1) (getPdeFields base))).value mem
      (descend fetch h va level next.1 next.2).value mem := by
  rw [descend]
  simp only [if_neg is_table, Reading.value_bind]

end

theorem descend_decoded (fetch : Fetch) (h : WalkHelper) (va : BitVec 64) (mem : Memory)
    (level : Nat) (base : BitVec 64) (cache : PdeCache) :
    ∃ raw, ((descend fetch h va level base cache).value mem).1.pde = getPdeFields raw := by
  induction level generalizing base cache with
  | zero =>
    by_cases is_pte : (getPdeFields base).pte ≠ 0#8
    · exact ⟨base, by rw [descend_stops is_pte]⟩
    · exact ⟨base, by rw [descend_last is_pte]⟩
  | succ level ih =>
    by_cases is_pte : (getPdeFields base).pte ≠ 0#8
    · exact ⟨base, by rw [descend_stops is_pte]⟩
    · rw [descend_next is_pte]
      exact ih _ _

theorem walkWith_sound (fetch : Fetch) (r : Registers) {cache : PdeCache} {va : BitVec 64}
    {mem : Memory} {w : WalkResults}
    (found : ((walkWith fetch (populateWalkHelper r) cache va).value mem).1 = some w) :
    w.Sound := by
  unfold walkWith at found
  simp only [Reading.value_ite, Reading.value_bind, Reading.value_pure] at found
  split at found
  · cases found
  · obtain ⟨raw, decoded⟩ := descend_decoded fetch (populateWalkHelper r)
      (va - (populateWalkHelper r).pt_start_addr) mem (populateWalkHelper r).pt_depth
      (populateWalkHelper r).pt_base_addr cache
    exact leaf_sound r decoded found

def systemMemory (entries : List (BitVec 64 × BitVec 64)) : Memory := fun e =>
  if e.system then ((entries.find? (·.1 = e.addr)).map Prod.snd).getD 0#64 else 0#64

def oneDirectory (base : BitVec 32) : Registers where
  page_table_start_addr_lo := 0#32
  page_table_start_addr_hi := 0#32
  page_table_end_addr_lo := 0x3ffff#32
  page_table_end_addr_hi := 0#32
  page_table_base_addr_lo := base
  page_table_base_addr_hi := 0#32
  context_cntl := 2#32
  fb_offset := 0#32

end Rocsift.Xlator
