import Rocsift.Base.BitField

/-! Page-table entries and the register snapshot a walk starts from, as xlator.c decodes them. -/
namespace Rocsift.Xlator

def getBits (val : BitVec 64) (msb lsb : Nat) : BitVec 64 := BitField.extract val msb lsb

def getByte (val : BitVec 64) (msb lsb : Nat) : BitVec 8 := (getBits val msb lsb).setWidth 8

structure Pde where
  valid : BitVec 8
  system : BitVec 8
  coherent : BitVec 8
  base_address : BitVec 64
  pte : BitVec 8
  block_fragment_size : BitVec 8
  deriving DecidableEq

structure Pte where
  valid : BitVec 8
  system : BitVec 8
  coherent : BitVec 8
  tmz : BitVec 8
  execute : BitVec 8
  read : BitVec 8
  write : BitVec 8
  fragment : BitVec 8
  base_address : BitVec 64
  tiled : BitVec 8
  sw : BitVec 8
  pte : BitVec 8
  log : BitVec 8
  translate_further : BitVec 8
  mtype : BitVec 8
  deriving DecidableEq

def getPdeFields (pde : BitVec 64) : Pde where
  valid := getByte pde 0 0
  system := getByte pde 1 1
  coherent := getByte pde 2 2
  base_address := getBits pde 47 6 <<< 6
  pte := getByte pde 54 54
  block_fragment_size := getByte pde 63 59

def getPteFields (pte : BitVec 64) : Pte where
  valid := getByte pte 0 0
  system := getByte pte 1 1
  coherent := getByte pte 2 2
  tmz := getByte pte 3 3
  execute := getByte pte 4 4
  read := getByte pte 5 5
  write := getByte pte 6 6
  fragment := getByte pte 11 7
  base_address := getBits pte 47 12 <<< 12
  tiled := getByte pte 51 51
  sw := getByte pte 53 52
  pte := getByte pte 54 54
  log := getByte pte 55 55
  translate_further := getByte pte 56 56
  mtype := getByte pte 58 57

structure Registers where
  page_table_start_addr_lo : BitVec 32
  page_table_start_addr_hi : BitVec 32
  page_table_end_addr_lo : BitVec 32
  page_table_end_addr_hi : BitVec 32
  page_table_base_addr_lo : BitVec 32
  page_table_base_addr_hi : BitVec 32
  context_cntl : BitVec 32
  fb_offset : BitVec 32
  deriving DecidableEq

structure WalkLevelInfo where
  pde_size_shift : BitVec 64
  pde_size : BitVec 64
  num_pdes : BitVec 64
  va_range : BitVec 64
  deriving DecidableEq

structure WalkHelper where
  pt_depth : Nat
  pt_block_size : Nat
  pt_start_addr : BitVec 64
  pt_base_addr : BitVec 64
  pt_end_addr : BitVec 64
  fb_offset : BitVec 64
  levelinfo : Nat → WalkLevelInfo

def word (hi lo : BitVec 32) : BitVec 64 := hi.setWidth 64 <<< 32 ||| lo.setWidth 64

theorem word_toNat (hi lo : BitVec 32) : (word hi lo).toNat = hi.toNat * 2 ^ 32 + lo.toNat := by
  have joined : word hi lo = hi ++ lo := by
    rw [word, BitVec.append_def, BitVec.shiftLeftZeroExtend_eq]
    rfl
  rw [joined, BitField.append_toNat]

def log2num_bytes_4kib_page : Nat := 12
def log2num_intermediate_pdbs : Nat := 9
def log2num_mib2 : Nat := 21

/-- `i - 1` is unsigned, so the shift of level 0 is 9 less than that of level 1. -/
def populateLevel (depth block : Nat) (start finish : BitVec 64) (i : Nat) : WalkLevelInfo :=
  let shift := BitVec.ofNat 64 (block + log2num_mib2) + (BitVec.ofNat 64 i - 1#64) * 9#64
  let size := 1#64 <<< shift
  let range := finish - start + 1#64 <<< log2num_bytes_4kib_page
  { pde_size_shift := shift
    pde_size := size
    num_pdes := if i = depth then range / size else 1#64 <<< log2num_intermediate_pdbs
    va_range := range }

/-- The framebuffer offset is shifted as a 32-bit value. -/
def populateWalkHelper (r : Registers) : WalkHelper :=
  let start := word r.page_table_start_addr_hi r.page_table_start_addr_lo <<< 12
  let finish := word r.page_table_end_addr_hi r.page_table_end_addr_lo <<< 12
  let depth := (getBits (r.context_cntl.setWidth 64) 2 1).toNat
  let block := (getBits (r.context_cntl.setWidth 64) 6 3).toNat
  { pt_depth := depth
    pt_block_size := block
    pt_start_addr := start
    pt_base_addr := word r.page_table_base_addr_hi r.page_table_base_addr_lo
    pt_end_addr := finish
    fb_offset := (r.fb_offset <<< 24).setWidth 64
    levelinfo := populateLevel depth block start finish }

theorem pt_block_size_lt (r : Registers) : (populateWalkHelper r).pt_block_size < 16 :=
  BitField.extract_lt _ (by decide) (by decide)

theorem base_address_lt (pte : BitVec 64) : (getPteFields pte).base_address.toNat < 2 ^ 48 := by
  have field : (getBits pte 47 12).toNat < 2 ^ 36 := BitField.extract_lt pte (by decide) (by decide)
  simp only [getPteFields, BitVec.toNat_shiftLeft, Nat.shiftLeft_eq]
  omega

theorem block_fragment_size_lt (pde : BitVec 64) :
    (getPdeFields pde).block_fragment_size.toNat < 32 := by
  have field : (getBits pde 63 59).toNat < 2 ^ 5 := BitField.extract_lt pde (by decide) (by decide)
  simp only [getPdeFields, getByte, BitVec.toNat_setWidth]
  omega

end Rocsift.Xlator
