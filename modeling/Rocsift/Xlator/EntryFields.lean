import Rocsift.Base.PackedWords
import Rocsift.Pm4.Packet
import Rocsift.Xlator.Entry

/-! The fields of page-table entries as bits of the entry. -/
namespace Rocsift.Xlator
open PackedWords (Field Layout Covers bits get)

inductive PteField where
  | valid | system | coherent | tmz | execute | read | write | fragment | base_address | tiled | sw
  | pte | log | translate_further | mtype
  deriving DecidableEq

inductive PdeField where
  | valid | system | coherent | base_address | pte | block_fragment_size
  deriving DecidableEq

namespace PteField

def range : PteField → Field
  | valid => ⟨0, 0, 1⟩
  | system => ⟨0, 1, 1⟩
  | coherent => ⟨0, 2, 1⟩
  | tmz => ⟨0, 3, 1⟩
  | execute => ⟨0, 4, 1⟩
  | read => ⟨0, 5, 1⟩
  | write => ⟨0, 6, 1⟩
  | fragment => ⟨0, 7, 5⟩
  | base_address => ⟨0, 12, 36⟩
  | tiled => ⟨0, 51, 1⟩
  | sw => ⟨0, 52, 2⟩
  | pte => ⟨0, 54, 1⟩
  | log => ⟨0, 55, 1⟩
  | translate_further => ⟨0, 56, 1⟩
  | mtype => ⟨0, 57, 2⟩

/-- The member of decoded fields; the base address is kept shifted to its place. -/
def value (p : Pte) : PteField → Nat
  | valid => p.valid.toNat
  | system => p.system.toNat
  | coherent => p.coherent.toNat
  | tmz => p.tmz.toNat
  | execute => p.execute.toNat
  | read => p.read.toNat
  | write => p.write.toNat
  | fragment => p.fragment.toNat
  | base_address => p.base_address.toNat / 2 ^ 12
  | tiled => p.tiled.toNat
  | sw => p.sw.toNat
  | pte => p.pte.toNat
  | log => p.log.toNat
  | translate_further => p.translate_further.toNat
  | mtype => p.mtype.toNat

def layout : Layout PteField 64 where
  range := range
  all := [valid, system, coherent, tmz, execute, read, write, fragment, base_address, tiled, sw,
    pte, log, translate_further, mtype]
  mem_all := by
    intro f
    cases f <;> decide
  fits := by
    intro f
    cases f <;> decide
  apart := by decide

end PteField

namespace PdeField

def range : PdeField → Field
  | valid => ⟨0, 0, 1⟩
  | system => ⟨0, 1, 1⟩
  | coherent => ⟨0, 2, 1⟩
  | base_address => ⟨0, 6, 42⟩
  | pte => ⟨0, 54, 1⟩
  | block_fragment_size => ⟨0, 59, 5⟩

def value (p : Pde) : PdeField → Nat
  | valid => p.valid.toNat
  | system => p.system.toNat
  | coherent => p.coherent.toNat
  | base_address => p.base_address.toNat / 2 ^ 6
  | pte => p.pte.toNat
  | block_fragment_size => p.block_fragment_size.toNat

def layout : Layout PdeField 64 where
  range := range
  all := [valid, system, coherent, base_address, pte, block_fragment_size]
  mem_all := by
    intro f
    cases f <;> decide
  fits := by
    intro f
    cases f <;> decide
  apart := by decide

end PdeField

section
variable {F : Type} (L : Layout F 64)

def putBack (v : F → Nat) (entry : BitVec 64) : BitVec 64 := L.write v (fun _ => entry) 0

def InFields (i : Nat) : Prop := ∃ f ∈ L.all, Covers (L.range f) 0 i

/-- Put into any other entry, the fields bring over the bits of an entry at their places and
nothing else. -/
def Reproduces (v : F → Nat) (e : BitVec 64) : Prop :=
  ∀ entry : BitVec 64, ∀ i < 64,
    (InFields L i → (putBack L v entry).getLsbD i = e.getLsbD i) ∧
      (¬ InFields L i → (putBack L v entry).getLsbD i = entry.getLsbD i)

end

theorem getByte_bits (v : BitVec 64) {msb lsb : Nat} (h : msb < 64) (le : lsb ≤ msb)
    (narrow : msb + 1 - lsb ≤ 8) :
    (getByte v msb lsb).toNat = bits v.toNat lsb (msb + 1 - lsb) := by
  have small : v.toNat / 2 ^ lsb % 2 ^ (msb + 1 - lsb) < 2 ^ 8 :=
    Nat.lt_of_lt_of_le (Nat.mod_lt _ (Nat.two_pow_pos _)) (Nat.pow_le_pow_right (by decide) narrow)
  rw [getByte, getBits, BitVec.toNat_setWidth, BitField.extract_eq_div_mod v h le]
  exact Nat.mod_eq_of_lt small

theorem shifted_bits (v : BitVec 64) {msb lsb : Nat} (h : msb < 64) (le : lsb ≤ msb) :
    (getBits v msb lsb <<< lsb).toNat / 2 ^ lsb = bits v.toNat lsb (msb + 1 - lsb) := by
  have field : (getBits v msb lsb).toNat < 2 ^ (msb + 1 - lsb) := BitField.extract_lt v h le
  have whole : 2 ^ (msb + 1 - lsb) * 2 ^ lsb = 2 ^ (msb + 1) := by
    rw [← Nat.pow_add, Nat.sub_add_cancel (by omega)]
  have room : 2 ^ (msb + 1) ≤ 2 ^ 64 := Nat.pow_le_pow_right (by decide) h
  have fits : (getBits v msb lsb).toNat * 2 ^ lsb < 2 ^ 64 :=
    Nat.lt_of_lt_of_le (whole ▸ Nat.mul_lt_mul_of_pos_right field (Nat.two_pow_pos lsb)) room
  rw [BitVec.toNat_shiftLeft, Nat.shiftLeft_eq, Nat.mod_eq_of_lt fits,
    Nat.mul_div_cancel _ (Nat.two_pow_pos lsb)]
  exact BitField.extract_eq_div_mod v h le

theorem pte_fields (e : BitVec 64) (f : PteField) :
    PteField.value (getPteFields e) f = get (fun _ => e) (PteField.layout.range f) := by
  cases f
  case base_address => exact shifted_bits e (by decide) (by decide)
  all_goals exact getByte_bits e (by decide) (by decide) (by decide)

theorem pde_fields (e : BitVec 64) (f : PdeField) :
    PdeField.value (getPdeFields e) f = get (fun _ => e) (PdeField.layout.range f) := by
  cases f
  case base_address => exact shifted_bits e (by decide) (by decide)
  all_goals exact getByte_bits e (by decide) (by decide) (by decide)

theorem reproduces_of_get {F : Type} (L : Layout F 64) {v : F → Nat} {e : BitVec 64}
    (read : ∀ f, v f = get (fun _ => e) (L.range f)) : Reproduces L v e := by
  intro entry i inside
  rw [putBack, L.write_get_getLsbD (fun _ => e) read (fun _ => entry) 0 inside]
  exact ⟨fun here => if_pos here, fun out => if_neg out⟩

theorem fields_exact :
    (∀ (v : BitVec 64) (msb lsb : Nat), lsb ≤ msb → msb ≤ 63 →
      (Pm4.slice v msb lsb).toNat = v.toNat / 2 ^ lsb % 2 ^ (msb - lsb + 1) ∧
        (getBits v msb lsb).toNat = v.toNat / 2 ^ lsb % 2 ^ (msb - lsb + 1)) ∧
    ∀ e : BitVec 64, Reproduces PteField.layout (PteField.value (getPteFields e)) e ∧
      Reproduces PdeField.layout (PdeField.value (getPdeFields e)) e := by
  refine ⟨fun v msb lsb le high => ?_, fun e =>
    ⟨reproduces_of_get _ (pte_fields e), reproduces_of_get _ (pde_fields e)⟩⟩
  have width : msb - lsb + 1 = msb + 1 - lsb := by omega
  have exact_field := BitField.extract_eq_div_mod v (Nat.lt_succ_of_le high) le
  rw [width]
  exact ⟨exact_field, exact_field⟩

end Rocsift.Xlator
