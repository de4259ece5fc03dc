import Mathlib.Algebra.Order.BigOperators.Group.List
import Mathlib.Algebra.Order.Group.Nat
import Rocsift.Base.PaddedBlocks
import Rocsift.Sift.Vram

/-! The address space of a hive: which member the loop of `Partition::ReadVRAM` comes to, and at
which local address, for every hive and every address. -/
namespace Rocsift.Sift

open PaddedBlocks (Selected Holds)

section
variable (drm : Nat → DRMNode)

def vramSize (n : Nat) : BitVec 64 := (drm n).total_vram_bytes

def roundedGib (size : Nat) : Nat := 2 ^ 30 * ((size + 2 ^ 30 - 1) / 2 ^ 30)

def hiveBytes (nodes : List Nat) : Nat := (nodes.map fun n => roundedGib (vramSize drm n).toNat).sum

def hiveBase (nodes : List Nat) (place : Nat) : Nat := hiveBytes drm (nodes.take place)

/-- The member that the loop of `Partition::ReadVRAM` comes to, with the reduced address. -/
def selectMember (nodes : List Nat) (address : BitVec 64) : Option (Selected Nat 64) :=
  PaddedBlocks.select (vramSize drm) (fun n => takenBytes (vramSize drm n)) nodes address

def Partition.readLocal (p : Partition) (eng : Engine) (n : Nat) (address : BitVec 64) :
    VramAccess :=
  if (drm n).card_name = (drm p.drmnode_).card_name then p.vram address
  else match partitionOf drm eng n with
    | some q => q.vram address
    | none => .thrown .outOfRange

theorem walk_selected (walk : List Nat → BitVec 64 → VramAccess)
    (serve : Nat → BitVec 64 → VramAccess)
    (nil : ∀ address, walk [] address = .thrown .outOfRange)
    (cons : ∀ n nodes address, walk (n :: nodes) address =
      if address < vramSize drm n then serve n address
      else walk nodes (address - takenBytes (vramSize drm n)))
    (nodes : List Nat) (address : BitVec 64) :
    walk nodes address =
      match selectMember drm nodes address with
      | some m => serve m.item m.offset
      | none => .thrown .outOfRange := by
  induction nodes generalizing address with
  | nil => exact nil address
  | cons n nodes ih =>
    rw [cons, selectMember, PaddedBlocks.select]
    split
    · rfl
    · rw [ih, selectMember]
      cases PaddedBlocks.select (vramSize drm) (fun n => takenBytes (vramSize drm n)) nodes
        (address - takenBytes (vramSize drm n)) <;> rfl

theorem readMember_eq (p : Partition) (eng : Engine) (nodes : List Nat) (address : BitVec 64) :
    p.readMember drm eng nodes address =
      match selectMember drm nodes address with
      | some m => p.readLocal drm eng m.item m.offset
      | none => .thrown .outOfRange :=
  walk_selected drm _ _ (fun _ => rfl) (fun _ _ _ => rfl) nodes address

theorem roundedGib_ge (size : Nat) : size ≤ roundedGib size := by
  unfold roundedGib
  omega

theorem takenBytes_toNat {size : BitVec 64} (small : roundedGib size.toNat < 2 ^ 63) :
    (takenBytes size).toNat = roundedGib size.toNat := by
  have ge := roundedGib_ge size.toNat
  have one : gib.toNat = 2 ^ 30 := rfl
  have up : (size + gib - 1#64).toNat = size.toNat + 2 ^ 30 - 1 := by
    rw [BitVec.toNat_sub, BitVec.toNat_add, one, BitVec.toNat_one (by decide)]
    omega
  rw [takenBytes, BitVec.toNat_mul, BitVec.toNat_udiv, up, one]
  exact Nat.mod_eq_of_lt (Nat.lt_trans small (by decide))

structure InMember (nodes : List Nat) (place n a : Nat) : Prop where
  member : nodes[place]? = some n
  lower : hiveBase drm nodes place ≤ a
  upper : a < hiveBase drm nodes place + (vramSize drm n).toNat

section
variable {drm} {nodes : List Nat} (fits : hiveBytes drm nodes < 2 ^ 63)
include fits

theorem rounded_lt : ∀ n ∈ nodes, roundedGib (vramSize drm n).toNat < 2 ^ 63 := by
  intro n hn
  have le : roundedGib (vramSize drm n).toNat ≤ hiveBytes drm nodes :=
    List.single_le_sum (fun _ _ => Nat.zero_le _) _ (List.mem_map_of_mem hn)
  omega

theorem taken_map : ∀ n ∈ nodes,
    (takenBytes (vramSize drm n)).toNat = roundedGib (vramSize drm n).toNat :=
  fun n hn => takenBytes_toNat (rounded_lt fits n hn)

theorem hive_padded : ∀ n ∈ nodes, vramSize drm n ≤ takenBytes (vramSize drm n) := by
  intro n hn
  rw [BitVec.le_def, taken_map fits n hn]
  exact roundedGib_ge _

theorem hive_total :
    PaddedBlocks.total (fun n => takenBytes (vramSize drm n)) nodes = hiveBytes drm nodes :=
  congrArg List.sum (List.map_congr_left (taken_map fits))

theorem hive_start (place : Nat) :
    PaddedBlocks.start (fun n => takenBytes (vramSize drm n)) nodes place =
      hiveBase drm nodes place :=
  congrArg List.sum (List.map_congr_left fun n hn => taken_map fits n (List.mem_of_mem_take hn))

theorem holds_iff_inMember (place n a : Nat) :
    Holds (vramSize drm) (fun n => takenBytes (vramSize drm n)) nodes place n a ↔
      InMember drm nodes place n a := by
  have start := hive_start fits place
  constructor
  · rintro ⟨item, lower, upper⟩
    exact ⟨item, start ▸ lower, start ▸ upper⟩
  · rintro ⟨item, lower, upper⟩
    exact ⟨item, start ▸ lower, start ▸ upper⟩

theorem hive_room :
    PaddedBlocks.total (fun n => takenBytes (vramSize drm n)) nodes ≤ 2 ^ 64 := by
  rw [hive_total fits]
  omega

theorem selectMember_iff (a : BitVec 64) (m : Selected Nat 64) :
    selectMember drm nodes a = some m ↔
      InMember drm nodes m.place m.item a.toNat ∧
        m.offset.toNat = a.toNat - hiveBase drm nodes m.place := by
  rw [selectMember, PaddedBlocks.select_iff (hive_padded fits) (hive_room fits),
    holds_iff_inMember fits, hive_start fits]

theorem selectMember_none_iff (a : BitVec 64) :
    selectMember drm nodes a = none ↔ ∀ place n, ¬ InMember drm nodes place n a.toNat := by
  rw [selectMember, PaddedBlocks.select_none_iff (hive_padded fits) (hive_room fits)]
  simp only [holds_iff_inMember fits]

theorem not_inMember_gap {place n a : Nat} (member : nodes[place]? = some n)
    (lower : hiveBase drm nodes place + (vramSize drm n).toNat ≤ a)
    (upper : a < hiveBase drm nodes place + roundedGib (vramSize drm n).toNat) :
    ∀ place' n', ¬ InMember drm nodes place' n' a := by
  have start := hive_start fits place
  have taken := taken_map fits n (List.mem_of_getElem? member)
  have apart := PaddedBlocks.not_holds_padding (hive_padded fits) member (start.symm ▸ lower)
    (by rw [start, taken]; exact upper)
  simpa only [holds_iff_inMember fits] using apart

end

/-- The loop comes to the member whose memory holds the address, with the address local to it, and
throws for every address that no member holds, those in the gaps behind the members among them. No
two addresses come to one local address of a member. -/
theorem hive_decoding_exact (eng : Engine) (nodes : List Nat)
    (fits : hiveBytes drm nodes < 2 ^ 63) :
    (∀ (p : Partition) (a : BitVec 64), p.readMember drm eng nodes a =
      match selectMember drm nodes a with
      | some m => p.readLocal drm eng m.item m.offset
      | none => .thrown .outOfRange) ∧
    (∀ (a : BitVec 64) (m : Selected Nat 64), selectMember drm nodes a = some m ↔
      InMember drm nodes m.place m.item a.toNat ∧
        m.offset.toNat = a.toNat - hiveBase drm nodes m.place) ∧
    (∀ (p : Partition) (a : BitVec 64), (∀ place n, ¬ InMember drm nodes place n a.toNat) →
      p.readMember drm eng nodes a = .thrown .outOfRange) ∧
    (∀ (p : Partition) (a : BitVec 64) (place n : Nat), nodes[place]? = some n →
      hiveBase drm nodes place + (vramSize drm n).toNat ≤ a.toNat →
      a.toNat < hiveBase drm nodes place + roundedGib (vramSize drm n).toNat →
      p.readMember drm eng nodes a = .thrown .outOfRange) ∧
    (∀ (a b : BitVec 64) (m m' : Selected Nat 64), selectMember drm nodes a = some m →
      selectMember drm nodes b = some m' → m.place = m'.place → m.offset = m'.offset → a = b) := by
  have outside : ∀ (p : Partition) (a : BitVec 64),
      (∀ place n, ¬ InMember drm nodes place n a.toNat) →
        p.readMember drm eng nodes a = .thrown .outOfRange := by
    intro p a nowhere
    rw [readMember_eq, (selectMember_none_iff fits a).mpr nowhere]
  refine ⟨fun p a => readMember_eq drm p eng nodes a, selectMember_iff fits, outside, ?_, ?_⟩
  · intro p a place n member lower upper
    exact outside p a (not_inMember_gap fits member lower upper)
  · intro a b m m' found found' place offset
    exact PaddedBlocks.select_injective (hive_padded fits) (hive_room fits) found found' place
      offset

end

def unevenHive (n : Nat) : DRMNode :=
  ⟨if n = 0 then "card0" else "card1", if n = 0 then 0x60000000#64 else 0x80000000#64, 1#64,
    if n = 0 then 10#64 else 11#64, [0, 1]⟩

theorem hive_decoding_exact_uneven :
    hiveBytes unevenHive [0, 1] < 2 ^ 63 ∧
      selectMember unevenHive [0, 1] 0x80001000#64 = some ⟨1, 1, 0x1000#64⟩ ∧
      ∀ (eng : Engine) (p : Partition),
        p.readMember unevenHive eng [0, 1] 0x60000000#64 = .thrown .outOfRange := by
  have fits : hiveBytes unevenHive [0, 1] < 2 ^ 63 := by decide
  refine ⟨fits, by decide, ?_⟩
  intro eng p
  have decoding := hive_decoding_exact unevenHive eng [0, 1] fits
  exact decoding.2.2.2.1 p 0x60000000#64 0 0 rfl (by decide) (by decide)

end Rocsift.Sift
