import Mathlib.Algebra.BigOperators.Group.Finset.Basic
import Mathlib.Data.List.Basic
import Mathlib.Tactic.Common
import Mathlib.Tactic.Ring

/-! Blocks laid out one after another in an address space, each followed by padding, and the walk
that finds the block of an address by reducing the address in place. The subtraction wraps around
where the address lies in padding; what it wraps to stays beyond every later block. -/
namespace PaddedBlocks

@[ext] structure Selected (A : Type) (w : Nat) where
  place : Nat
  item : A
  offset : BitVec w
  deriving DecidableEq

def Selected.later {A : Type} {w : Nat} (m : Selected A w) : Selected A w :=
  { m with place := m.place + 1 }

section
variable {A : Type} {w : Nat} (size extent : A → BitVec w)

def select : List A → BitVec w → Option (Selected A w)
  | [], _ => none
  | x :: xs, a =>
    if a < size x then some ⟨0, x, a⟩ else (select xs (a - extent x)).map Selected.later

def start (items : List A) (place : Nat) : Nat :=
  ((items.take place).map fun x => (extent x).toNat).sum

def total (items : List A) : Nat := (items.map fun x => (extent x).toNat).sum

structure Holds (items : List A) (place : Nat) (x : A) (a : Nat) : Prop where
  item : items[place]? = some x
  lower : start extent items place ≤ a
  upper : a < start extent items place + (size x).toNat

@[simp] theorem start_zero (items : List A) : start extent items 0 = 0 := rfl

@[simp] theorem start_succ (x : A) (xs : List A) (place : Nat) :
    start extent (x :: xs) (place + 1) = (extent x).toNat + start extent xs place := by
  simp [start]

@[simp] theorem total_cons (x : A) (xs : List A) :
    total extent (x :: xs) = (extent x).toNat + total extent xs := by
  simp [total]

theorem start_add_le {items : List A} {place : Nat} {x : A} (item : items[place]? = some x) :
    start extent items place + (extent x).toNat ≤ total extent items := by
  induction items generalizing place with
  | nil => cases item
  | cons y ys ih =>
    cases place with
    | zero =>
      cases item
      rw [start_zero, total_cons]
      omega
    | succ place =>
      have rest := ih item
      rw [start_succ, total_cons]
      omega

theorem holds_succ_iff {x y : A} {xs : List A} {place a : Nat} :
    Holds size extent (x :: xs) (place + 1) y a ↔
      (extent x).toNat ≤ a ∧ Holds size extent xs place y (a - (extent x).toNat) := by
  constructor
  · rintro ⟨item, lower, upper⟩
    rw [start_succ] at lower upper
    exact ⟨by omega, item, by omega, by omega⟩
  · rintro ⟨le, item, lower, upper⟩
    refine ⟨item, ?_, ?_⟩ <;> rw [start_succ] <;> omega

section
variable {size extent} {items : List A} (padded : ∀ x ∈ items, size x ≤ extent x)
include padded

theorem Holds.below_total {place a : Nat} {x : A} (h : Holds size extent items place x a) :
    a < total extent items := by
  have last := start_add_le extent h.item
  have le := BitVec.le_def.mp (padded x (List.mem_of_getElem? h.item))
  have upper := h.upper
  omega

theorem not_holds_padding {place a : Nat} {x : A} (item : items[place]? = some x)
    (lower : start extent items place + (size x).toNat ≤ a)
    (upper : a < start extent items place + (extent x).toNat) :
    ∀ place' y, ¬ Holds size extent items place' y a := by
  induction items generalizing place a with
  | nil => cases item
  | cons z zs ih =>
    obtain ⟨first, later⟩ := List.forall_mem_cons.mp padded
    have le := BitVec.le_def.mp first
    intro place' y holds
    cases place with
    | zero =>
      cases item
      rw [start_zero] at lower upper
      cases place' with
      | zero =>
        have inside := holds.upper
        cases holds.item
        rw [start_zero] at inside
        omega
      | succ place' =>
        have beyond := ((holds_succ_iff size extent).mp holds).1
        omega
    | succ place =>
      rw [start_succ] at lower upper
      cases place' with
      | zero =>
        have inside := holds.upper
        cases holds.item
        rw [start_zero] at inside
        omega
      | succ place' =>
        have rest := ((holds_succ_iff size extent).mp holds).2
        exact ih later item (by omega) (by omega) place' y rest

/-- The reduced address lies in a later block exactly when the address does: in the padding of the
first block the difference wraps around, and no later block reaches so far. -/
theorem holds_sub_iff {x y : A} {place : Nat} {a : BitVec w}
    (room : (extent x).toNat + total extent items ≤ 2 ^ w) :
    Holds size extent items place y (a - extent x).toNat ↔
      Holds size extent (x :: items) (place + 1) y a.toNat := by
  rw [holds_succ_iff]
  by_cases behind : extent x ≤ a
  · have le := BitVec.le_def.mp behind
    rw [BitVec.toNat_sub_of_le behind]
    exact ⟨fun holds => ⟨le, holds⟩, fun holds => holds.2⟩
  · have padding := BitVec.not_le.mp behind
    have less := BitVec.lt_def.mp padding
    constructor
    · intro holds
      have small := holds.below_total padded
      rw [BitVec.toNat_sub_of_lt padding] at small
      omega
    · rintro ⟨le, _⟩
      exact absurd (BitVec.le_def.mpr le) behind

end

variable {size extent}

/-- The walk finds the block that holds the address and the offset from its start, and nothing for
an address that no block holds. -/
theorem select_iff {items : List A} (padded : ∀ x ∈ items, size x ≤ extent x)
    (room : total extent items ≤ 2 ^ w) (a : BitVec w) (m : Selected A w) :
    select size extent items a = some m ↔
      Holds size extent items m.place m.item a.toNat ∧
        m.offset.toNat = a.toNat - start extent items m.place := by
  induction items generalizing a m with
  | nil =>
    refine ⟨fun h => (nomatch h), fun h => ?_⟩
    have none := h.1.item
    cases none
  | cons x xs ih =>
    obtain ⟨first, later⟩ := List.forall_mem_cons.mp padded
    have le := BitVec.le_def.mp first
    rw [total_cons] at room
    obtain ⟨place, y, offset⟩ := m
    unfold select
    split
    · rename_i inside
      have below := BitVec.lt_def.mp inside
      constructor
      · intro found
        cases found
        exact ⟨⟨rfl, Nat.zero_le _, by simpa using below⟩, rfl⟩
      · rintro ⟨holds, away⟩
        cases place with
        | zero =>
          cases holds.item
          have same : offset = a := BitVec.eq_of_toNat_eq away
          rw [same]
        | succ place =>
          have beyond := ((holds_succ_iff size extent).mp holds).1
          omega
    · rename_i outside
      have rest := ih later (by omega) (a - extent x)
      rw [Option.map_eq_some_iff]
      constructor
      · rintro ⟨m, found, same⟩
        cases same
        obtain ⟨holds, away⟩ := (rest m).mp found
        have here := (holds_sub_iff later room).mp holds
        have behind := BitVec.le_def.mpr ((holds_succ_iff size extent).mp here).1
        rw [BitVec.toNat_sub_of_le behind, Nat.sub_sub] at away
        exact ⟨here, by rw [start_succ]; exact away⟩
      · rintro ⟨holds, away⟩
        cases place with
        | zero =>
          cases holds.item
          have upper := holds.upper
          rw [start_zero, Nat.zero_add] at upper
          exact absurd (BitVec.lt_def.mpr upper) outside
        | succ place =>
          have behind := BitVec.le_def.mpr ((holds_succ_iff size extent).mp holds).1
          refine ⟨⟨place, y, offset⟩, (rest _).mpr ⟨(holds_sub_iff later room).mpr holds, ?_⟩, rfl⟩
          rw [BitVec.toNat_sub_of_le behind, Nat.sub_sub]
          rw [start_succ] at away
          exact away

theorem select_none_iff {items : List A} (padded : ∀ x ∈ items, size x ≤ extent x)
    (room : total extent items ≤ 2 ^ w) (a : BitVec w) :
    select size extent items a = none ↔
      ∀ place x, ¬ Holds size extent items place x a.toNat := by
  rw [Option.eq_none_iff_forall_ne_some]
  constructor
  · intro none place x holds
    have small : a.toNat - start extent items place < 2 ^ w := by
      have := a.isLt
      omega
    exact none ⟨place, x, BitVec.ofNat w (a.toNat - start extent items place)⟩
      ((select_iff padded room a _).mpr ⟨holds, Nat.mod_eq_of_lt small⟩)
  · intro nowhere m found
    exact nowhere _ _ ((select_iff padded room a m).mp found).1

theorem select_injective {items : List A} (padded : ∀ x ∈ items, size x ≤ extent x)
    (room : total extent items ≤ 2 ^ w) {a b : BitVec w} {m m' : Selected A w}
    (found : select size extent items a = some m) (found' : select size extent items b = some m')
    (place : m.place = m'.place) (offset : m.offset = m'.offset) : a = b := by
  obtain ⟨holds, away⟩ := (select_iff padded room a m).mp found
  obtain ⟨holds', away'⟩ := (select_iff padded room b m').mp found'
  have lower := holds.lower
  have lower' := holds'.lower
  rw [offset, place] at away
  rw [place] at lower
  exact BitVec.eq_of_toNat_eq (by omega)

end

section
variable {A : Type} {w : Nat} (size extent : A → BitVec w)

def left (items : List A) (a : BitVec w) (place : Nat) : BitVec w :=
  (items.take place).foldl (fun a x => a - extent x) a

structure First (items : List A) (a : BitVec w) (m : Selected A w) : Prop where
  item : items[m.place]? = some m.item
  offset : m.offset = left extent items a m.place
  inside : m.offset < size m.item
  before : ∀ j x, j < m.place → items[j]? = some x → ¬ left extent items a j < size x

@[simp] theorem left_zero (items : List A) (a : BitVec w) : left extent items a 0 = a := rfl

@[simp] theorem left_succ (x : A) (xs : List A) (a : BitVec w) (place : Nat) :
    left extent (x :: xs) a (place + 1) = left extent xs (a - extent x) place := rfl

/-- Without any bound on the blocks, the walk finds the first block that is long enough. -/
theorem select_first_iff (items : List A) (a : BitVec w) (m : Selected A w) :
    select size extent items a = some m ↔ First size extent items a m := by
  induction items generalizing a m with
  | nil =>
    refine ⟨fun h => (nomatch h), fun h => ?_⟩
    have none := h.item
    cases none
  | cons x xs ih =>
    obtain ⟨place, y, offset⟩ := m
    unfold select
    split
    · rename_i inside
      constructor
      · intro found
        cases found
        exact ⟨rfl, rfl, inside, fun j _ early => absurd early (Nat.not_lt_zero j)⟩
      · rintro ⟨item, away, _, before⟩
        cases place with
        | zero =>
          cases item
          cases away
          rfl
        | succ place => exact absurd inside (before 0 x (Nat.succ_pos place) rfl)
    · rename_i outside
      rw [Option.map_eq_some_iff]
      constructor
      · rintro ⟨m, found, same⟩
        cases same
        obtain ⟨item, away, inside, before⟩ := (ih (a - extent x) m).mp found
        refine ⟨item, away, inside, fun j y early at_j => ?_⟩
        cases j with
        | zero =>
          cases at_j
          exact outside
        | succ j => exact before j y (Nat.lt_of_succ_lt_succ early) at_j
      · rintro ⟨item, away, inside, before⟩
        cases place with
        | zero =>
          cases item
          cases away
          exact absurd inside outside
        | succ place =>
          refine ⟨⟨place, y, offset⟩, (ih _ _).mpr ⟨item, away, inside, ?_⟩, rfl⟩
          intro j z early at_j
          exact before (j + 1) z (Nat.succ_lt_succ early) at_j

end

end PaddedBlocks
