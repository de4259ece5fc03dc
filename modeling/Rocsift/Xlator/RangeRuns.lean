import Rocsift.Xlator.Combine

/-! The runs of the range loop, turn by turn: whether the loop ends, and whether it ends the
process. The address moves to the end of each page in 64-bit arithmetic, and the pending fragment
ends there too. -/
namespace Rocsift.Xlator
open Looping

section
variable (mem : Memory) (r : Registers) (va size : BitVec 64) (combine : Bool)

def RangeReached : RangeState → Prop :=
  Reaches (translateRangeBody mem (populateWalkHelper r) va combine) (rangeStart va size)

/-- The loop ends, and its address grows in every turn after which it goes on. -/
structure Progresses : Prop where
  ends : ∃ result, siftXlatorTranslateRange mem r va size combine result
  grows : ∀ s t, RangeReached mem r va size combine s →
    translateRangeBody mem (populateWalkHelper r) va combine s = .again t →
    s.cursor.addr < t.cursor.addr

end

section
variable {mem : Memory} {h : WalkHelper} {r : Registers} {va size : BitVec 64} {combine : Bool}
  {s t : RangeState}

theorem body_again (turn : translateRangeBody mem h va combine s = .again t) :
    s.cursor.addr < va + s.cursor.size ∧ ∃ p c, s.cursor.advance mem h = some (p, c) ∧
      ((s.count = 0 ∧ t = ⟨c, s.nodes, 1, p⟩) ∨
        (s.count ≠ 0 ∧ place combine s.prev p = .joined ∧
          t = ⟨c, s.nodes, s.count + 1, { s.prev with size := s.prev.size + p.size }⟩) ∨
        (s.count ≠ 0 ∧ place combine s.prev p = .separate ∧
          t = ⟨c, s.nodes ++ [s.prev], s.count + 1, p⟩)) := by
  have shape := @range_turn mem h va combine s
  rw [turn] at shape
  cases shape with
  | first more walk first => exact ⟨more, _, _, walk, Or.inl ⟨first, rfl⟩⟩
  | joined more walk later placed =>
    exact ⟨more, _, _, walk, Or.inr (Or.inl ⟨later, placed, rfl⟩)⟩
  | separate more walk later placed =>
    exact ⟨more, _, _, walk, Or.inr (Or.inr ⟨later, placed, rfl⟩)⟩

theorem cursor_again (turn : translateRangeBody mem h va combine s = .again t) :
    ∃ p, s.cursor.advance mem h = some (p, t.cursor) := by
  obtain ⟨-, p, c, walk, ⟨-, rfl⟩ | ⟨-, -, rfl⟩ | ⟨-, -, rfl⟩⟩ := body_again turn <;>
    exact ⟨p, walk⟩

theorem advance_grows_iff {c c' : Cursor} {p : Fragment}
    (walk : c.advance mem (populateWalkHelper r) = some (p, c')) :
    c.addr < c'.addr ↔ p.va.toNat + p.size.toNat ≠ 2 ^ 64 := by
  obtain ⟨page, start, next, -⟩ := advance_page walk
  have le := page.finish_le
  have inside := Nat.mod_lt c.addr.toNat page.size_pos
  simp only [next, BitVec.lt_def, BitVec.toNat_add]
  omega

theorem progresses_iff (mem : Memory) (r : Registers) (va size : BitVec 64) (combine : Bool) :
    Progresses mem r va size combine ↔
      ∀ s t p, RangeReached mem r va size combine s →
        translateRangeBody mem (populateWalkHelper r) va combine s = .again t →
        s.cursor.advance mem (populateWalkHelper r) = some (p, t.cursor) →
        p.va.toNat + p.size.toNat ≠ 2 ^ 64 := by
  constructor
  · intro progress s t p reached turn walk
    exact (advance_grows_iff walk).mp (progress.grows s t reached turn)
  · intro below
    have grows : ∀ s t, RangeReached mem r va size combine s →
        translateRangeBody mem (populateWalkHelper r) va combine s = .again t →
        s.cursor.addr < t.cursor.addr := by
      intro s t reached turn
      obtain ⟨p, walk⟩ := cursor_again turn
      exact (advance_grows_iff walk).mpr (below s t p reached turn walk)
    refine ⟨ends_of_decreasing (fun s => 2 ^ 64 - s.cursor.addr.toNat) ?_, grows⟩
    intro s t reached turn
    have less := BitVec.lt_def.mp (grows s t reached turn)
    have top := t.cursor.addr.isLt
    omega

end

/-! Where no entry is set, all pages are invalid ones of 4 KiB, and the loop over a range in the
last of them goes round the address space for ever. -/

def Unset (cache : PdeCache) : Prop := ∀ level, (cache level).2 = 0#64

theorem cachedFetch_unset {cache : PdeCache} (unset : Unset cache) (level : Nat) (e : EntryAddr) :
    ∃ next, (cachedFetch cache level e).value (fun _ => 0#64) = (0#64, next) ∧ Unset next := by
  unfold cachedFetch
  rw [Reading.value_ite]
  split
  · exact ⟨cache, by rw [unset level]; rfl, unset⟩
  · refine ⟨cache.store level e.addr 0#64, rfl, fun other => ?_⟩
    unfold SlotCache.store
    by_cases same : other = level
    · simp only [same, Function.update_self]
    · rw [Function.update_of_ne same]
      exact unset other

theorem descend_unset {cache : PdeCache} (unset : Unset cache) (h : WalkHelper) (va : BitVec 64)
    (level : Nat) :
    ∃ next, (descend cachedFetch h va level 0#64 cache).value (fun _ => 0#64) =
      (⟨0#64, getPdeFields 0#64, 0⟩, next) ∧ Unset next := by
  have table : ¬(getPdeFields 0#64).pte ≠ 0#8 := by decide
  induction level generalizing cache with
  | zero =>
    obtain ⟨next, fetched, unset⟩ :=
      cachedFetch_unset unset 0 (tableEntry h va 0 (getPdeFields 0#64))
    refine ⟨next, ?_, unset⟩
    simp only [descend_last table, fetched]
  | succ level ih =>
    obtain ⟨next, fetched, unset⟩ :=
      cachedFetch_unset unset (level + 1) (tableEntry h va (level + 1) (getPdeFields 0#64))
    simp only [descend_next table, fetched]
    exact ih unset

theorem leaf_unset (h : WalkHelper) (va : BitVec 64) :
    (leaf h va ⟨0#64, getPdeFields 0#64, 0⟩).value (fun _ => 0#64) =
      some ⟨getPteFields 0#64, 0x1000#64, 0xfff#64⟩ := by
  have table : ¬(getPdeFields 0#64).pte ≠ 0#8 := by decide
  have invalid : ¬(getPteFields 0#64).valid ≠ 0#8 := by decide
  simp only [leaf, invalid, false_and, if_false, nativeSize, if_neg table, Reading.value_pure]
  rfl

theorem walkPt_unset {cache : PdeCache} (unset : Unset cache) {h : WalkHelper}
    (deep : h.pt_depth ≠ 0) (base : h.pt_base_addr = 0#64) (va : BitVec 64) :
    ∃ next, (walkPt h cache va).value (fun _ => 0#64) =
      (some ⟨getPteFields 0#64, 0x1000#64, 0xfff#64⟩, next) ∧ Unset next := by
  obtain ⟨next, descent, unset⟩ := descend_unset unset h (va - h.pt_start_addr) h.pt_depth
  refine ⟨next, ?_, unset⟩
  simp only [walkPt, walkWith, if_neg deep, base]
  simp only [Reading.value_bind, Reading.value_pure, descent]
  exact congrArg (·, next) (leaf_unset h _)

structure Turning (c : Cursor) : Prop where
  aligned : c.addr.toNat % 0x1000 = 0
  size : c.size = 0x800#64
  unset : Unset c.cache

theorem Turning.advance {c : Cursor} (turning : Turning c) :
    ∃ p c', c.advance (fun _ => 0#64) (populateWalkHelper (oneDirectory 0#32)) = some (p, c') ∧
      p.flags.valid = 0#8 ∧ Turning c' := by
  obtain ⟨next, walked, unset⟩ := @walkPt_unset c.cache turning.unset
    (populateWalkHelper (oneDirectory 0#32)) (by decide) (by decide) c.addr
  obtain ⟨p, c', walk, results, rfl⟩ : ∃ p c', c.advance (fun _ => 0#64)
      (populateWalkHelper (oneDirectory 0#32)) = some (p, c') ∧
      p = pageOf c.addr ⟨getPteFields 0#64, 0x1000#64, 0xfff#64⟩ ∧ c'.cache = next := by
    simp only [Cursor.advance, walked]
    exact ⟨_, _, rfl, rfl, rfl⟩
  have small : p.size = 0x1000#64 := congrArg Fragment.size results
  have invalid : p.flags = getPteFields 0#64 := congrArg Fragment.flags results
  obtain ⟨-, start, address, bound⟩ := advance_page walk
  have start : p.va = c.addr := by
    apply BitVec.eq_of_toNat_eq
    simp only [start, small]
    exact (congrArg (c.addr.toNat - ·) turning.aligned).trans (Nat.sub_zero _)
  have aligned := turning.aligned
  refine ⟨p, c', walk, invalid ▸ by decide, ?_, ?_, unset⟩
  · simp only [address, start, small, BitVec.toNat_add]
    simp only [BitVec.toNat_ofNat]
    omega
  · simp only [bound, start, BitVec.sub_self, BitVec.add_zero, turning.size]

/-- A range in the last page: the address wraps to zero behind it and the loop never ends. -/
theorem last_page_never_ends :
    ¬∃ result, siftXlatorTranslateRange (fun _ => 0#64) (oneDirectory 0#32) 0xfffffffffffff000#64
      0x800#64 false result := by
  rintro ⟨result, ends⟩
  revert ends
  apply never_ends (fun s => Turning s.cursor) _ ⟨rfl, rfl, fun _ => rfl⟩
  intro s turning
  obtain ⟨p, c, walk, invalid, next⟩ := turning.advance
  have more : s.cursor.addr < 0xfffffffffffff000#64 + s.cursor.size := by
    have aligned := turning.aligned
    have top := s.cursor.addr.isLt
    simp only [turning.size, BitVec.lt_def]
    simp only [BitVec.reduceAdd, BitVec.toNat_ofNat]
    omega
  by_cases first : s.count = 0
  · exact ⟨_, body_first false s first more walk, next⟩
  · have apart := place_separate (fragmentsOverlap_invalid (f := s.prev) (Or.inr invalid))
    exact ⟨⟨c, s.nodes ++ [s.prev], s.count + 1, p⟩,
      (body_later false s first more walk).trans (by rw [apart]), next⟩

section
variable {mem : Memory} {h : WalkHelper} {r : Registers} {va size : BitVec 64} {combine : Bool}
  {s : RangeState}

theorem pending_end (reached : RangeReached mem r va size combine s) :
    s.count ≠ 0 → s.prev.va + s.prev.size = s.cursor.addr := by
  induction reached with
  | refl => exact fun later => absurd rfl later
  | @tail s t _ turn ih =>
    intro _
    obtain ⟨-, p, c, walk, changed⟩ := body_again turn
    obtain ⟨-, -, next, -⟩ := advance_page walk
    rcases changed with ⟨-, rfl⟩ | ⟨later, placed, rfl⟩ | ⟨-, -, rfl⟩
    · exact next.symm
    · have joins := place_joined placed
      have start := ((isContiguous_true_iff s.prev p).mp joins).1
      simp only
      rw [next, ← BitVec.add_assoc, start]
    · exact next.symm

theorem body_exits_iff :
    translateRangeBody mem h va combine s = .leave .exited ↔
      s.count ≠ 0 ∧ s.cursor.addr < va + s.cursor.size ∧
        ∃ p c, s.cursor.advance mem h = some (p, c) ∧ place combine s.prev p = .exit := by
  constructor
  · intro leaves
    have shape := @range_turn mem h va combine s
    rw [leaves] at shape
    cases shape with
    | exit more walk later placed => exact ⟨later, more, _, _, walk, placed⟩
  · rintro ⟨later, more, p, c, walk, placed⟩
    simp only [body_later combine s later more walk, placed]

/-- Combining ends the process unless, in every turn after the first, the page begins at the
address it was walked for, or is found to overlap the pending fragment. -/
theorem never_exits_iff (mem : Memory) (r : Registers) (va size : BitVec 64) :
    ¬siftXlatorTranslateRange mem r va size true .exited ↔
      ∀ s p c, RangeReached mem r va size true s → s.count ≠ 0 →
        s.cursor.addr < va + s.cursor.size →
        s.cursor.advance mem (populateWalkHelper r) = some (p, c) →
        s.cursor.addr.toNat % p.size.toNat = 0 ∨ fragmentsOverlap s.prev p = true := by
  have before : ∀ s p c, RangeReached mem r va size true s → s.count ≠ 0 →
      s.cursor.advance mem (populateWalkHelper r) = some (p, c) →
      (place true s.prev p = .exit ↔
        ¬(s.cursor.addr.toNat % p.size.toNat = 0 ∨ fragmentsOverlap s.prev p = true)) := by
    intro s p c reached later walk
    have start := (advance_page walk).2.1
    have le := Nat.mod_le s.cursor.addr.toNat p.size.toNat
    rw [place_exit_iff, pending_end reached later, BitVec.lt_def, start, not_or,
      Bool.not_eq_true]
    exact and_congr_left fun _ => by omega
  unfold siftXlatorTranslateRange
  rw [ends_iff_reaches]
  constructor
  · intro never s p c reached later more walk
    by_contra early
    have exits := (before s p c reached later walk).mpr early
    exact never ⟨s, reached, body_exits_iff.mpr ⟨later, more, p, c, walk, exits⟩⟩
  · rintro aligned ⟨s, reached, exits⟩
    obtain ⟨later, more, p, c, walk, placed⟩ := body_exits_iff.mp exits
    exact (before s p c reached later walk).mp placed (aligned s p c reached later more walk)

theorem large_page_exits :
    let mem := systemMemory
      [(0x5000#64, 0x6003#64), (0x5008#64, 0x5000000000007003#64), (0x6ff8#64, 0x9003#64),
        (0x7000#64, 0x40000003#64)]
    siftXlatorTranslateRange mem (oneDirectory 0x5003#32) 0x1ff000#64 0x2000#64 true .exited :=
  ⟨2, by decide +kernel⟩

end

end Rocsift.Xlator
