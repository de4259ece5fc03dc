import Rocsift.Xlator.Turns

/-! When the pages of a plain range translation tile the range. Each page after the first is walked
for the end of the page before it, and begins there only if that is a multiple of its own size. -/
namespace Rocsift.Xlator
open Tiling

def OnBoundary (a s : Nat) : Prop := a ≠ 0 ∧ a % s = 0

/-- The range can be extended by the bytes of its first page before it without a wrap, or that page
holds the range alone. -/
def FirstFits (mem : Memory) (h : WalkHelper) (va size : BitVec 64) : Prop :=
  ∀ w, ((walkPt h PdeCache.cleared va).value mem).1 = some w →
    va.toNat + size.toNat + va.toNat % w.size.toNat < 2 ^ 64 ∨
      va.toNat % w.size.toNat + size.toNat ≤ w.size.toNat

theorem part_filled {addr : BitVec 64} {ps : List Fragment} (laid : Laid addr ps) :
    ∀ q ∈ ps.map Fragment.part, 0 < q.length := by
  intro q hq
  obtain ⟨p, hp, rfl⟩ := List.mem_map.mp hq
  exact (laid_pages laid p hp).size_pos

section
variable {mem : Memory} {r : Registers} {va : BitVec 64} {c : Cursor} {ps : List Fragment}

theorem along_of_endToEnd (walked : Walked mem (populateWalkHelper r) va c ps) {lo hi : Nat}
    (pos : 0 < lo) (addr : c.addr = BitVec.ofNat 64 lo)
    (tiled : EndToEnd lo (ps.map Fragment.part) hi) : Along OnBoundary c.addr ps := by
  induction walked generalizing lo with
  | done => trivial
  | @page c c' p ps more walk rest ih =>
    obtain ⟨page, start, next, -⟩ := advance_page walk
    obtain ⟨first, later⟩ := tiled
    have first : p.va.toNat = lo := first
    have later : EndToEnd (p.va.toNat + p.size.toNat) (ps.map Fragment.part) hi := later
    have here : c.addr.toNat = lo := by
      rw [addr, BitVec.toNat_ofNat, Nat.mod_eq_of_lt]
      exact first ▸ p.va.isLt
    have le := Nat.mod_le c.addr.toNat p.size.toNat
    refine ⟨⟨by omega, by omega⟩, ?_⟩
    rw [← next]
    rw [first] at later
    refine ih (by omega) ?_ later
    rw [next, BitVec.ofNat_add, ← addr, BitVec.ofNat_toNat, BitVec.setWidth_eq]
    exact congrArg (· + p.size) (BitVec.eq_of_toNat_eq (first.trans here.symm))

theorem endToEnd_of_along (walked : Walked mem (populateWalkHelper r) va c ps) {lo : Nat}
    (pos : 0 < lo) (top : lo ≤ 2 ^ 64) (addr : c.addr = BitVec.ofNat 64 lo)
    (bound : 0 < (va + c.size).toNat) (along : Along OnBoundary c.addr ps) :
    ∃ hi, EndToEnd lo (ps.map Fragment.part) hi ∧ (va + c.size).toNat ≤ hi := by
  have value : lo = 2 ^ 64 ∧ c.addr.toNat = 0 ∨ lo < 2 ^ 64 ∧ c.addr.toNat = lo := by
    rw [addr, BitVec.toNat_ofNat]
    omega
  induction walked generalizing lo with
  | done finished =>
    rw [BitVec.lt_def] at finished
    exact ⟨lo, rfl, by omega⟩
  | @page c c' p ps more walk rest ih =>
    obtain ⟨page, start, next, size⟩ := advance_page walk
    obtain ⟨⟨nonzero, aligned⟩, later⟩ := along
    have le := page.finish_le
    have positive := page.size_pos
    have here : c.addr.toNat = lo := by omega
    have first : p.va.toNat = lo := by omega
    have same : p.va = c.addr := BitVec.eq_of_toNat_eq (first.trans here.symm)
    have kept : c'.size = c.size := by
      rw [size, same, BitVec.sub_self, BitVec.add_zero]
    rw [← next] at later
    have address : c'.addr = BitVec.ofNat 64 (lo + p.size.toNat) := by
      rw [next, BitVec.ofNat_add, ← addr, BitVec.ofNat_toNat, BitVec.setWidth_eq, same]
    obtain ⟨hi, tiled, far⟩ := @ih (lo + p.size.toNat) (by omega) (by omega) address
      (kept ▸ bound) later (by rw [address, BitVec.toNat_ofNat]; omega)
    refine ⟨hi, ⟨first, ?_⟩, kept ▸ far⟩
    change EndToEnd (p.va.toNat + p.size.toNat) (ps.map Fragment.part) hi
    rw [first]
    exact tiled

structure FirstTurn (va size : BitVec 64) (p : Fragment) (c : Cursor) : Prop where
  page : IsPage p
  start : p.va.toNat + va.toNat % p.size.toNat = va.toNat
  address : c.addr = BitVec.ofNat 64 (p.va.toNat + p.size.toNat)
  bound : (va + c.size).toNat = (va.toNat + size.toNat + va.toNat % p.size.toNat) % 2 ^ 64

def Fits (va size : BitVec 64) (p : Fragment) : Prop :=
  va.toNat + size.toNat + va.toNat % p.size.toNat < 2 ^ 64 ∨
    va.toNat % p.size.toNat + size.toNat ≤ p.size.toNat

variable {size : BitVec 64} {p : Fragment}

theorem first_turn (fits : va.toNat + size.toNat < 2 ^ 64)
    (walk : Cursor.advance mem (populateWalkHelper r) ⟨PdeCache.cleared, va, size⟩ = some (p, c)) :
    FirstTurn va size p c := by
  have wide : (va + size).toNat = va.toNat + size.toNat := BitVec.toNat_add_of_lt fits
  obtain ⟨page, start, next, extended⟩ := advance_page walk
  have start : p.va.toNat = va.toNat - va.toNat % p.size.toNat := start
  have extended : c.size = size + (va - p.va) := extended
  have le := Nat.mod_le va.toNat p.size.toNat
  have offset : (va - p.va).toNat = va.toNat % p.size.toNat := by
    rw [BitVec.toNat_sub_of_le (BitVec.le_def.mpr (by omega)), start]
    omega
  refine ⟨page, by omega, ?_, ?_⟩
  · rw [next, BitVec.ofNat_add, BitVec.ofNat_toNat, BitVec.ofNat_toNat, BitVec.setWidth_eq,
      BitVec.setWidth_eq]
  · rw [extended, ← BitVec.add_assoc, BitVec.toNat_add, wide, offset]

theorem firstFits_iff
    (walk : Cursor.advance mem (populateWalkHelper r) ⟨PdeCache.cleared, va, size⟩ = some (p, c)) :
    FirstFits mem (populateWalkHelper r) va size ↔ Fits va size p := by
  obtain ⟨w, found, same⟩ := advance_walk walk
  have width : w.size = p.size := by rw [same]; rfl
  simp only [FirstFits, Fits, found, Option.some.injEq, forall_eq', width]

namespace FirstTurn

theorem covers (first : FirstTurn va size p c) : p.part.Covers va.toNat := by
  have below := Nat.mod_lt va.toNat first.page.size_pos
  have start := first.start
  constructor
  · change p.va.toNat ≤ va.toNat
    omega
  · change va.toNat < p.va.toNat + p.size.toNat
    omega

theorem fits_of_tiled (first : FirstTurn va size p c) (range : va.toNat + size.toNat < 2 ^ 64)
    (rest : Walked mem (populateWalkHelper r) va c ps) {finish : Nat}
    (tiled : EndToEnd (p.va.toNat + p.size.toNat) (ps.map Fragment.part) finish)
    (far : va.toNat + size.toNat ≤ finish) : Fits va size p := by
  obtain ⟨page, start, address, bound⟩ := first
  have top := page.finish_le
  have below := Nat.mod_lt va.toNat page.size_pos
  unfold Fits
  by_contra none
  cases rest with
  | done =>
    have last : p.va.toNat + p.size.toNat = finish := tiled
    omega
  | @page _ c' q _ more walk' rest =>
    -- the bound has wrapped, so the loop would have left before the page after the first
    have second : q.va.toNat = p.va.toNat + p.size.toNat := tiled.1
    have small := q.va.isLt
    rw [BitVec.lt_def, bound, address, BitVec.toNat_ofNat] at more
    omega

theorem tiled_of_along (first : FirstTurn va size p c)
    (rest : Walked mem (populateWalkHelper r) va c ps) (some_bytes : 0 < size.toNat)
    (along : Along OnBoundary c.addr ps) (fits : Fits va size p) :
    ∃ finish, EndToEnd (p.va.toNat + p.size.toNat) (ps.map Fragment.part) finish ∧
      va.toNat + size.toNat ≤ finish := by
  obtain ⟨page, start, address, bound⟩ := first
  have top := page.finish_le
  have positive := page.size_pos
  unfold Fits at fits
  by_cases wraps : va.toNat + size.toNat + va.toNat % p.size.toNat < 2 ^ 64
  · rw [Nat.mod_eq_of_lt wraps] at bound
    obtain ⟨finish, tiled, far⟩ := endToEnd_of_along rest (by omega) top address (by omega) along
    exact ⟨finish, tiled, by omega⟩
  · have alone : ps = [] := by
      cases rest with
      | done => rfl
      | page more =>
        have nonzero := along.1.1
        rw [BitVec.lt_def, bound] at more
        rw [address, BitVec.toNat_ofNat] at more nonzero
        omega
    rw [alone]
    exact ⟨_, rfl, by omega⟩

end FirstTurn

end

/-- The pages tile the range exactly when each address the loop comes to is a boundary of the page
that is found there, and the range extended by the bytes before it is still a range. -/
theorem range_tiles_iff (mem : Memory) (r : Registers) (va size : BitVec 64) (fs : List Fragment)
    (some_bytes : 0 < size.toNat) (fits : va.toNat + size.toNat < 2 ^ 64)
    (ends : siftXlatorTranslateRange mem r va size false (.list fs)) :
    Tiles (fs.map Fragment.part) va.toNat (va.toNat + size.toNat) ↔
      LaterTurns mem (populateWalkHelper r) va size OnBoundary ∧
        FirstFits mem (populateWalkHelper r) va size := by
  have wide : (va + size).toNat = va.toNat + size.toNat := BitVec.toNat_add_of_lt fits
  obtain ⟨p, c, ps, rfl, walk, rest, turns⟩ := range_pages
    (BitVec.lt_def.mpr (by omega)) ends
  have first := first_turn fits walk
  obtain ⟨-, -, next, -⟩ := advance_page walk
  have start := first.start
  have positive := first.page.size_pos
  have laid : Laid va (p :: ps) :=
    ⟨⟨first.page, BitVec.le_def.mpr (by omega)⟩, next ▸ walked_laid rest⟩
  rw [List.map_cons, tiles_iff (part_filled laid) (by omega), turns, firstFits_iff walk]
  constructor
  · rintro ⟨-, finish, ⟨-, tiled⟩, far⟩
    have tiled : EndToEnd (p.va.toNat + p.size.toNat) (ps.map Fragment.part) finish := tiled
    refine ⟨along_of_endToEnd rest (by omega) first.address tiled, ?_⟩
    exact first.fits_of_tiled fits rest tiled far
  · rintro ⟨along, inside⟩
    obtain ⟨finish, tiled, far⟩ := first.tiled_of_along rest some_bytes along inside
    exact ⟨first.covers, finish, ⟨rfl, tiled⟩, far⟩

theorem range_tiles_small :
    let mem := systemMemory
      [(0x5000#64, 0x6003#64), (0x6008#64, 0x9003#64), (0x6010#64, 0xa003#64)]
    let r := oneDirectory 0x5003#32
    let gs := [smallPage 0x1000#64 0x9003#64, smallPage 0x2000#64 0xa003#64]
    Tiles (gs.map Fragment.part) 0x1800 0x2800 ∧
      LaterTurns mem (populateWalkHelper r) 0x1800#64 0x1000#64 OnBoundary ∧
      FirstFits mem (populateWalkHelper r) 0x1800#64 0x1000#64 := by
  intro mem r gs
  have ends : siftXlatorTranslateRange mem r 0x1800#64 0x1000#64 false (.list gs) :=
    ⟨3, by decide +kernel⟩
  have tiles : Tiles (gs.map Fragment.part) 0x1800 0x2800 := by
    apply (tiles_iff _ (by decide)).mpr
    · exact ⟨⟨by decide, by decide⟩, 0x3000, ⟨rfl, rfl, rfl⟩, by decide⟩
    · decide
  exact ⟨tiles, (range_tiles_iff mem r _ _ gs (by decide) (by decide) ends).mp tiles⟩

/-- A page of 4 MiB behind a small one that lies inside it: the overlap check does not see it. -/
theorem large_page_behind_small :
    let mem := systemMemory
      [(0x5000#64, 0x6003#64), (0x5008#64, 0x5000000000007003#64), (0x5010#64, 0x8003#64),
        (0x6ff8#64, 0x9003#64), (0x7000#64, 0x40000003#64), (0x8000#64, 0xa003#64)]
    let r := oneDirectory 0x5003#32
    let gs := [smallPage 0x1ff000#64 0x9003#64,
      ⟨0#64, 0x40000000#64, 0x400000#64, getPteFields 0x40000003#64⟩,
      smallPage 0x400000#64 0xa003#64]
    siftXlatorTranslateRange mem r 0x1ff000#64 0x2000#64 false (.list gs) ∧
      ¬Tiles (gs.map Fragment.part) 0x1ff000 0x201000 := by
  intro mem r gs
  refine ⟨⟨4, by decide +kernel⟩, fun tiles => ?_⟩
  have order := List.rel_of_pairwise_cons tiles.ordered List.mem_cons_self
  exact absurd order (by decide)

end Rocsift.Xlator
