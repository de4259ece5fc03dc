import Rocsift.Xlator.Layout

/-! What a translation of one address depends on besides the walk of that address: its range is
lengthened by the bytes of the page before the address, and may go on to the pages behind. -/
namespace Rocsift.Xlator

def OwnWalkDecides (mem other : Memory) (r : Registers) (va : BitVec 64) : Prop :=
  (∃ t, siftXlatorTranslate mem r va t ∧ siftXlatorTranslate other r va t) ∧
    ∀ w, ((ownWalk r va).value mem).1 = some w →
      siftXlatorTranslate mem r va (some (w.translation va))

/-- The page reaches so far past the address that nothing behind it is walked: the bytes before the
address in the page count twice. -/
structure Roomy (mem : Memory) (r : Registers) (va : BitVec 64) (w : WalkResults) : Prop where
  found : ((ownWalk r va).value mem).1 = some w
  below : va.toNat - va.toNat % w.size.toNat + w.size.toNat < 2 ^ 64
  room : 0x1000 - va.toNat % 0x1000 + 2 * (va.toNat % w.size.toNat) ≤ w.size.toNat

def neighbours (va : BitVec 64) (p : Fragment) (ps : List Fragment) : List Fragment :=
  p :: pagesBelow ps (lastBound p va (restOfPage va))

structure LaidOut (mem : Memory) (r : Registers) (va : BitVec 64) (p : Fragment)
    (ps : List Fragment) (lo hi : Nat) : Prop where
  layout : Layout mem (populateWalkHelper r) (p :: ps) lo hi
  inside : p.Contains va
  reaches : lastBound p va (restOfPage va) ≤ hi
  unambiguous : Unambiguous mem (populateWalkHelper r)
    (va :: (pagesBelow ps (lastBound p va (restOfPage va))).map Fragment.va)

/-- Nothing behind the page of the address hinders its translation: there is room in the page, or
there are pages behind it and no two neighbours overlap. -/
inductive Unhindered (mem : Memory) (r : Registers) (va : BitVec 64) : Prop
  | room {w : WalkResults} (roomy : Roomy mem r va w)
  | apart {p : Fragment} {ps : List Fragment} {lo hi : Nat} (laid : LaidOut mem r va p ps lo hi)
      (apart : (neighbours va p ps).IsChain fun f g => fragmentsOverlap f g = false)

section
variable {mem : Memory} {r : Registers} {va : BitVec 64}

theorem Roomy.low {w : WalkResults} (roomy : Roomy mem r va w) : va < 0xfffffffffffff000#64 := by
  obtain ⟨-, below, room⟩ := roomy
  have le := Nat.mod_le va.toNat w.size.toNat
  rw [BitVec.lt_def]
  simp only [BitVec.toNat_ofNat]
  omega

theorem Roomy.quiet {w : WalkResults} (roomy : Roomy mem r va w) : Quiet mem r va := by
  obtain ⟨found, below, room⟩ := roomy
  obtain ⟨c, walk⟩ := advance_found found (restOfPage va)
  obtain ⟨-, start, next, size⟩ := advance_page walk
  have rest := restOfPage_toNat va
  have le := Nat.mod_le va.toNat w.size.toNat
  have offset : (va - (pageOf va w).va).toNat = va.toNat % w.size.toNat := by
    have before : (pageOf va w).va ≤ va := by
      rw [BitVec.le_def, start]
      exact Nat.sub_le _ _
    rw [BitVec.toNat_sub_of_le before, start]
    exact Nat.sub_sub_self le
  refine ⟨_, c, [], walk, .done ?_, .singleton _⟩
  rw [next, size, BitVec.lt_def, BitVec.toNat_add, BitVec.toNat_add, BitVec.toNat_add, start, rest,
    offset]
  simp only [pageOf] at *
  omega

namespace LaidOut
variable {p : Fragment} {ps : List Fragment} {lo hi : Nat} (laid : LaidOut mem r va p ps lo hi)
include laid

theorem walked : Walked mem (populateWalkHelper r) va ⟨PdeCache.cleared, va, restOfPage va⟩
    (neighbours va p ps) := by
  have rest := restOfPage_toNat va
  exact walked_pages laid.layout laid.inside (BitVec.lt_def.mpr (by rw [rest]; simp; omega))
    laid.reaches laid.unambiguous

theorem low : va < 0xfffffffffffff000#64 := by
  have rest := restOfPage_toNat va
  have reaches := laid.reaches
  have top := laid.layout.top
  unfold lastBound at reaches
  rw [BitVec.lt_def]
  simp only [BitVec.toNat_ofNat]
  omega

theorem quiet_iff : Quiet mem r va ↔
    (neighbours va p ps).IsChain fun f g => fragmentsOverlap f g = false := by
  have walked := laid.walked
  unfold neighbours at walked ⊢
  cases walked with
  | @page _ c _ _ more walk rest =>
    constructor
    · rintro ⟨q, d, qs, walk', rest', apart⟩
      cases walk.symm.trans walk'
      rwa [rest.unique rest']
    · exact fun apart => ⟨p, c, _, walk, rest, apart⟩

theorem found : ∃ w, ((ownWalk r va).value mem).1 = some w := by
  have walked := laid.walked
  cases walked with
  | page more walk rest =>
    obtain ⟨w, found, -⟩ := advance_walk walk
    exact ⟨w, found⟩

end LaidOut

theorem Unhindered.low (unhindered : Unhindered mem r va) : va < 0xfffffffffffff000#64 := by
  cases unhindered with
  | room roomy => exact roomy.low
  | apart laid apart => exact laid.low

theorem Unhindered.quiet (unhindered : Unhindered mem r va) : Quiet mem r va := by
  cases unhindered with
  | room roomy => exact roomy.quiet
  | apart laid apart => exact laid.quiet_iff.mpr apart

end

/-- For memories that agree on the walk of the address: the translations are one and decided by that
walk if it fails, or if nothing behind the page hinders it in either memory. Where both address
spaces are laid out in pages, there is no other case. -/
theorem own_walk_decides (mem other : Memory) (r : Registers) (va : BitVec 64)
    (agree : ∀ e ∈ (ownWalk r va).trace mem, mem e = other e) :
    (((ownWalk r va).value mem).1 = none ∨ Unhindered mem r va ∧ Unhindered other r va →
      OwnWalkDecides mem other r va) ∧
    ∀ p q ps qs lo hi lo' hi', LaidOut mem r va p ps lo hi → LaidOut other r va q qs lo' hi' →
      (OwnWalkDecides mem other r va ↔
        ((neighbours va p ps).IsChain fun f g => fragmentsOverlap f g = false) ∧
          (neighbours va q qs).IsChain fun f g => fragmentsOverlap f g = false) := by
  have same : ((ownWalk r va).value mem).1 = ((ownWalk r va).value other).1 :=
    congrArg Prod.fst (Reading.agree (ownWalk r va) agree).1
  have decides {w : WalkResults} (found : ((ownWalk r va).value mem).1 = some w) :
      OwnWalkDecides mem other r va ↔
        va < 0xfffffffffffff000#64 ∧ Quiet mem r va ∧ Quiet other r va := by
    have here := translate_found_iff found
    have there := @translate_found_iff other r va w (same ▸ found)
    constructor
    · rintro ⟨⟨t, ht, hu⟩, own⟩
      have mine := own w found
      cases ht.unique mine
      exact ⟨(here.mp mine).1, (here.mp mine).2, (there.mp hu).2⟩
    · rintro ⟨low, quiet, quiet'⟩
      have own := here.mpr ⟨low, quiet⟩
      refine ⟨⟨_, own, there.mpr ⟨low, quiet'⟩⟩, fun w' found' => ?_⟩
      cases found.symm.trans found'
      exact own
  constructor
  · intro condition
    cases found : ((ownWalk r va).value mem).1 with
    | none =>
      refine ⟨⟨_, translate_not_found found, translate_not_found (same ▸ found)⟩, ?_⟩
      intro w none
      rw [found] at none
      cases none
    | some w =>
      rcases condition with none | ⟨here, there⟩
      · rw [found] at none
        cases none
      · exact (decides found).mpr ⟨here.low, here.quiet, there.quiet⟩
  · intro p q ps qs lo hi lo' hi' here there
    obtain ⟨w, found⟩ := here.found
    rw [decides found, here.quiet_iff, there.quiet_iff]
    exact and_iff_right here.low

theorem own_walk_decides_middle :
    let other := systemMemory
      [(0x5000#64, 0x6003#64), (0x6008#64, 0x9003#64), (0x6010#64, 0xb003#64)]
    OwnWalkDecides twoPages other (oneDirectory 0x5003#32) 0x1800#64 := by
  intro other
  have layout : Layout other (populateWalkHelper (oneDirectory 0x5003#32))
      [smallPage 0x1000#64 0x9003#64, smallPage 0x2000#64 0xb003#64] 0x1000 0x3000 := by
    refine ⟨?_, by decide, ⟨rfl, rfl, rfl⟩, by decide⟩
    simp only [List.forall_mem_cons]
    refine ⟨?_, ?_, List.forall_mem_nil _⟩
    · exact maps_small rfl rfl (by decide +kernel)
    · exact maps_small rfl rfl (by decide +kernel)
  have here : Unhindered twoPages (oneDirectory 0x5003#32) 0x1800#64 :=
    .apart ⟨twoPages_layout, by decide, by decide, of_decide_eq_true (by decide +kernel)⟩
      (by decide +kernel)
  have there : Unhindered other (oneDirectory 0x5003#32) 0x1800#64 :=
    .apart ⟨layout, by decide, by decide, of_decide_eq_true (by decide +kernel)⟩
      (by decide +kernel)
  exact (own_walk_decides twoPages other _ _ (by decide +kernel)).1 (.inr ⟨here, there⟩)

theorem neighbour_decides :
    let mem := systemMemory [(0x5000#64, 0x6003#64), (0x6008#64, 0x9003#64)]
    let other := systemMemory
      [(0x5000#64, 0x6003#64), (0x6008#64, 0x9003#64), (0x6010#64, 0x9003#64)]
    let r := oneDirectory 0x5003#32
    (∀ e ∈ (ownWalk r 0x1800#64).trace mem, mem e = other e) ∧
      ¬OwnWalkDecides mem other r 0x1800#64 := by
  intro mem other r
  let pages := RangeResult.list [smallPage 0x1000#64 0x9003#64, smallPage 0x2000#64 0#64]
  have accepted : siftXlatorTranslate mem r 0x1800#64 (translationOf 0x1800#64 pages) :=
    ⟨pages, ⟨3, by decide +kernel⟩, rfl⟩
  have refused : siftXlatorTranslate other r 0x1800#64 none :=
    ⟨.failed, ⟨3, by decide +kernel⟩, rfl⟩
  refine ⟨by decide +kernel, ?_⟩
  rintro ⟨⟨t, here, there⟩, -⟩
  cases there.unique refused
  cases here.unique accepted

end Rocsift.Xlator
