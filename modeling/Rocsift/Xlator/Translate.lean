import Rocsift.Xlator.Combine

/-! The translation of one address. It is the head of a translated range, so it returns only if
the pages that the range goes on to are walked without failure or overlap as well. -/
namespace Rocsift.Xlator
open Looping

structure Translation where
  pa : BitVec 64
  ok : Bool
  pte : Pte
  size : BitVec 64
  deriving DecidableEq

def translationOf (va : BitVec 64) : RangeResult → Option Translation
  | .list (f :: _) =>
    let aligned_va := va &&& ~~~(f.size - 1#64)
    let offset := va - aligned_va
    some
      { pa := f.flags.base_address + offset
        ok := f.flags.valid ≠ 0#8
        pte := f.flags
        size := f.size }
  | .list [] => none
  | .failed => none
  | .exited => none

/-- The length that `siftXlatorTranslate` asks for: to the end of the 4 KiB page. -/
def restOfPage (va : BitVec 64) : BitVec 64 := 0x1000#64 - (va &&& 0xfff#64)

def siftXlatorTranslate (mem : Memory) (r : Registers) (va : BitVec 64)
    (t : Option Translation) : Prop :=
  ∃ result, siftXlatorTranslateRange mem r va (restOfPage va) false result ∧
    t = translationOf va result

def ownWalk (r : Registers) (va : BitVec 64) : Walker (Option WalkResults × PdeCache) :=
  walkPt (populateWalkHelper r) PdeCache.cleared va

def WalkResults.translation (w : WalkResults) (va : BitVec 64) : Translation where
  pa := w.pte.base_address + (va &&& (w.size - 1#64))
  ok := w.pte.valid ≠ 0#8
  pte := w.pte
  size := w.size

/-- The pages that the range goes on to, if any, are walked without failure, and no two pages in
a row overlap. -/
def Quiet (mem : Memory) (r : Registers) (va : BitVec 64) : Prop :=
  ∃ p c ps, Cursor.advance mem (populateWalkHelper r) ⟨PdeCache.cleared, va, restOfPage va⟩ =
      some (p, c) ∧ Walked mem (populateWalkHelper r) va c ps ∧
    (p :: ps).IsChain fun f g => fragmentsOverlap f g = false

theorem restOfPage_toNat (va : BitVec 64) :
    (restOfPage va).toNat = 0x1000 - va.toNat % 0x1000 := by
  have low : (va &&& 0xfff#64).toNat = va.toNat % 0x1000 :=
    BitField.and_pred_toNat (show (0x1000#64).toNat = 2 ^ 12 from rfl) va
  have le : va &&& 0xfff#64 ≤ 0x1000#64 := by
    rw [BitVec.le_def, low]
    exact Nat.le_of_lt (Nat.mod_lt _ (by decide))
  rw [restOfPage, BitVec.toNat_sub_of_le le, low]
  rfl

theorem restOfPage_more (va : BitVec 64) :
    va < va + restOfPage va ↔ va < 0xfffffffffffff000#64 := by
  have rest := restOfPage_toNat va
  have := va.isLt
  rw [BitVec.lt_def, BitVec.lt_def, BitVec.toNat_add, rest]
  simp only [BitVec.toNat_ofNat]
  omega

section
variable {mem other : Memory} {r : Registers} {va : BitVec 64}

theorem advance_failed (failed : ((ownWalk r va).value mem).1 = none) (size : BitVec 64) :
    Cursor.advance mem (populateWalkHelper r) ⟨PdeCache.cleared, va, size⟩ = none := by
  unfold ownWalk at failed
  simp only [Cursor.advance, failed]

theorem advance_found {w : WalkResults} (found : ((ownWalk r va).value mem).1 = some w)
    (size : BitVec 64) :
    ∃ c, Cursor.advance mem (populateWalkHelper r) ⟨PdeCache.cleared, va, size⟩ =
      some (pageOf va w, c) := by
  unfold ownWalk at found
  simp only [Cursor.advance, found]
  exact ⟨_, rfl⟩

theorem translation_of_page (w : WalkResults) (ps : List Fragment) :
    translationOf va (.list (pageOf va w :: ps)) = some (w.translation va) := by
  have offset : va - (va &&& ~~~(w.size - 1#64)) = va &&& (w.size - 1#64) := by
    rw [BitField.and_not_eq_sub]
    bv_omega
  simp only [translationOf, pageOf, WalkResults.translation, offset]
  rfl

theorem siftXlatorTranslate.unique {t u : Option Translation} (ht : siftXlatorTranslate mem r va t)
    (hu : siftXlatorTranslate mem r va u) : t = u := by
  obtain ⟨_, endsT, rfl⟩ := ht
  obtain ⟨_, endsU, rfl⟩ := hu
  rw [endsT.unique endsU]

theorem translate_found_iff {w : WalkResults} (found : ((ownWalk r va).value mem).1 = some w) :
    siftXlatorTranslate mem r va (some (w.translation va)) ↔
      va < 0xfffffffffffff000#64 ∧ Quiet mem r va := by
  obtain ⟨c, walk⟩ := advance_found found (restOfPage va)
  rw [← restOfPage_more]
  constructor
  · rintro ⟨result, ends, same⟩
    cases result with
    | failed => cases same
    | exited => cases same
    | list fs =>
      obtain ⟨ps, walked, made⟩ := (translateRange_list_iff ..).mp ends
      cases walked with
      | done =>
        cases made
        -- the cleared fragment has no size, and a page has one
        have zero : w.size = 0#64 := congrArg Translation.size (Option.some.inj same)
        obtain ⟨k, _, _, power⟩ := (walkWith_sound cachedFetch r found).size
        rw [zero] at power
        exact absurd power.symm (Nat.two_pow_pos k).ne'
      | page more walk' rest =>
        cases walk.symm.trans walk'
        exact ⟨more, _, _, _, walk, rest, ((assemble_separate_iff _ _ _).mp made).2⟩
  · rintro ⟨more, p, c', ps, walk', rest, apart⟩
    cases walk.symm.trans walk'
    refine ⟨.list (pageOf va w :: ps), ?_, (translation_of_page w ps).symm⟩
    exact (translateRange_list_iff ..).mpr
      ⟨_, .page more walk rest, (assemble_separate_iff _ _ _).mpr ⟨rfl, apart⟩⟩

/-- In the last 4 KiB of the address space the range is empty: the translation is of a cleared
fragment. -/
theorem translate_empty (high : ¬va < 0xfffffffffffff000#64) :
    siftXlatorTranslate mem r va (translationOf va (.list [Fragment.cleared])) := by
  have finished : ¬va < va + restOfPage va := mt (restOfPage_more va).mp high
  have turn := @body_done mem (populateWalkHelper r) va false (rangeStart va (restOfPage va))
    finished
  exact ⟨_, (Ends.leave turn).mpr rfl, rfl⟩

theorem translate_not_found (failed : ((ownWalk r va).value mem).1 = none) :
    siftXlatorTranslate mem r va
      (if va < 0xfffffffffffff000#64 then none
      else translationOf va (.list [Fragment.cleared])) := by
  by_cases low : va < 0xfffffffffffff000#64
  · have turn := body_failed false (rangeStart va (restOfPage va)) ((restOfPage_more va).mpr low)
      (advance_failed failed _)
    rw [if_pos low]
    exact ⟨.failed, (Ends.leave turn).mpr rfl, rfl⟩
  · rw [if_neg low]
    exact translate_empty low

end

end Rocsift.Xlator
