import Mathlib.Logic.Relation
import Rocsift.Base.Tiling
import Rocsift.Xlator.Combine

/-! The pages of a plain range translation against the range that was asked for. A page holds the
address that its walk was made for, but it may begin before it, and the loop runs to a bound that
it extends by the bytes between the two. -/
namespace Rocsift.Xlator
open Tiling

def Fragment.part (f : Fragment) : Part := ⟨f.va.toNat, f.size.toNat⟩

section
variable (mem : Memory) (h : WalkHelper) (va : BitVec 64)

def Steps (c c' : Cursor) : Prop :=
  c.addr < va + c.size ∧ ∃ p, c.advance mem h = some (p, c')

def LaterTurns (size : BitVec 64) (P : Nat → Nat → Prop) : Prop :=
  ∀ c, Relation.TransGen (Steps mem h va) ⟨PdeCache.cleared, va, size⟩ c → c.addr < va + c.size →
    ∀ w, ((walkPt h c.cache c.addr).value mem).1 = some w → P c.addr.toNat w.size.toNat

end

/-- The same of a list of pages, each walked for the end of the one before it. -/
def Along (P : Nat → Nat → Prop) : BitVec 64 → List Fragment → Prop
  | _, [] => True
  | addr, p :: ps => P addr.toNat p.size.toNat ∧ Along P (p.va + p.size) ps

section
variable {mem : Memory} {h : WalkHelper} {va : BitVec 64} {P : Nat → Nat → Prop}

theorem advance_walk {c c' : Cursor} {p : Fragment} (walk : c.advance mem h = some (p, c')) :
    ∃ w, ((walkPt h c.cache c.addr).value mem).1 = some w ∧ p = pageOf c.addr w := by
  unfold Cursor.advance at walk
  cases found : ((walkPt h c.cache c.addr).value mem).1 with
  | none =>
    simp only [found] at walk
    cases walk
  | some w =>
    simp only [found, Option.some.injEq, Prod.mk.injEq] at walk
    exact ⟨w, rfl, walk.1.symm⟩

theorem along_of_walked {c : Cursor} {ps : List Fragment} (walked : Walked mem h va c ps) :
    (∀ c', Relation.ReflTransGen (Steps mem h va) c c' → c'.addr < va + c'.size →
      ∀ w, ((walkPt h c'.cache c'.addr).value mem).1 = some w → P c'.addr.toNat w.size.toNat) ↔
      Along P c.addr ps := by
  induction walked with
  | done finished =>
    refine iff_of_true (fun c' reached more => ?_) trivial
    rcases reached.cases_head with rfl | ⟨_, step, -⟩
    · exact absurd more finished
    · exact absurd step.1 finished
  | @page c c' p ps more walk rest ih =>
    obtain ⟨w, found, rfl⟩ := advance_walk walk
    have next : c'.addr = (pageOf c.addr w).va + (pageOf c.addr w).size := by
      unfold Cursor.advance at walk
      simp only [found, Option.some.injEq, Prod.mk.injEq] at walk
      exact walk.2 ▸ rfl
    unfold Along
    rw [← next, ← ih]
    constructor
    · intro all
      refine ⟨all c .refl more w found, fun d reached => all d ?_⟩
      exact .head ⟨more, _, walk⟩ reached
    · rintro ⟨here, later⟩ d reached more' w' found'
      rcases reached.cases_head with rfl | ⟨e, ⟨-, q, walk'⟩, reached⟩
      · cases found.symm.trans found'
        exact here
      · cases walk.symm.trans walk'
        exact later d reached more' w' found'

theorem range_pages {r : Registers} {size : BitVec 64} {fs : List Fragment}
    (more : va < va + size)
    (ends : siftXlatorTranslateRange mem r va size false (.list fs)) :
    ∃ p c ps, fs = p :: ps ∧
      Cursor.advance mem (populateWalkHelper r) ⟨PdeCache.cleared, va, size⟩ = some (p, c) ∧
      Walked mem (populateWalkHelper r) va c ps ∧
      ∀ P, LaterTurns mem (populateWalkHelper r) va size P ↔ Along P c.addr ps := by
  obtain ⟨ps, walked, made⟩ := (translateRange_list_iff ..).mp ends
  cases walked with
  | done finished => exact absurd more finished
  | @page _ c p ps _ walk rest =>
    obtain ⟨rfl, -⟩ := (assemble_separate_iff _ _ _).mp made
    refine ⟨p, c, ps, rfl, walk, rest, fun P => ?_⟩
    rw [← along_of_walked rest]
    constructor
    · exact fun later d reached => later d (.head' ⟨more, p, walk⟩ reached)
    · intro later d reached
      obtain ⟨e, ⟨-, q, walk'⟩, reached⟩ := Relation.TransGen.head'_iff.mp reached
      cases walk.symm.trans walk'
      exact later d reached

end

end Rocsift.Xlator
