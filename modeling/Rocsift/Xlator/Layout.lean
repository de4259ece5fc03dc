import Rocsift.Xlator.Cache
import Rocsift.Xlator.Homogeneous
import Rocsift.Xlator.Turns

/-! Address spaces that are laid out in pages, end to end. A range translation lists the pages from
the one of its first address on; where it stops depends on how far into that page it began. -/
namespace Rocsift.Xlator
open Tiling

def Maps (mem : Memory) (h : WalkHelper) (p : Fragment) : Prop :=
  ∀ a, p.Contains a → (walkMemory h mem a).map (pageOf a) = some p

structure Layout (mem : Memory) (h : WalkHelper) (pages : List Fragment) (lo hi : Nat) : Prop where
  mapped : ∀ p ∈ pages, Maps mem h p
  filled : ∀ p ∈ pages, 0#64 < p.size
  placed : EndToEnd lo (pages.map Fragment.part) hi
  top : hi < 2 ^ 64

theorem maps_small {mem : Memory} {r : Registers} {p : Fragment} (small : p.size = 0x1000#64)
    (aligned : p.va.toNat % 4096 = 0)
    (found : (walkMemory (populateWalkHelper r) mem p.va).map (pageOf p.va) = some p) :
    Maps mem (populateWalkHelper r) p := by
  intro a inside
  obtain ⟨w, walked, page⟩ := Option.map_eq_some_iff.mp found
  have start : (populateWalkHelper r).pt_start_addr.toNat % 4096 = 0 := address_aligned _ _
  have near : (a - p.va).toNat < 4096 := by
    have less := BitVec.lt_def.mp inside
    rwa [small] at less
  have block : ∀ x : BitVec 64, x.toNat % 4096 = 0 →
      (a - x).toNat / 2 ^ 12 = (p.va - x).toNat / 2 ^ 12 := by
    intro x whole
    rw [BitVec.toNat_sub] at near ⊢
    rw [BitVec.toNat_sub]
    omega
  have same := block _ start
  have alike : walkMemory (populateWalkHelper r) mem a = some w := by
    rw [← walked, walkMemory, walkMemory]
    rw [walkWith_congr memoryFetch _
      (fun i le => tableIndex_of_block r same (by unfold levelBits; omega) le)
      (furtherIndex_of_block same)]
  have size : w.size = 0x1000#64 := (congrArg Fragment.size page).trans small
  have mask : w.mask = 0x1000#64 - 1#64 := size ▸ (walkWith_sound memoryFetch r walked).mask
  have start : ∀ x : BitVec 64, (x &&& ~~~w.mask).toNat = x.toNat - x.toNat % 2 ^ 12 := by
    intro x
    have offset : (x &&& (0x1000#64 - 1#64)).toNat = x.toNat % 2 ^ 12 :=
      BitField.and_pred_toNat (by rfl : (0x1000#64).toNat = 2 ^ 12) x
    have le : x &&& (0x1000#64 - 1#64) ≤ x := by
      rw [BitVec.le_def, offset]
      exact Nat.mod_le _ _
    rw [mask, BitField.and_not_eq_sub, BitVec.toNat_sub_of_le le, offset]
  have begins : a &&& ~~~w.mask = p.va &&& ~~~w.mask := by
    apply BitVec.eq_of_toNat_eq
    rw [start, start]
    rw [BitVec.toNat_sub] at near
    omega
  rw [alike, Option.map_some, ← page, pageOf, pageOf, begins]

def pagesBelow (pages : List Fragment) (bound : Nat) : List Fragment :=
  pages.takeWhile fun p => p.va.toNat < bound

def visits (mem : Memory) (h : WalkHelper) (pages : List Fragment) : List EntryLookup :=
  (pages.map Fragment.va).flatMap (walkReads mem h)

section
variable {mem : Memory} {h : WalkHelper} {va : BitVec 64} {p : Fragment} {ps : List Fragment}

theorem contains_start (filled : 0#64 < p.size) : p.Contains p.va := by
  unfold Fragment.Contains
  rwa [BitVec.sub_self]

theorem advance_mapped {c : Cursor} (maps : Maps mem h p) (inside : p.Contains c.addr)
    (coherent : c.cache.Coherent (walkReads mem h c.addr)) :
    c.advance mem h = some (p, ⟨c.cache.after (walkReads mem h c.addr), p.va + p.size,
      c.size + (c.addr - p.va)⟩) := by
  obtain ⟨w, found, same⟩ := Option.map_eq_some_iff.mp (maps c.addr inside)
  have walked := walkPt_coherent coherent
  unfold Cursor.advance
  simp only [walked, found, same]
  split
  · rfl
  · rename_i here
    rw [not_not.mp here, BitVec.sub_self, BitVec.add_zero]

theorem pagesBelow_cons (bound : Nat) :
    pagesBelow (p :: ps) bound = if p.va.toNat < bound then p :: pagesBelow ps bound else [] := by
  rw [pagesBelow, List.takeWhile_cons]
  by_cases below : p.va.toNat < bound
  · rw [if_pos below, if_pos (decide_eq_true below)]
    rfl
  · rw [if_neg below, if_neg (by rwa [decide_eq_true_eq])]

theorem walked_listed {pages : List Fragment} {lo hi : Nat} (layout : Layout mem h pages lo hi)
    {c : Cursor} (start : c.addr.toNat = lo) (reach : (va + c.size).toNat ≤ hi)
    (coherent : c.cache.Coherent (visits mem h (pagesBelow pages (va + c.size).toNat))) :
    Walked mem h va c (pagesBelow pages (va + c.size).toNat) := by
  induction pages generalizing c lo with
  | nil =>
    have finish : lo = hi := layout.placed
    refine .done ?_
    rw [BitVec.lt_def]
    omega
  | cons p ps ih =>
    obtain ⟨maps, mapped⟩ := List.forall_mem_cons.mp layout.mapped
    obtain ⟨filled, all_filled⟩ := List.forall_mem_cons.mp layout.filled
    have placed : p.va.toNat = lo ∧ EndToEnd p.part.finish (ps.map Fragment.part) hi :=
      layout.placed
    have here : c.addr = p.va := BitVec.eq_of_toNat_eq (start.trans placed.1.symm)
    rw [pagesBelow_cons] at coherent ⊢
    by_cases more : p.va.toNat < (va + c.size).toNat
    · rw [if_pos more] at coherent ⊢
      obtain ⟨first, rest⟩ := (SlotCache.coherent_append _ _ _).mp coherent
      have inside : p.Contains c.addr := here ▸ contains_start filled
      have walk := advance_mapped maps inside (here ▸ first)
      rw [here, BitVec.sub_self, BitVec.add_zero] at walk
      have bounds := endToEnd_le placed.2
      have finish : p.part.finish = p.va.toNat + p.size.toNat := rfl
      have top := layout.top
      refine .page (BitVec.lt_def.mpr (here ▸ more)) walk (ih ⟨mapped, all_filled, placed.2, top⟩
        (c := ⟨_, p.va + p.size, c.size⟩) ?_ reach rest)
      exact BitVec.toNat_add_of_lt (by omega)
    · rw [if_neg more]
      refine .done ?_
      rw [BitVec.lt_def, here]
      exact more

/-- The bound that the loop runs to: the range, and as many bytes as lie between the start of its
first page and its first address. -/
def lastBound (p : Fragment) (va size : BitVec 64) : Nat :=
  va.toNat + size.toNat + (va - p.va).toNat

theorem lastBound_start (size : BitVec 64) : lastBound p p.va size = p.va.toNat + size.toNat := by
  rw [lastBound, BitVec.sub_self]
  rfl

theorem walked_pages {r : Registers} {size : BitVec 64} {lo hi : Nat}
    (layout : Layout mem (populateWalkHelper r) (p :: ps) lo hi) (inside : p.Contains va)
    (some_bytes : 0#64 < size) (reaches : lastBound p va size ≤ hi)
    (unambiguous : Unambiguous mem (populateWalkHelper r)
      (va :: (pagesBelow ps (lastBound p va size)).map Fragment.va)) :
    Walked mem (populateWalkHelper r) va ⟨PdeCache.cleared, va, size⟩
      (p :: pagesBelow ps (lastBound p va size)) := by
  obtain ⟨maps, mapped⟩ := List.forall_mem_cons.mp layout.mapped
  obtain ⟨filled, all_filled⟩ := List.forall_mem_cons.mp layout.filled
  have placed : p.va.toNat = lo ∧ EndToEnd p.part.finish (ps.map Fragment.part) hi :=
    layout.placed
  have top := layout.top
  obtain ⟨first, rest⟩ := (SlotCache.coherent_append _ _ _).mp unambiguous
  have walk := advance_mapped (c := ⟨PdeCache.cleared, va, size⟩) maps inside first
  have bound : (va + (size + (va - p.va))).toNat = lastBound p va size := by
    unfold lastBound at *
    rw [← BitVec.add_assoc, BitVec.toNat_add, BitVec.toNat_add]
    omega
  refine .page ?_ walk ?_
  · have range : (va + size).toNat = va.toNat + size.toNat := by
      unfold lastBound at reaches
      exact BitVec.toNat_add_of_lt (by omega)
    rw [BitVec.lt_def] at some_bytes ⊢
    exact range ▸ Nat.lt_add_of_pos_right some_bytes
  · rw [← bound] at rest ⊢
    apply walked_listed ⟨mapped, all_filled, placed.2, top⟩
    · have finish : p.va.toNat + p.size.toNat ≤ hi := (endToEnd_le placed.2).1
      exact BitVec.toNat_add_of_lt (by omega)
    · exact bound ▸ reaches
    · exact rest

theorem translateRange_listed {r : Registers} (size : BitVec 64) {lo hi : Nat}
    (layout : Layout mem (populateWalkHelper r) (p :: ps) lo hi) (inside : p.Contains va)
    (some_bytes : 0#64 < size) (reaches : lastBound p va size ≤ hi)
    (unambiguous : Unambiguous mem (populateWalkHelper r)
      (va :: (pagesBelow ps (lastBound p va size)).map Fragment.va)) (combine : Bool)
    (fs : List Fragment) :
    siftXlatorTranslateRange mem r va size combine (.list fs) ↔
      assemble combine p (pagesBelow ps (lastBound p va size)) = some fs := by
  have walked := walked_pages layout inside some_bytes reaches unambiguous
  rw [translateRange_list_iff]
  constructor
  · rintro ⟨qs, other, made⟩
    rwa [other.unique walked] at made
  · exact fun made => ⟨_, walked, made⟩

end

/-- The plain translation of a range lists the pages from the one of its first address to the last
one that begins below its bound, if no two neighbours among them overlap. -/
theorem range_listed (mem : Memory) (r : Registers) (va size : BitVec 64) (p : Fragment)
    (ps : List Fragment) (lo hi : Nat)
    (layout : Layout mem (populateWalkHelper r) (p :: ps) lo hi) (inside : p.Contains va)
    (some_bytes : 0#64 < size) (reaches : lastBound p va size ≤ hi)
    (unambiguous : Unambiguous mem (populateWalkHelper r)
      (va :: (pagesBelow ps (lastBound p va size)).map Fragment.va)) (fs : List Fragment) :
    siftXlatorTranslateRange mem r va size false (.list fs) ↔
      fs = p :: pagesBelow ps (lastBound p va size) ∧
        fs.IsChain fun f g => fragmentsOverlap f g = false := by
  rw [translateRange_listed size layout inside some_bytes reaches unambiguous,
    assemble_separate_iff]
  constructor
  · rintro ⟨rfl, apart⟩
    exact ⟨rfl, apart⟩
  · rintro ⟨rfl, apart⟩
    exact ⟨rfl, apart⟩

def twoPages : Memory :=
  systemMemory [(0x5000#64, 0x6003#64), (0x6008#64, 0x9003#64), (0x6010#64, 0xa003#64)]

theorem twoPages_layout : Layout twoPages (populateWalkHelper (oneDirectory 0x5003#32))
    [smallPage 0x1000#64 0x9003#64, smallPage 0x2000#64 0xa003#64, smallPage 0x3000#64 0#64]
    0x1000 0x4000 where
  mapped := by
    simp only [List.forall_mem_cons]
    refine ⟨?_, ?_, ?_, List.forall_mem_nil _⟩
    · exact maps_small rfl rfl (by decide +kernel)
    · exact maps_small rfl rfl (by decide +kernel)
    · exact maps_small rfl rfl (by decide +kernel)
  filled := by decide
  placed := ⟨rfl, rfl, rfl, rfl⟩
  top := by decide

/-- From the middle of a page on, the page behind the end of the range is listed too. -/
theorem range_listed_two :
    siftXlatorTranslateRange twoPages (oneDirectory 0x5003#32) 0x1800#64 0x1800#64 false
      (.list [smallPage 0x1000#64 0x9003#64, smallPage 0x2000#64 0xa003#64,
        smallPage 0x3000#64 0#64]) := by
  apply (range_listed _ _ _ _ _ _ _ _ twoPages_layout (by decide) (by decide) (by decide)
    (of_decide_eq_true (by decide +kernel)) _).mpr
  decide +kernel

section
variable {mem : Memory} {h : WalkHelper} {p q : Fragment} {ps qs : List Fragment} {lo hi : Nat}

theorem Layout.behind {before after : List Fragment}
    (layout : Layout mem h (before ++ after) lo hi) : ∃ mid, Layout mem h after mid hi := by
  induction before generalizing lo with
  | nil => exact ⟨lo, layout⟩
  | cons p before ih =>
    obtain ⟨mapped, filled, placed, top⟩ := layout
    obtain ⟨-, placed⟩ := placed
    exact ih ⟨fun f member => mapped f (List.mem_cons_of_mem p member),
      fun f member => filled f (List.mem_cons_of_mem p member), placed, top⟩

theorem Layout.ordered {pages : List Fragment} (layout : Layout mem h pages lo hi) :
    pages.Pairwise fun f g => f.va.toNat < g.va.toNat := by
  have apart := List.pairwise_map.mp (endToEnd_pairwise layout.placed)
  refine apart.imp_of_mem fun member _ before => Nat.lt_of_lt_of_le ?_ before
  exact Nat.lt_add_of_pos_right (BitVec.lt_def.mp (layout.filled _ member))

theorem pagesBelow_split (layout : Layout mem h (ps ++ q :: qs) lo hi) {bound : Nat}
    (behind : q.va.toNat ≤ bound) :
    pagesBelow (ps ++ q :: qs) bound = ps ++ pagesBelow (q :: qs) bound := by
  have before : ∀ f ∈ ps, f.va.toNat < q.va.toNat := fun f member =>
    (List.pairwise_append.mp layout.ordered).2.2 f member q List.mem_cons_self
  apply List.takeWhile_append_of_pos
  exact fun f member => decide_eq_true (Nat.lt_of_lt_of_le (before f member) behind)

theorem assemble_append (fs : List Fragment) :
    assemble false p (ps ++ q :: qs) = some fs ↔
      ∃ gs hs, assemble false p ps = some gs ∧ assemble false q qs = some hs ∧ fs = gs ++ hs ∧
        ∀ f ∈ gs.getLast?, ∀ g ∈ hs.head?, fragmentsOverlap f g = false := by
  simp only [assemble_separate_iff]
  constructor
  · rintro ⟨rfl, apart⟩
    rw [← List.cons_append] at apart
    obtain ⟨first, second, between⟩ := List.isChain_append.mp apart
    exact ⟨p :: ps, q :: qs, ⟨rfl, first⟩, ⟨rfl, second⟩, rfl, between⟩
  · rintro ⟨gs, hs, ⟨rfl, first⟩, ⟨rfl, second⟩, rfl, between⟩
    exact ⟨rfl, List.isChain_append.mpr ⟨first, second, between⟩⟩

end

/-- A range that begins with a page splits at the start of any other: the plain translation of the
whole is that of the parts, one after the other, if the pages on both sides of the cut do not
overlap. -/
theorem range_splits (mem : Memory) (r : Registers) (p q : Fragment) (ps qs : List Fragment)
    (lo hi : Nat) (layout : Layout mem (populateWalkHelper r) (p :: (ps ++ q :: qs)) lo hi)
    (size : BitVec 64) (some_bytes : 0#64 < size) (reaches : q.va.toNat + size.toNat ≤ hi)
    (whole : Unambiguous mem (populateWalkHelper r)
      (p.va :: (ps ++ pagesBelow (q :: qs) (q.va.toNat + size.toNat)).map Fragment.va))
    (afresh : Unambiguous mem (populateWalkHelper r)
      ((pagesBelow (q :: qs) (q.va.toNat + size.toNat)).map Fragment.va)) (fs : List Fragment) :
    siftXlatorTranslateRange mem r p.va (q.va - p.va + size) false (.list fs) ↔
      ∃ gs hs, siftXlatorTranslateRange mem r p.va (q.va - p.va) false (.list gs) ∧
        siftXlatorTranslateRange mem r q.va size false (.list hs) ∧ fs = gs ++ hs ∧
        ∀ f ∈ gs.getLast?, ∀ g ∈ hs.head?, fragmentsOverlap f g = false := by
  have tail : Layout mem (populateWalkHelper r) (ps ++ q :: qs) p.part.finish hi :=
    ⟨fun f member => layout.mapped f (List.mem_cons_of_mem p member),
      fun f member => layout.filled f (List.mem_cons_of_mem p member), layout.placed.2, layout.top⟩
  obtain ⟨mid, rest⟩ := tail.behind
  have before : p.va.toNat < q.va.toNat := (List.pairwise_cons.mp layout.ordered).1 q (by simp)
  have top := layout.top
  have filled := BitVec.lt_def.mp some_bytes
  have filled_p := layout.filled p List.mem_cons_self
  have filled_q := rest.filled q List.mem_cons_self
  have distance : (q.va - p.va).toNat = q.va.toNat - p.va.toNat :=
    BitVec.toNat_sub_of_le (BitVec.le_def.mpr (Nat.le_of_lt before))
  have all : (q.va - p.va + size).toNat = q.va.toNat - p.va.toNat + size.toNat := by
    rw [BitVec.toNat_add_of_lt (by omega), distance]
  have bound : lastBound p p.va (q.va - p.va + size) = q.va.toNat + size.toNat := by
    rw [lastBound_start, all]
    omega
  have bound_p : lastBound p p.va (q.va - p.va) = q.va.toNat := by
    rw [lastBound_start, distance]
    omega
  have bound_q : lastBound q q.va size = q.va.toNat + size.toNat := lastBound_start size
  have second : pagesBelow (q :: qs) (q.va.toNat + size.toNat) =
      q :: pagesBelow qs (q.va.toNat + size.toNat) := by
    rw [pagesBelow_cons, if_pos (Nat.lt_add_of_pos_right filled)]
  have first : pagesBelow (ps ++ q :: qs) q.va.toNat = ps := by
    rw [pagesBelow_split tail (Nat.le_refl _), pagesBelow_cons, if_neg (Nat.lt_irrefl _),
      List.append_nil]
  have both := pagesBelow_split tail (Nat.le_add_right q.va.toNat size.toNat)
  have start : Unambiguous mem (populateWalkHelper r) (p.va :: ps.map Fragment.va) := by
    rw [List.map_append, ← List.cons_append] at whole
    unfold Unambiguous at whole
    rw [List.flatMap_append] at whole
    exact ((SlotCache.coherent_append _ _ _).mp whole).1
  have list_all := translateRange_listed (q.va - p.va + size) layout (contains_start filled_p)
    (BitVec.lt_def.mpr (by rw [all]; omega)) (bound ▸ reaches) (by rwa [bound, both]) false fs
  have list_first := translateRange_listed (q.va - p.va) layout (contains_start filled_p)
    (BitVec.lt_def.mpr (distance ▸ Nat.sub_pos_of_lt before)) (by rw [bound_p]; omega)
    (by rwa [bound_p, first]) false
  have list_second := translateRange_listed size rest (contains_start filled_q) some_bytes
    (bound_q ▸ reaches) (by rwa [bound_q, ← List.map_cons, ← second]) false
  rw [list_all, bound, both, second, assemble_append]
  simp only [list_first, list_second, bound_p, bound_q, first]

theorem range_splits_two :
    siftXlatorTranslateRange twoPages (oneDirectory 0x5003#32) 0x1000#64 0x2000#64 false
      (.list [smallPage 0x1000#64 0x9003#64, smallPage 0x2000#64 0xa003#64]) := by
  apply (range_splits twoPages _ (smallPage 0x1000#64 0x9003#64) (smallPage 0x2000#64 0xa003#64) []
    _ _ _ twoPages_layout 0x1000#64 (by decide) (by decide) (of_decide_eq_true (by decide +kernel))
    (of_decide_eq_true (by decide +kernel)) _).mpr
  exact ⟨[_], [_], ⟨2, by decide +kernel⟩, ⟨2, by decide +kernel⟩, rfl, by decide +kernel⟩

end Rocsift.Xlator
