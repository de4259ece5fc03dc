import Rocsift.Xlator.Walk

/-! The valid bits on the path of a walk. `walkPt` decodes the valid bit of every directory entry
and asks for none of them: the flag it reports is that of the entry at which the walk ends. Only a
translate-further entry, which is a directory entry in the place of a page-table entry, is
followed if it is valid. -/
namespace Rocsift.Xlator

section
variable (mem : Memory) (h : WalkHelper) (va : BitVec 64)

/-- The directory entries that a descent fetches, from memory or from its cache: all entries but
the page-table entry of level 0. -/
def directories : Nat → BitVec 64 → PdeCache → List (BitVec 64)
  | 0, _, _ => []
  | level + 1, base, cache =>
    let pde := getPdeFields base
    if pde.pte ≠ 0#8 then []
    else
      let next := (cachedFetch cache (level + 1) (tableEntry h va (level + 1) pde)).value mem
      next.1 :: directories level next.1 next.2

def walkDirectories (cache : PdeCache) : List (BitVec 64) :=
  if h.pt_depth = 0 then []
  else directories mem h (va - h.pt_start_addr) h.pt_depth h.pt_base_addr cache

def walkDescent (cache : PdeCache) : Descent :=
  ((descend cachedFetch h (va - h.pt_start_addr) h.pt_depth h.pt_base_addr cache).value mem).1

def furtherEntry (va : BitVec 64) (d : Descent) : EntryAddr :=
  let idx := va >>> log2num_bytes_4kib_page &&& (1#64 <<< log2num_intermediate_pdbs - 1#64)
  let pde := getPdeFields d.base
  ⟨pde.system ≠ 0#8, pde.base_address + idx * 8#64⟩

def EndsUnmapped (va : BitVec 64) (d : Descent) : Prop :=
  (getPteFields d.base).valid = 0#8 ∨
    (d.pde.pte = 0#8 ∧ (getPteFields d.base).translate_further ≠ 0#8 ∧
      (nativeSize h d ≠ 1#64 <<< 21 ∨ (getPteFields (mem (furtherEntry va d))).valid = 0#8))

def FollowsMapped (cache : PdeCache) : Prop :=
  ∀ e ∈ walkDirectories mem h va cache, (getPdeFields e).pte = 0#8 → (getPdeFields e).valid ≠ 0#8

/-- What a walk reports is valid only if every directory entry on its path is. -/
def UnmappedBelow (cache : PdeCache) : Prop :=
  (∃ e ∈ walkDirectories mem h va cache, (getPdeFields e).valid = 0#8) →
    ∀ w, ((walkPt h cache va).value mem).1 = some w → w.pte.valid = 0#8

end

section
variable {mem : Memory} {h : WalkHelper} {va : BitVec 64}

theorem leaf_unmapped_iff (d : Descent) :
    (∀ w, (leaf h va d).value mem = some w → w.pte.valid = 0#8) ↔ EndsUnmapped mem h va d := by
  unfold leaf EndsUnmapped furtherEntry
  by_cases valid : (getPteFields d.base).valid = 0#8
  · simp [valid]
  · by_cases further : d.pde.pte = 0#8 ∧ (getPteFields d.base).translate_further ≠ 0#8
    · simp only [valid, further, ne_eq, not_false_eq_true, and_self, if_true, false_or, true_and]
      by_cases native : nativeSize h d = 1#64 <<< 21
      · simp only [native, not_true, if_false, false_or, Reading.value_bind, Reading.value_get,
          Reading.value_pure, Option.some.injEq, forall_eq']
      · simp only [native, not_false_eq_true, if_true, true_or, Reading.value_pure, reduceCtorEq,
          false_implies, implies_true]
    · have ends : ¬((getPteFields d.base).valid ≠ 0#8 ∧ d.pde.pte = 0#8 ∧
          (getPteFields d.base).translate_further ≠ 0#8) := fun all => further all.2
      simp only [if_neg ends, Reading.value_pure, Option.some.injEq, forall_eq']
      refine iff_of_false valid ?_
      rintro (none | ⟨table, flag, -⟩)
      · exact valid none
      · exact further ⟨table, flag⟩

theorem descend_of_leaf {level : Nat} {base : BitVec 64} {cache : PdeCache} {e : BitVec 64}
    (member : e ∈ directories mem h va level base cache) (leaf : (getPdeFields e).pte ≠ 0#8) :
    ((descend cachedFetch h va level base cache).value mem).1.base = e := by
  induction level generalizing base cache with
  | zero => cases member
  | succ level ih =>
    by_cases table : (getPdeFields base).pte ≠ 0#8
    · simp only [directories, if_pos table, List.not_mem_nil] at member
    · simp only [directories, if_neg table] at member
      rw [descend_next table]
      rcases List.mem_cons.mp member with rfl | member
      · rw [descend_stops leaf]
      · exact ih member

theorem walk_unmapped_iff (deep : h.pt_depth ≠ 0) (cache : PdeCache) :
    (∀ w, ((walkPt h cache va).value mem).1 = some w → w.pte.valid = 0#8) ↔
      EndsUnmapped mem h (va - h.pt_start_addr) (walkDescent mem h va cache) := by
  apply Iff.trans _ (leaf_unmapped_iff _)
  simp only [walkPt, walkWith, if_neg deep, Reading.value_bind, Reading.value_pure, walkDescent]

end

theorem unmapped_below_of_follows_mapped (mem : Memory) (r : Registers) (cache : PdeCache)
    (va : BitVec 64) (follows : FollowsMapped mem (populateWalkHelper r) va cache) :
    UnmappedBelow mem (populateWalkHelper r) va cache := by
  rintro ⟨e, he, invalid⟩
  have leaf : (getPdeFields e).pte ≠ 0#8 := fun table => follows e he table invalid
  unfold walkDirectories at he
  split at he
  · cases he
  · rename_i deep
    apply (walk_unmapped_iff deep cache).mpr
    apply Or.inl
    unfold walkDescent
    rw [descend_of_leaf he leaf]
    exact invalid

theorem unmapped_below_leaf :
    UnmappedBelow (systemMemory [(0x5000#64, 0x40000000200000#64)])
      (populateWalkHelper (oneDirectory 0x5003#32)) 0x1000#64 PdeCache.cleared := by
  apply unmapped_below_of_follows_mapped
  have path : walkDirectories (systemMemory [(0x5000#64, 0x40000000200000#64)])
      (populateWalkHelper (oneDirectory 0x5003#32)) 0x1000#64 PdeCache.cleared =
        [0x40000000200000#64] := by decide +kernel
  intro e he table
  rw [path, List.mem_singleton] at he
  subst he
  exact absurd table (by decide)

/-- An unmapped directory entry that points to a table with a mapped page: the page is reported
as valid. -/
theorem unmapped_directory_walked :
    ¬UnmappedBelow (systemMemory [(0x5000#64, 0x6002#64), (0x6008#64, 0x9003#64)])
      (populateWalkHelper (oneDirectory 0x5003#32)) 0x1000#64 PdeCache.cleared := by
  intro below
  have invalid := below ⟨0x6002#64, by decide +kernel, by decide +kernel⟩
    ⟨getPteFields 0x9003#64, 0x1000#64, 0xfff#64⟩ (by decide +kernel)
  exact absurd invalid (by decide)

end Rocsift.Xlator
