import Rocsift.Xlator.Directories
import Rocsift.Xlator.Indices

/-! The addresses that a walk reads. Base addresses in video memory count from the framebuffer
offset, which the loop over the levels takes off and the step further from a page-table entry does
not. -/
namespace Rocsift.Xlator

structure EntryRead where
  parent : Pde
  index : BitVec 64
  place : EntryAddr

/-- The address is the base of the parent, with the offset removed in video memory, and 8 bytes
for each entry before it. -/
def EntryRead.Removed (h : WalkHelper) (e : EntryRead) : Prop :=
  e.place.addr = (if e.place.system then e.parent.base_address
    else e.parent.base_address - h.fb_offset) + 8#64 * e.index

instance (h : WalkHelper) (e : EntryRead) : Decidable (e.Removed h) :=
  inferInstanceAs (Decidable (_ = _))

def GoesFurther (h : WalkHelper) (d : Descent) : Prop :=
  (getPteFields d.base).valid ≠ 0#8 ∧ d.pde.pte = 0#8 ∧
    (getPteFields d.base).translate_further ≠ 0#8 ∧ nativeSize h d = 1#64 <<< 21

instance (h : WalkHelper) (d : Descent) : Decidable (GoesFurther h d) :=
  inferInstanceAs (Decidable (_ ∧ _))

section
variable (mem : Memory) (h : WalkHelper) (va : BitVec 64)

def descendReads : Nat → BitVec 64 → PdeCache → List EntryRead
  | level, base, cache =>
    let pde := getPdeFields base
    if pde.pte ≠ 0#8 then []
    else
      let e := tableEntry h va level pde
      let here := if e.addr = (cache level).1 then [] else [⟨pde, tableIndex h va level, e⟩]
      match level with
      | 0 => here
      | level + 1 =>
        let next := (cachedFetch cache (level + 1) e).value mem
        here ++ descendReads level next.1 next.2

def leafReads (d : Descent) : List EntryRead :=
  if GoesFurther h d then [⟨getPdeFields d.base, furtherIndex va, furtherEntry va d⟩] else []

def walkFetches (cache : PdeCache) : List EntryRead :=
  if h.pt_depth = 0 then []
  else descendReads mem h (va - h.pt_start_addr) h.pt_depth h.pt_base_addr cache ++
    leafReads h (va - h.pt_start_addr) (walkDescent mem h va cache)

structure OffsetRemoved (cache : PdeCache) : Prop where
  reads : (walkFetches mem h va cache).map EntryRead.place = (walkPt h cache va).trace mem
  removed : ∀ e ∈ walkFetches mem h va cache, e.Removed h

def FurtherInVideo (cache : PdeCache) : Prop :=
  h.pt_depth ≠ 0 ∧ GoesFurther h (walkDescent mem h va cache) ∧
    (getPdeFields (walkDescent mem h va cache).base).system = 0#8

end

section
variable {mem : Memory} {h : WalkHelper} {va : BitVec 64}

theorem cachedFetch_trace (cache : PdeCache) (level : Nat) (e : EntryAddr) :
    (cachedFetch cache level e).trace mem = if e.addr = (cache level).1 then [] else [e] := by
  simp only [cachedFetch, Reading.trace_ite]
  rfl

theorem descend_trace (level : Nat) (base : BitVec 64) (cache : PdeCache) :
    (descend cachedFetch h va level base cache).trace mem =
      (descendReads mem h va level base cache).map EntryRead.place := by
  induction level generalizing base cache with
  | zero =>
    unfold descend descendReads
    simp only [Reading.trace_ite, Reading.trace_bind, Reading.trace_pure, cachedFetch_trace,
      List.append_nil, apply_ite (List.map EntryRead.place), List.map_nil, List.map_cons]
  | succ level ih =>
    unfold descend descendReads
    simp only [Reading.trace_ite, Reading.trace_bind, Reading.trace_pure, cachedFetch_trace, ih,
      apply_ite (List.map EntryRead.place), List.map_nil, List.map_append, List.map_cons]

theorem leaf_goes {d : Descent} (goes : GoesFurther h d) :
    leaf h va d = (Reading.get (furtherEntry va d) >>= fun base =>
      pure (some ⟨getPteFields base, 0x1000#64, 0xfff#64⟩)) := by
  obtain ⟨valid, table, flag, native⟩ := goes
  rw [leaf, if_pos ⟨valid, table, flag⟩, if_neg (not_not.mpr native), native]
  rfl

theorem leaf_stays {d : Descent} (stays : ¬GoesFurther h d) :
    leaf h va d = pure (if (getPteFields d.base).valid ≠ 0#8 ∧ d.pde.pte = 0#8 ∧
        (getPteFields d.base).translate_further ≠ 0#8 then none
      else some ⟨getPteFields d.base, nativeSize h d, nativeSize h d - 1#64⟩) := by
  by_cases further : (getPteFields d.base).valid ≠ 0#8 ∧ d.pde.pte = 0#8 ∧
      (getPteFields d.base).translate_further ≠ 0#8
  · have native : nativeSize h d ≠ 1#64 <<< 21 :=
      fun native => stays ⟨further.1, further.2.1, further.2.2, native⟩
    simp only [leaf, if_pos further, if_pos native]
  · simp only [leaf, if_neg further]

theorem leaf_trace (d : Descent) :
    (leaf h va d).trace mem = (leafReads h va d).map EntryRead.place := by
  unfold leafReads
  by_cases goes : GoesFurther h d
  · simp only [if_pos goes, leaf_goes goes]
    rfl
  · simp only [if_neg goes, leaf_stays goes]
    rfl

theorem walkFetches_trace (cache : PdeCache) :
    (walkFetches mem h va cache).map EntryRead.place = (walkPt h cache va).trace mem := by
  unfold walkFetches walkPt walkWith
  by_cases deep : h.pt_depth = 0
  · rw [if_pos deep, if_pos deep]
    rfl
  · simp only [if_neg deep, List.map_append, Reading.trace_bind, Reading.trace_pure,
      List.append_nil, descend_trace, leaf_trace, walkDescent]

theorem tableEntry_removed (pde : Pde) (level : Nat) :
    EntryRead.Removed h ⟨pde, tableIndex h va level, tableEntry h va level pde⟩ := by
  have place : (tableEntry h va level pde).system = decide (pde.system ≠ 0#8) := rfl
  simp only [EntryRead.Removed, place, tableEntry_addr]
  rw [BitVec.add_comm, BitVec.mul_comm]
  by_cases video : pde.system = 0#8
  · simp only [video, ne_eq, not_true, decide_false, if_true, Bool.false_eq_true, if_false]
  · simp only [video, ne_eq, not_false_eq_true, decide_true, if_true, if_false]

theorem descendReads_removed (level : Nat) (base : BitVec 64) (cache : PdeCache) :
    ∀ e ∈ descendReads mem h va level base cache, e.Removed h := by
  induction level generalizing base cache with
  | zero =>
    unfold descendReads
    intro e member
    simp only [List.mem_ite_nil_left, List.mem_singleton] at member
    obtain ⟨-, -, rfl⟩ := member
    exact tableEntry_removed _ _
  | succ level ih =>
    unfold descendReads
    intro e member
    simp only [List.mem_ite_nil_left, List.mem_append, List.mem_singleton] at member
    obtain ⟨-, ⟨-, rfl⟩ | below⟩ := member
    · exact tableEntry_removed _ _
    · exact ih _ _ e below

theorem furtherEntry_removed_iff (d : Descent) :
    EntryRead.Removed h ⟨getPdeFields d.base, furtherIndex va, furtherEntry va d⟩ ↔
      ((getPdeFields d.base).system = 0#8 → h.fb_offset = 0#64) := by
  have place : (furtherEntry va d).system = decide ((getPdeFields d.base).system ≠ 0#8) := rfl
  have addr : (furtherEntry va d).addr =
      (getPdeFields d.base).base_address + furtherIndex va * 8#64 := rfl
  simp only [EntryRead.Removed, place, addr, BitVec.mul_comm]
  by_cases video : (getPdeFields d.base).system = 0#8
  · simp only [video, ne_eq, not_true, decide_false, Bool.false_eq_true, if_false, true_implies]
    constructor
    · intro kept
      bv_omega
    · intro none
      simp only [none, BitVec.sub_zero]
  · simp only [video, ne_eq, not_false_eq_true, decide_true, if_true, false_implies]

end

/-- The offset is removed in all reads exactly if it is zero, or the walk does not go further
through an entry that points to video memory. -/
theorem offset_removed_iff (mem : Memory) (h : WalkHelper) (cache : PdeCache) (va : BitVec 64) :
    OffsetRemoved mem h va cache ↔ h.fb_offset = 0#64 ∨ ¬FurtherInVideo mem h va cache := by
  constructor
  · rintro ⟨-, removed⟩
    by_contra either
    obtain ⟨offset, further⟩ := not_or.mp either
    obtain ⟨deep, goes, video⟩ := not_not.mp further
    have read : ⟨getPdeFields (walkDescent mem h va cache).base,
        furtherIndex (va - h.pt_start_addr),
        furtherEntry (va - h.pt_start_addr) (walkDescent mem h va cache)⟩ ∈
        walkFetches mem h va cache := by
      simp only [walkFetches, if_neg deep, leafReads, if_pos goes]
      exact List.mem_append_right _ (List.mem_singleton.mpr rfl)
    exact offset ((furtherEntry_removed_iff _).mp (removed _ read) video)
  · intro either
    refine ⟨walkFetches_trace cache, fun e member => ?_⟩
    simp only [walkFetches, leafReads, List.mem_ite_nil_left, List.mem_ite_nil_right,
      List.mem_append, List.mem_singleton] at member
    obtain ⟨deep, loop | ⟨goes, rfl⟩⟩ := member
    · exact descendReads_removed _ _ _ e loop
    · exact (furtherEntry_removed_iff _).mpr fun video =>
        either.resolve_right (not_not.mpr ⟨deep, goes, video⟩)

/-- A framebuffer offset of 16 MiB, and a page-table entry in video memory that is followed
further: its table is read where the base points, not below it by the offset. -/
theorem further_entry_keeps_offset :
    let mem := fun e : EntryAddr =>
      if e.addr = 0x5000#64 then 0x4800000001006001#64
      else if e.addr = 0x6000#64 then 0x100000001007001#64 else 0#64
    let h := populateWalkHelper { oneDirectory 0x1005001#32 with fb_offset := 1#32 }
    ¬OffsetRemoved mem h 0#64 PdeCache.cleared ∧
      (walkPt h PdeCache.cleared 0#64).trace mem =
        [⟨false, 0x5000#64⟩, ⟨false, 0x6000#64⟩, ⟨false, 0x1007000#64⟩] := by
  intro mem h
  have kept : ¬∀ e ∈ walkFetches mem h 0#64 PdeCache.cleared, e.Removed h := by decide +kernel
  exact ⟨fun removed => kept removed.removed, by decide +kernel⟩

end Rocsift.Xlator
