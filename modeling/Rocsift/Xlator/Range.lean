import Rocsift.Base.Looping
import Rocsift.Xlator.Walk

/-! The translation of a range, page by page: each walked page is checked against the fragment
before it, and joined to it when pages are combined. Allocations succeed. -/
namespace Rocsift.Xlator
open Looping

structure Fragment where
  va : BitVec 64
  pa : BitVec 64
  size : BitVec 64
  flags : Pte
  deriving DecidableEq

def Fragment.cleared : Fragment := ⟨0#64, 0#64, 0#64, getPteFields 0#64⟩

def fragmentsOverlap (lhs rhs : Fragment) : Bool :=
  if lhs.flags.valid = 0#8 then false
  else if rhs.flags.valid = 0#8 then false
  else if lhs.va = rhs.va ∧ lhs.pa = rhs.pa ∧ lhs.size = rhs.size then true
  else if lhs.va ≤ rhs.va ∧ rhs.va < lhs.va + lhs.size then true
  else if lhs.pa ≤ rhs.pa ∧ rhs.pa < lhs.pa + lhs.size then true
  else if rhs.pa ≤ lhs.pa ∧ lhs.pa < rhs.pa + rhs.size then true
  else false

/-- `none`: the process exits. -/
def isContiguous (prev curr : Fragment) : Option Bool :=
  if curr.va < prev.va + prev.size then none
  else if prev.va + prev.size ≠ curr.va then some false
  else if prev.flags.valid = 0#8 ∧ curr.flags.valid = 0#8 then some true
  else if prev.pa + prev.size ≠ curr.pa then some false
  else if prev.flags.valid ≠ curr.flags.valid then some false
  else if prev.flags.system ≠ curr.flags.system then some false
  else if prev.flags.coherent ≠ curr.flags.coherent then some false
  else if prev.flags.tmz ≠ curr.flags.tmz then some false
  else if prev.flags.execute ≠ curr.flags.execute then some false
  else if prev.flags.read ≠ curr.flags.read then some false
  else if prev.flags.write ≠ curr.flags.write then some false
  else if prev.flags.fragment ≠ curr.flags.fragment then some false
  else if prev.flags.tiled ≠ curr.flags.tiled then some false
  else if prev.flags.sw ≠ curr.flags.sw then some false
  else if prev.flags.pte ≠ curr.flags.pte then some false
  else if prev.flags.log ≠ curr.flags.log then some false
  else if prev.flags.translate_further ≠ curr.flags.translate_further then some false
  else if prev.flags.mtype ≠ curr.flags.mtype then some false
  else some true

structure Cursor where
  cache : PdeCache
  addr : BitVec 64
  size : BitVec 64

def pageOf (addr : BitVec 64) (results : WalkResults) : Fragment where
  va := addr &&& ~~~results.mask
  pa := results.pte.base_address
  size := results.size
  flags := results.pte

/-- One walk. Bytes of the page before `addr` are added to the size of the range. -/
def Cursor.advance (mem : Memory) (h : WalkHelper) (c : Cursor) : Option (Fragment × Cursor) :=
  let walked := (walkPt h c.cache c.addr).value mem
  match walked.1 with
  | none => none
  | some results =>
    let curr := pageOf c.addr results
    let size := if c.addr ≠ curr.va then c.size + (c.addr - curr.va) else c.size
    some (curr, ⟨walked.2, curr.va + curr.size, size⟩)

inductive RangeResult where
  | list (fragments : List Fragment)
  | failed
  | exited
  deriving DecidableEq

inductive Placement where
  | overlap
  | exit
  | joined
  | separate
  deriving DecidableEq

def place (combine : Bool) (prev curr : Fragment) : Placement :=
  if fragmentsOverlap prev curr then .overlap
  else if combine then
    match isContiguous prev curr with
    | none => .exit
    | some true => .joined
    | some false => .separate
  else .separate

structure RangeState where
  cursor : Cursor
  nodes : List Fragment
  count : Nat
  prev : Fragment

section
variable (mem : Memory) (h : WalkHelper) (va : BitVec 64) (combine : Bool)

def translateRangeBody (s : RangeState) : Turn RangeState RangeResult :=
  if s.cursor.addr < va + s.cursor.size then
    match s.cursor.advance mem h with
    | none => .leave .failed
    | some (curr, cursor) =>
      if s.count = 0 then .again ⟨cursor, s.nodes, s.count + 1, curr⟩
      else
        match place combine s.prev curr with
        | .overlap => .leave .failed
        | .exit => .leave .exited
        | .joined =>
          .again ⟨cursor, s.nodes, s.count + 1, { s.prev with size := s.prev.size + curr.size }⟩
        | .separate => .again ⟨cursor, s.nodes ++ [s.prev], s.count + 1, curr⟩
  else .leave (.list (s.nodes ++ [s.prev]))

end

def rangeStart (va size : BitVec 64) : RangeState :=
  ⟨⟨PdeCache.cleared, va, size⟩, [], 0, Fragment.cleared⟩

def siftXlatorTranslateRange (mem : Memory) (r : Registers) (va size : BitVec 64)
    (combine : Bool) (result : RangeResult) : Prop :=
  Ends (translateRangeBody mem (populateWalkHelper r) va combine) (rangeStart va size) result

/-! What the loop makes of the pages, apart from the walks that give them. -/

inductive Walked (mem : Memory) (h : WalkHelper) (va : BitVec 64) : Cursor → List Fragment → Prop
  | done {c : Cursor} (finished : ¬c.addr < va + c.size) : Walked mem h va c []
  | page {c c' : Cursor} {p : Fragment} {ps : List Fragment} (more : c.addr < va + c.size)
      (walk : c.advance mem h = some (p, c')) (rest : Walked mem h va c' ps) :
      Walked mem h va c (p :: ps)

theorem Walked.unique {mem : Memory} {h : WalkHelper} {va : BitVec 64} {c : Cursor}
    {ps qs : List Fragment} (left : Walked mem h va c ps) (right : Walked mem h va c qs) :
    ps = qs := by
  induction left generalizing qs with
  | done finished =>
    cases right with
    | done => rfl
    | page more => exact absurd more finished
  | page more walk rest ih =>
    cases right with
    | done finished => exact absurd more finished
    | page _ walk' rest' =>
      cases walk.symm.trans walk'
      rw [ih rest']

/-- The list from an open fragment and the pages after it, unless the loop leaves before its
end. -/
def assemble (combine : Bool) (prev : Fragment) : List Fragment → Option (List Fragment)
  | [] => some [prev]
  | curr :: ps =>
    match place combine prev curr with
    | .overlap => none
    | .exit => none
    | .joined => assemble combine { prev with size := prev.size + curr.size } ps
    | .separate => (assemble combine curr ps).map (prev :: ·)

def assembleAll (combine : Bool) : List Fragment → Option (List Fragment)
  | [] => some [Fragment.cleared]
  | p :: ps => assemble combine p ps

section
variable {mem : Memory} {h : WalkHelper} {va : BitVec 64} (combine : Bool) (s : RangeState)

theorem body_first {p : Fragment} {c : Cursor} (first : s.count = 0)
    (more : s.cursor.addr < va + s.cursor.size) (walk : s.cursor.advance mem h = some (p, c)) :
    translateRangeBody mem h va combine s = .again ⟨c, s.nodes, 1, p⟩ := by
  simp only [translateRangeBody, if_pos more, walk, first, if_true, Nat.zero_add]

theorem body_later {p : Fragment} {c : Cursor} (later : s.count ≠ 0)
    (more : s.cursor.addr < va + s.cursor.size) (walk : s.cursor.advance mem h = some (p, c)) :
    translateRangeBody mem h va combine s =
      match place combine s.prev p with
      | .overlap => .leave .failed
      | .exit => .leave .exited
      | .joined =>
        .again ⟨c, s.nodes, s.count + 1, { s.prev with size := s.prev.size + p.size }⟩
      | .separate => .again ⟨c, s.nodes ++ [s.prev], s.count + 1, p⟩ := by
  simp only [translateRangeBody, if_pos more, walk, if_neg later]

theorem body_failed (more : s.cursor.addr < va + s.cursor.size)
    (walk : s.cursor.advance mem h = none) :
    translateRangeBody mem h va combine s = .leave .failed := by
  simp only [translateRangeBody, if_pos more, walk]

theorem body_done (finished : ¬s.cursor.addr < va + s.cursor.size) :
    translateRangeBody mem h va combine s = .leave (.list (s.nodes ++ [s.prev])) := by
  simp only [translateRangeBody, if_neg finished]

end

inductive RangeTurn (mem : Memory) (h : WalkHelper) (va : BitVec 64) (combine : Bool)
    (s : RangeState) : Turn RangeState RangeResult → Prop
  | finished (finished : ¬s.cursor.addr < va + s.cursor.size) :
      RangeTurn mem h va combine s (.leave (.list (s.nodes ++ [s.prev])))
  | unwalked (more : s.cursor.addr < va + s.cursor.size) (walk : s.cursor.advance mem h = none) :
      RangeTurn mem h va combine s (.leave .failed)
  | first {p : Fragment} {c : Cursor} (more : s.cursor.addr < va + s.cursor.size)
      (walk : s.cursor.advance mem h = some (p, c)) (first : s.count = 0) :
      RangeTurn mem h va combine s (.again ⟨c, s.nodes, 1, p⟩)
  | overlap {p : Fragment} {c : Cursor} (more : s.cursor.addr < va + s.cursor.size)
      (walk : s.cursor.advance mem h = some (p, c)) (later : s.count ≠ 0)
      (placed : place combine s.prev p = .overlap) : RangeTurn mem h va combine s (.leave .failed)
  | exit {p : Fragment} {c : Cursor} (more : s.cursor.addr < va + s.cursor.size)
      (walk : s.cursor.advance mem h = some (p, c)) (later : s.count ≠ 0)
      (placed : place combine s.prev p = .exit) : RangeTurn mem h va combine s (.leave .exited)
  | joined {p : Fragment} {c : Cursor} (more : s.cursor.addr < va + s.cursor.size)
      (walk : s.cursor.advance mem h = some (p, c)) (later : s.count ≠ 0)
      (placed : place combine s.prev p = .joined) : RangeTurn mem h va combine s
        (.again ⟨c, s.nodes, s.count + 1, { s.prev with size := s.prev.size + p.size }⟩)
  | separate {p : Fragment} {c : Cursor} (more : s.cursor.addr < va + s.cursor.size)
      (walk : s.cursor.advance mem h = some (p, c)) (later : s.count ≠ 0)
      (placed : place combine s.prev p = .separate) :
      RangeTurn mem h va combine s (.again ⟨c, s.nodes ++ [s.prev], s.count + 1, p⟩)

theorem range_turn {mem : Memory} {h : WalkHelper} {va : BitVec 64} {combine : Bool}
    (s : RangeState) : RangeTurn mem h va combine s (translateRangeBody mem h va combine s) := by
  by_cases more : s.cursor.addr < va + s.cursor.size
  · cases walk : s.cursor.advance mem h with
    | none =>
      rw [body_failed combine s more walk]
      exact .unwalked more walk
    | some walked =>
      obtain ⟨p, c⟩ := walked
      by_cases first : s.count = 0
      · rw [body_first combine s first more walk]
        exact .first more walk first
      · rw [body_later combine s first more walk]
        cases placed : place combine s.prev p with
        | overlap => exact .overlap more walk first placed
        | exit => exact .exit more walk first placed
        | joined => exact .joined more walk first placed
        | separate => exact .separate more walk first placed
  · rw [body_done combine s more]
    exact .finished more

section
variable {mem : Memory} {h : WalkHelper} {va : BitVec 64} {combine : Bool}

theorem walked_of_ends {s : RangeState} {fs : List Fragment} (later : s.count ≠ 0)
    (ends : Ends (translateRangeBody mem h va combine) s (.list fs)) :
    ∃ ps gs, Walked mem h va s.cursor ps ∧ assemble combine s.prev ps = some gs ∧
      fs = s.nodes ++ gs := by
  obtain ⟨fuel, run⟩ := ends
  induction fuel generalizing s with
  | zero => cases run
  | succ fuel ih =>
    have shape := @range_turn mem h va combine s
    cases turn : translateRangeBody mem h va combine s with
    | leave result =>
      rw [run_leave turn] at run
      cases run
      rw [turn] at shape
      cases shape with
      | finished finished => exact ⟨[], [s.prev], .done finished, rfl, rfl⟩
    | again t =>
      rw [run_again turn] at run
      rw [turn] at shape
      cases shape with
      | first _ _ first => exact absurd first later
      | @joined p c more walk _ placed =>
        obtain ⟨ps, gs, rest, made, rfl⟩ := ih (Nat.succ_ne_zero _) run
        exact ⟨p :: ps, gs, .page more walk rest, by rw [assemble, placed]; exact made, rfl⟩
      | @separate p c more walk _ placed =>
        obtain ⟨ps, gs, rest, made, rfl⟩ := ih (Nat.succ_ne_zero _) run
        refine ⟨p :: ps, s.prev :: gs, .page more walk rest, ?_, List.append_assoc ..⟩
        rw [assemble, placed]
        exact congrArg (Option.map (s.prev :: ·)) made

theorem ends_of_walked {c : Cursor} {ps gs : List Fragment} (walked : Walked mem h va c ps)
    (nodes : List Fragment) {count : Nat} {prev : Fragment} (later : count ≠ 0)
    (made : assemble combine prev ps = some gs) :
    Ends (translateRangeBody mem h va combine) ⟨c, nodes, count, prev⟩ (.list (nodes ++ gs)) := by
  induction walked generalizing nodes count prev gs with
  | done finished =>
    cases made
    exact (Ends.leave (body_done combine _ finished)).mpr rfl
  | page more walk rest ih =>
    rename_i p ps
    have turn := body_later combine ⟨_, nodes, count, prev⟩ later more walk
    unfold assemble at made
    cases placed : place combine prev p with
    | overlap =>
      rw [placed] at made
      cases made
    | exit =>
      rw [placed] at made
      cases made
    | joined =>
      rw [placed] at made
      exact (Ends.again (turn.trans (by rw [placed]))).mpr (ih nodes (Nat.succ_ne_zero _) made)
    | separate =>
      simp only [placed, Option.map_eq_some_iff] at made
      obtain ⟨gs, made, rfl⟩ := made
      have next := ih (nodes ++ [prev]) (Nat.succ_ne_zero count) made
      rw [List.append_assoc] at next
      exact (Ends.again (turn.trans (by rw [placed]))).mpr next

end

theorem translateRange_list_iff (mem : Memory) (r : Registers) (va size : BitVec 64)
    (combine : Bool) (fs : List Fragment) :
    siftXlatorTranslateRange mem r va size combine (.list fs) ↔
      ∃ ps, Walked mem (populateWalkHelper r) va ⟨PdeCache.cleared, va, size⟩ ps ∧
        assembleAll combine ps = some fs := by
  unfold siftXlatorTranslateRange rangeStart
  constructor
  · intro ends
    by_cases more : va < va + size
    · cases walk : Cursor.advance mem (populateWalkHelper r) ⟨PdeCache.cleared, va, size⟩ with
      | none =>
        have left := (Ends.leave (body_failed combine (rangeStart va size) more walk)).mp ends
        cases left
      | some walked =>
        obtain ⟨p, c⟩ := walked
        have turn := body_first combine (rangeStart va size) rfl more walk
        obtain ⟨ps, gs, rest, made, rfl⟩ := walked_of_ends one_ne_zero ((Ends.again turn).mp ends)
        exact ⟨p :: ps, .page more walk rest, made⟩
    · have left := (Ends.leave (body_done combine (rangeStart va size) more)).mp ends
      cases left
      exact ⟨[], .done more, rfl⟩
  · rintro ⟨ps, walked, made⟩
    cases walked with
    | done finished =>
      cases made
      exact (Ends.leave (body_done combine (rangeStart va size) finished)).mpr rfl
    | page more walk rest =>
      have turn := body_first combine (rangeStart va size) rfl more walk
      exact (Ends.again turn).mpr (ends_of_walked rest [] one_ne_zero made)

end Rocsift.Xlator
