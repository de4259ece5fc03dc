import Rocsift.Xlator.RangeRuns
import Rocsift.Xlator.RangeStore

/-! What a range translation leaves on the heap. Its run is that of the loop without a heap, with
the fragments listed so far in nodes one behind the other, until an allocation fails. Each way out
has a cleanup of its own: all nodes are freed at an overlap, the head alone where a further node
cannot be allocated, and none where a walk fails. -/
namespace Rocsift.Xlator
open Looping
open Blocks (Store Fault)

def listed (start : Store FragmentNode) (fs : List Fragment) : Store FragmentNode where
  cells i :=
    if i < start.calls then start.cells i
    else fs[i - start.calls]?.map fun f =>
      ⟨f, if i + 1 < start.calls + fs.length then some (i + 1) else none⟩
  calls := start.calls + fs.length
  fresh i le := by
    have behind : fs.length ≤ i - start.calls := by omega
    rw [if_neg (by omega), List.getElem?_eq_none behind]
    rfl

def stored (start : Store FragmentNode) (s : RangeState) : StoreState where
  cursor := s.cursor
  count := s.count
  prev := s.prev
  head := if s.nodes = [] then none else some start.calls
  node := if s.nodes = [] then none else some (start.calls + (s.nodes.length - 1))
  heap := listed start s.nodes

/-- The heap after an allocation that failed: of a list that there is, the head is freed. -/
def headFreed (start : Store FragmentNode) (fs : List Fragment) : Store FragmentNode :=
  if fs = [] then (listed start fs).skip else (listed start fs).skip.without [start.calls]

section
variable {start : Store FragmentNode} {fs : List Fragment}

theorem listed_nil : listed start [] = start := by
  ext i
  · simp only [listed, List.getElem?_nil, Option.map_none]
    split
    · rfl
    · rw [start.fresh i (by omega)]
  · rfl

theorem listed_cells (k : Nat) : (listed start fs).cells (start.calls + k) = fs[k]?.map fun f =>
    ⟨f, if k + 1 < fs.length then some (start.calls + k + 1) else none⟩ := by
  have behind : ¬start.calls + k < start.calls := by omega
  have index : start.calls + k - start.calls = k := by omega
  have next : (start.calls + k + 1 < start.calls + fs.length) = (k + 1 < fs.length) := by
    simp only [Nat.add_assoc, Nat.add_lt_add_iff_left]
  simp only [listed, if_neg behind, index, next]

theorem listed_old {i : Nat} (old : i < start.calls) : (listed start fs).cells i = start.cells i :=
  if_pos old

theorem eq_listed {t : Store FragmentNode} (calls : t.calls = start.calls + fs.length)
    (old : ∀ i < start.calls, t.cells i = start.cells i)
    (new : ∀ k, t.cells (start.calls + k) = fs[k]?.map fun f =>
      ⟨f, if k + 1 < fs.length then some (start.calls + k + 1) else none⟩) :
    t = listed start fs := by
  refine Store.ext (funext fun i => ?_) calls
  rcases Nat.lt_or_ge i start.calls with before | behind
  · simp only [old i before, listed_old before]
  · obtain ⟨k, rfl⟩ := Nat.exists_eq_add_of_le behind
    simp only [new, listed_cells]

theorem add_listed (p : Fragment) : start.add ⟨p, none⟩ = listed start [p] := by
  apply eq_listed rfl
  · intro i old
    simp only [Store.add_cells, if_neg (Nat.ne_of_lt old)]
  · intro k
    cases k with
    | zero => exact Store.add_self _
    | succ k =>
      rw [Store.add_cells, if_neg (by omega), start.fresh _ (Nat.le_add_right _ _)]
      rfl

theorem snoc_listed (gs : List Fragment) (q p : Fragment) :
    ((listed start (gs ++ [q])).add ⟨p, none⟩).put (start.calls + gs.length)
      (some ⟨q, some (start.calls + (gs.length + 1))⟩) = listed start (gs ++ [q] ++ [p]) := by
  have length : (gs ++ [q]).length = gs.length + 1 := List.length_append
  have total : (gs ++ [q] ++ [p]).length = gs.length + 2 := by
    simp only [List.length_append, length, List.length_singleton]
  have calls : (listed start (gs ++ [q])).calls = start.calls + (gs.length + 1) :=
    congrArg (start.calls + ·) length
  have last : (listed start (gs ++ [q])).cells (start.calls + gs.length) = some ⟨q, none⟩ := by
    rw [listed_cells, List.getElem?_concat_length, Option.map_some, if_neg (by omega)]
  have cells := Store.put_cells (Store.add_other last ⟨p, none⟩)
    (some ⟨q, some (start.calls + (gs.length + 1))⟩)
  apply eq_listed
  · exact (congrArg (· + 1) calls).trans (congrArg (start.calls + ·) total.symm)
  · intro i old
    rw [cells, if_neg (by omega), Store.add_cells, if_neg (by omega), listed_old old]
  · intro k
    simp only [cells, Store.add_cells, calls, listed_cells, length, total]
    rcases Nat.lt_trichotomy k gs.length with before | rfl | behind
    · have same : (gs ++ [q] ++ [p])[k]? = (gs ++ [q])[k]? :=
        List.getElem?_append_left (by omega)
      rw [if_neg (by omega), if_neg (by omega), same]
      simp only [show k + 1 < gs.length + 1 by omega, show k + 1 < gs.length + 2 by omega]
    · have here : (gs ++ [q] ++ [p])[gs.length]? = some q := by
        rw [List.getElem?_append_left (by omega), List.getElem?_concat_length]
      rw [if_pos rfl, here, Option.map_some, if_pos (by omega), Nat.add_assoc]
    · rw [if_neg (by omega), List.getElem?_eq_none (by omega)]
      rcases Nat.lt_or_eq_of_le (Nat.succ_le_of_lt behind) with far | rfl
      · rw [if_neg (by omega), List.getElem?_eq_none (by omega)]
        rfl
      · have here : (gs ++ [q] ++ [p])[gs.length + 1]? = some p := by
          rw [← length, List.getElem?_concat_length]
        rw [if_pos (by omega), Nat.succ_eq_add_one, here, Option.map_some, if_neg (by omega)]

theorem listed_chain (m k : Nat) (whole : k + m = fs.length) :
    (listed start fs).Chain FragmentNode.next
      (if m = 0 then none else some (start.calls + k)) (List.range' (start.calls + k) m) none := by
  induction m generalizing k with
  | zero => rfl
  | succ m ih =>
    have rest := ih (k + 1) (by omega)
    obtain ⟨f, found⟩ : ∃ f, fs[k]? = some f := ⟨fs[k], List.getElem?_eq_getElem (by omega)⟩
    simp only [if_neg (Nat.succ_ne_zero m), List.range'_succ]
    refine ⟨rfl, _, by rw [listed_cells, found]; rfl, ?_⟩
    have next : (if k + 1 < fs.length then some (start.calls + k + 1) else none) =
        if m = 0 then none else some (start.calls + (k + 1)) := by
      split <;> split <;> first | rfl | omega
    simp only [next]
    exact rest

theorem listed_without (i : Nat) :
    ((listed start fs).without (List.range' start.calls fs.length)).cells i = start.cells i := by
  simp only [Store.without, List.mem_range'_1]
  rcases Nat.lt_or_ge i start.calls with old | new
  · rw [if_neg (by omega), listed_old old]
  · rw [start.fresh i new]
    split
    · rfl
    · exact (listed start fs).fresh i (by simp only [listed]; omega)

end

section
variable {start : Store FragmentNode} {s : RangeState} {supply : Nat → Bool}

theorem destroy_stored : ∃ heap,
    siftXlatorFragmentListDestroy (stored start s).head (listed start s.nodes) = .ok heap ∧
      heap.cells = start.cells := by
  have chain := @listed_chain start s.nodes s.nodes.length 0 (Nat.zero_add _)
  have short :
      (List.range' start.calls s.nodes.length).length ≤ (listed start s.nodes).calls + 1 := by
    rw [List.length_range']
    exact Nat.le_succ_of_le (Nat.le_add_left _ _)
  have head : (stored start s).head =
      if s.nodes.length = 0 then none else some (start.calls + 0) := by
    simp only [stored, List.length_eq_zero_iff, Nat.add_zero]
  rw [head]
  exact ⟨_, Store.freeChain_ok chain (List.nodup_range' _) short, funext listed_without⟩

theorem emit_stored (memory : supply (start.calls + s.nodes.length) = true) :
    emit supply (stored start s) = .ok
      (some (start.calls, start.calls + s.nodes.length), listed start (s.nodes ++ [s.prev])) := by
  have calls : (listed start s.nodes).calls = start.calls + s.nodes.length := rfl
  rcases List.eq_nil_or_concat' s.nodes with empty | ⟨gs, q, nodes⟩
  · rw [empty, List.length_nil, Nat.add_zero] at memory
    simp only [emit, stored, empty, if_true, listed_nil, memory, Store.malloc, add_listed,
      List.nil_append, List.length_nil, Nat.add_zero]
  · have some_node : s.nodes ≠ [] := nodes ▸ List.append_ne_nil_of_right_ne_nil gs nofun
    have last : (listed start s.nodes).cells (start.calls + gs.length) = some ⟨q, none⟩ := by
      rw [nodes, listed_cells, List.getElem?_concat_length, Option.map_some, if_neg]
      simp
    have length : s.nodes.length = gs.length + 1 := by
      simp only [nodes, List.length_append, List.length_singleton]
    rw [length] at memory calls
    simp only [emit, stored, if_neg some_node, calls, memory, Store.malloc, if_true, linkNode,
      length, Nat.add_sub_cancel, bind, Except.bind, pure, Except.pure,
      Store.load_ok (Store.add_other last _), Store.write_ok (Store.add_other last _)]
    simp only [nodes, snoc_listed]

theorem emit_failed (memory : supply (start.calls + s.nodes.length) = false) :
    emit supply (stored start s) = .ok (none, headFreed start s.nodes) := by
  have calls : (listed start s.nodes).calls = start.calls + s.nodes.length := rfl
  by_cases empty : s.nodes = []
  · rw [empty, List.length_nil, Nat.add_zero] at memory
    simp only [emit, stored, empty, if_true, listed_nil, memory, Store.malloc, headFreed,
      Bool.false_eq_true, if_false]
  · obtain ⟨f, fs, nodes⟩ := List.exists_cons_of_ne_nil empty
    have first : (listed start s.nodes).skip.cells start.calls ≠ none := by
      rw [nodes]
      exact fun none => nomatch (@listed_cells start (f :: fs) 0).symm.trans none
    obtain ⟨v, found⟩ := Option.ne_none_iff_exists'.mp first
    simp only [emit, stored, if_neg empty, calls, memory, Store.malloc, headFreed,
      Bool.false_eq_true, if_false, Store.free_ok found, bind, Except.bind, pure, Except.pure]

end

section
variable (supply : Nat → Bool) (mem : Memory) (h : WalkHelper) (va : BitVec 64) (combine : Bool)
  (list : Option Nat) (start : Store FragmentNode)

def Emits (s : RangeState) : Prop :=
  s.cursor.addr < va + s.cursor.size → ∃ p c, s.cursor.advance mem h = some (p, c) ∧
    s.count ≠ 0 ∧ place combine s.prev p = .separate

def Stops (s : RangeState) : Prop :=
  s.cursor.addr < va + s.cursor.size ∧ ∃ p c, s.cursor.advance mem h = some (p, c) ∧
    s.count ≠ 0 ∧ (place combine s.prev p = .overlap ∨ place combine s.prev p = .exit)

inductive StoredTurn (s : RangeState) : Turn StoreState (Except Fault Returned) → Prop
  | again {t : RangeState} (turn : translateRangeBody mem h va combine s = .again t)
      (memory : Emits mem h va combine s → supply (start.calls + s.nodes.length) = true) :
      StoredTurn s (.again (stored start t))
  | unwalked (more : s.cursor.addr < va + s.cursor.size) (walk : s.cursor.advance mem h = none) :
      StoredTurn s (.leave (.ok ⟨.failed, list, listed start s.nodes⟩))
  | overlap {heap : Store FragmentNode} (stops : Stops mem h va combine s)
      (freed : heap.cells = start.cells) : StoredTurn s (.leave (.ok ⟨.failed, list, heap⟩))
  | exit (stops : Stops mem h va combine s) :
      StoredTurn s (.leave (.ok ⟨.exited, list, listed start s.nodes⟩))
  | no_memory (emits : Emits mem h va combine s)
      (fails : supply (start.calls + s.nodes.length) = false) :
      StoredTurn s (.leave (.ok ⟨.failed, list, headFreed start s.nodes⟩))
  | success {head : Option Nat} {heap : Store FragmentNode}
      (finished : ¬s.cursor.addr < va + s.cursor.size)
      (memory : supply (start.calls + s.nodes.length) = true) :
      StoredTurn s (.leave (.ok ⟨.success, head, heap⟩))

variable {mem h va combine} in
theorem Emits.separate {s : RangeState} (emits : Emits mem h va combine s) {p : Fragment}
    {c : Cursor} (more : s.cursor.addr < va + s.cursor.size)
    (walk : s.cursor.advance mem h = some (p, c)) :
    s.count ≠ 0 ∧ place combine s.prev p = .separate := by
  obtain ⟨q, d, walk', later, apart⟩ := emits more
  cases walk.symm.trans walk'
  exact ⟨later, apart⟩

theorem stored_turn (s : RangeState) : StoredTurn supply mem h va combine list start s
    (translateRangeOnBody supply mem h va combine list (stored start s)) := by
  have cursor : (stored start s).cursor = s.cursor := rfl
  have count : (stored start s).count = s.count := rfl
  have prev : (stored start s).prev = s.prev := rfl
  have shape := @range_turn mem h va combine s
  generalize turn : translateRangeBody mem h va combine s = t at shape
  cases shape with
  | finished finished =>
    have emits : Emits mem h va combine s := fun more => absurd more finished
    cases memory : supply (start.calls + s.nodes.length) with
    | false =>
      simp only [translateRangeOnBody, cursor, if_neg finished, emit_failed memory]
      exact .no_memory emits memory
    | true =>
      simp only [translateRangeOnBody, cursor, if_neg finished, emit_stored memory]
      exact .success finished memory
  | unwalked more walk =>
    simp only [translateRangeOnBody, cursor, if_pos more, walk]
    exact .unwalked more walk
  | first more walk first =>
    simp only [translateRangeOnBody, cursor, count, if_pos more, walk, first, if_true]
    exact .again turn fun emits => absurd first (emits.separate more walk).1
  | @overlap p c more walk later placed =>
    obtain ⟨heap, destroyed, freed⟩ := @destroy_stored start s
    have held : (stored start s).heap = listed start s.nodes := rfl
    simp only [translateRangeOnBody, cursor, count, prev, if_pos more, walk, if_neg later, placed,
      held, destroyed]
    exact .overlap ⟨more, p, c, walk, later, Or.inl placed⟩ freed
  | @exit p c more walk later placed =>
    simp only [translateRangeOnBody, cursor, count, prev, if_pos more, walk, if_neg later, placed]
    exact .exit ⟨more, p, c, walk, later, Or.inr placed⟩
  | joined more walk later placed =>
    simp only [translateRangeOnBody, cursor, count, prev, if_pos more, walk, if_neg later, placed]
    exact .again turn fun emits => nomatch placed.symm.trans (emits.separate more walk).2
  | @separate p c more walk later placed =>
    have emits : Emits mem h va combine s := fun _ => ⟨p, c, walk, later, placed⟩
    simp only [translateRangeOnBody, cursor, count, prev, if_pos more, walk, if_neg later, placed]
    cases memory : supply (start.calls + s.nodes.length) with
    | false =>
      rw [emit_failed memory]
      exact .no_memory emits memory
    | true =>
      have made : stored start ⟨c, s.nodes ++ [s.prev], s.count + 1, p⟩ =
          ⟨c, s.count + 1, p, some start.calls, some (start.calls + s.nodes.length),
            listed start (s.nodes ++ [s.prev])⟩ := by
        have filled : s.nodes ++ [s.prev] ≠ [] := List.append_ne_nil_of_right_ne_nil _ nofun
        simp only [stored, if_neg filled, List.length_append, List.length_singleton,
          Nat.add_sub_cancel]
      rw [emit_stored memory]
      simp only [← made]
      exact .again turn fun _ => memory

end

section
variable (supply : Nat → Bool) (mem : Memory) (r : Registers) (va size : BitVec 64)
  (combine : Bool) (list : Option Nat) (start : Store FragmentNode)

def Supplied (s : RangeState) : Prop :=
  ∀ k < s.nodes.length, supply (start.calls + k) = true

/-- However a call ends, it touches no freed node and frees none twice; and if it fails, no node
that it made is left, the others are as they were, and so is the caller's pointer. -/
def CleanFailures : Prop :=
  ∀ result, siftXlatorTranslateRangeOn supply mem r va size combine list start result →
    ∃ returned, result = .ok returned ∧ (returned.status = .failed →
      returned.heap.cells = start.cells ∧ returned.list = list)

/-- No walk fails behind a node that has been made, and no allocation fails behind two. -/
def TidyTurns : Prop :=
  ∀ s, RangeReached mem r va size combine s → Supplied supply start s →
    (s.cursor.addr < va + s.cursor.size →
      s.cursor.advance mem (populateWalkHelper r) = none → s.nodes = []) ∧
    (Emits mem (populateWalkHelper r) va combine s →
      supply (start.calls + s.nodes.length) = false → s.nodes.length ≤ 1)

end

section
variable {supply : Nat → Bool} {mem : Memory} {r : Registers} {va size : BitVec 64}
  {combine : Bool} {list : Option Nat} {start : Store FragmentNode} {fs : List Fragment}

theorem supplied_again {s t : RangeState} (supplied : Supplied supply start s)
    (turn : translateRangeBody mem (populateWalkHelper r) va combine s = .again t)
    (memory : Emits mem (populateWalkHelper r) va combine s →
      supply (start.calls + s.nodes.length) = true) : Supplied supply start t := by
  obtain ⟨more, p, c, walk, ⟨-, rfl⟩ | ⟨-, -, rfl⟩ | ⟨later, placed, rfl⟩⟩ := body_again turn
  · exact supplied
  · exact supplied
  · intro k less
    have length : (s.nodes ++ [s.prev]).length = s.nodes.length + 1 := List.length_append
    rcases Nat.lt_or_eq_of_le (Nat.le_of_lt_succ (Nat.lt_of_lt_of_eq less length)) with old | rfl
    · exact supplied k old
    · exact memory fun _ => ⟨p, c, walk, later, placed⟩

theorem supplied_back {s t : RangeState} (supplied : Supplied supply start t)
    (turn : translateRangeBody mem (populateWalkHelper r) va combine s = .again t) :
    Supplied supply start s ∧ (Emits mem (populateWalkHelper r) va combine s →
      supply (start.calls + s.nodes.length) = true) := by
  obtain ⟨more, p, c, walk, ⟨first, rfl⟩ | ⟨-, placed, rfl⟩ | ⟨-, -, rfl⟩⟩ := body_again turn
  · exact ⟨supplied, fun emits => absurd first (emits.separate more walk).1⟩
  · exact ⟨supplied, fun emits => nomatch placed.symm.trans (emits.separate more walk).2⟩
  · have length : (s.nodes ++ [s.prev]).length = s.nodes.length + 1 := List.length_append
    constructor
    · intro k less
      exact supplied k (Nat.lt_of_lt_of_eq (Nat.lt_succ_of_lt less) length.symm)
    · intro _
      exact supplied s.nodes.length (Nat.lt_of_lt_of_eq (Nat.lt_succ_self _) length.symm)

theorem Stops.leaves {s t : RangeState} (stops : Stops mem (populateWalkHelper r) va combine s) :
    translateRangeBody mem (populateWalkHelper r) va combine s ≠ .again t ∧
      ¬Emits mem (populateWalkHelper r) va combine s := by
  obtain ⟨more, p, c, walk, later, placed⟩ := stops
  constructor
  · intro turn
    rw [body_later combine s later more walk] at turn
    rcases placed with overlap | exit
    · rw [overlap] at turn
      cases turn
    · rw [exit] at turn
      cases turn
  · intro emits
    have apart := (emits.separate more walk).2
    rcases placed with overlap | exit
    · cases overlap.symm.trans apart
    · cases exit.symm.trans apart

theorem Stops.tidy {s : RangeState} {P Q : Prop}
    (stops : Stops mem (populateWalkHelper r) va combine s) :
    (s.cursor.addr < va + s.cursor.size →
      s.cursor.advance mem (populateWalkHelper r) = none → P) ∧
    (Emits mem (populateWalkHelper r) va combine s → Q) := by
  constructor
  · intro _ failed
    obtain ⟨-, _, _, walk, -⟩ := stops
    cases failed.symm.trans walk
  · exact fun emits => absurd emits (stops.leaves (t := s)).2

theorem stored_start : stored start (rangeStart va size) = storeStart va size start := by
  simp only [stored, rangeStart, storeStart, if_true, listed_nil]

theorem store_reaches_iff {u : StoreState} :
    Reaches (translateRangeOnBody supply mem (populateWalkHelper r) va combine list)
      (storeStart va size start) u ↔
      ∃ s, RangeReached mem r va size combine s ∧ Supplied supply start s ∧ u = stored start s := by
  constructor
  · intro reached
    induction reached with
    | refl => exact ⟨_, .refl, fun _ none => absurd none (Nat.not_lt_zero _), stored_start.symm⟩
    | tail _ step ih =>
      obtain ⟨s, reached, supplied, rfl⟩ := ih
      have turn := stored_turn supply mem (populateWalkHelper r) va combine list start s
      rw [step] at turn
      cases turn with
      | again turn memory =>
        exact ⟨_, reached.tail turn, supplied_again supplied turn memory, rfl⟩
  · rintro ⟨s, reached, supplied, rfl⟩
    induction reached with
    | refl => exact stored_start ▸ .refl
    | @tail s t _ turn ih =>
      obtain ⟨before, memory⟩ := supplied_back supplied turn
      obtain ⟨more, p, c, walk, -⟩ := body_again turn
      have shape := stored_turn supply mem (populateWalkHelper r) va combine list start s
      refine (ih before).tail ?_
      unfold Goes
      generalize translateRangeOnBody supply mem (populateWalkHelper r) va combine list
        (stored start s) = turned at shape ⊢
      cases shape with
      | again turn' _ =>
        cases turn.symm.trans turn'
        rfl
      | unwalked _ failed => cases walk.symm.trans failed
      | overlap stops _ => exact absurd turn stops.leaves.1
      | exit stops => exact absurd turn stops.leaves.1
      | no_memory emits fails => cases fails.symm.trans (memory emits)
      | success finished _ => exact absurd more finished

theorem headFreed_cells_iff (fs : List Fragment) :
    (headFreed start fs).cells = start.cells ↔ fs.length ≤ 1 := by
  cases fs with
  | nil =>
    refine iff_of_true ?_ (Nat.zero_le 1)
    rw [headFreed, if_pos rfl, Store.skip_cells, listed_nil]
  | cons f fs =>
    simp only [headFreed, if_neg (List.cons_ne_nil f fs)]
    constructor
    · intro same
      by_contra more
      obtain ⟨g, gs, rfl⟩ := List.exists_cons_of_ne_nil (l := fs) (by rintro rfl; exact more le_rfl)
      have other : start.calls + 1 ∉ [start.calls] := by simp
      have second := @listed_cells start (f :: g :: gs) 1
      rw [← Store.skip_cells, ← Store.without_cells other, same,
        start.fresh _ (Nat.le_succ _)] at second
      cases second
    · intro one
      obtain rfl : fs = [] :=
        List.length_eq_zero_iff.mp (Nat.le_zero.mp (Nat.le_of_succ_le_succ one))
      funext i
      by_cases head : i = start.calls
      · rw [head, Store.without_freed (List.mem_singleton.mpr rfl), start.fresh _ (Nat.le_refl _)]
      · simp only [Store.without_cells (mt List.mem_singleton.mp head), Store.skip_cells]
        rcases Nat.lt_or_ge i start.calls with old | new
        · exact listed_old old
        · rw [start.fresh i new]
          exact (listed start [f]).fresh i (by simp only [listed, List.length_singleton]; omega)

theorem listed_cells_eq (same : (listed start fs).cells = start.cells) : fs = [] := by
  cases fs with
  | nil => rfl
  | cons f fs =>
    have first := @listed_cells start (f :: fs) 0
    rw [same, Nat.add_zero, start.fresh _ (Nat.le_refl _)] at first
    cases first

theorem StoredTurn.tidy {s : RangeState} {turned : Turn StoreState (Except Fault Returned)}
    (shape : StoredTurn supply mem (populateWalkHelper r) va combine list start s turned)
    (clean : ∀ heap, turned = .leave (.ok ⟨.failed, list, heap⟩) → heap.cells = start.cells) :
    (s.cursor.addr < va + s.cursor.size →
      s.cursor.advance mem (populateWalkHelper r) = none → s.nodes = []) ∧
    (Emits mem (populateWalkHelper r) va combine s →
      supply (start.calls + s.nodes.length) = false → s.nodes.length ≤ 1) := by
  cases shape with
  | again turn memory =>
    obtain ⟨p, walk⟩ := cursor_again turn
    constructor
    · intro _ failed
      cases walk.symm.trans failed
    · intro emits fails
      cases fails.symm.trans (memory emits)
  | unwalked more failed =>
    constructor
    · exact fun _ _ => listed_cells_eq (clean _ rfl)
    · intro emits
      obtain ⟨_, _, walk, -⟩ := emits more
      cases failed.symm.trans walk
  | overlap stops _ => exact stops.tidy
  | exit stops => exact stops.tidy
  | no_memory emits fails =>
    constructor
    · intro more failed
      obtain ⟨_, _, walk, -⟩ := emits more
      cases failed.symm.trans walk
    · exact fun _ _ => (headFreed_cells_iff _).mp (clean _ rfl)
  | success finished memory =>
    constructor
    · exact fun more => absurd more finished
    · intro _ fails
      cases fails.symm.trans memory

theorem StoredTurn.clean {s : RangeState} {result : Except Fault Returned}
    (shape : StoredTurn supply mem (populateWalkHelper r) va combine list start s (.leave result))
    (walks : s.cursor.addr < va + s.cursor.size →
      s.cursor.advance mem (populateWalkHelper r) = none → s.nodes = [])
    (memory : Emits mem (populateWalkHelper r) va combine s →
      supply (start.calls + s.nodes.length) = false → s.nodes.length ≤ 1) :
    ∃ returned, result = .ok returned ∧ (returned.status = .failed →
      returned.heap.cells = start.cells ∧ returned.list = list) := by
  cases shape with
  | unwalked more failed =>
    have freed : (listed start s.nodes).cells = start.cells := by
      simp only [walks more failed, listed_nil]
    exact ⟨_, rfl, fun _ => ⟨freed, rfl⟩⟩
  | overlap _ freed => exact ⟨_, rfl, fun _ => ⟨freed, rfl⟩⟩
  | exit => exact ⟨_, rfl, fun failed => nomatch failed⟩
  | no_memory emits fails =>
    exact ⟨_, rfl, fun _ => ⟨(headFreed_cells_iff _).mpr (memory emits fails), rfl⟩⟩
  | success => exact ⟨_, rfl, fun failed => nomatch failed⟩

theorem clean_failures_iff (supply : Nat → Bool) (mem : Memory) (r : Registers)
    (va size : BitVec 64) (combine : Bool) (list : Option Nat) (start : Store FragmentNode) :
    CleanFailures supply mem r va size combine list start ↔
      TidyTurns supply mem r va size combine start := by
  unfold CleanFailures siftXlatorTranslateRangeOn
  simp only [ends_iff_reaches]
  constructor
  · intro clean s reached supplied
    have there := (@store_reaches_iff supply mem r va size combine list start _).mpr
      ⟨s, reached, supplied, rfl⟩
    apply (stored_turn supply mem (populateWalkHelper r) va combine list start s).tidy
    intro heap left
    obtain ⟨_, same, kept⟩ := clean _ ⟨_, there, left⟩
    cases same
    exact (kept rfl).1
  · rintro tidy result ⟨u, reached, left⟩
    obtain ⟨s, before, supplied, rfl⟩ := store_reaches_iff.mp reached
    obtain ⟨walks, memory⟩ := tidy s before supplied
    have shape := stored_turn supply mem (populateWalkHelper r) va combine list start s
    rw [left] at shape
    exact shape.clean walks memory

end

/-- The walk of the third page fails: the node of the first is left. -/
theorem failed_walk_leaves_node :
    let mem := systemMemory
      [(0x5000#64, 0x6003#64), (0x6008#64, 0x9003#64), (0x6010#64, 0xb003#64),
        (0x6018#64, 0x100000000000001#64)]
    ¬CleanFailures (fun _ => true) mem (oneDirectory 0x5003#32) 0x1000#64 0x3000#64 false none
      Store.empty := by
  intro mem clean
  have left : (run (translateRangeOnBody (fun _ => true) mem
      (populateWalkHelper (oneDirectory 0x5003#32)) 0x1000#64 false none) 3
      (storeStart 0x1000#64 0x3000#64 Store.empty)).map (fun result => result.map fun returned =>
        (returned.status, returned.heap.cells 0)) =
      some (.ok (.failed, some ⟨smallPage 0x1000#64 0x9003#64, none⟩)) := by decide +kernel
  obtain ⟨result, ran, shown⟩ := Option.map_eq_some_iff.mp left
  obtain ⟨returned, rfl, kept⟩ := clean result ⟨3, ran⟩
  obtain ⟨status, node⟩ := Prod.mk.inj (Except.ok.inj shown)
  rw [(kept status).1] at node
  cases node

end Rocsift.Xlator
