import Rocsift.Pm4.Series
import Rocsift.Pm4.SeriesRun

/-! How a call of `sift_pm4_parse_runlists` that fails leaves the heap. The catch handler destroys
the current node, and then the list if that node is not its head; the current node is in the list
already when `Parse` throws, and not yet when an allocation fails. -/
namespace Rocsift.Pm4
open Blocks (Store Fault)
open Sift (SiftStatus)

inductive FailurePoint where
  | parse (sections : Nat)
  | series
  | runlist
  | entries
  deriving DecidableEq

/-- Failures that the handler cleans up after. -/
def FailurePoint.Harmless : FailurePoint → Prop
  | .parse sections => sections < 2
  | .runlist => False
  | .series => True
  | .entries => True

section
variable (past : List Dword → Nat → Dword) (supply : Supply)

def failedAllocation (h : Heap) (k : Nat) : Option FailurePoint :=
  if supply.series (h.series.calls + k) = false then some .series
  else if supply.runlist (h.runlists.calls + k) = false then some .runlist
  else if supply.entries (h.entries.calls + k) = false then some .entries
  else none

def failurePoint (h : Heap) : Nat → List Item → Option FailurePoint
  | k, [] => if supply.parse k then none else some (.parse k)
  | k, .overflow :: _ => some (.parse k)
  | k, .found _ data :: is =>
    if supply.parse k then
      match entriesOf past data with
      | none => none
      | some _ => (failedAllocation supply h k).or (failurePoint h (k + 1) is)
    else some (.parse k)

end

def Clean (start : Heap) (p : Progress) : Prop :=
  ∃ g, cleanup p.vars p.heap = .ok g ∧ g.Same start

section
variable {h : Heap} {v : SeriesVars}

/-- The last of several nodes is freed first, and the node before it still points to it. -/
theorem cleanup_follows {r x : Row} {rs : List Row}
    (linked : h.Linked v.runlists (r :: rs ++ [x]) none) (current : v.current = some x.node)
    (apart : (r :: rs ++ [x]).Pairwise Row.Apart) :
    cleanup v h = .error (.dangling x.node) := by
  obtain ⟨_, front, rfl, next, held, rfl⟩ := Heap.linked_append.mp linked
  obtain ⟨early, -, behind⟩ := List.pairwise_append.mp apart
  have freed : (h.without [x]).Linked v.runlists (r :: rs) (some x.node) := by
    apply front.without
    intro s hs t ht
    exact (behind t ht s hs).symm
  have head : v.runlists = some r.node := front.1
  have different := (behind r List.mem_cons_self x List.mem_cons_self).symm.node
  have other : some x.node ≠ some r.node := fun same => different (Option.some.inj same)
  have alone : h.Linked (some x.node) [x] none := ⟨rfl, none, held, rfl⟩
  have gone : (h.without [x]).series.cells x.node = none := Store.without_freed List.mem_cons_self
  rw [head] at freed
  simp only [cleanup, current, head, Heap.destroy_all alone (List.pairwise_singleton _ _),
    Heap.destroy_dangling freed early gone, Except.map, bind, Except.bind, ne_eq,
    reduceCtorEq, not_false_eq_true, other, and_self, if_true]

end

namespace Built
variable {start h g : Heap} {v : SeriesVars} {rows : List Row}

theorem not_made (built : Built start h v rows) : start.series.cells h.series.calls = none := by
  apply start.series.fresh
  rw [built.series]
  exact Nat.le_add_right _ _

theorem destroy_list (built : Built start h v rows) (linked : g.Linked v.runlists rows none) :
    (if v.runlists ≠ none then (siftPm4DestroyRunlists v.runlists g).map Prod.snd else .ok g) =
      .ok (g.without rows) := by
  cases head : v.runlists with
  | none =>
    rw [built.head_iff.mp head, Heap.without_nil]
    rfl
  | some x =>
    rw [head] at linked
    simp only [Heap.destroy_all linked built.apart, Except.map, ne_eq, reduceCtorEq,
      not_false_eq_true, if_true]

theorem cleanup_at (built : Built start h v rows) {f : Heap} {rc : SiftStatus}
    (destroyed : siftPm4DestroyRunlists (some h.series.calls) g = .ok (rc, f))
    (linked : f.Linked v.runlists rows none) :
    cleanup (v.at h.series.calls) g = .ok (f.without rows) := by
  have list := built.destroy_list linked
  rcases Option.eq_none_or_eq_some v.runlists with head | ⟨x, head⟩
  · simp only [head, ne_eq, not_true, if_false] at list
    simp only [cleanup, SeriesVars.at, destroyed, head, Option.none_or, Except.map, bind,
      Except.bind, pure, Except.pure, ne_eq, not_true, and_false, if_false]
    exact list
  · have early : x < h.series.calls := by
      cases rows with
      | nil => exact absurd (head.symm.trans built.linked) (by simp)
      | cons r rs =>
        obtain ⟨first, next, held, -⟩ := built.linked
        rw [Option.some.inj (head.symm.trans first)]
        exact Store.lt_calls held.1
    have other : some h.series.calls ≠ some x := fun same =>
      Nat.ne_of_gt early (Option.some.inj same)
    simp only [head, ne_eq, reduceCtorEq, not_false_eq_true, if_true] at list
    simp only [cleanup, SeriesVars.at, destroyed, head, Option.some_or, Except.map, bind,
      Except.bind, ne_eq, reduceCtorEq, not_false_eq_true, other, and_self, if_true]
    exact list

theorem clean_parse (built : Built start h v rows) :
    Clean start ⟨true, v, h⟩ ↔ rows.length < 2 := by
  obtain ⟨linked, last, current, apart, frame, -, -, -⟩ := built
  rcases List.eq_nil_or_concat' rows with rfl | ⟨rs, x, rfl⟩
  · have none : v.runlists = none := linked
    rw [Heap.without_nil] at frame
    refine iff_of_true ⟨h, ?_, frame⟩ (by decide)
    have free : v.current = .none := current.trans last
    simp only [cleanup, free, none, bind, Except.bind, pure, Except.pure, ne_eq, not_true,
      false_and, if_false]
  · rw [List.getLast?_concat] at last
    have current : v.current = some x.node := current.trans last
    cases rs with
    | nil =>
      have head : v.runlists = some x.node := linked.1
      rw [head] at linked
      refine iff_of_true ⟨_, ?_, frame⟩ Nat.one_lt_two
      simp only [cleanup, current, head, Heap.destroy_all linked apart, Except.map, bind,
        Except.bind, pure, Except.pure, ne_eq, not_true, and_false, if_false]
    | cons r rs =>
      refine iff_of_false ?_ (by simp)
      rintro ⟨g, cleaned, -⟩
      cases (cleanup_follows linked current apart).symm.trans cleaned

theorem clean_series (built : Built start h v rows) (same : g.Same h) :
    Clean start ⟨true, { v with current := none }, g⟩ := by
  refine ⟨g.without rows, ?_, (same.without rows).trans built.frame⟩
  rw [← built.destroy_list (same.linked built.linked)]
  simp only [cleanup, bind, Except.bind, ne_eq]
  cases v.runlists <;> rfl

/-- The current node is kept, because destroying its null runlist is an error. -/
theorem not_clean_runlist (built : Built start h v rows) : ¬ Clean start ⟨true, v.at h.series.calls,
    ⟨h.series.add ⟨none, none⟩, h.runlists.skip, h.entries⟩⟩ := by
  have node := Store.add_self (s := h.series) (⟨none, none⟩ : SeriesNode)
  have destroyed : siftPm4DestroyRunlists (some h.series.calls)
      ⟨h.series.add ⟨none, none⟩, h.runlists.skip, h.entries⟩ =
        .ok (.error, ⟨h.series.add ⟨none, none⟩, h.runlists.skip, h.entries⟩) := by
    simp only [siftPm4DestroyRunlists, destroySeries, Store.load_ok node, siftPm4DestroyRunlist,
      bind, Except.bind, pure, Except.pure, ne_eq, reduceCtorEq, not_false_eq_true, if_true]
  have linked : (⟨h.series.add ⟨none, none⟩, h.runlists.skip, h.entries⟩ : Heap).Linked v.runlists
      rows none := by
    apply built.linked.mono
    rintro r - next ⟨held, others⟩
    exact ⟨Store.add_other held _, others⟩
  rintro ⟨f, cleaned, same⟩
  rw [built.cleanup_at destroyed linked, Except.ok.injEq] at cleaned
  subst cleaned
  have kept : h.series.calls ∉ rows.map Row.node :=
    Heap.notMem_map (r := newRow h ⟨⟨0#32, 0#32⟩, []⟩) fun s hs => (built.apart_new _ s hs).node
  have left := (Store.without_cells kept).trans node
  have gone := (congrFun same.series h.series.calls).trans built.not_made
  cases left.symm.trans gone

theorem clean_entries (built : Built start h v rows) : Clean start ⟨true, v.at h.series.calls,
    ⟨h.series.add ⟨some h.runlists.calls, none⟩, h.runlists.add ⟨⟨0#32, 0#32⟩, 0, none⟩,
      h.entries.skip⟩⟩ := by
  let half : Row := ⟨h.series.calls, h.runlists.calls, none, ⟨⟨0#32, 0#32⟩, []⟩⟩
  let g : Heap := ⟨h.series.add ⟨some h.runlists.calls, none⟩,
    h.runlists.add ⟨⟨0#32, 0#32⟩, 0, none⟩, h.entries.skip⟩
  have held : g.Holds half none := ⟨Store.add_self _, Store.add_self _, rfl⟩
  have alone : g.Linked (some h.series.calls) [half] none := ⟨rfl, none, held, rfl⟩
  have destroyed := Heap.destroy_all alone (List.pairwise_singleton _ _)
  have same : (g.without [half]).Same h := by
    refine ⟨?_, ?_, ?_⟩
    · have made := Store.without_add (s := h.series) ⟨some h.runlists.calls, none⟩ []
      rwa [Store.without_nil] at made
    · have made := Store.without_add (s := h.runlists) ⟨⟨0#32, 0#32⟩, 0, none⟩ []
      rwa [Store.without_nil] at made
    · have kept : (h.entries.skip.without []).cells = h.entries.skip.cells := by
        rw [Store.without_nil]
      exact kept
  refine ⟨_, built.cleanup_at destroyed (same.linked built.linked), ?_⟩
  exact (same.without rows).trans built.frame

theorem turn (built : Built start h v rows) (supply : Supply) (node : Node)
    (entries : List RunlistEntry) : ∃ p, addRunlist supply node entries v h = .ok p ∧
      match failedAllocation supply start rows.length with
      | none => p.threw = false ∧
        Built start p.heap p.vars (rows ++ [newRow h ⟨node, entries⟩])
      | some point => p.threw = true ∧ (Clean start p ↔ point.Harmless) := by
  unfold failedAllocation
  rw [← built.series, ← built.runlists, ← built.entries]
  cases series : supply.series h.series.calls with
  | false =>
    refine ⟨_, addRunlist_series node entries series, rfl, ?_⟩
    exact iff_of_true (built.clean_series ⟨rfl, rfl, rfl⟩) trivial
  | true =>
    cases runlist : supply.runlist h.runlists.calls with
    | false =>
      refine ⟨_, addRunlist_runlist node entries series runlist, rfl, ?_⟩
      exact iff_of_false built.not_clean_runlist id
    | true =>
      cases array : supply.entries h.entries.calls with
      | false =>
        refine ⟨_, addRunlist_entries node entries series runlist array, rfl, ?_⟩
        exact iff_of_true built.clean_entries trivial
      | true =>
        obtain ⟨nodes, link, more⟩ := built.snoc ⟨node, entries⟩
        exact ⟨_, addRunlist_made node entries series runlist array link, rfl, more⟩

theorem run (built : Built start h v rows) (past : List Dword → Nat → Dword) (supply : Supply)
    (is : List Item) : ∃ p, itemLoop past supply rows.length is v h = .ok p ∧
      match failurePoint past supply start rows.length is with
      | none => p.threw = false ∧ ∃ more, Built start p.heap p.vars (rows ++ more) ∧
        runlistsOf past is = (.success, more.map Row.value)
      | some point => p.threw = true ∧ (Clean start p ↔ point.Harmless) := by
  induction is generalizing h v rows with
  | nil =>
    refine ⟨_, rfl, ?_⟩
    unfold failurePoint
    cases supply.parse rows.length with
    | true => exact ⟨rfl, [], by rwa [List.append_nil], rfl⟩
    | false => exact ⟨rfl, built.clean_parse⟩
  | cons i is ih =>
    cases i with
    | overflow => exact ⟨_, rfl, rfl, built.clean_parse⟩
    | found node data =>
      simp only [itemLoop, failurePoint, runlistsOf_found]
      cases supply.parse rows.length with
      | false => exact ⟨_, rfl, rfl, built.clean_parse⟩
      | true =>
        cases entriesOf past data with
        | none => exact ⟨_, rfl, rfl, [], by rwa [List.append_nil], rfl⟩
        | some entries =>
          obtain ⟨p, added, result⟩ := built.turn supply node entries
          simp only [if_true, added, bind, Except.bind]
          cases failed : failedAllocation supply start rows.length with
          | some point =>
            simp only [failed] at result
            obtain ⟨threw, clean⟩ := result
            exact ⟨p, if_pos threw, threw, clean⟩
          | none =>
            simp only [failed] at result
            obtain ⟨threw, more⟩ := result
            have later := ih more
            rw [List.length_append, List.length_singleton] at later
            simp only [threw, Bool.false_eq_true, if_false, Option.none_or]
            obtain ⟨q, loop, result⟩ := later
            refine ⟨q, loop, ?_⟩
            cases point : failurePoint past supply start (rows.length + 1) is with
            | some point =>
              simp only [point] at result
              exact result
            | none =>
              simp only [point] at result
              obtain ⟨done, rest, all, values⟩ := result
              refine ⟨done, newRow h ⟨node, entries⟩ :: rest, ?_, ?_⟩
              · rwa [List.append_assoc] at all
              · rw [values]
                rfl

end Built

section
variable (past : List Dword → Nat → Dword) (supply : Supply) (text : List Char) (h : Heap)

theorem built_start : Built h h ⟨none, none, none⟩ [] where
  linked := rfl
  last := rfl
  current := rfl
  apart := List.Pairwise.nil
  frame := by
    rw [Heap.without_nil]
    exact ⟨rfl, rfl, rfl⟩
  series := rfl
  runlists := rfl
  entries := rfl

/-- A call that fails frees each block that it made once, touches no freed one, and leaves the
other blocks as they were. -/
def CleanFailure : Prop :=
  ∃ status list g, siftPm4ParseRunlistsOn past supply text h = .ok (status, list, g) ∧
    (status = .error → g.Same h)

theorem series_on_heap (succeeds : failurePoint past supply h 0
    (items (TextLines.lines '\n' text)) = none) :
    ∃ list g rows, siftPm4ParseRunlistsOn past supply text h = .ok (.success, list, g) ∧
      g.Linked list rows none ∧
      siftPm4ParseRunlists past text = some (.success, rows.map Row.value) ∧
      (list ≠ none → ∃ f, siftPm4DestroyRunlists list g = .ok (.success, f) ∧ f.Same h) := by
  obtain ⟨p, loop, result⟩ :=
    (built_start h).run past supply (items (TextLines.lines '\n' text))
  rw [List.length_nil] at loop result
  simp only [succeeds] at result
  obtain ⟨done, rows, built, values⟩ := result
  refine ⟨p.vars.runlists, p.heap, rows, ?_, built.linked, ?_, ?_⟩
  · simp only [siftPm4ParseRunlistsOn, buildSeries_eq, loop, bind, Except.bind, done,
      Bool.false_eq_true, if_false]
    rfl
  · rw [siftPm4ParseRunlists_eq, values]
  · intro some_list
    obtain ⟨x, head⟩ := Option.ne_none_iff_exists'.mp some_list
    have linked := built.linked
    rw [head] at linked ⊢
    exact ⟨_, Heap.destroy_all linked built.apart, built.frame⟩

theorem clean_failure_iff : CleanFailure past supply text h ↔
    ∀ point ∈ failurePoint past supply h 0 (items (TextLines.lines '\n' text)),
      point.Harmless := by
  obtain ⟨p, loop, result⟩ :=
    (built_start h).run past supply (items (TextLines.lines '\n' text))
  rw [List.length_nil] at loop result
  unfold CleanFailure
  simp only [siftPm4ParseRunlistsOn, buildSeries_eq, loop, bind, Except.bind]
  cases failed : failurePoint past supply h 0 (items (TextLines.lines '\n' text)) with
  | none =>
    simp only [failed] at result
    simp only [result.1, Bool.false_eq_true, if_false]
    refine iff_of_true ⟨_, _, _, rfl, ?_⟩ ?_
    · exact fun error => nomatch error
    · exact fun _ member => nomatch member
  | some point =>
    simp only [failed] at result
    obtain ⟨threw, clean⟩ := result
    have only : (∀ q ∈ some point, q.Harmless) ↔ point.Harmless := by
      simp only [Option.mem_def, Option.some.injEq, forall_eq']
    rw [only, ← clean, threw, if_pos rfl]
    constructor
    · rintro ⟨status, list, g, returned, same⟩
      cases cleaned : cleanup p.vars p.heap with
      | error fault =>
        rw [cleaned] at returned
        cases returned
      | ok f =>
        rw [cleaned] at returned
        cases returned
        exact ⟨g, cleaned, same rfl⟩
    · rintro ⟨g, cleaned, same⟩
      rw [cleaned]
      exact ⟨_, _, _, rfl, fun _ => same⟩

end

def twoThenOverflow : List Char :=
  ("Node 1, gpu_id 1:\n" ++
    "  00000000: c005a200 00000000 00000000 00000000 00000000 00000000 00000000\n" ++
    "Node 2, gpu_id 2:\n" ++
    "  00000000: c005a200 00000000 00000000 00000000 00000000 00000000 00000000\n" ++
    "Node 18446744073709551616, gpu_id 3:\n").toList

def Supply.plenty : Supply := ⟨fun _ => true, fun _ => true, fun _ => true, fun _ => true⟩

/-- The second node is destroyed first, and then reached again from the first. -/
theorem freed_node_followed : ¬ CleanFailure (fun _ _ => 0#32) Supply.plenty twoThenOverflow
    ⟨Store.empty, Store.empty, Store.empty⟩ := by
  rintro ⟨status, list, g, returned, -⟩
  have fault : (siftPm4ParseRunlistsOn (fun _ _ => 0#32) Supply.plenty twoThenOverflow
      ⟨Store.empty, Store.empty, Store.empty⟩).map (fun _ => ()) = .error (.dangling 1) := by
    decide +kernel
  rw [returned] at fault
  cases fault

end Rocsift.Pm4
