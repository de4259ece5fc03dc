import Rocsift.Pm4.SeriesList

/-! The run of `sift_pm4_parse_runlists` on the heap: a loop over the sections of the text, in which
every completed turn puts one more row at the end of the list. -/
namespace Rocsift.Pm4
open Blocks (Store Fault)
open Sift (SiftStatus)

section
variable (past : List Dword → Nat → Dword) (supply : Supply)

def itemLoop : Nat → List Item → SeriesVars → Heap → Except Fault Progress
  | k, [], v, h => return ⟨!supply.parse k, v, h⟩
  | _, .overflow :: _, v, h => return ⟨true, v, h⟩
  | k, .found node data :: is, v, h =>
    if supply.parse k then
      match entriesOf past data with
      | none => return ⟨false, v, h⟩
      | some entries => do
        let p ← addRunlist supply node entries v h
        if p.threw then return p else itemLoop (k + 1) is p.vars p.heap
    else return ⟨true, v, h⟩

theorem seriesLoop_eq (fuel k : Nat) (p : RlsParser) (empty : p.dwords_buffer_ = [])
    (every : p.find_all_nodes_ = true) (v : SeriesVars) (h : Heap)
    (enough : (items (RlsParser.ahead p.rls_text p.end_)).length < fuel) :
    seriesLoop past supply fuel k p v h =
      itemLoop past supply k (items (RlsParser.ahead p.rls_text p.end_)) v h := by
  induction fuel generalizing k p v h with
  | zero => exact absurd enough (Nat.not_lt_zero _)
  | succ fuel ih =>
    have next := parse_next past p empty every
    cases ahead : items (RlsParser.ahead p.rls_text p.end_) with
    | nil =>
      rw [ahead] at next
      obtain ⟨q, parse⟩ := next
      cases memory : supply.parse k <;>
        simp only [seriesLoop, parse, itemLoop, memory, if_true, Bool.false_eq_true, if_false,
          Bool.not_true, Bool.not_false]
    | cons i is =>
      rw [ahead] at next enough
      cases i with
      | overflow =>
        obtain ⟨e, parse⟩ := next
        simp only [seriesLoop, parse, itemLoop, ite_self]
      | found n data =>
        obtain ⟨q, parse, rfl, empty, every, rest⟩ := next
        simp only [seriesLoop, parse, itemLoop]
        cases memory : supply.parse k with
        | false => rfl
        | true =>
          simp only [if_true]
          cases entriesOf past data with
          | none => rfl
          | some entries =>
            have less : (items (RlsParser.ahead q.rls_text q.end_)).length < fuel := by
              rw [rest]
              exact Nat.lt_of_succ_lt_succ enough
            have later : ∀ p : Progress, seriesLoop past supply fuel (k + 1) q p.vars p.heap =
                itemLoop past supply (k + 1) is p.vars p.heap := fun p => by
              rw [ih (k + 1) q empty every p.vars p.heap less, rest]
            simp only [later]

theorem buildSeries_eq (text : List Char) (h : Heap) : buildSeries past supply text h =
    itemLoop past supply 0 (items (TextLines.lines '\n' text)) ⟨none, none, none⟩ h := by
  have lines : RlsParser.ahead text (some 0) = TextLines.lines '\n' text := rfl
  have short := Nat.le_trans (items_length_le (TextLines.lines '\n' text))
    (TextLines.lines_length_le '\n' text)
  exact seriesLoop_eq past supply (text.length + 1) 0 (RlsParser.ofText text) rfl rfl _ h
    (Nat.lt_succ_of_le short)

end

namespace Heap.Same
variable {h g : Heap}

theorem linked (same : g.Same h) {start stop : Option Nat} {rs : List Row}
    (linked : h.Linked start rs stop) : g.Linked start rs stop := by
  apply linked.mono
  intro r _ next held
  apply held.carry ((congrFun same.series _).trans held.1)
  · exact fun _ => (congrFun same.runlists _).trans
  · exact fun a _ _ => (congrFun same.entries a).trans

theorem without (same : g.Same h) (rs : List Row) : (g.without rs).Same (h.without rs) := by
  constructor <;> simp only [Heap.without, Store.without]
  · rw [same.series]
  · rw [same.runlists]
  · rw [same.entries]

theorem trans {f : Heap} (same : g.Same h) (other : h.Same f) : g.Same f :=
  ⟨same.series.trans other.series, same.runlists.trans other.runlists,
    same.entries.trans other.entries⟩

end Heap.Same

/-- The state between two turns: the rows made so far are the list, and all else on the heap is as
it was. -/
structure Built (start h : Heap) (v : SeriesVars) (rows : List Row) : Prop where
  linked : h.Linked v.runlists rows none
  last : v.prev = rows.getLast?.map Row.node
  current : v.current = v.prev
  apart : rows.Pairwise Row.Apart
  frame : (h.without rows).Same start
  series : h.series.calls = start.series.calls + rows.length
  runlists : h.runlists.calls = start.runlists.calls + rows.length
  entries : h.entries.calls = start.entries.calls + rows.length

namespace Built
variable {start h g : Heap} {v : SeriesVars} {rows : List Row}

theorem head_iff (built : Built start h v rows) : v.runlists = none ↔ rows = [] := by
  have linked := built.linked
  cases rows with
  | nil => exact iff_of_true linked rfl
  | cons r rs => exact iff_of_false (by simp [linked.1]) (List.cons_ne_nil r rs)

end Built

def SeriesVars.at (v : SeriesVars) (current : Nat) : SeriesVars :=
  { v with current := some current, runlists := v.runlists.or (some current) }

section
variable {supply : Supply} {h : Heap} {v : SeriesVars} (node : Node) (entries : List RunlistEntry)

theorem addRunlist_series (fails : supply.series h.series.calls = false) :
    addRunlist supply node entries v h =
      .ok ⟨true, { v with current := none }, { h with series := h.series.skip }⟩ := by
  simp only [addRunlist, fails]
  rfl

variable (series : supply.series h.series.calls = true)
include series

theorem addRunlist_runlist (fails : supply.runlist h.runlists.calls = false) :
    addRunlist supply node entries v h = .ok ⟨true, v.at h.series.calls,
      ⟨h.series.add ⟨none, none⟩, h.runlists.skip, h.entries⟩⟩ := by
  simp only [addRunlist, series, fails, Store.malloc, if_true, Bool.false_eq_true, if_false,
    Store.write_ok (Store.add_self _), Store.put_add]
  rfl

variable (runlist : supply.runlist h.runlists.calls = true)
include runlist

theorem addRunlist_entries (fails : supply.entries h.entries.calls = false) :
    addRunlist supply node entries v h = .ok ⟨true, v.at h.series.calls,
      ⟨h.series.add ⟨some h.runlists.calls, none⟩,
        h.runlists.add ⟨⟨0#32, 0#32⟩, 0, none⟩, h.entries.skip⟩⟩ := by
  simp only [addRunlist, series, runlist, fails, Store.malloc, if_true, Bool.false_eq_true,
    if_false, Store.write_ok (Store.add_self _), Store.put_add]
  rfl

variable (array : supply.entries h.entries.calls = true)
include array

theorem addRunlist_made {linked : Store SeriesNode}
    (link : linkPrev v.prev h.series.calls (h.series.add ⟨some h.runlists.calls, none⟩) =
      .ok linked) :
    addRunlist supply node entries v h =
      .ok ⟨false, { v.at h.series.calls with prev := some h.series.calls },
        ⟨linked, h.runlists.add ⟨node, entries.length, some h.entries.calls⟩,
          h.entries.add entries⟩⟩ := by
  simp only [addRunlist, series, runlist, array, Store.malloc, if_true,
    Store.write_ok (Store.add_self _), Store.put_add, bind, Except.bind, link]
  rfl

end

def newRow (h : Heap) (value : Runlist) : Row :=
  ⟨h.series.calls, h.runlists.calls, some h.entries.calls, value⟩

def newHeap (h : Heap) (nodes : Store SeriesNode) (value : Runlist) : Heap :=
  ⟨nodes, h.runlists.add ⟨value.node, value.entries.length, some h.entries.calls⟩,
    h.entries.add value.entries⟩

theorem Heap.Holds.newHeap {h : Heap} {r : Row} {next next' : Option Nat} {nodes : Store SeriesNode}
    (held : h.Holds r next) (value : Runlist)
    (node : nodes.cells r.node = some ⟨some r.runlist, next'⟩) :
    (newHeap h nodes value).Holds r next' := by
  apply held.carry node
  · exact fun _ kept => Store.add_other kept _
  · exact fun _ _ _ kept => Store.add_other kept _

namespace Built
variable {start h : Heap} {v : SeriesVars} {rows : List Row}

theorem apart_new (built : Built start h v rows) (value : Runlist) :
    ∀ s ∈ rows, s.Apart (newRow h value) := by
  intro s hs
  obtain ⟨next, node, runlist, array⟩ := built.linked.mem s hs
  refine ⟨Nat.ne_of_lt (Store.lt_calls node), Nat.ne_of_lt (Store.lt_calls runlist), ?_⟩
  intro a member same
  rw [Option.mem_def.mp member] at array
  have early : a < h.entries.calls := Store.lt_calls array
  exact Nat.ne_of_lt early (Option.some.inj same).symm

theorem extend (built : Built start h v rows) (value : Runlist) {nodes : Store SeriesNode}
    (calls : nodes.calls = h.series.calls + 1)
    (own : nodes.cells h.series.calls = some ⟨some h.runlists.calls, none⟩)
    (others : ∀ j, j ∉ rows.map Row.node → j ≠ h.series.calls → nodes.cells j = h.series.cells j)
    (list : (newHeap h nodes value).Linked (v.runlists.or (some h.series.calls)) rows
      (some h.series.calls)) :
    Built start (newHeap h nodes value) { v.at h.series.calls with prev := some h.series.calls }
      (rows ++ [newRow h value]) where
  linked := by
    have held : (newHeap h nodes value).Holds (newRow h value) none :=
      ⟨own, Store.add_self _, Store.add_self _⟩
    exact Heap.linked_append.mpr ⟨_, list, rfl, none, held, rfl⟩
  last := by
    rw [List.getLast?_concat]
    rfl
  current := rfl
  apart := List.pairwise_append.mpr ⟨built.apart, List.pairwise_singleton _ _,
    fun s hs t ht => List.mem_singleton.mp ht ▸ built.apart_new value s hs⟩
  frame := by
    refine Heap.Same.trans ⟨?_, ?_, ?_⟩ built.frame
    · have made := Store.without_made Store.fresh_calls others
      simpa only [Heap.without, newHeap, newRow, List.map_append, List.map_cons, List.map_nil]
        using made
    · simp only [Heap.without, newHeap, newRow, List.map_append, List.map_cons, List.map_nil]
      exact Store.without_add _ _
    · simp only [Heap.without, newHeap, newRow, List.filterMap_append, List.filterMap_cons,
        List.filterMap_nil]
      exact Store.without_add _ _
  series := by
    rw [List.length_append, ← Nat.add_assoc, ← built.series]
    exact calls
  runlists := by
    rw [List.length_append, ← Nat.add_assoc, ← built.runlists]
    rfl
  entries := by
    rw [List.length_append, ← Nat.add_assoc, ← built.entries]
    rfl

theorem snoc (built : Built start h v rows) (value : Runlist) : ∃ nodes,
    linkPrev v.prev h.series.calls (h.series.add ⟨some h.runlists.calls, none⟩) = .ok nodes ∧
      Built start (newHeap h nodes value) { v.at h.series.calls with prev := some h.series.calls }
        (rows ++ [newRow h value]) := by
  have list := built.linked
  have last := built.last
  rcases List.eq_nil_or_concat' rows with rfl | ⟨rs, x, rfl⟩
  · refine ⟨h.series.add ⟨some h.runlists.calls, none⟩, ?_, built.extend value rfl ?_ ?_ ?_⟩
    · rw [last]
      rfl
    · exact Store.add_self _
    · intro j _ other
      rw [Store.add_cells, if_neg other]
    · have empty : v.runlists = none := list
      rw [empty]
      rfl
  · rw [List.getLast?_concat] at last
    obtain ⟨_, front, rfl, next, held, rfl⟩ := Heap.linked_append.mp list
    have old := Store.add_other held.1 (⟨some h.runlists.calls, none⟩ : SeriesNode)
    have cells := Store.put_cells old (some ⟨some x.runlist, some h.series.calls⟩)
    have late : h.series.calls ≠ x.node := (Nat.ne_of_lt (Store.lt_calls held.1)).symm
    refine ⟨(h.series.add ⟨some h.runlists.calls, none⟩).put x.node
      (some ⟨some x.runlist, some h.series.calls⟩), ?_, built.extend value rfl ?_ ?_ ?_⟩
    · rw [last]
      simp only [linkPrev, Option.map_some, Store.load_ok old, bind, Except.bind,
        Store.write_ok old]
    · rw [cells, if_neg late]
      exact Store.add_self _
    · intro j outside other
      have not_last : j ≠ x.node := by
        rintro rfl
        exact outside (List.mem_map_of_mem (List.mem_append_right rs List.mem_cons_self))
      rw [cells, if_neg not_last, Store.add_cells, if_neg other]
    · have some_row : v.runlists ≠ none := mt built.head_iff.mp (by simp)
      obtain ⟨head, found⟩ := Option.ne_none_iff_exists'.mp some_row
      rw [found] at front ⊢
      have last_held := held.newHeap value ((cells x.node).trans (if_pos rfl))
      refine Heap.linked_append.mpr ⟨some x.node, front.mono ?_, rfl, _, last_held, rfl⟩
      intro r hr next held_r
      have other : r.node ≠ x.node :=
        ((List.pairwise_append.mp built.apart).2.2 r hr x List.mem_cons_self).node
      apply held_r.newHeap value
      rw [cells, if_neg other]
      exact Store.add_other held_r.1 _

end Built

end Rocsift.Pm4
