import Rocsift.Base.Chains
import Rocsift.Pm4.SeriesStore

/-! Runlist series as linked lists in the heap, and what destroying one does: it frees the blocks
of its rows, and goes on at the pointer behind them. -/
namespace Rocsift.Pm4
open Blocks (Store Fault)
open Sift (SiftStatus)

/-- The blocks of a node and what they stand for; a half-built node has no array. -/
structure Row where
  node : Nat
  runlist : Nat
  array : Option Nat
  value : Runlist

structure Row.Apart (r s : Row) : Prop where
  node : r.node ≠ s.node
  runlist : r.runlist ≠ s.runlist
  array : ∀ a ∈ r.array, a ∉ s.array

theorem Row.Apart.symm {r s : Row} (apart : r.Apart s) : s.Apart r :=
  ⟨apart.node.symm, apart.runlist.symm, fun a hs hr => apart.array a hr hs⟩

namespace Heap

def Holds (h : Heap) (r : Row) (next : Option Nat) : Prop :=
  h.series.cells r.node = some ⟨some r.runlist, next⟩ ∧
    h.runlists.cells r.runlist = some ⟨r.value.node, r.value.entries.length, r.array⟩ ∧
    match r.array with
    | none => r.value.entries = []
    | some a => h.entries.cells a = some r.value.entries

def Linked (h : Heap) : Option Nat → List Row → Option Nat → Prop
  | start, [], stop => start = stop
  | start, r :: rs, stop => start = some r.node ∧ ∃ next, h.Holds r next ∧ h.Linked next rs stop

def without (h : Heap) (rs : List Row) : Heap :=
  ⟨h.series.without (rs.map Row.node), h.runlists.without (rs.map Row.runlist),
    h.entries.without (rs.filterMap Row.array)⟩

structure Same (h g : Heap) : Prop where
  series : h.series.cells = g.series.cells
  runlists : h.runlists.cells = g.runlists.cells
  entries : h.entries.cells = g.entries.cells

end Heap

namespace Heap
variable {h g : Heap} {r : Row} {rs : List Row} {start next stop : Option Nat}

theorem without_nil : h.without [] = h := by
  simp only [without, List.map_nil, List.filterMap_nil, Store.without_nil]

theorem without_cons : (h.without [r]).without rs = h.without (r :: rs) := by
  simp only [without, Store.without_without, List.map_cons, List.map_nil, List.singleton_append,
    ← List.filterMap_append]

theorem linked_iff :
    h.Linked start rs stop ↔ Blocks.Linked h.Holds Row.node start rs stop := by
  induction rs generalizing start with
  | nil => exact Iff.rfl
  | cons r rs ih => simp only [Linked, Blocks.Linked, ih]

theorem Linked.mono (linked : h.Linked start rs stop)
    (holds : ∀ r ∈ rs, ∀ next, h.Holds r next → g.Holds r next) : g.Linked start rs stop :=
  linked_iff.mpr ((linked_iff.mp linked).mono holds)

theorem Linked.mem (linked : h.Linked start rs stop) : ∀ r ∈ rs, ∃ next, h.Holds r next :=
  (linked_iff.mp linked).mem

theorem linked_append {ss : List Row} : h.Linked start (rs ++ ss) stop ↔
    ∃ mid, h.Linked start rs mid ∧ h.Linked mid ss stop := by
  simp only [linked_iff]
  exact Blocks.linked_append

theorem Holds.carry {next' : Option Nat} (held : h.Holds r next)
    (node : g.series.cells r.node = some ⟨some r.runlist, next'⟩)
    (runlists : ∀ v, h.runlists.cells r.runlist = some v → g.runlists.cells r.runlist = some v)
    (arrays : ∀ a ∈ r.array, ∀ v, h.entries.cells a = some v → g.entries.cells a = some v) :
    g.Holds r next' := by
  obtain ⟨-, runlist, array⟩ := held
  refine ⟨node, runlists _ runlist, ?_⟩
  cases found : r.array with
  | none =>
    rw [found] at array
    exact array
  | some a =>
    rw [found] at array
    exact arrays a found _ array

theorem notMem_map {f : Row → Nat} (apart : ∀ s ∈ rs, f s ≠ f r) : f r ∉ rs.map f := by
  intro member
  obtain ⟨s, hs, same⟩ := List.mem_map.mp member
  exact apart s hs same

theorem Holds.without (held : h.Holds r next) (apart : ∀ s ∈ rs, s.Apart r) :
    (h.without rs).Holds r next := by
  have node : r.node ∉ rs.map Row.node := notMem_map fun s hs => (apart s hs).node
  have runlist : r.runlist ∉ rs.map Row.runlist := notMem_map fun s hs => (apart s hs).runlist
  apply held.carry ((Store.without_cells node).trans held.1)
  · exact fun _ => (Store.without_cells runlist).trans
  · intro a found _
    have array : a ∉ rs.filterMap Row.array := by
      intro member
      obtain ⟨s, hs, same⟩ := List.mem_filterMap.mp member
      exact (apart s hs).array a same found
    exact (Store.without_cells array).trans

theorem Linked.without {ss : List Row} (linked : h.Linked start ss stop)
    (apart : ∀ s ∈ rs, ∀ r ∈ ss, s.Apart r) : (h.without rs).Linked start ss stop :=
  linked.mono fun r hr _ held => held.without fun s hs => apart s hs r hr

theorem destroy_row (held : h.Holds r next) (fuel : Nat) :
    destroySeries (fuel + 1) (some r.node) h = destroySeries fuel next (h.without [r]) := by
  obtain ⟨node, runlist, array⟩ := held
  have entries : destroyRunlistEntries r.array r.value.entries.length h =
      .ok { h with entries := h.entries.without ([r].filterMap Row.array) } := by
    cases found : r.array with
    | none =>
      rw [found] at array
      have none : [r].filterMap Row.array = [] := by
        simp only [List.filterMap_cons, found, List.filterMap_nil]
      rw [none, array, Store.without_nil]
      rfl
    | some a =>
      rw [found] at array
      have one : [r].filterMap Row.array = [a] := by
        simp only [List.filterMap_cons, found, List.filterMap_nil]
      rw [one]
      simp only [destroyRunlistEntries, Store.load_ok array, Store.free_ok array,
        Nat.lt_irrefl, if_false, bind, Except.bind, pure, Except.pure]
  simp only [destroySeries, Store.load_ok node, siftPm4DestroyRunlist, Store.load_ok runlist,
    entries, bind, Except.bind, pure, Except.pure, ne_eq, not_true, if_false,
    Store.free_ok runlist, Store.free_ok node]
  rfl

/-- Destroying a list frees the blocks of its rows, and goes on where its last node points to. -/
theorem destroy_rows (linked : h.Linked start rs stop) (apart : rs.Pairwise Row.Apart)
    (fuel : Nat) :
    destroySeries (fuel + rs.length) start h = destroySeries fuel stop (h.without rs) := by
  have turn : ∀ fuel (h : Heap) (r : Row) next, h.Holds r next →
      destroySeries (fuel + 1) (some r.node) h = destroySeries fuel next (h.without [r]) :=
    fun fuel _ _ _ held => destroy_row held fuel
  have keeps : ∀ (h : Heap) (r s : Row) next, r.Apart s → h.Holds s next →
      (h.without [r]).Holds s next := by
    intro h r s next different held
    exact held.without fun t ht => List.mem_singleton.mp ht ▸ different
  exact Blocks.Linked.destroy (fun _ => without_nil) (fun _ _ _ => without_cons) turn keeps
    (linked_iff.mp linked) apart fuel

theorem length_le_calls (linked : h.Linked start rs stop) (apart : rs.Pairwise Row.Apart) :
    rs.length ≤ h.series.calls := by
  have once : (rs.map Row.node).Nodup := List.pairwise_map.mpr (apart.imp Row.Apart.node)
  have live : ∀ i ∈ rs.map Row.node, ∃ v, h.series.cells i = some v := by
    intro i member
    obtain ⟨r, hr, rfl⟩ := List.mem_map.mp member
    obtain ⟨next, held⟩ := linked.mem r hr
    exact ⟨_, held.1⟩
  have short := Store.length_le_calls live once
  rwa [List.length_map] at short

theorem destroy_all {start : Nat} (linked : h.Linked (some start) rs none)
    (apart : rs.Pairwise Row.Apart) :
    siftPm4DestroyRunlists (some start) h = .ok (.success, h.without rs) := by
  obtain ⟨more, fuel⟩ := Nat.le.dest (Nat.le_succ_of_le (length_le_calls linked apart))
  rw [siftPm4DestroyRunlists, ← Nat.succ_eq_add_one, ← fuel, Nat.add_comm,
    destroy_rows linked apart]
  cases more <;> rfl

theorem destroy_dangling {start freed : Nat} (linked : h.Linked (some start) rs (some freed))
    (apart : rs.Pairwise Row.Apart) (gone : h.series.cells freed = none) :
    siftPm4DestroyRunlists (some start) h = .error (.dangling freed) := by
  obtain ⟨more, fuel⟩ := Nat.le.dest (Nat.succ_le_succ (length_le_calls linked apart))
  have still : (h.without rs).series.cells freed = none := by
    simp only [without, Store.without, gone, ite_self]
  have shape : h.series.calls + 1 = (more + 1) + rs.length := by omega
  rw [siftPm4DestroyRunlists, shape, destroy_rows linked apart]
  simp only [destroySeries, Store.load_freed still, bind, Except.bind]

end Heap

end Rocsift.Pm4
