import Rocsift.Pm4.OwnedSeries

/-! What `sift_pm4_destroy_runlists` makes of a series that `sift_pm4_parse_runlists` has returned.
Every turn of the parser's loop puts one more row at the end of a list; destroying the list frees
the blocks of its rows, but the empty list is refused. -/
namespace Rocsift.Pm4.Owned
open Blocks (Store Fault Linked)
open Sift (SiftStatus)

/-- The blocks of a node, the entries in its array, and the runlist that they stand for. -/
structure Row where
  node : Nat
  runlist : Nat
  array : Nat
  held : List Entry
  value : Runlist

def Row.bodies (r : Row) : List Nat := r.held.map Entry.body

structure Row.Apart (r s : Row) : Prop where
  node : r.node ≠ s.node
  runlist : r.runlist ≠ s.runlist
  array : r.array ≠ s.array
  bodies : ∀ i ∈ r.bodies, i ∉ s.bodies

theorem loaded_live {b : Bodies} {entries : List Entry} {es : List RunlistEntry}
    (loaded : List.Forall₂ (Loaded b) entries es) :
    ∀ i ∈ entries.map Entry.body, ∃ v, b.cells i = some v := by
  induction loaded with
  | nil => exact fun _ none => nomatch none
  | cons here _ ih => exact List.forall_mem_cons.mpr ⟨⟨_, here.2⟩, ih⟩

theorem loaded_kept {b c : Bodies} {entries : List Entry} {es : List RunlistEntry}
    (loaded : List.Forall₂ (Loaded b) entries es)
    (kept : ∀ i ∈ entries.map Entry.body, ∀ v, b.cells i = some v → c.cells i = some v) :
    List.Forall₂ (Loaded c) entries es := by
  induction loaded with
  | nil => exact .nil
  | cons here _ ih =>
    obtain ⟨first, rest⟩ := List.forall_mem_cons.mp kept
    exact .cons ⟨here.1, first _ here.2⟩ (ih rest)

namespace Heap

structure Holds (h : Heap) (r : Row) (next : Option Nat) : Prop where
  node : h.series.cells r.node = some ⟨some r.runlist, next⟩
  runlist : h.runlists.cells r.runlist = some ⟨r.value.node, r.held.length, some r.array⟩
  array : h.entries.cells r.array = some r.held
  loaded : List.Forall₂ (Loaded h.bodies) r.held r.value.entries
  once : r.bodies.Nodup

def without (h : Heap) (rs : List Row) : Heap :=
  ⟨h.series.without (rs.map Row.node), h.runlists.without (rs.map Row.runlist),
    h.entries.without (rs.map Row.array), h.bodies.without (rs.flatMap Row.bodies)⟩

variable {h g : Heap} {r : Row} {rs : List Row} {start next : Option Nat}

theorem without_nil (h : Heap) : h.without [] = h := by
  simp only [without, List.map_nil, List.flatMap_nil, Store.without_nil]

theorem without_cons (h : Heap) (r : Row) (rs : List Row) :
    (h.without [r]).without rs = h.without (r :: rs) := by
  simp only [without, Store.without_without, List.map_cons, List.map_nil, List.singleton_append,
    List.flatMap_cons, List.flatMap_nil, List.append_nil]

theorem Holds.carry {next' : Option Nat} (held : h.Holds r next)
    (node : g.series.cells r.node = some ⟨some r.runlist, next'⟩)
    (runlists : ∀ v, h.runlists.cells r.runlist = some v → g.runlists.cells r.runlist = some v)
    (arrays : ∀ v, h.entries.cells r.array = some v → g.entries.cells r.array = some v)
    (bodies : ∀ i ∈ r.bodies, ∀ v, h.bodies.cells i = some v → g.bodies.cells i = some v) :
    g.Holds r next' where
  node := node
  runlist := runlists _ held.runlist
  array := arrays _ held.array
  loaded := loaded_kept held.loaded bodies
  once := held.once

theorem Holds.without {s : Row} (apart : r.Apart s) (held : h.Holds s next) :
    (h.without [r]).Holds s next := by
  have node : s.node ∉ [r].map Row.node := fun same =>
    apart.node (List.mem_singleton.mp same).symm
  have runlist : s.runlist ∉ [r].map Row.runlist := fun same =>
    apart.runlist (List.mem_singleton.mp same).symm
  have array : s.array ∉ [r].map Row.array := fun same =>
    apart.array (List.mem_singleton.mp same).symm
  apply held.carry ((Store.without_cells node).trans held.node)
  · exact fun _ => (Store.without_cells runlist).trans
  · exact fun _ => (Store.without_cells array).trans
  · intro i member _
    have other : i ∉ [r].flatMap Row.bodies := by
      rw [List.flatMap_cons, List.flatMap_nil, List.append_nil]
      exact fun same => apart.bodies i same member
    exact (Store.without_cells other).trans

theorem destroy_entries (held : h.Holds r next) :
    destroyRunlistEntries (some r.array) r.held.length h = .ok
      { h with entries := h.entries.without [r.array], bodies := h.bodies.without r.bodies } := by
  simp only [destroyRunlistEntries, Store.load_ok held.array, Nat.lt_irrefl, if_false,
    List.take_length, Store.free_ok held.array, bind, Except.bind]
  have freed := Store.freeEach_ok (loaded_live held.loaded) held.once
  rw [freed]
  rfl

theorem destroy_row (fuel : Nat) (h : Heap) (r : Row) (next : Option Nat) (held : h.Holds r next) :
    destroySeries (fuel + 1) (some r.node) h = destroySeries fuel next (h.without [r]) := by
  simp only [destroySeries, Store.load_ok held.node, siftPm4DestroyRunlist,
    Store.load_ok held.runlist, destroy_entries held, bind, Except.bind, pure, Except.pure, ne_eq,
    not_true, if_false, Store.free_ok held.runlist, Store.free_ok held.node, without, List.map_cons,
    List.map_nil, List.flatMap_cons, List.flatMap_nil, List.append_nil]

theorem destroy_list {list : Option Nat} (linked : Linked h.Holds Row.node list rs none)
    (apart : rs.Pairwise Row.Apart) : siftPm4DestroyRunlists list h =
      .ok (if rs = [] then (.error, h) else (.success, h.without rs)) := by
  cases list with
  | none =>
    rw [if_pos (linked.start_none_iff.mp rfl)]
    rfl
  | some start =>
    have some_row : rs ≠ [] := mt linked.start_none_iff.mpr (by simp)
    have once : (rs.map Row.node).Nodup := List.pairwise_map.mpr (apart.imp Row.Apart.node)
    have live : ∀ i ∈ rs.map Row.node, ∃ v, h.series.cells i = some v := by
      intro i member
      obtain ⟨r, hr, rfl⟩ := List.mem_map.mp member
      obtain ⟨next, held⟩ := linked.mem r hr
      exact ⟨_, held.node⟩
    have short := Store.length_le_calls live once
    rw [List.length_map] at short
    obtain ⟨more, fuel⟩ := Nat.le.dest (Nat.le_succ_of_le short)
    have freed := Linked.destroy without_nil without_cons destroy_row
      (fun h r s next apart held => held.without (h := h) (r := r) (s := s) apart) linked apart more
    rw [siftPm4DestroyRunlists, ← Nat.succ_eq_add_one, ← fuel, Nat.add_comm, freed,
      if_neg some_row]
    cases more <;> rfl

end Heap

structure Made (b b' : Bodies) (entries : List Entry) (es : List RunlistEntry) : Prop where
  new : ∀ i ∈ entries.map Entry.body, b.calls ≤ i
  loaded : List.Forall₂ (Loaded b') entries es
  once : (entries.map Entry.body).Nodup

/-- What a call leaves: the bodies that were there, and those of the entries it returns, which
stand for what the decoder without a heap returns. -/
structure Leaves (b : Bodies) (value : Option (List Entry)) (returned : List RunlistEntry → Prop)
    (b' : Bodies) : Prop where
  old : ∀ i v, b.cells i = some v → b'.cells i = some v
  made : ∀ entries, value = some entries → ∃ es, returned es ∧ Made b b' entries es

theorem Leaves.nothing (b : Bodies) (returned : List RunlistEntry → Prop) :
    Leaves b none returned b where
  old _ _ found := found
  made _ none := nomatch none

theorem Grown.kept {b b' : Bodies} {m : Nat} (grown : Grown b b' m) {i : Nat} {v : Option Body}
    (found : b.cells i = some v) : b'.cells i = some v :=
  (grown.old i (Store.lt_calls found)).trans found

theorem parseRunlistEntries_leaves {ds : List Dword} {past : Nat → Dword} {supply : Supply}
    {b b' : Bodies} {r : ResultStatus (List Entry)}
    (run : parseRunlistEntries (memory ds past) supply (whole ds) b = .ok (r, b')) :
    Leaves b r.value
      (fun es => (Pm4.parseRunlistEntries (whole ds)).value (memory ds past) = .ok es) b' := by
  by_cases inside : ∃ ps, Entered ds supply ps
  · obtain ⟨ps, entered⟩ := inside
    obtain ⟨r', c, run', loop⟩ := parseRunlistEntries_entered ds past entered b
    rw [run'] at run
    cases run
    refine ⟨fun i v => loop.grown.kept, fun entries value => ?_⟩
    cases copied : supply.copied with
    | false =>
      rw [copied] at value
      cases value
    | true =>
      rw [copied, if_pos rfl] at value
      by_cases all : leading supply.body b.calls ps = ps.length
      · obtain ⟨entries', es, rfl, values, bodies, loaded⟩ := loop.decoded all
        cases value
        refine ⟨es, values, ?_, loaded, ?_⟩
        · intro i member
          rw [bodies] at member
          exact (List.mem_range'_1.mp member).1
        · rw [bodies]
          exact List.nodup_range'
      · rw [loop.failed all] at value
        cases value
  · rw [parseRunlistEntries_outside ds past fun ps entered => inside ⟨ps, entered⟩] at run
    cases run
    exact Leaves.nothing b _

section
variable {past : List Dword → Nat → Dword} {supply : SeriesSupply}

theorem buildEntries_leaves {k : Nat} {p q : RlsParser} {b b' : Bodies}
    {value : Option (List Entry)}
    (run : buildEntries past supply k p b = .ok (some (value, q), b')) :
    Leaves b value (fun es => p.buildEntries past = (some es, q)) b' := by
  unfold buildEntries at run
  split at run
  · cases run
    exact Leaves.nothing b _
  · rename_i filled
    dsimp only at run
    cases decoded : parseRunlistEntries (memory p.dwords_buffer_.flatten
        (past p.dwords_buffer_.flatten)) (supply.decode k) (whole p.dwords_buffer_.flatten) b with
    | error fault =>
      rw [decoded] at run
      cases run
    | ok r =>
      have leaves := parseRunlistEntries_leaves decoded
      simp only [decoded, bind, Except.bind] at run
      split at run
      · cases run
      · split at run
        · cases run
          exact ⟨leaves.old, fun _ none => nomatch none⟩
        · cases run
          refine ⟨leaves.old, fun entries same => ?_⟩
          obtain ⟨es, values, made⟩ := leaves.made entries same
          refine ⟨es, ?_, made⟩
          have decodes : decode past p.dwords_buffer_.flatten = .ok es := values
          rw [RlsParser.buildEntries, if_neg filled, decodes]
          rfl

theorem parse_leaves {k : Nat} {p q : RlsParser} {b b' : Bodies} {value : Option (List Entry)}
    (run : parse past supply k p b = .ok (some (value, q), b')) :
    Leaves b value (fun es => p.parse past = some (.ok (some es, q))) b' := by
  unfold parse at run
  split at run
  · cases run
  · dsimp only at run
    split at run
    · cases run
    · cases run
    · rename_i p' turns
      have leaves := buildEntries_leaves run
      refine ⟨leaves.old, fun entries same => ?_⟩
      obtain ⟨es, built, made⟩ := leaves.made entries same
      refine ⟨es, ?_, made⟩
      rw [RlsParser.parse, turns, Option.map_some, Except.map, built]

theorem addRunlist_made {node : Node} {entries : List Entry} {v : SeriesVars} {h : Heap}
    {p : Progress} (added : addRunlist supply node entries v h = .ok p) (done : p.threw = false) :
    ∃ nodes, linkPrev v.prev h.series.calls (h.series.add ⟨some h.runlists.calls, none⟩) =
        .ok nodes ∧
      p = ⟨false, ⟨v.runlists.or (some h.series.calls), some h.series.calls, some h.series.calls⟩,
        ⟨nodes, h.runlists.add ⟨node, entries.length, some h.entries.calls⟩,
          h.entries.add entries, h.bodies⟩⟩ := by
  unfold addRunlist at added
  cases series : supply.series h.series.calls with
  | false =>
    simp only [series, Store.malloc, Bool.false_eq_true, if_false] at added
    cases added
    cases done
  | true =>
    simp only [series, Store.malloc, if_true, Store.write_ok (Store.add_self _), Store.put_add,
      bind, Except.bind] at added
    cases runlist : supply.runlist h.runlists.calls with
    | false =>
      simp only [runlist, Bool.false_eq_true, if_false] at added
      cases added
      cases done
    | true =>
      simp only [runlist, if_true] at added
      cases array : supply.entries h.entries.calls with
      | false =>
        simp only [array, Bool.false_eq_true, if_false] at added
        cases added
        cases done
      | true =>
        simp only [array, if_true, Store.write_ok (Store.add_self _), Store.put_add] at added
        cases link : linkPrev v.prev h.series.calls
            (h.series.add ⟨some h.runlists.calls, none⟩) with
        | error fault =>
          rw [link] at added
          cases added
        | ok nodes =>
          rw [link] at added
          cases added
          exact ⟨nodes, rfl, rfl⟩

end

def newRow (h : Heap) (entries : List Entry) (value : Runlist) : Row :=
  ⟨h.series.calls, h.runlists.calls, h.entries.calls, entries, value⟩

def newHeap (h : Heap) (nodes : Store SeriesNode) (node : Node) (entries : List Entry) : Heap :=
  ⟨nodes, h.runlists.add ⟨node, entries.length, some h.entries.calls⟩, h.entries.add entries,
    h.bodies⟩

/-- The state between two turns: the rows made so far are the list. -/
structure Built (h : Heap) (v : SeriesVars) (rows : List Row) : Prop where
  linked : Linked h.Holds Row.node v.runlists rows none
  last : v.prev = rows.getLast?.map Row.node
  apart : rows.Pairwise Row.Apart

namespace Built
variable {h : Heap} {v : SeriesVars} {rows : List Row} {entries : List Entry} {value : Runlist}

theorem parsed (built : Built h v rows) {bodies : Bodies}
    (old : ∀ i v, h.bodies.cells i = some v → bodies.cells i = some v) :
    Built { h with bodies := bodies } v rows where
  linked := built.linked.mono fun _ _ _ held =>
    held.carry held.node (fun _ found => found) (fun _ found => found) fun i _ v => old i v
  last := built.last
  apart := built.apart

theorem apart_new (built : Built h v rows)
    (bodies : ∀ r ∈ rows, ∀ i ∈ r.bodies, i ∉ entries.map Entry.body) :
    ∀ r ∈ rows, r.Apart (newRow h entries value) := by
  intro r hr
  obtain ⟨next, held⟩ := built.linked.mem r hr
  exact ⟨Nat.ne_of_lt (Store.lt_calls held.node), Nat.ne_of_lt (Store.lt_calls held.runlist),
    Nat.ne_of_lt (Store.lt_calls held.array), bodies r hr⟩

theorem holds_new {nodes : Store SeriesNode} {r : Row} {next next' : Option Nat}
    (held : h.Holds r next) (own : nodes.cells r.node = some ⟨some r.runlist, next'⟩) :
    (newHeap h nodes value.node entries).Holds r next' := by
  apply held.carry own
  · exact fun _ kept => Store.add_other kept _
  · exact fun _ kept => Store.add_other kept _
  · exact fun _ _ _ kept => kept

theorem snoc (built : Built h v rows) (value : Runlist)
    (bodies : ∀ r ∈ rows, ∀ i ∈ r.bodies, i ∉ entries.map Entry.body)
    (loaded : List.Forall₂ (Loaded h.bodies) entries value.entries)
    (once : (entries.map Entry.body).Nodup) {nodes : Store SeriesNode}
    (link : linkPrev v.prev h.series.calls (h.series.add ⟨some h.runlists.calls, none⟩) =
      .ok nodes) :
    Built (newHeap h nodes value.node entries)
      ⟨v.runlists.or (some h.series.calls), some h.series.calls, some h.series.calls⟩
      (rows ++ [newRow h entries value]) := by
  have apart : ∀ r ∈ rows, r.Apart (newRow h entries value) := built.apart_new bodies
  have last := built.last
  refine ⟨?_, by rw [List.getLast?_concat]; rfl, List.pairwise_append.mpr ⟨built.apart,
    List.pairwise_singleton _ _, fun r hr s hs => List.mem_singleton.mp hs ▸ apart r hr⟩⟩
  have held_new : nodes.cells h.series.calls = some ⟨some h.runlists.calls, none⟩ →
      (newHeap h nodes value.node entries).Holds (newRow h entries value) none := fun own =>
    ⟨own, Store.add_self _, Store.add_self _, loaded, once⟩
  rcases List.eq_nil_or_concat' rows with rfl | ⟨rs, x, rfl⟩
  · have empty : v.runlists = none := built.linked
    rw [last] at link
    cases link
    rw [empty]
    exact ⟨rfl, none, held_new (Store.add_self _), rfl⟩
  · rw [List.getLast?_concat] at last
    obtain ⟨_, front, rfl, next, held, rfl⟩ := Blocks.linked_append.mp built.linked
    have old := Store.add_other held.node (⟨some h.runlists.calls, none⟩ : SeriesNode)
    have late : h.series.calls ≠ x.node := (Nat.ne_of_lt (Store.lt_calls held.node)).symm
    simp only [last, linkPrev, Option.map_some, Store.load_ok old, bind, Except.bind,
      Store.write_ok old] at link
    cases link
    have cells := Store.put_cells old (some ⟨some x.runlist, some h.series.calls⟩)
    have own := (cells h.series.calls).trans ((if_neg late).trans (Store.add_self _))
    have some_row : v.runlists ≠ none := mt built.linked.start_none_iff.mp (by simp)
    obtain ⟨head, found⟩ := Option.ne_none_iff_exists'.mp some_row
    rw [found] at front ⊢
    refine Blocks.linked_append.mpr ⟨some h.series.calls, ?_, rfl, none, held_new own, rfl⟩
    have last_held : (newHeap h _ value.node entries).Holds x (some h.series.calls) :=
      holds_new held ((cells x.node).trans (if_pos rfl))
    refine Blocks.linked_append.mpr ⟨some x.node, front.mono ?_, rfl, _, last_held, rfl⟩
    intro r hr next held_r
    have other : r.node ≠ x.node :=
      ((List.pairwise_append.mp built.apart).2.2 r hr x List.mem_cons_self).node
    apply holds_new held_r
    rw [cells, if_neg other]
    exact Store.add_other held_r.node _

end Built

section
variable {past : List Dword → Nat → Dword} {supply : SeriesSupply}

inductive Returns (past : List Dword → Nat → Dword) : RlsParser → List Runlist → Prop
  | nil {p : RlsParser} : Returns past p []
  | cons {p q : RlsParser} {entries : List RunlistEntry} {rs : List Runlist} :
      p.parse past = some (.ok (some entries, q)) → Returns past q rs →
        Returns past p (⟨⟨q.node_, q.gpu_⟩, entries⟩ :: rs)

theorem Built.run {fuel k : Nat} {parser : RlsParser} {h : Heap} {v : SeriesVars} {rows : List Row}
    (built : Built h v rows) {p : Progress} (run : seriesLoop past supply fuel k parser v h = .ok p)
    (done : p.threw = false) :
    ∃ more, Built p.heap p.vars (rows ++ more) ∧ Returns past parser (more.map Row.value) := by
  induction fuel generalizing k parser h v rows with
  | zero => cases run
  | succ fuel ih =>
    unfold seriesLoop at run
    cases parsed : parse past supply k parser h.bodies with
    | error fault =>
      rw [parsed] at run
      cases run
    | ok r =>
      obtain ⟨value, bodies⟩ := r
      simp only [parsed, bind, Except.bind] at run
      match value with
      | none =>
        cases run
        cases done
      | some (none, q) =>
        cases run
        have leaves := parse_leaves parsed
        exact ⟨[], by simpa only [List.append_nil] using built.parsed leaves.old, .nil⟩
      | some (some entries, q) =>
        have leaves := parse_leaves parsed
        obtain ⟨es, returned, made⟩ := leaves.made entries rfl
        have before := built.parsed leaves.old
        dsimp only at run
        cases added : addRunlist supply ⟨q.node_, q.gpu_⟩ entries v { h with bodies := bodies } with
        | error fault =>
          rw [added] at run
          cases run
        | ok next =>
          rw [added] at run
          dsimp only at run
          split at run
          · rename_i threw
            cases run
            rw [threw] at done
            cases done
          · rename_i made_all
            obtain ⟨nodes, link, rfl⟩ := addRunlist_made added (Bool.eq_false_iff.mpr made_all)
            have apart : ∀ r ∈ rows, ∀ i ∈ r.bodies, i ∉ entries.map Entry.body := by
              intro r hr i member new
              obtain ⟨next, held⟩ := built.linked.mem r hr
              obtain ⟨w, found⟩ := loaded_live held.loaded i member
              exact Nat.not_lt.mpr (made.new i new) (Store.lt_calls found)
            have after := before.snoc ⟨⟨q.node_, q.gpu_⟩, es⟩ apart made.loaded made.once link
            obtain ⟨more, all, later⟩ := ih after run
            refine ⟨newRow { h with bodies := bodies } entries ⟨⟨q.node_, q.gpu_⟩, es⟩ :: more,
              by rwa [List.append_assoc] at all, .cons returned later⟩

/-- A call that succeeds returns a list of rows for the sections that it has parsed, each with
blocks of its own. Destroying the list frees every node, runlist, array and body in it once and no
other block; only a series without a section, which is null, is refused. -/
theorem parse_then_destroy {text : List Char} {h g : Heap} {list : Option Nat}
    (parsed : siftPm4ParseRunlists past supply text h = .ok (.success, list, g)) :
    ∃ rows, Linked g.Holds Row.node list rows none ∧ rows.Pairwise Row.Apart ∧
      Returns past (RlsParser.ofText text) (rows.map Row.value) ∧ (list = none ↔ rows = []) ∧
      siftPm4DestroyRunlists list g =
        .ok (if rows = [] then (.error, g) else (.success, g.without rows)) := by
  unfold siftPm4ParseRunlists at parsed
  cases loop : seriesLoop past supply (text.length + 1) 0 (RlsParser.ofText text)
      ⟨none, none, none⟩ h with
  | error fault =>
    rw [loop] at parsed
    cases parsed
  | ok p =>
    simp only [loop, bind, Except.bind] at parsed
    split at parsed
    · cases cleaned : cleanup p.vars p.heap with
      | error fault =>
        rw [cleaned] at parsed
        cases parsed
      | ok f =>
        rw [cleaned] at parsed
        cases parsed
    · rename_i done
      cases parsed
      have start : Built h ⟨none, none, none⟩ [] := ⟨rfl, rfl, List.Pairwise.nil⟩
      obtain ⟨rows, built, returned⟩ := start.run loop (Bool.eq_false_iff.mpr done)
      exact ⟨rows, built.linked, built.apart, returned, built.linked.start_none_iff,
        Heap.destroy_list built.linked built.apart⟩

end

def SeriesSupply.plenty : SeriesSupply :=
  ⟨fun _ => true, fun _ => true, fun _ => true, fun _ => true, fun _ => .plenty, fun _ => true⟩

def Heap.empty : Heap := ⟨Store.empty, Store.empty, Store.empty, Store.empty⟩

def twoSections : List Char :=
  ("Node 1, gpu_id 1:\n" ++
    "  00000000: c005a200 00000000 00000000 00000000 00000000 00000000 00000000\n" ++
    "Node 2, gpu_id 2:\n" ++
    "  00000000: c005a200 00000000 00000000 00000000 00000000 00000000 00000000\n").toList

theorem parse_then_destroy_two : ∃ list g rows,
    siftPm4ParseRunlists (fun _ _ => 0#32) .plenty twoSections Heap.empty =
      .ok (.success, list, g) ∧ rows ≠ [] ∧
    siftPm4DestroyRunlists list g = .ok (.success, g.without rows) := by
  have parsed : (siftPm4ParseRunlists (fun _ _ => 0#32) .plenty twoSections Heap.empty).map
      (fun r => (r.1, r.2.1)) = .ok (.success, some 0) := by
    decide +kernel
  cases run : siftPm4ParseRunlists (fun _ _ => 0#32) .plenty twoSections Heap.empty with
  | error fault =>
    rw [run] at parsed
    cases parsed
  | ok r =>
    obtain ⟨status, list, g⟩ := r
    rw [run] at parsed
    cases parsed
    obtain ⟨rows, -, -, -, null, destroyed⟩ := parse_then_destroy run
    have some_row : rows ≠ [] := mt null.mpr (Option.some_ne_none 0)
    rw [if_neg some_row] at destroyed
    exact ⟨some 0, g, rows, rfl, some_row, destroyed⟩

/-- A text without a section parses with success, and its series cannot be destroyed. -/
theorem null_series_refused :
    ¬ ∀ text list g, siftPm4ParseRunlists (fun _ _ => 0#32) .plenty text Heap.empty =
        .ok (.success, list, g) → ∃ f, siftPm4DestroyRunlists list g = .ok (.success, f) := by
  intro clean
  have parsed : siftPm4ParseRunlists (fun _ _ => 0#32) .plenty [] Heap.empty =
      .ok (.success, none, Heap.empty) := rfl
  obtain ⟨f, destroyed⟩ := clean [] none Heap.empty parsed
  cases destroyed

end Rocsift.Pm4.Owned
