import Rocsift.Base.Blocks
import Rocsift.Pm4.Sections

/-! `sift_pm4_parse_runlists` with its allocations, `sift_pm4_destroy_runlists`, and what the catch
handler of the former does. Each type of block has a store of its own; packet bodies are kept in
their entries. -/
namespace Rocsift.Pm4
open Blocks (Store Fault)
open Sift (SiftStatus)

structure SeriesNode where
  runlist : Option Nat
  next : Option Nat
  deriving DecidableEq

structure RunlistBlock where
  node : Node
  num_entries : Nat
  entries : Option Nat
  deriving DecidableEq

structure Heap where
  series : Store SeriesNode
  runlists : Store RunlistBlock
  entries : Store (List RunlistEntry)

/-- The allocations that succeed: those of each type of block by their number, and all that the
call of `Parse` with this number makes. -/
structure Supply where
  series : Nat → Bool
  runlist : Nat → Bool
  entries : Nat → Bool
  parse : Nat → Bool

/-- The array must hold `n` entries: each of their bodies is freed. -/
def destroyRunlistEntries (entries : Option Nat) (n : Nat) (h : Heap) : Except Fault Heap := do
  let held ← match entries with
    | none => .ok []
    | some array => h.entries.load array
  if held.length < n then throw .outside
  else
    let arrays ← h.entries.free entries
    return { h with entries := arrays }

def siftPm4DestroyRunlist (runlist : Option Nat) (h : Heap) : Except Fault (SiftStatus × Heap) :=
  match runlist with
  | none => return (.error, h)
  | some r => do
    let rls ← h.runlists.load r
    let h ← destroyRunlistEntries rls.entries rls.num_entries h
    return (.success, h)

def destroySeries : Nat → Option Nat → Heap → Except Fault (SiftStatus × Heap)
  | _, none, h => return (.success, h)
  | 0, some _, _ => throw .endless
  | fuel + 1, some current, h => do
    let node ← h.series.load current
    let (rc, h) ← siftPm4DestroyRunlist node.runlist h
    if rc ≠ .success then return (rc, h)
    else
      let runlists ← h.runlists.free node.runlist
      let series ← h.series.free (some current)
      destroySeries fuel node.next { h with runlists := runlists, series := series }

def siftPm4DestroyRunlists (runlists : Option Nat) (h : Heap) : Except Fault (SiftStatus × Heap) :=
  match runlists with
  | none => return (.error, h)
  | some _ => destroySeries (h.series.calls + 1) runlists h

structure SeriesVars where
  runlists : Option Nat
  current : Option Nat
  prev : Option Nat

structure Progress where
  threw : Bool
  vars : SeriesVars
  heap : Heap

def linkPrev (prev : Option Nat) (current : Nat) (nodes : Store SeriesNode) :
    Except Fault (Store SeriesNode) :=
  match prev with
  | none => .ok nodes
  | some prev => do
    let last ← nodes.load prev
    nodes.write prev { last with next := some current }

section
variable (past : List Dword → Nat → Dword) (supply : Supply)

/-- The body of the loop. Fields that the source has not set yet are zero. -/
def addRunlist (node : Node) (entries : List RunlistEntry) (v : SeriesVars) (h : Heap) :
    Except Fault Progress :=
  let series := h.series.malloc (supply.series h.series.calls) ⟨none, none⟩
  match series.1 with
  | none => return ⟨true, { v with current := none }, { h with series := series.2 }⟩
  | some current => do
    let v := { v with current := some current, runlists := v.runlists.or (some current) }
    let runlist := h.runlists.malloc (supply.runlist h.runlists.calls) ⟨⟨0#32, 0#32⟩, 0, none⟩
    let nodes ← series.2.write current ⟨runlist.1, none⟩
    match runlist.1 with
    | none => return ⟨true, v, ⟨nodes, runlist.2, h.entries⟩⟩
    | some r =>
      let array := h.entries.malloc (supply.entries h.entries.calls) entries
      match array.1 with
      | none => return ⟨true, v, ⟨nodes, runlist.2, array.2⟩⟩
      | some a =>
        let runlists ← runlist.2.write r ⟨node, entries.length, some a⟩
        let linked ← linkPrev v.prev current nodes
        return ⟨false, { v with prev := some current }, ⟨linked, runlists, array.2⟩⟩

def seriesLoop : Nat → Nat → RlsParser → SeriesVars → Heap → Except Fault Progress
  | 0, _, _, _, _ => throw .endless
  | fuel + 1, k, parser, v, h =>
    if supply.parse k then
      match parser.parse past with
      | none => throw .endless
      | some (.error _) => return ⟨true, v, h⟩
      | some (.ok (none, _)) => return ⟨false, v, h⟩
      | some (.ok (some entries, parser)) => do
        let p ← addRunlist supply ⟨parser.node_, parser.gpu_⟩ entries v h
        if p.threw then return p else seriesLoop fuel (k + 1) parser p.vars p.heap
    else return ⟨true, v, h⟩

def buildSeries (runlist_file_contents : List Char) (h : Heap) : Except Fault Progress :=
  seriesLoop past supply (runlist_file_contents.length + 1) 0
    (RlsParser.ofText runlist_file_contents) ⟨none, none, none⟩ h

def cleanup (v : SeriesVars) (h : Heap) : Except Fault Heap := do
  let h ← match v.current with
    | none => .ok h
    | some _ => (siftPm4DestroyRunlists v.current h).map Prod.snd
  if v.runlists ≠ none ∧ v.current ≠ v.runlists then
    (siftPm4DestroyRunlists v.runlists h).map Prod.snd
  else return h

def siftPm4ParseRunlistsOn (runlist_file_contents : List Char) (h : Heap) :
    Except Fault (SiftStatus × Option Nat × Heap) := do
  let p ← buildSeries past supply runlist_file_contents h
  if p.threw then
    let h ← cleanup p.vars p.heap
    return (.error, p.vars.runlists, h)
  else return (.success, p.vars.runlists, p.heap)

end

end Rocsift.Pm4
