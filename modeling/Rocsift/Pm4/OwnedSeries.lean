import Rocsift.Base.Chains
import Rocsift.Pm4.BodyStore
import Rocsift.Pm4.SeriesStore

/-! A runlist series with all four kinds of its blocks: nodes, runlists, arrays of entries, and the
bodies that the entries point to. -/
namespace Rocsift.Pm4.Owned
open Blocks (Store Fault)
open Sift (SiftStatus)

structure Heap where
  series : Store SeriesNode
  runlists : Store RunlistBlock
  entries : Store (List Entry)
  bodies : Bodies

/-- The allocations of a call that succeed: those of each kind of block by their number on the heap,
and, for each call of `Parse`, those up to the packet decoder, in it and behind it. -/
structure SeriesSupply where
  series : Nat → Bool
  runlist : Nat → Bool
  entries : Nat → Bool
  parse : Nat → Bool
  decode : Nat → Supply
  returned : Nat → Bool

def destroyRunlistEntries (entries : Option Nat) (n : Nat) (h : Heap) : Except Fault Heap := do
  let held ← match entries with
    | none => .ok []
    | some array => h.entries.load array
  if held.length < n then throw .outside
  else
    let bodies ← Store.freeEach ((held.take n).map Entry.body) h.bodies
    let arrays ← h.entries.free entries
    return { h with entries := arrays, bodies := bodies }

def siftPm4DestroyRunlist (runlist : Option Nat) (h : Heap) : Except Fault (SiftStatus × Heap) :=
  match runlist with
  | none => return (.error, h)
  | some r => do
    let rls ← h.runlists.load r
    let h ← destroyRunlistEntries rls.entries rls.num_entries h
    return (.success, h)

def destroySeries : Nat → Option Nat → Heap → Except Fault (SiftStatus × Heap)
  | _, none, h => return (.success, h)
  | 0, some _, _ => throw .endless
  | fuel + 1, some current, h => do
    let node ← h.series.load current
    let (rc, h) ← siftPm4DestroyRunlist node.runlist h
    if rc ≠ .success then return (rc, h)
    else
      let runlists ← h.runlists.free node.runlist
      let series ← h.series.free (some current)
      destroySeries fuel node.next { h with runlists := runlists, series := series }

/-- The walk takes a step more than there are nodes. -/
def siftPm4DestroyRunlists (runlists : Option Nat) (h : Heap) : Except Fault (SiftStatus × Heap) :=
  match runlists with
  | none => return (.error, h)
  | some _ => destroySeries (h.series.calls + 1) runlists h

structure Progress where
  threw : Bool
  vars : SeriesVars
  heap : Heap

section
variable (past : List Dword → Nat → Dword) (supply : SeriesSupply)

def buildEntries (k : Nat) (p : RlsParser) (b : Bodies) :
    Except Fault (Option (Option (List Entry) × RlsParser) × Bodies) :=
  if p.dwords_buffer_ = [] then return (some (none, p), b)
  else do
    let dwords := p.dwords_buffer_.flatten
    let p := { p with dwords_buffer_ := [] }
    let (result, b) ←
      parseRunlistEntries (memory dwords (past dwords)) (supply.decode k) (whole dwords) b
    -- behind the decoder there is the message of a failure or the copy of the result
    if !supply.returned k then return (none, b)
    else if result.status ≠ .success then return (some (none, p), b)
    else return (some (result.value, p), b)

def parse (k : Nat) (p : RlsParser) (b : Bodies) :
    Except Fault (Option (Option (List Entry) × RlsParser) × Bodies) :=
  if !supply.parse k then return (none, b)
  else
    let start := p.end_.getD p.rls_text.length
    match Looping.run RlsParser.turn (p.rls_text.length + 2)
        ⟨p.seek .node start, start, start, false⟩ with
    | none => throw .endless
    | some (.error _) => return (none, b)
    | some (.ok p) => buildEntries past supply k p b

/-- The body of the loop. Fields that the source has not set yet are zero. -/
def addRunlist (node : Node) (entries : List Entry) (v : SeriesVars) (h : Heap) :
    Except Fault Progress :=
  let series := h.series.malloc (supply.series h.series.calls) ⟨none, none⟩
  match series.1 with
  | none => return ⟨true, { v with current := none }, { h with series := series.2 }⟩
  | some current => do
    let v := { v with current := some current, runlists := v.runlists.or (some current) }
    let runlist := h.runlists.malloc (supply.runlist h.runlists.calls) ⟨⟨0#32, 0#32⟩, 0, none⟩
    let nodes ← series.2.write current ⟨runlist.1, none⟩
    match runlist.1 with
    | none => return ⟨true, v, { h with series := nodes, runlists := runlist.2 }⟩
    | some r =>
      let array := h.entries.malloc (supply.entries h.entries.calls) entries
      match array.1 with
      | none =>
        return ⟨true, v, { h with series := nodes, runlists := runlist.2, entries := array.2 }⟩
      | some a =>
        let runlists ← runlist.2.write r ⟨node, entries.length, some a⟩
        let linked ← linkPrev v.prev current nodes
        return ⟨false, { v with prev := some current }, ⟨linked, runlists, array.2, h.bodies⟩⟩

def seriesLoop : Nat → Nat → RlsParser → SeriesVars → Heap → Except Fault Progress
  | 0, _, _, _, _ => throw .endless
  | fuel + 1, k, parser, v, h => do
    let (parsed, bodies) ← parse past supply k parser h.bodies
    let h := { h with bodies := bodies }
    match parsed with
    | none => return ⟨true, v, h⟩
    | some (none, _) => return ⟨false, v, h⟩
    | some (some entries, parser) =>
      let p ← addRunlist supply ⟨parser.node_, parser.gpu_⟩ entries v h
      if p.threw then return p else seriesLoop fuel (k + 1) parser p.vars p.heap

def cleanup (v : SeriesVars) (h : Heap) : Except Fault Heap := do
  let h ← match v.current with
    | none => .ok h
    | some _ => (siftPm4DestroyRunlists v.current h).map Prod.snd
  if v.runlists ≠ none ∧ v.current ≠ v.runlists then
    (siftPm4DestroyRunlists v.runlists h).map Prod.snd
  else return h

def siftPm4ParseRunlists (runlist_file_contents : List Char) (h : Heap) :
    Except Fault (SiftStatus × Option Nat × Heap) := do
  let p ← seriesLoop past supply (runlist_file_contents.length + 1) 0
    (RlsParser.ofText runlist_file_contents) ⟨none, none, none⟩ h
  if p.threw then
    let h ← cleanup p.vars p.heap
    return (.error, p.vars.runlists, h)
  else return (.success, p.vars.runlists, p.heap)

end

end Rocsift.Pm4.Owned
