import Rocsift.Base.Chains
import Rocsift.Xlator.Range

/-! `sift_xlator_translate_range` with the nodes of its list on a heap. An allocation succeeds or
fails by its number; what the caller's pointer holds is set on success alone. -/
namespace Rocsift.Xlator
open Looping
open Blocks (Store Fault)

structure FragmentNode where
  fragment : Fragment
  next : Option Nat
  deriving DecidableEq

inductive Status where
  | success
  /-- A status other than 0. -/
  | failed
  /-- The process exits. -/
  | exited
  deriving DecidableEq

structure Returned where
  status : Status
  list : Option Nat
  heap : Store FragmentNode

structure StoreState where
  cursor : Cursor
  count : Nat
  prev : Fragment
  head : Option Nat
  node : Option Nat
  heap : Store FragmentNode

/-- A list has no more nodes than there were calls of `malloc`. -/
def siftXlatorFragmentListDestroy (list : Option Nat) (heap : Store FragmentNode) :
    Except Fault (Store FragmentNode) :=
  heap.freeChain FragmentNode.next (heap.calls + 1) list

def linkNode (node : Option Nat) (next : Nat) (heap : Store FragmentNode) :
    Except Fault (Store FragmentNode) :=
  match node with
  | none => .error .outside
  | some node => do
    let last ← heap.load node
    heap.write node { last with next := some next }

section
variable (supply : Nat → Bool)

/-- A node for the pending fragment, at the end of the list: the head and the last node, or `none`
if there is no memory for it. Of a list that there is, the head is freed then. -/
def emit (s : StoreState) : Except Fault (Option (Nat × Nat) × Store FragmentNode) :=
  let made := s.heap.malloc (supply s.heap.calls) ⟨s.prev, none⟩
  match s.head with
  | none =>
    match made.1 with
    | none => .ok (none, made.2)
    | some head => .ok (some (head, head), made.2)
  | some head =>
    match made.1 with
    | none => do
      let heap ← made.2.free (some head)
      return (none, heap)
    | some next => do
      let heap ← linkNode s.node next made.2
      return (some (head, next), heap)

variable (mem : Memory) (h : WalkHelper) (va : BitVec 64) (combine : Bool) (list : Option Nat)

def translateRangeOnBody (s : StoreState) : Turn StoreState (Except Fault Returned) :=
  if s.cursor.addr < va + s.cursor.size then
    match s.cursor.advance mem h with
    | none => .leave (.ok ⟨.failed, list, s.heap⟩)
    | some (curr, cursor) =>
      if s.count = 0 then .again { s with cursor := cursor, count := s.count + 1, prev := curr }
      else
        match place combine s.prev curr with
        | .overlap =>
          .leave ((siftXlatorFragmentListDestroy s.head s.heap).map fun heap =>
            ⟨.failed, list, heap⟩)
        | .exit => .leave (.ok ⟨.exited, list, s.heap⟩)
        | .joined =>
          .again { s with
            cursor := cursor, count := s.count + 1
            prev := { s.prev with size := s.prev.size + curr.size } }
        | .separate =>
          match emit supply s with
          | .error fault => .leave (.error fault)
          | .ok (none, heap) => .leave (.ok ⟨.failed, list, heap⟩)
          | .ok (some (head, node), heap) =>
            .again ⟨cursor, s.count + 1, curr, some head, some node, heap⟩
  else
    match emit supply s with
    | .error fault => .leave (.error fault)
    | .ok (none, heap) => .leave (.ok ⟨.failed, list, heap⟩)
    | .ok (some (head, _), heap) => .leave (.ok ⟨.success, some head, heap⟩)

end

def storeStart (va size : BitVec 64) (heap : Store FragmentNode) : StoreState :=
  ⟨⟨PdeCache.cleared, va, size⟩, 0, Fragment.cleared, none, none, heap⟩

def siftXlatorTranslateRangeOn (supply : Nat → Bool) (mem : Memory) (r : Registers)
    (va size : BitVec 64) (combine : Bool) (list : Option Nat) (heap : Store FragmentNode)
    (result : Except Fault Returned) : Prop :=
  Ends (translateRangeOnBody supply mem (populateWalkHelper r) va combine list)
    (storeStart va size heap) result

end Rocsift.Xlator
