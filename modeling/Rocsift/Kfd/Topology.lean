import Rocsift.Base.Listing
import Rocsift.Base.Stoul
import Rocsift.Kfd.Override

/-! The KFD topology: the directories below `topology/nodes`, in the order in which they are listed,
and the nodes that `KFDHandle` makes of them. -/
namespace Rocsift.Kfd
open Sift (SiftStatus)
open Pm4 (isSpace)

structure NodeDir where
  name : List Char
  properties : List Char
  gpu_id : List Char

structure KFDNode where
  node_ : Int
  kfd_properties_ : Properties
  gpu_id_ : Int

def Thrown.status : Thrown → SiftStatus
  | .statusError s => s
  | .out_of_range => .error

/-- A standard exception ends as `SIFT_STATUS_ERROR`. -/
def orError {A : Type} : Option A → Except SiftStatus A
  | some a => .ok a
  | none => .error .error

section
variable (char_override : Option (List Char))

def makeKFDNode (kfd_dir : NodeDir) : Except SiftStatus KFDNode := do
  let node ← orError (Stoul.stoi isSpace kfd_dir.name)
  let props ← (parseWithOverride kfd_dir.properties char_override).mapError Thrown.status
  let gpu_id ← orError (Stoul.stoi isSpace kfd_dir.gpu_id)
  return ⟨node, props, gpu_id⟩

def makeNodes (std_sort : Sorting.Sorter KFDNode Int) (topo : List NodeDir) :
    Except SiftStatus (List KFDNode) :=
  Listing.readSorted std_sort KFDNode.node_ (makeKFDNode char_override) topo

def Numbered (topo : List NodeDir) : Prop :=
  (topo.map fun d => Stoul.stoi isSpace d.name).Nodup

theorem makeKFDNode_number {d : NodeDir} {n : KFDNode} (h : makeKFDNode char_override d = .ok n) :
    Stoul.stoi isSpace d.name = some n.node_ := by
  obtain ⟨node, number, h⟩ := Outcome.bind_ok h
  obtain ⟨props, -, h⟩ := Outcome.bind_ok h
  obtain ⟨gpu_id, -, h⟩ := Outcome.bind_ok h
  cases h
  cases found : Stoul.stoi isSpace d.name with
  | none =>
    rw [found] at number
    cases number
  | some v =>
    rw [found] at number
    exact congrArg some (Except.ok.inj number)

theorem numbers_of {topo : List NodeDir} {ns : List KFDNode}
    (h : topo.mapM (makeKFDNode char_override) = .ok ns) :
    ns.map (fun n => some n.node_) = topo.map fun d => Stoul.stoi isSpace d.name := by
  have all := Outcome.mapM_ok h
  clear h
  induction all with
  | nil => rfl
  | cons made _ ih =>
    rw [List.map_cons, List.map_cons, ih, makeKFDNode_number char_override made]

theorem makeNodes_agree (std_sort std_sort' : Sorting.Sorter KFDNode Int)
    {topo topo' : List NodeDir} (perm : topo.Perm topo') (numbered : Numbered topo) :
    Listing.Agree (makeNodes char_override std_sort topo)
      (makeNodes char_override std_sort' topo') := by
  apply Listing.readSorted_agree std_sort std_sort' (R := Eq)
  · exact ⟨topo', perm, List.forall₂_same.mpr fun _ _ => rfl⟩
  · rintro d - _ rfl
    exact Listing.Agree.refl _
  · intro ns read
    have numbers := numbers_of char_override read
    rw [Numbered, ← numbers] at numbered
    apply List.Nodup.of_map some
    rw [List.map_map]
    exact numbered

end

end Rocsift.Kfd
