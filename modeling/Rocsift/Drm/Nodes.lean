import Mathlib.Data.String.Basic
import Mathlib.Logic.Function.Basic
import Rocsift.Base.Numerals
import Rocsift.Base.OrderedMap
import Rocsift.Base.Sorting

/-! The DRM nodes and their hives, as the constructor of `DRM` reads them. The node paths are a
`std::set`, so they come in order; what their files hold is a parameter, and a missing file is
`none`. Names are searched in the vector that is being built. -/
namespace Rocsift.Drm

abbrev Contents := List Char

/-- The directory `xgmi_hive_info`: for each of its subdirectories, in path order, the
directories below the `drm` of it. -/
structure HiveInfo where
  xgmi_hive_id : Option Contents
  nodes : List (List String)

structure NodeFiles where
  xgmi_device_id : Option Contents
  xgmi_physical_id : Option Contents
  xgmi_hive_info : Option HiveInfo

structure XGMIInfo where
  hive_id : BitVec 64
  device_id : BitVec 64
  physical_id : BitVec 64
  nodes : List Nat
  deriving DecidableEq

def XGMIInfo.start : XGMIInfo := ⟨0#64, 0#64, 0#64, []⟩

def isCard (name : String) : Bool := "card".toList.isPrefixOf name.toList

section
variable (root : OrderedMap String NodeFiles)

def nodeByName (name : String) : Option Nat := root.keys.findIdx? (· == name)

def cardOf (entries : List String) : Option Nat :=
  entries.findSome? fun name => if isCard name then nodeByName root name else none

/-- All members, or none of them if one is not found. -/
def memberNodes (node_paths : List (List String)) : List Nat :=
  (node_paths.mapM (cardOf root)).getD []

section
variable (std_sort : Sorting.Sorter Nat Nat)

/-- The physical ids that the members are sorted by are those that have been read by then. -/
def initXGMIInfo (xgmi : Nat → XGMIInfo) (node : Nat) (files : NodeFiles) : Nat → XGMIInfo :=
  match files.xgmi_device_id with
  | none => xgmi
  | some device_id =>
    let info := { xgmi node with device_id := Numerals.strtoul device_id }
    match files.xgmi_physical_id with
    | none => Function.update xgmi node info
    | some physical_id =>
      let info := { info with physical_id := Numerals.strtoul physical_id }
      match files.xgmi_hive_info with
      | none => Function.update xgmi node info
      | some hive_info =>
        match hive_info.xgmi_hive_id with
        | none => Function.update xgmi node info
        | some hive_id =>
          let info := { info with
            hive_id := Numerals.strtoul hive_id
            nodes := info.nodes ++ memberNodes root hive_info.nodes }
          let xgmi := Function.update xgmi node info
          Function.update xgmi node { info with
            nodes := std_sort.sort (fun n => (xgmi n).physical_id.toNat) info.nodes }

def initBefore (place : Nat) : Nat → XGMIInfo :=
  (root.entries.zipIdx.take place).foldl
    (fun xgmi n => initXGMIInfo root std_sort xgmi n.2 n.1.2) fun _ => .start

def makeDRM : Nat → XGMIInfo := initBefore root std_sort root.entries.length

end

end

end Rocsift.Drm
