import Rocsift.Sift.Descriptors
import Rocsift.Sift.Members

/-! The engine with its descriptors against the engine without: when it depends on the file alone
whether an `open` succeeds, the engine that is built is the one of `makeEngine`, and it tells which
partitions and devices have which privileges. -/
namespace Rocsift.Sift
open Blocks Unwinding

def OpenPartition.partition (p : OpenPartition) : Partition :=
  ⟨p.dev_, p.kfdnode_, p.local_id_, p.global_id_, p.drmnode_, p.xcc_die_ids_,
    p.amdgpu_debugfs_.map AMDGPUDebugFS.root_⟩

def OpenDevice.device (d : OpenDevice) : Device :=
  ⟨d.instance_, d.domain_, d.bdf_, d.partitions_.map OpenPartition.partition⟩

def OpenEngine.engine (e : OpenEngine) : Engine :=
  ⟨e.devices_.map OpenDevice.device,
    (e.devices_.map OpenDevice.device).flatMap Device.partitions_⟩

structure Rights where
  debugfs : Option Nat
  sram : Bool
  partition_sram : List Bool
  deriving DecidableEq

def OpenDevice.rights (d : OpenDevice) : Rights :=
  ⟨d.debugfs_.map AMDGPUDebugFS.root_, d.sram_.isSome, d.partitions_.map (·.sram_.isSome)⟩

section
variable (works : File → Bool) (m : Machine)

def debugfsWorks (root : Nat) : Bool :=
  works (.amdgpu_regs2 root) && works (.amdgpu_vram root) && works (.amdgpu_iomem root)

/-- The machine as the partitions see it: a directory counts if its files can be opened. -/
def Machine.opened : Machine :=
  { m with resolve_debugfs := fun node => (m.resolve_debugfs node).map (·.filter (debugfsWorks works)) }

/-- A device has the debugfs of its first partition, and who has a debugfs may use system memory if
`/dev/mem` can be opened. -/
def Device.rights (d : Device) : Rights :=
  let debugfs := d.partitions_[0]?.bind Partition.amdgpu_debugfs_
  ⟨debugfs, debugfs.isSome && works .dev_mem,
    d.partitions_.map fun p => p.amdgpu_debugfs_.isSome && works .dev_mem⟩

end

def OpenPartition.view (p : OpenPartition) : Partition × Bool := (p.partition, p.sram_.isSome)

def Partition.view (works : File → Bool) (p : Partition) : Partition × Bool :=
  (p, p.amdgpu_debugfs_.isSome && works .dev_mem)

def firstRoot (ps : List (Partition × Bool)) : Option Nat := ps[0]?.bind (·.1.amdgpu_debugfs_)

section
variable {works : File → Bool} {m : Machine}

theorem first_opened {dev : Nat} {table : Option (List Die)} {nodes : List (NodePtr × Nat)}
    {ps : List Partition} (built : partitionsFromNodes (m.opened works) dev table nodes = .ok ps) :
    (firstRoot (ps.map (Partition.view works))).filter (debugfsWorks works) =
      ps[0]?.bind Partition.amdgpu_debugfs_ := by
  cases ps with
  | nil => rfl
  | cons p ps =>
    change p.amdgpu_debugfs_.filter (debugfsWorks works) = p.amdgpu_debugfs_
    obtain ⟨n, -, i, xcc, made⟩ := mem_partitionsFromNodes built List.mem_cons_self
    obtain ⟨-, -, -, found⟩ := makePartition_ok made
    change (m.resolve_debugfs n.1.index).map (·.filter (debugfsWorks works)) = _ at found
    cases before : m.resolve_debugfs n.1.index with
    | error status =>
      rw [before] at found
      cases found
    | ok d =>
      rw [before] at found
      have filtered : d.filter (debugfsWorks works) = p.amdgpu_debugfs_ := Except.ok.inj found
      rw [← filtered, Option.filter_filter]
      simp only [Bool.and_self]

end

section
variable (works : File → Bool) (m : Machine)

theorem makeAMDGPUDebugFS_gives (root : Nat) :
    Gives (makeAMDGPUDebugFS (fun _ => works) root) AMDGPUDebugFS.root_
      (if debugfsWorks works root then .ok root else .error .error) := by
  let outcome (f : File) : Except SiftStatus Unit := if works f then .ok () else .error .error
  have opened (f : File) : Gives (openFile (fun _ => works) f) (fun _ => ()) (outcome f) :=
    gives_take works f SiftStatus.error
  have clean (f : File) : Clean (openFile (fun _ => works) f) := clean_take _ f SiftStatus.error
  have two := (opened (.amdgpu_regs2 root)).pair (q := fun _ => outcome (.amdgpu_vram root))
    (clean _) (fun _ => opened _) fun _ => clean _
  have three := two.pair (q := fun _ => outcome (.amdgpu_iomem root))
    ((clean _).pair fun _ => clean _) (fun _ => opened _) fun _ => clean _
  have made := three.map (f := fun fds => (⟨root, fds.1.1, fds.1.2, fds.2⟩ : AMDGPUDebugFS))
    (h := AMDGPUDebugFS.root_) (k := fun _ => root) fun _ => rfl
  refine (congrArg (Gives _ _) ?_).mp made
  simp only [outcome, debugfsWorks]
  by_cases regs2 : works (.amdgpu_regs2 root) <;> by_cases vram : works (.amdgpu_vram root) <;>
    by_cases iomem : works (.amdgpu_iomem root) <;>
      simp [regs2, vram, iomem, Except.bind, Except.map]

theorem resolveDebugFS_gives (node : Nat) :
    Gives (resolveDebugFS (fun _ => works) m node) (Option.map AMDGPUDebugFS.root_)
      ((m.opened works).resolve_debugfs node) := by
  unfold resolveDebugFS
  simp only [Machine.opened]
  cases m.resolve_debugfs node with
  | error status => exact gives_throwing status
  | ok found =>
    cases found with
    | none => exact gives_done none
    | some root =>
      refine (congrArg (Gives _ _) ?_).mp (makeAMDGPUDebugFS_gives works root).attempt
      cases good : debugfsWorks works root <;> simp [Except.map, Option.filter, good, Except.toOption]

theorem resolveSRAM_gives (debugfs : Option AMDGPUDebugFS) :
    Gives (resolveSRAM (fun _ => works) debugfs) Option.isSome
      (.ok ((debugfs.map AMDGPUDebugFS.root_).isSome && works .dev_mem)) := by
  cases debugfs with
  | none => exact gives_done none
  | some d =>
    have made := ((gives_take works .dev_mem SiftStatus.error).map (f := SRAMAccessor.mk)
      (h := fun _ => ()) (k := id) fun _ => rfl).attempt
    intro s
    obtain ⟨r, t, run, same⟩ := made s
    refine ⟨r, t, run, ?_⟩
    cases r with
    | error status => cases same
    | ok accessor =>
      have some_iff := congrArg (Except.map Option.isSome) same
      simp only [Except.map, Option.isSome_map] at some_iff ⊢
      rw [some_iff]
      cases works .dev_mem <;> rfl

theorem openPartition_gives (dev i : Nat) (ptr : NodePtr) (global_id : Nat)
    (xcc_die_ids : List Nat) :
    Gives (openPartition (fun _ => works) m dev i ptr global_id xcc_die_ids) OpenPartition.view
      ((makePartition (m.opened works) dev i ptr global_id xcc_die_ids).map
        (Partition.view works)) := by
  unfold openPartition makePartition
  have same : (m.opened works).node_by_name = m.node_by_name := rfl
  rw [same]
  cases m.node_by_name ptr.node.drm_render_minor with
  | none => exact gives_throwing _
  | some drm_node =>
    have both := (resolveDebugFS_gives works m ptr.index).pair
      (q := fun root => .ok (root.isSome && works .dev_mem)) (resolveDebugFS_clean _ m _)
      (resolveSRAM_gives works) (resolveSRAM_clean _)
    have made := both.map
      (f := fun fs => (⟨dev, ptr.index, i, global_id, drm_node, xcc_die_ids, fs.1, fs.2⟩ :
        OpenPartition)) (h := OpenPartition.view)
      (k := fun fs => (⟨dev, ptr.index, i, global_id, drm_node, xcc_die_ids, fs.1⟩, fs.2))
      fun _ => rfl
    refine (congrArg (Gives _ _) ?_).mp made
    cases (m.opened works).resolve_debugfs ptr.index <;> rfl

theorem openPartitions_give (dev i : Nat) (nodes : List (NodePtr × Nat)) (ids : List (List Nat)) :
    ∃ os, List.Forall₂ (fun x o => Clean x ∧ Gives x OpenPartition.view o)
        (openPartitions (fun _ => works) m dev i nodes ids) os ∧
      inTurn os =
        (makePartitions (m.opened works) dev i nodes ids).map (List.map (Partition.view works)) := by
  induction nodes generalizing i ids with
  | nil => exact ⟨[], .nil, rfl⟩
  | cons n nodes ih =>
    cases ids with
    | nil => exact ⟨[], .nil, rfl⟩
    | cons xcc ids =>
      obtain ⟨ptr, global_id⟩ := n
      obtain ⟨os, all, turns⟩ := ih (i + 1) ids
      refine ⟨_, .cons ⟨openPartition_clean _ m dev i ptr global_id xcc,
        openPartition_gives works m dev i ptr global_id xcc⟩ all, ?_⟩
      rw [inTurn, turns, makePartitions]
      cases makePartition (m.opened works) dev i ptr global_id xcc with
      | error status => rfl
      | ok p => cases makePartitions (m.opened works) dev (i + 1) nodes ids <;> rfl

theorem openPartitionsFromNodes_gives (dev : Nat) (table : Option (List Die))
    (nodes : List (NodePtr × Nat)) :
    Gives (openPartitionsFromNodes (fun _ => works) m dev table nodes) (List.map OpenPartition.view)
      ((partitionsFromNodes (m.opened works) dev table nodes).map
        (List.map (Partition.view works))) := by
  unfold openPartitionsFromNodes partitionsFromNodes
  split
  · exact gives_done []
  · cases xccDieIds table (nodes.map fun n => n.1.node) with
    | error status => exact gives_throwing status
    | ok ids =>
      cases ids with
      | none => exact gives_done []
      | some ids =>
        obtain ⟨os, all, turns⟩ := openPartitions_give works m dev 0 nodes ids
        exact (congrArg (Gives _ _) turns).mp (gives_pushEach all)

theorem deviceDebugFS_gives (ps : List OpenPartition) :
    Gives (deviceDebugFS (fun _ => works) ps) (Option.map AMDGPUDebugFS.root_)
      (.ok ((firstRoot (ps.map OpenPartition.view)).filter (debugfsWorks works))) := by
  unfold deviceDebugFS firstRoot
  rw [List.getElem?_map]
  cases ps[0]? with
  | none => exact (gives_throwing SiftStatus.error).attempt
  | some p =>
    simp only [Option.map_some, Option.bind_some, OpenPartition.view, OpenPartition.partition]
    cases p.amdgpu_debugfs_ with
    | none => exact (gives_throwing SiftStatus.notPrivileged).attempt
    | some d =>
      refine (congrArg (Gives _ _) ?_).mp (makeAMDGPUDebugFS_gives works d.root_).attempt
      cases good : debugfsWorks works d.root_ <;> simp [Option.filter, good, Except.toOption]

theorem openDevice_gives (b : DeviceBuilder) :
    Gives (openDevice (fun _ => works) m b) (fun d => (d.device, d.rights))
      ((makeDevice (m.opened works) b).map fun d => (d, d.rights works)) := by
  unfold openDevice makeDevice
  have same : (m.opened works).ip_discovery = m.ip_discovery := rfl
  rw [same]
  cases m.ip_discovery b.domain b.bdf with
  | error status => exact gives_throwing status
  | ok table =>
    have parts := (openPartitionsFromNodes_gives works m b.inst table b.nodes).pair
      (q := fun ps => .ok ((firstRoot ps).filter (debugfsWorks works)))
      (openPartitionsFromNodes_clean _ m _ _ _) (deviceDebugFS_gives works)
      (deviceDebugFS_clean _)
    have both := parts.pair (q := fun fs => .ok (fs.2.isSome && works .dev_mem))
      ((openPartitionsFromNodes_clean _ m _ _ _).pair (deviceDebugFS_clean _))
      (fun a => resolveSRAM_gives works a.2) fun a => resolveSRAM_clean _ a.2
    have made := both.map
      (f := fun fs => (⟨b.inst, b.domain, b.bdf, fs.1.1, fs.1.2, fs.2⟩ : OpenDevice))
      (h := fun d => (d.device, d.rights))
      (k := fun fs => (⟨b.inst, b.domain, b.bdf, fs.1.1.map Prod.fst⟩,
        ⟨fs.1.2, fs.2, fs.1.1.map Prod.snd⟩)) ?_
    · refine (congrArg (Gives _ _) ?_).mp made
      cases built : partitionsFromNodes (m.opened works) b.inst table b.nodes with
      | error status => simp [Except.bind, Except.map, bind, built]
      | ok ps =>
        simp [Except.bind, Except.map, bind, pure, Except.pure, built, first_opened built,
          Device.rights, Partition.view, Function.comp_def]
    · intro fs
      simp [OpenDevice.device, OpenDevice.rights, Function.comp_def, OpenPartition.view, Prod.map]

theorem openEngine_gives (nodes : List KFDNode) :
    Gives (openEngine (fun _ => works) m nodes) (fun e => (e.engine, e.devices_.map OpenDevice.rights))
      ((makeEngine (m.opened works) nodes).map fun e =>
        (e, e.devices_.map (Device.rights works))) := by
  let entries := (enumerate (nodePtrs nodes)).builders.entries
  have all : List.Forall₂
      (fun x o => Clean x ∧ Gives x (fun d : OpenDevice => (d.device, d.rights)) o)
      (entries.map fun e => openDevice (fun _ => works) m e.2)
      (entries.map fun e => (makeDevice (m.opened works) e.2).map fun d => (d, d.rights works)) := by
    rw [List.forall₂_map_left_iff, List.forall₂_map_right_iff]
    exact List.forall₂_same.mpr fun e _ =>
      ⟨openDevice_clean _ m e.2, openDevice_gives works m e.2⟩
  have made := (gives_pushEach all).map (f := OpenEngine.mk)
    (h := fun e => (e.engine, e.devices_.map OpenDevice.rights))
    (k := fun ds => (⟨ds.map Prod.fst, (ds.map Prod.fst).flatMap Device.partitions_⟩,
      ds.map Prod.snd)) ?_
  · refine (congrArg (Gives _ _) ?_).mp made
    rw [inTurn_map]
    unfold makeEngine enumerateDevices
    cases entries.mapM fun e => makeDevice (m.opened works) e.2 with
    | error status => simp [Except.map, bind, Except.bind]
    | ok ds => simp [Except.map, bind, Except.bind, pure, Except.pure, Function.comp_def]
  · intro ds
    simp [OpenEngine.engine, Function.comp_def]

end

/-- If it depends on the file alone whether an `open` succeeds, then the engine that is built is the
one of the model, a device may use the debugfs of its first partition, and system memory may be used
just by those that have a debugfs. -/
theorem engine_rights (works : File → Bool) (m : Machine) (nodes : List KFDNode)
    (s : Store File) :
    ∃ r t, openEngine (fun _ => works) m nodes s = .ok (r, t) ∧
      r.map (fun e => (e.engine, e.devices_.map OpenDevice.rights)) =
        (makeEngine (m.opened works) nodes).map fun e =>
          (e, e.devices_.map (Device.rights works)) :=
  openEngine_gives works m nodes s

end Rocsift.Sift
