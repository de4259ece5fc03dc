import Rocsift.Base.Unwinding
import Rocsift.Sift.Engine

/-! The file descriptors of an engine: which files its construction opens, and who closes them when
a constructor throws half-way or when the engine is deleted. -/
namespace Rocsift.Sift
open Blocks Unwinding

inductive File where
  | amdgpu_regs2 (root : Nat)
  | amdgpu_vram (root : Nat)
  | amdgpu_iomem (root : Nat)
  | dev_mem
  deriving DecidableEq

abbrev FDOwner (f : File) : Type := Block f

/-- `smn_` goes through the descriptor of `mmio_` and has none of its own. -/
structure AMDGPUDebugFS where
  root_ : Nat
  mmio_ : FDOwner (.amdgpu_regs2 root_)
  vram_ : FDOwner (.amdgpu_vram root_)
  iomem_ : FDOwner (.amdgpu_iomem root_)

structure SRAMAccessor where
  devmem_ : FDOwner .dev_mem

structure OpenPartition where
  dev_ : Nat
  kfdnode_ : Nat
  local_id_ : Nat
  global_id_ : Nat
  drmnode_ : Nat
  xcc_die_ids_ : List Nat
  amdgpu_debugfs_ : Option AMDGPUDebugFS
  sram_ : Option SRAMAccessor

structure OpenDevice where
  instance_ : Nat
  domain_ : BitVec 32
  bdf_ : BitVec 16
  partitions_ : List OpenPartition
  debugfs_ : Option AMDGPUDebugFS
  sram_ : Option SRAMAccessor

structure OpenEngine where
  devices_ : List OpenDevice

/- Members are destroyed from the last one to the first one. -/
instance : Owner File AMDGPUDebugFS := ⟨fun d => holds ((d.mmio_, d.vram_), d.iomem_)⟩

instance : Owner File SRAMAccessor := ⟨fun a => holds a.devmem_⟩

instance : Owner File OpenPartition := ⟨fun p => holds (p.amdgpu_debugfs_, p.sram_)⟩

instance : Owner File OpenDevice := ⟨fun d => holds ((d.partitions_, d.debugfs_), d.sram_)⟩

instance : Owner File OpenEngine := ⟨fun e => holds e.devices_⟩

/-- A constructor: every `open` is asked of the system anew, which may have run out of descriptors
in between. -/
abbrev Construct (A : Type) : Type := Build File SiftStatus A

section
variable (opens : Nat → File → Bool) (m : Machine)

def openFile (f : File) : Construct (FDOwner f) := .take opens f .error

def makeAMDGPUDebugFS (root : Nat) : Construct AMDGPUDebugFS :=
  .map (fun fds => ⟨root, fds.1.1, fds.1.2, fds.2⟩)
    (.pair (.pair (openFile opens (.amdgpu_regs2 root)) fun _ => openFile opens (.amdgpu_vram root))
      fun _ => openFile opens (.amdgpu_iomem root))

/-- `m.resolve_debugfs` is the search for the directory; a throw after it is caught. -/
def resolveDebugFS (node : Nat) : Construct (Option AMDGPUDebugFS) :=
  match m.resolve_debugfs node with
  | .error status => .throwing status
  | .ok none => .done none
  | .ok (some root) => .attempt (makeAMDGPUDebugFS opens root)

def resolveSRAM (debugfs : Option AMDGPUDebugFS) : Construct (Option SRAMAccessor) :=
  match debugfs with
  | none => .done none
  | some _ => .attempt (.map SRAMAccessor.mk (openFile opens .dev_mem))

def openPartition (dev i : Nat) (ptr : NodePtr) (global_id : Nat) (xcc_die_ids : List Nat) :
    Construct OpenPartition :=
  match m.node_by_name ptr.node.drm_render_minor with
  | none => .throwing .outOfRange
  | some drm_node =>
    .map (fun fs => ⟨dev, ptr.index, i, global_id, drm_node, xcc_die_ids, fs.1, fs.2⟩)
      (.pair (resolveDebugFS opens m ptr.index) (resolveSRAM opens))

def openPartitions (dev : Nat) :
    Nat → List (NodePtr × Nat) → List (List Nat) → List (Construct OpenPartition)
  | i, (ptr, global_id) :: nodes, xcc_die_ids :: ids =>
    openPartition opens m dev i ptr global_id xcc_die_ids :: openPartitions dev (i + 1) nodes ids
  | _, _, _ => []

def openPartitionsFromNodes (dev : Nat) (ipdiscovery_table : Option (List Die))
    (nodes : List (NodePtr × Nat)) : Construct (List OpenPartition) :=
  if nodes = [] then .done []
  else
    match xccDieIds ipdiscovery_table (nodes.map fun n => n.1.node) with
    | .error status => .throwing status
    | .ok none => .done []
    | .ok (some xcc_die_ids) => .pushEach (openPartitions opens m dev 0 nodes xcc_die_ids) []

/-- `partitions_.at(0)->DebugFS().Root()` may throw twice, and is in the `try` as well. -/
def deviceDebugFS (partitions : List OpenPartition) : Construct (Option AMDGPUDebugFS) :=
  .attempt <|
    match partitions[0]? with
    | none => .throwing .error
    | some p =>
      match p.amdgpu_debugfs_ with
      | none => .throwing .notPrivileged
      | some d => makeAMDGPUDebugFS opens d.root_

def openDevice (b : DeviceBuilder) : Construct OpenDevice :=
  match m.ip_discovery b.domain b.bdf with
  | .error status => .throwing status
  | .ok table =>
    .map (fun parts => ⟨b.inst, b.domain, b.bdf, parts.1.1, parts.1.2, parts.2⟩)
      (.pair (.pair (openPartitionsFromNodes opens m b.inst table b.nodes) (deviceDebugFS opens))
        fun parts => resolveSRAM opens parts.2)

def openEngine (nodes : List KFDNode) : Construct OpenEngine :=
  .map .mk
    (.pushEach ((enumerate (nodePtrs nodes)).builders.entries.map fun e => openDevice opens m e.2) [])

section

theorem makeAMDGPUDebugFS_clean (root : Nat) : Clean (makeAMDGPUDebugFS opens root) := by
  apply Clean.map
  · apply Clean.pair
    · exact (clean_take opens _ _).pair fun _ => clean_take opens _ _
    · exact fun _ => clean_take opens _ _
  · exact fun _ => rfl

theorem resolveDebugFS_clean (node : Nat) : Clean (resolveDebugFS opens m node) := by
  unfold resolveDebugFS
  split
  · exact clean_throwing _
  · exact clean_done rfl
  · exact (makeAMDGPUDebugFS_clean opens _).attempt

theorem resolveSRAM_clean (debugfs : Option AMDGPUDebugFS) : Clean (resolveSRAM opens debugfs) := by
  cases debugfs with
  | none => exact clean_done rfl
  | some _ =>
    apply Clean.attempt
    exact (clean_take opens _ _).map (g := SRAMAccessor.mk) fun _ => rfl

theorem openPartition_clean (dev i : Nat) (ptr : NodePtr) (global_id : Nat)
    (xcc_die_ids : List Nat) :
    Clean (openPartition opens m dev i ptr global_id xcc_die_ids) := by
  unfold openPartition
  split
  · exact clean_throwing _
  · apply Clean.map
    · exact (resolveDebugFS_clean opens m _).pair fun d => resolveSRAM_clean opens d
    · exact fun _ => rfl

theorem openPartitions_clean (dev i : Nat) (nodes : List (NodePtr × Nat)) (ids : List (List Nat)) :
    ∀ x ∈ openPartitions opens m dev i nodes ids, Clean x := by
  induction nodes generalizing i ids with
  | nil => exact List.forall_mem_nil _
  | cons n nodes ih =>
    cases ids with
    | nil => exact List.forall_mem_nil _
    | cons xcc ids =>
      exact List.forall_mem_cons.mpr ⟨openPartition_clean opens m dev i n.1 n.2 xcc, ih (i + 1) ids⟩

theorem openPartitionsFromNodes_clean (dev : Nat) (table : Option (List Die))
    (nodes : List (NodePtr × Nat)) : Clean (openPartitionsFromNodes opens m dev table nodes) := by
  unfold openPartitionsFromNodes
  split
  · exact clean_done rfl
  · split
    · exact clean_throwing _
    · exact clean_done rfl
    · exact clean_pushEach (openPartitions_clean opens m dev 0 nodes _)

theorem deviceDebugFS_clean (partitions : List OpenPartition) :
    Clean (deviceDebugFS opens partitions) := by
  apply Clean.attempt
  split
  · exact clean_throwing _
  · split
    · exact clean_throwing _
    · exact makeAMDGPUDebugFS_clean opens _

theorem openDevice_clean (b : DeviceBuilder) : Clean (openDevice opens m b) := by
  unfold openDevice
  split
  · exact clean_throwing _
  · apply Clean.map
    · apply Clean.pair
      · exact (openPartitionsFromNodes_clean opens m _ _ _).pair fun ps =>
          deviceDebugFS_clean opens ps
      · exact fun parts => resolveSRAM_clean opens parts.2
    · exact fun _ => rfl

theorem openEngine_clean (nodes : List KFDNode) : Clean (openEngine opens m nodes) := by
  apply Clean.map
  · apply clean_pushEach
    intro x member
    obtain ⟨e, -, rfl⟩ := List.mem_map.mp member
    exact openDevice_clean opens m e.2
  · exact fun _ => rfl

end

end

/-- Building an engine leaves no descriptor behind if it throws. Otherwise the engine owns all that
was opened, each descriptor is open on the file that its owner stands for, and deleting the engine
at any later time closes each of them once and no other one. -/
theorem engine_descriptors (opens : Nat → File → Bool) (m : Machine) (nodes : List KFDNode)
    (s : Store File) :
    ∃ r t, openEngine opens m nodes s = .ok (r, t) ∧
      match r with
      | .error _ => t.cells = s.cells
      | .ok eng =>
        (∀ fd ∈ (holds eng : List (Nat × File)), s.cells fd.1 = none ∧ t.cells fd.1 = some fd.2) ∧
          (t.without (ids (V := File) eng)).cells = s.cells ∧
          ∀ u : Store File, (∀ fd ∈ (holds eng : List (Nat × File)), u.cells fd.1 = some fd.2) →
            (ids (V := File) eng).Nodup ∧ destroy eng u = .ok (u.without (ids (V := File) eng)) := by
  obtain ⟨r, t, run, took⟩ := openEngine_clean opens m nodes s
  refine ⟨r, t, run, ?_⟩
  cases r with
  | error status =>
    have nothing : Took s t [] := took
    have same := nothing.same
    rwa [List.map_nil, Store.without_nil] at same
  | ok eng =>
    refine ⟨fun fd member => ⟨s.fresh _ (took.fresh fd member), took.found fd member⟩, took.same,
      fun u still => ⟨took.once, Store.freeEach_ok ?_ took.once⟩⟩
    intro i member
    obtain ⟨fd, hfd, rfl⟩ := List.mem_map.mp member
    exact ⟨fd.2, still fd hfd⟩

end Rocsift.Sift
