import Rocsift.Drm.RenderNodes
import Rocsift.Sift.Rights
import Rocsift.Sift.XccDies

/-! `sift_init` from the files of the system: the engine does not depend on the order in which any
directory is listed. -/
namespace Rocsift.Sift
open Listing (Agree Relisted)

/-- What an engine is built from. A directory that is listed has its entries in some order; the DRM
nodes are in a `std::set`, which has its own. -/
structure SysFS where
  topology : List Kfd.NodeDir
  devid_override : Option (List Char)
  ip_discovery : BitVec 32 → BitVec 16 → Option (List Ipdiscovery.DieDir)
  drm : OrderedMap String Drm.NodeFiles
  dri : Dri
  works : File → Bool

structure Sorts where
  nodes : Sorting.Sorter Kfd.KFDNode Int
  table : Ipdiscovery.Sorts

def nodeOf (n : Kfd.KFDNode) : KFDNode :=
  ⟨n.kfd_properties_ .simd_count, n.kfd_properties_ .location_id, n.kfd_properties_ .domain_id,
    n.kfd_properties_ .num_xcc, n.kfd_properties_ .drm_render_minor⟩

namespace SysFS
variable (fs : SysFS) (sorts : Sorts)

def table (domain : BitVec 32) (bdf : BitVec 16) : Except SiftStatus (Option (List Die)) :=
  match fs.ip_discovery domain bdf with
  | none => .ok none
  | some root => do
    let dies ← Ipdiscovery.makeRoot sorts.table root
    return some (dies.map dieOf)

def machine (nodes : List KFDNode) : Machine :=
  let m : Machine := ⟨fs.table sorts, fun minor => Drm.nodeByName fs.drm (Drm.renderName minor),
    fun _ => .error .codeBug⟩
  (m.searching fs.dri nodes).opened fs.works

def init : Except SiftStatus Engine := do
  let nodes ← Kfd.makeNodes fs.devid_override sorts.nodes fs.topology
  makeEngine (fs.machine sorts (nodes.map nodeOf)) (nodes.map nodeOf)

end SysFS

structure SameDir (d e : DriEntry) : Prop where
  path : d.path = e.path
  files : Option.Rel List.Perm d.files e.files

structure SysFS.Relisted (fs fs' : SysFS) : Prop where
  topology : fs.topology.Perm fs'.topology
  devid_override : fs.devid_override = fs'.devid_override
  ip_discovery : ∀ domain bdf, Option.Rel (Listing.Relisted Ipdiscovery.SameDie)
    (fs.ip_discovery domain bdf) (fs'.ip_discovery domain bdf)
  drm : fs.drm = fs'.drm
  dri : Option.Rel (Listing.Relisted SameDir) fs.dri fs'.dri
  works : fs.works = fs'.works

/-- No two nodes, dies or instances have one number, and what belongs to one GPU below `dri` is one
directory, perhaps with links to it, in which the address can be read. -/
structure SysFS.Distinct (fs : SysFS) : Prop where
  nodes : Kfd.Numbered fs.topology
  tables : ∀ domain bdf, ∀ root ∈ fs.ip_discovery domain bdf, Ipdiscovery.Distinct root
  readable : ∀ ds ∈ fs.dri, ∀ d ∈ ds, d.Readable
  gpus : ∀ ds ∈ fs.dri, ∀ d ∈ ds, ∀ e ∈ ds, ∀ a, d.address = some a → e.address = some a →
    d.path = e.path

section
variable {d e : DriEntry} {n : KFDNode}

theorem hasRegs2_perm {fs gs : List (String × Contents)} (perm : fs.Perm gs) :
    hasRegs2 fs = hasRegs2 gs := by
  rw [Bool.eq_iff_iff, hasRegs2, hasRegs2, List.any_eq_true, List.any_eq_true]
  simp only [perm.mem_iff]

theorem nameOf_perm {fs gs : List (String × Contents)} (perm : fs.Perm gs)
    (once : (fs.map Prod.fst).Nodup) : nameOf fs = nameOf gs := by
  have found := Listing.find?_relisted (R := Eq) (fun f => decide (f.1 = "name"))
    (fun f => decide (f.1 = "name")) id
    ⟨gs, perm, List.forall₂_same.mpr fun _ _ => rfl⟩ (fun _ _ same => same ▸ ⟨rfl, rfl⟩) ?_
  · rwa [Option.map_id, id, id] at found
  · intro f hf g hg named named'
    exact List.inj_on_of_nodup_map once hf hg
      ((of_decide_eq_true named).trans (of_decide_eq_true named').symm)

theorem SameDir.address (same : SameDir d e) : d.address = e.address := by
  have files := same.files
  unfold DriEntry.address
  cases at_d : d.files with
  | none =>
    rw [at_d] at files
    cases files' : e.files with
    | none => rfl
    | some gs =>
      rw [files'] at files
      cases files
  | some fs =>
    rw [at_d] at files
    cases at_e : e.files with
    | none =>
      rw [at_e] at files
      cases files
    | some gs =>
      rw [at_e] at files
      obtain perm : fs.Perm gs := by
        cases files
        assumption
      simp only [Option.bind_some, hasRegs2_perm perm, nameOf_perm perm (d.distinct fs at_d)]

theorem SameDir.readable (same : SameDir d e) (readable : d.Readable) : e.Readable := by
  intro gs at_e regs2 f named
  have files := same.files
  rw [Option.mem_def.mp at_e] at files
  cases at_d : d.files with
  | none =>
    rw [at_d] at files
    cases files
  | some fs =>
    rw [at_d] at files
    obtain perm : fs.Perm gs := by
      cases files
      assumption
    rw [← hasRegs2_perm perm] at regs2
    rw [← nameOf_perm perm (d.distinct fs at_d)] at named
    exact readable fs at_d regs2 f named

theorem search_relisted {dri dri' : Dri} (relisted : Option.Rel (Listing.Relisted SameDir) dri dri')
    (readable : ∀ ds ∈ dri, ∀ d ∈ ds, d.Readable)
    (gpus : ∀ ds ∈ dri, ∀ d ∈ ds, ∀ e ∈ ds, ∀ a, d.address = some a → e.address = some a →
      d.path = e.path) : searchDebugFS dri n = searchDebugFS dri' n := by
  cases relisted with
  | none => rfl
  | @some ds es both =>
    have readable' : ∀ e ∈ es, e.Readable := by
      intro e he
      obtain ⟨d, hd, same⟩ := both.back he
      exact same.readable (readable ds rfl d hd)
    have found := Listing.find?_relisted (fun d => d.address.any fun a => decide (a.isOf n))
      (fun d => d.address.any fun a => decide (a.isOf n)) DriEntry.path both
      (fun d e same => ⟨by rw [same.address], same.path⟩) ?_
    · simp only [searchDebugFS, scanDirs_readable (readable ds rfl), scanDirs_readable readable',
        found]
    · intro d hd e he of_d of_e
      obtain ⟨a, at_a, here⟩ := (Option.any_eq_true _ _).mp of_d
      obtain ⟨b, at_b, here'⟩ := (Option.any_eq_true _ _).mp of_e
      obtain rfl := (of_decide_eq_true here).unique (of_decide_eq_true here')
      exact gpus ds rfl d hd e he a at_a at_b

end

section
variable {m m' : Machine}

structure Machine.Agree (m m' : Machine) : Prop where
  ip_discovery : ∀ domain bdf,
    Listing.Agree (m.ip_discovery domain bdf) (m'.ip_discovery domain bdf)
  node_by_name : m.node_by_name = m'.node_by_name
  resolve_debugfs : ∀ i, Listing.Agree (m.resolve_debugfs i) (m'.resolve_debugfs i)

theorem makePartition_agree (agree : m.Agree m') (dev i : Nat) (ptr : NodePtr) (global_id : Nat)
    (xcc : List Nat) :
    Agree (makePartition m dev i ptr global_id xcc) (makePartition m' dev i ptr global_id xcc) := by
  unfold makePartition
  rw [agree.node_by_name]
  split
  · exact Agree.refl _
  · exact (agree.resolve_debugfs ptr.index).bind fun _ _ => Agree.refl _

theorem makePartitions_agree (agree : m.Agree m') (dev i : Nat) (nodes : List (NodePtr × Nat))
    (ids : List (List Nat)) :
    Agree (makePartitions m dev i nodes ids) (makePartitions m' dev i nodes ids) := by
  induction nodes generalizing i ids with
  | nil => exact Agree.refl _
  | cons n nodes ih =>
    cases ids with
    | nil => exact Agree.refl _
    | cons xcc ids =>
      obtain ⟨ptr, global_id⟩ := n
      rw [makePartitions, makePartitions]
      exact (makePartition_agree agree dev i ptr global_id xcc).bind fun _ _ =>
        (ih (i + 1) ids).bind fun _ _ => Agree.refl _

theorem makeDevice_agree (agree : m.Agree m') (b : DeviceBuilder) :
    Agree (makeDevice m b) (makeDevice m' b) := by
  apply (agree.ip_discovery b.domain b.bdf).bind
  intro table _
  apply Agree.bind ?_ fun _ _ => Agree.refl _
  unfold partitionsFromNodes
  split
  · exact Agree.refl _
  · apply Agree.bind (Agree.refl _)
    intro ids _
    cases ids with
    | none => exact Agree.refl _
    | some ids => exact makePartitions_agree agree b.inst 0 b.nodes ids

theorem makeEngine_agree (agree : m.Agree m') (nodes : List KFDNode) :
    Agree (makeEngine m nodes) (makeEngine m' nodes) := by
  apply Agree.bind ?_ fun _ _ => Agree.refl _
  apply Listing.mapM_agree
  exact List.forall₂_same.mpr fun e _ => makeDevice_agree agree e.2

end

section
variable {fs fs' : SysFS}

theorem SysFS.machine_agree (relisted : fs.Relisted fs') (distinct : fs.Distinct)
    (sorts sorts' : Sorts) (nodes : List KFDNode) :
    (fs.machine sorts nodes).Agree (fs'.machine sorts' nodes) where
  ip_discovery domain bdf := by
    change Listing.Agree (fs.table sorts domain bdf) (fs'.table sorts' domain bdf)
    have tables := relisted.ip_discovery domain bdf
    unfold table
    cases root : fs.ip_discovery domain bdf with
    | none =>
      rw [root] at tables
      cases root' : fs'.ip_discovery domain bdf with
      | none => exact Agree.refl _
      | some es =>
        rw [root'] at tables
        cases tables
    | some ds =>
      rw [root] at tables
      cases root' : fs'.ip_discovery domain bdf with
      | none =>
        rw [root'] at tables
        cases tables
      | some es =>
        rw [root'] at tables
        obtain both : Listing.Relisted Ipdiscovery.SameDie ds es := by
          cases tables
          assumption
        exact (Ipdiscovery.makeRoot_agree sorts.table sorts'.table both
          (distinct.tables domain bdf ds root)).bind fun _ _ => Agree.refl _
  node_by_name := by
    change (fun minor => Drm.nodeByName fs.drm (Drm.renderName minor)) = _
    rw [relisted.drm]
    rfl
  resolve_debugfs i := by
    have same : (fs.machine sorts nodes).resolve_debugfs i =
        (fs'.machine sorts' nodes).resolve_debugfs i := by
      simp only [machine, Machine.opened, Machine.searching, relisted.works]
      cases nodes[i]? with
      | none => rfl
      | some n => simp only [search_relisted relisted.dri distinct.readable distinct.gpus]
    rw [same]
    exact Agree.refl _

end

/-- The table of a device is dealt out as the numbers in its files are. -/
theorem SysFS.table_read {fs : SysFS} (distinct : fs.Distinct) {sorts : Sorts} {domain : BitVec 32}
    {bdf : BitVec 16} {dies : List Die} (h : fs.table sorts domain bdf = .ok (some dies)) :
    ∃ root t, fs.ip_discovery domain bdf = some root ∧ root.mapM readDie = .ok t ∧
      ∀ std_sort die_sort, dies = makeRoot std_sort die_sort t := by
  unfold table at h
  cases found : fs.ip_discovery domain bdf with
  | none =>
    rw [found] at h
    cases h
  | some root =>
    rw [found] at h
    obtain ⟨made, built, h⟩ := Outcome.bind_ok h
    cases h
    obtain ⟨t, read, same⟩ := makeRoot_read built (distinct.tables domain bdf root found)
    exact ⟨root, t, rfl, read, same⟩

/-- The engine does not depend on the order in which directories are listed, nor on what `std::sort`
does to equal keys: on the same files, listed in any way, both constructions fail or both give the
same engine. -/
theorem engine_listing_order (fs fs' : SysFS) (sorts sorts' : Sorts) (relisted : fs.Relisted fs')
    (distinct : fs.Distinct) : (fs.init sorts).toOption = (fs'.init sorts').toOption := by
  change Agree (fs.init sorts) (fs'.init sorts')
  unfold SysFS.init
  rw [← relisted.devid_override]
  apply (Kfd.makeNodes_agree fs.devid_override sorts.nodes sorts'.nodes relisted.topology
    distinct.nodes).bind
  intro nodes _
  exact makeEngine_agree (SysFS.machine_agree relisted distinct sorts sorts' _) _

def smallSystem : SysFS where
  topology :=
    [⟨['0'], "simd_count 0\n".toList, ['0']⟩,
      ⟨['1'], "simd_count 4\nlocation_id 12544\nnum_xcc 1\ndrm_render_minor 128\n".toList, ['7']⟩]
  devid_override := none
  ip_discovery _ _ :=
    let gc (number : Char) : Ipdiscovery.InstanceDir :=
      ⟨[number], "0x00001000\n".toList, ['1'], ['0'], ['1', '1'], ['9'], ['4'], ['3']⟩
    some [⟨['0'], ['1'], [⟨"GC", [gc '0', gc '1']⟩]⟩, ⟨['1'], ['1'], [⟨"GC", [gc '0', gc '1']⟩]⟩]
  drm := ⟨[("renderD128", ⟨none, none, none⟩)], by decide⟩
  dri := some twoGpus
  works _ := true

def smallSystemReversed : SysFS where
  topology := smallSystem.topology.reverse
  devid_override := none
  ip_discovery domain bdf := (smallSystem.ip_discovery domain bdf).map fun dies =>
    dies.reverse.map fun d =>
      { d with ips := d.ips.map fun ip => { ip with instances := ip.instances.reverse } }
  drm := smallSystem.drm
  dri := some twoGpus.reverse
  works _ := true

theorem smallSystem_reversed : smallSystem.Relisted smallSystemReversed where
  topology := (List.reverse_perm _).symm
  devid_override := rfl
  ip_discovery domain bdf := by
    refine .some ⟨_, (List.reverse_perm _).symm, ?_⟩
    rw [List.forall₂_map_right_iff, List.forall₂_same]
    intro d _
    refine ⟨rfl, rfl, d.ips, .refl _, ?_⟩
    rw [List.forall₂_map_right_iff, List.forall₂_same]
    exact fun ip _ => ⟨rfl, (List.reverse_perm _).symm⟩
  drm := rfl
  dri := by
    refine .some ⟨_, (List.reverse_perm _).symm, List.forall₂_same.mpr fun d _ => ⟨rfl, ?_⟩⟩
    cases d.files with
    | none => exact .none
    | some fs => exact .some (.refl fs)
  works := rfl

theorem smallSystem_distinct : smallSystem.Distinct where
  nodes := by
    unfold Kfd.Numbered
    decide
  tables := by
    rintro domain bdf root ⟨⟩
    exact ⟨by decide, by decide, by decide⟩
  readable := by
    rintro ds ⟨⟩
    simp only [twoGpus, List.forall_mem_cons]
    refine ⟨?_, ?_, List.forall_mem_nil _⟩
    · exact (DriEntry.Written.read (a := some ⟨0, 0x31, 0, 0, by decide, by decide, by decide,
        by decide⟩) ⟨_, rfl, by decide, List.mem_cons_self⟩).1
    · exact (DriEntry.Written.read (a := some ⟨0, 0x41, 0, 0, by decide, by decide, by decide,
        by decide⟩) ⟨_, rfl, by decide, List.mem_cons_of_mem _ List.mem_cons_self⟩).1
  gpus := by
    rintro ds ⟨⟩ d hd e he a at_d at_e
    have once : (twoGpus.map DriEntry.address).Nodup := by decide +kernel
    rw [List.inj_on_of_nodup_map once hd he (at_d.trans at_e.symm)]

theorem engine_listing_order_reversed :
    let sorts : Sorts := ⟨Sorting.ranked fun _ => 0,
      ⟨Sorting.ranked fun _ => 0, Sorting.ranked fun _ => 0, Sorting.ranked fun _ => 0⟩⟩
    (smallSystem.init sorts).toOption = (smallSystemReversed.init sorts).toOption :=
  engine_listing_order smallSystem smallSystemReversed _ _ smallSystem_reversed
    smallSystem_distinct

end Rocsift.Sift
