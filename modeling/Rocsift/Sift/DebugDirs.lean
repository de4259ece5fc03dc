import Mathlib.Data.List.Find
import Rocsift.Sift.Grouping
import Rocsift.Sift.Members
import Rocsift.Sift.NameFile

/-! The search of a partition for its directory below `/sys/kernel/debug/dri`: the directories in
the order in which they are listed, each with its files. -/
namespace Rocsift.Sift

structure DriEntry where
  path : Nat
  files : Option (List (String × Contents))
  distinct : ∀ fs ∈ files, (fs.map Prod.fst).Nodup

/-- `none` if there is no such directory, or one may not look into it. -/
abbrev Dri := Option (List DriEntry)

def kfdBus (n : KFDNode) : BitVec 32 := ((n.location_id >>> 8) &&& 0xff#64).setWidth 32

def kfdDevice (n : KFDNode) : BitVec 32 := ((n.location_id >>> 3) &&& 0x1f#64).setWidth 32

/-- The 64-bit domain of the node is compared with 32 bits. -/
def PciAddress.isOf (a : PciAddress) (n : KFDNode) : Prop :=
  n.domain_id = a.domain.setWidth 64 ∧ kfdBus n = a.bus ∧ kfdDevice n = a.device

instance (a : PciAddress) (n : KFDNode) : Decidable (a.isOf n) := instDecidableAnd

def scanFiles (n : KFDNode) : List (String × Contents) → Option Bool
  | [] => some false
  | (name, contents) :: fs =>
    if name = "name" then
      match readName contents with
      | none => none
      | some a => if a.isOf n then some true else scanFiles n fs
    else scanFiles n fs

def hasRegs2 (files : List (String × Contents)) : Bool := files.any fun f => f.1 = "amdgpu_regs2"

def scanDirs (n : KFDNode) : List DriEntry → Option (Option Nat)
  | [] => some none
  | d :: ds =>
    match d.files with
    | none => scanDirs n ds
    | some files =>
      if hasRegs2 files then
        match scanFiles n files with
        | none => none
        | some true => some (some d.path)
        | some false => scanDirs n ds
      else scanDirs n ds

/-- `ResolveDebugFS` up to the opening of the files: what is thrown in the search is caught, and
not to find a directory is thrown behind the `try`. -/
def searchDebugFS (dri : Dri) (n : KFDNode) : Except SiftStatus (Option Nat) :=
  match dri with
  | none => .ok none
  | some ds =>
    match scanDirs n ds with
    | none => .ok none
    | some none => .error .codeBug
    | some (some path) => .ok (some path)

def nameOf (files : List (String × Contents)) : Option (String × Contents) :=
  files.find? fun f => f.1 = "name"

def DriEntry.address (d : DriEntry) : Option PciAddress :=
  d.files.bind fun fs => if hasRegs2 fs then (nameOf fs).bind fun f => readName f.2 else none

def DriEntry.Readable (d : DriEntry) : Prop :=
  ∀ fs ∈ d.files, hasRegs2 fs → ∀ f ∈ nameOf fs, readName f.2 ≠ none

section
variable {n : KFDNode} {d : DriEntry}

theorem scanFiles_other (fs : List (String × Contents)) (others : ∀ f ∈ fs, f.1 ≠ "name") :
    scanFiles n fs = some false := by
  induction fs with
  | nil => rfl
  | cons f fs ih =>
    obtain ⟨other, others⟩ := List.forall_mem_cons.mp others
    rw [scanFiles, if_neg other]
    exact ih others

theorem nameOf_mem {fs : List (String × Contents)} (once : (fs.map Prod.fst).Nodup)
    {contents : Contents} (member : ("name", contents) ∈ fs) :
    nameOf fs = some ("name", contents) := by
  cases found : nameOf fs with
  | none => exact absurd (decide_eq_true rfl) (List.find?_eq_none.mp found _ member)
  | some f =>
    have named : f.1 = "name" := by simpa using List.find?_some found
    have same := List.inj_on_of_nodup_map once (List.mem_of_find?_eq_some found) member named
    rw [same]

theorem scanFiles_eq {fs : List (String × Contents)} (once : (fs.map Prod.fst).Nodup) :
    scanFiles n fs = match nameOf fs with
      | none => some false
      | some f => (readName f.2).map fun a => decide (a.isOf n) := by
  induction fs with
  | nil => rfl
  | cons f fs ih =>
    obtain ⟨new, once⟩ := List.nodup_cons.mp once
    by_cases named : f.1 = "name"
    · have others := scanFiles_other (n := n) fs fun g hg same =>
        new (List.mem_map.mpr ⟨g, hg, same.trans named.symm⟩)
      have found : nameOf (f :: fs) = some f := List.find?_cons_of_pos (decide_eq_true named)
      rw [found, scanFiles, if_pos named, others]
      cases read : readName f.2 with
      | none => simp only [read, Option.map_none]
      | some a =>
        simp only [read, Option.map_some]
        by_cases here : a.isOf n
        · simp only [here, if_true, decide_true]
        · simp only [here, if_false, decide_false]
    · have found : nameOf (f :: fs) = nameOf fs :=
        List.find?_cons_of_neg (by simpa using named)
      rw [found, scanFiles, if_neg named]
      exact ih once

def DriEntry.look (d : DriEntry) (n : KFDNode) : Option Bool :=
  match d.files with
  | none => some false
  | some fs => if hasRegs2 fs then scanFiles n fs else some false

theorem scanDirs_cons (ds : List DriEntry) :
    scanDirs n (d :: ds) = match d.look n with
      | none => none
      | some true => some (some d.path)
      | some false => scanDirs n ds := by
  rw [scanDirs, DriEntry.look]
  cases d.files with
  | none => rfl
  | some fs =>
    by_cases regs2 : hasRegs2 fs
    · simp only [if_pos regs2]
    · simp only [if_neg regs2]

theorem look_true (found : d.look n = some true) : ∃ a, d.address = some a ∧ a.isOf n := by
  unfold DriEntry.look at found
  split at found
  · cases found
  · rename_i fs files
    split at found
    · rename_i regs2
      rw [scanFiles_eq (d.distinct fs files)] at found
      split at found
      · cases found
      · rename_i f named
        obtain ⟨a, read, here⟩ := Option.map_eq_some_iff.mp found
        refine ⟨a, ?_, of_decide_eq_true here⟩
        rw [DriEntry.address, files, Option.bind_some, if_pos regs2, named, Option.bind_some, read]
    · cases found

theorem look_readable (readable : d.Readable) :
    d.look n = some (d.address.any fun a => a.isOf n) := by
  unfold DriEntry.look DriEntry.address
  cases files : d.files with
  | none => rfl
  | some fs =>
    rw [Option.bind_some]
    by_cases regs2 : hasRegs2 fs
    · simp only [if_pos regs2, scanFiles_eq (d.distinct fs files)]
      cases named : nameOf fs with
      | none => rfl
      | some f =>
        obtain ⟨a, read⟩ := Option.ne_none_iff_exists'.mp (readable fs files regs2 f named)
        simp only [read, Option.map_some, Option.bind_some, Option.any_some]
    · simp only [if_neg regs2, Option.any_none]

theorem scanDirs_found {ds : List DriEntry} {path : Nat}
    (found : scanDirs n ds = some (some path)) :
    ∃ d ∈ ds, d.path = path ∧ ∃ a, d.address = some a ∧ a.isOf n := by
  induction ds with
  | nil => cases found
  | cons d ds ih =>
    rw [scanDirs_cons] at found
    split at found
    · cases found
    · rename_i here
      cases found
      exact ⟨d, List.mem_cons_self, rfl, look_true here⟩
    · obtain ⟨d', member, rest⟩ := ih found
      exact ⟨d', List.mem_cons_of_mem _ member, rest⟩

theorem scanDirs_readable {ds : List DriEntry} (readable : ∀ d ∈ ds, d.Readable) :
    scanDirs n ds = some ((ds.find? fun d => d.address.any fun a => a.isOf n).map (·.path)) := by
  induction ds with
  | nil => rfl
  | cons d ds ih =>
    obtain ⟨here, later⟩ := List.forall_mem_cons.mp readable
    rw [scanDirs_cons, look_readable here, List.find?_cons]
    cases d.address.any fun a => a.isOf n with
    | true => rfl
    | false => exact ih later

theorem scanFiles_congr {n' : KFDNode} (same : ∀ a : PciAddress, a.isOf n ↔ a.isOf n')
    (fs : List (String × Contents)) : scanFiles n fs = scanFiles n' fs := by
  induction fs with
  | nil => rfl
  | cons f fs ih => simp only [scanFiles, same, ih]

theorem scanDirs_congr {n' : KFDNode} (same : ∀ a : PciAddress, a.isOf n ↔ a.isOf n')
    (ds : List DriEntry) : scanDirs n ds = scanDirs n' ds := by
  induction ds with
  | nil => rfl
  | cons d ds ih => simp only [scanDirs, scanFiles_congr same, ih]

theorem searchDebugFS_congr {n' : KFDNode} (same : ∀ a : PciAddress, a.isOf n ↔ a.isOf n')
    (dri : Dri) : searchDebugFS dri n = searchDebugFS dri n' := by
  cases dri with
  | none => rfl
  | some ds => simp only [searchDebugFS, scanDirs_congr same]

theorem searchDebugFS_found {dri : Dri} {path : Nat}
    (found : searchDebugFS dri n = .ok (some path)) :
    ∃ ds ∈ dri, ∃ d ∈ ds, d.path = path ∧ ∃ a, d.address = some a ∧ a.isOf n := by
  cases dri with
  | none => cases found
  | some ds =>
    simp only [searchDebugFS] at found
    split at found
    · cases found
    · cases found
    · rename_i path' scanned
      cases found
      exact ⟨ds, rfl, scanDirs_found scanned⟩

end

section
variable {a b : KFDNode}

theorem kfdBus_toNat (n : KFDNode) : (kfdBus n).toNat = n.location_id.toNat / 2 ^ 8 % 2 ^ 8 := by
  have mask : (0xff#64).toNat = 2 ^ 8 - 1 := by decide
  have small := Nat.mod_lt (n.location_id.toNat / 2 ^ 8) (Nat.two_pow_pos 8)
  rw [kfdBus, BitVec.toNat_setWidth, BitVec.toNat_and, mask, Nat.and_two_pow_sub_one_eq_mod,
    BitVec.toNat_ushiftRight, Nat.shiftRight_eq_div_pow]
  exact Nat.mod_eq_of_lt (Nat.lt_trans small (by decide))

theorem kfdDevice_toNat (n : KFDNode) :
    (kfdDevice n).toNat = n.location_id.toNat / 2 ^ 3 % 2 ^ 5 := by
  have mask : (0x1f#64).toNat = 2 ^ 5 - 1 := by decide
  have small := Nat.mod_lt (n.location_id.toNat / 2 ^ 3) (Nat.two_pow_pos 5)
  rw [kfdDevice, BitVec.toNat_setWidth, BitVec.toNat_and, mask, Nat.and_two_pow_sub_one_eq_mod,
    BitVec.toNat_ushiftRight, Nat.shiftRight_eq_div_pow]
  exact Nat.mod_eq_of_lt (Nat.lt_trans small (by decide))

theorem same_address (same : SameDevice a b) (p : PciAddress) : p.isOf a ↔ p.isOf b := by
  obtain ⟨domain, location⟩ := same
  have bus : kfdBus a = kfdBus b := by
    apply BitVec.eq_of_toNat_eq
    rw [kfdBus_toNat, kfdBus_toNat]
    omega
  have device : kfdDevice a = kfdDevice b := by
    apply BitVec.eq_of_toNat_eq
    rw [kfdDevice_toNat, kfdDevice_toNat]
    omega
  simp only [PciAddress.isOf, domain, bus, device]

theorem PciAddress.isOf.unique {p q : PciAddress} (hp : p.isOf a) (hq : q.isOf a) : p = q := by
  have wide := congrArg BitVec.toNat (hp.1.symm.trans hq.1)
  rw [BitVec.toNat_setWidth_of_le (by decide), BitVec.toNat_setWidth_of_le (by decide)] at wide
  have domain := BitVec.eq_of_toNat_eq wide
  have bus := hp.2.1.symm.trans hq.2.1
  have device := hp.2.2.symm.trans hq.2.2
  cases p
  cases q
  simp only at domain bus device
  rw [domain, bus, device]

theorem SameDevice.of_address {p : PciAddress} (ha : a.Addressed) (hb : b.Addressed)
    (of_a : p.isOf a) (of_b : p.isOf b) : SameDevice a b := by
  have bus := congrArg BitVec.toNat (of_a.2.1.trans of_b.2.1.symm)
  have device := congrArg BitVec.toNat (of_a.2.2.trans of_b.2.2.symm)
  rw [kfdBus_toNat, kfdBus_toNat] at bus
  rw [kfdDevice_toNat, kfdDevice_toNat] at device
  have la := ha.location
  have lb := hb.location
  exact ⟨of_a.1.trans of_b.1.symm, by omega⟩

end

/-- What the driver has put into a directory: nothing, or the interface of the GPU at an address. -/
def DriEntry.Written (d : DriEntry) : Option PciName → Prop
  | none => ∀ fs ∈ d.files, hasRegs2 fs = false
  | some a => ∃ fs, d.files = some fs ∧ hasRegs2 fs = true ∧ ("name", a.nameFile) ∈ fs

theorem DriEntry.Written.read {d : DriEntry} {a : Option PciName} (written : d.Written a) :
    d.Readable ∧ d.address = a.map PciName.address := by
  cases a with
  | none =>
    refine ⟨fun fs files regs2 => absurd regs2 (by simp [written fs files]), ?_⟩
    cases files : d.files with
    | none => simp only [address, files, Option.bind_none, Option.map_none]
    | some fs =>
      have without : ¬ hasRegs2 fs = true := by simp [written fs files]
      simp only [address, files, Option.bind_some, if_neg without, Option.map_none]
  | some a =>
    obtain ⟨fs, files, regs2, member⟩ := written
    have named : nameOf fs = some ("name", a.nameFile) := nameOf_mem (d.distinct fs files) member
    constructor
    · intro gs same _ f found
      obtain rfl := Option.some.inj (files.symm.trans same)
      obtain rfl := Option.some.inj (named.symm.trans found)
      simp only [a.readName_nameFile, ne_eq, reduceCtorEq, not_false_eq_true]
    · simp only [address, files, Option.bind_some, if_pos regs2, named, a.readName_nameFile,
        Option.map_some]

/-- Among directories as the driver writes them, a partition takes the first one that belongs to its
node, and the construction of the engine fails exactly if there is none. -/
theorem debugfs_found (ds : List DriEntry) (name : DriEntry → Option PciName)
    (written : ∀ d ∈ ds, d.Written (name d)) (n : KFDNode) :
    searchDebugFS (some ds) n =
      match ds.find? fun d => (name d).any fun a => a.address.isOf n with
      | some d => .ok (some d.path)
      | none => .error .codeBug := by
  have readable : ∀ d ∈ ds, d.Readable := fun d hd => (written d hd).read.1
  have same : (ds.find? fun d => d.address.any fun a => a.isOf n) =
      ds.find? fun d => (name d).any fun a => a.address.isOf n := by
    apply List.find?_congr
    intro d hd
    rw [(written d hd).read.2, Option.any_map]
  simp only [searchDebugFS, scanDirs_readable readable, same]
  cases ds.find? fun d => (name d).any fun a => a.address.isOf n <;> rfl

def twoGpus : List DriEntry :=
  let first : PciName := ⟨0, 0x31, 0, 0, by decide, by decide, by decide, by decide⟩
  let second : PciName := ⟨0, 0x41, 0, 0, by decide, by decide, by decide, by decide⟩
  [⟨1, some [("name", first.nameFile), ("amdgpu_regs2", [])], by decide⟩,
    ⟨2, some [("amdgpu_regs2", []), ("name", second.nameFile)], by decide⟩]

theorem debugfs_found_two :
    searchDebugFS (some twoGpus) ⟨4#64, 0x4100#64, 0#64, 1#64, 130#64⟩ = .ok (some 2) := by
  let first : PciName := ⟨0, 0x31, 0, 0, by decide, by decide, by decide, by decide⟩
  let second : PciName := ⟨0, 0x41, 0, 0, by decide, by decide, by decide, by decide⟩
  let name (d : DriEntry) : Option PciName := if d.path = 1 then some first else some second
  have written : ∀ d ∈ twoGpus, d.Written (name d) := by
    simp only [twoGpus, List.forall_mem_cons]
    refine ⟨?_, ?_, List.forall_mem_nil _⟩
    · exact ⟨_, rfl, by decide, List.mem_cons_self⟩
    · exact ⟨_, rfl, by decide, List.mem_cons_of_mem _ List.mem_cons_self⟩
  exact (debugfs_found twoGpus name written ⟨4#64, 0x4100#64, 0#64, 1#64, 130#64⟩).trans rfl

def Machine.searching (m : Machine) (dri : Dri) (nodes : List KFDNode) : Machine :=
  { m with
    resolve_debugfs := fun i => match nodes[i]? with
      | some n => searchDebugFS dri n
      | none => .error .codeBug }

/-- Two partitions of an engine that have a debugfs use one directory exactly if they are of one
device. -/
theorem debugfs_per_device (m : Machine) (dri : Dri)
    (links : ∀ ds ∈ dri, ∀ d ∈ ds, ∀ e ∈ ds, d.path = e.path → d = e) (nodes : List KFDNode)
    (all : ∀ n ∈ nodes, n.Addressed) (eng : Engine)
    (built : makeEngine (m.searching dri nodes) nodes = .ok eng) (p q : Partition)
    (hp : p ∈ eng.partitions_) (hq : q ∈ eng.partitions_) (path path' : Nat)
    (of_p : p.amdgpu_debugfs_ = some path) (of_q : q.amdgpu_debugfs_ = some path') :
    path = path' ↔ p.dev_ = q.dev_ := by
  obtain ⟨a, made⟩ := partition_made built hp
  obtain ⟨b, made'⟩ := partition_made built hq
  have addressed := node_addressed all made.gpu
  have addressed' := node_addressed all made'.gpu
  have searched (c : NodePtr) (gpu : c ∈ gpus nodes) :
      (m.searching dri nodes).resolve_debugfs c.index = searchDebugFS dri c.node := by
    simp only [Machine.searching, gpus_index gpu]
  have found := (searched a made.gpu).symm.trans made.debugfs
  have found' := (searched b made'.gpu).symm.trans made'.debugfs
  rw [of_p] at found
  rw [of_q] at found'
  rw [made.dev, made'.dev, deviceOf_eq_iff made.gpu, keyOf, keyOf,
    deviceKey_eq_iff addressed addressed']
  constructor
  · rintro rfl
    obtain ⟨ds, hds, d, hd, rfl, x, at_x, of_a⟩ := searchDebugFS_found found
    obtain ⟨es, hes, e, he, same, y, at_y, of_b⟩ := searchDebugFS_found found'
    obtain rfl := Option.some.inj (hds.symm.trans hes)
    obtain rfl := links ds hds e he d hd same
    obtain rfl := Option.some.inj (at_x.symm.trans at_y)
    exact .of_address addressed addressed' of_a of_b
  · intro same
    rw [searchDebugFS_congr (same_address same), found'] at found
    exact (Option.some.inj (Except.ok.inj found)).symm

theorem debugfs_per_device_two :
    let p : Partition := ⟨0, 0, 0, 0, 0, [0], some 1⟩
    let q : Partition := ⟨1, 2, 0, 2, 0, [0], some 2⟩
    1 = 2 ↔ p.dev_ = q.dev_ := by
  intro p q
  let m : Machine := ⟨fun _ _ => .ok none, fun _ => some 0, fun _ => .ok none⟩
  let nodes : List KFDNode := [⟨4#64, 0x3100#64, 0#64, 1#64, 128#64⟩,
    ⟨4#64, 0x3101#64, 0#64, 1#64, 129#64⟩, ⟨4#64, 0x4100#64, 0#64, 1#64, 130#64⟩]
  let eng : Engine :=
    let p' : Partition := ⟨0, 1, 1, 1, 0, [0], some 1⟩
    ⟨[⟨0, 0#32, 0x3100#16, [p, p']⟩, ⟨1, 0#32, 0x4100#16, [q]⟩], [p, p', q]⟩
  have built : makeEngine (m.searching (some twoGpus) nodes) nodes = .ok eng := by rfl
  have links : ∀ ds ∈ some twoGpus, ∀ d ∈ ds, ∀ e ∈ ds, d.path = e.path → d = e := by
    rintro ds ⟨⟩ d hd e he same
    exact List.inj_on_of_nodup_map (by decide : (twoGpus.map DriEntry.path).Nodup) hd he same
  have all : ∀ n ∈ nodes, n.Addressed := by
    simp only [nodes, List.forall_mem_cons]
    refine ⟨⟨by decide, by decide⟩, ⟨by decide, by decide⟩, ⟨by decide, by decide⟩, ?_⟩
    exact List.forall_mem_nil _
  have hp : p ∈ eng.partitions_ := List.mem_cons_self
  have hq : q ∈ eng.partitions_ :=
    List.mem_cons_of_mem _ (List.mem_cons_of_mem _ List.mem_cons_self)
  exact debugfs_per_device m (some twoGpus) links nodes all eng built p q hp hq 1 2 rfl rfl

end Rocsift.Sift
