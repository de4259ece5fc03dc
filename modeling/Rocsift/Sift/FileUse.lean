import Rocsift.Sift.Accessors

/-! Which descriptors a call uses: only those of the partition or device it goes through, and no two
of these have one in common. -/
namespace Rocsift.Sift
open Seeking Blocks Unwinding

def File.gpu : File → Option Nat
  | .amdgpu_regs2 root => some root
  | .amdgpu_vram root => some root
  | .amdgpu_iomem _ => none
  | .dev_mem => none

def Request.OfSystemMem : Request → Prop
  | .read .systemMem _ _ => True
  | .write .systemMem _ _ => True
  | _ => False

/-- The descriptors for a request: only system memory is not a file of the own GPU. -/
def Interface.Uses (i : Interface) (r : Request) (fd : Nat) : Prop :=
  ∃ f, (fd, f) ∈ (holds i : List (Nat × File)) ∧
    (¬r.OfSystemMem → ∃ d, i.debugfs = some d ∧ f.gpu = some d.root_)

section
variable {allowed : Nat → Prop}

theorem seekRead_only {fd : Nat} (ok : allowed fd) (address count : BitVec 64) :
    (seekRead fd address count).Only fun x => allowed x.d := ⟨ok, fun _ => trivial⟩

theorem seekWrite_only {fd : Nat} (ok : allowed fd) (address : BitVec 64)
    (bytes : List (BitVec 8)) : (seekWrite fd address bytes).Only fun x => allowed x.d :=
  ⟨ok, fun _ => trivial⟩

theorem throwing_only {A B : Type} {x : Throwing A} {f : A → Throwing B}
    (first : Client.Only (fun x => allowed x.d) x.run)
    (rest : ∀ a, Client.Only (fun x => allowed x.d) (f a).run) :
    Client.Only (fun x => allowed x.d) (x >>= f).run := by
  refine Client.Only.bind first fun r => ?_
  cases r with
  | error status => trivial
  | ok a => exact rest a

theorem lift_only {A : Type} {p : Accesses A} (only : p.Only fun x => allowed x.d) :
    Client.Only (fun x => allowed x.d) (liftM p : Throwing A).run :=
  Client.Only.bind only fun _ => trivial

variable {d : AMDGPUDebugFS} (ok : allowed d.mmio_.id)
include ok

theorem mmioReadReg32_only (reg : BitVec 64) :
    Client.Only (fun x => allowed x.d) (d.mmioReadReg32 reg).run := by
  refine throwing_only (lift_only (seekRead_only ok _ _)) fun n => ?_
  cases n with
  | none => trivial
  | some bytes =>
    dsimp only
    split
    · trivial
    · trivial

theorem mmioWriteReg32_only (reg : BitVec 64) (value : BitVec 32) :
    Client.Only (fun x => allowed x.d) (d.mmioWriteReg32 reg value).run := by
  refine throwing_only (lift_only (seekWrite_only ok _ _)) fun n => ?_
  cases n with
  | none => trivial
  | some n =>
    dsimp only
    split
    · trivial
    · trivial

theorem smnReadReg32_only (reg : BitVec 64) :
    Client.Only (fun x => allowed x.d) (d.smnReadReg32 reg).run :=
  throwing_only (mmioWriteReg32_only ok _ _) fun _ =>
    throwing_only (mmioWriteReg32_only ok _ _) fun _ => mmioReadReg32_only ok _

theorem smnWriteReg32_only (reg : BitVec 64) (value : BitVec 32) :
    Client.Only (fun x => allowed x.d) (d.smnWriteReg32 reg value).run :=
  throwing_only (mmioWriteReg32_only ok _ _) fun _ =>
    throwing_only (mmioWriteReg32_only ok _ _) fun _ => mmioWriteReg32_only ok _ _

end

section
variable {i : Interface} {d : AMDGPUDebugFS} {a : SRAMAccessor}

theorem Interface.holds_debugfs (own : i.debugfs = some d) {e : Nat × File}
    (member : e ∈ (holds d : List (Nat × File))) : e ∈ (holds i : List (Nat × File)) := by
  refine List.mem_append_right _ ?_
  rw [own]
  exact member

theorem Interface.uses_mmio (own : i.debugfs = some d) (r : Request) : i.Uses r d.mmio_.id :=
  ⟨_, holds_debugfs own (List.mem_append_right _ (List.mem_append_right _ List.mem_cons_self)),
    fun _ => ⟨d, own, rfl⟩⟩

theorem Interface.uses_vram (own : i.debugfs = some d) (r : Request) : i.Uses r d.vram_.id :=
  ⟨_, holds_debugfs own (List.mem_append_right _ (List.mem_append_left _ List.mem_cons_self)),
    fun _ => ⟨d, own, rfl⟩⟩

theorem Interface.uses_iomem (own : i.debugfs = some d) {r : Request} (system : r.OfSystemMem) :
    i.Uses r d.iomem_.id :=
  ⟨_, holds_debugfs own (List.mem_append_left _ List.mem_cons_self),
    fun other => absurd system other⟩

theorem Interface.uses_devmem (own : i.sram = some a) {r : Request} (system : r.OfSystemMem) :
    i.Uses r a.devmem_.id := by
  refine ⟨.dev_mem, List.mem_append_left _ ?_, fun other => absurd system other⟩
  rw [own]
  exact List.mem_cons_self

theorem Interface.perform_only (i : Interface) (address : BitVec 64) (r : Request) :
    (i.perform address r).Only fun x => i.Uses r x.d := by
  cases r with
  | read region addr size =>
    cases region with
    | other => trivial
    | videoMem =>
      unfold perform
      cases own : i.debugfs with
      | none => trivial
      | some d => exact seekRead_only (uses_vram own _) _ _
    | systemMem =>
      unfold perform
      cases own : i.debugfs with
      | none => trivial
      | some d =>
        cases sram : i.sram with
        | none => trivial
        | some a =>
          let r : Request := .read .systemMem addr size
          have system : r.OfSystemMem := trivial
          refine Client.Only.bind (seekRead_only (uses_iomem own system) _ _) fun n => ?_
          cases n with
          | some bytes => trivial
          | none => exact seekRead_only (uses_devmem sram system) _ _
  | write region addr data =>
    cases region with
    | other => trivial
    | videoMem =>
      unfold perform
      cases own : i.debugfs with
      | none => trivial
      | some d => exact seekWrite_only (uses_vram own _) _ _
    | systemMem =>
      unfold perform
      cases own : i.debugfs with
      | none => trivial
      | some d =>
        cases sram : i.sram with
        | none => trivial
        | some a =>
          let r : Request := .write .systemMem addr data
          have system : r.OfSystemMem := trivial
          refine Client.Only.bind (seekWrite_only (uses_iomem own system) _ _) fun n => ?_
          cases n with
          | some n => trivial
          | none => exact seekWrite_only (uses_devmem sram system) _ _
  | readReg32 ap reg =>
    unfold perform
    cases own : i.debugfs with
    | none => trivial
    | some d =>
      cases ap with
      | mmio => exact mmioReadReg32_only (uses_mmio own _) reg
      | smn => exact smnReadReg32_only (uses_mmio own _) reg
  | writeReg32 value ap reg =>
    unfold perform
    cases own : i.debugfs with
    | none => trivial
    | some d =>
      cases ap with
      | mmio => exact mmioWriteReg32_only (uses_mmio own _) reg value
      | smn => exact smnWriteReg32_only (uses_mmio own _) reg value

end

namespace OpenEngine
variable {eng : OpenEngine}

def held (eng : OpenEngine) (h : Handle) : List (Nat × File) :=
  ((eng.interface h).map holds).getD []

def partitionInterface (p : OpenPartition) : Interface := ⟨p.amdgpu_debugfs_, p.sram_⟩

def deviceInterface (d : OpenDevice) : Interface := ⟨d.debugfs_, d.sram_⟩

theorem holds_perm (eng : OpenEngine) : (holds eng : List (Nat × File)).Perm
    (eng.devices_.flatMap (fun d => holds (deviceInterface d)) ++
      eng.partitions.flatMap fun p => holds (partitionInterface p)) := by
  have parts : (holds eng : List (Nat × File)) = eng.devices_.flatMap fun d =>
      holds (deviceInterface d) ++ d.partitions_.flatMap fun p => holds (partitionInterface p) := by
    refine List.flatMap_congr fun d _ => ?_
    exact (List.append_assoc _ _ _).symm
  rw [parts, partitions, List.flatMap_assoc]
  exact (List.flatMap_append_perm ..).symm

theorem place_unique {A : Type} {l : List A} {f : A → List (Nat × File)}
    (once : ((l.flatMap f).map Prod.fst).Nodup) {n m : Nat} {x y : A} (at_n : l[n]? = some x)
    (at_m : l[m]? = some y) {fd : Nat} (here : fd ∈ (f x).map Prod.fst)
    (there : fd ∈ (f y).map Prod.fst) : n = m := by
  rw [List.map_flatMap, List.nodup_flatMap, List.pairwise_iff_getElem] at once
  obtain ⟨hn, rfl⟩ := List.getElem?_eq_some_iff.mp at_n
  obtain ⟨hm, rfl⟩ := List.getElem?_eq_some_iff.mp at_m
  rcases Nat.lt_trichotomy n m with less | same | more
  · exact absurd there (once.2 n m hn hm less here)
  · exact same
  · exact absurd here (once.2 m n hm hn more there)

theorem held_cases {h : Handle} {e : Nat × File} (member : e ∈ eng.held h) :
    (∃ n d, h = .device n ∧ eng.devices_[n]? = some d ∧
        e ∈ (holds (deviceInterface d) : List (Nat × File))) ∨
      ∃ n p, h = .partition n ∧ eng.partitions[n]? = some p ∧
        e ∈ (holds (partitionInterface p) : List (Nat × File)) := by
  cases h with
  | device n =>
    simp only [held, interface, Option.map_map] at member
    cases found : eng.devices_[n]? with
    | none =>
      rw [found] at member
      cases member
    | some d =>
      rw [found] at member
      exact .inl ⟨n, d, rfl, found, member⟩
  | partition n =>
    simp only [held, interface, Option.map_map] at member
    cases found : eng.partitions[n]? with
    | none =>
      rw [found] at member
      cases member
    | some p =>
      rw [found] at member
      exact .inr ⟨n, p, rfl, found, member⟩

theorem mem_holds {h : Handle} {e : Nat × File} (member : e ∈ eng.held h) :
    e ∈ (holds eng : List (Nat × File)) := by
  rw [(holds_perm eng).mem_iff, List.mem_append, List.mem_flatMap, List.mem_flatMap]
  rcases held_cases member with ⟨n, d, -, found, inside⟩ | ⟨n, p, -, found, inside⟩
  · exact .inl ⟨d, List.mem_of_getElem? found, inside⟩
  · exact .inr ⟨p, List.mem_of_getElem? found, inside⟩

theorem held_unique (once : (ids (V := File) eng).Nodup) {h h' : Handle} {fd : Nat} {f f' : File}
    (here : (fd, f) ∈ eng.held h) (there : (fd, f') ∈ eng.held h') : h = h' := by
  have key {l : List (Nat × File)} {f : File} (member : (fd, f) ∈ l) : fd ∈ l.map Prod.fst :=
    List.mem_map_of_mem (f := Prod.fst) member
  have apart := ((holds_perm eng).map Prod.fst).nodup_iff.mp once
  rw [List.map_append, List.nodup_append] at apart
  obtain ⟨devices, partitions, between⟩ := apart
  have mixed {n m : Nat} {d : OpenDevice} {p : OpenPartition} {f f' : File}
      (at_n : eng.devices_[n]? = some d) (at_m : eng.partitions[m]? = some p)
      (inside : (fd, f) ∈ (holds (deviceInterface d) : List (Nat × File)))
      (inside' : (fd, f') ∈ (holds (partitionInterface p) : List (Nat × File))) : False := by
    refine between fd (key (List.mem_flatMap.mpr ⟨d, List.mem_of_getElem? at_n, inside⟩)) fd ?_ rfl
    exact key (List.mem_flatMap.mpr ⟨p, List.mem_of_getElem? at_m, inside'⟩)
  rcases held_cases here with ⟨n, d, rfl, at_n, inside⟩ | ⟨n, p, rfl, at_n, inside⟩ <;>
    rcases held_cases there with ⟨m, d', rfl, at_m, inside'⟩ | ⟨m, p', rfl, at_m, inside'⟩
  · exact congrArg Handle.device (place_unique devices at_n at_m (key inside) (key inside'))
  · exact (mixed at_n at_m inside inside').elim
  · exact (mixed at_m at_n inside' inside).elim
  · exact congrArg Handle.partition (place_unique partitions at_n at_m (key inside) (key inside'))

/-- A call comes only to descriptors of the object that it goes through. -/
theorem accesses_only (drm : Nat → DRMNode) (c : ApiCall) : (eng.accesses drm c).Only fun x =>
    ∃ h a i, eng.target drm c = .through h a ∧ eng.interface h = some i ∧ i.Uses c.request x.d := by
  unfold accesses
  cases target : eng.target drm c with
  | undefined => trivial
  | thrown status => trivial
  | through h address =>
    dsimp only
    cases found : eng.interface h with
    | none => trivial
    | some i =>
      refine Client.Only.bind ?_ fun _ => trivial
      exact (i.perform_only address c.request).mono fun x uses => ⟨h, address, i, rfl, found, uses⟩

end OpenEngine

end Rocsift.Sift
