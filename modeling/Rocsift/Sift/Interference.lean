import Rocsift.Sift.FileUse

/-! Threads that read and write through one engine at the same time. `lseek` and the transfer behind
it are two system calls, and those of other threads may come between them. -/
namespace Rocsift.Sift
open Seeking Clients Blocks Unwinding

structure Kernel (S : Type) where
  seeks : File → BitVec 64 → Bool
  transfer : File → BitVec 64 → (t : Transfer) → S → t.Answer × S

def Transfer.failed : (t : Transfer) → t.Answer
  | .read _ => none
  | .write _ => none

def Transfer.moved (t : Transfer) (answer : t.Answer) : Nat :=
  match t, answer with
  | .read _, bytes => (bytes.map List.length).getD 0
  | .write _, n => n.getD 0

/-- The descriptors of a process; no call succeeds on one that is not open. -/
def Kernel.files {S : Type} (k : Kernel S) (table : Nat → Option File) :
    Files Nat (BitVec 64) Transfer Transfer.Answer S where
  seeks fd a := (table fd).any fun f => k.seeks f a
  transfer fd a t s :=
    match table fd with
    | some f => k.transfer f a t s
    | none => (t.failed, s)
  moved a t answer := a + BitVec.ofNat 64 (t.moved answer)

section
variable {I R : Type} [DecidableEq I] {opens : Nat → File → Bool} {m : Machine}
  {nodes : List KFDNode} {s t : Store File} {eng : OpenEngine}

theorem built_took (built : openEngine opens m nodes s = .ok (.ok eng, t)) :
    Took s t (holds eng) := by
  obtain ⟨r, u, run, took⟩ := openEngine_clean opens m nodes s
  cases built.symm.trans run
  exact took

/-- Threads that do not share the object that their calls go through do not disturb each other's
accesses: in whatever order the system calls come, each `lseek` with its transfer acts as one step,
at a turn of its thread. -/
theorem accesses_atomic {S : Type} (built : openEngine opens m nodes s = .ok (.ok eng, t))
    (drm : Nat → DRMNode) (k : Kernel S) {own : I → Handle → Prop}
    (apart : ∀ i j h, own i h → own j h → i = j) (threads : I → Client ApiCall ApiCall.Answer R)
    (within : ∀ i, (threads i).Only fun c => ∀ h a, eng.target drm c = .through h a → own i h)
    (order : List I) (start : Positioned Nat (BitVec 64) S) :
    let files := k.files t.cells
    ∃ turns : List I, turns.Sublist order ∧
      let split := run files.step order ⟨start, fun i => (threads i).through (eng.systemCalls drm)⟩
      let whole := run files.access turns
        ⟨start.contents, fun i => (threads i).through (eng.accesses drm)⟩
      split.shared.contents = whole.shared ∧
        ∀ i r, split.clients i = .done r ↔ whole.clients i = .done r := by
  intro files
  have once := (built_took built).once
  let uses (i : I) (fd : Nat) : Prop := ∃ h, own i h ∧ ∃ f, (fd, f) ∈ eng.held h
  have uses_apart (i j : I) (fd : Nat) : uses i fd → uses j fd → i = j := by
    rintro ⟨h, mine, f, here⟩ ⟨h', other, f', there⟩
    cases OpenEngine.held_unique once here there
    exact apart i j h mine other
  have only (i : I) : ((threads i).through (eng.accesses drm)).Only fun x => uses i x.d := by
    refine (within i).through fun c mine => (OpenEngine.accesses_only drm c).mono fun x used => ?_
    obtain ⟨h, a, face, target, found, f, member, -⟩ := used
    refine ⟨h, mine h a target, f, ?_⟩
    rw [OpenEngine.held, found]
    exact member
  have here : Simulates files
      ⟨start, fun i => (threads i).through (eng.systemCalls drm)⟩
      ⟨start.contents, fun i => (threads i).through (eng.accesses drm)⟩ :=
    ⟨rfl, fun i => .inl (Client.through_through _ _ _).symm⟩
  obtain ⟨turns, part, there⟩ := run_split files uses_apart order here only
  exact ⟨turns, part, there.contents, fun i r => (there.follows i).done_iff r⟩

structure GpuKernel (M : Type) extends Kernel (Nat → M) where
  own : ∀ f g, f.gpu = some g → ∀ a t s u, s g = u g →
    (transfer f a t s).1 = (transfer f a t u).1 ∧ (transfer f a t s).2 g = (transfer f a t u).2 g
  others : ∀ f g, f.gpu = some g → ∀ a t s h, h ≠ g → (transfer f a t s).2 h = s h

def GpuKernel.ofFiles {M : Type} (act : BitVec 64 → (t : Transfer) → M → t.Answer × M) :
    GpuKernel M where
  seeks _ _ := true
  transfer f a t s :=
    match f.gpu with
    | some g => ((act a t (s g)).1, Function.update s g (act a t (s g)).2)
    | none => (t.failed, s)
  own f g gpu a t s u same := by
    simp only [gpu, same, Function.update_self, and_self]
  others f g gpu a t s h away := by
    simp only [gpu, Function.update_of_ne away]

/-- Two states are the same to a thread that uses these GPUs: what is in them, and the positions of
the descriptors on their files. -/
structure SameGpus {M : Type} (table : Nat → Option File) (own : Nat → Prop)
    (s u : Positioned Nat (BitVec 64) (Nat → M)) : Prop where
  contents : ∀ g, own g → s.contents g = u.contents g
  position : ∀ fd f g, table fd = some f → f.gpu = some g → own g → s.position fd = u.position fd

def OnGpu (table : Nat → Option File) (own : Nat → Prop) (fd : Nat) : Prop :=
  ∃ f g, table fd = some f ∧ f.gpu = some g ∧ own g

section
variable {M : Type} {k : GpuKernel M} {table : Nat → Option File}

theorem step_own {own : Nat → Prop} {c : Step Nat (BitVec 64) Transfer}
    (mine : OnGpu table own c.descriptor) {s u : Positioned Nat (BitVec 64) (Nat → M)}
    (same : SameGpus table own s u) :
    let files := k.files table
    (files.step c s).1 = (files.step c u).1 ∧
      SameGpus table own (files.step c s).2 (files.step c u).2 := by
  obtain ⟨f, g, opened, gpu, own_g⟩ := mine
  cases c with
  | seek fd a =>
    simp only [Files.step]
    split
    · refine ⟨rfl, same.contents, fun fd' f' g' opened' gpu' own' => ?_⟩
      have before := same.position fd' f' g' opened' gpu' own'
      simp only [Function.update_apply, before]
    · exact ⟨rfl, same⟩
  | transfer fd t =>
    have position := same.position fd f g opened gpu own_g
    have inside := same.contents g own_g
    change table fd = some f at opened
    obtain ⟨answer, after⟩ := k.own f g gpu (u.position fd) t s.contents u.contents inside
    simp only [Files.step, Kernel.files, opened, position, answer]
    refine ⟨trivial, fun h own_h => ?_, fun fd' f' g' opened' gpu' own' => ?_⟩
    · by_cases here : h = g
      · cases here
        exact after
      · have left := k.others f g gpu (u.position fd) t s.contents h here
        have left' := k.others f g gpu (u.position fd) t u.contents h here
        exact left.trans ((same.contents h own_h).trans left'.symm)
    · have before := same.position fd' f' g' opened' gpu' own'
      simp only [Function.update_apply, before]

theorem step_others {own other : Nat → Prop} (apart : ∀ g, own g → ¬other g)
    {c : Step Nat (BitVec 64) Transfer} (theirs : OnGpu table other c.descriptor)
    {s u : Positioned Nat (BitVec 64) (Nat → M)} (same : SameGpus table own s u) :
    SameGpus table own ((k.files table).step c s).2 u := by
  obtain ⟨f, g, opened, gpu, other_g⟩ := theirs
  have elsewhere (fd' : Nat) (f' : File) (g' : Nat) (opened' : table fd' = some f')
      (gpu' : f'.gpu = some g') (own' : own g') : fd' ≠ c.descriptor := by
    rintro rfl
    cases opened.symm.trans opened'
    cases gpu.symm.trans gpu'
    exact apart g own' other_g
  cases c with
  | seek fd a =>
    simp only [Files.step]
    split
    · refine ⟨same.contents, fun fd' f' g' opened' gpu' own' => ?_⟩
      have before := same.position fd' f' g' opened' gpu' own'
      exact (Function.update_of_ne (elsewhere fd' f' g' opened' gpu' own') _ _).trans before
    · exact same
  | transfer fd t =>
    change table fd = some f at opened
    simp only [Files.step, Kernel.files, opened]
    refine ⟨fun h own_h => ?_, fun fd' f' g' opened' gpu' own' => ?_⟩
    · have away : h ≠ g := by
        rintro rfl
        exact apart h own_h other_g
      exact (k.others f g gpu _ _ _ h away).trans (same.contents h own_h)
    · have before := same.position fd' f' g' opened' gpu' own'
      exact (Function.update_of_ne (elsewhere fd' f' g' opened' gpu' own') _ _).trans before

end

/-- Threads on different GPUs do not notice each other: in whatever order the system calls come,
each thread gets the answers, and leaves its GPUs in the state, of a run in which it is alone. -/
theorem threads_isolated {M : Type} (built : openEngine opens m nodes s = .ok (.ok eng, t))
    (drm : Nat → DRMNode) (k : GpuKernel M) {own : I → Nat → Prop}
    (apart : ∀ i j g, own i g → own j g → i = j) (threads : I → Client ApiCall ApiCall.Answer R)
    (within : ∀ i, (threads i).Only fun c => ¬c.request.OfSystemMem ∧ ∀ h a face d,
      eng.target drm c = .through h a → eng.interface h = some face →
        face.debugfs = some d → own i d.root_)
    (order : List I) (start : Positioned Nat (BitVec 64) (Nat → M)) (i : I) :
    let files := k.files t.cells
    let together := run files.step order
      ⟨start, fun i => (threads i).through (eng.systemCalls drm)⟩
    let alone := run files.step (order.filter (· = i))
      ⟨start, fun i => (threads i).through (eng.systemCalls drm)⟩
    together.clients i = alone.clients i ∧
      ∀ g, own i g → together.shared.contents g = alone.shared.contents g := by
  intro files
  have took := built_took built
  have only (i : I) : ((threads i).through (eng.systemCalls drm)).Only fun c =>
      OnGpu t.cells (own i) c.descriptor := by
    refine (within i).through fun c mine => ?_
    refine (OpenEngine.accesses_only drm c).through fun x used => split_only ?_
    obtain ⟨h, a, face, target, found, f, member, gpu⟩ := used
    obtain ⟨d, debugfs, root⟩ := gpu mine.1
    have held : (x.d, f) ∈ eng.held h := by
      rw [OpenEngine.held, found]
      exact member
    exact ⟨f, d.root_, took.found _ (OpenEngine.mem_holds held), root,
      mine.2 h a face d target found debugfs⟩
  have sees : Sees files.step (fun i c => OnGpu t.cells (own i) c.descriptor) i
      (SameGpus t.cells (own i)) := by
    refine ⟨fun c mine s u same => step_own mine same, fun j other c theirs s u same => ?_⟩
    exact step_others (fun g mine theirs => other (apart j i g theirs mine)) theirs same
  have same : SameGpus t.cells (own i) start start := ⟨fun _ _ => rfl, fun _ _ _ _ _ _ => rfl⟩
  let begin : Config I _ _ _ R := ⟨start, fun i => (threads i).through (eng.systemCalls drm)⟩
  obtain ⟨answers, left⟩ := run_alone sees order (t := begin) (u := begin) only rfl same
  exact ⟨answers, left.contents⟩

end

def memoryFile (a : BitVec 64) (t : Transfer) (m : BitVec 64 → BitVec 8) :
    t.Answer × (BitVec 64 → BitVec 8) :=
  match t with
  | .read n => (some ((List.range n.toNat).map fun i => m (a + BitVec.ofNat 64 i)), m)
  | .write bytes =>
    (some bytes.length, (List.range bytes.length).foldl (fun m i =>
      Function.update m (a + BitVec.ofNat 64 i) (bytes.getD i 0#8)) m)

def pairMachine : Machine where
  ip_discovery _ _ := .ok none
  node_by_name minor := some (minor.toNat - 128)
  resolve_debugfs node := .ok (some node)

def pairNodes : List KFDNode :=
  [⟨4#64, 0x0300#64, 0#64, 1#64, 128#64⟩, ⟨4#64, 0x4100#64, 0#64, 1#64, 129#64⟩]

def openPair : OpenEngine :=
  let device (n fd : Nat) (bdf : BitVec 16) : OpenDevice :=
    ⟨n, 0#32, bdf, [⟨n, n, 0, n, n, [0], some ⟨n, ⟨fd⟩, ⟨fd + 1⟩, ⟨fd + 2⟩⟩, some ⟨⟨fd + 3⟩⟩⟩],
      some ⟨n, ⟨fd + 4⟩, ⟨fd + 5⟩, ⟨fd + 6⟩⟩, some ⟨⟨fd + 7⟩⟩⟩
  ⟨[device 0 0 0x0300#16, device 1 8 0x4100#16]⟩

def pairStore : Store File :=
  match openEngine (fun _ _ => true) pairMachine pairNodes Store.empty with
  | .ok (_, t) => t
  | .error _ => Store.empty

def pairDrm (n : Nat) : DRMNode :=
  ⟨if n = 0 then "card0" else "card1", 0x40000000#64, 1#64, if n = 0 then 10#64 else 11#64, [0, 1]⟩

def pairFiles : Files Nat (BitVec 64) Transfer Transfer.Answer (Nat → BitVec 64 → BitVec 8) :=
  (GpuKernel.ofFiles memoryFile).files pairStore.cells

def pairStart : Positioned Nat (BitVec 64) (Nat → BitVec 64 → BitVec 8) :=
  ⟨fun _ => 0#64, fun _ a => a.setWidth 8⟩

def readByte (n : Nat) (addr : BitVec 64) :
    Client ApiCall ApiCall.Answer (Option (List (BitVec 8))) :=
  .call ⟨.partition n, .read .videoMem addr 1#64⟩ fun v => .done v.join

def ownReads (i : Bool) : Client ApiCall ApiCall.Answer (Option (List (BitVec 8))) :=
  if i then readByte 1 0x40000020#64 else readByte 0 0x10#64

def crossed : List Bool := [false, true, false, true]

theorem accesses_atomic_pair : ∃ turns : List Bool, turns.Sublist crossed ∧
    let split := run pairFiles.step crossed
      ⟨pairStart, fun i => (ownReads i).through (openPair.systemCalls pairDrm)⟩
    let whole := run pairFiles.access turns
      ⟨pairStart.contents, fun i => (ownReads i).through (openPair.accesses pairDrm)⟩
    split.shared.contents = whole.shared ∧
      ∀ i r, split.clients i = .done r ↔ whole.clients i = .done r := by
  have built : openEngine (fun _ _ => true) pairMachine pairNodes Store.empty =
      .ok (.ok openPair, pairStore) := rfl
  let own (i : Bool) (h : Handle) : Prop := h = .partition (if i then 1 else 0)
  have apart (i j : Bool) (h : Handle) : own i h → own j h → i = j := by
    intro mine other
    cases i <;> cases j <;> simp [own, mine] at other ⊢
  refine accesses_atomic built pairDrm (GpuKernel.ofFiles memoryFile).toKernel apart ownReads ?_
    crossed pairStart
  · intro i
    cases i with
    | false =>
      refine ⟨fun h a target => ?_, fun _ => trivial⟩
      cases target
      rfl
    | true =>
      refine ⟨fun h a target => ?_, fun _ => trivial⟩
      cases target
      rfl

theorem threads_isolated_pair : (run pairFiles.step crossed
    ⟨pairStart, fun i => (ownReads i).through (openPair.systemCalls pairDrm)⟩).clients false =
      .done (some [0x10#8]) := by
  have built : openEngine (fun _ _ => true) pairMachine pairNodes Store.empty =
      .ok (.ok openPair, pairStore) := rfl
  let own (i : Bool) (g : Nat) : Prop := g = if i then 1 else 0
  have apart (i j : Bool) (g : Nat) : own i g → own j g → i = j := by
    intro mine other
    cases i <;> cases j <;> simp [own, mine] at other ⊢
  refine (threads_isolated built pairDrm (GpuKernel.ofFiles memoryFile) apart ownReads ?_ crossed
    pairStart false).1.trans rfl
  · intro i
    cases i with
    | false =>
      refine ⟨⟨id, fun h a face d target found own => ?_⟩, fun _ => trivial⟩
      cases target
      cases found
      cases own
      rfl
    | true =>
      refine ⟨⟨id, fun h a face d target found own => ?_⟩, fun _ => trivial⟩
      cases target
      cases found
      cases own
      rfl

example : (run pairFiles.step crossed ⟨pairStart, fun i =>
    (if i then readByte 1 0x40000020#64 else readByte 0 0x40000010#64).through
      (openPair.systemCalls pairDrm)⟩).clients false = .done (some [0x20#8]) := rfl

end Rocsift.Sift
