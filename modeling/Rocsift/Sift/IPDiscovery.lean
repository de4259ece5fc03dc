import Mathlib.Data.String.Basic
import Rocsift.Kfd.Topology
import Rocsift.Sift.DebugDirs

/-! The IP discovery table as its constructors read it: one directory for each die, in it one for
each IP block, and in that one for each instance, all listed in no certain order. What is no
directory is skipped, and not part of a listing here. -/
namespace Rocsift.Sift.Ipdiscovery
open Listing (Agree Relisted readSorted)
open Pm4 (isSpace)
open Sorting (Sorter)

structure InstanceDir where
  num_instance : Contents
  base_addr : Contents
  num_base_addresses : Contents
  harvest : Contents
  hw_id : Contents
  major : Contents
  minor : Contents
  revision : Contents

structure IPDir where
  name : String
  instances : List InstanceDir

structure DieDir where
  name : Contents
  num_ips : Contents
  ips : List IPDir

structure IPInstance where
  num_instance_ : BitVec 8
  base_addrs_ : List (BitVec 64)
  harvest_ : BitVec 8
  hwid_ : BitVec 16
  major_ : BitVec 8
  minor_ : BitVec 8
  revision_ : BitVec 8
  deriving DecidableEq

structure IP where
  name_ : String
  instances_ : List IPInstance

structure Die where
  id_ : BitVec 32
  num_ips_ : BitVec 32
  ips_ : List IP

def stoul (base : Nat) (text : Contents) : Except SiftStatus (BitVec 64) :=
  Kfd.orError (Stoul.stoul isSpace base text)

/-- The lines of `base_addr`, as many of them as the other file says. -/
def readBaseAddrs (base_addr : Contents) (num_addrs : BitVec 64) :
    Except SiftStatus (List (BitVec 64)) := do
  let base ← (TextLines.getLines '\n' base_addr).mapM (stoul 0)
  if base.length ≠ num_addrs.toNat then .error .outOfRange
  else return base

def makeIPInstance (d : InstanceDir) : Except SiftStatus IPInstance := do
  let num_instance ← stoul 10 d.num_instance
  let num_addrs ← stoul 0 d.num_base_addresses
  let base_addrs ← readBaseAddrs d.base_addr num_addrs
  let harvest ← stoul 0 d.harvest
  let hwid ← stoul 0 d.hw_id
  let major ← stoul 0 d.major
  let minor ← stoul 0 d.minor
  let revision ← stoul 0 d.revision
  return ⟨num_instance.setWidth 8, base_addrs, harvest.setWidth 8, hwid.setWidth 16,
    major.setWidth 8, minor.setWidth 8, revision.setWidth 8⟩

/-- The sorts of the constructors. Directories of one name do not come twice, so that sorting them
by name has one outcome; the others may put what has one number in any order. -/
structure Sorts where
  inst : Sorter IPInstance Nat
  paths : Sorter IPDir String
  dies : Sorter Die Int

section
variable (sorts : Sorts)

def makeIP (ip_root : IPDir) : Except SiftStatus IP := do
  let inst ← readSorted sorts.inst (·.num_instance_.toNat) makeIPInstance ip_root.instances
  return ⟨ip_root.name, inst⟩

def makeDie (die_root : DieDir) : Except SiftStatus Die := do
  let id ← stoul 10 die_root.name
  let num_ips ← stoul 10 die_root.num_ips
  let ips ← (sorts.paths.sort IPDir.name die_root.ips).mapM (makeIP sorts)
  return ⟨id.setWidth 32, num_ips.setWidth 32, ips⟩

/-- `ips_.at(name)`; a map has one entry for each name. -/
def Die.lookupIP (d : Die) (name : String) : Option IP := d.ips_.find? (·.name_ = name)

def makeRoot (root : List DieDir) : Except SiftStatus (List Die) :=
  readSorted sorts.dies (·.id_.toInt) (makeDie sorts) root

end

structure SameIP (a b : IPDir) : Prop where
  name : a.name = b.name
  instances : a.instances.Perm b.instances

structure SameDie (a b : DieDir) : Prop where
  name : a.name = b.name
  num_ips : a.num_ips = b.num_ips
  ips : Relisted SameIP a.ips b.ips

structure Distinct (root : List DieDir) : Prop where
  dies : (root.map fun d => (Stoul.stoul isSpace 10 d.name).map fun v =>
    (v.setWidth 32 : BitVec 32).toInt).Nodup
  ips : ∀ d ∈ root, (d.ips.map IPDir.name).Nodup
  instances : ∀ d ∈ root, ∀ ip ∈ d.ips, (ip.instances.map fun i =>
    (Stoul.stoul isSpace 10 i.num_instance).map fun v => (v.setWidth 8 : BitVec 8).toNat).Nodup

theorem keys_of {A B K : Type} {read : A → Except SiftStatus B} {key : B → K} {own : A → Option K}
    (told : ∀ a b, read a = .ok b → own a = some (key b)) {l : List A} {r : List B}
    (h : l.mapM read = .ok r) (once : (l.map own).Nodup) : (r.map key).Nodup := by
  have all := Outcome.mapM_ok h
  have same : l.map own = (r.map key).map some := by
    clear h once
    induction all with
    | nil => rfl
    | cons made _ ih => rw [List.map_cons, List.map_cons, List.map_cons, ih, told _ _ made]
  rw [same] at once
  exact once.of_map some

theorem stoul_ok {base : Nat} {text : Contents} {v : BitVec 64} (h : stoul base text = .ok v) :
    Stoul.stoul isSpace base text = some v := by
  unfold stoul at h
  cases found : Stoul.stoul isSpace base text with
  | none =>
    rw [found] at h
    cases h
  | some w =>
    rw [found] at h
    exact congrArg some (Except.ok.inj h)

theorem makeIPInstance_number {d : InstanceDir} {i : IPInstance} (h : makeIPInstance d = .ok i) :
    (Stoul.stoul isSpace 10 d.num_instance).map (fun v => (v.setWidth 8 : BitVec 8).toNat) =
      some i.num_instance_.toNat := by
  obtain ⟨v, number, h⟩ := Outcome.bind_ok h
  rw [stoul_ok number]
  obtain ⟨_, -, h⟩ := Outcome.bind_ok h
  obtain ⟨_, -, h⟩ := Outcome.bind_ok h
  obtain ⟨_, -, h⟩ := Outcome.bind_ok h
  obtain ⟨_, -, h⟩ := Outcome.bind_ok h
  obtain ⟨_, -, h⟩ := Outcome.bind_ok h
  obtain ⟨_, -, h⟩ := Outcome.bind_ok h
  obtain ⟨_, -, h⟩ := Outcome.bind_ok h
  cases h
  rfl

section
variable (sorts sorts' : Sorts)

theorem makeIP_agree {a b : IPDir} (same : SameIP a b)
    (once : (a.instances.map fun i => (Stoul.stoul isSpace 10 i.num_instance).map fun v =>
      (v.setWidth 8 : BitVec 8).toNat).Nodup) :
    Agree (makeIP sorts a) (makeIP sorts' b) := by
  unfold makeIP
  rw [same.name]
  apply Agree.bind
  · apply Listing.readSorted_agree sorts.inst sorts'.inst (R := Eq)
    · exact ⟨b.instances, same.instances, List.forall₂_same.mpr fun _ _ => rfl⟩
    · rintro i - _ rfl
      exact Agree.refl _
    · intro r read
      exact keys_of (fun _ _ => makeIPInstance_number) read once
  · exact fun _ _ => Agree.refl _

theorem makeDie_agree {a b : DieDir} (same : SameDie a b)
    (once : (a.ips.map IPDir.name).Nodup)
    (instances : ∀ ip ∈ a.ips, (ip.instances.map fun i =>
      (Stoul.stoul isSpace 10 i.num_instance).map fun v => (v.setWidth 8 : BitVec 8).toNat).Nodup) :
    Agree (makeDie sorts a) (makeDie sorts' b) := by
  unfold makeDie
  rw [same.name, same.num_ips]
  apply Agree.bind (Agree.refl _)
  intro id _
  apply Agree.bind (Agree.refl _)
  intro num_ips _
  apply Agree.bind
  · apply Listing.mapM_agree
    have beside := Listing.sort_relisted sorts.paths sorts'.paths same.ips
      (fun _ _ same => same.name) once
    have both := (List.forall₂_and_left _ _).mpr
      ⟨fun ip member => (sorts.paths.perm IPDir.name a.ips).mem_iff.mp member, beside⟩
    exact both.imp fun ip ip' h => makeIP_agree sorts sorts' h.2 (instances ip h.1)
  · exact fun _ _ => Agree.refl _

theorem makeDie_number {d : DieDir} {die : Die} (h : makeDie sorts d = .ok die) :
    (Stoul.stoul isSpace 10 d.name).map (fun v => (v.setWidth 32 : BitVec 32).toInt) =
      some die.id_.toInt := by
  obtain ⟨v, number, h⟩ := Outcome.bind_ok h
  rw [stoul_ok number]
  obtain ⟨_, -, h⟩ := Outcome.bind_ok h
  obtain ⟨_, -, h⟩ := Outcome.bind_ok h
  cases h
  rfl

theorem makeRoot_agree {root root' : List DieDir} (relisted : Relisted SameDie root root')
    (distinct : Distinct root) : Agree (makeRoot sorts root) (makeRoot sorts' root') := by
  apply Listing.readSorted_agree sorts.dies sorts'.dies relisted
  · intro d hd d' same
    exact makeDie_agree sorts sorts' same (distinct.ips d hd) (distinct.instances d hd)
  · intro r read
    exact keys_of (fun _ _ => makeDie_number sorts) read distinct.dies

end

end Rocsift.Sift.Ipdiscovery
