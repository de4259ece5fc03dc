import Mathlib.Data.String.Basic
import Rocsift.Base.Dealing
import Rocsift.Base.Sorting
import Rocsift.Sift.Handles
import Rocsift.Sift.IPDiscovery

/-! The compute dies of the partitions of a device: the IP discovery table by the numbers in its
directories, and what `PartitionsFromNodes` deals out of it. The constructors that read the files
come to the same dies. -/
namespace Rocsift.Sift

open Sorting (Sorter)

/-- A directory below `die`, with its number and the instances that each directory in it has, in
whatever order a directory lists them. -/
structure DieDir where
  id : Int
  ips : OrderedMap String (List IPInstance)

structure IpTable where
  dies : List DieDir
  gc : ∀ d ∈ dies, d.ips.find? "GC" ≠ none

section
variable (std_sort : Sorter IPInstance Nat) (die_sort : Sorter DieDir Int)

def ipInstances (inst : List IPInstance) : List IPInstance :=
  std_sort.sort (fun i => i.num_instance.toNat) inst

def makeDie (die_root : DieDir) : Die := ⟨(die_root.ips.find? "GC").map (ipInstances std_sort)⟩

def makeRoot (root : List DieDir) : List Die :=
  (die_sort.sort DieDir.id root).map (makeDie std_sort)

end

def dieOf (d : Ipdiscovery.Die) : Die :=
  ⟨(d.lookupIP "GC").map fun ip => ip.instances_.map fun i => ⟨i.num_instance_, i.harvest_⟩⟩

def readIP (ip_root : Ipdiscovery.IPDir) : Except SiftStatus (String × List IPInstance) := do
  let inst ← ip_root.instances.mapM Ipdiscovery.makeIPInstance
  return (ip_root.name, inst.map fun i => ⟨i.num_instance_, i.harvest_⟩)

def readDie (die_root : Ipdiscovery.DieDir) : Except SiftStatus DieDir := do
  let id ← Ipdiscovery.stoul 10 die_root.name
  let ips ← die_root.ips.mapM readIP
  return ⟨(id.setWidth 32 : BitVec 32).toInt, OrderedMap.ofList ips⟩

def liveNumbers (instances : List IPInstance) : List Nat :=
  (instances.filter fun i => i.harvest = 0#8).map fun i => i.num_instance.toNat

def GcInOrder (d : DieDir) (instances : List IPInstance) : Prop :=
  ∃ gc, d.ips.find? "GC" = some gc ∧ instances.Perm gc ∧
    instances.Pairwise fun a b => a.num_instance.toNat ≤ b.num_instance.toNat

/-- The instance numbers of the GC instances that are not harvested, by dies and instances. -/
def InTableOrder (t : IpTable) (g : List Nat) : Prop :=
  ∃ dies gcs, dies.Perm t.dies ∧ dies.Pairwise (fun a b => a.id ≤ b.id) ∧
    List.Forall₂ GcInOrder dies gcs ∧ g = gcs.flatMap liveNumbers

/-- The ids dealt to nodes that have room for `caps` of them: all that there are or that fit, in
order, and none to a node before those in front of it are full. -/
structure DealtInOrder (caps : List Nat) (g : List Nat) (ids : List (List Nat)) : Prop where
  nodes : ids.length = caps.length
  whole : ids.flatten = g.take (min g.length caps.sum)
  room : ∀ i cap, caps[i]? = some cap → (ids.getD i []).length ≤ cap
  in_turn : ∀ i, ids.getD i [] ≠ [] → ∀ j < i, ∀ cap, caps[j]? = some cap →
    (ids.getD j []).length = cap

def capacities (nodes : List KFDNode) : List Nat := nodes.map fun n => n.num_xcc.toNat

theorem dealInstance_eq (nodes : List KFDNode) (num_instance fuel : Nat)
    (s : Nat × List (List Nat)) :
    dealInstance nodes num_instance fuel s =
      Dealing.deal (capacities nodes) num_instance fuel s := by
  induction fuel generalizing s with
  | zero => rfl
  | succ fuel ih =>
    obtain ⟨cursor, bins⟩ := s
    rw [dealInstance, Dealing.deal, capacities, List.getElem?_map]
    cases nodes[cursor]? with
    | none => rfl
    | some n =>
      simp only [Option.map_some]
      split
      · rfl
      · exact ih _

section
variable {nodes : List KFDNode} {g : List Nat} {s : Nat × List (List Nat)}

theorem nothing_dealt (nodes : List KFDNode) :
    Dealing.Dealt (capacities nodes) ([] : List Nat) (0, nodes.map fun _ => []) := by
  have start := Dealing.Dealt.start (A := Nat) (capacities nodes)
  rw [capacities, List.map_map] at start
  exact start

theorem dealDie_dealt {die : Die} {instances : List IPInstance} (gc : die.gc = some instances)
    (dealt : Dealing.Dealt (capacities nodes) g s) : ∃ t, dealDie nodes s die = .ok t ∧
      Dealing.Dealt (capacities nodes) (g ++ liveNumbers instances) t := by
  simp only [dealDie, gc, Except.ok.injEq, exists_eq_left']
  clear gc
  induction instances generalizing g s with
  | nil => simpa [liveNumbers] using dealt
  | cons inst instances ih =>
    rw [List.foldl_cons]
    by_cases harvested : inst.harvest = 0#8
    · rw [if_neg (not_not.mpr harvested), dealInstance_eq]
      have enough : (capacities nodes).length ≤ s.1 + nodes.length := by simp [capacities]
      have rest := ih (dealt.step inst.num_instance.toNat enough)
      rw [List.append_assoc, List.singleton_append] at rest
      rwa [liveNumbers, List.filter_cons_of_pos (by simpa using harvested), List.map_cons]
    · rw [if_pos harvested, liveNumbers, List.filter_cons_of_neg (by simpa using harvested)]
      exact ih dealt

theorem dies_dealt {dies : List Die} {gcs : List (List IPInstance)}
    (each : List.Forall₂ (fun d l => d.gc = some l) dies gcs)
    (dealt : Dealing.Dealt (capacities nodes) g s) :
    ∃ t, dies.foldlM (dealDie nodes) s = .ok t ∧
      Dealing.Dealt (capacities nodes) (g ++ gcs.flatMap liveNumbers) t := by
  induction each generalizing g s with
  | nil => exact ⟨s, rfl, by simpa using dealt⟩
  | cons gc _ ih =>
    obtain ⟨t, first, dealt⟩ := dealDie_dealt gc dealt
    obtain ⟨u, rest, dealt⟩ := ih dealt
    refine ⟨u, ?_, ?_⟩
    · rw [List.foldlM_cons, first]
      exact rest
    · rwa [List.flatMap_cons, ← List.append_assoc]

theorem dealtInOrder (dealt : Dealing.Dealt (capacities nodes) g s) :
    DealtInOrder (capacities nodes) g s.2 := by
  obtain ⟨pieces, -⟩ := dealt
  rw [pieces]
  refine ⟨List.length_splitLengths .., ?_, ?_, ?_⟩
  · rw [Dealing.flatten_splitLengths_take, List.take_eq_take_iff]
    omega
  · intro i cap at_i
    exact Dealing.getD_splitLengths_le _ g at_i
  · intro i some_id j less cap at_j
    exact Dealing.full_before _ g some_id less at_j

end

section
variable {sorts : Ipdiscovery.Sorts}

theorem makeIP_name {d : Ipdiscovery.IPDir} {ip : Ipdiscovery.IP}
    (h : Ipdiscovery.makeIP sorts d = .ok ip) : ip.name_ = d.name := by
  obtain ⟨_, -, h⟩ := Outcome.bind_ok h
  cases h
  rfl

theorem makeIP_read {d : Ipdiscovery.IPDir} {ip : Ipdiscovery.IP}
    (h : Ipdiscovery.makeIP sorts d = .ok ip)
    (once : (d.instances.map fun i => (Stoul.stoul Pm4.isSpace 10 i.num_instance).map fun v =>
      (v.setWidth 8 : BitVec 8).toNat).Nodup) :
    ∃ block, readIP d = .ok block ∧ block.1 = ip.name_ ∧ ∀ std_sort : Sorter IPInstance Nat,
      ip.instances_.map (fun i => ⟨i.num_instance_, i.harvest_⟩) =
        ipInstances std_sort block.2 := by
  obtain ⟨inst, read, h⟩ := Outcome.bind_ok h
  cases h
  obtain ⟨xs, all, read⟩ := Outcome.bind_ok read
  cases read
  refine ⟨(d.name, xs.map fun i => ⟨i.num_instance_, i.harvest_⟩), ?_, rfl, fun std_sort => ?_⟩
  · rw [readIP, all]
    rfl
  · have numbers := Ipdiscovery.keys_of (fun _ _ => Ipdiscovery.makeIPInstance_number) all once
    rw [ipInstances, ← List.map_id (std_sort.sort _ _)]
    apply Listing.sort_map_congr _ _ ?_ numbers
    rw [List.map_map]
    exact .refl _

/-- The blocks of a die are found by their names, whatever the order in which they were listed. -/
theorem lookup_read {std_sort : Sorter IPInstance Nat} {ips : List Ipdiscovery.IP}
    {blocks : List (String × List IPInstance)} (once : (ips.map Ipdiscovery.IP.name_).Nodup)
    (same : (ips.map fun ip => (ip.name_, ip.instances_.map fun i =>
      (⟨i.num_instance_, i.harvest_⟩ : IPInstance))).Perm
        (blocks.map fun block => (block.1, ipInstances std_sort block.2))) (name : String) :
    (ips.find? fun ip => ip.name_ = name).map (fun ip => ip.instances_.map fun i =>
      (⟨i.num_instance_, i.harvest_⟩ : IPInstance)) =
        ((OrderedMap.ofList blocks).find? name).map (ipInstances std_sort) := by
  have names := (same.map Prod.fst).nodup_iff.mp (by rwa [List.map_map])
  rw [List.map_map] at names
  refine Option.ext fun gc => ?_
  rw [Listing.find?_map_iff once, same.mem_iff, Option.map_eq_some_iff, List.mem_map]
  simp only [OrderedMap.find?_eq_some_iff, OrderedMap.mem_ofList_iff names]
  constructor
  · rintro ⟨⟨here, inst⟩, member, pair⟩
    obtain ⟨rfl, rfl⟩ := Prod.mk.inj pair
    exact ⟨inst, member, rfl⟩
  · rintro ⟨inst, member, rfl⟩
    exact ⟨_, member, rfl⟩

theorem makeDie_read {d : Ipdiscovery.DieDir} {die : Ipdiscovery.Die}
    (h : Ipdiscovery.makeDie sorts d = .ok die) (once : (d.ips.map Ipdiscovery.IPDir.name).Nodup)
    (numbers : ∀ ip ∈ d.ips, (ip.instances.map fun i =>
      (Stoul.stoul Pm4.isSpace 10 i.num_instance).map fun v =>
        (v.setWidth 8 : BitVec 8).toNat).Nodup) :
    ∃ t, readDie d = .ok t ∧ die.id_.toInt = t.id ∧
      ∀ std_sort, dieOf die = makeDie std_sort t := by
  obtain ⟨id, name, h⟩ := Outcome.bind_ok h
  obtain ⟨num_ips, -, h⟩ := Outcome.bind_ok h
  obtain ⟨ips, sorted, h⟩ := Outcome.bind_ok h
  cases h
  obtain ⟨listed, all, perm⟩ := Listing.mapM_perm (sorts.paths.perm _ _) sorted
  obtain ⟨blocks, read, beside⟩ := Outcome.mapM_beside
    (fun ip member _ made => makeIP_read made (numbers ip member)) all
  have names : d.ips.map Ipdiscovery.IPDir.name = listed.map Ipdiscovery.IP.name_ :=
    Listing.map_eq_map ((Outcome.mapM_ok all).imp fun _ _ made => (makeIP_name made).symm)
  have ips_once := (perm.map Ipdiscovery.IP.name_).nodup_iff.mpr (names ▸ once)
  refine ⟨⟨(id.setWidth 32 : BitVec 32).toInt, OrderedMap.ofList blocks⟩, ?_, rfl, ?_⟩
  · rw [readDie, name, read]
    rfl
  · intro std_sort
    have same : listed.map (fun ip => (ip.name_, ip.instances_.map fun i =>
        (⟨i.num_instance_, i.harvest_⟩ : IPInstance))) =
          blocks.map fun block => (block.1, ipInstances std_sort block.2) :=
      Listing.map_eq_map (beside.imp fun _ _ both => Prod.ext both.1.symm (both.2 std_sort))
    exact congrArg Die.mk (lookup_read ips_once ((perm.map _).trans (.of_eq same)) "GC")

/-- The table that the constructors read is dealt out as its numbers are, whatever the sorts do. -/
theorem makeRoot_read {root : List Ipdiscovery.DieDir} {dies : List Ipdiscovery.Die}
    (h : Ipdiscovery.makeRoot sorts root = .ok dies) (distinct : Ipdiscovery.Distinct root) :
    ∃ t, root.mapM readDie = .ok t ∧
      ∀ std_sort die_sort, dies.map dieOf = makeRoot std_sort die_sort t := by
  obtain ⟨listed, all, h⟩ := Outcome.bind_ok h
  cases h
  obtain ⟨t, read, beside⟩ := Outcome.mapM_beside (fun d member _ made =>
    makeDie_read made (distinct.ips d member) (distinct.instances d member)) all
  refine ⟨t, read, fun std_sort die_sort => ?_⟩
  have same : listed.map (fun die => (die.id_.toInt, dieOf die)) =
      t.map fun d => (d.id, makeDie std_sort d) :=
    Listing.map_eq_map (beside.imp fun _ _ both => Prod.ext both.1 (both.2 std_sort))
  have numbers := Ipdiscovery.keys_of (fun _ _ => Ipdiscovery.makeDie_number sorts) all
    distinct.dies
  exact Listing.sort_map_congr _ _ (.of_eq same) numbers

end

section
variable (std_sort : Sorter IPInstance Nat) (die_sort : Sorter DieDir Int)

theorem makeRoot_dies (t : IpTable) : ∃ (dies : List DieDir) (gcs : List (List IPInstance)),
    dies.Perm t.dies ∧ dies.Pairwise (fun a b => a.id ≤ b.id) ∧
      List.Forall₂ GcInOrder dies gcs ∧
      List.Forall₂ (fun d l => d.gc = some l) (makeRoot std_sort die_sort t.dies) gcs := by
  have perm := die_sort.perm DieDir.id t.dies
  have some_gc : ∀ d ∈ die_sort.sort DieDir.id t.dies, d.ips.find? "GC" ≠ none :=
    fun d hd => t.gc d (perm.mem_iff.mp hd)
  refine ⟨die_sort.sort DieDir.id t.dies,
    (die_sort.sort DieDir.id t.dies).map fun d => ipInstances std_sort
      ((d.ips.find? "GC").getD []), perm, die_sort.sorted DieDir.id t.dies, ?_, ?_⟩
  · rw [List.forall₂_map_right_iff, List.forall₂_same]
    intro d hd
    obtain ⟨gc, found⟩ := Option.ne_none_iff_exists'.mp (some_gc d hd)
    rw [found, Option.getD_some]
    exact ⟨gc, found, std_sort.perm _ gc, std_sort.sorted _ gc⟩
  · rw [makeRoot, List.forall₂_map_left_iff, List.forall₂_map_right_iff, List.forall₂_same]
    intro d hd
    obtain ⟨gc, found⟩ := Option.ne_none_iff_exists'.mp (some_gc d hd)
    simp only [makeDie, found, Option.map_some, Option.getD_some]

theorem xcc_dies_dealt (t : IpTable) (nodes : List (NodePtr × Nat)) :
    ∃ g ids, InTableOrder t g ∧
      xccDieIds (some (makeRoot std_sort die_sort t.dies)) (nodes.map fun n => n.1.node) =
        .ok (some ids) ∧
      DealtInOrder (capacities (nodes.map fun n => n.1.node)) g ids ∧
      ∀ m dev ps, partitionsFromNodes m dev (some (makeRoot std_sort die_sort t.dies)) nodes =
        .ok ps → ps.map Partition.xcc_die_ids_ = ids := by
  obtain ⟨dies, gcs, perm, sorted, in_order, gc⟩ := makeRoot_dies std_sort die_sort t
  obtain ⟨s, folded, dealt⟩ := dies_dealt gc (nothing_dealt (nodes.map fun n => n.1.node))
  rw [List.nil_append] at dealt
  have ids : xccDieIds (some (makeRoot std_sort die_sort t.dies))
      (nodes.map fun n => n.1.node) = .ok (some s.2) := by
    rw [xccDieIds, folded]
    rfl
  refine ⟨gcs.flatMap liveNumbers, s.2, ⟨dies, gcs, perm, sorted, in_order, rfl⟩, ids,
    dealtInOrder dealt, ?_⟩
  intro m dev ps made
  have same : s.2.length = nodes.length := by simpa using xccDieIds_length ids
  unfold partitionsFromNodes at made
  split at made
  · rename_i empty
    cases made
    subst empty
    exact (List.eq_nil_of_length_eq_zero same).symm
  · obtain ⟨found, hids, made⟩ := Outcome.bind_ok made
    rw [ids] at hids
    cases hids
    exact (makePartitions_ok made same).2

end

end Rocsift.Sift
