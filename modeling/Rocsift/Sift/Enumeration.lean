import Rocsift.Base.Numbering
import Rocsift.Sift.Engine

/-! What the enumeration builds: one builder for each device key, numbered by the first node of
the device, with the nodes of the device and their global partition ids in KFD order. -/
namespace Rocsift.Sift
open Numbering

def keyOf (p : NodePtr) : Nat := (deviceKey p.node).toNat

def gpus (nodes : List KFDNode) : List NodePtr :=
  (nodePtrs nodes).filter fun p => p.node.simd_count ≠ 0#64

def builderOf (ps : List NodePtr) (k : Nat) : DeviceBuilder :=
  let first := ps.find? (keyOf · = k)
  { inst := (firsts (ps.map keyOf)).idxOf k
    domain := (first.map (·.node.domain_id.setWidth 32)).getD 0#32
    bdf := (first.map (·.node.location_id.setWidth 16)).getD 0#16
    nodes := ps.zipIdx.filter (keyOf ·.1 = k) }

structure Enumerated (ps : List NodePtr) (s : Enumeration) : Prop where
  global : s.global_partition_id = ps.length
  num : s.num_builders = (firsts (ps.map keyOf)).length
  mem : ∀ e, e ∈ s.builders.entries ↔ e.1 ∈ ps.map keyOf ∧ e.2 = builderOf ps e.1

section
variable {ps : List NodePtr} {p : NodePtr} {k : Nat}

theorem idxOf_firsts_snoc (member : k ∈ ps.map keyOf) :
    (firsts ((ps ++ [p]).map keyOf)).idxOf k = (firsts (ps.map keyOf)).idxOf k := by
  obtain ⟨more, h⟩ := firsts_append (ps.map keyOf) [keyOf p]
  rw [List.map_append, List.map_singleton, h]
  exact List.idxOf_append_of_mem ((mem_firsts _ k).mpr member)

theorem find_of_mem (member : k ∈ ps.map keyOf) : (ps.find? (keyOf · = k)).isSome := by
  obtain ⟨q, hq, rfl⟩ := List.mem_map.mp member
  exact List.find?_isSome.mpr ⟨q, hq, by simp⟩

theorem builderOf_snoc (member : k ∈ ps.map keyOf) :
    builderOf (ps ++ [p]) k =
      { builderOf ps k with
        nodes := (builderOf ps k).nodes ++ if keyOf p = k then [(p, ps.length)] else [] } := by
  obtain ⟨q, hq⟩ := Option.isSome_iff_exists.mp (find_of_mem member)
  have found : (ps ++ [p]).find? (keyOf · = k) = some q := by rw [List.find?_append, hq]; rfl
  have last : (ps ++ [p]).zipIdx.filter (fun n => decide (keyOf n.1 = k)) =
      ps.zipIdx.filter (fun n => decide (keyOf n.1 = k)) ++
        if keyOf p = k then [(p, ps.length)] else [] := by
    rw [List.zipIdx_append, List.filter_append, Nat.zero_add]
    simp [List.filter_cons]
  simp only [builderOf, found, hq, idxOf_firsts_snoc member, last]

theorem builderOf_new (new : keyOf p ∉ ps.map keyOf) :
    builderOf (ps ++ [p]) (keyOf p) =
      ⟨(firsts (ps.map keyOf)).length, p.node.domain_id.setWidth 32,
        p.node.location_id.setWidth 16, [(p, ps.length)]⟩ := by
  have other : ∀ q ∈ ps, keyOf q ≠ keyOf p := fun q hq same =>
    new (List.mem_map.mpr ⟨q, hq, same⟩)
  have found : (ps ++ [p]).find? (keyOf · = keyOf p) = some p := by
    have none : ps.find? (keyOf · = keyOf p) = none := by simpa using other
    rw [List.find?_append, none]
    simp
  have last : (ps ++ [p]).zipIdx.filter (fun n => decide (keyOf n.1 = keyOf p)) =
      [(p, ps.length)] := by
    have empty : ps.zipIdx.filter (fun n => decide (keyOf n.1 = keyOf p)) = [] := by
      refine List.filter_eq_nil_iff.mpr fun n hn => ?_
      simpa using other n.1 (List.fst_mem_of_mem_zipIdx hn)
    rw [List.zipIdx_append, List.filter_append, empty, Nat.zero_add]
    simp
  have index : (firsts ((ps ++ [p]).map keyOf)).idxOf (keyOf p) =
      (firsts (ps.map keyOf)).length := by
    rw [List.map_append, List.map_singleton]
    exact idxOf_firsts _ new []
  simp only [builderOf, found, last, index, Option.map_some, Option.getD_some]

theorem Enumerated.mem_insert {s : Enumeration} (h : Enumerated ps s) (e : Nat × DeviceBuilder) :
    e ∈ (s.builders.insert (keyOf p) (builderOf (ps ++ [p]) (keyOf p))).entries ↔
      e.1 ∈ (ps ++ [p]).map keyOf ∧ e.2 = builderOf (ps ++ [p]) e.1 := by
  obtain ⟨k, b⟩ := e
  rw [OrderedMap.mem_insert_iff, h.mem, List.map_append, List.map_singleton, List.mem_append,
    List.mem_singleton]
  by_cases same : k = keyOf p
  · subst same
    simp
  · have old (member : k ∈ ps.map keyOf) : builderOf (ps ++ [p]) k = builderOf ps k := by
      rw [builderOf_snoc member, if_neg (Ne.symm same), List.append_nil]
    simp only [Prod.mk.injEq, same, false_and, false_or, ne_eq, not_false_eq_true, and_true,
      or_false]
    exact and_congr_right fun member => by rw [old member]

theorem Enumerated.step {s : Enumeration} (h : Enumerated ps s)
    (gpu : p.node.simd_count ≠ 0#64) : Enumerated (ps ++ [p]) (addNode s p) := by
  have keys : (ps ++ [p]).map keyOf = ps.map keyOf ++ [keyOf p] := by
    rw [List.map_append, List.map_singleton]
  have key : (deviceKey p.node).toNat = keyOf p := rfl
  by_cases member : keyOf p ∈ ps.map keyOf
  · have found : s.builders.find? (keyOf p) = some (builderOf ps (keyOf p)) :=
      (s.builders.find?_eq_some_iff _ _).mpr ((h.mem _).mpr ⟨member, rfl⟩)
    have built := @builderOf_snoc ps p _ member
    rw [if_pos rfl, ← h.global] at built
    rw [addNode, if_neg gpu]
    simp only [key, found, ← built]
    refine ⟨by simp [h.global], ?_, h.mem_insert⟩
    rw [keys, firsts_snoc, if_pos ((mem_firsts _ _).mpr member)]
    exact h.num
  · have found : s.builders.find? (keyOf p) = none := by
      rw [Option.eq_none_iff_forall_not_mem]
      intro b hb
      exact member ((h.mem _).mp ((s.builders.find?_eq_some_iff _ _).mp hb)).1
    have built := builderOf_new member
    rw [← h.num, ← h.global] at built
    rw [addNode, if_neg gpu]
    simp only [key, found, List.nil_append, ← built]
    refine ⟨by simp [h.global], ?_, h.mem_insert⟩
    rw [keys, firsts_snoc, if_neg (fun old => member ((mem_firsts _ _).mp old)), h.num]
    simp

end

theorem enumerate_gpus (nodes : List KFDNode) :
    enumerate (nodePtrs nodes) = enumerate (gpus nodes) := by
  have skip : ∀ (ps : List NodePtr) (s : Enumeration), ps.foldl addNode s =
      (ps.filter fun p => p.node.simd_count ≠ 0#64).foldl addNode s := by
    intro ps
    induction ps with
    | nil => intro s; rfl
    | cons p ps ih =>
      intro s
      by_cases cpu : p.node.simd_count = 0#64
      · rw [List.foldl_cons, List.filter_cons_of_neg (by simpa), addNode, if_pos cpu]
        exact ih s
      · rw [List.foldl_cons, List.filter_cons_of_pos (by simpa), List.foldl_cons]
        exact ih _
  exact skip _ _

theorem enumerated_of {ps : List NodePtr} (all : ∀ p ∈ ps, p.node.simd_count ≠ 0#64) :
    Enumerated ps (enumerate ps) := by
  induction ps using List.reverseRecOn with
  | nil => exact ⟨rfl, rfl, fun e => by simp [enumerate, OrderedMap.empty]⟩
  | append_singleton ps p ih =>
    rw [enumerate, List.foldl_append]
    exact (ih fun q hq => all q (List.mem_append_left _ hq)).step
      (all p (List.mem_append_right _ (List.mem_singleton.mpr rfl)))

theorem enumerated (nodes : List KFDNode) :
    Enumerated (gpus nodes) (enumerate (nodePtrs nodes)) := by
  rw [enumerate_gpus]
  exact enumerated_of fun p hp => by simpa using (List.mem_filter.mp hp).2

end Rocsift.Sift
