import Rocsift.Drm.Nodes

/-! The order in which a node keeps the members of its hive. It sorts them while it is initialised
itself, and the physical ids of the nodes behind it in path order still read as zero. -/
namespace Rocsift.Drm

open Sorting (Sorter)

def NodeFiles.hive (f : NodeFiles) : Option (BitVec 64) := do
  let _ ← f.xgmi_device_id
  let _ ← f.xgmi_physical_id
  let hive_info ← f.xgmi_hive_info
  let hive_id ← hive_info.xgmi_hive_id
  return Numerals.strtoul hive_id

def NodeFiles.physicalId (f : NodeFiles) : BitVec 64 :=
  match f.xgmi_physical_id with
  | some physical_id => Numerals.strtoul physical_id
  | none => 0#64

section
variable (root : OrderedMap String NodeFiles)

def InHive (hive : BitVec 64) (x : Nat) (f : NodeFiles) : Prop :=
  (∃ name, root.entries[x]? = some (name, f)) ∧ f.hive = some hive

def HiveCard (hive : BitVec 64) (c : Nat) (physical_id : BitVec 64) : Prop :=
  ∃ name f, root.entries[c]? = some (name, f) ∧ isCard name = true ∧ f.hive = some hive ∧
    f.physicalId = physical_id

def OneCard (entries : List String) (c : Nat) : Prop :=
  ∃ name, root.keys[c]? = some name ∧ isCard name = true ∧ name ∈ entries ∧
    ∀ other ∈ entries, isCard other = true → other = name

def ListsHive (hive : BitVec 64) (node_paths : List (List String)) : Prop :=
  ∃ cards : List Nat, List.Forall₂ (OneCard root) node_paths cards ∧ cards.Nodup ∧
    ∀ c, c ∈ cards ↔ ∃ id, HiveCard root hive c id

structure MembersInOrder (xgmi : Nat → XGMIInfo) (hive : BitVec 64) (x : Nat) : Prop where
  once : (xgmi x).nodes.Nodup
  members : ∀ c, c ∈ (xgmi x).nodes ↔ ∃ id, HiveCard root hive c id
  order : (xgmi x).nodes.Pairwise fun c d => (xgmi c).physical_id < (xgmi d).physical_id

end

/-- Hives with all their members, and with physical ids that tell the cards of a hive apart. -/
structure HiveTopology where
  root : OrderedMap String NodeFiles
  listed : ∀ hive x f hive_info, InHive root hive x f → f.xgmi_hive_info = some hive_info →
    ListsHive root hive hive_info.nodes
  distinct : ∀ hive c d id, HiveCard root hive c id → HiveCard root hive d id → c = d

section
variable {root : OrderedMap String NodeFiles}

theorem nodeByName_key {c : Nat} {name : String} (at_c : root.keys[c]? = some name) :
    nodeByName root name = some c := by
  obtain ⟨inside, same⟩ := List.getElem?_eq_some_iff.mp at_c
  rw [nodeByName, List.findIdx?_eq_some_iff_getElem]
  refine ⟨inside, by simpa using same, fun j early => ?_⟩
  have other : root.keys[j] ≠ root.keys[c] := fun h =>
    absurd ((List.Nodup.getElem_inj_iff root.keys_nodup).mp h) (Nat.ne_of_lt early)
  simpa [same] using other

theorem cardOf_one {entries : List String} {c : Nat} (one : OneCard root entries c) :
    cardOf root entries = some c := by
  obtain ⟨name, at_c, card, member, only⟩ := one
  induction entries with
  | nil => cases member
  | cons e entries ih =>
    obtain ⟨here, later⟩ := List.forall_mem_cons.mp only
    rw [cardOf, List.findSome?_cons]
    by_cases first : isCard e = true
    · rw [if_pos first, here first, nodeByName_key at_c]
    · rw [if_neg first]
      have rest : name ∈ entries := (List.mem_cons.mp member).resolve_left fun same =>
        first (same ▸ card)
      exact ih rest later

theorem memberNodes_cards {node_paths : List (List String)} {cards : List Nat}
    (all : List.Forall₂ (OneCard root) node_paths cards) : memberNodes root node_paths = cards := by
  have every : node_paths.mapM (cardOf root) = some cards := by
    induction all with
    | nil => rfl
    | cons one _ ih => simp only [List.mapM_cons, cardOf_one one, ih]; rfl
  rw [memberNodes, every, Option.getD_some]

section
variable {S : Sorter Nat Nat} {xgmi : Nat → XGMIInfo} {x : Nat} {f : NodeFiles}

theorem init_other {j : Nat} (other : j ≠ x) : initXGMIInfo root S xgmi x f j = xgmi j := by
  unfold initXGMIInfo
  cases f.xgmi_device_id with
  | none => rfl
  | some device_id =>
    cases f.xgmi_physical_id with
    | none => exact Function.update_of_ne other _ _
    | some physical_id =>
      cases f.xgmi_hive_info with
      | none => exact Function.update_of_ne other _ _
      | some hive_info =>
        cases id : hive_info.xgmi_hive_id with
        | none => simp only [id, Function.update_of_ne other]
        | some hive_id => simp only [id, Function.update_of_ne other]

variable (root S) in
theorem init_hive {hive : BitVec 64} (inHive : f.hive = some hive) (unread : xgmi x = .start) :
    ∃ hive_info, f.xgmi_hive_info = some hive_info ∧
      (initXGMIInfo root S xgmi x f x).physical_id = f.physicalId ∧
      ∃ seen : Nat → Nat, seen x = f.physicalId.toNat ∧
        (∀ j, j ≠ x → seen j = (xgmi j).physical_id.toNat) ∧
        (initXGMIInfo root S xgmi x f x).nodes =
          S.sort seen (memberNodes root hive_info.nodes) := by
  simp only [NodeFiles.hive, Option.bind_eq_bind, Option.bind_eq_some_iff] at inHive
  obtain ⟨device_id, device, physical_id, physical, hive_info, info, hive_id, id, -⟩ := inHive
  refine ⟨hive_info, info, ?_, ?_⟩
  · simp only [initXGMIInfo, device, physical, info, id, Function.update_self,
      NodeFiles.physicalId]
  · simp only [initXGMIInfo, device, physical, info, id, Function.update_self,
      NodeFiles.physicalId, unread, XGMIInfo.start, List.nil_append]
    refine ⟨_, ?_, ?_, rfl⟩
    · simp only [Function.update_self]
    · intro j other
      simp only [Function.update_of_ne other]

end

variable (root) (S : Sorter Nat Nat)

theorem initBefore_succ {x : Nat} {name : String} {f : NodeFiles}
    (at_x : root.entries[x]? = some (name, f)) :
    initBefore root S (x + 1) = initXGMIInfo root S (initBefore root S x) x f := by
  have step : root.entries.zipIdx[x]? = some ((name, f), x) := by
    rw [List.getElem?_zipIdx, at_x]
    simp
  rw [initBefore, List.take_add_one, step, List.foldl_append]
  rfl

theorem initBefore_beyond {place : Nat} (beyond : root.entries.length ≤ place) :
    initBefore root S (place + 1) = initBefore root S place := by
  have nothing : root.entries.zipIdx[place]? = none := by simpa using beyond
  rw [initBefore, List.take_add_one, nothing, Option.toList_none, List.append_nil]
  rfl

theorem initBefore_other (place j : Nat) (other : j ≠ place) :
    initBefore root S (place + 1) j = initBefore root S place j := by
  cases at_place : root.entries[place]? with
  | none => rw [initBefore_beyond root S (List.getElem?_eq_none_iff.mp at_place)]
  | some e => rw [initBefore_succ root S at_place, init_other other]

theorem initBefore_unread {place j : Nat} (le : place ≤ j) :
    initBefore root S place j = .start := by
  induction place with
  | zero => rfl
  | succ place ih =>
    rw [initBefore_other root S place j (by omega)]
    exact ih (by omega)

theorem initBefore_kept {place j : Nat} (less : j < place) :
    initBefore root S place j = initBefore root S (j + 1) j := by
  induction place with
  | zero => exact absurd less (Nat.not_lt_zero j)
  | succ place ih =>
    rcases Nat.lt_succ_iff_lt_or_eq.mp less with early | rfl
    · rw [initBefore_other root S place j (by omega)]
      exact ih early
    · rfl

variable {hive : BitVec 64}

theorem initBefore_physical {c : Nat} {id : BitVec 64} (card : HiveCard root hive c id)
    (place : Nat) :
    (initBefore root S place c).physical_id = if c < place then id else 0#64 := by
  obtain ⟨name, f, at_c, -, inHive, rfl⟩ := card
  split
  · rename_i less
    obtain ⟨_, -, physical, -⟩ := init_hive root S inHive
      (initBefore_unread root S (Nat.le_refl c))
    rw [initBefore_kept root S less, initBefore_succ root S at_c, physical]
  · rename_i late
    rw [initBefore_unread root S (Nat.not_lt.mp late)]
    rfl

theorem makeDRM_physical {c : Nat} {id : BitVec 64} (card : HiveCard root hive c id) :
    (makeDRM root S c).physical_id = id := by
  have inside : c < root.entries.length := by
    obtain ⟨_, _, at_c, -⟩ := card
    exact (List.getElem?_eq_some_iff.mp at_c).1
  rw [makeDRM, initBefore_physical root S card, if_pos inside]

end

namespace HiveTopology
variable (t : HiveTopology)

/-- Every card of the hive that comes behind the node has the lowest physical id of the hive. So
there is at most one. -/
def LateCardLowest (hive : BitVec 64) (x : Nat) : Prop :=
  ∀ c id d other, HiveCard t.root hive c id → HiveCard t.root hive d other → x < c → d ≠ c →
    id < other

section
variable {t} {hive : BitVec 64} {x : Nat} {f : NodeFiles}

theorem nodes_sorted (S : Sorter Nat Nat) (inHive : InHive t.root hive x f) :
    ∃ (seen : Nat → Nat) (cards : List Nat), (makeDRM t.root S x).nodes = S.sort seen cards ∧
      cards.Nodup ∧ (∀ c, c ∈ cards ↔ ∃ id, HiveCard t.root hive c id) ∧
      ∀ c id, HiveCard t.root hive c id → seen c = if c ≤ x then id.toNat else 0 := by
  obtain ⟨⟨name, at_x⟩, hive_eq⟩ := inHive
  have inside := (List.getElem?_eq_some_iff.mp at_x).1
  obtain ⟨hive_info, info, -, seen, own, others, sorted⟩ := init_hive t.root S hive_eq
    (initBefore_unread t.root S (Nat.le_refl x))
  obtain ⟨cards, all, once, members⟩ := t.listed hive x f hive_info ⟨⟨name, at_x⟩, hive_eq⟩ info
  refine ⟨seen, cards, ?_, once, members, fun c id card => ?_⟩
  · rw [makeDRM, initBefore_kept t.root S inside, initBefore_succ t.root S at_x, sorted,
      memberNodes_cards all]
  · by_cases same : c = x
    · subst same
      obtain ⟨_, g, at_c, -, -, rfl⟩ := card
      obtain ⟨-, rfl⟩ := Prod.mk.inj (Option.some.inj (at_x.symm.trans at_c))
      rw [own, if_pos (Nat.le_refl c)]
    · rw [others c same, initBefore_physical t.root S card]
      by_cases early : c < x
      · rw [if_pos early, if_pos (Nat.le_of_lt early)]
      · rw [if_neg early, if_neg (by omega)]
        rfl

theorem in_order_of_lowest (S : Sorter Nat Nat) (inHive : InHive t.root hive x f)
    (lowest : t.LateCardLowest hive x) : MembersInOrder t.root (makeDRM t.root S) hive x := by
  obtain ⟨seen, cards, sorted, once, members, known⟩ := nodes_sorted S inHive
  have perm := S.perm seen cards
  have distinct : (S.sort seen cards).Nodup := perm.nodup_iff.mpr once
  refine ⟨sorted ▸ distinct, fun c => sorted ▸ perm.mem_iff.trans (members c), ?_⟩
  rw [sorted]
  refine (List.Pairwise.and (S.sorted seen cards) distinct).imp_of_mem ?_
  rintro c d hc hd ⟨le, other⟩
  obtain ⟨id, card⟩ := (members c).mp (perm.mem_iff.mp hc)
  obtain ⟨id', card'⟩ := (members d).mp (perm.mem_iff.mp hd)
  have unlike : id ≠ id' := fun same => other (t.distinct hive c d id card (same ▸ card'))
  have unlike' : id.toNat ≠ id'.toNat := fun same => unlike (BitVec.eq_of_toNat_eq same)
  rw [makeDRM_physical t.root S card, makeDRM_physical t.root S card', BitVec.lt_def]
  rw [known c id card, known d id' card'] at le
  by_cases late : x < c
  · exact BitVec.lt_def.mp (lowest c id d id' card card' late other.symm)
  · rw [if_pos (Nat.not_lt.mp late)] at le
    by_cases late' : x < d
    · -- `d` reads as zero and comes behind `c`: then `c` has id 0, and no id is lower
      have less := BitVec.lt_def.mp (lowest d id' c id card' card late' other)
      rw [if_neg (Nat.not_le.mpr late')] at le
      omega
    · rw [if_pos (Nat.not_lt.mp late')] at le
      omega

def firstRank (c n : Nat) : Nat := if n = c then 0 else 1

theorem lowest_of_in_order (inHive : InHive t.root hive x f)
    (order : ∀ S, MembersInOrder t.root (makeDRM t.root S) hive x) :
    t.LateCardLowest hive x := by
  intro c id d id' card card' late other
  have right := order (Sorting.ranked (firstRank c))
  obtain ⟨seen, cards, sorted, -, -, known⟩ := nodes_sorted (Sorting.ranked (firstRank c)) inHive
  have ranks := Sorting.ranked_sorted (firstRank c) seen cards
  rw [← sorted] at ranks
  have zero : seen c = 0 := by rw [known c id card, if_neg (Nat.not_le.mpr late)]
  rcases Sorting.either_of_pairwise (ranks.and right.order) ((right.members c).mpr ⟨id, card⟩)
    ((right.members d).mpr ⟨id', card'⟩) other.symm with ⟨-, less⟩ | ⟨before, -⟩
  · rwa [makeDRM_physical t.root _ card, makeDRM_physical t.root _ card'] at less
  · rcases before with less | ⟨-, rank⟩
    · omega
    · simp only [firstRank, if_neg other, if_true] at rank
      omega

theorem late_card_first (S : Sorter Nat Nat) (inHive : InHive t.root hive x f) {c d : Nat}
    {id id' : BitVec 64} (card : HiveCard t.root hive c id) (card' : HiveCard t.root hive d id')
    (late : x < c) (early : d ≤ x) (read : id'.toNat ≠ 0) (higher : id' < id) :
    ¬MembersInOrder t.root (makeDRM t.root S) hive x := by
  intro right
  obtain ⟨seen, cards, sorted, -, -, known⟩ := nodes_sorted S inHive
  have keys := S.sorted seen cards
  rw [← sorted] at keys
  have zero : seen c = 0 := by rw [known c id card, if_neg (Nat.not_le.mpr late)]
  have own : seen d = id'.toNat := by rw [known d id' card', if_pos early]
  rcases Sorting.either_of_pairwise (keys.and right.order) ((right.members c).mpr ⟨id, card⟩)
    ((right.members d).mpr ⟨id', card'⟩) (by omega) with ⟨-, less⟩ | ⟨le, -⟩
  · rw [makeDRM_physical t.root _ card, makeDRM_physical t.root _ card', BitVec.lt_def] at less
    exact Nat.lt_asymm less (BitVec.lt_def.mp higher)
  · omega

end

/-- Whatever the sort does with equal keys, every node of a hive keeps the cards of its hive in the
order of their physical ids exactly if, for each of these nodes, a card that comes behind it in path
order has the lowest physical id. -/
theorem members_in_order_iff :
    (∀ S hive x f, InHive t.root hive x f → MembersInOrder t.root (makeDRM t.root S) hive x) ↔
      ∀ hive x f, InHive t.root hive x f → t.LateCardLowest hive x := by
  constructor
  · intro order hive x f inHive
    exact lowest_of_in_order inHive fun S => order S hive x f inHive
  · intro lowest S hive x f inHive
    exact in_order_of_lowest S inHive (lowest hive x f inHive)

end HiveTopology

def gpuFiles (physical_id : Contents) : NodeFiles :=
  ⟨some ['5'], some physical_id,
    some ⟨some ['7'], [["card0", "renderD128"], ["card1", "renderD129"]]⟩⟩

def pairRoot : OrderedMap String NodeFiles where
  entries := [("card0", gpuFiles ['1']), ("card1", gpuFiles ['2']),
    ("renderD128", gpuFiles ['1']), ("renderD129", gpuFiles ['2'])]
  sorted := by decide

theorem pairRoot_card_iff (hive : BitVec 64) (c : Nat) (id : BitVec 64) :
    HiveCard pairRoot hive c id ↔ hive = 7#64 ∧ (c = 0 ∧ id = 1#64 ∨ c = 1 ∧ id = 2#64) := by
  constructor
  · rintro ⟨name, f, at_c, card, inHive, rfl⟩
    match c, at_c with
    | 0, rfl => exact ⟨(Option.some.inj inHive).symm, Or.inl ⟨rfl, rfl⟩⟩
    | 1, rfl => exact ⟨(Option.some.inj inHive).symm, Or.inr ⟨rfl, rfl⟩⟩
    | 2, rfl => exact absurd card (by decide)
    | 3, rfl => exact absurd card (by decide)
  · rintro ⟨rfl, ⟨rfl, rfl⟩ | ⟨rfl, rfl⟩⟩
    · exact ⟨"card0", gpuFiles ['1'], rfl, by decide, rfl, rfl⟩
    · exact ⟨"card1", gpuFiles ['2'], rfl, by decide, rfl, rfl⟩

theorem pairRoot_files {hive : BitVec 64} {x : Nat} {f : NodeFiles}
    (inHive : InHive pairRoot hive x f) :
    hive = 7#64 ∧ ∃ physical_id, f = gpuFiles physical_id := by
  obtain ⟨⟨name, at_x⟩, hive_eq⟩ := inHive
  match x, at_x with
  | 0, rfl => exact ⟨(Option.some.inj hive_eq).symm, _, rfl⟩
  | 1, rfl => exact ⟨(Option.some.inj hive_eq).symm, _, rfl⟩
  | 2, rfl => exact ⟨(Option.some.inj hive_eq).symm, _, rfl⟩
  | 3, rfl => exact ⟨(Option.some.inj hive_eq).symm, _, rfl⟩

def pairHive : HiveTopology where
  root := pairRoot
  listed := by
    intro hive x f hive_info inHive info
    obtain ⟨rfl, physical_id, rfl⟩ := pairRoot_files inHive
    cases info
    refine ⟨[0, 1], ?_, by decide, fun c => ?_⟩
    · refine .cons ⟨"card0", rfl, ?_⟩ (.cons ⟨"card1", rfl, ?_⟩ .nil)
      · simp only [List.forall_mem_cons]
        decide
      · simp only [List.forall_mem_cons]
        decide
    · simp only [pairRoot_card_iff, List.mem_cons, List.not_mem_nil, or_false]
      constructor
      · rintro (rfl | rfl)
        · exact ⟨1#64, trivial, Or.inl ⟨rfl, rfl⟩⟩
        · exact ⟨2#64, trivial, Or.inr ⟨rfl, rfl⟩⟩
      · rintro ⟨_, -, ⟨rfl, -⟩ | ⟨rfl, -⟩⟩
        · exact Or.inl rfl
        · exact Or.inr rfl
  distinct := by
    intro hive c d id card card'
    rw [pairRoot_card_iff] at card card'
    rcases card with ⟨-, ⟨rfl, rfl⟩ | ⟨rfl, rfl⟩⟩ <;>
      rcases card' with ⟨-, ⟨rfl, same⟩ | ⟨rfl, same⟩⟩
    · rfl
    · exact absurd same (by decide)
    · exact absurd same (by decide)
    · rfl

/-- While `card0` is initialised, the physical id of `card1` still reads as zero. -/
theorem second_card_first : ¬∃ S, ∀ hive x f, InHive pairHive.root hive x f →
    MembersInOrder pairHive.root (makeDRM pairHive.root S) hive x := by
  rintro ⟨S, order⟩
  have inHive : InHive pairHive.root 7#64 0 (gpuFiles ['1']) := ⟨⟨"card0", rfl⟩, rfl⟩
  have first : HiveCard pairHive.root 7#64 0 1#64 :=
    (pairRoot_card_iff ..).mpr ⟨rfl, Or.inl ⟨rfl, rfl⟩⟩
  have second : HiveCard pairHive.root 7#64 1 2#64 :=
    (pairRoot_card_iff ..).mpr ⟨rfl, Or.inr ⟨rfl, rfl⟩⟩
  exact HiveTopology.late_card_first S inHive second first (by decide) (Nat.le_refl 0) (by decide)
    (by decide) (order _ _ _ inHive)

end Rocsift.Drm
