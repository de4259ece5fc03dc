import Rocsift.Drm.HiveMembers

/-! The DRM nodes that partitions use. A partition looks for a render node, and in path order the
render nodes come behind all cards. So when one of them is initialised, the physical ids of all
members of its hive have been read. -/
namespace Rocsift.Drm

open Sorting (Sorter)

def renderName (drm_render_minor : BitVec 64) : String :=
  "renderD" ++ String.ofList (Numerals.digits 10 drm_render_minor.toNat)

theorem card_before_render {name : String} (card : isCard name = true) (minor : BitVec 64) :
    name < renderName minor := by
  have leads : "card".toList <+: name.toList := List.isPrefixOf_iff_prefix.mp card
  obtain ⟨rest, split⟩ := leads
  have card_chars : "card".toList = 'c' :: ['a', 'r', 'd'] := by decide
  have render_chars : "renderD".toList = 'r' :: ['e', 'n', 'd', 'e', 'r', 'D'] := by decide
  rw [card_chars, List.cons_append] at split
  rw [String.lt_iff_toList_lt, ← split, renderName, String.toList_append, render_chars,
    List.cons_append]
  apply List.cons_lt_cons_iff.mpr
  exact Or.inl (by decide)

section
variable {root : OrderedMap String NodeFiles}

theorem key_of_nodeByName {name : String} {x : Nat} (found : nodeByName root name = some x) :
    root.keys[x]? = some name := by
  obtain ⟨inside, same, -⟩ := List.findIdx?_eq_some_iff_getElem.mp found
  rw [List.getElem?_eq_getElem inside]
  exact congrArg some (by simpa using same)

theorem place_lt {a b : String} {x y : Nat} (at_x : root.keys[x]? = some a)
    (at_y : root.keys[y]? = some b) (less : a < b) : x < y := by
  obtain ⟨inside, rfl⟩ := List.getElem?_eq_some_iff.mp at_x
  obtain ⟨inside', rfl⟩ := List.getElem?_eq_some_iff.mp at_y
  rcases Nat.lt_trichotomy x y with before | rfl | behind
  · exact before
  · exact absurd less (lt_irrefl _)
  · have more := List.pairwise_iff_getElem.mp root.keys_sorted y x inside' inside behind
    exact absurd less (lt_asymm more)

theorem HiveCard.key {hive : BitVec 64} {c : Nat} {id : BitVec 64}
    (card : HiveCard root hive c id) : ∃ name, root.keys[c]? = some name ∧ isCard name = true := by
  obtain ⟨name, f, at_c, named, -, -⟩ := card
  refine ⟨name, ?_, named⟩
  rw [OrderedMap.keys, List.getElem?_map, at_c]
  rfl

end

theorem makeDRM_hive_id (root : OrderedMap String NodeFiles) (S : Sorter Nat Nat)
    {hive : BitVec 64} {x : Nat} {f : NodeFiles} (inHive : InHive root hive x f) :
    (makeDRM root S x).hive_id = hive := by
  obtain ⟨⟨name, at_x⟩, files⟩ := inHive
  have inside := (List.getElem?_eq_some_iff.mp at_x).1
  simp only [NodeFiles.hive, Option.bind_eq_bind, Option.bind_eq_some_iff] at files
  obtain ⟨device_id, device, physical_id, physical, hive_info, info, hive_id, id, same⟩ := files
  rw [makeDRM, initBefore_kept root S inside, initBefore_succ root S at_x]
  simp only [initXGMIInfo, device, physical, info, id, Function.update_self]
  exact Option.some.inj same

namespace HiveTopology
variable (t : HiveTopology) (S : Sorter Nat Nat) {hive : BitVec 64}

theorem render_in_order {minor : BitVec 64} {x : Nat} {f : NodeFiles}
    (named : nodeByName t.root (renderName minor) = some x) (inHive : InHive t.root hive x f) :
    MembersInOrder t.root (makeDRM t.root S) hive x := by
  apply in_order_of_lowest S inHive
  intro c id d other card _ late _
  obtain ⟨name, at_c, isCard⟩ := card.key
  have before := place_lt at_c (key_of_nodeByName named) (card_before_render isCard minor)
  exact absurd late (Nat.lt_asymm before)

theorem members_unique {x y : Nat} (here : MembersInOrder t.root (makeDRM t.root S) hive x)
    (there : MembersInOrder t.root (makeDRM t.root S) hive y) :
    (makeDRM t.root S x).nodes = (makeDRM t.root S y).nodes := by
  have same := (List.perm_ext_iff_of_nodup here.once there.once).mpr
    fun c => (here.members c).trans (there.members c).symm
  apply same.eq_of_pairwise _ here.order there.order
  intro c d _ _ less more
  exact absurd (BitVec.lt_def.mp less) (Nat.lt_asymm (BitVec.lt_def.mp more))

/-- Any two render nodes of a hive have one and the same list: the cards of the hive, each once, by
increasing physical ids. -/
theorem render_members {minor minor' : BitVec 64} {x y : Nat} {f g : NodeFiles}
    (named : nodeByName t.root (renderName minor) = some x) (inHive : InHive t.root hive x f)
    (named' : nodeByName t.root (renderName minor') = some y) (inHive' : InHive t.root hive y g) :
    MembersInOrder t.root (makeDRM t.root S) hive x ∧
      (makeDRM t.root S x).nodes = (makeDRM t.root S y).nodes := by
  have here := t.render_in_order S named inHive
  exact ⟨here, t.members_unique S here (t.render_in_order S named' inHive')⟩

theorem render_members_pair :
    let drm := makeDRM pairHive.root (Sorting.ranked id)
    MembersInOrder pairHive.root drm 7#64 2 ∧ (drm 2).nodes = (drm 3).nodes := by
  have name : nodeByName pairHive.root (renderName 128#64) = some 2 := by decide
  have name' : nodeByName pairHive.root (renderName 129#64) = some 3 := by decide
  exact pairHive.render_members _ name ⟨⟨"renderD128", rfl⟩, rfl⟩ name' ⟨⟨"renderD129", rfl⟩, rfl⟩

end HiveTopology

end Rocsift.Drm
