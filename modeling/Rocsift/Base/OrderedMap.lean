import Mathlib.Order.Lattice
import Mathlib.Data.List.Nodup

/-! Maps ordered by their keys, as a sorted list of entries: traversal is in key order. -/

structure OrderedMap (K V : Type) [LinearOrder K] where
  entries : List (K × V)
  sorted : entries.Pairwise fun a b => a.1 < b.1

namespace OrderedMap

variable {K V : Type} [LinearOrder K]

def empty : OrderedMap K V := ⟨[], List.Pairwise.nil⟩

def find? (m : OrderedMap K V) (k : K) : Option V := (m.entries.find? (·.1 = k)).map Prod.snd

def keys (m : OrderedMap K V) : List K := m.entries.map Prod.fst

def insertEntry (k : K) (v : V) : List (K × V) → List (K × V)
  | [] => [(k, v)]
  | e :: es =>
    if k < e.1 then (k, v) :: e :: es
    else if k = e.1 then (k, v) :: es
    else e :: insertEntry k v es

theorem mem_insertEntry {k : K} {v : V} {es : List (K × V)}
    (sorted : es.Pairwise fun a b => a.1 < b.1) (e : K × V) :
    e ∈ insertEntry k v es ↔ e = (k, v) ∨ (e ∈ es ∧ e.1 ≠ k) := by
  induction es with
  | nil => simp [insertEntry]
  | cons d es ih =>
    obtain ⟨first, rest⟩ := List.pairwise_cons.mp sorted
    simp only [insertEntry]
    split
    · rename_i less
      have other : ∀ e ∈ d :: es, e.1 ≠ k := by
        intro e he
        rcases List.mem_cons.mp he with rfl | he
        · exact ne_of_gt less
        · exact ne_of_gt (lt_trans less (first e he))
      rw [List.mem_cons]
      exact or_congr_right ⟨fun he => ⟨he, other e he⟩, fun he => he.1⟩
    · split
      · rename_i same
        subst same
        rw [List.mem_cons, List.mem_cons]
        refine or_congr_right ⟨fun he => ⟨Or.inr he, ne_of_gt (first e he)⟩, ?_⟩
        rintro ⟨rfl | he, ne⟩
        · exact absurd rfl ne
        · exact he
      · rename_i _ ne
        rw [List.mem_cons, ih rest, List.mem_cons]
        constructor
        · rintro (rfl | rfl | he)
          · exact Or.inr ⟨Or.inl rfl, Ne.symm ne⟩
          · exact Or.inl rfl
          · exact Or.inr ⟨Or.inr he.1, he.2⟩
        · rintro (rfl | ⟨rfl | he, ne⟩)
          · exact Or.inr (Or.inl rfl)
          · exact Or.inl rfl
          · exact Or.inr (Or.inr ⟨he, ne⟩)

theorem insertEntry_sorted {k : K} {v : V} {es : List (K × V)}
    (sorted : es.Pairwise fun a b => a.1 < b.1) :
    (insertEntry k v es).Pairwise fun a b => a.1 < b.1 := by
  induction es with
  | nil => simp [insertEntry]
  | cons d es ih =>
    obtain ⟨first, rest⟩ := List.pairwise_cons.mp sorted
    simp only [insertEntry]
    split
    · rename_i less
      refine List.pairwise_cons.mpr ⟨fun e he => ?_, sorted⟩
      rcases List.mem_cons.mp he with rfl | he
      · exact less
      · exact lt_trans less (first e he)
    · split
      · rename_i same
        exact List.pairwise_cons.mpr ⟨fun e he => same ▸ first e he, rest⟩
      · rename_i notLess ne
        refine List.pairwise_cons.mpr ⟨fun e he => ?_, ih rest⟩
        rcases (mem_insertEntry rest e).mp he with rfl | he
        · exact lt_of_le_of_ne (not_lt.mp notLess) (Ne.symm ne)
        · exact first e he.1

def insert (m : OrderedMap K V) (k : K) (v : V) : OrderedMap K V :=
  ⟨insertEntry k v m.entries, insertEntry_sorted m.sorted⟩

variable (m : OrderedMap K V)

theorem keys_sorted : m.keys.Pairwise (· < ·) := List.pairwise_map.mpr m.sorted

theorem keys_nodup : m.keys.Nodup := m.keys_sorted.imp fun less => ne_of_lt less

theorem find?_eq_some_iff (k : K) (v : V) : m.find? k = some v ↔ (k, v) ∈ m.entries := by
  rw [find?, Option.map_eq_some_iff]
  constructor
  · rintro ⟨e, he, rfl⟩
    have same : e.1 = k := by simpa using List.find?_some he
    exact same ▸ List.mem_of_find?_eq_some he
  · intro member
    cases found : m.entries.find? (·.1 = k) with
    | none =>
      have no := List.find?_eq_none.mp found _ member
      simp at no
    | some e =>
      have same : e.1 = k := by simpa using List.find?_some found
      have one := List.inj_on_of_nodup_map m.keys_nodup (List.mem_of_find?_eq_some found) member
        same
      exact ⟨e, rfl, congrArg Prod.snd one⟩

theorem mem_insert_iff (k : K) (v : V) (e : K × V) :
    e ∈ (m.insert k v).entries ↔ e = (k, v) ∨ (e ∈ m.entries ∧ e.1 ≠ k) :=
  mem_insertEntry m.sorted e

def ofList (es : List (K × V)) : OrderedMap K V := es.foldr (fun e m => m.insert e.1 e.2) empty

theorem mem_ofList_iff {es : List (K × V)} (once : (es.map Prod.fst).Nodup) (e : K × V) :
    e ∈ (ofList es).entries ↔ e ∈ es := by
  induction es with
  | nil => exact Iff.rfl
  | cons d es ih =>
    obtain ⟨fresh, rest⟩ := List.nodup_cons.mp once
    change e ∈ ((ofList es).insert d.1 d.2).entries ↔ _
    rw [mem_insert_iff, ih rest, List.mem_cons]
    refine or_congr_right ⟨And.left, fun member => ⟨member, fun same => fresh ?_⟩⟩
    exact same ▸ List.mem_map_of_mem member

end OrderedMap
