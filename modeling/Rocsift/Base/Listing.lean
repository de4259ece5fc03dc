import Mathlib.Data.List.Perm.Basic
import Rocsift.Base.Outcome
import Rocsift.Base.Sorting

/-! Directories, whose entries are listed in no order that one could rely on. Reading each entry and
sorting what was read by distinct keys gives one outcome, whatever the order, and so does looking
for an entry that only one of them can be. -/
namespace Listing
open Sorting (Sorter)

variable {A B E K : Type}

/-- The entries in another order, each perhaps listed in another way itself. -/
def Relisted (R : A → A → Prop) (l l' : List A) : Prop :=
  ∃ mid, l.Perm mid ∧ List.Forall₂ R mid l'

theorem map_eq_map {f : A → K} {g : B → K} {l : List A} {l' : List B}
    (all : List.Forall₂ (fun a b => f a = g b) l l') : l.map f = l'.map g := by
  rw [← List.forall₂_eq_eq_eq, List.forall₂_map_left_iff, List.forall₂_map_right_iff]
  exact all

theorem find?_map_iff {C : Type} [DecidableEq K] {key : A → K} {f : A → C} {l : List A}
    (once : (l.map key).Nodup) (k : K) (c : C) :
    (l.find? fun a => key a = k).map f = some c ↔ (k, c) ∈ l.map fun a => (key a, f a) := by
  rw [Option.map_eq_some_iff, List.mem_map]
  constructor
  · rintro ⟨a, found, rfl⟩
    have same : key a = k := by simpa using List.find?_some found
    exact ⟨a, List.mem_of_find?_eq_some found, by rw [same]⟩
  · rintro ⟨a, member, pair⟩
    cases pair
    cases found : l.find? fun b => key b = key a with
    | none =>
      have no := List.find?_eq_none.mp found a member
      simp at no
    | some b =>
      have same : key b = key a := by simpa using List.find?_some found
      obtain rfl := List.inj_on_of_nodup_map once (List.mem_of_find?_eq_some found) member same
      exact ⟨b, rfl, rfl⟩

def readSorted [LinearOrder K] (sorter : Sorter B K) (key : B → K) (read : A → Except E B)
    (l : List A) : Except E (List B) := do
  let xs ← l.mapM read
  return sorter.sort key xs

/-- The outcomes agree, up to what was thrown. -/
def Agree (x y : Except E B) : Prop := x.toOption = y.toOption

theorem Agree.refl (x : Except E B) : Agree x x := rfl

theorem agree_ok {x y : Except E B} (agree : Agree x y) {b : B} (h : x = .ok b) : y = .ok b := by
  subst h
  cases y with
  | error e => cases agree
  | ok c => exact congrArg Except.ok (Option.some.inj agree).symm

theorem Agree.symm {x y : Except E B} (agree : Agree x y) : Agree y x := Eq.symm agree

theorem Agree.bind {C : Type} {x y : Except E B} {f g : B → Except E C} (agree : Agree x y)
    (later : ∀ b, x = .ok b → Agree (f b) (g b)) : Agree (x >>= f) (y >>= g) := by
  cases x with
  | error e =>
    cases y with
    | error e' => rfl
    | ok c => cases agree
  | ok b =>
    rw [agree_ok agree rfl]
    exact later b rfl

/-- Sorting by distinct keys has one outcome, also as far as it is seen of other entries. -/
theorem sort_map_congr {C : Type} [LinearOrder K] (sorter : Sorter A K) (sorter' : Sorter B K)
    {key : A → K} {key' : B → K} {f : A → C} {g : B → C} {l : List A} {l' : List B}
    (perm : (l.map fun a => (key a, f a)).Perm (l'.map fun b => (key' b, g b)))
    (distinct : (l.map key).Nodup) :
    (sorter.sort key l).map f = (sorter'.sort key' l').map g := by
  have mine := (sorter.perm key l).map fun a => (key a, f a)
  have other := (sorter'.perm key' l').map fun b => (key' b, g b)
  have same : (sorter.sort key l).map (fun a => (key a, f a)) =
      (sorter'.sort key' l').map fun b => (key' b, g b) := by
    have in_order : ((sorter.sort key l).map fun a => (key a, f a)).Pairwise
        fun p q => p.1 ≤ q.1 := List.pairwise_map.mpr (sorter.sorted key l)
    have in_order' : ((sorter'.sort key' l').map fun b => (key' b, g b)).Pairwise
        fun p q => p.1 ≤ q.1 := List.pairwise_map.mpr (sorter'.sorted key' l')
    apply List.Perm.eq_of_pairwise ?_ in_order in_order' (mine.trans (perm.trans other.symm))
    intro p q hp hq le ge
    have once : ((l.map fun a => (key a, f a)).map Prod.fst).Nodup := by
      rwa [List.map_map]
    exact List.inj_on_of_nodup_map once (mine.mem_iff.mp hp)
      (perm.mem_iff.mpr (other.mem_iff.mp hq)) (le_antisymm le ge)
  have seen := congrArg (List.map Prod.snd) same
  rwa [List.map_map, List.map_map] at seen

theorem sort_congr [LinearOrder K] (sorter sorter' : Sorter B K) {key : B → K} {l l' : List B}
    (perm : l.Perm l') (distinct : (l.map key).Nodup) :
    sorter.sort key l = sorter'.sort key l' := by
  have same := sort_map_congr sorter sorter' (perm.map fun b => (key b, id b)) distinct
  rwa [List.map_id, List.map_id] at same

theorem sort_relisted [LinearOrder K] (sorter sorter' : Sorter A K) {key : A → K} {R : A → A → Prop}
    {l l' : List A} (relisted : Relisted R l l') (keys : ∀ a b, R a b → key a = key b)
    (distinct : (l.map key).Nodup) :
    List.Forall₂ R (sorter.sort key l) (sorter'.sort key l') := by
  obtain ⟨mid, perm, all⟩ := relisted
  obtain ⟨w, beside, same⟩ := List.perm_comp_forall₂ ((sorter.perm key l).trans perm) all
  have own_keys : (sorter.sort key l).map key = w.map key := map_eq_map (beside.imp keys)
  have in_order : w.Pairwise fun a b => key a ≤ key b := by
    rw [← List.pairwise_map (f := key) (R := (· ≤ ·)), ← own_keys, List.pairwise_map]
    exact sorter.sorted key l
  have once : (w.map key).Nodup := by
    rw [← own_keys]
    exact ((sorter.perm key l).map key).nodup_iff.mpr distinct
  have outcome : w = sorter'.sort key l' := by
    apply List.Perm.eq_of_pairwise ?_ in_order (sorter'.sorted key l')
    · exact same.trans (sorter'.perm key l').symm
    · intro a b ha hb le ge
      have there := same.mem_iff.mpr ((sorter'.perm key l').mem_iff.mp hb)
      exact List.inj_on_of_nodup_map once ha there (le_antisymm le ge)
  exact outcome ▸ beside

section
variable {R : A → A → Prop} {l l' : List A}

theorem Relisted.there (relisted : Relisted R l l') {a : A} (member : a ∈ l) : ∃ b ∈ l', R a b := by
  obtain ⟨mid, perm, all⟩ := relisted
  have in_mid := perm.mem_iff.mp member
  clear perm member
  induction all with
  | nil => cases in_mid
  | cons here _ ih =>
    rcases List.mem_cons.mp in_mid with rfl | later
    · exact ⟨_, List.mem_cons_self, here⟩
    · obtain ⟨b, hb, rel⟩ := ih later
      exact ⟨b, List.mem_cons_of_mem _ hb, rel⟩

theorem Relisted.back (relisted : Relisted R l l') {b : A} (member : b ∈ l') : ∃ a ∈ l, R a b := by
  obtain ⟨mid, perm, all⟩ := relisted
  have found : ∃ a ∈ mid, R a b := by
    clear perm
    induction all with
    | nil => cases member
    | cons here _ ih =>
      rcases List.mem_cons.mp member with rfl | later
      · exact ⟨_, List.mem_cons_self, here⟩
      · obtain ⟨a, ha, rel⟩ := ih later
        exact ⟨a, List.mem_cons_of_mem _ ha, rel⟩
  obtain ⟨a, ha, rel⟩ := found
  exact ⟨a, perm.mem_iff.mpr ha, rel⟩

theorem find?_relisted (p p' : A → Bool) (key : A → K) (relisted : Relisted R l l')
    (alike : ∀ a b, R a b → p a = p' b ∧ key a = key b)
    (single : ∀ a ∈ l, ∀ b ∈ l, p a → p b → key a = key b) :
    (l.find? p).map key = (l'.find? p').map key := by
  cases found : l.find? p with
  | none =>
    have none_there : l'.find? p' = none := by
      rw [List.find?_eq_none]
      intro b hb
      obtain ⟨a, ha, rel⟩ := relisted.back hb
      rw [← (alike a b rel).1]
      exact List.find?_eq_none.mp found a ha
    rw [none_there]
  | some a =>
    have member := List.mem_of_find?_eq_some found
    obtain ⟨b, hb, rel⟩ := relisted.there member
    have holds : p' b = true := (alike a b rel).1 ▸ List.find?_some found
    obtain ⟨c, found'⟩ := Option.isSome_iff_exists.mp (List.find?_isSome.mpr ⟨b, hb, holds⟩)
    obtain ⟨d, hd, rel'⟩ := relisted.back (List.mem_of_find?_eq_some found')
    have holds' : p d = true := (alike d c rel').1 ▸ List.find?_some found'
    rw [found', Option.map_some, Option.map_some,
      single a member d hd (List.find?_some found) holds', (alike d c rel').2]

end

section
variable {read read' : A → Except E B} {R : A → A → Prop} {l l' : List A}

theorem mapM_perm {r : List B} (perm : l.Perm l') (h : l.mapM read = .ok r) :
    ∃ r', l'.mapM read = .ok r' ∧ r.Perm r' := by
  induction perm generalizing r with
  | nil => exact ⟨r, h, .refl r⟩
  | cons a _ ih =>
    rw [List.mapM_cons] at h
    obtain ⟨b, hb, h⟩ := Outcome.bind_ok h
    obtain ⟨rest, hr, h⟩ := Outcome.bind_ok h
    cases h
    obtain ⟨r', hr', perm⟩ := ih hr
    refine ⟨b :: r', ?_, perm.cons b⟩
    rw [List.mapM_cons, hb, hr']
    rfl
  | swap a c l =>
    rw [List.mapM_cons] at h
    obtain ⟨b, hb, h⟩ := Outcome.bind_ok h
    obtain ⟨rest, hr, h⟩ := Outcome.bind_ok h
    rw [List.mapM_cons] at hr
    obtain ⟨d, hd, hr⟩ := Outcome.bind_ok hr
    obtain ⟨rest', hr', hr⟩ := Outcome.bind_ok hr
    cases h
    cases hr
    refine ⟨d :: b :: rest', ?_, .swap d b rest'⟩
    rw [List.mapM_cons, List.mapM_cons, hd, hb, hr']
    rfl
  | trans _ _ ih ih' =>
    obtain ⟨r', hr', perm⟩ := ih h
    obtain ⟨r'', hr'', perm'⟩ := ih' hr'
    exact ⟨r'', hr'', perm.trans perm'⟩

theorem mapM_agree (all : List.Forall₂ (fun a b => Agree (read a) (read' b)) l l') :
    Agree (l.mapM read) (l'.mapM read') := by
  induction all with
  | nil => exact Agree.refl _
  | cons here _ ih =>
    rw [List.mapM_cons, List.mapM_cons]
    exact here.bind fun b _ => ih.bind fun bs _ => Agree.refl _

theorem readSorted_agree [LinearOrder K] (sorter sorter' : Sorter B K) {key : B → K}
    (relisted : Relisted R l l') (alike : ∀ a ∈ l, ∀ b, R a b → Agree (read a) (read' b))
    (distinct : ∀ r, l.mapM read = .ok r → (r.map key).Nodup) :
    Agree (readSorted sorter key read l) (readSorted sorter' key read' l') := by
  obtain ⟨mid, perm, all⟩ := relisted
  have same : Agree (mid.mapM read) (l'.mapM read') := by
    apply mapM_agree
    have both := (List.forall₂_and_left mid l').mpr ⟨fun a ha => perm.mem_iff.mpr ha, all⟩
    exact both.imp fun a b h => alike a h.1 b h.2
  unfold readSorted
  cases found : l.mapM read with
  | ok r =>
    obtain ⟨r', found', perm'⟩ := mapM_perm perm found
    rw [agree_ok same found']
    exact congrArg some (sort_congr sorter sorter' perm' (distinct r found))
  | error e =>
    cases found' : l'.mapM read' with
    | error e' => rfl
    | ok r' =>
      obtain ⟨r, back, -⟩ := mapM_perm perm.symm (agree_ok same.symm found')
      cases found.symm.trans back

end

end Listing
