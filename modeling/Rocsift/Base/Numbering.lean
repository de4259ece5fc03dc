import Mathlib.Data.List.Perm.Subperm
import Mathlib.Data.List.Induction
import Mathlib.Order.Lattice

/-! Two ways to number things that carry a key: in the order in which they come, and grouped by
key in key order, with some groups left out. They agree only on lists that already come grouped
and ordered. -/
namespace Numbering

variable {K : Type} [LinearOrder K]

def firsts (l : List K) : List K :=
  l.foldl (fun seen k => if k ∈ seen then seen else seen ++ [k]) []

def members (l : List K) (k : K) : List (K × Nat) := l.zipIdx.filter (·.1 = k)

/-- The elements of the kept groups with their positions, group after group. -/
def grouped (keep : K → Bool) (l sorted : List K) : List (K × Nat) :=
  (sorted.filter keep).flatMap (members l)

/-- The list comes in key order as far as it is kept, and what is left out comes last. -/
def Aligned (keep : K → Bool) (l : List K) : Prop :=
  l.Pairwise fun x y => (keep y → keep x) ∧ (keep x → x ≤ y)

section
variable (l : List K)

theorem firsts_snoc (k : K) :
    firsts (l ++ [k]) = if k ∈ firsts l then firsts l else firsts l ++ [k] := by
  rw [firsts, List.foldl_append]
  rfl

theorem mem_firsts (k : K) : k ∈ firsts l ↔ k ∈ l := by
  induction l using List.reverseRecOn with
  | nil => rfl
  | append_singleton l j ih =>
    rw [firsts_snoc]
    split
    · rename_i old
      by_cases same : k = j
      · subst same
        simp [old]
      · simp [same, ih]
    · rw [List.mem_append, List.mem_append, ih]

theorem firsts_nodup : (firsts l).Nodup := by
  induction l using List.reverseRecOn with
  | nil => exact List.nodup_nil
  | append_singleton l j ih =>
    rw [firsts_snoc]
    split
    · exact ih
    · rename_i new
      exact List.nodup_append.mpr ⟨ih, by simp, by
        intro a ha b hb
        rw [List.mem_singleton] at hb
        exact fun same => new (hb ▸ same ▸ ha)⟩

theorem firsts_append (r : List K) : ∃ more, firsts (l ++ r) = firsts l ++ more := by
  induction r using List.reverseRecOn with
  | nil => exact ⟨[], by simp⟩
  | append_singleton r k ih =>
    obtain ⟨more, h⟩ := ih
    rw [← List.append_assoc, firsts_snoc, h]
    split
    · exact ⟨more, rfl⟩
    · exact ⟨more ++ [k], by rw [List.append_assoc]⟩

theorem idxOf_firsts {k : K} (new : k ∉ l) (r : List K) :
    (firsts (l ++ k :: r)).idxOf k = (firsts l).length := by
  have absent : k ∉ firsts l := fun h => new ((mem_firsts l k).mp h)
  obtain ⟨more, h⟩ := firsts_append (l ++ [k]) r
  rw [List.append_assoc, List.singleton_append, firsts_snoc, if_neg absent] at h
  rw [h, List.append_assoc, List.idxOf_append_of_notMem absent]
  simp

end

theorem idxOf_sorted {s : List K} (sorted : s.Pairwise (· < ·)) {k : K} (member : k ∈ s) :
    s.idxOf k = (s.filter (· < k)).length := by
  induction s with
  | nil => cases member
  | cons j s ih =>
    obtain ⟨first, rest⟩ := List.pairwise_cons.mp sorted
    rcases List.mem_cons.mp member with rfl | member
    · have none : s.filter (· < k) = [] :=
        List.filter_eq_nil_iff.mpr fun x hx => by simpa using le_of_lt (first x hx)
      simp [none]
    · have less := first k member
      rw [List.idxOf_cons_ne _ (ne_of_lt less), ih rest member,
        List.filter_cons_of_pos (by simpa)]
      rfl

theorem eq_range_of_increasing {l : List Nat} (increasing : l.Pairwise (· < ·))
    (closed : ∀ x ∈ l, ∀ y < x, y ∈ l) : l = List.range l.length := by
  induction l using List.reverseRecOn with
  | nil => rfl
  | append_singleton l a ih =>
    obtain ⟨inc, _, below⟩ := List.pairwise_append.mp increasing
    have less : ∀ x ∈ l, x < a := fun x hx => below x hx a (List.mem_singleton.mpr rfl)
    have rest := ih inc fun x hx y hy => by
      have mem := closed x (List.mem_append_left _ hx) y hy
      rcases List.mem_append.mp mem with h | h
      · exact h
      · have := less x hx
        have := List.mem_singleton.mp h
        omega
    have members : ∀ x, x ∈ l ↔ x < l.length := fun x => by rw [rest]; simp
    have last : a = l.length := by
      refine Nat.le_antisymm (Nat.not_lt.mp fun high => ?_) (Nat.not_lt.mp fun low => ?_)
      · have mem := closed a (List.mem_append_right l (List.mem_singleton.mpr rfl)) _ high
        rcases List.mem_append.mp mem with h | h
        · exact Nat.lt_irrefl _ ((members _).mp h)
        · exact Nat.ne_of_lt high (List.mem_singleton.mp h)
      · exact Nat.lt_irrefl a (less a ((members a).mpr low))
    rw [List.length_append, List.length_singleton, List.range_succ, ← rest, last]

theorem groups_perm {A : Type} (key : A → K) (l : List A) {ks : List K} (once : ks.Nodup) :
    (ks.flatMap fun k => l.filter fun a => key a = k).Perm (l.filter fun a => key a ∈ ks) := by
  induction ks with
  | nil => simp
  | cons k ks ih =>
    obtain ⟨new, once⟩ := List.nodup_cons.mp once
    have group : (l.filter fun a => key a ∈ k :: ks).filter (fun a => key a = k) =
        l.filter fun a => key a = k := by
      rw [List.filter_filter]
      refine List.filter_congr fun a _ => ?_
      by_cases here : key a = k <;> simp [here]
    have rest : (l.filter fun a => key a ∈ k :: ks).filter (fun a => !decide (key a = k)) =
        l.filter fun a => key a ∈ ks := by
      rw [List.filter_filter]
      refine List.filter_congr fun a _ => ?_
      by_cases here : key a = k
      · simp [here, new]
      · simp [here]
    have split := List.filter_append_perm (fun a => decide (key a = k))
      (l.filter fun a => key a ∈ k :: ks)
    rw [group, rest] at split
    rw [List.flatMap_cons]
    exact ((ih once).append_left _).trans split

section
variable {keep : K → Bool} {l sorted : List K}

theorem mem_members {k : K} {e : K × Nat} : e ∈ members l k ↔ l[e.2]? = some e.1 ∧ e.1 = k := by
  rw [members, List.mem_filter, List.mem_zipIdx_iff_getElem?]
  simp

theorem mem_grouped {e : K × Nat} :
    e ∈ grouped keep l sorted ↔ l[e.2]? = some e.1 ∧ e.1 ∈ sorted ∧ keep e.1 := by
  rw [grouped, List.mem_flatMap]
  constructor
  · rintro ⟨k, hk, he⟩
    obtain ⟨at_e, rfl⟩ := mem_members.mp he
    exact ⟨at_e, List.mem_filter.mp hk⟩
  · rintro ⟨at_e, hk⟩
    exact ⟨e.1, List.mem_filter.mpr hk, mem_members.mpr ⟨at_e, rfl⟩⟩

omit [LinearOrder K] in
theorem zipIdx_increasing : l.zipIdx.Pairwise fun a b => a.2 < b.2 := by
  have range : (l.zipIdx.map Prod.snd).Pairwise (· < ·) := by
    rw [List.zipIdx_map_snd]
    exact List.pairwise_lt_range'
  exact List.pairwise_map.mp range

theorem grouped_order (increasing : sorted.Pairwise (· < ·)) :
    (grouped keep l sorted).Pairwise fun a b => a.1 < b.1 ∨ (a.1 = b.1 ∧ a.2 < b.2) := by
  rw [grouped, List.pairwise_flatMap]
  constructor
  · intro k _
    refine (zipIdx_increasing.filter _).imp_of_mem fun {a b} ha hb less => Or.inr ⟨?_, less⟩
    rw [(mem_members.mp ha).2, (mem_members.mp hb).2]
  · refine (increasing.filter _).imp fun {j k} less a ha b hb => Or.inl ?_
    rw [(mem_members.mp ha).2, (mem_members.mp hb).2]
    exact less

theorem positions_nodup (increasing : sorted.Pairwise (· < ·)) :
    ((grouped keep l sorted).map Prod.snd).Nodup := by
  refine List.pairwise_map.mpr ((grouped_order increasing).imp_of_mem fun {a b} ha hb order => ?_)
  intro same
  have key := (mem_grouped.mp ha).1
  rw [same, (mem_grouped.mp hb).1] at key
  rcases order with less | less
  · exact absurd less (by rw [Option.some.inj key]; exact lt_irrefl _)
  · exact Nat.ne_of_lt less.2 same

theorem grouped_length (once : sorted.Nodup) (every : ∀ k ∈ l, k ∈ sorted) :
    (grouped keep l sorted).length = (l.filter keep).length := by
  have perm := groups_perm (A := K × Nat) Prod.fst l.zipIdx (once.filter keep)
  have kept : l.zipIdx.filter (fun a => decide (a.1 ∈ sorted.filter keep)) =
      l.zipIdx.filter (keep ∘ Prod.fst) := by
    refine List.filter_congr fun a ha => ?_
    have own := every a.1 (List.fst_mem_of_mem_zipIdx ha)
    simp [List.mem_filter, own]
  rw [kept] at perm
  rw [grouped]
  refine perm.length_eq.trans ?_
  rw [← List.length_map (f := Prod.fst), ← List.filter_map, List.zipIdx_map_fst]

theorem mem_positions {i : Nat} : i ∈ (grouped keep l sorted).map Prod.snd ↔
    ∃ k, l[i]? = some k ∧ k ∈ sorted ∧ keep k := by
  rw [List.mem_map]
  constructor
  · rintro ⟨e, he, rfl⟩
    exact ⟨e.1, mem_grouped.mp he⟩
  · rintro ⟨k, h⟩
    exact ⟨(k, i), mem_grouped.mpr h, rfl⟩

theorem Aligned.at (aligned : Aligned keep l) {i j : Nat} {x y : K} (less : i < j)
    (hx : l[i]? = some x) (hy : l[j]? = some y) : (keep y → keep x) ∧ (keep x → x ≤ y) := by
  obtain ⟨hi, rfl⟩ := List.getElem?_eq_some_iff.mp hx
  obtain ⟨hj, rfl⟩ := List.getElem?_eq_some_iff.mp hy
  exact List.pairwise_iff_getElem.mp aligned i j hi hj less

section
variable (increasing : sorted.Pairwise (· < ·)) (same : ∀ k, k ∈ sorted ↔ k ∈ l)
include increasing same

theorem positions_of_aligned (aligned : Aligned keep l) :
    (grouped keep l sorted).map Prod.snd = List.range (grouped keep l sorted).length := by
  have up : ((grouped keep l sorted).map Prod.snd).Pairwise (· < ·) := by
    refine List.pairwise_map.mpr ((grouped_order increasing).imp_of_mem fun {a b} ha hb order => ?_)
    obtain ⟨at_a, _, keep_a⟩ := mem_grouped.mp ha
    obtain ⟨at_b, _, keep_b⟩ := mem_grouped.mp hb
    rcases order with less | ⟨_, less⟩
    · by_contra no
      rcases Nat.lt_or_eq_of_le (Nat.not_lt.mp no) with before | eq
      · exact absurd less (not_lt.mpr ((aligned.at before at_b at_a).2 keep_b))
      · rw [eq, at_a] at at_b
        exact absurd less (by rw [Option.some.inj at_b]; exact lt_irrefl _)
    · exact less
  have closed : ∀ i ∈ (grouped keep l sorted).map Prod.snd, ∀ j < i,
      j ∈ (grouped keep l sorted).map Prod.snd := by
    intro i hi j less
    obtain ⟨k, at_i, _, keep_k⟩ := mem_positions.mp hi
    obtain ⟨bound, _⟩ := List.getElem?_eq_some_iff.mp at_i
    have at_j : l[j]? = some l[j] := List.getElem?_eq_getElem (Nat.lt_trans less bound)
    exact mem_positions.mpr ⟨l[j], at_j, (same _).mpr (List.mem_of_getElem? at_j),
      (aligned.at less at_j at_i).1 keep_k⟩
  simpa using eq_range_of_increasing up closed

theorem indices_of_aligned (aligned : Aligned keep l) {k : K} (member : k ∈ l) (kept : keep k) :
    (firsts l).idxOf k = sorted.idxOf k := by
  obtain ⟨a, r, rfl, new⟩ := List.eq_append_cons_of_mem member
  obtain ⟨_, tail, across⟩ := List.pairwise_append.mp aligned
  have later := (List.pairwise_cons.mp tail).1
  rw [idxOf_firsts a new, idxOf_sorted increasing ((same k).mpr member)]
  refine ((List.perm_ext_iff_of_nodup (firsts_nodup a)
    ((increasing.imp fun less => ne_of_lt less).filter _)).mpr fun x => ?_).length_eq
  rw [mem_firsts, List.mem_filter, same, decide_eq_true_eq]
  constructor
  · intro hx
    have order := across x hx k List.mem_cons_self
    refine ⟨List.mem_append_left _ hx, lt_of_le_of_ne (order.2 (order.1 kept)) ?_⟩
    rintro rfl
    exact new hx
  · rintro ⟨hx, less⟩
    rcases List.mem_append.mp hx with hx | hx
    · exact hx
    · rcases List.mem_cons.mp hx with rfl | hx
      · exact absurd less (lt_irrefl _)
      · exact absurd less (not_lt.mpr ((later x hx).2 kept))

section
variable (positions :
  (grouped keep l sorted).map Prod.snd = List.range (grouped keep l sorted).length)
include positions

omit increasing in
theorem kept_first : l.Pairwise fun x y => keep y → keep x := by
  refine List.pairwise_iff_getElem.mpr fun i j hi hj less keep_y => ?_
  have at_j : l[j]? = some l[j] := List.getElem?_eq_getElem hj
  have mem_j := mem_positions.mpr ⟨_, at_j, (same _).mpr (List.mem_of_getElem? at_j), keep_y⟩
  have mem_i : i ∈ (grouped keep l sorted).map Prod.snd := by
    rw [positions, List.mem_range] at mem_j ⊢
    exact Nat.lt_trans less mem_j
  obtain ⟨k, at_i, _, keep_k⟩ := mem_positions.mp mem_i
  rw [List.getElem?_eq_getElem hi] at at_i
  exact Option.some.inj at_i ▸ keep_k

theorem kept_sorted : l.Pairwise fun x y => keep x → keep y → x ≤ y := by
  refine List.pairwise_iff_getElem.mpr fun i j hi hj less keep_x keep_y => ?_
  -- The element at a position of the grouped list is the one at that position of the list.
  have entry : ∀ i (hi : i < l.length), keep l[i] →
      ∃ h : i < (grouped keep l sorted).length, (grouped keep l sorted)[i].1 = l[i] := by
    intro i hi kept
    have at_i : l[i]? = some l[i] := List.getElem?_eq_getElem hi
    have mem := mem_positions.mpr ⟨_, at_i, (same _).mpr (List.mem_of_getElem? at_i), kept⟩
    rw [positions, List.mem_range] at mem
    have second : (grouped keep l sorted)[i].2 = i := by
      have h : ((grouped keep l sorted).map Prod.snd)[i]? = some i := by
        rw [positions, List.getElem?_range mem]
      simpa [mem] using h
    obtain ⟨at_e, _⟩ := mem_grouped.mp (List.getElem_mem mem)
    rw [second, at_i] at at_e
    exact ⟨mem, (Option.some.inj at_e).symm⟩
  obtain ⟨hi', ei⟩ := entry i hi keep_x
  obtain ⟨hj', ej⟩ := entry j hj keep_y
  have order := List.pairwise_iff_getElem.mp (grouped_order increasing) i j hi' hj' less
  rw [ei, ej] at order
  exact order.elim le_of_lt fun h => le_of_eq h.1

end

theorem le_left_out (first : l.Pairwise fun x y => keep y → keep x)
    (order : l.Pairwise fun x y => keep x → keep y → x ≤ y) {x y : K} (hx : x ∈ l) (hy : y ∈ l)
    (kept : keep x) (out : ¬ keep y) (index : (firsts l).idxOf x = sorted.idxOf x) : x ≤ y := by
  by_contra no
  obtain ⟨a, r, rfl, new⟩ := List.eq_append_cons_of_mem hx
  rw [idxOf_firsts a new, idxOf_sorted increasing ((same x).mpr hx)] at index
  have before : ∀ z ∈ a, keep z := fun z hz =>
    (List.pairwise_append.mp first).2.2 z hz x List.mem_cons_self kept
  have smaller : firsts a ⊆ sorted.filter (· < x) := by
    intro z hz
    have hz := (mem_firsts a z).mp hz
    have le := (List.pairwise_append.mp order).2.2 z hz x List.mem_cons_self (before z hz) kept
    have ne : z ≠ x := fun h => new (h ▸ hz)
    exact List.mem_filter.mpr ⟨(same z).mpr (List.mem_append_left _ hz), by
      simpa using lt_of_le_of_ne le ne⟩
  have perm := ((firsts_nodup a).subperm smaller).perm_of_length_le (Nat.le_of_eq index.symm)
  have member : y ∈ sorted.filter (· < x) :=
    List.mem_filter.mpr ⟨(same y).mpr hy, by simpa using not_le.mp no⟩
  exact out (before y ((mem_firsts a y).mp (perm.mem_iff.mpr member)))

/-- The two numberings agree on the kept elements and on the kept groups exactly when the list
comes aligned. -/
theorem aligned_iff :
    ((grouped keep l sorted).map Prod.snd = List.range (grouped keep l sorted).length ∧
      ∀ k ∈ l, keep k → (firsts l).idxOf k = sorted.idxOf k) ↔ Aligned keep l := by
  constructor
  · rintro ⟨positions, indices⟩
    have first := kept_first same positions
    have order := kept_sorted increasing same positions
    refine List.pairwise_iff_getElem.mpr fun i j hi hj less =>
      ⟨List.pairwise_iff_getElem.mp first i j hi hj less, fun keep_x => ?_⟩
    by_cases keep_y : keep l[j]
    · exact List.pairwise_iff_getElem.mp order i j hi hj less keep_x keep_y
    · have member := List.getElem_mem hi
      exact le_left_out increasing same first order member (List.getElem_mem hj) keep_x keep_y
        (indices _ member keep_x)
  · intro aligned
    exact ⟨positions_of_aligned increasing same aligned,
      fun k member kept => indices_of_aligned increasing same aligned member kept⟩

end

end

section
variable {ids : List Nat}

theorem perm_range (once : ids.Nodup) (inside : ∀ i ∈ ids, i < ids.length) :
    ids.Perm (List.range ids.length) := by
  have sub : ids ⊆ List.range ids.length := fun i member => List.mem_range.mpr (inside i member)
  exact (List.subperm_of_subset once sub).perm_of_length_le (Nat.le_of_eq List.length_range)

theorem inside_iff (once : ids.Nodup) :
    (∀ i ∈ ids, i < ids.length) ↔ ∀ j ∈ ids, ∀ i < j, i ∈ ids := by
  constructor
  · intro inside j member i less
    exact (perm_range once inside).mem_iff.mpr
      (List.mem_range.mpr (Nat.lt_trans less (inside j member)))
  · intro closed j member
    have sub : List.range (j + 1) ⊆ ids := by
      intro i below
      rcases Nat.lt_succ_iff_lt_or_eq.mp (List.mem_range.mp below) with less | rfl
      · exact closed j member i less
      · exact member
    have short := (List.subperm_of_subset List.nodup_range sub).length_le
    rwa [List.length_range] at short

theorem positions_inside_iff (keep : K → Bool) {l sorted : List K}
    (increasing : sorted.Pairwise (· < ·)) (same : ∀ k, k ∈ sorted ↔ k ∈ l) :
    (∀ i ∈ (grouped keep l sorted).map Prod.snd, i < (grouped keep l sorted).length) ↔
      l.Pairwise fun x y => keep y → keep x := by
  have once : ((grouped keep l sorted).map Prod.snd).Nodup := positions_nodup increasing
  have closed := inside_iff once
  rw [List.length_map] at closed
  rw [closed, List.pairwise_iff_getElem]
  constructor
  · intro down i j hi hj less kept
    have member := mem_positions.mpr ⟨l[j], List.getElem?_eq_getElem hj,
      (same _).mpr (List.getElem_mem hj), kept⟩
    obtain ⟨k, at_i, -, kept⟩ := mem_positions.mp (down j member i less)
    rw [List.getElem?_eq_getElem hi] at at_i
    cases at_i
    exact kept
  · intro first j member i less
    obtain ⟨k, at_j, -, kept⟩ := mem_positions.mp member
    obtain ⟨hj, rfl⟩ := List.getElem?_eq_some_iff.mp at_j
    have hi := Nat.lt_trans less hj
    exact mem_positions.mpr ⟨l[i], List.getElem?_eq_getElem hi,
      (same _).mpr (List.getElem_mem hi), first i j hi hj less kept⟩

end

end Numbering
