import Mathlib.Data.List.Chain

/-! Intervals of natural numbers that lie end to end, and what such a list is good for: its parts
are in order, apart and without gaps, and they cover all that is between their ends. -/
namespace Tiling

structure Part where
  start : Nat
  length : Nat

def Part.finish (p : Part) : Nat := p.start + p.length

def Part.Covers (p : Part) (x : Nat) : Prop := p.start ≤ x ∧ x < p.finish

def Part.Meets (p : Part) (lo hi : Nat) : Prop := ∃ x, lo ≤ x ∧ x < hi ∧ p.Covers x

theorem Part.meets_iff {p : Part} {lo hi : Nat} (filled : 0 < p.length) (some_range : lo < hi) :
    p.Meets lo hi ↔ p.start < hi ∧ lo < p.finish := by
  constructor
  · rintro ⟨x, ge, lt, start, finish⟩
    exact ⟨Nat.lt_of_le_of_lt start lt, Nat.lt_of_le_of_lt ge finish⟩
  · rintro ⟨start, finish⟩
    have up : p.start < p.finish := Nat.lt_add_of_pos_right filled
    refine ⟨max lo p.start, le_max_left _ _, max_lt some_range start, le_max_right _ _, ?_⟩
    exact max_lt finish up

def Part.BeginsIn (p q : Part) : Prop := p.start ≤ q.start ∧ q.start < p.finish

def Part.Intersects (p q : Part) : Prop := ∃ x, p.Covers x ∧ q.Covers x

theorem Part.intersects_iff {p q : Part} (filled : 0 < p.length) (filled' : 0 < q.length) :
    p.Intersects q ↔ p.BeginsIn q ∨ q.BeginsIn p := by
  unfold BeginsIn finish
  constructor
  · rintro ⟨x, ⟨left, below⟩, left', below'⟩
    unfold finish at below below'
    omega
  · rintro (⟨le, lt⟩ | ⟨le, lt⟩)
    · exact ⟨q.start, ⟨le, lt⟩, Nat.le_refl _, Nat.lt_add_of_pos_right filled'⟩
    · exact ⟨p.start, ⟨Nat.le_refl _, Nat.lt_add_of_pos_right filled⟩, le, lt⟩

def EndToEnd : Nat → List Part → Nat → Prop
  | lo, [], hi => lo = hi
  | lo, p :: ps, hi => p.start = lo ∧ EndToEnd p.finish ps hi

/-- The parts tile the range from `lo` to `hi`, but may begin before it and end behind it. -/
structure Tiles (parts : List Part) (lo hi : Nat) : Prop where
  ordered : parts.Pairwise fun p q => p.start < q.start
  disjoint : parts.Pairwise fun p q => ∀ x, ¬(p.Covers x ∧ q.Covers x)
  gapless : parts.IsChain fun p q => q.start ≤ p.finish
  first : ∃ p ∈ parts.head?, p.Covers lo
  covered : ∀ x, lo ≤ x → x < hi → ∃ p ∈ parts, p.Covers x

section
variable {lo hi : Nat} {parts : List Part}

theorem endToEnd_le (tiled : EndToEnd lo parts hi) :
    lo ≤ hi ∧ ∀ p ∈ parts, lo ≤ p.start ∧ p.finish ≤ hi := by
  induction parts generalizing lo with
  | nil => exact ⟨Nat.le_of_eq tiled, fun _ none => nomatch none⟩
  | cons p ps ih =>
    obtain ⟨rfl, rest⟩ := tiled
    obtain ⟨le, inside⟩ := ih rest
    have up : p.start ≤ p.finish := Nat.le_add_right _ _
    refine ⟨Nat.le_trans up le, fun q hq => ?_⟩
    rcases List.mem_cons.mp hq with rfl | hq
    · exact ⟨Nat.le_refl _, le⟩
    · exact ⟨Nat.le_trans up (inside q hq).1, (inside q hq).2⟩

theorem endToEnd_pairwise (tiled : EndToEnd lo parts hi) :
    parts.Pairwise fun p q => p.finish ≤ q.start := by
  induction parts generalizing lo with
  | nil => exact .nil
  | cons p ps ih => exact .cons (fun q hq => ((endToEnd_le tiled.2).2 q hq).1) (ih tiled.2)

theorem endToEnd_chain (tiled : EndToEnd lo parts hi) :
    parts.IsChain fun p q => q.start = p.finish := by
  induction parts generalizing lo with
  | nil => exact .nil
  | cons p ps ih =>
    cases ps with
    | nil => exact .singleton p
    | cons q ps => exact .cons_cons tiled.2.1 (ih tiled.2)

theorem endToEnd_of_chain {p : Part} {ps : List Part}
    (chain : (p :: ps).IsChain fun p q => q.start = p.finish) :
    ∃ finish, EndToEnd p.start (p :: ps) finish := by
  induction ps generalizing p with
  | nil => exact ⟨_, rfl, rfl⟩
  | cons q ps ih =>
    rw [List.isChain_cons_cons] at chain
    obtain ⟨finish, rest⟩ := ih chain.2
    exact ⟨finish, rfl, chain.1 ▸ rest⟩

theorem endToEnd_covers (tiled : EndToEnd lo parts hi) {x : Nat} (ge : lo ≤ x) (lt : x < hi) :
    ∃ p ∈ parts, p.Covers x := by
  induction parts generalizing lo with
  | nil => exact absurd (Nat.lt_of_lt_of_eq lt tiled.symm) (Nat.not_lt.mpr ge)
  | cons p ps ih =>
    obtain ⟨rfl, rest⟩ := tiled
    rcases Nat.lt_or_ge x p.finish with here | later
    · exact ⟨p, List.mem_cons_self, ge, here⟩
    · obtain ⟨q, hq, covers⟩ := ih rest later
      exact ⟨q, List.mem_cons_of_mem p hq, covers⟩

/-- Parts that are not empty tile a range exactly when they lie end to end, from a point at or
before its start, which is in the first part, to a point at or behind its end. -/
theorem tiles_iff {p : Part} {ps : List Part} (filled : ∀ q ∈ p :: ps, 0 < q.length)
    (some_range : lo < hi) :
    Tiles (p :: ps) lo hi ↔
      p.Covers lo ∧ ∃ finish, EndToEnd p.start (p :: ps) finish ∧ hi ≤ finish := by
  constructor
  · rintro ⟨ordered, disjoint, gapless, ⟨_, ⟨⟩, first⟩, covered⟩
    have chain : (p :: ps).IsChain fun p q => q.start = p.finish := by
      apply List.isChain_iff_forall_rel_of_append_cons_cons.mpr
      intro a b l r split
      have le := List.isChain_iff_forall_rel_of_append_cons_cons.mp gapless split
      have lt := List.isChain_iff_forall_rel_of_append_cons_cons.mp ordered.isChain split
      have apart := List.isChain_iff_forall_rel_of_append_cons_cons.mp disjoint.isChain split
      by_contra other
      have nonempty := filled b (by simp [split])
      apply apart b.start
      unfold Part.Covers Part.finish at *
      omega
    obtain ⟨finish, tiled⟩ := endToEnd_of_chain chain
    obtain ⟨q, hq, covers⟩ := covered (hi - 1) (by omega) (by omega)
    have last := ((endToEnd_le tiled).2 q hq).2
    have below := covers.2
    exact ⟨first, finish, tiled, by omega⟩
  · rintro ⟨first, finish, tiled, far⟩
    have apart := endToEnd_pairwise tiled
    refine ⟨?_, ?_, ?_, ⟨p, rfl, first⟩, fun x ge lt => ?_⟩
    · apply apart.imp_of_mem
      intro a b ha _ le
      have nonempty := filled a ha
      unfold Part.finish at le
      omega
    · apply apart.imp
      rintro a b le x ⟨left, right⟩
      have below := left.2
      have above := right.1
      omega
    · exact (endToEnd_chain tiled).imp fun _ _ eq => Nat.le_of_eq eq
    · exact endToEnd_covers tiled (Nat.le_trans first.1 ge) (Nat.lt_of_lt_of_le lt far)

end

end Tiling
