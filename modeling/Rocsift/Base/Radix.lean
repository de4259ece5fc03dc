import Mathlib.Algebra.BigOperators.Group.Finset.Basic
import Mathlib.Tactic.Common

/-! A number written in a base from some unit on: the digits of the unit's multiples, a last digit
that takes all that is left above them, and a remainder below the unit. -/
namespace Radix

/-- What one of the digit at a position stands for. -/
def weight (unit base i : Nat) : Nat := unit * base ^ i

def digit (unit base n i : Nat) : Nat := n / weight unit base i % base

section
variable (unit base n n' : Nat)

def upTo (m i : Nat) : Nat := if i = m then n / weight unit base m else digit unit base n i

theorem upTo_last (m : Nat) : upTo unit base n m m = n / weight unit base m := if_pos rfl

theorem upTo_below {m i : Nat} (below : i < m) : upTo unit base n m i = digit unit base n i :=
  if_neg (Nat.ne_of_lt below)

end

section
variable {k o s x : Nat}

theorem add_div_eq (x : Nat) : (o + x) / k = o / k + (o % k + x) / k := by
  rcases Nat.eq_zero_or_pos k with rfl | pos
  · simp only [Nat.div_zero]
  · have whole := Nat.div_add_mod o k
    rw [← Nat.mul_add_div pos, ← Nat.add_assoc, whole]

theorem div_of_run (run : o % k + s ≤ k) (less : x < s) : (o + x) / k = o / k := by
  have below : o % k + x < k := by omega
  simp only [add_div_eq, Nat.div_eq_of_lt below, Nat.add_zero]

theorem div_of_short_run (less : x < k) :
    (o + x) / k = o / k ∨ (o + x) / k = (o + (k - 1)) / k := by
  rw [add_div_eq, add_div_eq (k - 1)]
  rcases Nat.lt_or_ge (o % k + x) k with below | above
  · exact Or.inl (by rw [Nat.div_eq_of_lt below, Nat.add_zero])
  · have rest := Nat.mod_lt o (Nat.zero_lt_of_lt less)
    have one : ∀ y, y < k → k ≤ o % k + y → (o % k + y) / k = 1 := by
      intro y below above
      exact Nat.div_eq_of_lt_le (by omega) (by omega)
    exact Or.inr (by rw [one x less above, one (k - 1) (by omega) (by omega)])

/-- A digit is the same over a run exactly if the run is within one multiple of what the digit
stands for. -/
theorem digit_const_iff {unit base i : Nat} (pos : 0 < weight unit base i) (two : 2 ≤ base) :
    (∀ x < s, digit unit base (o + x) i = digit unit base o i) ↔
      o % weight unit base i + s ≤ weight unit base i := by
  constructor
  · intro same
    by_contra crosses
    have rest := Nat.mod_lt o pos
    have next := same (weight unit base i - o % weight unit base i) (by omega)
    rw [digit, digit, add_div_eq, Nat.add_sub_cancel' (Nat.le_of_lt rest), Nat.div_self pos] at next
    have quotient := Nat.mod_lt (o / weight unit base i) (Nat.lt_of_lt_of_le Nat.two_pos two)
    rw [Nat.add_mod, Nat.mod_eq_of_lt two] at next
    rcases Nat.lt_or_ge (o / weight unit base i % base + 1) base with less | full
    · rw [Nat.mod_eq_of_lt less] at next
      omega
    · have last : o / weight unit base i % base + 1 = base := by omega
      rw [last, Nat.mod_self] at next
      omega
  · intro run x less
    simp only [digit, div_of_run run less]

end

end Radix
