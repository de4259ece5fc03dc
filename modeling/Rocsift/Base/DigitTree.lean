import Mathlib.Tactic.Common

/-! Trees of tables. A table is looked up with one digit of a number, in units of its own, and what
is found there is looked up with the same number. -/

inductive DigitTree (A : Type) where
  | leaf (a : A)
  | table (unit count : Nat) (parts : Nat → DigitTree A)

namespace DigitTree

variable {A B : Type}

def lookup : DigitTree A → Nat → A
  | .leaf a, _ => a
  | .table unit count parts, n => (parts (n / unit % count)).lookup n

@[simp] theorem lookup_leaf (a : A) (n : Nat) : (leaf a).lookup n = a := rfl

@[simp] theorem lookup_table (unit count : Nat) (parts : Nat → DigitTree A) (n : Nat) :
    (table unit count parts).lookup n = (parts (n / unit % count)).lookup n := rfl

/-- No table of the tree tells the numbers of one multiple of `grain` apart. -/
def Coarse (grain : Nat) : DigitTree A → Prop
  | .leaf _ => True
  | .table unit _ parts => grain ∣ unit ∧ ∀ i, (parts i).Coarse grain

theorem Coarse.lookup_congr {grain : Nat} {t : DigitTree A} (coarse : t.Coarse grain) {n n' : Nat}
    (same : n / grain = n' / grain) : t.lookup n = t.lookup n' := by
  induction t with
  | leaf a => rfl
  | table unit count parts ih =>
    obtain ⟨⟨m, rfl⟩, parts_coarse⟩ := coarse
    have digit : n / (grain * m) % count = n' / (grain * m) % count := by
      rw [← Nat.div_div_eq_div_mul, ← Nat.div_div_eq_div_mul, same]
    rw [lookup_table, lookup_table, digit]
    exact ih _ (parts_coarse _)

end DigitTree
