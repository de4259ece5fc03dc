import Mathlib.Data.List.Pairwise
import Mathlib.Data.List.Sort

/-! Sorting by a key as far as a library that promises no more lets one know the outcome: the same
elements with their keys in order. Elements with one key come in any order. -/
namespace Sorting

variable {A K : Type} [LinearOrder K]

structure Sorter (A K : Type) [LinearOrder K] where
  sort : (A → K) → List A → List A
  perm : ∀ key l, (sort key l).Perm l
  sorted : ∀ key l, (sort key l).Pairwise fun a b => key a ≤ key b

def Before (key : A → K) (rank : A → Nat) (a b : A) : Prop :=
  key a < key b ∨ key a = key b ∧ rank a ≤ rank b

instance (key : A → K) (rank : A → Nat) : DecidableRel (Before key rank) := fun _ _ =>
  inferInstanceAs (Decidable (_ ∨ _ ∧ _))

instance (key : A → K) (rank : A → Nat) : Std.Total (Before key rank) where
  total a b := by
    rcases lt_trichotomy (key a) (key b) with less | same | more
    · exact Or.inl (Or.inl less)
    · exact (Nat.le_total (rank a) (rank b)).imp (fun le => Or.inr ⟨same, le⟩)
        fun le => Or.inr ⟨same.symm, le⟩
    · exact Or.inr (Or.inl more)

instance (key : A → K) (rank : A → Nat) : IsTrans A (Before key rank) where
  trans a b c := by
    rintro (ab | ⟨ab, rab⟩) (bc | ⟨bc, rbc⟩)
    · exact Or.inl (ab.trans bc)
    · exact Or.inl (bc ▸ ab)
    · exact Or.inl (ab ▸ bc)
    · exact Or.inr ⟨ab.trans bc, rab.trans rbc⟩

theorem Before.le {key : A → K} {rank : A → Nat} {a b : A} (h : Before key rank a b) :
    key a ≤ key b := by
  rcases h with less | ⟨same, _⟩
  · exact le_of_lt less
  · exact le_of_eq same

/-- The sort that puts elements with one key in the order of their ranks. -/
def ranked (rank : A → Nat) : Sorter A K where
  sort key l := l.insertionSort (Before key rank)
  perm _ l := List.perm_insertionSort _ l
  sorted _ l := (List.pairwise_insertionSort _ l).imp Before.le

theorem ranked_sorted (rank : A → Nat) (key : A → K) (l : List A) :
    ((ranked rank).sort key l).Pairwise (Before key rank) :=
  List.pairwise_insertionSort _ l

theorem either_of_pairwise {r : A → A → Prop} {l : List A} (h : l.Pairwise r) {a b : A}
    (ha : a ∈ l) (hb : b ∈ l) (other : a ≠ b) : r a b ∨ r b a := by
  have symm : Std.Symm fun a b => r a b ∨ r b a := ⟨fun _ _ => Or.symm⟩
  have either : l.Pairwise fun a b => r a b ∨ r b a := h.imp Or.inl
  exact either.forall ha hb other

end Sorting
