import Mathlib.Algebra.Ring.Nat
import Mathlib.Data.List.SplitLengths
import Mathlib.Tactic.Common

/-! Items dealt one by one to bins with a cursor that moves on from full bins and never back. What
comes out is the list of items cut into pieces of the bins' sizes. -/
namespace Dealing

variable {A : Type}

/-- One item to the first bin from the cursor on that has room. -/
def deal (caps : List Nat) (x : A) : Nat → Nat × List (List A) → Nat × List (List A)
  | 0, s => s
  | fuel + 1, (cursor, bins) =>
    match caps[cursor]? with
    | none => (cursor, bins)
    | some cap =>
      if (bins.getD cursor []).length < cap then (cursor, bins.modify cursor (· ++ [x]))
      else deal caps x fuel (cursor + 1, bins)

theorem splitLengths_none (caps : List Nat) :
    caps.splitLengths ([] : List A) = caps.map fun _ => [] := by
  induction caps with
  | nil => rfl
  | cons c caps ih =>
    rw [List.splitLengths_cons, List.take_nil, List.drop_nil, ih]
    rfl

theorem getD_splitLengths_none (caps : List Nat) (i : Nat) :
    (caps.splitLengths ([] : List A)).getD i [] = [] := by
  rw [splitLengths_none, List.getD_eq_getElem?_getD, List.getElem?_map]
  cases caps[i]? <;> rfl

theorem flatten_splitLengths_take (caps : List Nat) (g : List A) :
    (caps.splitLengths g).flatten = g.take caps.sum := by
  induction caps generalizing g with
  | nil => rfl
  | cons c caps ih =>
    rw [List.splitLengths_cons, List.flatten_cons, ih, List.sum_cons, List.take_add]

theorem getD_splitLengths_le (caps : List Nat) (g : List A) {i cap : Nat}
    (at_i : caps[i]? = some cap) : ((caps.splitLengths g).getD i []).length ≤ cap := by
  obtain ⟨inside, rfl⟩ := List.getElem?_eq_some_iff.mp at_i
  have here : i < (caps.splitLengths g).length := by rwa [List.length_splitLengths]
  rw [List.getD_eq_getElem?_getD, List.getElem?_eq_getElem here, Option.getD_some]
  exact List.length_splitLengths_getElem_le ..

theorem full_before (caps : List Nat) (g : List A) {i j cap : Nat}
    (some_item : (caps.splitLengths g).getD i [] ≠ []) (less : j < i)
    (at_j : caps[j]? = some cap) : ((caps.splitLengths g).getD j []).length = cap := by
  induction caps generalizing g i j with
  | nil => cases at_j
  | cons c caps ih =>
    rw [List.splitLengths_cons] at some_item ⊢
    obtain ⟨i, rfl⟩ : ∃ n, i = n + 1 := ⟨i - 1, by omega⟩
    rw [List.getD_cons_succ] at some_item
    cases j with
    | zero =>
      cases at_j
      rw [List.getD_cons_zero, List.length_take]
      by_contra short
      have none : g.drop cap = [] := List.drop_eq_nil_of_le (by omega)
      rw [none] at some_item
      exact some_item (getD_splitLengths_none caps i)
    | succ j =>
      rw [List.getD_cons_succ]
      exact ih _ some_item (by omega) at_j

theorem splitLengths_snoc {caps : List Nat} {g : List A} {cursor cap : Nat} (x : A)
    (full : ∀ j < cursor, ∀ c, caps[j]? = some c → c ≤ ((caps.splitLengths g).getD j []).length)
    (at_cursor : caps[cursor]? = some cap)
    (room : ((caps.splitLengths g).getD cursor []).length < cap) :
    caps.splitLengths (g ++ [x]) = (caps.splitLengths g).modify cursor (· ++ [x]) := by
  induction caps generalizing g cursor with
  | nil => cases at_cursor
  | cons c caps ih =>
    simp only [List.splitLengths_cons] at full room ⊢
    cases cursor with
    | zero =>
      cases at_cursor
      rw [List.getD_cons_zero, List.length_take] at room
      have short : g.length ≤ cap := by omega
      have still : (g ++ [x]).length ≤ cap := by
        rw [List.length_append, List.length_singleton]
        omega
      rw [List.modify_zero_cons, List.take_of_length_le short, List.take_of_length_le still,
        List.drop_eq_nil_of_le short, List.drop_eq_nil_of_le still]
    | succ cursor =>
      have first := full 0 (Nat.succ_pos cursor) c rfl
      rw [List.getD_cons_zero, List.length_take] at first
      have long : c ≤ g.length := by omega
      have rest := ih (g := g.drop c) (fun j less => full (j + 1) (by omega)) at_cursor room
      rw [List.modify_succ_cons, List.take_append_of_le_length long,
        List.drop_append_of_le_length long, rest]

theorem splitLengths_full {caps : List Nat} {g : List A} (x : A)
    (full : ∀ j cap, caps[j]? = some cap → cap ≤ ((caps.splitLengths g).getD j []).length) :
    caps.splitLengths (g ++ [x]) = caps.splitLengths g := by
  induction caps generalizing g with
  | nil => rfl
  | cons c caps ih =>
    simp only [List.splitLengths_cons] at full ⊢
    have first := full 0 c rfl
    rw [List.getD_cons_zero, List.length_take] at first
    have long : c ≤ g.length := by omega
    have rest := ih (g := g.drop c) fun j => full (j + 1)
    rw [List.take_append_of_le_length long, List.drop_append_of_le_length long, rest]

/-- The bins after these items: pieces of the bins' sizes, with all bins before the cursor full. -/
structure Dealt (caps : List Nat) (g : List A) (s : Nat × List (List A)) : Prop where
  pieces : s.2 = caps.splitLengths g
  full : ∀ j < s.1, ∀ cap, caps[j]? = some cap → cap ≤ ((caps.splitLengths g).getD j []).length

theorem Dealt.start (caps : List Nat) : Dealt caps ([] : List A) (0, caps.map fun _ => []) :=
  ⟨(splitLengths_none caps).symm, fun j less => absurd less (Nat.not_lt_zero j)⟩

theorem Dealt.lost {caps : List Nat} {g : List A} {s : Nat × List (List A)} (x : A)
    (dealt : Dealt caps g s) (beyond : caps.length ≤ s.1) : Dealt caps (g ++ [x]) s := by
  have same := splitLengths_full x fun j cap at_j =>
    dealt.full j (Nat.lt_of_lt_of_le (List.getElem?_eq_some_iff.mp at_j).1 beyond) cap at_j
  exact ⟨dealt.pieces.trans same.symm, same ▸ dealt.full⟩

theorem Dealt.step {caps : List Nat} {g : List A} {s : Nat × List (List A)} (x : A) {fuel : Nat}
    (dealt : Dealt caps g s) (enough : caps.length ≤ s.1 + fuel) :
    Dealt caps (g ++ [x]) (deal caps x fuel s) := by
  obtain ⟨cursor, bins⟩ := s
  induction fuel generalizing cursor with
  | zero => exact dealt.lost x enough
  | succ fuel ih =>
    unfold deal
    split
    · rename_i none
      exact dealt.lost x (List.getElem?_eq_none_iff.mp none)
    · rename_i cap at_cursor
      obtain ⟨rfl, full⟩ := dealt
      split
      · rename_i room
        have snoc := splitLengths_snoc x full at_cursor room
        refine ⟨snoc.symm, fun j less c at_j => ?_⟩
        have kept : ((caps.splitLengths g).modify cursor (· ++ [x])).getD j [] =
            (caps.splitLengths g).getD j [] := by
          rw [List.getD_eq_getElem?_getD, List.getD_eq_getElem?_getD,
            List.getElem?_modify_ne _ _ (Nat.ne_of_gt less)]
        rw [snoc, kept]
        exact full j less c at_j
      · rename_i no_room
        refine ih (cursor + 1) ⟨rfl, fun j less c at_j => ?_⟩ (by simp only at enough ⊢; omega)
        rcases Nat.lt_succ_iff_lt_or_eq.mp less with early | rfl
        · exact full j early c at_j
        · rw [at_cursor] at at_j
          cases at_j
          exact Nat.not_lt.mp no_room

end Dealing
