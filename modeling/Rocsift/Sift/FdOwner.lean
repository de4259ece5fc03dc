import Mathlib.Data.List.Count
import Mathlib.Logic.Function.Basic

/-! Owners of file descriptors, and what becomes of the descriptors handed to them. -/
namespace Rocsift.Sift

/-- The owners that are alive with their `fd_`, the descriptors handed in so far and those that
were closed. The system may give out a number again once it is closed. -/
structure Owners where
  live : Nat → Option Int
  handed : List Nat
  closed : List Nat

inductive OwnerOp where
  | constructEmpty (o : Nat)
  | construct (o fd : Nat)
  | moveConstruct (o other : Nat)
  | moveAssign (o other : Nat)
  | destroy (o : Nat)
  deriving DecidableEq

namespace Owners

def constructEmpty (s : Owners) (o : Nat) : Option Owners :=
  if s.live o = none then some { s with live := Function.update s.live o (some (-1)) } else none

def construct (s : Owners) (o fd : Nat) : Option Owners :=
  if s.live o = none ∧ s.handed.count fd = s.closed.count fd then
    some { s with live := Function.update s.live o (some fd), handed := fd :: s.handed }
  else none

def moveFd (s : Owners) (o other : Nat) (fd : Int) : Owners :=
  { s with live := Function.update (Function.update s.live o (some fd)) other (some (-1)) }

def moveConstruct (s : Owners) (o other : Nat) : Option Owners :=
  if s.live o = none then (s.live other).map (s.moveFd o other) else none

def moveAssign (s : Owners) (o other : Nat) : Option Owners :=
  if s.live o = none then none else (s.live other).map (s.moveFd o other)

def destroy (s : Owners) (o : Nat) : Option Owners :=
  (s.live o).map fun fd : Int => { s with
    live := Function.update s.live o none
    closed := if fd ≥ 0 then fd.toNat :: s.closed else s.closed }

def step (s : Owners) : OwnerOp → Option Owners
  | .constructEmpty o => s.constructEmpty o
  | .construct o fd => s.construct o fd
  | .moveConstruct o other => s.moveConstruct o other
  | .moveAssign o other => s.moveAssign o other
  | .destroy o => s.destroy o

def start : Owners := ⟨fun _ => none, [], []⟩

def Holds (s : Owners) (o n : Nat) : Prop := s.live o = some (n : Int)

def points : List OwnerOp → Owners → List Owners
  | [], s => [s]
  | op :: ops, s =>
    match s.step op with
    | none => [s]
    | some t => s :: points ops t

def steps : List OwnerOp → Owners → List (Owners × OwnerOp)
  | [], _ => []
  | op :: ops, s =>
    match s.step op with
    | none => []
    | some t => (s, op) :: steps ops t

/-- Descriptors that are not closed have one owner each, and when all owners are gone each has been
closed as often as it was handed in. -/
structure Linear (s : Owners) : Prop where
  held : ∀ n, s.closed.count n < s.handed.count n → ∃! o, s.Holds o n
  closed_once : (∀ o, s.live o = none) → ∀ n, s.closed.count n = s.handed.count n

def OntoEmpty (s : Owners) : OwnerOp → Prop
  | .moveAssign o _ => ∀ n, ¬ s.Holds o n
  | _ => True

def Owned (s : Owners) (n : Nat) : Prop :=
  (s.handed.count n = s.closed.count n ∧ ∀ o, ¬ s.Holds o n) ∨
    (s.handed.count n = s.closed.count n + 1 ∧ ∃ o, ∀ o', s.Holds o' n ↔ o' = o)

section
variable {s t : Owners}

theorem not_holds {o n : Nat} (dead : s.live o = none) : ¬ s.Holds o n := by
  intro holds
  rw [Holds, dead] at holds
  cases holds

theorem linear_of_owned (owned : ∀ n, s.Owned n) : s.Linear := by
  constructor
  · intro n opened
    rcases owned n with ⟨same, -⟩ | ⟨-, o, only⟩
    · omega
    · exact ⟨o, (only o).mpr rfl, fun o' holds => (only o').mp holds⟩
  · intro gone n
    rcases owned n with ⟨same, -⟩ | ⟨-, o, only⟩
    · exact same.symm
    · exact absurd ((only o).mpr rfl) (not_holds (gone o))

theorem holds_set (s : Owners) (o : Nat) (v : Option Int) (handed closed : List Nat) (o' n : Nat) :
    (⟨Function.update s.live o v, handed, closed⟩ : Owners).Holds o' n ↔
      if o' = o then v = some (n : Int) else s.Holds o' n := by
  simp only [Holds, Function.update_apply]
  split <;> rfl

theorem not_held_negative (n : Nat) : some (-1 : Int) ≠ some (n : Int) := by
  intro same
  have := Option.some.inj same
  omega

theorem holds_set_other {o n : Nat} {v : Option Int} (handed closed : List Nat)
    (before : ¬ s.Holds o n) (other : v ≠ some (n : Int)) (o' : Nat) :
    (⟨Function.update s.live o v, handed, closed⟩ : Owners).Holds o' n ↔ s.Holds o' n := by
  rw [holds_set]
  split
  · rename_i own
    exact ⟨fun same => absurd same other, fun holds => absurd (own ▸ holds) before⟩
  · rfl

theorem holds_moveFd {o other : Nat} {fd : Int} (has : s.live other = some fd) (o' n : Nat) :
    (s.moveFd o other fd).Holds o' n ↔
      o' ≠ other ∧ if o' = o then s.Holds other n else s.Holds o' n := by
  have given : s.Holds other n ↔ some fd = some (n : Int) := by rw [Holds, has]
  rw [given, moveFd, holds_set { s with live := Function.update s.live o (some fd) }, holds_set]
  by_cases source : o' = other
  · rw [if_pos source]
    exact ⟨fun negative => absurd negative (not_held_negative n),
      fun moved => absurd source moved.1⟩
  · rw [if_neg source, and_iff_right source]

theorem owned_moveFd {o other : Nat} {fd : Int} (has : s.live other = some fd)
    (none_there : ∀ n, ¬ s.Holds o n) {n : Nat} (owned : s.Owned n) :
    (s.moveFd o other fd).Owned n := by
  rcases owned with ⟨same, nobody⟩ | ⟨opened, h, only⟩
  · refine .inl ⟨same, fun o' holds => ?_⟩
    obtain ⟨-, holds⟩ := (holds_moveFd has o' n).mp holds
    split at holds
    · exact nobody other holds
    · exact nobody o' holds
  · by_cases moved : h = other
    · subst moved
      have apart : o ≠ h := fun same => none_there n ((only o).mpr same)
      refine .inr ⟨opened, o, fun o' => ?_⟩
      rw [holds_moveFd has]
      by_cases target : o' = o
      · simp [target, apart, (only h).mpr rfl]
      · simp [target, only o']
    · have apart : h ≠ o := fun same => none_there n (same ▸ (only h).mpr rfl)
      refine .inr ⟨opened, h, fun o' => ?_⟩
      rw [holds_moveFd has]
      by_cases target : o' = o
      · simp [target, only other, Ne.symm moved, Ne.symm apart]
      · simp only [if_neg target, only o', and_iff_right_iff_imp]
        rintro rfl
        exact moved

theorem owned_congr {n : Nat} (owned : s.Owned n) (handed : t.handed.count n = s.handed.count n)
    (closed : t.closed.count n = s.closed.count n) (holders : ∀ o, t.Holds o n ↔ s.Holds o n) :
    t.Owned n := by
  simp only [Owned, handed, closed, holders]
  exact owned

theorem owned_constructEmpty {o n : Nat} (taken : s.constructEmpty o = some t)
    (owned : s.Owned n) : t.Owned n := by
  obtain ⟨new, same⟩ := Option.ite_none_right_eq_some.mp taken
  obtain rfl := Option.some.inj same
  exact owned_congr owned rfl rfl
    (holds_set_other _ _ (not_holds new) (not_held_negative n))

theorem owned_construct {o fd n : Nat} (taken : s.construct o fd = some t)
    (owned : s.Owned n) : t.Owned n := by
  obtain ⟨⟨new, fresh⟩, same⟩ := Option.ite_none_right_eq_some.mp taken
  obtain rfl := Option.some.inj same
  by_cases here : n = fd
  · subst here
    rcases owned with ⟨-, nobody⟩ | ⟨opened, -⟩
    · refine .inr ⟨by rw [List.count_cons_self, fresh], o, fun o' => ?_⟩
      rw [holds_set]
      split
      · rename_i own
        exact ⟨fun _ => own, fun _ => rfl⟩
      · rename_i other
        exact ⟨fun holds => absurd holds (nobody o'), fun own => absurd own other⟩
    · omega
  · have other : some (fd : Int) ≠ some (n : Int) := by
      intro same
      have := Option.some.inj same
      omega
    exact owned_congr owned (List.count_cons_of_ne (Ne.symm here)) rfl
      (holds_set_other _ _ (not_holds new) other)

theorem closed_destroy (s : Owners) (fd : Int) (n : Nat) :
    (if fd ≥ 0 then fd.toNat :: s.closed else s.closed).count n =
      s.closed.count n + if fd = n then 1 else 0 := by
  split
  · rename_i valid
    rw [List.count_cons]
    refine congrArg (s.closed.count n + ·) (if_congr ?_ rfl rfl)
    rw [beq_iff_eq]
    omega
  · rename_i negative
    rw [if_neg (by omega), Nat.add_zero]

theorem owned_destroy {o n : Nat} (taken : s.destroy o = some t) (owned : s.Owned n) :
    t.Owned n := by
  obtain ⟨fd, has, rfl⟩ := Option.map_eq_some_iff.mp taken
  have closes := closed_destroy s fd n
  by_cases here : fd = n
  · rw [if_pos here] at closes
    rw [here] at has
    rcases owned with ⟨-, nobody⟩ | ⟨opened, h, only⟩
    · exact absurd has (nobody o)
    · obtain rfl := (only o).mp has
      refine .inl ⟨opened.trans closes.symm, fun o' holds => ?_⟩
      rw [holds_set] at holds
      split at holds
      · cases holds
      · rename_i other
        exact other ((only o').mp holds)
  · rw [if_neg here] at closes
    have before : ¬ s.Holds o n := fun holds => here (Option.some.inj (has.symm.trans holds))
    exact owned_congr owned rfl closes (holds_set_other _ _ before (Option.some_ne_none _).symm)

theorem owned_step {op : OwnerOp} (taken : s.step op = some t) (empty : s.OntoEmpty op)
    (owned : ∀ n, s.Owned n) (n : Nat) : t.Owned n := by
  cases op with
  | constructEmpty o => exact owned_constructEmpty taken (owned n)
  | construct o fd => exact owned_construct taken (owned n)
  | moveConstruct o other =>
    obtain ⟨new, same⟩ := Option.ite_none_right_eq_some.mp taken
    obtain ⟨fd, has, rfl⟩ := Option.map_eq_some_iff.mp same
    exact owned_moveFd has (fun n => not_holds new) (owned n)
  | moveAssign o other =>
    obtain ⟨-, same⟩ := Option.ite_none_left_eq_some.mp taken
    obtain ⟨fd, has, rfl⟩ := Option.map_eq_some_iff.mp same
    exact owned_moveFd has empty (owned n)
  | destroy o => exact owned_destroy taken (owned n)

theorem lost_step {o other n : Nat} (taken : s.step (.moveAssign o other) = some t)
    (owned : s.Owned n) (holds : s.Holds o n) : ¬ t.Linear := by
  obtain ⟨-, same⟩ := Option.ite_none_left_eq_some.mp taken
  obtain ⟨fd, has, rfl⟩ := Option.map_eq_some_iff.mp same
  rcases owned with ⟨-, nobody⟩ | ⟨opened, h, only⟩
  · exact absurd holds (nobody o)
  · obtain rfl := (only o).mp holds
    intro linear
    have still : s.closed.count n < s.handed.count n := by omega
    obtain ⟨o', moved, -⟩ := linear.held n still
    obtain ⟨source, moved⟩ := (holds_moveFd has o' n).mp moved
    split at moved
    · rename_i target
      exact source (target.trans ((only other).mp moved).symm)
    · rename_i target
      exact target ((only o').mp moved)

theorem mem_points (ops : List OwnerOp) (s : Owners) : s ∈ points ops s := by
  cases ops with
  | nil => exact List.mem_singleton_self s
  | cons op ops =>
    unfold points
    split <;> exact List.mem_cons_self

theorem linear_iff_from (ops : List OwnerOp) (owned : ∀ n, s.Owned n) :
    (∀ u ∈ points ops s, u.Linear) ↔ ∀ e ∈ steps ops s, e.1.OntoEmpty e.2 := by
  induction ops generalizing s with
  | nil => simpa [points, steps] using linear_of_owned owned
  | cons op ops ih =>
    have here := linear_of_owned owned
    cases taken : s.step op with
    | none => simpa [points, steps, taken] using here
    | some t =>
      simp only [points, steps, taken, List.forall_mem_cons]
      constructor
      · rintro ⟨-, later⟩
        have empty : s.OntoEmpty op := by
          cases op with
          | moveAssign o other =>
            exact fun n holds => lost_step taken (owned n) holds (later t (mem_points ops t))
          | _ => trivial
        exact ⟨empty, (ih (owned_step taken empty owned)).mp later⟩
      · rintro ⟨empty, later⟩
        exact ⟨here, (ih (owned_step taken empty owned)).mpr later⟩

end

theorem start_owned (n : Nat) : start.Owned n := .inl ⟨rfl, fun _ holds => (nomatch holds)⟩

end Owners

/-- Along every program, descriptors are owned linearly exactly when every move assignment is onto
an owner without a descriptor. -/
theorem ownership_linear_iff (ops : List OwnerOp) :
    (∀ s ∈ Owners.points ops Owners.start, s.Linear) ↔
      ∀ e ∈ Owners.steps ops Owners.start, e.1.OntoEmpty e.2 :=
  Owners.linear_iff_from ops Owners.start_owned

/-- An owner that has descriptor 3 is assigned one that has 4, and nobody has 3 any more. -/
theorem assigned_over_leaks :
    ¬ ∀ s ∈ Owners.points [.construct 0 3, .construct 1 4, .moveAssign 0 1] Owners.start,
      s.Linear := by
  intro all
  let first : Owners := ⟨Function.update Owners.start.live 0 (some 3), [3], []⟩
  let both : Owners := ⟨Function.update first.live 1 (some 4), [4, 3], []⟩
  have states : Owners.points [.construct 0 3, .construct 1 4, .moveAssign 0 1] Owners.start =
      [Owners.start, first, both, both.moveFd 0 1 4] := rfl
  have last := all (both.moveFd 0 1 4) (by rw [states]; simp)
  obtain ⟨o, holds, -⟩ := last.held 3 (by decide)
  have has : both.live 1 = some 4 := rfl
  obtain ⟨source, holds⟩ := (Owners.holds_moveFd has o 3).mp holds
  split at holds
  · cases holds
  · rename_i target
    have none : both.live o = none :=
      (Function.update_of_ne source _ _).trans (Function.update_of_ne target _ _)
    exact Owners.not_holds none holds

end Rocsift.Sift
