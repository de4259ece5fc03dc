import Mathlib.Logic.Function.Basic
import Mathlib.Tactic.Common

/-! Clients of one machine that make their calls one at a time, in any order among each other. A
client is a tree of its calls: what it calls next may depend on all answers it got. -/

/-- `Ans c` is what a call `c` is answered with. -/
inductive Client (C : Type) (Ans : C → Type) (R : Type) where
  | done (r : R)
  | call (c : C) (next : Ans c → Client C Ans R)

namespace Client

variable {C D : Type} {Ans : C → Type} {Out : D → Type} {R A B : Type}

def bind : Client C Ans A → (A → Client C Ans B) → Client C Ans B
  | .done a, f => f a
  | .call c next, f => .call c fun v => (next v).bind f

instance : Monad (Client C Ans) where
  pure := .done
  bind := .bind

def through (handler : (c : C) → Client D Out (Ans c)) : Client C Ans R → Client D Out R
  | .done r => .done r
  | .call c next => (handler c).bind fun v => (next v).through handler

def Only (allowed : C → Prop) : Client C Ans R → Prop
  | .done _ => True
  | .call c next => allowed c ∧ ∀ v, (next v).Only allowed

section
variable {E : Type} {Rep : E → Type} (handler : (c : C) → Client D Out (Ans c))

theorem bind_assoc {A B R : Type} (p : Client C Ans A) (f : A → Client C Ans B)
    (g : B → Client C Ans R) : (p.bind f).bind g = p.bind fun a => (f a).bind g := by
  induction p with
  | done a => rfl
  | call c next ih => exact congrArg (Client.call c) (funext ih)

theorem through_bind (p : Client C Ans A) (f : A → Client C Ans B) :
    (p.bind f).through handler = (p.through handler).bind fun a => (f a).through handler := by
  induction p with
  | done a => rfl
  | call c next ih =>
    have later : (fun v => ((next v).bind f).through handler) = _ := funext ih
    simp only [bind, through, later, bind_assoc]

theorem through_through (lower : (d : D) → Client E Rep (Out d)) (p : Client C Ans A) :
    (p.through handler).through lower = p.through fun c => (handler c).through lower := by
  induction p with
  | done a => rfl
  | call c next ih =>
    have later : (fun v => ((next v).through handler).through lower) = _ := funext ih
    simp only [through, through_bind, later]

end

def finish {S : Type} (exec : (c : C) → S → Ans c × S) : Client C Ans R → S → R × S
  | .done r, s => (r, s)
  | .call c next, s => (next (exec c s).1).finish exec (exec c s).2

section
variable {S : Type} {exec : (c : C) → S → Ans c × S} (lower : (d : D) → S → Out d × S)

theorem finish_bind (p : Client C Ans A) (f : A → Client C Ans B) (s : S) :
    (p.bind f).finish exec s = (f (p.finish exec s).1).finish exec (p.finish exec s).2 := by
  induction p generalizing s with
  | done a => rfl
  | call c next ih => exact ih _ _

theorem finish_through (handler : (c : C) → Client D Out (Ans c)) (p : Client C Ans A) (s : S) :
    (p.through handler).finish lower s = p.finish (fun c s => (handler c).finish lower s) s := by
  induction p generalizing s with
  | done a => rfl
  | call c next ih => rw [through, finish_bind, ih, finish]

end

section
variable {allowed more : C → Prop} {p : Client C Ans A}

theorem Only.bind {f : A → Client C Ans B} (first : p.Only allowed)
    (then_ : ∀ a, (f a).Only allowed) : (p.bind f).Only allowed := by
  induction p with
  | done a => exact then_ a
  | call c next ih => exact ⟨first.1, fun v => ih v (first.2 v)⟩

theorem Only.mono (only : p.Only allowed) (wider : ∀ c, allowed c → more c) : p.Only more := by
  induction p with
  | done a => trivial
  | call c next ih => exact ⟨wider c only.1, fun v => ih v (only.2 v)⟩

theorem Only.through {handler : (c : C) → Client D Out (Ans c)} {within : D → Prop}
    (only : p.Only allowed) (handled : ∀ c, allowed c → (handler c).Only within) :
    (p.through handler).Only within := by
  induction p with
  | done a => trivial
  | call c next ih => exact (handled c only.1).bind fun v => ih v (only.2 v)

end

end Client

namespace Clients

variable {I C S R : Type} {Ans : C → Type} [DecidableEq I]

structure Config (I S C : Type) (Ans : C → Type) (R : Type) where
  shared : S
  clients : I → Client C Ans R

section
variable (exec : (c : C) → S → Ans c × S)

def turn (t : Config I S C Ans R) (i : I) : Config I S C Ans R :=
  match t.clients i with
  | .done _ => t
  | .call c next =>
    let (v, s) := exec c t.shared
    ⟨s, Function.update t.clients i (next v)⟩

def run (order : List I) (t : Config I S C Ans R) : Config I S C Ans R :=
  order.foldl (turn exec) t

variable {exec} {t : Config I S C Ans R} {i : I}

theorem turn_done {r : R} (here : t.clients i = .done r) : turn exec t i = t := by
  unfold turn
  rw [here]

theorem turn_call {c : C} {next : Ans c → Client C Ans R} (here : t.clients i = .call c next) :
    turn exec t i =
      ⟨(exec c t.shared).2, Function.update t.clients i (next (exec c t.shared).1)⟩ := by
  unfold turn
  rw [here]

theorem turn_other {j : I} (other : j ≠ i) : (turn exec t i).clients j = t.clients j := by
  cases here : t.clients i with
  | done r => rw [turn_done here]
  | call c next =>
    rw [turn_call here]
    exact Function.update_of_ne other _ _

theorem turn_only {allowed : I → C → Prop} (only : ∀ j, (t.clients j).Only (allowed j)) (j : I) :
    ((turn exec t i).clients j).Only (allowed j) := by
  by_cases other : j = i
  · subst other
    cases here : t.clients j with
    | done r =>
      rw [turn_done here]
      exact only j
    | call c next =>
      have calls := only j
      rw [here] at calls
      rw [turn_call here]
      simp only [Function.update_self]
      exact calls.2 _
  · rw [turn_other other]
    exact only j

end

/-- What a client may see of the machine: its own calls are answered by it and keep it alike, and
the calls of the others do not change it. -/
structure Sees (exec : (c : C) → S → Ans c × S) (allowed : I → C → Prop) (i : I)
    (alike : S → S → Prop) : Prop where
  own : ∀ c, allowed i c → ∀ s u, alike s u →
    (exec c s).1 = (exec c u).1 ∧ alike (exec c s).2 (exec c u).2
  others : ∀ j ≠ i, ∀ c, allowed j c → ∀ s u, alike s u → alike (exec c s).2 u

/-- A client cannot tell whether there are others: after any order of calls it is where its own
turns would have brought it alone. -/
theorem run_alone {exec : (c : C) → S → Ans c × S} {allowed : I → C → Prop} {i : I}
    {alike : S → S → Prop} (sees : Sees exec allowed i alike) (order : List I)
    {t u : Config I S C Ans R} (only : ∀ j, (t.clients j).Only (allowed j))
    (same : t.clients i = u.clients i) (like : alike t.shared u.shared) :
    let alone := run exec (order.filter (· = i)) u
    (run exec order t).clients i = alone.clients i ∧
      alike (run exec order t).shared alone.shared := by
  induction order generalizing t u with
  | nil => exact ⟨same, like⟩
  | cons j order ih =>
    by_cases own : j = i
    · subst own
      rw [List.filter_cons_of_pos (by simp)]
      cases here : t.clients j with
      | done r =>
        have rest := ih only same like
        simpa only [run, List.foldl_cons, turn_done here, turn_done (same.symm.trans here)]
          using rest
      | call c next =>
        have calls := only j
        rw [here] at calls
        obtain ⟨answer, kept⟩ := sees.own c calls.1 t.shared u.shared like
        refine ih (turn_only only) ?_ ?_
        · rw [turn_call here, turn_call (same.symm.trans here), answer]
          simp only [Function.update_self]
        · rw [turn_call here, turn_call (same.symm.trans here)]
          exact kept
    · rw [List.filter_cons_of_neg (by simp [own])]
      refine ih (turn_only only) ((turn_other (Ne.symm own)).trans same) ?_
      cases here : t.clients j with
      | done r =>
        rw [turn_done here]
        exact like
      | call c next =>
        have calls := only j
        rw [here] at calls
        rw [turn_call here]
        exact sees.others j own c calls.1 t.shared u.shared like

end Clients
