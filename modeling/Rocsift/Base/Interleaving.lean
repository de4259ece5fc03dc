import Mathlib.Data.List.Basic

/-! Clients that take atomic steps on one shared state in any order. A run is the list of the steps
with their clients; what is left of it when only the steps of one client are kept is a beginning of
that client's program. -/
namespace Interleaving

variable {I Op S : Type} [DecidableEq I]

def own (c : I) (trace : List (I × Op)) : List Op :=
  trace.filterMap fun e => if e.1 = c then some e.2 else none

def Interleaves (programs : I → List Op) (trace : List (I × Op)) : Prop :=
  ∀ c, own c trace <+: programs c

def after (step : S → Op → S) (s : S) (trace : List (I × Op)) : S :=
  trace.foldl (fun s e => step s e.2) s

theorem own_cons (c : I) (e : I × Op) (trace : List (I × Op)) :
    own c (e :: trace) = if e.1 = c then e.2 :: own c trace else own c trace := by
  unfold own
  rw [List.filterMap_cons]
  split <;> simp_all

theorem own_append (c : I) (a b : List (I × Op)) : own c (a ++ b) = own c a ++ own c b :=
  List.filterMap_append ..

omit [DecidableEq I] in
theorem after_cons (step : S → Op → S) (s : S) (e : I × Op) (trace : List (I × Op)) :
    after step s (e :: trace) = after step (step s e.2) trace := rfl

omit [DecidableEq I] in
theorem after_append (step : S → Op → S) (s : S) (a b : List (I × Op)) :
    after step s (a ++ b) = after step (after step s a) b :=
  List.foldl_append

theorem own_split {c : I} {trace : List (I × Op)} {op : Op} {rest : List Op}
    (first : own c trace = op :: rest) :
    ∃ before behind, trace = before ++ (c, op) :: behind ∧ own c before = [] ∧
      own c behind = rest := by
  induction trace with
  | nil => cases first
  | cons e trace ih =>
    rw [own_cons] at first
    by_cases here : e.1 = c
    · rw [if_pos here] at first
      cases first
      exact ⟨[], trace, by rw [← here]; rfl, rfl, rfl⟩
    · rw [if_neg here] at first
      obtain ⟨before, behind, rfl, alone, left⟩ := ih first
      refine ⟨e :: before, behind, rfl, ?_, left⟩
      rw [own_cons, if_neg here, alone]

theorem own_split_at {c : I} {trace : List (I × Op)} {done rest : List Op} {op : Op}
    (steps : own c trace = done ++ op :: rest) :
    ∃ before behind, trace = before ++ (c, op) :: behind ∧ own c before = done ∧
      own c behind = rest := by
  induction done generalizing trace with
  | nil => exact own_split steps
  | cons d done ih =>
    obtain ⟨early, late, rfl, alone, left⟩ := own_split steps
    obtain ⟨before, behind, rfl, same, last⟩ := ih left
    refine ⟨early ++ (c, d) :: before, behind, by simp, ?_, last⟩
    rw [own_append, own_cons, if_pos rfl, alone, same]
    rfl

/-- A step of a client is at one place in a run, told by how many of its steps come before. -/
theorem split_unique {c : I} {before before' behind behind' : List (I × Op)} {op op' : Op}
    (same : before ++ (c, op) :: behind = before' ++ (c, op') :: behind')
    (place : (own c before).length = (own c before').length) :
    before = before' ∧ behind = behind' := by
  induction before generalizing before' with
  | nil =>
    cases before' with
    | nil => exact ⟨rfl, (List.cons.inj same).2⟩
    | cons e before' =>
      rw [← (List.cons.inj same).1, own_cons, if_pos rfl] at place
      cases place
  | cons e before ih =>
    cases before' with
    | nil =>
      rw [(List.cons.inj same).1, own_cons, if_pos rfl] at place
      cases place
    | cons e' before' =>
      obtain ⟨rfl, tails⟩ := List.cons.inj same
      rw [own_cons, own_cons] at place
      have later : (own c before).length = (own c before').length := by
        by_cases mine : e.1 = c
        · rw [if_pos mine, if_pos mine] at place
          exact Nat.succ.inj place
        · rwa [if_neg mine, if_neg mine] at place
      obtain ⟨rfl, rest⟩ := ih tails later
      exact ⟨rfl, rest⟩

omit [DecidableEq I] in
theorem after_keeps {step : S → Op → S} (inv : S → Prop) {trace : List (I × Op)}
    (keeps : ∀ e ∈ trace, ∀ s, inv s → inv (step s e.2)) {s : S} (start : inv s) :
    inv (after step s trace) := by
  induction trace generalizing s with
  | nil => exact start
  | cons e trace ih =>
    obtain ⟨here, later⟩ := List.forall_mem_cons.mp keeps
    exact ih later (here s start)

end Interleaving
