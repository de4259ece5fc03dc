import Rocsift.Base.Clients

/-! Files that are read and written at a position that the system keeps for each descriptor. An
access sets the position and then makes a transfer there, in two steps. Where no two clients use one
descriptor, the steps of the others in between do no harm: a run of the steps is a run of the
accesses. -/
namespace Seeking
open Clients

/-- `D` are the descriptors, `A` the positions, and `Ans t` is what a transfer `t` is answered
with. -/
structure Files (D A T : Type) (Ans : T → Type) (S : Type) where
  seeks : D → A → Bool
  transfer : D → A → (t : T) → S → Ans t × S
  /-- The position after a transfer. -/
  moved : A → (t : T) → Ans t → A

inductive Step (D A T : Type) where
  | seek (d : D) (a : A)
  | transfer (d : D) (t : T)

structure Located (D A T : Type) where
  d : D
  a : A
  t : T

variable {I D A T S R : Type} {Ans : T → Type} [DecidableEq D]

abbrev Step.Answer (Ans : T → Type) : Step D A T → Type
  | .seek _ _ => Bool
  | .transfer _ t => Ans t

/-- There is no answer at a position that cannot be set. -/
abbrev Located.Answer (Ans : T → Type) (x : Located D A T) : Type := Option (Ans x.t)

def Step.descriptor : Step D A T → D
  | .seek d _ => d
  | .transfer d _ => d

structure Positioned (D A S : Type) where
  position : D → A
  contents : S

namespace Files
variable (files : Files D A T Ans S)

def step : (c : Step D A T) → Positioned D A S → c.Answer Ans × Positioned D A S
  | .seek d a, s =>
    if files.seeks d a then (true, { s with position := Function.update s.position d a })
    else (false, s)
  | .transfer d t, s =>
    let (v, contents) := files.transfer d (s.position d) t s.contents
    (v, ⟨Function.update s.position d (files.moved (s.position d) t v), contents⟩)

def access (x : Located D A T) (contents : S) : x.Answer Ans × S :=
  if files.seeks x.d x.a then
    let (v, contents) := files.transfer x.d x.a x.t contents
    (some v, contents)
  else (none, contents)

end Files

def split (x : Located D A T) : Client (Step D A T) (Step.Answer Ans) (x.Answer Ans) :=
  .call (.seek x.d x.a) fun ok =>
    if ok then .call (.transfer x.d x.t) fun v => .done (some v) else .done none

omit [DecidableEq D] in
theorem split_only {allowed : D → Prop} {x : Located D A T} (ok : allowed x.d) :
    (split x : Client (Step D A T) (Step.Answer Ans) (x.Answer Ans)).Only
      fun c => allowed c.descriptor := by
  refine ⟨ok, fun sought => ?_⟩
  cases sought with
  | false => exact trivial
  | true => exact ⟨ok, fun _ => trivial⟩

theorem finish_split (files : Files D A T Ans S)
    (p : Client (Located D A T) (Located.Answer Ans) R) (s : Positioned D A S) :
    let steps := (p.through split).finish files.step s
    (steps.1, steps.2.contents) = p.finish files.access s.contents := by
  induction p generalizing s with
  | done r => rfl
  | call x next ih =>
    simp only [Client.through, Client.finish_bind, Client.finish]
    by_cases seeks : files.seeks x.d x.a
    · have access : files.access x s.contents =
          (some (files.transfer x.d x.a x.t s.contents).1,
            (files.transfer x.d x.a x.t s.contents).2) := if_pos seeks
      rw [access, ih]
      simp only [split, Client.finish, Files.step, seeks, if_true, Function.update_self]
    · have access : files.access x s.contents = (none, s.contents) := if_neg seeks
      rw [access, ih]
      simp only [split, Client.finish, Files.step, seeks]
      rfl

def Follows (files : Files D A T Ans S) (position : D → A)
    (low : Client (Step D A T) (Step.Answer Ans) R)
    (high : Client (Located D A T) (Located.Answer Ans) R) : Prop :=
  low = high.through split ∨
    ∃ x next, high = .call x next ∧ files.seeks x.d x.a = true ∧ position x.d = x.a ∧
      low = .call (.transfer x.d x.t) fun v => (next (some v)).through split

omit [DecidableEq D] in
theorem Follows.done_iff {files : Files D A T Ans S} {position : D → A}
    {low : Client (Step D A T) (Step.Answer Ans) R}
    {high : Client (Located D A T) (Located.Answer Ans) R}
    (follows : Follows files position low high)
    (r : R) : low = .done r ↔ high = .done r := by
  rcases follows with rfl | ⟨x, next, rfl, -, -, rfl⟩
  · cases high with
    | done q =>
      constructor
      · rintro ⟨⟩
        rfl
      · rintro ⟨⟩
        rfl
    | call x next =>
      constructor
      · rintro ⟨⟩
      · rintro ⟨⟩
  · constructor
    · rintro ⟨⟩
    · rintro ⟨⟩

section
variable [DecidableEq I] {files : Files D A T Ans S} {uses : I → D → Prop}

structure Simulates (files : Files D A T Ans S)
    (low : Config I (Positioned D A S) (Step D A T) (Step.Answer Ans) R)
    (high : Config I S (Located D A T) (Located.Answer Ans) R) : Prop where
  contents : low.shared.contents = high.shared
  follows : ∀ i, Follows files low.shared.position (low.clients i) (high.clients i)

variable {low : Config I (Positioned D A S) (Step D A T) (Step.Answer Ans) R}
  {high : Config I S (Located D A T) (Located.Answer Ans) R} {i : I}

omit [DecidableEq I] in
theorem Follows.others {j : I} {position : D → A} {d : D} {a : A}
    {l : Client (Step D A T) (Step.Answer Ans) R}
    {h : Client (Located D A T) (Located.Answer Ans) R} (follows : Follows files position l h)
    (apart : ∀ i j d, uses i d → uses j d → i = j) (other : j ≠ i) (mine : uses i d)
    (only : h.Only fun x => uses j x.d) : Follows files (Function.update position d a) l h := by
  rcases follows with same | ⟨x, next, rfl, seeks, at_x, same⟩
  · exact .inl same
  · have elsewhere : x.d ≠ d := by
      intro shared
      exact other (apart j i d (shared ▸ only.1) mine)
    exact .inr ⟨x, next, rfl, seeks, (Function.update_of_ne elsewhere _ _).trans at_x, same⟩

theorem Simulates.turn (here : Simulates files low high)
    (apart : ∀ i j d, uses i d → uses j d → i = j)
    (only : ∀ i, (high.clients i).Only fun x => uses i x.d) (i : I) :
    Simulates files (turn files.step low i) high ∨
      Simulates files (turn files.step low i) (turn files.access high i) := by
  rcases here.follows i with same | ⟨x, next, at_x, seeks, position, same⟩
  · cases now : high.clients i with
    | done r =>
      rw [now] at same
      rw [turn_done same]
      exact .inl here
    | call x next =>
      have mine := (now ▸ only i : (Client.call x next).Only _).1
      rw [now] at same
      by_cases seeks : files.seeks x.d x.a
      · left
        rw [turn_call same]
        simp only [Files.step, seeks, if_true]
        refine ⟨here.contents, fun j => ?_⟩
        by_cases other : j = i
        · subst other
          simp only [Function.update_self]
          exact .inr ⟨x, next, now, seeks, Function.update_self _ _ _, rfl⟩
        · simp only [Function.update_of_ne other]
          exact (here.follows j).others apart other mine (only j)
      · right
        rw [turn_call same, turn_call now]
        simp only [Files.step, Files.access, seeks]
        refine ⟨here.contents, fun j => ?_⟩
        by_cases other : j = i
        · subst other
          simp only [Function.update_self]
          exact .inl rfl
        · simp only [Function.update_of_ne other]
          exact here.follows j
  · right
    have mine := (at_x ▸ only i : (Client.call x next).Only _).1
    rw [turn_call same, turn_call at_x]
    simp only [Files.step, Files.access, seeks, if_true, position, here.contents]
    refine ⟨rfl, fun j => ?_⟩
    by_cases other : j = i
    · subst other
      simp only [Function.update_self]
      exact .inl rfl
    · simp only [Function.update_of_ne other]
      exact (here.follows j).others apart other mine (only j)

/-- Every order of the steps does what some order of the accesses does, in which each access has the
turn of one of its steps. -/
theorem run_split (files : Files D A T Ans S) (apart : ∀ i j d, uses i d → uses j d → i = j)
    (order : List I) (here : Simulates files low high)
    (only : ∀ i, (high.clients i).Only fun x => uses i x.d) :
    ∃ turns : List I, turns.Sublist order ∧
      Simulates files (run files.step order low) (run files.access turns high) := by
  induction order generalizing low high with
  | nil => exact ⟨[], .slnil, here⟩
  | cons i order ih =>
    rcases here.turn apart only i with still | took
    · obtain ⟨turns, within, there⟩ := ih still only
      exact ⟨turns, within.cons i, there⟩
    · obtain ⟨turns, within, there⟩ := ih took (turn_only only)
      exact ⟨i :: turns, within.cons_cons i, there⟩

end

end Seeking
