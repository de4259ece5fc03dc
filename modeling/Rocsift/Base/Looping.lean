import Mathlib.Logic.Relation
import Mathlib.Tactic.Common

/-! Loops that leave from the middle of their body, run with fuel. `Ends` describes a loop without
a bound of its own. -/
namespace Looping

inductive Turn (S R : Type) where
  | again (s : S)
  | leave (r : R)

def run {S R : Type} (body : S → Turn S R) : Nat → S → Option R
  | 0, _ => none
  | fuel + 1, s =>
    match body s with
    | .again t => run body fuel t
    | .leave r => some r

def Turn.map {S R Q : Type} (f : R → Q) : Turn S R → Turn S Q
  | .again s => .again s
  | .leave r => .leave (f r)

/-- A body behind a check that can end the loop. -/
def guarded {S R E : Type} (check : S → Except E Unit) (body : S → Turn S R) (s : S) :
    Turn S (Except E R) :=
  match check s with
  | .error e => .leave (.error e)
  | .ok () => (body s).map .ok

def Ends {S R : Type} (body : S → Turn S R) (s : S) (r : R) : Prop :=
  ∃ fuel, run body fuel s = some r

def Goes {S R : Type} (body : S → Turn S R) (s t : S) : Prop := body s = .again t

def Reaches {S R : Type} (body : S → Turn S R) : S → S → Prop :=
  Relation.ReflTransGen (Goes body)

section
variable {S R : Type} {body : S → Turn S R}

theorem run_again {s t : S} (h : body s = .again t) (fuel : Nat) :
    run body (fuel + 1) s = run body fuel t := by
  simp only [run, h]

theorem run_leave {s : S} {r : R} (h : body s = .leave r) (fuel : Nat) :
    run body (fuel + 1) s = some r := by
  simp only [run, h]

theorem run_mono {fuel more : Nat} (le : fuel ≤ more) {s : S} {r : R}
    (h : run body fuel s = some r) : run body more s = some r := by
  induction fuel generalizing more s with
  | zero => cases h
  | succ fuel ih =>
    obtain ⟨n, rfl⟩ : ∃ n, more = n + 1 := ⟨more - 1, by omega⟩
    cases hb : body s with
    | again t =>
      rw [run_again hb] at h ⊢
      exact ih (Nat.le_of_succ_le_succ le) h
    | leave q =>
      rw [run_leave hb] at h ⊢
      exact h

theorem Ends.again {s t : S} {r : R} (h : body s = .again t) : Ends body s r ↔ Ends body t r := by
  constructor
  · rintro ⟨fuel, hr⟩
    cases fuel with
    | zero => cases hr
    | succ fuel => exact ⟨fuel, by rwa [run_again h] at hr⟩
  · rintro ⟨fuel, hr⟩
    exact ⟨fuel + 1, by rwa [run_again h]⟩

theorem Ends.leave {s : S} {q r : R} (h : body s = .leave q) : Ends body s r ↔ q = r := by
  constructor
  · rintro ⟨fuel, hr⟩
    cases fuel with
    | zero => cases hr
    | succ fuel =>
      rw [run_leave h] at hr
      exact Option.some.inj hr
  · rintro rfl
    exact ⟨1, run_leave h 0⟩

theorem Ends.unique {s : S} {q r : R} (hq : Ends body s q) (hr : Ends body s r) : q = r := by
  obtain ⟨m, hm⟩ := hq
  obtain ⟨n, hn⟩ := hr
  have hm' := run_mono (Nat.le_max_left m n) hm
  have hn' := run_mono (Nat.le_max_right m n) hn
  exact Option.some.inj (hm'.symm.trans hn')

theorem ends_iff_reaches {s : S} {r : R} :
    Ends body s r ↔ ∃ t, Reaches body s t ∧ body t = .leave r := by
  constructor
  · rintro ⟨fuel, h⟩
    induction fuel generalizing s with
    | zero => cases h
    | succ fuel ih =>
      cases hb : body s with
      | again t =>
        rw [run_again hb] at h
        obtain ⟨u, reached, leaves⟩ := ih h
        exact ⟨u, .head hb reached, leaves⟩
      | leave q =>
        rw [run_leave hb] at h
        exact ⟨s, .refl, hb.trans (congrArg Turn.leave (Option.some.inj h))⟩
  · rintro ⟨t, reached, leaves⟩
    induction reached using Relation.ReflTransGen.head_induction_on with
    | refl => exact (Ends.leave leaves).mpr rfl
    | head goes _ ih => exact (Ends.again goes).mpr ih

theorem ends_of_decreasing (m : S → Nat) {s : S}
    (falls : ∀ t u, Reaches body s t → body t = .again u → m u < m t) : ∃ r, Ends body s r := by
  induction size : m s using Nat.strongRecOn generalizing s with
  | ind n ih =>
    cases hb : body s with
    | again t =>
      have less : m t < n := size ▸ falls s t .refl hb
      obtain ⟨r, ends⟩ := ih (m t) less (fun u v reached => falls u v (.head hb reached)) rfl
      exact ⟨r, (Ends.again hb).mpr ends⟩
    | leave r => exact ⟨r, (Ends.leave hb).mpr rfl⟩

theorem Ends.reaches {s t : S} {r : R} (reached : Reaches body s t) :
    Ends body s r ↔ Ends body t r := by
  induction reached with
  | refl => exact Iff.rfl
  | tail _ goes ih => exact ih.trans (Ends.again goes)

/-- A loop ends if from every state it comes to a smaller one, if it does not leave before. -/
theorem ends_of_progress (m : S → Nat) {s : S} (progress : ∀ t, Reaches body s t →
    (∃ r, Ends body t r) ∨ ∃ u, Reaches body t u ∧ m u < m t) : ∃ r, Ends body s r := by
  induction size : m s using Nat.strongRecOn generalizing s with
  | ind n ih =>
    rcases progress s .refl with ends | ⟨t, reached, less⟩
    · exact ends
    · obtain ⟨r, ends⟩ := ih (m t) (size ▸ less)
        (fun u later => progress u (reached.trans later)) rfl
      exact ⟨r, (Ends.reaches reached).mpr ends⟩

theorem never_ends (inv : S → Prop) (goes : ∀ s, inv s → ∃ t, body s = .again t ∧ inv t) {s : S}
    (start : inv s) (r : R) : ¬Ends body s r := by
  rintro ⟨fuel, h⟩
  induction fuel generalizing s with
  | zero => cases h
  | succ fuel ih =>
    obtain ⟨t, hb, kept⟩ := goes s start
    rw [run_again hb] at h
    exact ih kept h

variable {E : Type} {check : S → Except E Unit}

theorem guarded_again_iff {s t : S} :
    guarded check body s = .again t ↔ check s = .ok () ∧ body s = .again t := by
  unfold guarded
  cases check s with
  | error e => exact iff_of_false nofun fun both => nomatch both.1
  | ok u =>
    rw [and_iff_right rfl]
    cases body s with
    | again u => simp only [Turn.map, Turn.again.injEq]
    | leave r => exact iff_of_false nofun nofun

theorem guarded_leave_iff {s : S} {r : R} :
    guarded check body s = .leave (.ok r) ↔ check s = .ok () ∧ body s = .leave r := by
  unfold guarded
  cases check s with
  | error e => exact iff_of_false nofun fun both => nomatch both.1
  | ok u =>
    rw [and_iff_right rfl]
    cases body s with
    | again u => exact iff_of_false nofun nofun
    | leave q => simp only [Turn.map, Turn.leave.injEq, Except.ok.injEq]

theorem reaches_of_guarded {s t : S} (reached : Reaches (guarded check body) s t) :
    Reaches body s t :=
  Relation.ReflTransGen.mono (fun _ _ goes => (guarded_again_iff.mp goes).2) _ _ reached

/-- A loop behind a check ends with a result if the loop itself does and the check passes in every
state that it comes to. -/
theorem ends_guarded_ok {s : S} {r : R} (ends : Ends body s r)
    (passes : ∀ t, Reaches body s t → check t = .ok ()) :
    Ends (guarded check body) s (.ok r) := by
  obtain ⟨t, reached, leaves⟩ := ends_iff_reaches.mp ends
  refine ends_iff_reaches.mpr ⟨t, ?_, guarded_leave_iff.mpr ⟨passes t reached, leaves⟩⟩
  clear leaves
  induction reached with
  | refl => exact .refl
  | tail reached goes ih => exact ih.tail (guarded_again_iff.mpr ⟨passes _ reached, goes⟩)

theorem ends_of_guarded {s : S} {result : Except E R} (ends : Ends (guarded check body) s result) :
    (∃ r, result = .ok r ∧ Ends body s r) ∨
      ∃ t e, Reaches body s t ∧ check t = .error e ∧ result = .error e := by
  obtain ⟨t, reached, leaves⟩ := ends_iff_reaches.mp ends
  have there := reaches_of_guarded reached
  cases result with
  | ok r => exact .inl ⟨r, rfl, ends_iff_reaches.mpr ⟨t, there, (guarded_leave_iff.mp leaves).2⟩⟩
  | error e =>
    refine .inr ⟨t, e, there, ?_, rfl⟩
    unfold guarded at leaves
    cases checked : check t with
    | error e' =>
      rw [checked] at leaves
      cases leaves
      rfl
    | ok u =>
      rw [checked] at leaves
      cases turn : body t with
      | again u =>
        simp only [turn, Turn.map] at leaves
        cases leaves
      | leave q =>
        simp only [turn, Turn.map] at leaves
        cases leaves

end

end Looping
