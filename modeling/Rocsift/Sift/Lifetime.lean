import Mathlib.Data.List.Infix
import Mathlib.Data.List.Induction
import Mathlib.Tactic.Ring

/-! The lifetime of the global engine: `sift_init` and `sift_destroy` of capi.cc over a history of
calls. Engines are numbered in the order of their constructions. -/
namespace Rocsift.Sift

inductive SiftStatus where
  | success | error | codeBug | notInitialized | notPrivileged | outOfRange
  deriving DecidableEq, Repr

structure Runtime where
  engref : BitVec 32
  eng : Option Nat
  attempts : Nat
  constructed : List Nat
  deleted : List Nat
  deriving DecidableEq

inductive Call where
  | init | destroy
  deriving DecidableEq, Repr

namespace Runtime

def start : Runtime := ⟨0#32, none, 0, [], []⟩

def Live (s : Runtime) : Prop := ∃ e ∈ s.constructed, e ∉ s.deleted

instance (s : Runtime) : Decidable s.Live :=
  inferInstanceAs (Decidable (∃ e ∈ s.constructed, e ∉ s.deleted))

section
variable (construct : Nat → Option SiftStatus)

/-- `construct` tells for each attempt the status it throws, if it does. -/
def siftInit (s : Runtime) : SiftStatus × Runtime :=
  let val := s.engref
  let s := { s with engref := s.engref + 1#32 }
  if val = 0#32 then
    if s.eng.isSome then (.codeBug, s)
    else
      let s' := { s with attempts := s.attempts + 1 }
      match construct s.attempts with
      | some thrown => (thrown, s')
      | none =>
        (.success, { s' with
          eng := some s.attempts
          constructed := s.constructed ++ [s.attempts] })
  else (.success, s)

/-- The pointer is left as it is after the `delete`. -/
def siftDestroy (s : Runtime) : SiftStatus × Runtime :=
  let alive := s.engref
  let s := { s with engref := s.engref - 1#32 }
  if alive = 0#32 then (.success, { s with deleted := s.deleted ++ s.eng.toList })
  else (.success, s)

def call (s : Runtime) : Call → SiftStatus × Runtime
  | .init => s.siftInit construct
  | .destroy => s.siftDestroy

def after (calls : List Call) : Runtime :=
  calls.foldl (fun s c => (s.call construct c).2) start

theorem after_snoc (pre : List Call) (c : Call) :
    after construct (pre ++ [c]) = ((after construct pre).call construct c).2 := by
  simp only [after, List.foldl_append, List.foldl_cons, List.foldl_nil]

end

end Runtime

def balance (calls : List Call) : Nat := calls.count .init - calls.count .destroy

structure History where
  calls : List Call
  balanced : ∀ pre ∈ calls.inits, pre.count .destroy ≤ pre.count .init

/-- The engine lives exactly while inits exceed destroys: what callers rely on when every
construction succeeds. -/
structure Managed (calls : List Call) : Prop where
  live : ∀ pre, pre <+: calls → ((Runtime.after (fun _ => none) pre).Live ↔ 0 < balance pre)
  success : ∀ pre, pre ++ [.init] <+: calls →
    ((Runtime.after (fun _ => none) pre).siftInit fun _ => none).1 = .success
  once : ∀ pre, pre <+: calls → (Runtime.after (fun _ => none) pre).deleted.Nodup
  freed : ∀ pre, pre ++ [.destroy] <+: calls → ∀ e,
    (e ∈ (Runtime.after (fun _ => none) (pre ++ [.destroy])).deleted ∧
        e ∉ (Runtime.after (fun _ => none) pre).deleted) ↔
      e ∈ (Runtime.after (fun _ => none) pre).constructed ∧
        e ∉ (Runtime.after (fun _ => none) pre).deleted ∧ balance (pre ++ [.destroy]) = 0

def Safe (balance : Nat) (c : Call) : Prop := balance ≠ 2 ^ 32 ∧ (c = .destroy → balance ≠ 1)

def stateAt (balance : Nat) : Runtime :=
  if balance = 0 then Runtime.start else ⟨BitVec.ofNat 32 balance, some 0, 1, [0], []⟩

theorem stateAt_pos {b : Nat} (pos : 0 < b) :
    stateAt b = ⟨BitVec.ofNat 32 b, some 0, 1, [0], []⟩ := if_neg (Nat.ne_of_gt pos)

theorem live_stateAt (b : Nat) : (stateAt b).Live ↔ 0 < b := by
  rcases Nat.eq_zero_or_pos b with rfl | pos
  · decide
  · rw [stateAt_pos pos]
    exact ⟨fun _ => pos, fun _ => ⟨0, by simp, by simp⟩⟩

theorem deleted_stateAt (b : Nat) : (stateAt b).deleted = [] := by
  unfold stateAt
  split <;> rfl

theorem engref_stateAt_ne {b : Nat} (pos : 0 < b) (small : b < 2 ^ 32) :
    BitVec.ofNat 32 b ≠ 0#32 := by
  intro h
  have value := congrArg BitVec.toNat h
  rw [BitVec.toNat_ofNat, BitVec.toNat_ofNat, Nat.mod_eq_of_lt small] at value
  omega

theorem init_stateAt {b : Nat} (small : b < 2 ^ 32) :
    (stateAt b).siftInit (fun _ => none) = (.success, stateAt (b + 1)) := by
  rcases Nat.eq_zero_or_pos b with rfl | pos
  · decide
  · have up : BitVec.ofNat 32 b + 1#32 = BitVec.ofNat 32 (b + 1) := (BitVec.ofNat_add b 1).symm
    rw [stateAt_pos pos, stateAt_pos (Nat.succ_pos b), Runtime.siftInit]
    simp only [if_neg (engref_stateAt_ne pos small), up]

theorem destroy_stateAt {b : Nat} (small : b < 2 ^ 32) (shared : 1 < b) :
    (stateAt b).siftDestroy = (.success, stateAt (b - 1)) := by
  obtain ⟨b, rfl⟩ : ∃ n, b = n + 1 := ⟨b - 1, by omega⟩
  have down : BitVec.ofNat 32 (b + 1) - 1#32 = BitVec.ofNat 32 b := by
    rw [BitVec.ofNat_add]
    exact BitVec.add_sub_cancel _ _
  rw [stateAt_pos (by omega), Nat.add_sub_cancel, stateAt_pos (by omega), Runtime.siftDestroy]
  simp only [if_neg (engref_stateAt_ne (Nat.succ_pos b) small), down]

section
variable {pre : List Call}

theorem balance_init (ok : pre.count .destroy ≤ pre.count .init) :
    balance (pre ++ [.init]) = balance pre + 1 := by
  have init : (pre ++ [Call.init]).count .init = pre.count .init + 1 := by simp
  have destroy : (pre ++ [Call.init]).count .destroy = pre.count .destroy := by simp
  rw [balance, balance, init, destroy]
  omega

theorem balance_destroy
    (ok : (pre ++ [Call.destroy]).count .destroy ≤ (pre ++ [Call.destroy]).count .init) :
    0 < balance pre ∧ balance (pre ++ [.destroy]) = balance pre - 1 := by
  have init : (pre ++ [Call.destroy]).count .init = pre.count .init := by simp
  have destroy : (pre ++ [Call.destroy]).count .destroy = pre.count .destroy + 1 := by simp
  rw [init, destroy] at ok
  rw [balance, balance, init, destroy]
  omega

end

namespace History

variable (h : History)

theorem balanced_prefix {pre : List Call} (is_pre : pre <+: h.calls) :
    pre.count .destroy ≤ pre.count .init :=
  h.balanced pre ((List.mem_inits _ _).mpr is_pre)

theorem safe_step {pre : List Call} {c : Call} (is_pre : pre ++ [c] <+: h.calls)
    (small : balance pre ≤ 2 ^ 32) (safe : Safe (balance pre) c) :
    (stateAt (balance pre)).call (fun _ => none) c =
        (.success, stateAt (balance (pre ++ [c]))) ∧ balance (pre ++ [c]) ≤ 2 ^ 32 := by
  have below : balance pre < 2 ^ 32 := Nat.lt_of_le_of_ne small safe.1
  cases c with
  | init =>
    have ok := h.balanced_prefix ((List.prefix_append pre [.init]).trans is_pre)
    rw [balance_init ok]
    exact ⟨init_stateAt below, below⟩
  | destroy =>
    obtain ⟨pos, down⟩ := balance_destroy (h.balanced_prefix is_pre)
    have shared : 1 < balance pre := Nat.lt_of_le_of_ne pos (Ne.symm (safe.2 rfl))
    rw [down]
    exact ⟨destroy_stateAt below shared, by omega⟩

theorem after_safe {pre : List Call} (is_pre : pre <+: h.calls)
    (safe : ∀ q c, q ++ [c] <+: pre → Safe (balance q) c) :
    Runtime.after (fun _ => none) pre = stateAt (balance pre) ∧ balance pre ≤ 2 ^ 32 := by
  induction pre using List.reverseRecOn with
  | nil => exact ⟨rfl, Nat.zero_le _⟩
  | append_singleton pre c ih =>
    have here := List.prefix_append pre [c]
    obtain ⟨state, small⟩ := ih (here.trans is_pre) fun q d hq => safe q d (hq.trans here)
    have step := h.safe_step is_pre small (safe pre c (List.prefix_refl _))
    rw [Runtime.after_snoc, state, step.1]
    exact ⟨rfl, step.2⟩

theorem safe_of_managed (managed : Managed h.calls) {pre : List Call} (is_pre : pre <+: h.calls) :
    ∀ q c, q ++ [c] <+: pre → Safe (balance q) c := by
  induction pre using List.reverseRecOn with
  | nil =>
    intro q c hq
    exact absurd (List.prefix_nil.mp hq) (by simp)
  | append_singleton pre c ih =>
    have here := List.prefix_append pre [c]
    have before := ih (here.trans is_pre)
    obtain ⟨state, small⟩ := h.after_safe (here.trans is_pre) before
    intro q d hq
    rcases List.prefix_concat_iff.mp hq with same | hq
    · obtain ⟨rfl, last⟩ := List.append_inj' same rfl
      obtain rfl := List.singleton_inj.mp last
      refine ⟨fun full => ?_, ?_⟩
      · cases d with
        | init =>
          have success := managed.success q is_pre
          rw [state, full] at success
          exact absurd success (by decide)
        | destroy =>
          obtain ⟨_, down⟩ := balance_destroy (h.balanced_prefix is_pre)
          have live := (managed.live _ is_pre).mpr (by rw [down, full]; decide)
          rw [Runtime.after_snoc, state, full] at live
          exact absurd live (by decide)
      · rintro rfl one
        obtain ⟨_, down⟩ := balance_destroy (h.balanced_prefix is_pre)
        have live := managed.live _ is_pre
        rw [Runtime.after_snoc, state, down, one] at live
        exact absurd live (by decide)
    · exact before q d hq

theorem managed_iff : Managed h.calls ↔ ∀ pre c, pre ++ [c] <+: h.calls → Safe (balance pre) c := by
  constructor
  · intro managed
    exact h.safe_of_managed managed (List.prefix_refl _)
  · intro safe
    have state : ∀ pre, pre <+: h.calls →
        Runtime.after (fun _ => none) pre = stateAt (balance pre) ∧ balance pre ≤ 2 ^ 32 :=
      fun pre is_pre => h.after_safe is_pre fun q c hq => safe q c (hq.trans is_pre)
    refine ⟨fun pre is_pre => ?_, fun pre is_pre => ?_, fun pre is_pre => ?_, ?_⟩
    · rw [(state pre is_pre).1]
      exact live_stateAt _
    · have before := (List.prefix_append pre [Call.init]).trans is_pre
      have step := h.safe_step is_pre (state pre before).2 (safe pre .init is_pre)
      rw [(state pre before).1]
      exact congrArg Prod.fst step.1
    · rw [(state pre is_pre).1, deleted_stateAt]
      exact List.nodup_nil
    · intro pre is_pre e
      have before := (List.prefix_append pre [Call.destroy]).trans is_pre
      have pos : balance (pre ++ [Call.destroy]) ≠ 0 := by
        obtain ⟨some_ref, down⟩ := balance_destroy (h.balanced_prefix is_pre)
        have shared := (safe pre .destroy is_pre).2 rfl
        omega
      rw [(state _ is_pre).1, (state pre before).1, deleted_stateAt, deleted_stateAt]
      simp [pos]

end History

/-- One `sift_init` and one `sift_destroy`: the engine outlives its last reference. -/
theorem init_destroy_leaks : ¬ Managed [.init, .destroy] := by
  intro managed
  have live := managed.live [.init, .destroy] (List.prefix_refl _)
  exact absurd live (by decide)

end Rocsift.Sift
