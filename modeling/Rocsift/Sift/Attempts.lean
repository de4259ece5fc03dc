import Rocsift.Sift.Lifetime

/-! `sift_init` over a history in which the construction of an engine may throw. The counter keeps
the step of a call that failed, so the calls after it find it above zero. -/
namespace Rocsift.Sift

abbrev Thrown := { status : SiftStatus // status ≠ .success }

abbrev Attempts := Nat → Option Thrown

def Attempts.status (a : Attempts) (k : Nat) : Option SiftStatus := (a k).map Subtype.val

def Runtime.Denotes (s : Runtime) : Prop := ∃ e ∈ s.eng, e ∈ s.constructed ∧ e ∉ s.deleted

instance (s : Runtime) : Decidable s.Denotes :=
  inferInstanceAs (Decidable (∃ e ∈ s.eng, e ∈ s.constructed ∧ e ∉ s.deleted))

def SuccessMeansLive (a : Attempts) (calls : List Call) : Prop :=
  ∀ pre, pre ++ [.init] <+: calls →
    ((Runtime.after a.status pre).siftInit a.status).1 = .success →
    ((Runtime.after a.status pre).siftInit a.status).2.Denotes

/-- The counter is zero after these calls: as many destroys as inits, up to a wrap. -/
def Idle (calls : List Call) : Prop := balance calls % 2 ^ 32 = 0

instance (calls : List Call) : Decidable (Idle calls) := inferInstanceAs (Decidable (_ = _))

def idleInits (calls : List Call) : Nat :=
  (List.range calls.length).countP fun i => calls[i]? = some .init ∧ Idle (calls.take i)

def Built (a : Attempts) (calls : List Call) : Prop := ∃ k < idleInits calls, a k = none

def Dropped (a : Attempts) (calls : List Call) : Prop :=
  ∃ pre, pre ++ [.destroy] <+: calls ∧ Idle pre ∧ Built a pre

theorem idleInits_snoc (calls : List Call) (c : Call) :
    idleInits (calls ++ [c]) =
      idleInits calls + if c = .init ∧ Idle calls then 1 else 0 := by
  have before : (List.range calls.length).countP
      (fun i => (calls ++ [c])[i]? = some .init ∧ Idle ((calls ++ [c]).take i)) =
      idleInits calls := by
    apply List.countP_congr
    intro i hi
    have lt := List.mem_range.mp hi
    simp only [List.getElem?_append_left lt, List.take_append_of_le_length (Nat.le_of_lt lt)]
  simp only [idleInits, List.length_append, List.length_singleton, List.range_succ,
    List.countP_append, before, List.countP_singleton, List.getElem?_concat_length,
    List.take_left, Option.some.injEq, decide_eq_true_eq]

section
variable {a : Attempts} {pre : List Call}

theorem built_destroy_iff : Built a (pre ++ [.destroy]) ↔ Built a pre := by
  simp only [Built, idleInits_snoc, reduceCtorEq, false_and, if_false, Nat.add_zero]

theorem built_init_iff :
    Built a (pre ++ [.init]) ↔ Built a pre ∨ (Idle pre ∧ a (idleInits pre) = none) := by
  simp only [Built, idleInits_snoc, true_and]
  split
  · rename_i idle
    simp only [Nat.lt_succ_iff_lt_or_eq, or_and_right, exists_or, exists_eq_left, idle, true_and]
  · rename_i busy
    simp only [Nat.add_zero, busy, false_and, or_false]

theorem dropped_init_iff : Dropped a (pre ++ [.init]) ↔ Dropped a pre := by
  constructor
  · rintro ⟨q, hq, idle, built⟩
    rcases List.prefix_concat_iff.mp hq with same | hq
    · exact absurd (List.append_inj' same rfl).2 (by simp)
    · exact ⟨q, hq, idle, built⟩
  · rintro ⟨q, hq, idle, built⟩
    exact ⟨q, hq.trans (List.prefix_append _ _), idle, built⟩

theorem dropped_destroy_iff :
    Dropped a (pre ++ [.destroy]) ↔ Dropped a pre ∨ (Idle pre ∧ Built a pre) := by
  constructor
  · rintro ⟨q, hq, idle, built⟩
    rcases List.prefix_concat_iff.mp hq with same | hq
    · obtain ⟨rfl, -⟩ := List.append_inj' same rfl
      exact Or.inr ⟨idle, built⟩
    · exact Or.inl ⟨q, hq, idle, built⟩
  · rintro (⟨q, hq, idle, built⟩ | ⟨idle, built⟩)
    · exact ⟨q, hq.trans (List.prefix_append _ _), idle, built⟩
    · exact ⟨pre, List.prefix_refl _, idle, built⟩

theorem built_of_dropped (calls : List Call) : Dropped a calls → Built a calls := by
  induction calls using List.reverseRecOn with
  | nil =>
    rintro ⟨q, hq, -⟩
    exact absurd (List.prefix_nil.mp hq) (by simp)
  | append_singleton calls c ih =>
    cases c with
    | init => exact fun h => built_init_iff.mpr (Or.inl (ih (dropped_init_iff.mp h)))
    | destroy =>
      intro h
      apply built_destroy_iff.mpr
      exact (dropped_destroy_iff.mp h).elim ih And.right

end

/-- The runtime after a history, by what its calls say: how far the counter is, and the one
engine there can be. -/
structure Tracks (a : Attempts) (calls : List Call) (s : Runtime) : Prop where
  counter : s.engref = BitVec.ofNat 32 (balance calls)
  unbuilt : ¬Built a calls →
    s.eng = none ∧ s.constructed = [] ∧ s.deleted = [] ∧ s.attempts = idleInits calls
  built : Built a calls →
    ∃ e, s.eng = some e ∧ e ∈ s.constructed ∧ (e ∈ s.deleted ↔ Dropped a calls)

theorem idle_iff (calls : List Call) : BitVec.ofNat 32 (balance calls) = 0#32 ↔ Idle calls := by
  rw [← BitVec.toNat_inj, BitVec.toNat_ofNat]
  exact Iff.rfl

namespace Tracks

variable {a : Attempts} {pre : List Call} {s : Runtime}

theorem zero_iff (tracks : Tracks a pre s) : s.engref = 0#32 ↔ Idle pre := by
  rw [tracks.counter]
  exact idle_iff pre

theorem denotes_iff (tracks : Tracks a pre s) : s.Denotes ↔ Built a pre ∧ ¬Dropped a pre := by
  by_cases built : Built a pre
  · obtain ⟨e, eng, constructed, deleted⟩ := tracks.built built
    simp only [Runtime.Denotes, eng, Option.mem_some, exists_eq_left', constructed, deleted, built,
      true_and]
  · simp only [Runtime.Denotes, (tracks.unbuilt built).1, built, Option.not_mem_none, false_and,
      exists_false]

theorem init_attempt (tracks : Tracks a pre s)
    (count : s.engref + 1#32 = BitVec.ofNat 32 (balance (pre ++ [.init]))) (idle : Idle pre)
    (built : ¬Built a pre) : Tracks a (pre ++ [.init]) (s.siftInit a.status).2 ∧
      ((s.siftInit a.status).1 = .success → (s.siftInit a.status).2.Denotes) := by
  have zero := tracks.zero_iff.mpr idle
  obtain ⟨eng, constructed, deleted, attempts⟩ := tracks.unbuilt built
  cases attempt : a (idleInits pre) with
  | some thrown =>
    have call : s.siftInit a.status = (thrown.val,
        { s with engref := s.engref + 1#32, attempts := s.attempts + 1 }) := by
      simp [Runtime.siftInit, zero, eng, attempts, Attempts.status, attempt]
    have still : ¬Built a (pre ++ [.init]) := by
      simp [built_init_iff, built, attempt]
    simp only [call, thrown.property, false_implies, and_true]
    refine ⟨count, fun _ => ⟨eng, constructed, deleted, ?_⟩, fun now => absurd now still⟩
    simp [attempts, idleInits_snoc, idle]
  | none =>
    have call : s.siftInit a.status = (.success,
        { s with
          engref := s.engref + 1#32
          attempts := s.attempts + 1
          eng := some s.attempts
          constructed := s.constructed ++ [s.attempts] }) := by
      simp [Runtime.siftInit, zero, eng, attempts, Attempts.status, attempt]
    have now : Built a (pre ++ [.init]) := built_init_iff.mpr (Or.inr ⟨idle, attempt⟩)
    have undropped : ¬Dropped a (pre ++ [.init]) := fun dropped =>
      built (built_of_dropped pre (dropped_init_iff.mp dropped))
    simp only [call, forall_const]
    refine ⟨⟨count, fun none => absurd now none, fun _ => ?_⟩, ?_⟩
    · exact ⟨s.attempts, rfl, by simp, by simp [deleted, undropped]⟩
    · exact ⟨s.attempts, rfl, by simp, by simp [deleted]⟩

theorem init (tracks : Tracks a pre s) (up : balance (pre ++ [.init]) = balance pre + 1) :
    Tracks a (pre ++ [.init]) (s.siftInit a.status).2 ∧
      ((s.siftInit a.status).1 = .success →
        ((s.siftInit a.status).2.Denotes ↔ Idle pre ∨ s.Denotes)) := by
  have count : s.engref + 1#32 = BitVec.ofNat 32 (balance (pre ++ [.init])) := by
    rw [tracks.counter, up, BitVec.ofNat_add]
  by_cases idle : Idle pre
  · have zero := tracks.zero_iff.mpr idle
    by_cases built : Built a pre
    · -- an engine is there already: the call is refused
      obtain ⟨e, eng, constructed, deleted⟩ := tracks.built built
      have call : s.siftInit a.status = (.codeBug, { s with engref := s.engref + 1#32 }) := by
        simp only [Runtime.siftInit, zero, eng, Option.isSome_some, if_true]
      simp only [call, reduceCtorEq, false_implies, and_true]
      refine ⟨count, fun none => absurd (built_init_iff.mpr (Or.inl built)) none, fun _ => ?_⟩
      exact ⟨e, eng, constructed, deleted.trans dropped_init_iff.symm⟩
    · obtain ⟨after, live⟩ := tracks.init_attempt count idle built
      exact ⟨after, fun success => iff_of_true (live success) (Or.inl idle)⟩
  · have busy : s.engref ≠ 0#32 := fun zero => idle (tracks.zero_iff.mp zero)
    have call : s.siftInit a.status = (.success, { s with engref := s.engref + 1#32 }) := by
      simp only [Runtime.siftInit, busy, if_false]
    have same : Built a (pre ++ [.init]) ↔ Built a pre := by
      simp only [built_init_iff, idle, false_and, or_false]
    simp only [call, forall_const, idle, false_or]
    refine ⟨⟨count, fun none => ?_, fun now => ?_⟩, Iff.rfl⟩
    · obtain ⟨eng, constructed, deleted, attempts⟩ := tracks.unbuilt (mt same.mpr none)
      exact ⟨eng, constructed, deleted, by simp [attempts, idleInits_snoc, idle]⟩
    · obtain ⟨e, eng, constructed, deleted⟩ := tracks.built (same.mp now)
      exact ⟨e, eng, constructed, deleted.trans dropped_init_iff.symm⟩

theorem destroy (tracks : Tracks a pre s) (some_ref : 0 < balance pre)
    (down : balance (pre ++ [.destroy]) = balance pre - 1) :
    Tracks a (pre ++ [.destroy]) s.siftDestroy.2 := by
  have count : s.engref - 1#32 = BitVec.ofNat 32 (balance (pre ++ [.destroy])) := by
    obtain ⟨b, hb⟩ : ∃ b, balance pre = b + 1 := ⟨balance pre - 1, by omega⟩
    rw [tracks.counter, down, hb, Nat.add_sub_cancel, BitVec.ofNat_add]
    exact BitVec.add_sub_cancel _ _
  have inits : idleInits (pre ++ [.destroy]) = idleInits pre := by simp [idleInits_snoc]
  by_cases idle : Idle pre
  · have zero := tracks.zero_iff.mpr idle
    have call : s.siftDestroy.2 =
        { s with engref := s.engref - 1#32, deleted := s.deleted ++ s.eng.toList } := by
      simp only [Runtime.siftDestroy, zero, if_true]
    rw [call]
    refine ⟨count, fun none => ?_, fun now => ?_⟩
    · obtain ⟨eng, constructed, deleted, attempts⟩ := tracks.unbuilt (mt built_destroy_iff.mpr none)
      exact ⟨eng, constructed, by simp [deleted, eng], attempts.trans inits.symm⟩
    · have built := built_destroy_iff.mp now
      obtain ⟨e, eng, constructed, -⟩ := tracks.built built
      have dropped := dropped_destroy_iff.mpr (Or.inr ⟨idle, built⟩)
      exact ⟨e, eng, constructed, by simp [eng, dropped]⟩
  · have busy : s.engref ≠ 0#32 := fun zero => idle (tracks.zero_iff.mp zero)
    have call : s.siftDestroy.2 = { s with engref := s.engref - 1#32 } := by
      simp only [Runtime.siftDestroy, busy, if_false]
    have same : Dropped a (pre ++ [.destroy]) ↔ Dropped a pre := by
      simp only [dropped_destroy_iff, idle, false_and, or_false]
    rw [call]
    refine ⟨count, fun none => ?_, fun now => ?_⟩
    · obtain ⟨eng, constructed, deleted, attempts⟩ := tracks.unbuilt (mt built_destroy_iff.mpr none)
      exact ⟨eng, constructed, deleted, attempts.trans inits.symm⟩
    · obtain ⟨e, eng, constructed, deleted⟩ := tracks.built (built_destroy_iff.mp now)
      exact ⟨e, eng, constructed, deleted.trans same.symm⟩

end Tracks

namespace History

variable (h : History) (a : Attempts)

theorem tracks {pre : List Call} (is_pre : pre <+: h.calls) :
    Tracks a pre (Runtime.after a.status pre) := by
  induction pre using List.reverseRecOn with
  | nil =>
    have unbuilt : ¬Built a [] := by simp [Built, idleInits]
    exact ⟨rfl, fun _ => ⟨rfl, rfl, rfl, rfl⟩, fun built => absurd built unbuilt⟩
  | append_singleton pre c ih =>
    have before := ih ((List.prefix_append pre [c]).trans is_pre)
    rw [Runtime.after_snoc]
    cases c with
    | init =>
      have up := balance_init (h.balanced_prefix ((List.prefix_append pre [.init]).trans is_pre))
      exact (before.init up).1
    | destroy =>
      obtain ⟨some_ref, down⟩ := balance_destroy (h.balanced_prefix is_pre)
      exact before.destroy some_ref down

/-- Success means a live engine on exactly the histories in which no init finds the counter above
zero without an engine that was built and is still there. -/
theorem success_means_live_iff : SuccessMeansLive a h.calls ↔
    ∀ pre, pre ++ [.init] <+: h.calls → ¬Idle pre → Built a pre ∧ ¬Dropped a pre := by
  have init (pre : List Call) (is_pre : pre ++ [.init] <+: h.calls) :
      Tracks a pre (Runtime.after a.status pre) ∧
        balance (pre ++ [.init]) = balance pre + 1 := by
    have before := (List.prefix_append pre [.init]).trans is_pre
    exact ⟨h.tracks a before, balance_init (h.balanced_prefix before)⟩
  constructor
  · intro live pre is_pre busy
    obtain ⟨tracks, up⟩ := init pre is_pre
    have success : ((Runtime.after a.status pre).siftInit a.status).1 = .success := by
      have above : (Runtime.after a.status pre).engref ≠ 0#32 := mt tracks.zero_iff.mp busy
      simp only [Runtime.siftInit, above, if_false]
    have denotes := ((tracks.init up).2 success).mp (live pre is_pre success)
    exact tracks.denotes_iff.mp (denotes.resolve_left busy)
  · intro kept pre is_pre success
    obtain ⟨tracks, up⟩ := init pre is_pre
    apply ((tracks.init up).2 success).mpr
    by_cases idle : Idle pre
    · exact Or.inl idle
    · exact Or.inr (tracks.denotes_iff.mpr (kept pre is_pre idle))

end History

/-- A construction that throws, and the next `sift_init`: success without an engine. -/
theorem init_after_failure :
    ¬SuccessMeansLive (fun _ => some ⟨.error, by decide⟩) [.init, .init] := by
  intro live
  have denotes := live [.init] (List.prefix_refl _) (by decide)
  exact absurd denotes (by decide)

end Rocsift.Sift
