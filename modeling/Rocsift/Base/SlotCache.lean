import Mathlib.Logic.Function.Basic

/-! A cache with one entry for each slot: the key that was last looked up there, and its value.
It is sound for a run of lookups as long as none of them meets an older value of its key. -/

abbrev SlotCache (L K V : Type) := L → K × V

structure SlotLookup (L K V : Type) where
  slot : L
  key : K
  value : V

namespace SlotCache

variable {L K V : Type} [DecidableEq L]

def store (c : SlotCache L K V) (slot : L) (key : K) (value : V) : SlotCache L K V :=
  Function.update c slot (key, value)

/-- A lookup that finds its key in its slot finds its value there. -/
def Fits (c : SlotCache L K V) (q : SlotLookup L K V) : Prop :=
  q.key = (c q.slot).1 → q.value = (c q.slot).2

instance (c : SlotCache L K V) (q : SlotLookup L K V) [DecidableEq K] [DecidableEq V] :
    Decidable (c.Fits q) :=
  inferInstanceAs (Decidable (_ → _))

def after (c : SlotCache L K V) (qs : List (SlotLookup L K V)) : SlotCache L K V :=
  qs.foldl (fun c q => c.store q.slot q.key q.value) c

/-- Each lookup of a run fits the ones before it in its slot. -/
def Coherent (c : SlotCache L K V) : List (SlotLookup L K V) → Prop
  | [] => True
  | q :: qs => c.Fits q ∧ Coherent (c.store q.slot q.key q.value) qs

instance decidableCoherent [DecidableEq K] [DecidableEq V] (c : SlotCache L K V) :
    (qs : List (SlotLookup L K V)) → Decidable (c.Coherent qs)
  | [] => .isTrue trivial
  | q :: qs =>
    have := decidableCoherent (c.store q.slot q.key q.value) qs
    inferInstanceAs (Decidable (_ ∧ _))

theorem store_hit (c : SlotCache L K V) {q : SlotLookup L K V} (hit : q.key = (c q.slot).1)
    (fits : c.Fits q) : c.store q.slot q.key q.value = c := by
  have same : (q.key, q.value) = c q.slot := Prod.ext hit (fits hit)
  rw [store, same, Function.update_eq_self]

theorem coherent_append (c : SlotCache L K V) (qs rs : List (SlotLookup L K V)) :
    c.Coherent (qs ++ rs) ↔ c.Coherent qs ∧ (c.after qs).Coherent rs := by
  induction qs generalizing c with
  | nil => simp only [List.nil_append, Coherent, after, List.foldl_nil, true_and]
  | cons q qs ih => exact (and_congr_right fun _ => ih _).trans and_assoc.symm

theorem coherent_of_function (c : SlotCache L K V) (qs : List (SlotLookup L K V))
    (start : ∀ q ∈ qs, c.Fits q)
    (function : ∀ q ∈ qs, ∀ r ∈ qs, q.slot = r.slot → q.key = r.key → q.value = r.value) :
    c.Coherent qs := by
  induction qs generalizing c with
  | nil => trivial
  | cons q qs ih =>
    refine ⟨start q List.mem_cons_self, ih _ (fun r hr => ?_) fun r hr t ht =>
      function r (List.mem_cons_of_mem q hr) t (List.mem_cons_of_mem q ht)⟩
    unfold Fits store
    by_cases same : r.slot = q.slot
    · rw [same, Function.update_self]
      exact function r (List.mem_cons_of_mem q hr) q List.mem_cons_self same
    · rw [Function.update_of_ne same]
      exact start r (List.mem_cons_of_mem q hr)

end SlotCache
