import Mathlib.Tactic.Common

/-! Programs whose only effect is to read a memory. A program is a tree of its reads, so what it
can learn of the memory is what it asks for: two memories that agree on the places read by a run
give the same run. -/

inductive Reading (I V A : Type) where
  | done (a : A)
  | read (i : I) (next : V → Reading I V A)

namespace Reading

variable {I V A B : Type}

def value : Reading I V A → (I → V) → A
  | .done a, _ => a
  | .read i next, mem => (next (mem i)).value mem

def trace : Reading I V A → (I → V) → List I
  | .done _, _ => []
  | .read i next, mem => i :: (next (mem i)).trace mem

def bind : Reading I V A → (A → Reading I V B) → Reading I V B
  | .done a, f => f a
  | .read i next, f => .read i fun v => (next v).bind f

instance : Monad (Reading I V) where
  pure := .done
  bind := .bind

/-- The result of a program whose reads can fail: the first that does ends it. -/
def attempt {E : Type} : Reading I V A → (I → Except E V) → Except E A
  | .done a, _ => .ok a
  | .read i next, reads => do
    let v ← reads i
    (next v).attempt reads

def get (i : I) : Reading I V V := .read i .done

@[simp] theorem value_pure (a : A) (mem : I → V) : (pure a : Reading I V A).value mem = a := rfl
@[simp] theorem trace_pure (a : A) (mem : I → V) : (pure a : Reading I V A).trace mem = [] := rfl
@[simp] theorem value_get (i : I) (mem : I → V) : (get i).value mem = mem i := rfl
@[simp] theorem trace_get (i : I) (mem : I → V) : (get (V := V) i).trace mem = [i] := rfl

@[simp] theorem value_bind (p : Reading I V A) (f : A → Reading I V B) (mem : I → V) :
    (p >>= f).value mem = (f (p.value mem)).value mem := by
  induction p with
  | done a => rfl
  | read i next ih => exact ih (mem i)

@[simp] theorem trace_bind (p : Reading I V A) (f : A → Reading I V B) (mem : I → V) :
    (p >>= f).trace mem = p.trace mem ++ (f (p.value mem)).trace mem := by
  induction p with
  | done a => rfl
  | read i next ih => exact congrArg (i :: ·) (ih (mem i))

@[simp] theorem value_ite (c : Prop) [Decidable c] (p q : Reading I V A) (mem : I → V) :
    (if c then p else q).value mem = if c then p.value mem else q.value mem := by
  split <;> rfl

@[simp] theorem trace_ite (c : Prop) [Decidable c] (p q : Reading I V A) (mem : I → V) :
    (if c then p else q).trace mem = if c then p.trace mem else q.trace mem := by
  split <;> rfl

/-- A run depends on nothing but the places it reads. -/
theorem agree (p : Reading I V A) {mem other : I → V}
    (same : ∀ i ∈ p.trace mem, mem i = other i) :
    p.value mem = p.value other ∧ p.trace mem = p.trace other := by
  induction p with
  | done a => exact ⟨rfl, rfl⟩
  | read i next ih =>
    have here : mem i = other i := same i List.mem_cons_self
    have rest := ih (mem i) fun j hj => same j (List.mem_cons_of_mem i hj)
    simp only [value, trace, ← here]
    exact ⟨rest.1, congrArg (i :: ·) rest.2⟩

section
variable {E : Type} {reads : I → Except E V} {mem : I → V}

theorem attempt_ok (p : Reading I V A) (found : ∀ i ∈ p.trace mem, reads i = .ok (mem i)) :
    p.attempt reads = .ok (p.value mem) := by
  induction p with
  | done a => rfl
  | read i next ih =>
    have here : reads i = .ok (mem i) := found i List.mem_cons_self
    have rest := ih (mem i) fun j hj => found j (List.mem_cons_of_mem i hj)
    simp only [attempt, value, here]
    exact rest

theorem attempt_error {p : Reading I V A} {e : E} (failed : p.attempt reads = .error e) :
    ∃ i, reads i = .error e := by
  induction p with
  | done a => cases failed
  | read i next ih =>
    cases found : reads i with
    | error e' =>
      simp only [attempt, found] at failed
      cases failed
      exact ⟨i, found⟩
    | ok v =>
      simp only [attempt, found] at failed
      exact ih v failed

end

end Reading
