import Mathlib.Tactic.Common

/-! Blocks of one type on a heap. A block is named by the `malloc` call that made it, so that no
name is used twice, and to touch a block that is not allocated is a fault: a run without a fault
uses no freed block and frees no block twice. -/
namespace Blocks

inductive Fault where
  | dangling (block : Nat)
  /-- A read outside a block, or through a null pointer. -/
  | outside
  /-- A walk took more steps than there are blocks. -/
  | endless
  deriving DecidableEq

@[ext] structure Store (V : Type) where
  cells : Nat → Option V
  calls : Nat
  fresh : ∀ i, calls ≤ i → cells i = none

namespace Store
variable {V : Type} (s : Store V)

def empty : Store V := ⟨fun _ => none, 0, fun _ _ => rfl⟩

/-- A block that has been made gets this content, or is freed if there is none. -/
def put (i : Nat) (v : Option V) : Store V where
  cells j := if j = i ∧ i < s.calls then v else s.cells j
  calls := s.calls
  fresh j le := by
    have other : ¬(j = i ∧ i < s.calls) := by omega
    rw [if_neg other]
    exact s.fresh j le

def skip : Store V := ⟨s.cells, s.calls + 1, fun i le => s.fresh i (by omega)⟩

def add (v : V) : Store V := s.skip.put s.calls (some v)

/-- `malloc`, with the content that the block is given right after it. -/
def malloc (succeeds : Bool) (v : V) : Option Nat × Store V :=
  if succeeds then (some s.calls, s.add v) else (none, s.skip)

def load (i : Nat) : Except Fault V :=
  match s.cells i with
  | some v => .ok v
  | none => .error (.dangling i)

def write (i : Nat) (v : V) : Except Fault (Store V) :=
  match s.cells i with
  | some _ => .ok (s.put i (some v))
  | none => .error (.dangling i)

def free : Option Nat → Except Fault (Store V)
  | none => .ok s
  | some i =>
    match s.cells i with
    | some _ => .ok (s.put i none)
    | none => .error (.dangling i)

def without (ids : List Nat) : Store V where
  cells i := if i ∈ ids then none else s.cells i
  calls := s.calls
  fresh i le := by
    split
    · rfl
    · exact s.fresh i le

variable {s} {i : Nat} {v w : V}

theorem lt_calls (found : s.cells i = some v) : i < s.calls := by
  by_contra late
  rw [s.fresh i (Nat.not_lt.mp late)] at found
  cases found

theorem load_ok (found : s.cells i = some v) : s.load i = .ok v := by
  simp only [load, found]

theorem load_freed (freed : s.cells i = none) : s.load i = .error (.dangling i) := by
  simp only [load, freed]

theorem write_ok (found : s.cells i = some v) : s.write i w = .ok (s.put i (some w)) := by
  simp only [write, found]

theorem free_ok (found : s.cells i = some v) : s.free (some i) = .ok (s.without [i]) := by
  have early := lt_calls found
  simp only [free, found, Except.ok.injEq]
  ext j
  · simp only [put, without, List.mem_singleton, early, and_true]
  · rfl

@[simp] theorem skip_calls : s.skip.calls = s.calls + 1 := rfl
@[simp] theorem skip_cells : s.skip.cells = s.cells := rfl

theorem put_cells (found : s.cells i = some v) (o : Option V) (j : Nat) :
    (s.put i o).cells j = if j = i then o else s.cells j := by
  have early := lt_calls found
  simp only [put, early, and_true]

theorem add_cells (v : V) (j : Nat) :
    (s.add v).cells j = if j = s.calls then some v else s.cells j := by
  simp only [add, put, skip_cells, skip_calls, Nat.lt_succ_self, and_true]

theorem add_self (v : V) : (s.add v).cells s.calls = some v := by
  rw [add_cells, if_pos rfl]

theorem add_other (old : s.cells i = some v) (w : V) : (s.add w).cells i = some v := by
  rw [add_cells, if_neg (Nat.ne_of_lt (lt_calls old)), old]

theorem put_add (v w : V) : (s.add v).put s.calls (some w) = s.add w := by
  ext j
  · rw [put_cells (add_self v), add_cells, add_cells]
    split <;> rfl
  · rfl

@[simp] theorem without_nil : s.without [] = s := by
  ext j
  · simp only [without, List.not_mem_nil, if_false]
  · rfl

theorem without_without (ids more : List Nat) :
    (s.without ids).without more = s.without (ids ++ more) := by
  ext j
  · simp only [without, List.mem_append]
    by_cases early : j ∈ ids <;> by_cases late : j ∈ more <;> simp [early, late]
  · rfl

theorem without_cells {ids : List Nat} (other : i ∉ ids) : (s.without ids).cells i = s.cells i :=
  if_neg other

theorem without_made {t : Store V} {ids : List Nat} {made : Nat} (fresh : s.cells made = none)
    (same : ∀ j, j ∉ ids → j ≠ made → t.cells j = s.cells j) :
    (t.without (ids ++ [made])).cells = (s.without ids).cells := by
  funext j
  simp only [without, List.mem_append, List.mem_singleton]
  by_cases old : j ∈ ids
  · rw [if_pos (Or.inl old), if_pos old]
  · by_cases new : j = made
    · rw [if_pos (Or.inr new), if_neg old, new, fresh]
    · rw [if_neg (not_or.mpr ⟨old, new⟩), if_neg old, same j old new]

theorem fresh_calls : s.cells s.calls = none := s.fresh s.calls (Nat.le_refl _)

theorem without_add (v : V) (ids : List Nat) :
    ((s.add v).without (ids ++ [s.calls])).cells = (s.without ids).cells := by
  apply without_made fresh_calls
  intro j _ other
  exact (add_cells v j).trans (if_neg other)

theorem without_freed {ids : List Nat} (member : i ∈ ids) : (s.without ids).cells i = none :=
  if_pos member

end Store

end Blocks
