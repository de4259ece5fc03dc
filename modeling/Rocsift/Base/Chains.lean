import Mathlib.Data.List.Nodup
import Mathlib.Data.List.Perm.Subperm
import Rocsift.Base.Blocks

/-! Loops that free block after block: an array of pointers, blocks that each name the next one,
and linked rows of several blocks each. -/
namespace Blocks.Store
variable {V : Type} (next : V → Option Nat)

def freeEach : List Nat → Store V → Except Fault (Store V)
  | [], s => .ok s
  | i :: is, s => do
    let s ← s.free (some i)
    freeEach is s

theorem freeEach_ok {s : Store V} {ids : List Nat} (live : ∀ i ∈ ids, ∃ v, s.cells i = some v)
    (once : ids.Nodup) : freeEach ids s = .ok (s.without ids) := by
  induction ids generalizing s with
  | nil => rw [freeEach, without_nil]
  | cons i is ih =>
    obtain ⟨other, once⟩ := List.nodup_cons.mp once
    obtain ⟨⟨v, found⟩, later⟩ := List.forall_mem_cons.mp live
    have still : ∀ j ∈ is, ∃ w, (s.without [i]).cells j = some w := by
      intro j hj
      obtain ⟨w, found⟩ := later j hj
      have apart : j ∉ [i] := fun same => other (List.mem_singleton.mp same ▸ hj)
      exact ⟨w, (without_cells apart).trans found⟩
    simp only [freeEach, free_ok found, bind, Except.bind]
    rw [ih still once, without_without, List.singleton_append]

theorem length_le_calls {s : Store V} {ids : List Nat} (live : ∀ i ∈ ids, ∃ v, s.cells i = some v)
    (once : ids.Nodup) : ids.length ≤ s.calls := by
  have made : ids ⊆ List.range s.calls := by
    intro i member
    obtain ⟨v, found⟩ := live i member
    exact List.mem_range.mpr (lt_calls found)
  have short := (List.subperm_of_subset once made).length_le
  rwa [List.length_range] at short

def Chain (s : Store V) : Option Nat → List Nat → Option Nat → Prop
  | head, [], stop => head = stop
  | head, i :: is, stop => head = some i ∧ ∃ v, s.cells i = some v ∧ s.Chain (next v) is stop

/-- `while (list) { next = list->next; free(list); list = next; }` -/
def freeChain : Nat → Option Nat → Store V → Except Fault (Store V)
  | _, none, s => .ok s
  | 0, some _, _ => .error .endless
  | fuel + 1, some i, s => do
    let v ← s.load i
    let s ← s.free (some i)
    freeChain fuel (next v) s

section
variable {next} {s : Store V} {head stop : Option Nat} {ids : List Nat}

theorem Chain.without (chain : s.Chain next head ids stop) {gone : List Nat}
    (apart : ∀ i ∈ ids, i ∉ gone) : (s.without gone).Chain next head ids stop := by
  induction ids generalizing head with
  | nil => exact chain
  | cons i is ih =>
    obtain ⟨first, v, found, rest⟩ := chain
    obtain ⟨here, later⟩ := List.forall_mem_cons.mp apart
    exact ⟨first, v, (without_cells here).trans found, ih rest later⟩

theorem freeChain_ok (chain : s.Chain next head ids none) (once : ids.Nodup) {fuel : Nat}
    (enough : ids.length ≤ fuel) : freeChain next fuel head s = .ok (s.without ids) := by
  induction ids generalizing s head fuel with
  | nil =>
    obtain rfl : head = none := chain
    rw [freeChain, without_nil]
  | cons i is ih =>
    obtain ⟨rfl, v, found, rest⟩ := chain
    obtain ⟨other, once⟩ := List.nodup_cons.mp once
    obtain ⟨fuel, rfl⟩ := Nat.exists_eq_succ_of_ne_zero (Nat.ne_zero_of_lt enough)
    have behind : (s.without [i]).Chain next (next v) is none :=
      rest.without fun j member same => other (List.mem_singleton.mp same ▸ member)
    simp only [freeChain, load_ok found, free_ok found, bind, Except.bind]
    rw [ih behind once (Nat.le_of_succ_le_succ enough), without_without, List.singleton_append]

end

end Blocks.Store

namespace Blocks
variable {R : Type} {node : R → Nat}

/-- Rows are linked from one pointer to another: a pointer to a row is one to its node, and
`holds` tells which pointer is kept there. -/
def Linked (holds : R → Option Nat → Prop) (node : R → Nat) :
    Option Nat → List R → Option Nat → Prop
  | start, [], stop => start = stop
  | start, r :: rs, stop =>
    start = some (node r) ∧ ∃ next, holds r next ∧ Linked holds node next rs stop

section
variable {holds other : R → Option Nat → Prop} {rs : List R} {start stop : Option Nat}

theorem Linked.mono (linked : Linked holds node start rs stop)
    (kept : ∀ r ∈ rs, ∀ next, holds r next → other r next) : Linked other node start rs stop := by
  induction rs generalizing start with
  | nil => exact linked
  | cons r rs ih =>
    obtain ⟨here, later⟩ := List.forall_mem_cons.mp kept
    obtain ⟨first, next, held, rest⟩ := linked
    exact ⟨first, next, here next held, ih rest later⟩

theorem Linked.mem (linked : Linked holds node start rs stop) : ∀ r ∈ rs, ∃ next, holds r next := by
  induction rs generalizing start with
  | nil => exact fun _ none => nomatch none
  | cons r rs ih =>
    obtain ⟨-, next, held, rest⟩ := linked
    exact List.forall_mem_cons.mpr ⟨⟨next, held⟩, ih rest⟩

theorem linked_append {ss : List R} : Linked holds node start (rs ++ ss) stop ↔
    ∃ mid, Linked holds node start rs mid ∧ Linked holds node mid ss stop := by
  induction rs generalizing start with
  | nil => exact ⟨fun linked => ⟨start, rfl, linked⟩, fun ⟨_, same, linked⟩ => same ▸ linked⟩
  | cons r rs ih =>
    simp only [List.cons_append, Linked, ih]
    constructor
    · rintro ⟨first, next, held, mid, front, back⟩
      exact ⟨mid, ⟨first, next, held, front⟩, back⟩
    · rintro ⟨mid, ⟨first, next, held, front⟩, back⟩
      exact ⟨first, next, held, mid, front, back⟩

theorem Linked.start_none_iff (linked : Linked holds node start rs none) :
    start = none ↔ rs = [] := by
  cases rs with
  | nil => exact iff_of_true linked rfl
  | cons r rs => exact iff_of_false (by simp [linked.1]) (List.cons_ne_nil r rs)

end

section
variable {H O : Type} {holds : H → R → Option Nat → Prop} {apart : R → R → Prop}
  {without : H → List R → H} {loop : Nat → Option Nat → H → O}

/-- The rule for a loop that destroys row after row: if a turn frees the blocks of one row and goes
on at its pointer, and rows apart from this one are kept, then the loop frees the blocks of every
row and goes on behind the last. -/
theorem Linked.destroy (nil : ∀ h, without h [] = h)
    (cons : ∀ h r rs, without (without h [r]) rs = without h (r :: rs))
    (turn : ∀ fuel h r next, holds h r next →
      loop (fuel + 1) (some (node r)) h = loop fuel next (without h [r]))
    (keeps : ∀ h r s next, apart r s → holds h s next → holds (without h [r]) s next)
    {h : H} {rs : List R} {start stop : Option Nat} (linked : Linked (holds h) node start rs stop)
    (distinct : rs.Pairwise apart) (fuel : Nat) :
    loop (fuel + rs.length) start h = loop fuel stop (without h rs) := by
  induction rs generalizing h start with
  | nil =>
    rw [nil, List.length_nil, Nat.add_zero]
    exact congrArg (loop fuel · h) linked
  | cons r rs ih =>
    obtain ⟨rfl, next, held, rest⟩ := linked
    obtain ⟨first, distinct⟩ := List.pairwise_cons.mp distinct
    have behind := rest.mono fun s hs next => keeps h r s next (first s hs)
    rw [List.length_cons, ← Nat.add_assoc, turn _ _ _ _ held, ih behind distinct, cons]

end

end Blocks
