import Rocsift.Xlator.Combine

/-! What a combined list covers: the addresses of a range whose pages are valid lie in valid
fragments, one behind the other, each address with the view of its page. -/
namespace Rocsift.Xlator

/-- The `n` addresses from `va` on lie in valid fragments, each beginning where the one before it
ends. -/
def Strip : BitVec 64 → Nat → List Fragment → Prop
  | _, n, [] => n = 0
  | va, n, f :: fs =>
    n = 0 ∨ (f.va = va ∧ f.flags.valid ≠ 0#8 ∧ 0 < f.size.toNat) ∧
      Strip (va + f.size) (n - f.size.toNat) fs

theorem strip_zero (va : BitVec 64) (fs : List Fragment) : Strip va 0 fs := by
  cases fs with
  | nil => rfl
  | cons f fs => exact Or.inl rfl

theorem Run.sizes {run last p : Fragment} {before : List Fragment} (made : Run run last before)
    (page : IsPage p) (used : run.flags.valid ≠ 0#8) :
    (run.size + p.size).toNat = run.size.toNat + p.size.toNat := by
  have room := made.room used
  have le := page.size_le
  exact BitVec.toNat_add_of_lt (by omega)

namespace Combined
variable {run last : Fragment} {before ps fs : List Fragment}

theorem adjacent (combined : Combined run ps fs) (made : Run run last before)
    (laid : Laid (last.va + last.size) ps) :
    (last :: ps).IsChain fun f g => f.va + f.size = g.va := by
  induction combined generalizing last before with
  | last run => exact .singleton last
  | join _ contiguous _ ih =>
    obtain ⟨⟨page, le⟩, laid⟩ := laid
    have start := made.next le (contiguous ▸ Option.some_ne_none _)
    exact .cons_cons (made.end_va ▸ start) (ih (made.join page contiguous) laid)
  | next _ separate _ ih =>
    obtain ⟨⟨page, le⟩, laid⟩ := laid
    have start := made.next le (separate ▸ Option.some_ne_none _)
    exact .cons_cons (made.end_va ▸ start) (ih (Run.single page) laid)

theorem strip (combined : Combined run ps fs) (made : Run run last before)
    (laid : Laid (last.va + last.size) ps) {n : Nat} (strip : Strip run.va n (run :: ps)) :
    Strip run.va n fs := by
  induction combined generalizing last before n with
  | last run => exact strip
  | @join run p ps fs _ contiguous _ ih =>
    obtain ⟨⟨page, le⟩, laid⟩ := laid
    apply ih (made.join page contiguous) laid
    rcases strip with none | ⟨⟨-, used, pos⟩, rest⟩
    · exact Or.inl none
    · have sizes := made.sizes page used
      refine Or.inr ⟨⟨rfl, used, by simp only [sizes]; omega⟩, ?_⟩
      simp only [sizes, ← BitVec.add_assoc, ← Nat.sub_sub]
      rcases rest with none | ⟨-, rest⟩
      · rw [none, Nat.zero_sub]
        exact strip_zero _ _
      · exact rest
  | @next run p ps fs _ separate _ ih =>
    obtain ⟨⟨page, le⟩, laid⟩ := laid
    rcases strip with none | ⟨first, rest⟩
    · exact Or.inl none
    · refine Or.inr ⟨first, ?_⟩
      rw [made.next le (separate ▸ Option.some_ne_none _)] at rest ⊢
      exact ih (Run.single page) laid rest

theorem head_size (combined : Combined run ps fs) (made : Run run last before)
    (laid : Laid (last.va + last.size) ps) (used : run.flags.valid ≠ 0#8) :
    ∀ f ∈ fs.head?, run.size.toNat ≤ f.size.toNat := by
  induction combined generalizing last before with
  | last run => exact fun f first => Option.some.inj first ▸ Nat.le_refl _
  | next => exact fun f first => Option.some.inj first ▸ Nat.le_refl _
  | join _ contiguous _ ih =>
    obtain ⟨⟨page, -⟩, laid⟩ := laid
    intro f first
    have longer := ih (made.join page contiguous) laid used f first
    rw [made.sizes page used] at longer
    exact Nat.le_trans (Nat.le_add_right _ _) longer

theorem valid_bounds (combined : Combined run ps fs) (made : Run run last before)
    (laid : Laid (last.va + last.size) ps) :
    ∀ f ∈ fs, f.flags.valid ≠ 0#8 → 0 < f.size.toNat ∧ f.pa.toNat + f.size.toNat < 2 ^ 64 := by
  have here {run last : Fragment} {before : List Fragment} (made : Run run last before)
      (used : run.flags.valid ≠ 0#8) :
      0 < run.size.toNat ∧ run.pa.toNat + run.size.toNat < 2 ^ 64 :=
    ⟨made.pos used, by have := made.room used; omega⟩
  induction combined generalizing last before with
  | last run => exact List.forall_mem_singleton.mpr (here made)
  | join _ contiguous _ ih => exact ih (made.join laid.1.1 contiguous) laid.2
  | next _ _ _ ih =>
    exact List.forall_mem_cons.mpr ⟨here made, ih (Run.single laid.1.1) laid.2⟩

theorem contains (combined : Combined run ps fs) (made : Run run last before)
    (laid : Laid (last.va + last.size) ps) {f : Fragment} (member : f ∈ fs)
    (used : f.flags.valid ≠ 0#8) {v : BitVec 64} (inside : f.Contains v) :
    ∃ p ∈ run :: ps, p.Contains v ∧ p.view v = f.view v := by
  induction combined generalizing last before with
  | last run =>
    cases List.mem_singleton.mp member
    exact ⟨_, List.mem_cons_self, inside, rfl⟩
  | @join run p ps fs _ contiguous _ ih =>
    obtain ⟨⟨page, -⟩, laid⟩ := laid
    obtain ⟨q, inPages, within, same⟩ := ih (made.join page contiguous) laid member
    rcases List.mem_cons.mp inPages with rfl | later
    · have flag : run.flags.valid = f.flags.valid := congrArg Prod.fst same
      have sizes := made.sizes page (flag ▸ used)
      have fits : run.size.toNat + p.size.toNat < 2 ^ 64 := sizes ▸ (run.size + p.size).isLt
      have start := ((isContiguous_true_iff run p).mp contiguous).1
      rcases (contains_join start fits v).mp within with inRun | inPage
      · exact ⟨run, List.mem_cons_self, inRun, same⟩
      · exact ⟨p, List.mem_cons_of_mem _ List.mem_cons_self, inPage,
          (view_join contiguous v).symm.trans same⟩
    · exact ⟨q, List.mem_cons_of_mem _ (List.mem_cons_of_mem _ later), within, same⟩
  | @next run p ps fs _ _ _ ih =>
    obtain ⟨⟨page, -⟩, laid⟩ := laid
    rcases List.mem_cons.mp member with rfl | later
    · exact ⟨_, List.mem_cons_self, inside, rfl⟩
    · obtain ⟨q, inPages, shown⟩ := ih (Run.single page) laid later
      exact ⟨q, List.mem_cons_of_mem _ inPages, shown⟩

end Combined

theorem strip_contains {start : BitVec 64} {fs : List Fragment} {n k : Nat}
    (strip : Strip start n fs) (less : k < n) :
    ∃ f ∈ fs, f.flags.valid ≠ 0#8 ∧ f.Contains (start + BitVec.ofNat 64 k) := by
  induction fs generalizing start n k with
  | nil => exact absurd (strip ▸ less) (Nat.not_lt_zero _)
  | cons f fs ih =>
    obtain ⟨⟨rfl, used, -⟩, strip⟩ := strip.resolve_left (Nat.ne_zero_of_lt less)
    by_cases inside : k < f.size.toNat
    · have small := Nat.lt_trans inside f.size.isLt
      refine ⟨f, List.mem_cons_self, used, ?_⟩
      rw [Fragment.Contains, BitVec.add_comm, BitVec.add_sub_cancel, BitVec.lt_def,
        BitVec.toNat_ofNat, Nat.mod_eq_of_lt small]
      exact inside
    · have rest : k - f.size.toNat < n - f.size.toNat := by omega
      obtain ⟨g, member, shown⟩ := ih strip rest
      have same : f.va + BitVec.ofNat 64 k =
          f.va + f.size + BitVec.ofNat 64 (k - f.size.toNat) := by
        rw [BitVec.add_assoc]
        congr 1
        apply BitVec.eq_of_toNat_eq
        simp only [BitVec.toNat_add, BitVec.toNat_ofNat]
        omega
      exact ⟨g, List.mem_cons_of_mem f member, same ▸ shown⟩

def ValidOn (va size : BitVec 64) (ps : List Fragment) : Prop :=
  ∀ p ∈ ps, ∀ i < size.toNat, p.Contains (va + BitVec.ofNat 64 i) → p.flags.valid ≠ 0#8

/-- Walks over adjacent pages leave no byte of the range out, unless the range wraps. -/
theorem walked_strip {mem : Memory} {r : Registers} {va size : BitVec 64} {c : Cursor}
    {ps : List Fragment} {last : Fragment} {n : Nat}
    (walked : Walked mem (populateWalkHelper r) va c ps) (next : c.addr = last.va + last.size)
    (adjacent : (last :: ps).IsChain fun f g => f.va + f.size = g.va)
    (valid : ValidOn va size ps) (bound : va.toNat + size.toNat ≤ (va + c.size).toNat)
    (left : n ≠ 0 → va.toNat ≤ c.addr.toNat ∧ c.addr.toNat + n = va.toNat + size.toNat) :
    Strip c.addr n ps := by
  induction walked generalizing last n with
  | done finished =>
    rw [BitVec.lt_def] at finished
    change n = 0
    by_contra some
    have range := left some
    omega
  | @page c c' p ps more walk rest ih =>
    obtain ⟨page, -, next', longer⟩ := advance_page walk
    obtain ⟨start, adjacent⟩ := List.isChain_cons_cons.mp adjacent
    obtain ⟨valid_here, valid⟩ := List.forall_mem_cons.mp valid
    have here : p.va = c.addr := (next.trans start).symm
    by_cases none : n = 0
    · exact Or.inl none
    · obtain ⟨low, high⟩ := left none
      have top := (va + c.size).isLt
      have first : va + BitVec.ofNat 64 (c.addr.toNat - va.toNat) = p.va := by
        apply BitVec.eq_of_toNat_eq
        rw [BitVec.toNat_add, BitVec.toNat_ofNat, here]
        omega
      have used := valid_here (c.addr.toNat - va.toNat) (by omega) <| by
        rw [first, Fragment.Contains, BitVec.sub_self]
        exact BitVec.lt_def.mpr page.size_pos
      refine Or.inr ⟨⟨here, used, page.size_pos⟩, ?_⟩
      rw [← here, ← next']
      rw [here, BitVec.sub_self, BitVec.add_zero] at longer
      refine ih next' adjacent valid (longer ▸ bound) fun some => ?_
      rw [next', here, BitVec.toNat_add_of_lt (by omega)]
      omega

end Rocsift.Xlator
