import Mathlib.Data.List.Basic
import Rocsift.Xlator.Pages

/-! Contiguous pages: what the tests of xlator.c say of two pages, and how a run of joined pages
takes the place of its pages. -/
namespace Rocsift.Xlator

def Fragment.Occupies (f : Fragment) (x : Nat) : Prop :=
  f.flags.valid ≠ 0#8 ∧ f.pa.toNat ≤ x ∧ x < f.pa.toNat + f.size.toNat

/-- Two valid fragments have a physical address in common, as a number: `fragmentsOverlap` does not
ask which of the memories it is an address of. -/
def Aliased (f g : Fragment) : Prop := ∃ x, f.Occupies x ∧ g.Occupies x

/-- Two valid fragments have a byte of system or of video memory in common. -/
def SharesMemory (f g : Fragment) : Prop :=
  (f.flags.system = 0#8 ↔ g.flags.system = 0#8) ∧ Aliased f g

theorem compare_eq_true (c : Prop) [Decidable c] (rest : Option Bool) :
    (if c then some false else rest) = some true ↔ ¬c ∧ rest = some true := by
  split <;> simp_all only [not_true_eq_false, not_false_eq_true, false_and, true_and,
    Option.some.injEq, Bool.false_eq_true]

theorem isContiguous_true_iff (f g : Fragment) :
    isContiguous f g = some true ↔ f.va + f.size = g.va ∧
      ((f.flags.valid = 0#8 ∧ g.flags.valid = 0#8) ∨
        (f.pa + f.size = g.pa ∧ f.pageFlags = g.pageFlags)) := by
  unfold isContiguous
  by_cases early : g.va < f.va + f.size
  · have ne : f.va + f.size ≠ g.va := fun same => BitVec.lt_irrefl _ (same ▸ early)
    simp only [if_pos early, reduceCtorEq, ne, false_and]
  · rw [if_neg early, compare_eq_true, not_not]
    refine and_congr_right fun _ => ?_
    by_cases invalid : f.flags.valid = 0#8 ∧ g.flags.valid = 0#8
    · exact iff_of_true (if_pos invalid) (Or.inl invalid)
    · rw [if_neg invalid]
      simp only [compare_eq_true, not_not, Fragment.pageFlags, Pte.mk.injEq, invalid, and_true,
        true_and, false_or]

theorem valid_of_pageFlags {f g : Fragment} (same : f.pageFlags = g.pageFlags) :
    f.flags.valid = g.flags.valid := by
  have valid : f.pageFlags.valid = g.pageFlags.valid := congrArg Pte.valid same
  exact valid

theorem contiguous_valid {f g : Fragment} (contiguous : isContiguous f g = some true) :
    f.flags.valid = 0#8 ↔ g.flags.valid = 0#8 := by
  obtain ⟨-, both | ⟨-, same⟩⟩ := (isContiguous_true_iff f g).mp contiguous
  · exact iff_of_true both.1 both.2
  · rw [valid_of_pageFlags same]

theorem contiguous_memory {f g : Fragment} (contiguous : isContiguous f g = some true)
    (valid : f.flags.valid ≠ 0#8) : f.pa + f.size = g.pa ∧ f.pageFlags = g.pageFlags := by
  obtain ⟨-, both | memory⟩ := (isContiguous_true_iff f g).mp contiguous
  · exact absurd both.1 valid
  · exact memory

theorem isContiguous_none_iff (f g : Fragment) :
    isContiguous f g = none ↔ g.va < f.va + f.size := by
  have compare : ∀ (c : Prop) [Decidable c] (rest : Option Bool), rest ≠ none →
      (if c then some false else rest) ≠ none := by
    intro c _ rest some
    split
    · exact Option.some_ne_none _
    · exact some
  unfold isContiguous
  by_cases early : g.va < f.va + f.size
  · exact iff_of_true (if_pos early) early
  · rw [if_neg early]
    refine iff_of_false (compare _ _ ?_) early
    by_cases invalid : f.flags.valid = 0#8 ∧ g.flags.valid = 0#8
    · rw [if_pos invalid]
      exact Option.some_ne_none _
    · rw [if_neg invalid]
      iterate 15 refine compare _ _ ?_
      exact Option.some_ne_none _

theorem fragmentsOverlap_invalid {f g : Fragment}
    (invalid : f.flags.valid = 0#8 ∨ g.flags.valid = 0#8) : fragmentsOverlap f g = false := by
  unfold fragmentsOverlap
  rcases invalid with first | second
  · rw [if_pos first]
  · rw [if_pos second, ite_self]

theorem fragmentsOverlap_iff {f g : Fragment} (next : f.va + f.size = g.va)
    (pos : f.flags.valid ≠ 0#8 → 0 < f.size.toNat)
    (room : f.flags.valid ≠ 0#8 → f.pa.toNat + f.size.toNat < 2 ^ 64)
    (gpos : 0 < g.size.toNat) (groom : g.pa.toNat + g.size.toNat < 2 ^ 64) :
    fragmentsOverlap f g = true ↔ Aliased f g := by
  by_cases invalid : f.flags.valid = 0#8 ∨ g.flags.valid = 0#8
  · rw [fragmentsOverlap_invalid invalid]
    refine iff_of_false Bool.false_ne_true ?_
    rintro ⟨x, inF, inG⟩
    exact invalid.elim inF.1 inG.1
  · obtain ⟨fv, gv⟩ := not_or.mp invalid
    have fpos := pos fv
    have fend : (f.pa + f.size).toNat = f.pa.toNat + f.size.toNat :=
      BitVec.toNat_add_of_lt (room fv)
    have gend : (g.pa + g.size).toNat = g.pa.toNat + g.size.toNat := BitVec.toNat_add_of_lt groom
    have notSame : ¬(f.va = g.va ∧ f.pa = g.pa ∧ f.size = g.size) := by
      rintro ⟨same, -⟩
      have zero : f.size = 0#64 := by
        bv_omega
      rw [zero] at fpos
      exact Nat.lt_irrefl 0 fpos
    have notInside : ¬(f.va ≤ g.va ∧ g.va < f.va + f.size) := by
      rintro ⟨-, inside⟩
      rw [next] at inside
      exact BitVec.lt_irrefl _ inside
    rw [fragmentsOverlap, if_neg fv, if_neg gv, if_neg notSame, if_neg notInside]
    simp only [BitVec.le_def, BitVec.lt_def, fend, gend]
    constructor
    · intro found
      split at found
      · rename_i inF
        exact ⟨g.pa.toNat, ⟨fv, inF⟩, gv, Nat.le_refl _, by omega⟩
      · split at found
        · rename_i inG
          exact ⟨f.pa.toNat, ⟨fv, Nat.le_refl _, by omega⟩, gv, inG⟩
        · cases found
    · rintro ⟨x, ⟨-, fle, flt⟩, -, gle, glt⟩
      by_cases order : f.pa.toNat ≤ g.pa.toNat
      · rw [if_pos ⟨order, by omega⟩]
      · rw [if_neg fun inF => order inF.1, if_pos ⟨by omega, by omega⟩]

/-- The open fragment and the pages it was joined from, the last one first. -/
structure Run (run last : Fragment) (before : List Fragment) : Prop where
  page : IsPage last
  end_va : run.va + run.size = last.va + last.size
  valid : run.flags.valid = 0#8 ↔ last.flags.valid = 0#8
  flags : run.flags.valid ≠ 0#8 → run.pageFlags = last.pageFlags
  pos : run.flags.valid ≠ 0#8 → 0 < run.size.toNat
  end_pa : run.flags.valid ≠ 0#8 →
    run.pa.toNat + run.size.toNat = last.pa.toNat + last.size.toNat
  covers : ∀ x, run.Occupies x ↔ ∃ q ∈ last :: before, q.Occupies x

namespace Run

theorem single {p : Fragment} (page : IsPage p) : Run p p [] where
  page := page
  end_va := rfl
  valid := Iff.rfl
  flags := fun _ => rfl
  pos := fun _ => page.size_pos
  end_pa := fun _ => rfl
  covers := fun x => by simp only [List.mem_singleton, exists_eq_left]

variable {run last : Fragment} {before : List Fragment} (made : Run run last before)
include made

theorem room (valid : run.flags.valid ≠ 0#8) : run.pa.toNat + run.size.toNat ≤ 2 ^ 48 + 2 ^ 43 := by
  have low := made.page.pa_lt
  have le := made.page.size_le
  have same := made.end_pa valid
  omega

theorem overlap_iff {p : Fragment} (page : IsPage p) (next : run.va + run.size = p.va) :
    fragmentsOverlap run p = true ↔ ∃ q ∈ last :: before, Aliased q p := by
  have low := page.pa_lt
  have le := page.size_le
  rw [fragmentsOverlap_iff next made.pos (fun valid => by have := made.room valid; omega)
    page.size_pos (by omega)]
  constructor
  · rintro ⟨x, inRun, inPage⟩
    obtain ⟨q, member, inQ⟩ := (made.covers x).mp inRun
    exact ⟨q, member, x, inQ, inPage⟩
  · rintro ⟨q, member, x, inQ, inPage⟩
    exact ⟨x, (made.covers x).mpr ⟨q, member, inQ⟩, inPage⟩

theorem contiguous_iff (p : Fragment) :
    isContiguous run p = some true ↔ isContiguous last p = some true := by
  by_cases invalid : run.flags.valid = 0#8
  · have lastInvalid := made.valid.mp invalid
    constructor
    · intro contiguous
      have none := (contiguous_valid contiguous).mp invalid
      have next := ((isContiguous_true_iff run p).mp contiguous).1
      exact (isContiguous_true_iff last p).mpr ⟨made.end_va ▸ next, Or.inl ⟨lastInvalid, none⟩⟩
    · intro contiguous
      have none := (contiguous_valid contiguous).mp lastInvalid
      have next := ((isContiguous_true_iff last p).mp contiguous).1
      exact (isContiguous_true_iff run p).mpr ⟨made.end_va.trans next, Or.inl ⟨invalid, none⟩⟩
  · have ends : run.pa + run.size = last.pa + last.size := by
      apply BitVec.eq_of_toNat_eq
      rw [BitVec.toNat_add, BitVec.toNat_add, made.end_pa invalid]
    rw [isContiguous_true_iff, isContiguous_true_iff, made.end_va, made.valid, ends,
      made.flags invalid]

theorem not_contiguous {p : Fragment} (separate : isContiguous run p = some false) :
    isContiguous last p ≠ some true := by
  rw [Ne, ← made.contiguous_iff, separate]
  exact fun same => Bool.noConfusion (Option.some.inj same)

theorem next {p : Fragment} (le : p.va ≤ last.va + last.size)
    (late : isContiguous run p ≠ none) : run.va + run.size = p.va := by
  rw [Ne, isContiguous_none_iff, BitVec.not_lt] at late
  exact BitVec.le_antisymm late (made.end_va ▸ le)

theorem accepted {p : Fragment} (page : IsPage p) (le : p.va ≤ last.va + last.size)
    (apart : fragmentsOverlap run p = false) (late : isContiguous run p ≠ none) :
    last.va + last.size ≤ p.va ∧ ∀ q ∈ last :: before, ¬Aliased q p := by
  have start := made.next le late
  refine ⟨BitVec.le_of_eq (made.end_va ▸ start), fun q member shared => ?_⟩
  rw [(made.overlap_iff page start).mpr ⟨q, member, shared⟩] at apart
  cases apart

theorem join {p : Fragment} (page : IsPage p) (contiguous : isContiguous run p = some true) :
    Run { run with size := run.size + p.size } p (last :: before) := by
  have next := ((isContiguous_true_iff run p).mp contiguous).1
  have valid := contiguous_valid contiguous
  have low := page.pa_lt
  have le := page.size_le
  have pos := page.size_pos
  -- the sizes and the physical ends of a valid run do not wrap
  have ends : run.flags.valid ≠ 0#8 → (run.size + p.size).toNat = run.size.toNat + p.size.toNat ∧
      run.pa.toNat + run.size.toNat = p.pa.toNat := by
    intro used
    have room := made.room used
    have memory := congrArg BitVec.toNat (contiguous_memory contiguous used).1
    rw [BitVec.toNat_add_of_lt (by omega)] at memory
    exact ⟨BitVec.toNat_add_of_lt (by omega), memory⟩
  refine ⟨page, by rw [← BitVec.add_assoc, next], valid,
    fun used => (contiguous_memory contiguous used).2, fun used => ?_, fun used => ?_, fun x => ?_⟩
  · have sizes := ends used
    simp only
    omega
  · have sizes := ends used
    simp only
    omega
  · rw [List.exists_mem_cons_iff, ← made.covers x]
    by_cases invalid : run.flags.valid = 0#8
    · refine iff_of_false (fun inRun => inRun.1 invalid) ?_
      rintro (inPage | inRun)
      · exact inPage.1 (valid.mp invalid)
      · exact inRun.1 invalid
    · have sizes := ends invalid
      have used : p.flags.valid ≠ 0#8 := fun none => invalid (valid.mpr none)
      simp only [Fragment.Occupies, sizes.1, invalid, used, not_false_eq_true, ne_eq, true_and]
      omega

theorem fits {p : Fragment} {ps : List Fragment} (page : IsPage p)
    (contiguous : isContiguous run p = some true) (bytes : invalidBytes (run :: p :: ps) < 2 ^ 64) :
    run.size.toNat + p.size.toNat < 2 ^ 64 ∧
      invalidBytes ({ run with size := run.size + p.size } :: ps) < 2 ^ 64 := by
  have valid := contiguous_valid contiguous
  have le := page.size_le
  simp only [invalidBytes, List.map_cons, List.sum_cons] at bytes ⊢
  by_cases invalid : run.flags.valid = 0#8
  · rw [if_pos invalid, if_pos (valid.mp invalid)] at bytes
    have whole : (run.size + p.size).toNat = run.size.toNat + p.size.toNat :=
      BitVec.toNat_add_of_lt (by omega)
    rw [if_pos invalid, whole]
    omega
  · have room := made.room invalid
    rw [if_neg invalid]
    omega

end Run

section
variable {f g : Fragment}

theorem contains_join (next : f.va + f.size = g.va) (fits : f.size.toNat + g.size.toNat < 2 ^ 64)
    (v : BitVec 64) :
    Fragment.Contains { f with size := f.size + g.size } v ↔ f.Contains v ∨ g.Contains v := by
  have offset : v - g.va = v - f.va - f.size := by
    rw [← next]
    bv_omega
  simp only [Fragment.Contains, offset]
  generalize v - f.va = o
  rw [BitVec.lt_def, BitVec.lt_def, BitVec.lt_def, BitVec.toNat_add_of_lt fits, BitVec.toNat_sub]
  have := o.isLt
  omega

theorem view_join (contiguous : isContiguous f g = some true) (v : BitVec 64) :
    f.view v = g.view v := by
  have next := ((isContiguous_true_iff f g).mp contiguous).1
  have valid := contiguous_valid contiguous
  by_cases invalid : f.flags.valid = 0#8
  · simp only [Fragment.view, invalid, valid.mp invalid, if_true]
  · obtain ⟨memory, flags⟩ := contiguous_memory contiguous invalid
    have same := valid_of_pageFlags flags
    have address : f.pa + (v - f.va) = g.pa + (v - g.va) := by
      rw [← memory, ← next]
      bv_omega
    simp only [Fragment.view, same, address, flags]

theorem lookup_join (contiguous : isContiguous f g = some true)
    (fits : f.size.toNat + g.size.toNat < 2 ^ 64) (rest : List Fragment) (v : BitVec 64) :
    lookup ({ f with size := f.size + g.size } :: rest) v = lookup (f :: g :: rest) v := by
  have next := ((isContiguous_true_iff f g).mp contiguous).1
  have joined := contains_join next fits v
  rw [lookup_cons, lookup_cons, lookup_cons]
  by_cases inF : f.Contains v
  · rw [if_pos (joined.mpr (Or.inl inF)), if_pos inF]
    rfl
  · by_cases inG : g.Contains v
    · rw [if_pos (joined.mpr (Or.inr inG)), if_neg inF, if_pos inG, ← view_join contiguous v]
      rfl
    · rw [if_neg fun either => (joined.mp either).elim inF inG, if_neg inF, if_neg inG]

end

end Rocsift.Xlator
