import Rocsift.Xlator.Range

/-! The pages that the walks of a range give, and the map that a list of fragments stands for. -/
namespace Rocsift.Xlator

/-- A walked page: aligned to its own size, which is a power of two. -/
structure IsPage (p : Fragment) : Prop where
  size : ∃ k, 12 ≤ k ∧ k ≤ 43 ∧ p.size.toNat = 2 ^ k
  aligned : p.va.toNat % p.size.toNat = 0
  pa_lt : p.pa.toNat < 2 ^ 48
  base : p.pa = p.flags.base_address

theorem IsPage.size_pos {p : Fragment} (page : IsPage p) : 0 < p.size.toNat := by
  obtain ⟨k, _, _, power⟩ := page.size
  rw [power]
  exact Nat.two_pow_pos k

theorem IsPage.size_le {p : Fragment} (page : IsPage p) : p.size.toNat ≤ 2 ^ 43 := by
  obtain ⟨k, _, le, power⟩ := page.size
  rw [power]
  exact Nat.pow_le_pow_right (by decide) le

theorem IsPage.finish_le {p : Fragment} (page : IsPage p) : p.va.toNat + p.size.toNat ≤ 2 ^ 64 := by
  obtain ⟨k, _, le, power⟩ := page.size
  obtain ⟨n, start⟩ := Nat.dvd_of_mod_eq_zero page.aligned
  obtain ⟨m, whole⟩ : 2 ^ k ∣ 2 ^ 64 := Nat.pow_dvd_pow 2 (by omega)
  have below := p.va.isLt
  rw [start, power] at below ⊢
  have less : n < m := Nat.lt_of_mul_lt_mul_left (whole ▸ below)
  calc 2 ^ k * n + 2 ^ k = 2 ^ k * (n + 1) := (Nat.mul_succ _ _).symm
    _ ≤ 2 ^ k * m := Nat.mul_le_mul_left _ less
    _ = 2 ^ 64 := whole.symm

theorem IsPage.next_le {p : Fragment} (page : IsPage p)
    (below : p.va.toNat + p.size.toNat < 2 ^ 64) :
    p.va.toNat + p.size.toNat + p.size.toNat ≤ 2 ^ 64 := by
  have start : (p.va + p.size).toNat = p.va.toNat + p.size.toNat := BitVec.toNat_add_of_lt below
  have next : IsPage { p with va := p.va + p.size } := by
    refine ⟨page.size, ?_, page.pa_lt, page.base⟩
    simp only [start, Nat.add_mod_right, page.aligned]
  exact start ▸ next.finish_le

theorem contains_offset {p : Fragment} (page : IsPage p) {v : BitVec 64}
    (inside : v - p.va < p.size) : v &&& (p.size - 1#64) = v - p.va := by
  obtain ⟨k, _, _, power⟩ := page.size
  have divides : 2 ^ k ∣ 2 ^ 64 := Nat.pow_dvd_pow 2 (by omega)
  have whole : v.toNat = (p.va.toNat + (v - p.va).toNat) % 2 ^ 64 := by
    rw [← BitVec.toNat_add, BitVec.add_comm, BitVec.sub_add_cancel]
  apply BitVec.eq_of_toNat_eq
  rw [BitField.and_pred_toNat power, whole, Nat.mod_mod_of_dvd _ divides, ← power, Nat.add_mod,
    page.aligned, Nat.zero_add, Nat.mod_mod, Nat.mod_eq_of_lt (BitVec.lt_def.mp inside)]

theorem advance_page {mem : Memory} {r : Registers} {c c' : Cursor} {p : Fragment}
    (walk : c.advance mem (populateWalkHelper r) = some (p, c')) :
    IsPage p ∧ p.va.toNat = c.addr.toNat - c.addr.toNat % p.size.toNat ∧
      c'.addr = p.va + p.size ∧ c'.size = c.size + (c.addr - p.va) := by
  unfold Cursor.advance at walk
  cases found : ((walkPt (populateWalkHelper r) c.cache c.addr).value mem).1 with
  | none =>
    simp only [found] at walk
    cases walk
  | some w =>
    simp only [found, Option.some.injEq, Prod.mk.injEq] at walk
    obtain ⟨rfl, rfl⟩ := walk
    have sound := walkWith_sound cachedFetch r found
    obtain ⟨k, low, high, power⟩ := sound.size
    have offset : (c.addr &&& w.mask).toNat = c.addr.toNat % w.size.toNat := by
      rw [sound.mask, BitField.and_pred_toNat power, power]
    have start : (pageOf c.addr w).va.toNat = c.addr.toNat - c.addr.toNat % w.size.toNat := by
      have le : c.addr &&& w.mask ≤ c.addr := by
        rw [BitVec.le_def, offset]
        exact Nat.mod_le _ _
      rw [pageOf, BitField.and_not_eq_sub, BitVec.toNat_sub_of_le le, offset]
    refine ⟨⟨⟨k, low, high, power⟩, ?_, sound.base, rfl⟩, start, rfl, ?_⟩
    · rw [start]
      exact Nat.mod_eq_zero_of_dvd (Nat.dvd_sub_mod _)
    · simp only
      split
      · rfl
      · rename_i same
        rw [← not_not.mp same, BitVec.sub_self, BitVec.add_zero]

def Laid : BitVec 64 → List Fragment → Prop
  | _, [] => True
  | addr, p :: ps => (IsPage p ∧ p.va ≤ addr) ∧ Laid (p.va + p.size) ps

theorem laid_pages {addr : BitVec 64} {ps : List Fragment} (laid : Laid addr ps) :
    ∀ p ∈ ps, IsPage p := by
  induction ps generalizing addr with
  | nil => exact fun _ none => nomatch none
  | cons p ps ih => exact List.forall_mem_cons.mpr ⟨laid.1.1, ih laid.2⟩

theorem walked_laid {mem : Memory} {r : Registers} {va : BitVec 64} {c : Cursor}
    {ps : List Fragment} (walked : Walked mem (populateWalkHelper r) va c ps) :
    Laid c.addr ps := by
  induction walked with
  | done => trivial
  | page more walk rest ih =>
    obtain ⟨page, start, next, _⟩ := advance_page walk
    refine ⟨⟨page, ?_⟩, next ▸ ih⟩
    rw [BitVec.le_def, start]
    exact Nat.sub_le _ _

def smallPage (va raw : BitVec 64) : Fragment :=
  ⟨va, (getPteFields raw).base_address, 0x1000#64, getPteFields raw⟩

def Fragment.Contains (f : Fragment) (v : BitVec 64) : Prop := v - f.va < f.size

instance (f : Fragment) (v : BitVec 64) : Decidable (f.Contains v) :=
  inferInstanceAs (Decidable (_ < _))

def Fragment.pageFlags (f : Fragment) : Pte := { f.flags with base_address := 0#64 }

/-- What a fragment says of an address in it: the valid flag, and when it is set the physical
address and the flags. -/
def Fragment.view (f : Fragment) (v : BitVec 64) : BitVec 8 × Option (BitVec 64 × Pte) :=
  (f.flags.valid,
    if f.flags.valid = 0#8 then none else some (f.pa + (v - f.va), f.pageFlags))

def lookup (fs : List Fragment) (v : BitVec 64) : Option (BitVec 8 × Option (BitVec 64 × Pte)) :=
  (fs.find? (·.Contains v)).map (·.view v)

def invalidBytes (fs : List Fragment) : Nat :=
  (fs.map fun f => if f.flags.valid = 0#8 then f.size.toNat else 0).sum

theorem lookup_cons (f : Fragment) (fs : List Fragment) (v : BitVec 64) :
    lookup (f :: fs) v = if f.Contains v then some (f.view v) else lookup fs v := by
  rw [lookup, List.find?_cons]
  split
  · rename_i inside
    rw [if_pos (of_decide_eq_true inside)]
    rfl
  · rename_i outside
    rw [if_neg (of_decide_eq_false outside)]
    rfl

end Rocsift.Xlator
