import Rocsift.Xlator.RangeTiles

/-! Pages outside the range that was asked for. The bytes of a page before its address move the
bound of the loop on, so the loop goes past the end of the range if the page that holds the last
address of the range ends before the bound. -/
namespace Rocsift.Xlator
open Tiling Relation

def Cursor.added (c : Cursor) (size : BitVec 64) : Nat := (c.size - size).toNat

/-- Of a turn inside the range `[lo, hi)` at the address `a`, for a page of `s` bytes that ends at
the end of the range or behind it: the bytes added to the range so far, with those of this page
before `a`, are no more than those of the page behind the range. At the top of the address space,
where the end of the page is 0, they are as many. -/
def StaysInside (lo hi added a s : Nat) : Prop :=
  lo ≤ a → a < hi → hi ≤ a - a % s + s →
    hi + (added + a % s) ≤ a - a % s + s ∧
      (a - a % s + s < 2 ^ 64 ∨ hi + (added + a % s) = a - a % s + s)

instance (lo hi added a s : Nat) : Decidable (StaysInside lo hi added a s) :=
  inferInstanceAs (Decidable (_ → _ → _ → _))

section
variable (mem : Memory) (h : WalkHelper) (va size : BitVec 64)

def StaysFrom (start : Cursor) : Prop :=
  ∀ c, ReflTransGen (Steps mem h va) start c → c.addr < va + c.size →
    ∀ w, ((walkPt h c.cache c.addr).value mem).1 = some w →
      StaysInside va.toNat (va.toNat + size.toNat) (c.added size) c.addr.toNat w.size.toNat

def BoundStays : Prop := StaysFrom mem h va size ⟨PdeCache.cleared, va, size⟩

end

section
variable {mem : Memory} {r : Registers} {va size : BitVec 64} {c c' : Cursor} {p : Fragment}
  {ps : List Fragment}

theorem bound_added (va size : BitVec 64) (c : Cursor) :
    (va + c.size).toNat = (va.toNat + size.toNat + c.added size) % 2 ^ 64 := by
  have split : c.size = size + (c.size - size) := by bv_omega
  unfold Cursor.added
  rw [BitVec.toNat_add]
  nth_rewrite 1 [split]
  rw [BitVec.toNat_add]
  omega

structure Turned (size : BitVec 64) (c c' : Cursor) (p : Fragment) : Prop where
  page : IsPage p
  start : p.va.toNat = c.addr.toNat - c.addr.toNat % p.size.toNat
  address : c'.addr.toNat = (p.va.toNat + p.size.toNat) % 2 ^ 64
  added : c'.added size = (c.added size + c.addr.toNat % p.size.toNat) % 2 ^ 64

theorem turned (walk : c.advance mem (populateWalkHelper r) = some (p, c')) :
    Turned size c c' p := by
  obtain ⟨page, start, next, longer⟩ := advance_page walk
  have le := Nat.mod_le c.addr.toNat p.size.toNat
  have before : (c.addr - p.va).toNat = c.addr.toNat % p.size.toNat := by
    rw [BitVec.toNat_sub_of_le (BitVec.le_def.mpr (start ▸ Nat.sub_le _ _)), start]
    exact Nat.sub_sub_self le
  refine ⟨page, start, by rw [next, BitVec.toNat_add], ?_⟩
  have sum : c'.size - size = c.size - size + (c.addr - p.va) := by
    rw [longer]
    bv_omega
  rw [Cursor.added, sum, BitVec.toNat_add, before]
  rfl

theorem StaysFrom.done {h : WalkHelper} (finished : ¬c.addr < va + c.size) :
    StaysFrom mem h va size c := by
  intro d reached more
  rcases reached.cases_head with rfl | ⟨_, step, -⟩
  · exact absurd more finished
  · exact absurd step.1 finished

theorem StaysFrom.page {h : WalkHelper} (walk : c.advance mem h = some (p, c'))
    (here : StaysInside va.toNat (va.toNat + size.toNat) (c.added size) c.addr.toNat p.size.toNat)
    (later : StaysFrom mem h va size c') : StaysFrom mem h va size c := by
  obtain ⟨w, found, rfl⟩ := advance_walk walk
  intro d reached more w' found'
  rcases reached.cases_head with rfl | ⟨e, ⟨-, q, walk'⟩, reached⟩
  · cases found.symm.trans found'
    exact here
  · cases walk.symm.trans walk'
    exact later d reached more w' found'

theorem StaysFrom.head (all : StaysFrom mem (populateWalkHelper r) va size c)
    (more : c.addr < va + c.size)
    (walk : c.advance mem (populateWalkHelper r) = some (p, c')) :
    StaysInside va.toNat (va.toNat + size.toNat) (c.added size) c.addr.toNat p.size.toNat ∧
      StaysFrom mem (populateWalkHelper r) va size c' := by
  obtain ⟨w, found, rfl⟩ := advance_walk walk
  exact ⟨all c .refl more w found, fun d reached => all d (.head ⟨more, _, walk⟩ reached)⟩

theorem meets_of_stays (fits : va.toNat + size.toNat < 2 ^ 64)
    (walked : Walked mem (populateWalkHelper r) va c ps)
    (inside : c.addr < va + c.size →
      va.toNat ≤ c.addr.toNat ∧ c.addr.toNat < va.toNat + size.toNat)
    (all : StaysFrom mem (populateWalkHelper r) va size c) :
    ∀ p ∈ ps, p.part.Meets va.toNat (va.toNat + size.toNat) := by
  induction walked with
  | done => exact fun _ none => nomatch none
  | @page c c' p ps more walk rest ih =>
    obtain ⟨low, high⟩ := inside more
    obtain ⟨here, later⟩ := all.head more walk
    obtain ⟨page, start, address, added⟩ := @turned mem r size _ _ _ walk
    have positive := page.size_pos
    have below := Nat.mod_lt c.addr.toNat positive
    have le := Nat.mod_le c.addr.toNat p.size.toNat
    have top := page.finish_le
    refine List.forall_mem_cons.mpr ⟨?_, ih (fun more' => ?_) later⟩
    · apply (Part.meets_iff positive (Nat.lt_of_le_of_lt low high)).mpr
      change p.va.toNat < va.toNat + size.toNat ∧ va.toNat < p.va.toNat + p.size.toNat
      omega
    · rw [BitVec.lt_def, bound_added va size c', address, added] at more'
      by_cases finished : va.toNat + size.toNat ≤ p.va.toNat + p.size.toNat
      · obtain ⟨short, last⟩ := here low high (by omega)
        omega
      · omega

theorem more_of_not_stays (turn : Turned size c c' p)
    (wrap : va.toNat + size.toNat + (c.added size + c.addr.toNat % p.size.toNat) < 2 ^ 65)
    (room : va.toNat + size.toNat ≤ p.va.toNat + p.size.toNat → p.va.toNat + p.size.toNat < 2 ^ 64 →
      va.toNat + size.toNat + (c.added size + c.addr.toNat % p.size.toNat) < 2 ^ 64)
    (passes : ¬StaysInside va.toNat (va.toNat + size.toNat) (c.added size) c.addr.toNat
      p.size.toNat) :
    c'.addr < va + c'.size ∧ c.addr.toNat < va.toNat + size.toNat ∧
      va.toNat + size.toNat ≤ p.va.toNat + p.size.toNat := by
  obtain ⟨page, start, address, added⟩ := turn
  have top := page.finish_le
  unfold StaysInside at passes
  simp only [Classical.not_imp, not_and_or, not_or] at passes
  obtain ⟨low, high, finished, passes⟩ := passes
  refine ⟨?_, high, by omega⟩
  rw [BitVec.lt_def, bound_added va size c', address, added]
  omega

theorem not_meets_behind {lo hi : Nat} (along : Along OnBoundary c.addr ps)
    (walked : Walked mem (populateWalkHelper r) va c ps) (more : c.addr < va + c.size)
    (some_range : lo < hi) (meets : ∀ p ∈ ps, p.part.Meets lo hi) :
    c.addr.toNat ≠ 0 ∧ c.addr.toNat < hi := by
  cases walked with
  | done finished => exact absurd more finished
  | @page _ c' p ps _ walk rest =>
    obtain ⟨⟨nonzero, aligned⟩, -⟩ := along
    obtain ⟨page, start, -, -⟩ := advance_page walk
    have shares := meets p List.mem_cons_self
    have begins : p.va.toNat < hi := ((Part.meets_iff page.size_pos some_range).mp shares).1
    omega

theorem stays_of_meets (some_bytes : 0 < size.toNat)
    (walked : Walked mem (populateWalkHelper r) va c ps) (along : Along OnBoundary c.addr ps)
    (room : c.addr < va + c.size → va.toNat + size.toNat + c.added size < 2 ^ 64)
    (meets : ∀ p ∈ ps, p.part.Meets va.toNat (va.toNat + size.toNat)) :
    StaysFrom mem (populateWalkHelper r) va size c := by
  induction walked with
  | done finished => exact .done finished
  | @page c c' p ps more walk rest ih =>
    obtain ⟨⟨nonzero, aligned⟩, later⟩ := along
    obtain ⟨-, meets_later⟩ := List.forall_mem_cons.mp meets
    have bound := room more
    have turn := @turned mem r size _ _ _ walk
    have start := turn.start
    have top := turn.page.finish_le
    have added := turn.added
    obtain ⟨-, -, next, -⟩ := advance_page walk
    rw [← next] at later
    rw [aligned, Nat.add_zero, Nat.mod_eq_of_lt (by omega)] at added
    refine .page walk ?_ (ih later (fun _ => added ▸ bound) meets_later)
    by_contra passes
    obtain ⟨again, high, far⟩ := more_of_not_stays turn (by omega) (fun _ _ => by omega) passes
    have stop := not_meets_behind later rest again (by omega) meets_later
    have address := turn.address
    omega

end

/-- The pages of the list have bytes of the range if no turn moves the bound past the page in which
the range ends, and only then where each page begins at the end of the one before it. -/
theorem meets_range (mem : Memory) (r : Registers) (va size : BitVec 64) (fs : List Fragment)
    (some_bytes : 0 < size.toNat) (fits : va.toNat + size.toNat < 2 ^ 64)
    (ends : siftXlatorTranslateRange mem r va size false (.list fs)) :
    (BoundStays mem (populateWalkHelper r) va size →
      ∀ f ∈ fs, f.part.Meets va.toNat (va.toNat + size.toNat)) ∧
    (LaterTurns mem (populateWalkHelper r) va size OnBoundary →
      (∀ f ∈ fs, f.part.Meets va.toNat (va.toNat + size.toNat)) →
        BoundStays mem (populateWalkHelper r) va size) := by
  have more : va < va + size := by
    rw [BitVec.lt_def, BitVec.toNat_add_of_lt fits]
    omega
  obtain ⟨p, c, ps, rfl, walk, rest, turns⟩ := range_pages more ends
  have turn := @turned mem r size _ _ _ walk
  have start := turn.start
  have address := turn.address
  have added := turn.added
  have top := turn.page.finish_le
  have none_added : Cursor.added ⟨PdeCache.cleared, va, size⟩ size = 0 := by
    rw [Cursor.added, BitVec.sub_self]
    rfl
  have below := Nat.mod_lt va.toNat turn.page.size_pos
  have le := Nat.mod_le va.toNat p.size.toNat
  simp only [none_added] at start added
  constructor
  · exact meets_of_stays fits (.page more walk rest) fun _ => ⟨Nat.le_refl _, by simp only; omega⟩
  · intro later meets
    have along := (turns _).mp later
    obtain ⟨-, meets_later⟩ := List.forall_mem_cons.mp meets
    have behind := stays_of_meets some_bytes rest along (fun again => by
      have nonzero := (not_meets_behind along rest again (by omega) meets_later).1
      rw [BitVec.lt_def, bound_added va size c, address, added] at again
      omega) meets_later
    refine .page walk ?_ behind
    by_contra passes
    have next := turn.page.next_le
    obtain ⟨again, -, far⟩ := more_of_not_stays turn (by simp only [none_added]; omega)
      (fun far top => by simp only [none_added]; omega) passes
    have stop := not_meets_behind along rest again (by omega) meets_later
    omega

theorem meets_range_halves :
    let mem := systemMemory
      [(0x5000#64, 0x6003#64), (0x6008#64, 0x9003#64), (0x6010#64, 0xa003#64)]
    let r := oneDirectory 0x5003#32
    let gs := [smallPage 0x1000#64 0x9003#64, smallPage 0x2000#64 0xa003#64]
    siftXlatorTranslateRange mem r 0x1800#64 0x1000#64 false (.list gs) ∧
      ∀ f ∈ gs, f.part.Meets 0x1800 0x2800 := by
  intro mem r gs
  have ends : siftXlatorTranslateRange mem r 0x1800#64 0x1000#64 false (.list gs) :=
    ⟨3, by decide +kernel⟩
  let turn (c : Cursor) := (c.advance mem (populateWalkHelper r)).getD (Fragment.cleared, c)
  have walk {c : Cursor} (found : (c.advance mem (populateWalkHelper r)).isSome = true) :
      c.advance mem (populateWalkHelper r) = some ((turn c).1, (turn c).2) :=
    (Option.getD_of_ne_none (Option.isSome_iff_ne_none.mp found) _).symm
  refine ⟨ends, (meets_range mem r _ _ gs (by decide) (by decide) ends).1 ?_⟩
  refine .page (walk ?_) ?_ (.page (walk ?_) ?_ (.done ?_))
  · decide +kernel
  · decide +kernel
  · decide +kernel
  · decide +kernel
  · decide +kernel

/-- The second half of a page: its first half moves the bound to the end of the next page, which
is walked and returned. -/
theorem page_behind_range :
    let mem := systemMemory
      [(0x5000#64, 0x6003#64), (0x6008#64, 0x9003#64), (0x6010#64, 0xa003#64)]
    let r := oneDirectory 0x5003#32
    let gs := [smallPage 0x1000#64 0x9003#64, smallPage 0x2000#64 0xa003#64]
    siftXlatorTranslateRange mem r 0x1800#64 0x800#64 false (.list gs) ∧
      ¬∀ f ∈ gs, f.part.Meets 0x1800 0x2000 := by
  intro mem r gs
  refine ⟨⟨3, by decide +kernel⟩, fun meets => ?_⟩
  have second := meets _ (List.mem_cons_of_mem _ List.mem_cons_self)
  have before := ((Part.meets_iff (by decide) (by decide)).mp second).1
  exact absurd before (by decide)

end Rocsift.Xlator
