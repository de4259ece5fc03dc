import Mathlib.Logic.Function.Basic
import Rocsift.Xlator.PageTree

/-! One entry of the tables written. An entry that no other slot of the tables shares maps the block
of offsets that its slot selects, and nothing else of the range. -/
namespace Rocsift.Xlator

/-- The slots on the path of an offset: those of the tables, by level, and the one that a
page-table entry is followed further to. -/
inductive Slot where
  | table (level : Nat)
  | further
  deriving DecidableEq

def furtherPath (mem : Memory) (pde : Pde) (raw : BitVec 64) (n : Nat) :
    List (Slot × EntryAddr) :=
  match pageEntry mem pde raw with
  | .leaf _ => []
  | .table unit count _ => [(.further, furtherPlace raw (n / unit % count))]

def digitAt (r : Registers) (n level : Nat) : Nat :=
  n / 2 ^ levelBits (populateWalkHelper r) level %
    (if level = (populateWalkHelper r).pt_depth then topEntries r else 512)

def path (mem : Memory) (r : Registers) (n : Nat) : Nat → BitVec 64 → List (Slot × EntryAddr)
  | 0, raw =>
    if (getPdeFields raw).pte ≠ 0#8 then []
    else
      let e := tablePlace (populateWalkHelper r) (getPdeFields raw) (digitAt r n 0)
      (.table 0, e) :: furtherPath mem (getPdeFields raw) (mem e) n
  | level + 1, raw =>
    if (getPdeFields raw).pte ≠ 0#8 then []
    else
      let e := tablePlace (populateWalkHelper r) (getPdeFields raw) (digitAt r n (level + 1))
      (.table (level + 1), e) :: path mem r n level (mem e)

def pathOf (mem : Memory) (r : Registers) (n : Nat) : List (Slot × EntryAddr) :=
  path mem r n (populateWalkHelper r).pt_depth (populateWalkHelper r).pt_base_addr

def Memory.write (mem : Memory) (e : EntryAddr) (v : BitVec 64) : Memory :=
  Function.update mem e v

def SameBlock (r : Registers) (level n n' : Nat) : Prop :=
  n / 2 ^ levelBits (populateWalkHelper r) level =
    n' / 2 ^ levelBits (populateWalkHelper r) level

/-- The entry is in the slot of the level on the path of an offset, and in no other slot. -/
structure OwnSlot (mem : Memory) (r : Registers) (n level : Nat) (e : EntryAddr) : Prop where
  met : (.table level, e) ∈ pathOf mem r n
  alone : ∀ n' < rangeBytes r, ∀ slot, (slot, e) ∈ pathOf mem r n' →
    slot = .table level ∧ SameBlock r level n n'

def EndsWalk (level : Nat) (raw : BitVec 64) : Prop :=
  if level = 0 then (getPteFields raw).valid = 0#8 ∨ (getPteFields raw).translate_further = 0#8
  else (getPdeFields raw).pte ≠ 0#8

instance (level : Nat) (raw : BitVec 64) : Decidable (EndsWalk level raw) :=
  inferInstanceAs (Decidable (ite _ (_ ∨ _) (_ ≠ _)))

section
variable {mem : Memory} {r : Registers} {n : Nat} {e : EntryAddr} {v : BitVec 64}

theorem write_other {e' : EntryAddr} (other : e' ≠ e) : mem.write e v e' = mem e' := by
  simp only [Memory.write, Function.update_of_ne other]

theorem write_here : mem.write e v e = v := by
  simp only [Memory.write, Function.update_self]

theorem lookup_digit (level : Nat) (parts : Nat → PageTree) :
    (levelTable r level parts).lookup n = (parts (digitAt r n level)).lookup n := rfl

theorem pageEntry_write {pde : Pde} {raw : BitVec 64}
    (missed : ∀ slot, (slot, e) ∉ furtherPath mem pde raw n) :
    (pageEntry (mem.write e v) pde raw).lookup n = (pageEntry mem pde raw).lookup n := by
  unfold furtherPath at missed
  unfold pageEntry at *
  simp only [] at *
  split
  · rename_i further
    rw [if_pos further] at missed
    split
    · rfl
    · rename_i native
      rw [if_neg native] at missed
      rw [DigitTree.lookup_table, DigitTree.lookup_table]
      have other := fun same => missed .further (List.mem_singleton.mpr (Prod.ext rfl same))
      rw [write_other (Ne.symm other)]
  · rfl

theorem directory_write {level : Nat} {raw : BitVec 64}
    (missed : ∀ slot, (slot, e) ∉ path mem r n level raw) :
    (directory (mem.write e v) r level raw).lookup n = (directory mem r level raw).lookup n := by
  induction level generalizing raw with
  | zero =>
    rw [path] at missed
    rw [directory, directory]
    split
    · rfl
    · rename_i table
      simp only [if_neg table, List.mem_cons, not_or] at missed
      have other := fun same => (missed (.table 0)).1 (Prod.ext rfl same)
      rw [lookup_digit, lookup_digit, write_other (Ne.symm other)]
      exact pageEntry_write fun slot => (missed slot).2
  | succ level ih =>
    rw [path] at missed
    rw [directory, directory]
    split
    · rfl
    · rename_i table
      simp only [if_neg table, List.mem_cons, not_or] at missed
      have other := fun same => (missed (.table (level + 1))).1 (Prod.ext rfl same)
      rw [lookup_digit, lookup_digit, write_other (Ne.symm other)]
      exact ih fun slot => (missed slot).2

theorem furtherPath_slot {pde : Pde} {raw : BitVec 64} {slot : Slot}
    (met : (slot, e) ∈ furtherPath mem pde raw n) : slot = .further := by
  unfold furtherPath at met
  split at met
  · cases met
  · exact congrArg Prod.fst (List.mem_singleton.mp met)

theorem path_le {level level' : Nat} {raw : BitVec 64}
    (met : (.table level, e) ∈ path mem r n level' raw) : level ≤ level' := by
  induction level' generalizing raw with
  | zero =>
    rw [path] at met
    split at met
    · cases met
    · rcases List.mem_cons.mp met with same | further
      · cases same
        exact Nat.le_refl 0
      · cases furtherPath_slot further
  | succ level' ih =>
    rw [path] at met
    split at met
    · cases met
    · rcases List.mem_cons.mp met with same | below
      · cases same
        exact Nat.le_refl _
      · exact Nat.le_succ_of_le (ih below)

theorem path_congr {n' level level' : Nat} {raw : BitVec 64}
    (same : ∀ i, level ≤ i → i ≤ level' → digitAt r n i = digitAt r n' i)
    (met : (.table level, e) ∈ path mem r n level' raw) :
    (.table level, e) ∈ path mem r n' level' raw := by
  have le := path_le met
  induction level' generalizing raw with
  | zero =>
    rw [path] at met ⊢
    rw [same 0 le (Nat.le_refl 0)] at met
    split at met
    · cases met
    · rename_i table
      rw [if_neg table]
      rcases List.mem_cons.mp met with here | further
      · exact List.mem_cons.mpr (Or.inl here)
      · cases furtherPath_slot further
  | succ level' ih =>
    rw [path] at met ⊢
    rw [same (level' + 1) le (Nat.le_refl _)] at met
    split at met
    · cases met
    · rename_i table
      rw [if_neg table]
      rcases List.mem_cons.mp met with here | below
      · exact List.mem_cons.mpr (Or.inl here)
      · exact List.mem_cons_of_mem _ (ih (fun i above le => same i above (Nat.le_succ_of_le le))
          below (path_le below))

theorem pageEntry_page {pde : Pde} (page : EndsWalk 0 v) :
    ∃ bits, (pageEntry mem pde v).lookup n = some ⟨getPteFields v, bits⟩ := by
  unfold pageEntry
  rw [EndsWalk, if_pos rfl] at page
  have ends : ¬((getPteFields v).valid ≠ 0#8 ∧ (getPteFields v).translate_further ≠ 0#8) :=
    fun further => page.elim further.1 further.2
  exact ⟨_, congrArg (DigitTree.lookup · n) (if_neg ends)⟩

theorem directory_page {level level' : Nat} {raw : BitVec 64} (page : EndsWalk level v)
    (met : (.table level, e) ∈ path mem r n level' raw)
    (alone : ∀ slot, (slot, e) ∈ path mem r n level' raw → slot = .table level) :
    ∃ bits, (directory (mem.write e v) r level' raw).lookup n = some ⟨getPteFields v, bits⟩ := by
  induction level' generalizing raw with
  | zero =>
    rw [path] at met alone
    rw [directory]
    split
    · rename_i is_pte
      rw [if_pos is_pte] at met
      cases met
    · rename_i table
      simp only [if_neg table] at met alone
      rw [lookup_digit]
      rcases List.mem_cons.mp met with same | further
      · cases same
        rw [write_here]
        exact pageEntry_page page
      · cases furtherPath_slot further
  | succ level' ih =>
    rw [path] at met alone
    rw [directory]
    split
    · rename_i is_pte
      rw [if_pos is_pte] at met
      cases met
    · rename_i table
      simp only [if_neg table] at met alone
      rw [lookup_digit]
      rcases List.mem_cons.mp met with same | below
      · cases same
        rw [EndsWalk, if_neg (Nat.succ_ne_zero level')] at page
        rw [write_here, directory_leaf _ r page]
        exact ⟨_, rfl⟩
      · have other : tablePlace (populateWalkHelper r) (getPdeFields raw)
            (digitAt r n (level' + 1)) ≠ e := by
          intro same
          have here := alone (.table (level' + 1)) (List.mem_cons.mpr (Or.inl (by rw [same])))
          have le := path_le below
          cases here
          omega
        rw [write_other other]
        exact ih below fun slot there => alone slot (List.mem_cons_of_mem _ there)

theorem SameBlock.digits {n' level : Nat} (same : SameBlock r level n n') {i : Nat}
    (above : level ≤ i) : digitAt r n i = digitAt r n' i := by
  have le := levelBits_le (populateWalkHelper r) above
  have scaled : ∀ x : Nat, x / 2 ^ levelBits (populateWalkHelper r) i =
      x / 2 ^ levelBits (populateWalkHelper r) level /
        2 ^ (levelBits (populateWalkHelper r) i - levelBits (populateWalkHelper r) level) := by
    intro x
    rw [Nat.div_div_eq_div_mul, ← Nat.pow_add, Nat.add_sub_cancel' le]
  unfold SameBlock at same
  unfold digitAt
  rw [scaled n, scaled n', same]

end

/-- The page is what the walks of its block find, and all other walks in the range are as they
were. -/
structure MapsBlock (mem mem' : Memory) (r : Registers) (n level : Nat) (v : BitVec 64) :
    Prop where
  block : ∀ va, InRange r va → SameBlock r level n (fromStart r va) →
    ∃ w, walkMemory (populateWalkHelper r) mem' va = some w ∧ w.pte = getPteFields v
  frame : ∀ va, InRange r va → ¬SameBlock r level n (fromStart r va) →
    walkMemory (populateWalkHelper r) mem' va = walkMemory (populateWalkHelper r) mem va

theorem page_written (mem : Memory) (r : Registers) (k : Nat) (range : PowerRange r k)
    (n level : Nat) (e : EntryAddr) (own : OwnSlot mem r n level e) (v : BitVec 64)
    (page : EndsWalk level v) : MapsBlock mem (mem.write e v) r n level v := by
  have bytes : ∀ va, InRange r va → fromStart r va < rangeBytes r :=
    fun va inside => range.bytes ▸ fromStart_lt range inside
  constructor
  · intro va inside same
    have met := path_congr (fun i above _ => same.digits above) own.met
    obtain ⟨bits, found⟩ := directory_page page met
      fun slot there => (own.alone _ (bytes va inside) slot there).1
    refine ⟨Page.results ⟨getPteFields v, bits⟩, ?_, rfl⟩
    rw [walkMemory_lookup _ range inside, pageTree, found]
    rfl
  · intro va inside other
    have missed : ∀ slot, (slot, e) ∉ pathOf mem r (fromStart r va) :=
      fun slot there => other (own.alone _ (bytes va inside) slot there).2
    rw [walkMemory_lookup _ range inside, walkMemory_lookup _ range inside, pageTree,
      directory_write missed]
    rfl

theorem furtherPath_page (mem : Memory) (pde : Pde) {raw : BitVec 64} (page : EndsWalk 0 raw)
    (n : Nat) : furtherPath mem pde raw n = [] := by
  rw [EndsWalk, if_pos rfl] at page
  have ends : ¬((getPteFields raw).valid ≠ 0#8 ∧ (getPteFields raw).translate_further ≠ 0#8) :=
    fun further => page.elim further.1 further.2
  unfold furtherPath pageEntry
  simp only [if_neg ends]

theorem page_written_again :
    let mem := systemMemory [(0x5000#64, 0x6003#64), (0x6008#64, 0x9003#64)]
    MapsBlock mem (mem.write ⟨true, 0x6008#64⟩ 0xa003#64) (oneDirectory 0x5003#32) 0x1000 0
      0xa003#64 := by
  intro mem
  let h := populateWalkHelper (oneDirectory 0x5003#32)
  have directory : ∀ d < 512, tablePlace h (getPdeFields 0x5003#64) d ≠ ⟨true, 0x6008#64⟩ ∧
      (d ≠ 0 → mem (tablePlace h (getPdeFields 0x5003#64) d) = 0#64) := by decide +kernel
  have table : ∀ d < 512, tablePlace h (getPdeFields 0x6003#64) d = ⟨true, 0x6008#64⟩ → d = 1 := by
    decide +kernel
  have unmapped : ∀ d, tablePlace h (getPdeFields 0#64) d ≠ ⟨true, 0x6008#64⟩ := by
    intro d same
    have system : decide ((getPdeFields 0#64).system ≠ 0#8) = true :=
      congrArg EntryAddr.system same
    exact absurd system (by decide)
  have entries : ∀ e, EndsWalk 0 (mem e) ∧ (getPdeFields (mem e)).pte = 0#8 := by
    intro e
    simp only [mem, systemMemory, List.find?]
    split
    · split
      · decide
      · split <;> decide
    · decide
  refine page_written mem _ 9 ⟨by decide, by decide, by decide⟩ 0x1000 0 _ ⟨by decide +kernel, ?_⟩ _
    (by decide)
  intro n' less slot met
  have bytes : rangeBytes (oneDirectory 0x5003#32) = 2 ^ 30 := by decide
  have depth : h.pt_depth = 1 := by decide
  have base : h.pt_base_addr = 0x5003#64 := by decide
  have is_table : ¬(getPdeFields 0x5003#64).pte ≠ 0#8 := by decide
  simp only [pathOf, h, depth, base, path, if_neg is_table, if_neg (not_not.mpr (entries _).2),
    furtherPath_page _ _ (entries _).1, List.mem_cons, List.not_mem_nil, or_false] at met
  have high : digitAt (oneDirectory 0x5003#32) n' 1 = n' / 2 ^ 21 % 512 := rfl
  have low : digitAt (oneDirectory 0x5003#32) n' 0 = n' / 2 ^ 12 % 512 := rfl
  rw [high, low] at met
  have first := directory (n' / 2 ^ 21 % 512) (Nat.mod_lt _ (by decide))
  rcases met with here | here
  · exact absurd (congrArg Prod.snd here).symm first.1
  · obtain ⟨rfl, place⟩ := Prod.mk.inj here
    by_cases zero : n' / 2 ^ 21 % 512 = 0
    · have points : mem (tablePlace h (getPdeFields 0x5003#64) 0) = 0x6003#64 := by decide +kernel
      rw [zero, points] at place
      have one := table _ (Nat.mod_lt _ (by decide)) place.symm
      refine ⟨rfl, ?_⟩
      change 0x1000 / 2 ^ 12 = n' / 2 ^ 12
      omega
    · rw [first.2 zero] at place
      exact absurd place.symm (unmapped _)

end Rocsift.Xlator
