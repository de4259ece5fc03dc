import Rocsift.Cmd.ReadMem
import Rocsift.Xlator.Coverage

/-! Reads of virtual ranges through combined fragments. The offset into a fragment is taken by a
mask and put in by an or, as if its size were a power of two and both its ends were aligned to
it; a joined fragment has neither. -/
namespace Rocsift.Cmd
open Looping Xlator

/-- The masks and ors come out right from `v` on, with so many bytes left: at each fragment the
read comes to, the physical address is that of the offset in the fragment, and either the mask
gives that offset, or both leave room for the bytes that are left. -/
def Straight : List Fragment → BitVec 64 → Nat → Prop
  | [], _, _ => True
  | f :: fs, v, left =>
    let low := v &&& (f.size - 1#64)
    let offset := v - f.va
    left = 0 ∨ (f.pa ||| low = f.pa + offset ∧
      ((low = offset ∧ Straight fs (f.va + f.size) (left - (f.size.toNat - offset.toNat))) ∨
        (left ≤ (f.size - low).toNat ∧ left ≤ f.size.toNat - offset.toNat)))

def lead (va : BitVec 64) : List Fragment → Nat
  | [] => 0
  | p :: _ => (va - p.va).toNat

/-- The pages of a range stand where its addresses are mapped: the adjusted range does not wrap,
and an address of the range in a page has the leaf of the page. -/
structure Placed (mem : Memory) (r : Registers) (va size : BitVec 64) (ps : List Fragment) :
    Prop where
  room : va.toNat + size.toNat + lead va ps < 2 ^ 64
  leaves : ∀ p ∈ ps, ∀ i < size.toNat, p.Contains (va + BitVec.ofNat 64 i) →
    (walkMemory (populateWalkHelper r) mem (va + BitVec.ofNat 64 i)).map
      (fun w => (w.pte, w.size)) = some (p.flags, p.size)

theorem strip_head_pos {va : BitVec 64} {n : Nat} {fs : List Fragment} (strip : Strip va n fs)
    (some : n ≠ 0) {f : Fragment} (first : f ∈ fs.head?) : 0 < f.size.toNat := by
  cases fs with
  | nil => cases first
  | cons g fs =>
    cases Option.some.inj first
    exact (strip.resolve_left some).1.2.2

theorem readFragments_none_left (read : PartitionRead) (fuel : Nat) (fs : List Fragment)
    (v : BitVec 64) (written : List Byte) :
    readFragments read fuel fs v 0#64 written = some (written, .ok) := by
  cases fs <;> rfl

def Shows (bytes : Bool → BitVec 64 → Byte) (mapped : BitVec 64 → Byte) (v : BitVec 64) (n : Nat)
    (f : Fragment) : Prop :=
  ∀ i < n, f.Contains (v + BitVec.ofNat 64 i) → mapped (v + BitVec.ofNat 64 i) =
    bytes (decide (f.flags.system ≠ 0#8)) (f.pa + (v + BitVec.ofNat 64 i - f.va))

section
variable {bytes : Bool → BitVec 64 → Byte} {mapped : BitVec 64 → Byte} {fuel : Nat}

theorem Shows.shift {v : BitVec 64} {m n k : Nat} {f : Fragment} (shows : Shows bytes mapped v k f)
    (whole : k = m + n) : Shows bytes mapped (v + BitVec.ofNat 64 m) n f := by
  intro i less inside
  have shifted : v + BitVec.ofNat 64 m + BitVec.ofNat 64 i = v + BitVec.ofNat 64 (m + i) := by
    rw [BitVec.ofNat_add, BitVec.add_assoc]
  rw [shifted] at inside ⊢
  exact shows (m + i) (by omega) inside

theorem chunk_mapped {f : Fragment} {v : BitVec 64} {n k : Nat} {phys : BitVec 64}
    (address : phys = f.pa + (v - f.va)) (within : n ≤ f.size.toNat - (v - f.va).toNat)
    (shows : Shows bytes mapped v k f) (le : n ≤ k) :
    bytesFrom (bytes (decide (f.flags.system ≠ 0#8))) phys n = bytesFrom mapped v n := by
  refine List.map_congr_left fun i member => ?_
  have less := List.mem_range.mp member
  have offset : v + BitVec.ofNat 64 i - f.va = v - f.va + BitVec.ofNat 64 i := by bv_omega
  have inside : f.Contains (v + BitVec.ofNat 64 i) := by
    have := f.size.isLt
    rw [Fragment.Contains, offset, BitVec.lt_def, BitVec.toNat_add, BitVec.toNat_ofNat]
    omega
  rw [shows i (by omega) inside, address, offset, BitVec.add_assoc]

theorem readFragments_cons {f : Fragment} (fs : List Fragment) {v left n : BitVec 64}
    (written : List Byte) (some : left ≠ 0#64) (valid : f.flags.valid ≠ 0#8)
    (enough : left.toNat < fuel)
    (chosen : n = if left < f.size - (v &&& (f.size - 1#64)) then left
      else f.size - (v &&& (f.size - 1#64))) :
    readFragments (exactRead bytes) fuel (f :: fs) v left written =
      readFragments (exactRead bytes) fuel fs (v + n) (left - n)
        (written ++ bytesFrom (bytes (decide (f.flags.system ≠ 0#8)))
          (f.pa ||| (v &&& (f.size - 1#64))) n.toNat) := by
  have le : n.toNat ≤ left.toNat := by
    rw [chosen]
    split
    · exact Nat.le_refl _
    · rename_i order
      exact BitVec.le_def.mp (BitVec.not_lt.mp order)
  simp only [readFragments, if_neg some, if_neg valid, ← chosen]
  rw [readPhysAddr_exact _ _ _ _ (Nat.lt_of_le_of_lt le enough)]

section
variable {f : Fragment} (fs : List Fragment) {v left : BitVec 64} (written : List Byte)
  (some : left ≠ 0#64) (valid : f.flags.valid ≠ 0#8) (enough : left.toNat < fuel)
  (address : f.pa ||| (v &&& (f.size - 1#64)) = f.pa + (v - f.va))
  (shows : Shows bytes mapped v left.toNat f)
include some valid enough address shows

theorem readFragments_last (room : left.toNat ≤ (f.size - (v &&& (f.size - 1#64))).toNat)
    (within : left.toNat ≤ f.size.toNat - (v - f.va).toNat) :
    readFragments (exactRead bytes) fuel (f :: fs) v left written =
      Option.some (written ++ bytesFrom mapped v left.toNat, .ok) := by
  have chosen : left = if left < f.size - (v &&& (f.size - 1#64)) then left
      else f.size - (v &&& (f.size - 1#64)) := by
    split
    · rfl
    · rename_i order
      exact BitVec.le_antisymm (BitVec.le_def.mpr room) (BitVec.not_lt.mp order)
  rw [readFragments_cons fs written some valid enough chosen, BitVec.sub_self,
    readFragments_none_left, chunk_mapped address within shows (Nat.le_refl _)]

theorem readFragments_through {rest : Nat} (masked : v &&& (f.size - 1#64) = v - f.va)
    (whole : rest + (v - f.va).toNat = f.size.toNat) (more : rest < left.toNat) :
    readFragments (exactRead bytes) fuel (f :: fs) v left written =
      readFragments (exactRead bytes) fuel fs (f.va + f.size) (left - BitVec.ofNat 64 rest)
        (written ++ bytesFrom mapped v rest) := by
  have small : (BitVec.ofNat 64 rest).toNat = rest := by
    rw [BitVec.toNat_ofNat, Nat.mod_eq_of_lt (Nat.lt_trans more left.isLt)]
  have part : f.size - (v - f.va) = BitVec.ofNat 64 rest := by
    apply BitVec.eq_of_toNat_eq
    rw [BitVec.toNat_sub_of_le (BitVec.le_def.mpr (by omega)), small]
    omega
  have chosen : BitVec.ofNat 64 rest = if left < f.size - (v &&& (f.size - 1#64)) then left
      else f.size - (v &&& (f.size - 1#64)) := by
    rw [masked, part, if_neg]
    rw [BitVec.lt_def, small]
    omega
  have next : v + BitVec.ofNat 64 rest = f.va + f.size := by
    rw [← part]
    bv_omega
  rw [readFragments_cons fs written some valid enough chosen, small, next,
    chunk_mapped address (by omega) shows (by omega)]

end

theorem readFragments_straight {fs : List Fragment} {start v left : BitVec 64}
    (strip : Strip start ((v - start).toNat + left.toNat) fs)
    (inside : ∀ f ∈ fs.head?, (v - start).toNat < f.size.toNat)
    (straight : Straight fs v left.toNat)
    (shows : ∀ f ∈ fs, f.flags.valid ≠ 0#8 → Shows bytes mapped v left.toNat f)
    (enough : left.toNat < fuel) (written : List Byte) :
    readFragments (exactRead bytes) fuel fs v left written =
      some (written ++ bytesFrom mapped v left.toNat, .ok) := by
  induction fs generalizing start v left written with
  | nil =>
    have total : (v - start).toNat + left.toNat = 0 := strip
    have none : left.toNat = 0 := by omega
    rw [none]
    exact congrArg (fun w => some (w, Ret.ok)) (List.append_nil written).symm
  | cons f fs ih =>
    by_cases finished : left = 0#64
    · rw [finished, readFragments_none_left]
      exact congrArg (fun w => some (w, Ret.ok)) (List.append_nil written).symm
    · have some : left.toNat ≠ 0 := fun none => finished (BitVec.eq_of_toNat_eq none)
      obtain ⟨⟨rfl, valid, pos⟩, strip⟩ := strip.resolve_left (by omega)
      have within := inside f rfl
      have here := shows f List.mem_cons_self valid
      obtain ⟨address, ⟨masked, straight⟩ | ⟨room, fits⟩⟩ := straight.resolve_left some
      · obtain ⟨rest, whole⟩ : ∃ rest, rest + (v - f.va).toNat = f.size.toNat :=
          ⟨f.size.toNat - (v - f.va).toNat, by omega⟩
        by_cases last : left.toNat ≤ rest
        · have room : (f.size - (v &&& (f.size - 1#64))).toNat = rest := by
            rw [masked, BitVec.toNat_sub_of_le (BitVec.le_def.mpr (by omega))]
            omega
          exact readFragments_last fs written finished valid enough address here (room ▸ last)
            (by omega)
        · have more : rest < left.toNat := Nat.not_le.mp last
          have small : (BitVec.ofNat 64 rest).toNat = rest := by
            rw [BitVec.toNat_ofNat, Nat.mod_eq_of_lt (Nat.lt_trans more left.isLt)]
          have less : (left - BitVec.ofNat 64 rest).toNat = left.toNat - rest := by
            rw [BitVec.toNat_sub_of_le (by rw [BitVec.le_def, small]; omega), small]
          have next : v + BitVec.ofNat 64 rest = f.va + f.size := by
            apply BitVec.eq_of_toNat_eq
            rw [BitVec.toNat_sub] at whole
            rw [BitVec.toNat_add, BitVec.toNat_add, small]
            omega
          have zero : (f.va + f.size - (f.va + f.size)).toNat = 0 := by
            rw [BitVec.sub_self]
            rfl
          have behind : f.size.toNat - (v - f.va).toNat = rest := by omega
          have count : (v - f.va).toNat + left.toNat - f.size.toNat =
              (f.va + f.size - (f.va + f.size)).toNat + (left - BitVec.ofNat 64 rest).toNat := by
            omega
          rw [behind, ← less] at straight
          rw [count] at strip
          have head : ∀ g ∈ fs.head?, (f.va + f.size - (f.va + f.size)).toNat < g.size.toNat :=
            fun g first => zero ▸ strip_head_pos strip (by omega) first
          have shows' : ∀ g ∈ fs, g.flags.valid ≠ 0#8 → Shows bytes mapped (f.va + f.size)
              (left - BitVec.ofNat 64 rest).toNat g := fun g member used =>
            next ▸ (shows g (List.mem_cons_of_mem f member) used).shift (by omega)
          have tail := ih strip head straight shows' (by omega) (written ++ bytesFrom mapped v rest)
          have split : left.toNat = rest + (left - BitVec.ofNat 64 rest).toNat := by omega
          rw [readFragments_through fs written finished valid enough address here masked whole more,
            tail, split, bytesFrom_add, next, List.append_assoc]
      · exact readFragments_last fs written finished valid enough address here room fits

end

structure Stretch (mem : Memory) (r : Registers) (va size : BitVec 64) (start : BitVec 64)
    (fs : List Fragment) : Prop where
  strip : Strip start ((va - start).toNat + size.toNat) fs
  inside : ∀ f ∈ fs.head?, (va - start).toNat < f.size.toNat
  bounds : ∀ f ∈ fs, f.flags.valid ≠ 0#8 →
    0 < f.size.toNat ∧ f.pa.toNat + f.size.toNat < 2 ^ 64
  leaves : ∀ f ∈ fs, f.flags.valid ≠ 0#8 → ∀ i < size.toNat, f.Contains (va + BitVec.ofNat 64 i) →
    leafAddr mem r (va + BitVec.ofNat 64 i) =
      some (decide (f.flags.system ≠ 0#8), f.pa + (va + BitVec.ofNat 64 i - f.va))

section
variable {mem : Memory} {r : Registers} {va size : BitVec 64} {ps fs : List Fragment}

theorem leafAddr_of_page {p f : Fragment} {v : BitVec 64} (page : IsPage p)
    (used : p.flags.valid ≠ 0#8) (inside : p.Contains v) (same : p.view v = f.view v)
    (leaf : (walkMemory (populateWalkHelper r) mem v).map (fun w => (w.pte, w.size)) =
      some (p.flags, p.size)) :
    leafAddr mem r v = some (decide (f.flags.system ≠ 0#8), f.pa + (v - f.va)) := by
  obtain ⟨w, found, pair⟩ := Option.map_eq_some_iff.mp leaf
  obtain ⟨pte, bytes⟩ := Prod.mk.inj pair
  have valid : p.flags.valid = f.flags.valid := congrArg Prod.fst same
  have shown := congrArg Prod.snd same
  simp only [Fragment.view, if_neg used, if_neg (valid ▸ used), Option.some.injEq, Prod.mk.injEq]
    at shown
  obtain ⟨address, flags⟩ := shown
  have system : p.pageFlags.system = f.pageFlags.system := congrArg Pte.system flags
  have system' : p.flags.system = f.flags.system := system
  rw [leafAddr, found, Option.map_some, pte, bytes, ← page.base, contains_offset page inside,
    address, system']

theorem combined_stretch
    (walked : Walked mem (populateWalkHelper r) va ⟨PdeCache.cleared, va, size⟩ ps)
    (valid : ValidOn va size ps) (listed : siftXlatorTranslateRange mem r va size true (.list fs))
    (placed : Placed mem r va size ps) (some : size ≠ 0#64) :
    ∃ start, Stretch mem r va size start fs := by
  obtain ⟨qs, walked', made⟩ := (translateRange_list_iff ..).mp listed
  cases walked.unique walked'
  have laid := walked_laid walked
  have pages := laid_pages laid
  have some_bytes : size.toNat ≠ 0 := fun zero => some (BitVec.eq_of_toNat_eq zero)
  cases walked with
  | done finished =>
    have room := placed.room
    have empty : ¬va < va + size := finished
    rw [BitVec.lt_def, BitVec.toNat_add_of_lt (by omega)] at empty
    omega
  | @page _ c p ps more walk rest =>
    obtain ⟨page, start, next, adjusted⟩ := advance_page walk
    simp only at start adjusted
    have combined := (assemble_combined_iff p ps fs).mp made
    have single := Run.single page
    have room : va.toNat + size.toNat + (va - p.va).toNat < 2 ^ 64 := placed.room
    have before : p.va ≤ va := by
      rw [BitVec.le_def, start]
      exact Nat.sub_le _ _
    have offset : (va - p.va).toNat = va.toNat - p.va.toNat := BitVec.toNat_sub_of_le before
    have within : (va - p.va).toNat < p.size.toNat := by
      rw [offset, start]
      exact Nat.lt_of_le_of_lt (Nat.le_of_eq (Nat.sub_sub_self (Nat.mod_le _ _)))
        (Nat.mod_lt _ page.size_pos)
    have longer : (va + c.size).toNat = va.toNat + size.toNat + (va - p.va).toNat := by
      rw [adjusted, ← BitVec.add_assoc, BitVec.toNat_add, BitVec.toNat_add]
      omega
    obtain ⟨valid_here, valid_later⟩ := List.forall_mem_cons.mp valid
    have used := valid_here 0 (by omega) <| by
      rw [BitVec.add_zero]
      exact BitVec.lt_def.mpr within
    have low := BitVec.le_def.mp before
    have strip : Strip p.va ((va - p.va).toNat + size.toNat) (p :: ps) := by
      refine Or.inr ⟨⟨rfl, used, page.size_pos⟩, ?_⟩
      rw [← next]
      refine walked_strip rest next (combined.adjacent single laid.2) valid_later (by omega) ?_
      intro left
      rw [next, BitVec.toNat_add_of_lt (by omega)]
      omega
    refine ⟨p.va, combined.strip single laid.2 strip, fun f first => ?_,
      combined.valid_bounds single laid.2, fun f member shown i less inside => ?_⟩
    · exact Nat.lt_of_lt_of_le within (combined.head_size single laid.2 used f first)
    · obtain ⟨q, inPages, inPage, same⟩ := combined.contains single laid.2 member shown inside
      exact leafAddr_of_page (pages q inPages) (valid q inPages i less inPage) inPage same
        (placed.leaves q inPages i less inPage)

theorem readVirtAddr_listed {read : PartitionRead} {fuel : Nat} {result : List Byte × Ret}
    (listed : siftXlatorTranslateRange mem r va size true (.list fs))
    (done : readFragments read fuel fs va size [] = some result) :
    ∃ fuel, readVirtAddr read mem r fuel va size = some result := by
  obtain ⟨enough, run⟩ := listed
  refine ⟨max enough fuel, ?_⟩
  rw [readVirtAddr, run_mono (Nat.le_max_left _ _) run]
  exact readFragments_mono (Nat.le_max_right _ _) done

theorem mapped_some {bytes : Bool → BitVec 64 → Byte} {v : BitVec 64} {a : Bool × BitVec 64}
    (leaf : leafAddr mem r v = some a) :
    ((leafAddr mem r v).map fun a => bytes a.1 a.2).getD 0#8 = bytes a.1 a.2 := by
  rw [leaf]
  rfl

theorem Stretch.reads_mapped {start : BitVec 64} (stretch : Stretch mem r va size start fs)
    (listed : siftXlatorTranslateRange mem r va size true (.list fs))
    (straight : Straight fs va size.toNat) (bytes : Bool → BitVec 64 → Byte) :
    ReadsMapped mem r bytes va size := by
  let mapped : BitVec 64 → Byte := fun v =>
    ((leafAddr mem r v).map fun a => bytes a.1 a.2).getD 0#8
  have shows : ∀ f ∈ fs, f.flags.valid ≠ 0#8 → Shows bytes mapped va size.toNat f :=
    fun f member used i less inside => mapped_some (stretch.leaves f member used i less inside)
  have done := readFragments_straight stretch.strip stretch.inside straight shows
    (Nat.lt_succ_self _) []
  obtain ⟨fuel, done⟩ := readVirtAddr_listed listed done
  refine ⟨fuel, _, done, bytesFrom_length _ _ _, fun i less => ?_⟩
  obtain ⟨f, member, used, inside⟩ := strip_contains stretch.strip
    (Nat.add_lt_add_left less (va - start).toNat)
  have same : start + BitVec.ofNat 64 ((va - start).toNat + i) = va + BitVec.ofNat 64 i := by
    rw [BitVec.ofNat_add, BitVec.ofNat_toNat, BitVec.setWidth_eq, ← BitVec.add_assoc]
    bv_omega
  have leaf := stretch.leaves f member used i less (same ▸ inside)
  rw [List.nil_append, bytesFrom_getElem? _ _ less, shows f member used i less (same ▸ inside),
    leaf]
  rfl

def Delivers (mem : Memory) (r : Registers) (bytes : Bool → BitVec 64 → Byte) (fs : List Fragment)
    (v left : BitVec 64) : Prop :=
  ∃ fuel out, left.toNat < fuel ∧ readFragments (exactRead bytes) fuel fs v left [] =
      some (out, .ok) ∧ out.length = left.toNat ∧
    ∀ i < left.toNat, out[i]? =
      (leafAddr mem r (v + BitVec.ofNat 64 i)).map fun a => bytes a.1 a.2

theorem readFragments_written {bytes : Bool → BitVec 64 → Byte} {fuel : Nat} (fs : List Fragment)
    (v : BitVec 64) {left : BitVec 64} (written : List Byte) (enough : left.toNat < fuel) :
    readFragments (exactRead bytes) fuel fs v left written =
      (readFragments (exactRead bytes) fuel fs v left []).map
        fun result => (written ++ result.1, result.2) := by
  induction fs generalizing v left written with
  | nil => exact congrArg (fun w => some (w, Ret.ok)) (List.append_nil written).symm
  | cons f fs ih =>
    by_cases finished : left = 0#64
    · rw [finished, readFragments_none_left, readFragments_none_left]
      exact congrArg (fun w => some (w, Ret.ok)) (List.append_nil written).symm
    · by_cases valid : f.flags.valid = 0#8
      · simp only [readFragments, if_neg finished, if_pos valid, Option.map_some, List.append_nil]
      · obtain ⟨n, chosen⟩ : ∃ n, n = if left < f.size - (v &&& (f.size - 1#64)) then left
            else f.size - (v &&& (f.size - 1#64)) := ⟨_, rfl⟩
        have le : n ≤ left := by
          rw [chosen]
          split
          · exact BitVec.le_refl _
          · rename_i order
            exact BitVec.not_lt.mp order
        have less : (left - n).toNat < fuel := by
          rw [BitVec.toNat_sub_of_le le]
          omega
        rw [readFragments_cons fs written finished valid enough chosen,
          readFragments_cons fs [] finished valid enough chosen, ih _ _ less, ih _ ([] ++ _) less,
          Option.map_map]
        simp only [Function.comp_def, List.nil_append, List.append_assoc]

theorem Delivers.cons {bytes : Bool → BitVec 64 → Byte} {f : Fragment} {fs : List Fragment}
    {v left n : BitVec 64} (delivers : Delivers mem r bytes (f :: fs) v left) (some : left ≠ 0#64)
    (chosen : n = if left < f.size - (v &&& (f.size - 1#64)) then left
      else f.size - (v &&& (f.size - 1#64))) :
    f.flags.valid ≠ 0#8 ∧
      (n ≠ 0#64 → (leafAddr mem r v).map (fun a => bytes a.1 a.2) =
        Option.some (bytes (decide (f.flags.system ≠ 0#8)) (f.pa ||| (v &&& (f.size - 1#64))))) ∧
      Delivers mem r bytes fs (v + n) (left - n) := by
  obtain ⟨fuel, out, enough, done, length, each⟩ := delivers
  have valid : f.flags.valid ≠ 0#8 := by
    intro invalid
    simp only [readFragments, if_neg some, if_pos invalid] at done
    cases done
  have le : n ≤ left := by
    rw [chosen]
    split
    · exact BitVec.le_refl _
    · rename_i order
      exact BitVec.not_lt.mp order
  have rest : (left - n).toNat = left.toNat - n.toNat := BitVec.toNat_sub_of_le le
  have order := BitVec.le_def.mp le
  rw [readFragments_cons fs [] some valid enough chosen,
    readFragments_written fs _ _ (rest ▸ Nat.lt_of_le_of_lt (Nat.sub_le _ _) enough)] at done
  obtain ⟨⟨tail, ret⟩, behind, same⟩ := Option.map_eq_some_iff.mp done
  obtain ⟨rfl, rfl⟩ := Prod.mk.inj same
  simp only [List.nil_append, List.length_append, bytesFrom_length] at length each
  refine ⟨valid, fun taken => ?_, fuel, tail, by omega, behind, by omega, fun i less => ?_⟩
  · have pos : 0 < n.toNat := Nat.pos_of_ne_zero fun zero => taken (BitVec.eq_of_toNat_eq zero)
    have first := each 0 (by omega)
    rw [List.getElem?_append_left (by rwa [bytesFrom_length]), bytesFrom_getElem? _ _ pos] at first
    simp only [BitVec.add_zero] at first
    exact first.symm
  · have byte := each (n.toNat + i) (by omega)
    rw [List.getElem?_append_right (by rw [bytesFrom_length]; omega), bytesFrom_length,
      Nat.add_sub_cancel_left] at byte
    rw [byte, BitVec.ofNat_add, BitVec.ofNat_toNat, BitVec.setWidth_eq, BitVec.add_assoc]

theorem place_eq {a b : Bool × BitVec 64}
    (same : ∀ bytes : Bool → BitVec 64 → Byte, bytes a.1 a.2 = bytes b.1 b.2) : a = b := by
  have marked := same fun system x => if (system, x) = b then 1#8 else 0#8
  by_contra other
  rw [if_neg other, if_pos rfl] at marked
  cases marked

theorem straight_zero (fs : List Fragment) (v : BitVec 64) : Straight fs v 0 := by
  cases fs with
  | nil => trivial
  | cons f fs => exact Or.inl rfl

theorem low_lt {f : Fragment} (v : BitVec 64) (pos : 0 < f.size.toNat) :
    (v &&& (f.size - 1#64)).toNat < f.size.toNat := by
  have le : (v &&& (f.size - 1#64)).toNat ≤ (f.size - 1#64).toNat := by
    rw [BitVec.toNat_and]
    exact Nat.and_le_right
  have one : (f.size - 1#64).toNat = f.size.toNat - 1 :=
    BitVec.toNat_sub_of_le (BitVec.le_def.mpr pos)
  omega

theorem place_occupied {f : Fragment} (v : BitVec 64) (used : f.flags.valid ≠ 0#8)
    (bounds : 0 < f.size.toNat ∧ f.pa.toNat + f.size.toNat < 2 ^ 64) :
    f.Occupies (f.pa ||| (v &&& (f.size - 1#64))).toNat := by
  have low := low_lt (f := f) v bounds.1
  have upper := BitField.or_le_add f.pa.toNat (v &&& (f.size - 1#64)).toNat
  have lower : f.pa.toNat ≤ f.pa.toNat ||| (v &&& (f.size - 1#64)).toNat := Nat.left_le_or
  rw [BitVec.toNat_or]
  exact ⟨used, lower, by omega⟩

theorem not_left_early {f : Fragment} {fs : List Fragment} {v left n : BitVec 64}
    (used : f.flags.valid ≠ 0#8)
    (bounds : ∀ g ∈ f :: fs, g.flags.valid ≠ 0#8 →
      0 < g.size.toNat ∧ g.pa.toNat + g.size.toNat < 2 ^ 64)
    (apart : (f :: fs).IsChain fun f g => ¬SharesMemory f g)
    (early : (v - f.va).toNat + n.toNat < f.size.toNat) (more : n.toNat < left.toNat)
    (leaf : leafAddr mem r (v + n) =
      some (decide (f.flags.system ≠ 0#8), f.pa + (v + n - f.va)))
    (delivers : ∀ bytes, Delivers mem r bytes fs (v + n) (left - n)) : False := by
  have rest : (left - n).toNat = left.toNat - n.toNat :=
    BitVec.toNat_sub_of_le (BitVec.le_def.mpr (Nat.le_of_lt more))
  have some : left - n ≠ 0#64 := by
    intro zero
    rw [zero] at rest
    simp only [BitVec.toNat_ofNat] at rest
    omega
  cases fs with
  | nil =>
    obtain ⟨fuel, out, -, done, length, -⟩ := delivers fun _ _ => 0#8
    cases done
    rw [List.length_nil] at length
    omega
  | cons g gs =>
    obtain ⟨m, chosen⟩ : ∃ m, m = if left - n < g.size - (v + n &&& (g.size - 1#64)) then left - n
        else g.size - (v + n &&& (g.size - 1#64)) := ⟨_, rfl⟩
    have step bytes := (delivers bytes).cons some chosen
    have usedG := (step fun _ _ => 0#8).1
    have boundsG := bounds g (List.mem_cons_of_mem f List.mem_cons_self) usedG
    have low := low_lt (v + n) boundsG.1
    have taken : m ≠ 0#64 := by
      rw [chosen]
      split
      · exact some
      · intro zero
        have sizes : g.size.toNat - (v + n &&& (g.size - 1#64)).toNat = 0 := by
          rw [← BitVec.toNat_sub_of_le (BitVec.le_def.mpr (Nat.le_of_lt low)), zero]
          rfl
        omega
    have same : (decide (f.flags.system ≠ 0#8), f.pa + (v + n - f.va)) =
        (decide (g.flags.system ≠ 0#8), g.pa ||| (v + n &&& (g.size - 1#64))) :=
      place_eq fun bytes => by
        have first := (step bytes).2.1 taken
        rw [leaf, Option.map_some] at first
        exact Option.some.inj first
    obtain ⟨memory, place⟩ := Prod.mk.inj same
    refine (List.isChain_cons_cons.mp apart).1 ⟨?_, (g.pa ||| (v + n &&& (g.size - 1#64))).toNat,
      ?_, place_occupied (v + n) usedG boundsG⟩
    · exact not_iff_not.mp (decide_eq_decide.mp memory)
    · have boundsF := bounds f List.mem_cons_self used
      have offset : (v + n - f.va).toNat = (v - f.va).toNat + n.toNat := by
        have split : v + n - f.va = v - f.va + n := by bv_omega
        rw [split, BitVec.toNat_add_of_lt (by omega)]
      rw [← place, BitVec.toNat_add_of_lt (by omega), offset]
      exact ⟨used, Nat.le_add_right _ _, by omega⟩

theorem straight_of_delivers {fs : List Fragment} {start v left : BitVec 64}
    (strip : Strip start ((v - start).toNat + left.toNat) fs)
    (inside : ∀ f ∈ fs.head?, (v - start).toNat < f.size.toNat)
    (bounds : ∀ f ∈ fs, f.flags.valid ≠ 0#8 →
      0 < f.size.toNat ∧ f.pa.toNat + f.size.toNat < 2 ^ 64)
    (apart : fs.IsChain fun f g => ¬SharesMemory f g)
    (leaves : ∀ f ∈ fs, f.flags.valid ≠ 0#8 → ∀ i < left.toNat, f.Contains (v + BitVec.ofNat 64 i) →
      leafAddr mem r (v + BitVec.ofNat 64 i) =
        some (decide (f.flags.system ≠ 0#8), f.pa + (v + BitVec.ofNat 64 i - f.va)))
    (delivers : ∀ bytes, Delivers mem r bytes fs v left) : Straight fs v left.toNat := by
  induction fs generalizing start v left with
  | nil => trivial
  | cons f fs ih =>
    by_cases finished : left = 0#64
    · subst finished
      exact straight_zero _ _
    · have some : left.toNat ≠ 0 := fun none => finished (BitVec.eq_of_toNat_eq none)
      obtain ⟨⟨rfl, used, -⟩, strip⟩ := strip.resolve_left (by omega)
      have within := inside f rfl
      have boundsF := bounds f List.mem_cons_self used
      have low := low_lt v boundsF.1
      have part : (f.size - (v &&& (f.size - 1#64))).toNat =
          f.size.toNat - (v &&& (f.size - 1#64)).toNat :=
        BitVec.toNat_sub_of_le (BitVec.le_def.mpr (Nat.le_of_lt low))
      obtain ⟨n, chosen⟩ : ∃ n, n = if left < f.size - (v &&& (f.size - 1#64)) then left
          else f.size - (v &&& (f.size - 1#64)) := ⟨_, rfl⟩
      have step bytes := (delivers bytes).cons finished chosen
      have leaf (i : Nat) (less : i < left.toNat) (near : (v - f.va).toNat + i < f.size.toNat) := by
        refine leaves f List.mem_cons_self used i less ?_
        have offset : v + BitVec.ofNat 64 i - f.va = v - f.va + BitVec.ofNat 64 i := by bv_omega
        rw [Fragment.Contains, offset, BitVec.lt_def, BitVec.toNat_add, BitVec.toNat_ofNat]
        omega
      have address : f.pa + (v - f.va) = f.pa ||| (v &&& (f.size - 1#64)) := by
        have taken : n ≠ 0#64 := by
          rw [chosen]
          split
          · exact finished
          · exact fun zero => by rw [zero] at part; simp only [BitVec.toNat_ofNat] at part; omega
        have here := leaf 0 (by omega) within
        simp only [BitVec.add_zero] at here
        refine congrArg Prod.snd (place_eq (a := (decide (f.flags.system ≠ 0#8), _))
          (b := (decide (f.flags.system ≠ 0#8), _)) fun bytes => ?_)
        have first := (step bytes).2.1 taken
        rw [here, Option.map_some] at first
        exact Option.some.inj first
      refine Or.inr ⟨address.symm, ?_⟩
      by_cases masked : v &&& (f.size - 1#64) = v - f.va
      · refine Or.inl ⟨masked, ?_⟩
        rw [masked] at part chosen
        by_cases last : left.toNat ≤ f.size.toNat - (v - f.va).toNat
        · rw [Nat.sub_eq_zero_of_le last]
          exact straight_zero _ _
        · rw [if_neg (by rw [BitVec.lt_def, part]; omega)] at chosen
          have next : v + n = f.va + f.size := by
            rw [chosen]
            bv_omega
          have less : (left - n).toNat = left.toNat - (f.size.toNat - (v - f.va).toNat) := by
            rw [BitVec.toNat_sub_of_le (by rw [BitVec.le_def, chosen, part]; omega), chosen, part]
          have zero : (v + n - (f.va + f.size)).toNat = 0 := by
            rw [next, BitVec.sub_self]
            rfl
          have count : (v - f.va).toNat + left.toNat - f.size.toNat =
              (v + n - (f.va + f.size)).toNat + (left - n).toNat := by
            omega
          rw [count] at strip
          rw [← less, ← next]
          refine ih strip (fun g first => zero ▸ strip_head_pos strip (by omega) first)
            (fun g member => bounds g (List.mem_cons_of_mem f member)) apart.tail
            (fun g member usedG i small => ?_) fun bytes => (step bytes).2.2
          have shifted : v + n + BitVec.ofNat 64 i = v + BitVec.ofNat 64 (n.toNat + i) := by
            rw [BitVec.ofNat_add, BitVec.ofNat_toNat, BitVec.setWidth_eq, BitVec.add_assoc]
          rw [shifted]
          exact leaves g (List.mem_cons_of_mem f member) usedG _ (by rw [chosen, part]; omega)
      · have upper := BitField.or_le_add f.pa.toNat (v &&& (f.size - 1#64)).toNat
        have sum := congrArg BitVec.toNat address
        rw [BitVec.toNat_add_of_lt (by omega), BitVec.toNat_or] at sum
        have beyond : (v &&& (f.size - 1#64)).toNat ≠ (v - f.va).toNat :=
          fun same => masked (BitVec.eq_of_toNat_eq same)
        suffices room : left.toNat ≤ (f.size - (v &&& (f.size - 1#64))).toNat from
          Or.inr ⟨room, by omega⟩
        by_contra more
        rw [if_neg (by rw [BitVec.lt_def]; omega)] at chosen
        have taken : n.toNat = f.size.toNat - (v &&& (f.size - 1#64)).toNat := chosen ▸ part
        have here := leaf n.toNat (by omega) (by omega)
        rw [BitVec.ofNat_toNat, BitVec.setWidth_eq] at here
        exact not_left_early used bounds apart (by omega) (by omega) here
          fun bytes => (step bytes).2.2

theorem delivers_of_reads {bytes : Bool → BitVec 64 → Byte}
    (listed : siftXlatorTranslateRange mem r va size true (.list fs))
    (reads : ReadsMapped mem r bytes va size) : Delivers mem r bytes fs va size := by
  obtain ⟨fuel, out, done, length, each⟩ := reads
  obtain ⟨enough, run⟩ := listed
  have more := readVirtAddr_mono (Nat.le_max_left fuel (max enough (size.toNat + 1))) done
  rw [readVirtAddr, run_mono (Nat.le_trans (Nat.le_max_left _ _) (Nat.le_max_right fuel _)) run]
    at more
  refine ⟨_, out, ?_, more, length, each⟩
  omega
end

/-- Where the pages of the range are valid and stand where its addresses are mapped, a straight read
is right for all contents of the memories; if no two fragments in a row share memory, no other read
is. -/
theorem virtual_read_mapped (mem : Memory) (r : Registers) (va size : BitVec 64)
    (ps fs : List Fragment)
    (walked : Walked mem (populateWalkHelper r) va ⟨PdeCache.cleared, va, size⟩ ps)
    (valid : ValidOn va size ps) (listed : siftXlatorTranslateRange mem r va size true (.list fs))
    (placed : Placed mem r va size ps) :
    (Straight fs va size.toNat → ∀ bytes, ReadsMapped mem r bytes va size) ∧
      ((fs.IsChain fun f g => ¬SharesMemory f g) → (∀ bytes, ReadsMapped mem r bytes va size) →
        Straight fs va size.toNat) := by
  by_cases none : size = 0#64
  · subst none
    refine ⟨fun _ bytes => ?_, fun _ _ => straight_zero fs va⟩
    obtain ⟨fuel, done⟩ := readVirtAddr_listed listed
      (readFragments_none_left (exactRead bytes) 0 fs va [])
    exact ⟨fuel, [], done, rfl, fun i less => absurd less (Nat.not_lt_zero i)⟩
  · obtain ⟨start, stretch⟩ := combined_stretch walked valid listed placed none
    refine ⟨fun straight bytes => stretch.reads_mapped listed straight bytes, fun apart reads => ?_⟩
    exact straight_of_delivers stretch.strip stretch.inside stretch.bounds apart stretch.leaves
      fun bytes => delivers_of_reads listed (reads bytes)

/-- Four bytes across two pages that are joined to a fragment aligned to its size. The loop walks a
third page, behind the range; it is not mapped, and nothing is asked of it. -/
theorem virtual_read_mapped_joined :
    let mem := systemMemory [(0x5000#64, 0x6003#64), (0x6020#64, 0x8003#64), (0x6028#64, 0x9003#64)]
    ∀ bytes, ReadsMapped mem (oneDirectory 0x5003#32) bytes 0x4fff#64 4#64 := by
  intro mem
  let ps := [smallPage 0x4000#64 0x8003#64, smallPage 0x5000#64 0x9003#64, smallPage 0x6000#64 0#64]
  let fs := [{ smallPage 0x4000#64 0x8003#64 with size := 0x2000#64 }, smallPage 0x6000#64 0#64]
  let r := oneDirectory 0x5003#32
  have pages : siftXlatorTranslateRange mem r 0x4fff#64 4#64 false (.list ps) :=
    ⟨4, by decide +kernel⟩
  have listed : siftXlatorTranslateRange mem r 0x4fff#64 4#64 true (.list fs) :=
    ⟨4, by decide +kernel⟩
  have valid : ValidOn 0x4fff#64 4#64 ps := by
    unfold ValidOn
    decide +kernel
  have placed : Placed mem r 0x4fff#64 4#64 ps := ⟨by decide +kernel, by decide +kernel⟩
  exact (virtual_read_mapped mem r 0x4fff#64 4#64 ps fs
    (walked_of_listed pages (by decide +kernel)) valid listed placed).1
    (Or.inr ⟨by decide +kernel, Or.inl ⟨by decide +kernel, Or.inl rfl⟩⟩)

/-- Two joined pages at 0x1000: from 0x1ffe the mask takes the offset into the second page, and
only the two bytes at its end are read. -/
theorem joined_pages_read_short :
    let mem := systemMemory [(0x5000#64, 0x6003#64), (0x6008#64, 0x6003#64), (0x6010#64, 0x7003#64)]
    let fs := [{ smallPage 0x1000#64 0x6003#64 with size := 0x2000#64 }]
    let bytes : Bool → BitVec 64 → Byte := fun _ addr => addr.setWidth 8
    siftXlatorTranslateRange mem (oneDirectory 0x5003#32) 0x1ffe#64 4#64 true (.list fs) ∧
      ¬ReadsMapped mem (oneDirectory 0x5003#32) bytes 0x1ffe#64 4#64 := by
  intro mem fs bytes
  have short : readVirtAddr (exactRead bytes) mem (oneDirectory 0x5003#32) 3 0x1ffe#64 4#64 =
      some ([0xfe#8, 0xff#8], .ok) := by decide +kernel
  refine ⟨⟨3, by decide +kernel⟩, ?_⟩
  rintro ⟨fuel, written, done, length, -⟩
  have same := Option.some.inj ((readVirtAddr_mono (Nat.le_max_left fuel 3) done).symm.trans
    (readVirtAddr_mono (Nat.le_max_right fuel 3) short))
  obtain ⟨rfl, -⟩ := Prod.mk.inj same
  cases length

end Rocsift.Cmd
