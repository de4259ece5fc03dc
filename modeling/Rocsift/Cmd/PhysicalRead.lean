import Mathlib.Data.List.Induction
import Rocsift.Cmd.ReadMem

/-! Physical reads from a device that answers each call as it likes: an error, or any number of the
bytes it was asked for, none included. -/
namespace Rocsift.Cmd
open Looping

structure Device where
  read : Nat → PartitionRead
  bounded : ∀ k system addr n bytes, read k system addr n = some bytes → bytes.length ≤ n.toNat

structure TimedRead where
  calls : Nat
  state : PhysRead

def timedBody (dev : Device) (system : Bool) (s : TimedRead) : Turn TimedRead (List Byte × Ret) :=
  match readPhysAddrBody (dev.read s.calls) system s.state with
  | .again t => .again ⟨s.calls + 1, t⟩
  | .leave r => .leave r

def timedStart (addr size : BitVec 64) : TimedRead := ⟨0, addr, size, []⟩

def request (size : BitVec 64) : BitVec 64 := if BUF_SIZE < size then BUF_SIZE else size

section
variable (dev : Device) (system : Bool) (addr size : BitVec 64)

def answer (k done : Nat) : Option (List Byte) :=
  dev.read k system (addr + BitVec.ofNat 64 done) (request (size - BitVec.ofNat 64 done))

def Delivered (chunks : List (List Byte)) : Prop :=
  ∀ j c, chunks[j]? = some c → (chunks.take j).flatten.length < size.toNat ∧
    answer dev system addr size j (chunks.take j).flatten.length = some c

/-- The device comes to a point before the end from which on it gives no more bytes. -/
def Stalls : Prop :=
  ∃ chunks, Delivered dev system addr size chunks ∧ chunks.flatten.length < size.toNat ∧
    ∀ k ≥ chunks.length, answer dev system addr size k chunks.flatten.length = some []

/-- The read ends, and returns 0 only after all the bytes. -/
structure ReadsAll : Prop where
  ends : ∃ r, Ends (timedBody dev system) (timedStart addr size) r
  whole : ∀ written, Ends (timedBody dev system) (timedStart addr size) (written, .ok) →
    written.length = size.toNat ∧
      ∃ chunks, Delivered dev system addr size chunks ∧ written = chunks.flatten

def readAfter (chunks : List (List Byte)) : TimedRead :=
  let done := BitVec.ofNat 64 chunks.flatten.length
  ⟨chunks.length, addr + done, size - done, chunks.flatten⟩

end

section
variable {dev : Device} {system : Bool} {addr size : BitVec 64} {chunks : List (List Byte)}

theorem request_le (size : BitVec 64) : (request size).toNat ≤ size.toNat := by
  unfold request
  split
  · rename_i less
    exact Nat.le_of_lt less
  · exact Nat.le_refl _

theorem left_toNat {size : BitVec 64} {done : Nat} (le : done ≤ size.toNat) :
    (size - BitVec.ofNat 64 done).toNat = size.toNat - done := by
  have small : done < 2 ^ 64 := Nat.lt_of_le_of_lt le size.isLt
  rw [BitVec.toNat_sub_of_le, BitVec.toNat_ofNat, Nat.mod_eq_of_lt small]
  rw [BitVec.le_def, BitVec.toNat_ofNat, Nat.mod_eq_of_lt small]
  exact le

theorem readAfter_snoc (addr size : BitVec 64) (chunks : List (List Byte)) (bytes : List Byte) :
    readAfter addr size (chunks ++ [bytes]) =
      let t := readAfter addr size chunks
      let s := t.state
      let num_read := BitVec.ofNat 64 bytes.length
      ⟨t.calls + 1, s.addr + num_read, s.size - num_read, s.written ++ bytes⟩ := by
  have whole : (chunks ++ [bytes]).flatten = chunks.flatten ++ bytes := by
    rw [List.flatten_append, List.flatten_singleton]
  have apart : ∀ a b : BitVec 64, size - (a + b) = size - a - b := fun a b => by bv_omega
  simp only [readAfter, whole, List.length_append, List.length_singleton, BitVec.ofNat_add,
    BitVec.add_assoc, apart]

theorem timedBody_after (le : chunks.flatten.length ≤ size.toNat) :
    timedBody dev system (readAfter addr size chunks) =
      if chunks.flatten.length = size.toNat then .leave (chunks.flatten, .ok)
      else match answer dev system addr size chunks.length chunks.flatten.length with
        | none => .leave (chunks.flatten, .error)
        | some bytes => .again (readAfter addr size (chunks ++ [bytes])) := by
  have left := left_toNat le
  have more : 0#64 < size - BitVec.ofNat 64 chunks.flatten.length ↔
      chunks.flatten.length ≠ size.toNat := by
    rw [BitVec.lt_def, left, BitVec.toNat_zero]
    omega
  by_cases whole : chunks.flatten.length = size.toNat
  · have stop : readPhysAddrBody (dev.read (readAfter addr size chunks).calls) system
        (readAfter addr size chunks).state = .leave (chunks.flatten, .ok) :=
      if_neg fun less => more.mp less whole
    rw [timedBody, stop, if_pos whole]
  · have turn : readPhysAddrBody (dev.read (readAfter addr size chunks).calls) system
        (readAfter addr size chunks).state =
          match answer dev system addr size chunks.length chunks.flatten.length with
          | none => .leave (chunks.flatten, .error)
          | some bytes => .again (readAfter addr size (chunks ++ [bytes])).state := by
      rw [readPhysAddrBody]
      refine (if_pos (more.mpr whole)).trans ?_
      simp only [readAfter_snoc]
      rfl
    rw [timedBody, turn, if_neg whole]
    cases answer dev system addr size chunks.length chunks.flatten.length with
    | none => rfl
    | some bytes => simp only [readAfter_snoc]

theorem answer_le {done k : Nat} {bytes : List Byte} (le : done ≤ size.toNat)
    (given : answer dev system addr size k done = some bytes) :
    done + bytes.length ≤ size.toNat := by
  have asked := dev.bounded k system _ _ bytes given
  have most := request_le (size - BitVec.ofNat 64 done)
  rw [left_toNat le] at most
  omega

theorem delivered_snoc {bytes : List Byte} : Delivered dev system addr size (chunks ++ [bytes]) ↔
    Delivered dev system addr size chunks ∧ chunks.flatten.length < size.toNat ∧
      answer dev system addr size chunks.length chunks.flatten.length = some bytes := by
  constructor
  · intro all
    refine ⟨fun j c at_j => ?_, ?_⟩
    · have inside := (List.getElem?_eq_some_iff.mp at_j).1
      have earlier := all j c (by rwa [List.getElem?_append_left inside])
      rwa [List.take_append_of_le_length (Nat.le_of_lt inside)] at earlier
    · have last := all chunks.length bytes (by rw [List.getElem?_concat_length])
      rwa [List.take_left] at last
  · rintro ⟨earlier, last⟩ j c at_j
    rcases Nat.lt_or_ge j chunks.length with inside | beyond
    · rw [List.getElem?_append_left inside] at at_j
      rw [List.take_append_of_le_length (Nat.le_of_lt inside)]
      exact earlier j c at_j
    · have bound := (List.getElem?_eq_some_iff.mp at_j).1
      rw [List.length_append, List.length_singleton] at bound
      obtain rfl : j = chunks.length := by omega
      rw [List.getElem?_concat_length] at at_j
      cases at_j
      rwa [List.take_left]

theorem delivered_le (all : Delivered dev system addr size chunks) :
    chunks.flatten.length ≤ size.toNat := by
  induction chunks using List.reverseRecOn with
  | nil => exact Nat.zero_le _
  | append_singleton chunks bytes ih =>
    obtain ⟨earlier, less, given⟩ := delivered_snoc.mp all
    rw [List.flatten_append, List.flatten_singleton, List.length_append]
    exact answer_le (Nat.le_of_lt less) given

theorem delivered_reaches {more : List (List Byte)}
    (all : Delivered dev system addr size (chunks ++ more)) :
    Reaches (timedBody dev system) (readAfter addr size chunks)
      (readAfter addr size (chunks ++ more)) := by
  induction more using List.reverseRecOn with
  | nil =>
    rw [List.append_nil]
    exact .refl
  | append_singleton more bytes ih =>
    rw [← List.append_assoc] at all ⊢
    obtain ⟨earlier, less, given⟩ := delivered_snoc.mp all
    refine (ih earlier).tail ?_
    unfold Goes
    rw [timedBody_after (Nat.le_of_lt less), if_neg (Nat.ne_of_lt less), given]

theorem timedStart_eq (addr size : BitVec 64) : timedStart addr size = readAfter addr size [] := by
  simp [timedStart, readAfter]

theorem reaches_iff (s : TimedRead) :
    Reaches (timedBody dev system) (timedStart addr size) s ↔
      ∃ chunks, Delivered dev system addr size chunks ∧ s = readAfter addr size chunks := by
  rw [timedStart_eq]
  constructor
  · intro reached
    induction reached with
    | refl => exact ⟨[], fun j c at_j => (nomatch at_j), rfl⟩
    | tail _ goes ih =>
      obtain ⟨chunks, all, rfl⟩ := ih
      unfold Goes at goes
      rw [timedBody_after (delivered_le all)] at goes
      split at goes
      · cases goes
      · rename_i part
        split at goes
        · cases goes
        · rename_i bytes given
          cases goes
          have less := Nat.lt_of_le_of_ne (delivered_le all) part
          exact ⟨chunks ++ [bytes], delivered_snoc.mpr ⟨all, less, given⟩, rfl⟩
  · rintro ⟨chunks, all, rfl⟩
    have whole : Delivered dev system addr size ([] ++ chunks) := all
    exact delivered_reaches whole

theorem flatten_silent (chunks : List (List Byte)) (n : Nat) :
    (chunks ++ List.replicate n []).flatten = chunks.flatten := by simp

theorem stalled_never_ends (stalls : Stalls dev system addr size) (r : List Byte × Ret) :
    ¬ Ends (timedBody dev system) (timedStart addr size) r := by
  obtain ⟨chunks, all, less, silent⟩ := stalls
  rw [Ends.reaches ((reaches_iff _).mpr ⟨chunks, all, rfl⟩)]
  refine never_ends (fun s => ∃ n, s = readAfter addr size (chunks ++ List.replicate n [])) ?_
    ⟨0, by rw [List.replicate_zero, List.append_nil]⟩ r
  rintro s ⟨n, rfl⟩
  have same := flatten_silent chunks n
  refine ⟨readAfter addr size (chunks ++ List.replicate (n + 1) []), ?_, n + 1, rfl⟩
  rw [timedBody_after (same ▸ Nat.le_of_lt less), same, if_neg (Nat.ne_of_lt less),
    silent _ (by simp), List.replicate_succ', ← List.append_assoc]

theorem silent_delivered (all : Delivered dev system addr size chunks)
    (less : chunks.flatten.length < size.toNat) {n : Nat}
    (silent : ∀ i < n, answer dev system addr size (chunks.length + i) chunks.flatten.length =
      some []) :
    Delivered dev system addr size (chunks ++ List.replicate n []) := by
  induction n with
  | zero => rwa [List.replicate_zero, List.append_nil]
  | succ n ih =>
    have same := flatten_silent chunks n
    rw [List.replicate_succ', ← List.append_assoc, delivered_snoc, same]
    refine ⟨ih fun i hi => silent i (Nat.lt_succ_of_lt hi), less, ?_⟩
    rw [List.length_append, List.length_replicate]
    exact silent n (Nat.lt_succ_self n)

theorem ends_of_not_stalls (moves : ¬ Stalls dev system addr size) :
    ∃ r, Ends (timedBody dev system) (timedStart addr size) r := by
  refine ends_of_progress (fun s => s.state.size.toNat) fun s reached => ?_
  obtain ⟨chunks, all, rfl⟩ := (reaches_iff s).mp reached
  by_cases whole : chunks.flatten.length = size.toNat
  · have turn : timedBody dev system (readAfter addr size chunks) =
        .leave (chunks.flatten, .ok) := by
      rw [timedBody_after (delivered_le all), if_pos whole]
    exact .inl ⟨_, (Ends.leave turn).mpr rfl⟩
  · have less := Nat.lt_of_le_of_ne (delivered_le all) whole
    have heard : ∃ i, answer dev system addr size (chunks.length + i) chunks.flatten.length ≠
        some [] := by
      by_contra none
      push Not at none
      refine moves ⟨chunks, all, less, fun k le => ?_⟩
      have silent := none (k - chunks.length)
      rwa [Nat.add_sub_cancel' le] at silent
    -- the device is silent until the first such call
    obtain ⟨n, loud, silent⟩ : ∃ n, answer dev system addr size (chunks.length + n)
        chunks.flatten.length ≠ some [] ∧ ∀ i < n, answer dev system addr size (chunks.length + i)
          chunks.flatten.length = some [] :=
      ⟨Nat.find heard, Nat.find_spec heard, fun i hi => not_not.mp (Nat.find_min heard hi)⟩
    have waited := silent_delivered all less silent
    have same := flatten_silent chunks n
    have later : (chunks ++ List.replicate n []).length = chunks.length + n := by simp
    have waits := delivered_reaches waited
    have turn : timedBody dev system (readAfter addr size (chunks ++ List.replicate n [])) = _ :=
      timedBody_after (delivered_le waited)
    rw [same, if_neg whole, later] at turn
    cases given : answer dev system addr size (chunks.length + n) chunks.flatten.length with
    | none =>
      rw [given] at turn
      exact .inl ⟨_, (Ends.reaches waits).mpr ((Ends.leave turn).mpr rfl)⟩
    | some bytes =>
      rw [given] at turn
      refine .inr ⟨_, waits.tail turn, ?_⟩
      have some_byte : 0 < bytes.length := by
        rw [List.length_pos_iff]
        rintro rfl
        exact loud given
      have le := answer_le (delivered_le all) given
      simp only [readAfter, List.flatten_append, List.flatten_singleton, same, List.length_append]
      rw [left_toNat le, left_toNat (delivered_le all)]
      omega

theorem reads_all_iff (dev : Device) (system : Bool) (addr size : BitVec 64) :
    ReadsAll dev system addr size ↔ ¬ Stalls dev system addr size := by
  constructor
  · rintro ⟨⟨r, ends⟩, -⟩ stalls
    exact stalled_never_ends stalls r ends
  · intro moves
    refine ⟨ends_of_not_stalls moves, fun written ends => ?_⟩
    obtain ⟨s, reached, leaves⟩ := ends_iff_reaches.mp ends
    obtain ⟨chunks, all, rfl⟩ := (reaches_iff s).mp reached
    rw [timedBody_after (delivered_le all)] at leaves
    split at leaves
    · rename_i whole
      cases leaves
      exact ⟨whole, chunks, all, rfl⟩
    · split at leaves <;> cases leaves

end

/-- Past the end of its file a device reads 0 bytes. -/
def atEnd : Device where
  read := fun _ _ _ _ => some []
  bounded := by
    rintro _ _ _ _ _ ⟨⟩
    exact Nat.zero_le _

theorem read_at_end_never_ends : ¬ ReadsAll atEnd false 0x1000#64 1#64 := by
  rintro ⟨⟨r, ends⟩, -⟩
  exact stalled_never_ends ⟨[], fun j c at_j => (nomatch at_j), by decide, fun k _ => rfl⟩ r ends

end Rocsift.Cmd
