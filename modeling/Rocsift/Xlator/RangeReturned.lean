import Rocsift.Xlator.RangeCleanup

/-! What a range translation returns: no run touches a freed node, and the list of one that succeeds
is that of the loop without a heap, in nodes one behind the other. A run that comes to an entry that
cannot be read returns nothing at all. -/
namespace Rocsift.Xlator
open Looping
open Blocks (Store Fault)

section
variable {supply : Nat → Bool} {mem : Memory} {r : Registers} {va size : BitVec 64}
  {combine : Bool} {list : Option Nat} {start : Store FragmentNode}

theorem finished_turn {s : RangeState} (finished : ¬s.cursor.addr < va + s.cursor.size)
    (memory : supply (start.calls + s.nodes.length) = true) :
    translateRangeOnBody supply mem (populateWalkHelper r) va combine list (stored start s) =
      .leave (.ok ⟨.success, some start.calls, listed start (s.nodes ++ [s.prev])⟩) := by
  have cursor : (stored start s).cursor = s.cursor := rfl
  simp only [translateRangeOnBody, cursor, if_neg finished, emit_stored memory]

theorem list_nonempty {fs : List Fragment}
    (translated : siftXlatorTranslateRange mem r va size combine (.list fs)) : fs ≠ [] := by
  obtain ⟨s, -, left⟩ := ends_iff_reaches.mp translated
  have shape := @range_turn mem (populateWalkHelper r) va combine s
  rw [left] at shape
  cases shape with
  | finished => exact List.append_ne_nil_of_right_ne_nil _ (List.cons_ne_nil _ _)

theorem list_returned {fs : List Fragment}
    (translated : siftXlatorTranslateRange mem r va size combine (.list fs))
    (memory : ∀ k < fs.length, supply (start.calls + k) = true) :
    siftXlatorTranslateRangeOn supply mem r va size combine list start
      (.ok ⟨.success, some start.calls, listed start fs⟩) := by
  obtain ⟨s, reached, left⟩ := ends_iff_reaches.mp translated
  have shape := @range_turn mem (populateWalkHelper r) va combine s
  rw [left] at shape
  cases shape with
  | finished finished =>
    have more : s.nodes.length < (s.nodes ++ [s.prev]).length := by
      rw [List.length_append]
      exact Nat.lt_succ_self _
    have supplied : Supplied supply start s := fun k less => memory k (Nat.lt_trans less more)
    have there := (@store_reaches_iff supply mem r va size combine list start _).mpr
      ⟨s, reached, supplied, rfl⟩
    exact ends_iff_reaches.mpr ⟨_, there, finished_turn finished (memory _ more)⟩

theorem returned_list {result : Except Fault Returned}
    (ended : siftXlatorTranslateRangeOn supply mem r va size combine list start result) :
    ∃ returned, result = .ok returned ∧ (returned.status = .success →
      ∃ fs, siftXlatorTranslateRange mem r va size combine (.list fs) ∧
        returned = ⟨.success, some start.calls, listed start fs⟩) := by
  obtain ⟨u, there, left⟩ := ends_iff_reaches.mp ended
  obtain ⟨s, reached, -, rfl⟩ := store_reaches_iff.mp there
  have shape := stored_turn supply mem (populateWalkHelper r) va combine list start s
  rw [left] at shape
  cases shape with
  | unwalked => exact ⟨_, rfl, by rintro ⟨⟩⟩
  | overlap => exact ⟨_, rfl, by rintro ⟨⟩⟩
  | exit => exact ⟨_, rfl, by rintro ⟨⟩⟩
  | no_memory => exact ⟨_, rfl, by rintro ⟨⟩⟩
  | success finished memory =>
    have last : translateRangeOnBody supply mem (populateWalkHelper r) va combine list
        (stored start s) = _ := finished_turn finished memory
    have turn := left.symm.trans last
    refine ⟨_, rfl, fun _ => ⟨s.nodes ++ [s.prev], ?_, ?_⟩⟩
    · exact ends_iff_reaches.mpr ⟨s, reached, body_done combine s finished⟩
    · exact Except.ok.inj (Turn.leave.inj turn)

end

inductive EntryBytes where
  | failed (strerror : String)
  | short
  | all (val : BitVec 64)

/-- The entry, or what is printed on stdout before the process exits with -1. -/
def readEnt : EntryBytes → Except String (BitVec 64)
  | .failed strerror => .error ("An error occured: " ++ strerror ++ "\n")
  | .short => .error "Failed to read 8B at once, what to do\n"
  | .all val => .ok val

/-- The entries that can be read; what stands for the others is never used. -/
def entryValues (reads : EntryAddr → EntryBytes) : Memory := fun e =>
  match reads e with
  | .all val => val
  | _ => 0#64

section
variable (supply : Nat → Bool) (reads : EntryAddr → EntryBytes) (r : Registers)
  (va size : BitVec 64) (combine : Bool)

def readingWalk (h : WalkHelper) (c : Cursor) : Except String Unit :=
  if c.addr < va + c.size then
    ((walkPt h c.cache c.addr).attempt fun e => readEnt (reads e)).map fun _ => ()
  else .ok ()

/-- A call ends so, or the process has exited with this heap at an entry that cannot be read. -/
def siftXlatorTranslateRangeReading (list : Option Nat) (heap : Store FragmentNode)
    (result : Except (String × Store FragmentNode) (Except Fault Returned)) : Prop :=
  Ends
    (guarded
      (fun s => (readingWalk reads va (populateWalkHelper r) s.cursor).mapError (·, s.heap))
      (translateRangeOnBody supply (entryValues reads) (populateWalkHelper r) va combine list))
    (storeStart va size heap) result

def EntriesRead : Prop :=
  ∀ s, RangeReached (entryValues reads) r va size combine s →
    s.cursor.addr < va + s.cursor.size →
      ∀ e ∈ (walkPt (populateWalkHelper r) s.cursor.cache s.cursor.addr).trace (entryValues reads),
        ∃ val, reads e = .all val

end

section
variable {supply : Nat → Bool} {reads : EntryAddr → EntryBytes} {r : Registers}
  {va size : BitVec 64} {combine : Bool} {list : Option Nat} {start : Store FragmentNode}

theorem readingWalk_ok {h : WalkHelper} {c : Cursor}
    (entries : c.addr < va + c.size →
      ∀ e ∈ (walkPt h c.cache c.addr).trace (entryValues reads), ∃ val, reads e = .all val) :
    readingWalk reads va h c = .ok () := by
  unfold readingWalk
  split
  · rename_i more
    have answered : ∀ e ∈ (walkPt h c.cache c.addr).trace (entryValues reads),
        readEnt (reads e) = .ok (entryValues reads e) := by
      intro e he
      obtain ⟨val, found⟩ := entries more e he
      simp only [found, readEnt, entryValues]
    rw [Reading.attempt_ok _ answered]
    rfl
  · rfl

theorem readingWalk_error {h : WalkHelper} {c : Cursor} {line : String}
    (failed : readingWalk reads va h c = .error line) : ∃ e, readEnt (reads e) = .error line := by
  unfold readingWalk at failed
  split at failed
  · cases walk : (walkPt h c.cache c.addr).attempt fun e => readEnt (reads e) with
    | error line' =>
      rw [walk] at failed
      cases failed
      exact Reading.attempt_error walk
    | ok w =>
      rw [walk] at failed
      cases failed
  · cases failed

theorem reading_returned {result : Except Fault Returned}
    (entries : EntriesRead reads r va size combine)
    (ended : siftXlatorTranslateRangeOn supply (entryValues reads) r va size combine list start
      result) :
    siftXlatorTranslateRangeReading supply reads r va size combine list start (.ok result) := by
  apply ends_guarded_ok ended
  intro t there
  obtain ⟨s, reached, -, rfl⟩ := store_reaches_iff.mp there
  have cursor : (stored start s).cursor = s.cursor := rfl
  rw [cursor, readingWalk_ok (entries s reached)]
  rfl

theorem returned_reading
    {result : Except (String × Store FragmentNode) (Except Fault Returned)}
    (ended : siftXlatorTranslateRangeReading supply reads r va size combine list start result) :
    (∃ returned, result = .ok returned ∧ siftXlatorTranslateRangeOn supply (entryValues reads) r va
        size combine list start returned) ∨
      ∃ e line heap, readEnt (reads e) = .error line ∧ result = .error (line, heap) := by
  rcases ends_of_guarded ended with ⟨returned, rfl, ends⟩ | ⟨t, unread, -, checked, rfl⟩
  · exact .inl ⟨returned, rfl, ends⟩
  · right
    cases walk : readingWalk reads va (populateWalkHelper r) t.cursor with
    | error line =>
      rw [walk] at checked
      cases checked
      obtain ⟨e, failed⟩ := readingWalk_error walk
      exact ⟨e, line, t.heap, failed, rfl⟩
    | ok u =>
      rw [walk] at checked
      cases checked

end

end Rocsift.Xlator
