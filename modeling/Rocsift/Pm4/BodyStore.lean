import Rocsift.Base.Blocks
import Rocsift.Pm4.Framing

/-! The packet decoders with their allocations: the body of an entry is a block, and an array that
is given up drops the entries decoded so far with their pointers. -/
namespace Rocsift.Pm4.Owned
open Blocks (Store Fault)

abbrev Bodies := Store (Option Body)

structure Entry where
  header : Header
  body : Nat
  deriving DecidableEq

/-- The allocations of a call of `parseRunlistEntries` that succeed: the bodies by their number on
the heap, the vectors of sizes and of entries, and the copy of the latter that is returned. -/
structure Supply where
  body : Nat → Bool
  sizes : Bool
  entries : Bool
  copied : Bool

section
variable (mem : Nat → Dword)

def parseRunlistEntry (body : Nat → Bool) (data : Span) (b : Bodies) :
    Except Fault (ResultStatus Entry × Bodies) :=
  if data.length = 0 then return (.error, b)
  else
    let header := (data.index 0).value mem
    if typeField header > 2#64 then return (.error, b)
    else if data.length - 1 < (entryHeader header).count.toNat then return (.error, b)
    else
      let made := b.malloc (body b.calls) none
      match made.1 with
      | none => return (.error, made.2)
      | some block =>
        let body_data := data.subspan 1 (data.length - 1)
        if opcodeField header = opMapProcess then do
          let b ← made.2.write block
            (some (.mapProcess ((parseBodyMapProcess body_data).value mem)))
          return (.ok ⟨entryHeader header, block⟩, b)
        else if opcodeField header = opMapQueues then do
          let b ← made.2.write block (some (.mapQueues ((parseBodyMapQueues body_data).value mem)))
          return (.ok ⟨entryHeader header, block⟩, b)
        else do
          let b ← made.2.free (some block)
          return (.error, b)

/-- The second loop of `parseRunlistEntries`: at a failure the vector of entries is dropped. -/
def parseEntries (body : Nat → Bool) (data : Span) : Nat → List Nat → Bodies →
    Except Fault (ResultStatus (List Entry) × Bodies)
  | _, [], b => return (.ok [], b)
  | start, entry_size :: sizes, b => do
    let (result, b) ← parseRunlistEntry mem body (data.subspan start entry_size) b
    match result.value with
    | some entry =>
      let (rest, b) ← parseEntries body data (start + entry_size) sizes b
      match rest.value with
      | some entries => return (.ok (entry :: entries), b)
      | none => return (.error, b)
    | none => return (.error, b)

/-- A vector that cannot grow throws, and the handler returns an error. -/
def parseRunlistEntries (supply : Supply) (data : Span) (b : Bodies) :
    Except Fault (ResultStatus (List Entry) × Bodies) :=
  if data.length = 0 then return (.error, b)
  else if !supply.sizes then return (.error, b)
  else
    let framed := (entrySizes data data.length 0).value mem
    if framed.1 > data.length then return (.error, b)
    else if !supply.entries then return (.error, b)
    else do
      let (result, b) ← parseEntries mem supply.body data 0 framed.2 b
      if !supply.copied then return (.error, b) else return (result, b)

end

section
variable {mem : Nat → Dword} {body : Nat → Bool} {data : Span} {b : Bodies}

theorem parseRunlistEntry_ok {e : RunlistEntry}
    (accepted : (Pm4.parseRunlistEntry data).value mem = .ok e) (memory : body b.calls = true) :
    parseRunlistEntry mem body data b =
      .ok (.ok ⟨e.header, b.calls⟩, b.add (some e.body)) := by
  unfold Pm4.parseRunlistEntry at accepted
  unfold parseRunlistEntry
  simp only [Reading.value_ite, Reading.value_bind, Reading.value_pure] at accepted
  have written : ∀ v, (b.add none).write b.calls v = .ok (b.add v) := fun v =>
    (Store.write_ok (Store.add_self none)).trans (congrArg Except.ok (Store.put_add none v))
  split at accepted
  · cases accepted
  · rename_i some_dword
    split at accepted
    · cases accepted
    · rename_i type
      split at accepted
      · cases accepted
      · rename_i fits
        simp only [if_neg some_dword, if_neg type, if_neg fits, Store.malloc, memory, if_true,
          written, bind, Except.bind, pure, Except.pure]
        split at accepted
        · rename_i process
          cases accepted
          rw [if_pos process]
        · rename_i other
          split at accepted
          · rename_i queues
            cases accepted
            rw [if_neg other, if_pos queues]
          · cases accepted

theorem parseRunlistEntry_error
    (refused : (Pm4.parseRunlistEntry data).value mem = .error ∨ body b.calls = false) :
    ∃ b', parseRunlistEntry mem body data b = .ok (.error, b') ∧ b'.cells = b.cells ∧
      b.calls ≤ b'.calls := by
  unfold Pm4.parseRunlistEntry at refused
  unfold parseRunlistEntry
  dsimp only
  simp only [Reading.value_ite, Reading.value_bind, Reading.value_pure] at refused
  split
  · exact ⟨b, rfl, rfl, Nat.le_refl _⟩
  · rename_i some_dword
    split
    · exact ⟨b, rfl, rfl, Nat.le_refl _⟩
    · rename_i type
      split
      · exact ⟨b, rfl, rfl, Nat.le_refl _⟩
      · rename_i fits
        cases memory : body b.calls with
        | false => exact ⟨b.skip, rfl, rfl, Nat.le_succ _⟩
        | true =>
          have freed : (b.add none).free (some b.calls) = .ok ((b.add none).without [b.calls]) :=
            Store.free_ok (Store.add_self none)
          have cells : ((b.add none).without [b.calls]).cells = b.cells := by
            have gone := Store.without_add (s := b) none []
            rwa [Store.without_nil] at gone
          simp only [if_neg some_dword, if_neg type, if_neg fits, memory, Bool.true_eq_false,
            or_false] at refused
          simp only [Store.malloc, if_true, freed, bind, Except.bind, pure, Except.pure]
          split
          · rename_i process
            rw [if_pos process] at refused
            cases refused
          · rename_i other
            split
            · rename_i queues
              rw [if_neg other, if_pos queues] at refused
              cases refused
            · exact ⟨_, rfl, cells, Nat.le_succ _⟩

end

structure Grown (b b' : Bodies) (m : Nat) : Prop where
  calls : b.calls + m ≤ b'.calls
  old : ∀ i, i < b.calls → b'.cells i = b.cells i
  made : ∀ i, b.calls ≤ i → i < b.calls + m → ∃ v, b'.cells i = some v
  rest : ∀ i, b.calls + m ≤ i → b'.cells i = none

namespace Grown
variable {b c d : Bodies} {m n : Nat}

theorem of_same (calls : b.calls ≤ c.calls) (same : c.cells = b.cells) : Grown b c 0 where
  calls := calls
  old i _ := congrFun same i
  made _ ge lt := absurd lt (Nat.not_lt.mpr ge)
  rest _ late := (congrFun same _).trans (b.fresh _ late)

theorem cells_iff (grown : Grown b c m) : c.cells = b.cells ↔ m = 0 := by
  constructor
  · intro same
    by_contra some_body
    obtain ⟨v, found⟩ := grown.made b.calls (Nat.le_refl _) (by omega)
    rw [same, b.fresh b.calls (Nat.le_refl _)] at found
    cases found
  · rintro rfl
    funext i
    rcases Nat.lt_or_ge i b.calls with early | late
    · exact grown.old i early
    · exact (grown.rest i late).trans (b.fresh i late).symm

theorem add (v : Option Body) (grown : Grown (b.add v) c n) : Grown b c (n + 1) where
  calls := by
    have more : b.calls + 1 + n ≤ c.calls := grown.calls
    omega
  old i early := by
    have kept := grown.old i (Nat.lt_succ_of_lt early)
    rw [kept, Store.add_cells, if_neg (Nat.ne_of_lt early)]
  made i ge lt := by
    rcases Nat.eq_or_lt_of_le ge with rfl | later
    · exact ⟨v, (grown.old b.calls (Nat.lt_succ_self _)).trans (Store.add_self v)⟩
    · refine grown.made i later ?_
      change i < b.calls + 1 + n
      omega
  rest i late := by
    refine grown.rest i ?_
    change b.calls + 1 + n ≤ i
    omega

end Grown

def leading (body : Nat → Bool) : Nat → List (List Dword) → Nat
  | _, [] => 0
  | k, p :: ps =>
    if Accepted (packetHeader p) ∧ body k = true then leading body (k + 1) ps + 1 else 0

def Loaded (b : Bodies) (e : Entry) (value : RunlistEntry) : Prop :=
  e.header = value.header ∧ b.cells e.body = some (some value.body)

structure LoopResult (body : Nat → Bool) (ps : List (List Dword)) (b : Bodies)
    (values : ResultStatus (List RunlistEntry)) (r : ResultStatus (List Entry)) (b' : Bodies) :
    Prop where
  grown : Grown b b' (leading body b.calls ps)
  failed : leading body b.calls ps ≠ ps.length → r = .error
  decoded : leading body b.calls ps = ps.length → ∃ entries es, r = .ok entries ∧
    values = .ok es ∧ entries.map Entry.body = List.range' b.calls ps.length ∧
    List.Forall₂ (Loaded b') entries es

section
variable (ds : List Dword) (past : Nat → Dword)

theorem parseEntries_result (body : Nat → Bool) (ps : List (List Dword))
    (packets : ∀ p ∈ ps, IsPacket p) {start : Nat} (h : ds.drop start = ps.flatten) (b : Bodies) :
    ∃ r b', parseEntries (memory ds past) body (whole ds) start (ps.map List.length) b =
        .ok (r, b') ∧
      LoopResult body ps b
        ((Pm4.parseEntries (whole ds) start (ps.map List.length)).value (memory ds past)) r b' := by
  induction ps generalizing start b with
  | nil =>
    refine ⟨.ok [], b, rfl, Grown.of_same (Nat.le_refl _) rfl, fun no => absurd rfl no, fun _ => ?_⟩
    exact ⟨[], [], rfl, rfl, rfl, .nil⟩
  | cons p ps ih =>
    obtain ⟨window, tail, result⟩ := next_packet ds past h (packets p List.mem_cons_self)
    by_cases decodes : Accepted (packetHeader p) ∧ body b.calls = true
    · have count : leading body b.calls (p :: ps) = leading body (b.calls + 1) ps + 1 :=
        if_pos decodes
      rw [if_pos decodes.1] at result
      obtain ⟨v, accepted⟩ := result
      have first := parseRunlistEntry_ok accepted decodes.2
      obtain ⟨r, b', run, loop⟩ := ih (fun q hq => packets q (List.mem_cons_of_mem p hq)) tail
        (b.add (some v))
      have calls : (b.add (some v)).calls = b.calls + 1 := rfl
      have failed := loop.failed
      have decoded := loop.decoded
      rw [calls] at failed decoded
      have grown := loop.grown.add
      rw [calls] at grown
      by_cases all : leading body (b.calls + 1) ps = ps.length
      · obtain ⟨entries, es, rfl, values, bodies, loaded⟩ := decoded all
        refine ⟨.ok (⟨entryHeader (packetHeader p), b.calls⟩ :: entries), b', ?_, ?_⟩
        · rw [List.map_cons, parseEntries, window]
          simp only [first, bind, Except.bind, ResultStatus.ok, run, pure, Except.pure]
        · refine ⟨by rw [count]; exact grown, fun no => ?_, fun _ => ?_⟩
          · exact absurd (by rw [count, all, List.length_cons]) no
          · refine ⟨_, ⟨entryHeader (packetHeader p), v⟩ :: es, rfl, ?_, ?_, ?_⟩
            · rw [List.map_cons, Pm4.parseEntries, window]
              simp only [Reading.value_bind, accepted, ResultStatus.ok, values, Reading.value_pure]
            · rw [List.map_cons, bodies, List.length_cons, List.range'_succ]
            · refine .cons ⟨rfl, ?_⟩ loaded
              exact (loop.grown.old b.calls (Nat.lt_succ_self _)).trans (Store.add_self _)
      · have error := failed all
        refine ⟨.error, b', ?_, ?_⟩
        · rw [List.map_cons, parseEntries, window]
          simp only [first, bind, Except.bind, ResultStatus.ok, run, error, ResultStatus.error,
            pure, Except.pure]
        · refine ⟨by rw [count]; exact grown, fun _ => rfl, fun yes => ?_⟩
          rw [count, List.length_cons] at yes
          exact absurd (Nat.succ.inj yes) all
    · have count : leading body b.calls (p :: ps) = 0 := if_neg decodes
      have refused : (Pm4.parseRunlistEntry ⟨start, p.length⟩).value (memory ds past) = .error ∨
          body b.calls = false := by
        by_cases accepted : Accepted (packetHeader p)
        · exact Or.inr (Bool.eq_false_iff.mpr fun memory => decodes ⟨accepted, memory⟩)
        · rw [if_neg accepted] at result
          exact Or.inl result
      obtain ⟨b', first, same, calls⟩ := parseRunlistEntry_error refused
      refine ⟨.error, b', ?_, ?_⟩
      · rw [List.map_cons, parseEntries, window]
        simp only [first, bind, Except.bind, ResultStatus.error, pure, Except.pure]
      · refine ⟨by rw [count]; exact Grown.of_same calls same, fun _ => rfl, fun yes => ?_⟩
        rw [count] at yes
        cases yes

structure Entered (supply : Supply) (ps : List (List Dword)) : Prop where
  some_packet : ps ≠ []
  packets : ∀ p ∈ ps, IsPacket p
  whole : ds = ps.flatten
  sizes : supply.sizes = true
  entries : supply.entries = true

theorem parseRunlistEntries_outside {supply : Supply} (outside : ∀ ps, ¬ Entered ds supply ps)
    (b : Bodies) :
    parseRunlistEntries (memory ds past) supply (whole ds) b = .ok (.error, b) := by
  have length : (whole ds).length = ds.length := rfl
  unfold parseRunlistEntries
  dsimp only
  split
  · rfl
  · rename_i some_dword
    split
    · rfl
    · rename_i sizes
      split
      · rfl
      · rename_i fits
        split
        · rfl
        · rename_i entries
          obtain ⟨ps, some_packet, packets, flat, _⟩ :=
            packets_of_fits ds past some_dword (Nat.le_of_not_gt fits)
          exact absurd ⟨some_packet, packets, flat, by simpa using sizes, by simpa using entries⟩
            (outside ps)

theorem parseRunlistEntries_entered {supply : Supply} {ps : List (List Dword)}
    (entered : Entered ds supply ps) (b : Bodies) :
    ∃ r b', parseRunlistEntries (memory ds past) supply (whole ds) b =
        .ok (if supply.copied then r else .error, b') ∧
      LoopResult supply.body ps b
        ((Pm4.parseRunlistEntries (whole ds)).value (memory ds past)) r b' := by
  obtain ⟨some_packet, packets, whole_array, sizes, entries⟩ := entered
  obtain ⟨some_dword, framed⟩ := entrySizes_framed ds past some_packet packets whole_array
  have length : (whole ds).length = ds.length := rfl
  have from_start : ds.drop 0 = ps.flatten := whole_array
  obtain ⟨r, b', run, loop⟩ := parseEntries_result ds past supply.body ps packets from_start b
  refine ⟨r, b', ?_, ?_⟩
  · rw [parseRunlistEntries, if_neg some_dword]
    simp only [sizes, entries, length, framed, Nat.lt_irrefl, gt_iff_lt, Bool.not_true,
      Bool.false_eq_true, if_false, run, bind, Except.bind, pure, Except.pure]
    cases supply.copied <;> rfl
  · rw [Pm4.parseRunlistEntries, if_neg some_dword]
    simp only [Reading.value_bind, length, framed, Nat.lt_irrefl, gt_iff_lt, if_false]
    exact loop

def CleanRejection (supply : Supply) (b : Bodies) : Prop :=
  ∃ r b', parseRunlistEntries (memory ds past) supply (whole ds) b = .ok (r, b') ∧
    (r.status = .error → b'.cells = b.cells)

/-- Nothing fails behind a packet that has been decoded: the first packet fails already, or none
does and the vector of entries is copied. -/
def NothingBehind (supply : Supply) (b : Bodies) : Prop := ∀ ps, Entered ds supply ps →
  leading supply.body b.calls ps = 0 ∨
    (leading supply.body b.calls ps = ps.length ∧ supply.copied = true)

theorem clean_rejection_iff (supply : Supply) (b : Bodies) :
    CleanRejection ds past supply b ↔ NothingBehind ds supply b := by
  unfold CleanRejection
  by_cases inside : ∃ ps, Entered ds supply ps
  · obtain ⟨ps, entered⟩ := inside
    constructor
    · rintro ⟨r, b', run, clean⟩ qs other
      obtain ⟨r', b'', run', loop⟩ := parseRunlistEntries_entered ds past other b
      rw [run'] at run
      cases run
      by_cases all : leading supply.body b.calls qs = qs.length
      · cases copied : supply.copied with
        | true => exact Or.inr ⟨all, rfl⟩
        | false =>
          rw [copied] at clean
          exact Or.inl (loop.grown.cells_iff.mp (clean rfl))
      · have error := loop.failed all
        rw [error, ite_self] at clean
        exact Or.inl (loop.grown.cells_iff.mp (clean rfl))
    · intro nothing
      obtain ⟨r, b', run, loop⟩ := parseRunlistEntries_entered ds past entered b
      refine ⟨_, b', run, fun error => ?_⟩
      rcases nothing ps entered with none | ⟨all, copied⟩
      · exact loop.grown.cells_iff.mpr none
      · obtain ⟨entries, es, rfl, _⟩ := loop.decoded all
        rw [copied, if_pos rfl] at error
        cases error
  · have outside : ∀ ps, ¬ Entered ds supply ps := fun ps entered => inside ⟨ps, entered⟩
    refine iff_of_true ⟨.error, b, parseRunlistEntries_outside ds past outside b, fun _ => rfl⟩ ?_
    exact fun ps entered => absurd entered (outside ps)

end

theorem clean_rejection_entry (mem : Nat → Dword) (body : Nat → Bool) (data : Span) (b : Bodies) :
    ∃ r b', parseRunlistEntry mem body data b = .ok (r, b') ∧
      (r.status = .error → b'.cells = b.cells) := by
  rcases parseRunlistEntry_result mem data with refused | ⟨e, accepted⟩
  · obtain ⟨b', run, same, _⟩ := @parseRunlistEntry_error mem body data b (Or.inl refused)
    exact ⟨.error, b', run, fun _ => same⟩
  · cases memory : body b.calls with
    | true =>
      refine ⟨_, _, parseRunlistEntry_ok accepted memory, fun error => ?_⟩
      cases error
    | false =>
      obtain ⟨b', run, same, _⟩ := parseRunlistEntry_error (Or.inr memory)
      exact ⟨.error, b', run, fun _ => same⟩

/-- The decoder of one entry never leaves a body behind at an error. The decoder of an array leaves
none exactly when nothing fails behind a packet that it has decoded. -/
theorem rejected_bodies_iff (ds : List Dword) (past : Nat → Dword) (supply : Supply) (b : Bodies) :
    (∀ (mem : Nat → Dword) (body : Nat → Bool) (data : Span),
      ∃ r b', parseRunlistEntry mem body data b = .ok (r, b') ∧
        (r.status = .error → b'.cells = b.cells)) ∧
    (CleanRejection ds past supply b ↔ NothingBehind ds supply b) :=
  ⟨fun mem body data => clean_rejection_entry mem body data b,
    clean_rejection_iff ds past supply b⟩

def Supply.plenty : Supply := ⟨fun _ => true, true, true, true⟩

def secondRefused : List Dword :=
  [0xC005A200#32, 0#32, 0#32, 0#32, 0#32, 0#32, 0#32, 0xC000A500#32, 0#32]

theorem first_body_left :
    ((parseRunlistEntries (memory secondRefused fun _ => 0#32) Supply.plenty (whole secondRefused)
        Store.empty).map fun r => (r.1.status, (r.2.cells 0).isSome, r.2.calls)) =
      .ok (.error, true, 2) ∧
    ¬ CleanRejection secondRefused (fun _ => 0#32) Supply.plenty Store.empty := by
  refine ⟨by decide +kernel, ?_⟩
  rw [clean_rejection_iff]
  intro nothing
  have entered : Entered secondRefused Supply.plenty
      [secondRefused.take 7, secondRefused.drop 7] :=
    ⟨by decide, by decide, rfl, rfl, rfl⟩
  rcases nothing _ entered with none | ⟨all, -⟩
  · exact absurd none (by decide)
  · exact absurd all (by decide)

end Rocsift.Pm4.Owned
