import Rocsift.Pm4.Packet

/-! What the packet decoders read and how an array is framed into packets. The sizes come from
the headers alone; the body decoders read fixed positions whatever the header says. -/
namespace Rocsift.Pm4

def Accepted (header : Dword) : Prop :=
  typeField header ≤ 2#64 ∧
    (opcodeField header = opMapProcess ∨ opcodeField header = opMapQueues)

instance (header : Dword) : Decidable (Accepted header) :=
  inferInstanceAs (Decidable (_ ∧ (_ ∨ _)))

def bodyNeed (opcode : BitVec 8) : Nat := if opcode = opMapProcess then 20 else 6

def packetHeader (p : List Dword) : Dword := p.headD 0#32

def IsPacket : List Dword → Prop
  | [] => False
  | header :: body => body.length = (bodyCount header).toNat

instance (p : List Dword) : Decidable (IsPacket p) := by
  cases p <;> simp only [IsPacket] <;> infer_instance

def mapProcessReads : List Nat :=
  [0, 0, 0, 0, 0, 0, 0, 1, 2, 3, 4, 5, 6, 7, 8, 10, 11, 12, 12, 12, 12, 12, 12, 13, 14, 15, 16,
    17, 18, 19]

def mapQueuesReads : List Nat := [0, 0, 0, 0, 0, 0, 0, 0, 0, 1, 1, 2, 3, 4, 5]

def bodyReads (opcode : BitVec 8) : List Nat :=
  if opcode = opMapProcess then mapProcessReads else mapQueuesReads

@[simp] theorem parseBodyMapProcess_trace (s : Span) (mem : Nat → Dword) :
    (parseBodyMapProcess s).trace mem = mapProcessReads.map (s.arr + ·) := rfl

@[simp] theorem parseBodyMapQueues_trace (s : Span) (mem : Nat → Dword) :
    (parseBodyMapQueues s).trace mem = mapQueuesReads.map (s.arr + ·) := rfl

@[simp] theorem opMapQueues_ne : opMapQueues ≠ opMapProcess := by decide

theorem bodyReads_lt (opcode : BitVec 8) : ∀ i ∈ bodyReads opcode, i < bodyNeed opcode := by
  unfold bodyReads bodyNeed
  split <;> decide

theorem bodyReads_last (opcode : BitVec 8) : bodyNeed opcode - 1 ∈ bodyReads opcode := by
  unfold bodyReads bodyNeed
  split <;> decide

theorem bodyNeed_pos (opcode : BitVec 8) : 0 < bodyNeed opcode := by
  unfold bodyNeed
  split <;> decide

theorem slice_dword (d : Dword) (msb lsb : Nat) (h : msb < 64) (le : lsb ≤ msb) :
    (slice (d.setWidth 64) msb lsb).toNat = d.toNat / 2 ^ lsb % 2 ^ (msb + 1 - lsb) := by
  have wide : (d.setWidth 64).toNat = d.toNat :=
    BitVec.toNat_setWidth_of_le (by decide : 32 ≤ 64)
  rw [slice, BitField.extract_eq_div_mod _ h le, wide]

theorem bodyCount_toNat (header : Dword) :
    (bodyCount header).toNat = header.toNat / 2 ^ 16 % 2 ^ 14 + 1 := by
  have field := slice_dword header 29 16 (by decide) (by decide)
  have small : header.toNat / 2 ^ 16 % 2 ^ 14 < 2 ^ 14 := Nat.mod_lt _ (by decide)
  rw [bodyCount, BitVec.toNat_add, field, BitVec.toNat_one (by decide)]
  exact Nat.mod_eq_of_lt (by omega)

theorem entryHeader_count (header : Dword) :
    (entryHeader header).count.toNat = (bodyCount header).toNat := by
  have small : header.toNat / 2 ^ 16 % 2 ^ 14 < 2 ^ 14 := Nat.mod_lt _ (by decide)
  rw [entryHeader, BitVec.toNat_setWidth, bodyCount_toNat, Nat.mod_eq_of_lt (by omega)]

section
variable (mem : Nat → Dword) (s : Span)

theorem parseRunlistEntry_run (len : s.length = (bodyCount (mem s.arr)).toNat + 1) :
    if Accepted (mem s.arr) then
      (∃ body, (parseRunlistEntry s).value mem = .ok ⟨entryHeader (mem s.arr), body⟩) ∧
        (parseRunlistEntry s).trace mem =
          s.arr :: (bodyReads (opcodeField (mem s.arr))).map (s.arr + 1 + ·)
    else (parseRunlistEntry s).value mem = .error ∧ (parseRunlistEntry s).trace mem = [s.arr] := by
  have some_dword : s.length ≠ 0 := by omega
  have fits : ¬ s.length - 1 < (entryHeader (mem s.arr)).count.toNat := by
    rw [entryHeader_count]
    omega
  by_cases type : typeField (mem s.arr) ≤ 2#64
  · have type' : ¬ typeField (mem s.arr) > 2#64 := BitVec.not_lt.mpr type
    by_cases process : opcodeField (mem s.arr) = opMapProcess
    · rw [if_pos ⟨type, Or.inl process⟩, process]
      constructor
      · exact ⟨_, by simp [parseRunlistEntry, Span.index, some_dword, fits, type', process]; rfl⟩
      · simp [parseRunlistEntry, Span.index, some_dword, fits, type', process, bodyReads,
          Span.subspan]
    · by_cases queues : opcodeField (mem s.arr) = opMapQueues
      · rw [if_pos ⟨type, Or.inr queues⟩, bodyReads, if_neg process]
        constructor
        · exact ⟨_, by simp [parseRunlistEntry, Span.index, some_dword, fits, type', queues]; rfl⟩
        · simp [parseRunlistEntry, Span.index, some_dword, fits, type', queues, Span.subspan]
      · rw [if_neg (fun h => h.2.elim process queues)]
        simp [parseRunlistEntry, Span.index, some_dword, fits, type', process, queues]
  · have type' : typeField (mem s.arr) > 2#64 := BitVec.not_le.mp type
    rw [if_neg (fun h => type h.1)]
    simp [parseRunlistEntry, Span.index, some_dword, type']

theorem parseRunlistEntry_value (len : s.length = (bodyCount (mem s.arr)).toNat + 1) :
    if Accepted (mem s.arr) then
      ∃ body, (parseRunlistEntry s).value mem = .ok ⟨entryHeader (mem s.arr), body⟩
    else (parseRunlistEntry s).value mem = .error := by
  have run := parseRunlistEntry_run mem s len
  split at run
  · rename_i accepted
    exact (if_pos accepted).mpr run.1
  · rename_i refused
    exact (if_neg refused).mpr run.1

theorem parseRunlistEntry_trace (len : s.length = (bodyCount (mem s.arr)).toNat + 1) :
    (parseRunlistEntry s).trace mem =
      s.arr :: (if Accepted (mem s.arr) then
        (bodyReads (opcodeField (mem s.arr))).map (s.arr + 1 + ·) else []) := by
  have run := parseRunlistEntry_run mem s len
  split at run
  · rename_i accepted
    rw [if_pos accepted, run.2]
  · rename_i refused
    rw [if_neg refused, run.2]

theorem reads_held_iff (len : s.length = (bodyCount (mem s.arr)).toNat + 1) :
    (∀ i ∈ (parseRunlistEntry s).trace mem, s.Holds i) ↔
      (Accepted (mem s.arr) → bodyNeed (opcodeField (mem s.arr)) ≤ s.length - 1) := by
  rw [parseRunlistEntry_trace mem s len]
  constructor
  · intro held accepted
    rw [if_pos accepted] at held
    have last := bodyReads_last (opcodeField (mem s.arr))
    have inside := held _ (List.mem_cons_of_mem _ (List.mem_map_of_mem last))
    have upper := inside.2
    have pos := bodyNeed_pos (opcodeField (mem s.arr))
    omega
  · intro full i hi
    rcases List.mem_cons.mp hi with rfl | hi
    · exact ⟨Nat.le_refl _, by omega⟩
    · split at hi
      · rename_i accepted
        obtain ⟨k, hk, rfl⟩ := List.mem_map.mp hi
        have below := bodyReads_lt _ k hk
        have need := full accepted
        exact ⟨by omega, by omega⟩
      · cases hi

end

/-- The spans that the second loop hands to `parseRunlistEntry`, up to the one that fails. -/
def decoded (mem : Nat → Dword) (data : Span) : Nat → List Nat → List Span
  | _, [] => []
  | start, entry_size :: sizes =>
    let s := data.subspan start entry_size
    s :: if ((parseRunlistEntry s).value mem).status = .success then
      decoded mem data (start + entry_size) sizes else []

/-- The packets that a call of `parseRunlistEntries` frames and decodes. -/
def packetSpans (mem : Nat → Dword) (data : Span) : List Span :=
  if data.length = 0 then []
  else
    let framed := (entrySizes data data.length 0).value mem
    if framed.1 > data.length then [] else decoded mem data 0 framed.2

theorem parseRunlistEntry_result (mem : Nat → Dword) (s : Span) :
    (parseRunlistEntry s).value mem = .error ∨ ∃ e, (parseRunlistEntry s).value mem = .ok e := by
  unfold parseRunlistEntry
  simp only [Reading.value_ite, Reading.value_bind, Reading.value_pure]
  split
  · exact Or.inl rfl
  · split
    · exact Or.inl rfl
    · split
      · exact Or.inl rfl
      · split
        · exact Or.inr ⟨_, rfl⟩
        · split
          · exact Or.inr ⟨_, rfl⟩
          · exact Or.inl rfl

theorem parseEntries_trace (mem : Nat → Dword) (data : Span) (start : Nat) (sizes : List Nat) :
    (parseEntries data start sizes).trace mem =
      (decoded mem data start sizes).flatMap fun s => (parseRunlistEntry s).trace mem := by
  induction sizes generalizing start with
  | nil => rfl
  | cons entry_size sizes ih =>
    rw [parseEntries, decoded, Reading.trace_bind, List.flatMap_cons]
    congr 1
    rcases parseRunlistEntry_result mem (data.subspan start entry_size) with h | ⟨e, h⟩
    · simp [h, ResultStatus.error]
    · simp only [h, ResultStatus.ok, Reading.trace_bind, if_pos, ← ih]
      split <;> simp

section
variable (ds : List Dword) (past : Nat → Dword)

theorem memory_head {start : Nat} {header : Dword} {rest : List Dword}
    (h : ds.drop start = header :: rest) : memory ds past start = header := by
  have at_start : ds[start]? = some header := by
    rw [← List.head?_drop, h]
    rfl
  rw [memory, at_start]
  rfl

theorem packet_at {start : Nat} {p rest : List Dword} (h : ds.drop start = p ++ rest)
    (packet : IsPacket p) :
    memory ds past start = packetHeader p ∧
      p.length = (bodyCount (packetHeader p)).toNat + 1 ∧ start + p.length ≤ ds.length := by
  cases p with
  | nil => cases packet
  | cons header body =>
    have len := congrArg List.length h
    simp only [List.length_drop, List.length_append, List.length_cons] at len
    refine ⟨memory_head ds past h, congrArg (· + 1) packet, ?_⟩
    rw [List.length_cons]
    omega

theorem entrySizes_step {start : Nat} (inside : start < ds.length) {header : Dword}
    (h : memory ds past start = header) (fuel : Nat) :
    (entrySizes (whole ds) (fuel + 1) start).value (memory ds past) =
      let size := (bodyCount header).toNat + 1
      let rest := (entrySizes (whole ds) fuel (start + size)).value (memory ds past)
      (rest.1, size :: rest.2) := by
  have inside' : start < (whole ds).length := inside
  have here : (whole ds).arr + start = start := Nat.zero_add start
  simp only [entrySizes, if_pos inside', Reading.value_bind, Reading.value_pure, Span.index,
    Reading.value_get, here, h]

theorem entrySizes_complete (ps : List (List Dword)) (packets : ∀ p ∈ ps, IsPacket p)
    {start fuel : Nat} (h : ds.drop start = ps.flatten) (bound : start ≤ ds.length)
    (enough : ds.length - start ≤ fuel) :
    (entrySizes (whole ds) fuel start).value (memory ds past) =
      (ds.length, ps.map List.length) := by
  induction ps generalizing start fuel with
  | nil =>
    have ending : start = ds.length := by
      have len := congrArg List.length h
      simp at len
      omega
    cases fuel <;> simp [entrySizes, whole, ending]
  | cons p ps ih =>
    rw [List.flatten_cons] at h
    obtain ⟨header, len, fits⟩ := packet_at ds past h (packets p List.mem_cons_self)
    obtain ⟨fuel, rfl⟩ : ∃ n, fuel = n + 1 := ⟨fuel - 1, by omega⟩
    have tail : ds.drop (start + p.length) = ps.flatten := by
      rw [← List.drop_drop, h, List.drop_left]
    have rest := ih (fun q hq => packets q (List.mem_cons_of_mem p hq)) tail fits
      (by omega : ds.length - (start + p.length) ≤ fuel)
    simp only [entrySizes_step ds past (by omega : start < ds.length) header, ← len, rest,
      List.map_cons]

theorem entrySizes_ge (data : Span) (mem : Nat → Dword) (fuel start : Nat) :
    start ≤ ((entrySizes data fuel start).value mem).1 := by
  induction fuel generalizing start with
  | zero => exact Nat.le_refl _
  | succ fuel ih =>
    unfold entrySizes
    split
    · simp only [Reading.value_bind, Reading.value_pure]
      exact Nat.le_trans (by omega) (ih _)
    · exact Nat.le_refl _

theorem entrySizes_sound {fuel start : Nat} (bound : start ≤ ds.length)
    (enough : ds.length - start ≤ fuel)
    (exact_total : ((entrySizes (whole ds) fuel start).value (memory ds past)).1 ≤ ds.length) :
    ∃ ps : List (List Dword), (∀ p ∈ ps, IsPacket p) ∧ ds.drop start = ps.flatten ∧
      ((entrySizes (whole ds) fuel start).value (memory ds past)).2 = ps.map List.length := by
  induction fuel generalizing start with
  | zero =>
    have ending : ds.drop start = [] := List.drop_eq_nil_of_le (by omega)
    exact ⟨[], by simp, by simpa using ending, rfl⟩
  | succ fuel ih =>
    by_cases inside : start < ds.length
    · have cut := List.drop_eq_getElem_cons inside
      have header := memory_head ds past cut
      simp only [entrySizes_step ds past inside header] at exact_total ⊢
      have next := entrySizes_ge (whole ds) (memory ds past) fuel
        (start + ((bodyCount ds[start]).toNat + 1))
      obtain ⟨ps, packets, flat, sizes⟩ := ih (by omega) (by omega) exact_total
      refine ⟨(ds.drop start).take ((bodyCount ds[start]).toNat + 1) :: ps, ?_, ?_, ?_⟩
      · intro p hp
        rcases List.mem_cons.mp hp with rfl | hp
        · rw [cut, List.take_succ_cons]
          change List.length _ = _
          rw [List.length_take, List.length_drop]
          omega
        · exact packets p hp
      · rw [List.flatten_cons, ← flat, ← List.drop_drop, List.take_append_drop]
      · rw [List.map_cons, sizes, List.length_take, List.length_drop]
        congr 1
        omega
    · have ending : ds.drop start = [] := List.drop_eq_nil_of_le (by omega)
      have outside' : ¬ start < (whole ds).length := inside
      exact ⟨[], by simp, by simpa using ending, by simp [entrySizes, outside']⟩

theorem entrySizes_framed {ps : List (List Dword)} (some_packet : ps ≠ [])
    (packets : ∀ p ∈ ps, IsPacket p) (flat : ds = ps.flatten) : (whole ds).length ≠ 0 ∧
      (entrySizes (whole ds) ds.length 0).value (memory ds past) =
        (ds.length, ps.map List.length) := by
  constructor
  · obtain ⟨p, rest, rfl⟩ := List.exists_cons_of_ne_nil some_packet
    have packet := packets p List.mem_cons_self
    cases p with
    | nil => cases packet
    | cons header body => simp [whole, flat]
  · exact entrySizes_complete ds past ps packets flat (Nat.zero_le _) (Nat.sub_le ds.length 0)

theorem packets_of_fits (some_dword : ds.length ≠ 0)
    (fits : ((entrySizes (whole ds) ds.length 0).value (memory ds past)).1 ≤ ds.length) :
    ∃ ps : List (List Dword), ps ≠ [] ∧ (∀ p ∈ ps, IsPacket p) ∧ ds = ps.flatten ∧
      ((entrySizes (whole ds) ds.length 0).value (memory ds past)).2 = ps.map List.length := by
  obtain ⟨ps, packets, flat, sizes⟩ :=
    entrySizes_sound ds past (Nat.zero_le _) (Nat.sub_le ds.length 0) fits
  refine ⟨ps, ?_, packets, flat, sizes⟩
  rintro rfl
  exact some_dword (congrArg List.length flat)

theorem next_span {p : List Dword} {ps : List (List Dword)} {start : Nat}
    (h : ds.drop start = (p :: ps).flatten) :
    (whole ds).subspan start p.length = ⟨start, p.length⟩ ∧
      ds.drop (start + p.length) = ps.flatten := by
  refine ⟨by simp [Span.subspan, whole], ?_⟩
  rw [← List.drop_drop, h, List.flatten_cons, List.drop_left]

theorem next_packet {p : List Dword} {ps : List (List Dword)} {start : Nat}
    (h : ds.drop start = (p :: ps).flatten) (packet : IsPacket p) :
    (whole ds).subspan start p.length = ⟨start, p.length⟩ ∧
    ds.drop (start + p.length) = ps.flatten ∧
    if Accepted (packetHeader p) then
      ∃ body, (parseRunlistEntry ⟨start, p.length⟩).value (memory ds past) =
        .ok ⟨entryHeader (packetHeader p), body⟩
    else (parseRunlistEntry ⟨start, p.length⟩).value (memory ds past) = .error := by
  obtain ⟨window, tail⟩ := next_span ds h
  rw [List.flatten_cons] at h
  obtain ⟨header, len, _⟩ := packet_at ds past h packet
  have result := parseRunlistEntry_value (memory ds past) ⟨start, p.length⟩
    (by rw [header]; exact len)
  rw [header] at result
  exact ⟨window, tail, result⟩

theorem mem_decoded_iff (ps : List (List Dword)) (packets : ∀ p ∈ ps, IsPacket p) {start : Nat}
    (h : ds.drop start = ps.flatten) (s : Span) :
    s ∈ decoded (memory ds past) (whole ds) start (ps.map List.length) ↔
      ∃ pre p post, ps = pre ++ p :: post ∧ (∀ q ∈ pre, Accepted (packetHeader q)) ∧
        s = ⟨start + pre.flatten.length, p.length⟩ := by
  induction ps generalizing start with
  | nil => simp [decoded]
  | cons p ps ih =>
    obtain ⟨window, tail, result⟩ := next_packet ds past h (packets p List.mem_cons_self)
    have rest := ih (fun q hq => packets q (List.mem_cons_of_mem p hq)) tail
    rw [List.map_cons, decoded, window, List.mem_cons]
    constructor
    · rintro (rfl | hs)
      · exact ⟨[], p, ps, rfl, by simp, by simp⟩
      · split at hs
        · rename_i success
          have accepted : Accepted (packetHeader p) := by
            by_contra no
            rw [if_neg no] at result
            simp [result, ResultStatus.error] at success
          obtain ⟨pre, q, post, rfl, before, rfl⟩ := rest.mp hs
          refine ⟨p :: pre, q, post, rfl, ?_, ?_⟩
          · intro r hr
            rcases List.mem_cons.mp hr with rfl | hr
            · exact accepted
            · exact before r hr
          · rw [List.flatten_cons, List.length_append, Nat.add_assoc]
        · cases hs
    · rintro ⟨pre, q, post, split, before, rfl⟩
      cases pre with
      | nil =>
        obtain ⟨rfl, rfl⟩ := List.cons.inj split
        exact Or.inl (by simp)
      | cons r pre =>
        obtain ⟨rfl, rfl⟩ := List.cons.inj split
        rw [if_pos (before p List.mem_cons_self)] at result
        obtain ⟨body, ok⟩ := result
        refine Or.inr ?_
        rw [ok]
        refine rest.mpr ⟨pre, q, post, rfl, fun t ht => before t (List.mem_cons_of_mem p ht), ?_⟩
        rw [List.flatten_cons, List.length_append, Nat.add_assoc]

theorem parseEntries_packets (ps : List (List Dword)) (packets : ∀ p ∈ ps, IsPacket p)
    (accepted : ∀ p ∈ ps, Accepted (packetHeader p)) {start : Nat}
    (h : ds.drop start = ps.flatten) :
    ∃ entries, (parseEntries (whole ds) start (ps.map List.length)).value (memory ds past) =
        .ok entries ∧
      entries.map RunlistEntry.header = ps.map fun p => entryHeader (packetHeader p) := by
  induction ps generalizing start with
  | nil => exact ⟨[], rfl, rfl⟩
  | cons p ps ih =>
    obtain ⟨window, tail, result⟩ := next_packet ds past h (packets p List.mem_cons_self)
    rw [if_pos (accepted p List.mem_cons_self)] at result
    obtain ⟨body, ok⟩ := result
    obtain ⟨entries, rest, headers⟩ := ih (fun q hq => packets q (List.mem_cons_of_mem p hq))
      (fun q hq => accepted q (List.mem_cons_of_mem p hq)) tail
    refine ⟨⟨entryHeader (packetHeader p), body⟩ :: entries, ?_, ?_⟩
    · rw [List.map_cons, parseEntries, window]
      simp only [Reading.value_bind, ok, ResultStatus.ok, rest, Reading.value_pure]
    · rw [List.map_cons, headers, List.map_cons]

theorem parseRunlistEntries_packets {ps : List (List Dword)} (some_packet : ps ≠ [])
    (packets : ∀ p ∈ ps, IsPacket p) (accepted : ∀ p ∈ ps, Accepted (packetHeader p)) :
    ∃ entries, (parseRunlistEntries (whole ps.flatten)).value (memory ps.flatten past) =
        .ok entries ∧
      entries.map RunlistEntry.header = ps.map fun p => entryHeader (packetHeader p) := by
  obtain ⟨some_dword, framed⟩ := entrySizes_framed ps.flatten past some_packet packets rfl
  have length : (whole ps.flatten).length = ps.flatten.length := rfl
  obtain ⟨entries, ok, headers⟩ :=
    parseEntries_packets ps.flatten past ps packets accepted List.drop_zero
  refine ⟨entries, ?_, headers⟩
  rw [parseRunlistEntries, if_neg some_dword]
  simp only [Reading.value_bind, length, framed, Nat.lt_irrefl, gt_iff_lt,
    if_false, ok]

end

end Rocsift.Pm4
