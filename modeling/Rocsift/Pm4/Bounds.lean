import Rocsift.Pm4.Framing

/-! Where the packet decoders read. The size check of `parseRunlistEntry` compares the packet
with its own announced count, so it never fails on a framed packet; whether the fixed positions
of the body decoders lie in the packet depends on that count alone. -/
namespace Rocsift.Pm4

/-- Packet decoding keeps to its packets: every dword read for a packet is one of that packet's,
none lies past the array, and a decoded entry is a function of the packet's own dwords. -/
structure PacketReads (ds : List Dword) (past : Nat → Dword) : Prop where
  own : ∀ s ∈ packetSpans (memory ds past) (whole ds),
    ∀ i ∈ (parseRunlistEntry s).trace (memory ds past), s.Holds i
  array : ∀ i ∈ (parseRunlistEntries (whole ds)).trace (memory ds past), i < ds.length
  body : ∀ s ∈ packetSpans (memory ds past) (whole ds), ∀ other : Nat → Dword,
    (∀ i, s.Holds i → memory ds past i = other i) →
      (parseRunlistEntry s).value (memory ds past) = (parseRunlistEntry s).value other

/-- In an array framed into packets, every packet whose header is accepted, after packets with
accepted headers only, has all the body dwords its opcode's decoder reads. -/
def FullPackets (ds : List Dword) : Prop :=
  ∀ pre p post, (∀ q ∈ pre ++ p :: post, IsPacket q) → ds = (pre ++ p :: post).flatten →
    (∀ q ∈ pre, Accepted (packetHeader q)) → Accepted (packetHeader p) →
      bodyNeed (opcodeField (packetHeader p)) ≤ p.length - 1

section
variable (ds : List Dword) (past : Nat → Dword)

theorem mem_packetSpans_iff (s : Span) :
    s ∈ packetSpans (memory ds past) (whole ds) ↔
      ∃ pre p post, (∀ q ∈ pre ++ p :: post, IsPacket q) ∧ ds = (pre ++ p :: post).flatten ∧
        (∀ q ∈ pre, Accepted (packetHeader q)) ∧ s = ⟨pre.flatten.length, p.length⟩ := by
  have size : (whole ds).length = ds.length := rfl
  constructor
  · intro hs
    rw [packetSpans, size] at hs
    split at hs
    · cases hs
    · rename_i some_dword
      dsimp only at hs
      split at hs
      · cases hs
      · rename_i fits
        obtain ⟨ps, -, packets, flat, sizes⟩ :=
          packets_of_fits ds past some_dword (Nat.not_lt.mp fits)
        have at_zero : ds.drop 0 = ps.flatten := flat
        rw [sizes] at hs
        obtain ⟨pre, p, post, rfl, before, rfl⟩ :=
          (mem_decoded_iff ds past ps packets at_zero s).mp hs
        exact ⟨pre, p, post, packets, flat, before, by rw [Nat.zero_add]⟩
  · rintro ⟨pre, p, post, packets, flat, before, rfl⟩
    have at_zero : ds.drop 0 = (pre ++ p :: post).flatten := flat
    obtain ⟨some_dword, framed⟩ := entrySizes_framed ds past (by simp) packets flat
    rw [packetSpans, if_neg some_dword, size]
    simp only [framed, Nat.lt_irrefl, gt_iff_lt, if_false]
    exact (mem_decoded_iff ds past _ packets at_zero _).mpr
      ⟨pre, p, post, rfl, before, by rw [Nat.zero_add]⟩

theorem packetSpan_facts {pre post : List (List Dword)} {p : List Dword}
    (packets : ∀ q ∈ pre ++ p :: post, IsPacket q) (flat : ds = (pre ++ p :: post).flatten) :
    memory ds past pre.flatten.length = packetHeader p ∧
      p.length = (bodyCount (packetHeader p)).toNat + 1 ∧
      pre.flatten.length + p.length ≤ ds.length := by
  have here : ds.drop pre.flatten.length = p ++ post.flatten := by
    rw [flat, List.flatten_append, List.flatten_cons, List.drop_left]
  exact packet_at ds past here (packets p (by simp))

theorem entrySizes_trace_lt (data : Span) (mem : Nat → Dword) (fuel start : Nat) :
    ∀ i ∈ (entrySizes data fuel start).trace mem, i < data.arr + data.length := by
  induction fuel generalizing start with
  | zero => intro i hi; cases hi
  | succ fuel ih =>
    intro i hi
    unfold entrySizes at hi
    split at hi
    · rename_i inside
      simp only [Reading.trace_bind, Reading.trace_pure, Span.index, Reading.trace_get,
        List.append_nil, List.singleton_append, List.mem_cons] at hi
      rcases hi with rfl | hi
      · omega
      · exact ih _ i hi
    · cases hi

theorem trace_lt_of_own
    (own : ∀ s ∈ packetSpans (memory ds past) (whole ds),
      ∀ i ∈ (parseRunlistEntry s).trace (memory ds past), s.Holds i) :
    ∀ i ∈ (parseRunlistEntries (whole ds)).trace (memory ds past), i < ds.length := by
  intro i hi
  unfold parseRunlistEntries at hi
  split at hi
  · cases hi
  · rename_i some_dword
    rw [Reading.trace_bind, List.mem_append] at hi
    rcases hi with hi | hi
    · simpa [whole] using entrySizes_trace_lt (whole ds) _ _ _ i hi
    · split at hi
      · cases hi
      · rename_i fits
        rw [parseEntries_trace] at hi
        obtain ⟨s, hs, hi⟩ := List.mem_flatMap.mp hi
        have span : s ∈ packetSpans (memory ds past) (whole ds) := by
          simp only [packetSpans, if_neg some_dword, if_neg fits]
          exact hs
        have held := own s span i hi
        obtain ⟨pre, p, post, packets, flat, _, rfl⟩ := (mem_packetSpans_iff ds past s).mp span
        have facts := packetSpan_facts ds past packets flat
        exact Nat.lt_of_lt_of_le held.2 facts.2.2

theorem packet_reads_iff : PacketReads ds past ↔ FullPackets ds := by
  constructor
  · intro reads pre p post packets flat before accepted
    have span := (mem_packetSpans_iff ds past _).mpr ⟨pre, p, post, packets, flat, before, rfl⟩
    obtain ⟨header, len, _⟩ := packetSpan_facts ds past packets flat
    have held := (reads_held_iff (memory ds past) ⟨pre.flatten.length, p.length⟩
      (by rw [header]; exact len)).mp (reads.own _ span)
    rw [header] at held
    exact held accepted
  · intro full
    have own : ∀ s ∈ packetSpans (memory ds past) (whole ds),
        ∀ i ∈ (parseRunlistEntry s).trace (memory ds past), s.Holds i := by
      intro s hs
      obtain ⟨pre, p, post, packets, flat, before, rfl⟩ := (mem_packetSpans_iff ds past s).mp hs
      obtain ⟨header, len, _⟩ := packetSpan_facts ds past packets flat
      refine (reads_held_iff (memory ds past) ⟨pre.flatten.length, p.length⟩
        (by rw [header]; exact len)).mpr ?_
      rw [header]
      exact full pre p post packets flat before
    refine ⟨own, trace_lt_of_own ds past own, ?_⟩
    intro s hs other same
    exact (Reading.agree _ fun i hi => same i (own s hs i hi)).1

end

/-- A MAP_PROCESS header that announces one body dword: the decoder reads up to dword 20 of an
array of two. -/
theorem short_map_process_reads_past :
    ¬ PacketReads [0xC000A100#32, 0x00008000#32] (fun _ => 0#32) := by
  intro reads
  have bad := reads.array 20 (by decide)
  exact absurd bad (by decide)

end Rocsift.Pm4
