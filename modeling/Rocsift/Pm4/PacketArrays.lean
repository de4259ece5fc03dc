import Rocsift.Pm4.Framing

/-! The packet arrays that the decoder accepts, stated on the bits of the header dwords alone:
what is well formed is what is framed and decoded, and everything else is refused. -/
namespace Rocsift.Pm4

/-- The enumeration starts at 0, the type field of a header at 1. -/
def PacketType.code : PacketType → Nat
  | .type1 => 0
  | .type2 => 1
  | .type3 => 2

structure ValidPacket (p : List Dword) : Prop where
  size : p.length = 1 + ((packetHeader p).toNat / 2 ^ 16 % 2 ^ 14 + 1)
  type : (packetHeader p).toNat / 2 ^ 30 % 2 ^ 2 ≠ 0
  opcode : (packetHeader p).toNat / 2 ^ 8 % 2 ^ 8 = 0xA1 ∨
    (packetHeader p).toNat / 2 ^ 8 % 2 ^ 8 = 0xA2

structure Framed (ds : List Dword) (ps : List (List Dword)) : Prop where
  some_packet : ps ≠ []
  packets : ∀ p ∈ ps, ValidPacket p
  whole : ds = ps.flatten

structure Describes (e : RunlistEntry) (p : List Dword) : Prop where
  opcode : e.header.opcode.toNat = (packetHeader p).toNat / 2 ^ 8 % 2 ^ 8
  count : e.header.count.toNat = (packetHeader p).toNat / 2 ^ 16 % 2 ^ 14 + 1
  type : e.header.type.code = (packetHeader p).toNat / 2 ^ 30 % 2 ^ 2 - 1

theorem opcodeField_toNat (header : Dword) :
    (opcodeField header).toNat = header.toNat / 2 ^ 8 % 2 ^ 8 := by
  have field := slice_dword header 15 8 (by decide) (by decide)
  have small : header.toNat / 2 ^ 8 % 2 ^ 8 < 2 ^ 8 := Nat.mod_lt _ (by decide)
  rw [opcodeField, BitVec.toNat_setWidth, field]
  exact Nat.mod_eq_of_lt small

theorem typeField_toNat (header : Dword) :
    (typeField header).toNat = (header.toNat / 2 ^ 30 % 2 ^ 2 + (2 ^ 64 - 1)) % 2 ^ 64 := by
  have field := slice_dword header 31 30 (by decide) (by decide)
  rw [typeField, BitVec.toNat_sub, field, Nat.add_comm]
  rfl

/-- The type field 0 becomes 2 ^ 64 - 1, which the check for an upper bound refuses. -/
theorem typeField_le_iff (header : Dword) :
    typeField header ≤ 2#64 ↔ header.toNat / 2 ^ 30 % 2 ^ 2 ≠ 0 := by
  have small : header.toNat / 2 ^ 30 % 2 ^ 2 < 2 ^ 2 := Nat.mod_lt _ (by decide)
  rw [BitVec.le_def, typeField_toNat]
  change _ ≤ 2 ↔ _
  omega

theorem opcodeField_eq_iff (header : Dword) (op : BitVec 8) :
    opcodeField header = op ↔ header.toNat / 2 ^ 8 % 2 ^ 8 = op.toNat := by
  rw [← BitVec.toNat_inj, opcodeField_toNat]

theorem accepted_iff (header : Dword) :
    Accepted header ↔ header.toNat / 2 ^ 30 % 2 ^ 2 ≠ 0 ∧
      (header.toNat / 2 ^ 8 % 2 ^ 8 = 0xA1 ∨ header.toNat / 2 ^ 8 % 2 ^ 8 = 0xA2) := by
  have process := opcodeField_eq_iff header opMapProcess
  have queues := opcodeField_eq_iff header opMapQueues
  exact and_congr (typeField_le_iff header) (or_congr process queues)

theorem isPacket_iff (p : List Dword) :
    IsPacket p ↔ p.length = 1 + ((packetHeader p).toNat / 2 ^ 16 % 2 ^ 14 + 1) := by
  cases p with
  | nil => simp [IsPacket]
  | cons header body =>
    simp only [IsPacket, bodyCount_toNat, List.length_cons, packetHeader, List.headD_cons]
    omega

theorem validPacket_iff (p : List Dword) :
    ValidPacket p ↔ IsPacket p ∧ Accepted (packetHeader p) := by
  rw [isPacket_iff, accepted_iff]
  constructor
  · intro h
    exact ⟨h.size, h.type, h.opcode⟩
  · rintro ⟨size, type, opcode⟩
    exact ⟨size, type, opcode⟩

theorem packetType_code {header : Dword} (type : typeField header ≤ 2#64) :
    (packetType (typeField header)).code = header.toNat / 2 ^ 30 % 2 ^ 2 - 1 := by
  have some_type := (typeField_le_iff header).mp type
  have small : header.toNat / 2 ^ 30 % 2 ^ 2 < 2 ^ 2 := Nat.mod_lt _ (by decide)
  have value : (typeField header).toNat = header.toNat / 2 ^ 30 % 2 ^ 2 - 1 := by
    rw [typeField_toNat]
    omega
  unfold packetType
  split
  · rename_i first
    rw [first] at value
    exact value
  · rename_i later
    split
    · rename_i second
      rw [second] at value
      exact value
    · rename_i last
      have not_first : (typeField header).toNat ≠ 0 := fun h => later (BitVec.eq_of_toNat_eq h)
      have not_second : (typeField header).toNat ≠ 1 := fun h => last (BitVec.eq_of_toNat_eq h)
      simp only [PacketType.code]
      omega

theorem describes_of_header {e : RunlistEntry} {p : List Dword}
    (accepted : Accepted (packetHeader p)) (h : e.header = entryHeader (packetHeader p)) :
    Describes e p := by
  constructor
  · rw [h]
    exact opcodeField_toNat _
  · rw [h, entryHeader_count, bodyCount_toNat]
  · rw [h]
    exact packetType_code accepted.1

theorem describes_of_headers {entries : List RunlistEntry} {ps : List (List Dword)}
    (accepted : ∀ p ∈ ps, Accepted (packetHeader p))
    (headers : entries.map RunlistEntry.header = ps.map fun p => entryHeader (packetHeader p)) :
    List.Forall₂ Describes entries ps := by
  induction ps generalizing entries with
  | nil =>
    rw [List.map_nil, List.map_eq_nil_iff] at headers
    rw [headers]
    exact List.Forall₂.nil
  | cons p ps ih =>
    cases entries with
    | nil => cases headers
    | cons e entries =>
      obtain ⟨first, rest⟩ := List.cons.inj headers
      exact List.Forall₂.cons (describes_of_header (accepted p List.mem_cons_self) first)
        (ih (fun q hq => accepted q (List.mem_cons_of_mem p hq)) rest)

section
variable (ds : List Dword) (past : Nat → Dword)

theorem parseEntries_refused (ps : List (List Dword)) (packets : ∀ p ∈ ps, IsPacket p)
    (refused : ∃ p ∈ ps, ¬ Accepted (packetHeader p)) {start : Nat}
    (h : ds.drop start = ps.flatten) :
    (parseEntries (whole ds) start (ps.map List.length)).value (memory ds past) = .error := by
  induction ps generalizing start with
  | nil =>
    obtain ⟨p, hp, _⟩ := refused
    cases hp
  | cons p ps ih =>
    obtain ⟨window, tail, result⟩ := next_packet ds past h (packets p List.mem_cons_self)
    rw [List.map_cons, parseEntries, window, Reading.value_bind]
    split at result
    · rename_i accepted
      obtain ⟨body, ok⟩ := result
      have later : ∃ q ∈ ps, ¬ Accepted (packetHeader q) := by
        obtain ⟨q, hq, no⟩ := refused
        rcases List.mem_cons.mp hq with rfl | hq
        · exact absurd accepted no
        · exact ⟨q, hq, no⟩
      have rest := ih (fun q hq => packets q (List.mem_cons_of_mem p hq)) later tail
      simp only [ok, ResultStatus.ok, Reading.value_bind, rest, ResultStatus.error,
        Reading.value_pure]
    · simp only [result, ResultStatus.error, Reading.value_pure]

theorem parseRunlistEntries_refused (h : ∀ ps, ¬ Framed ds ps) :
    (parseRunlistEntries (whole ds)).value (memory ds past) = .error := by
  have length : (whole ds).length = ds.length := rfl
  unfold parseRunlistEntries
  split
  · rfl
  · rename_i some_dword
    simp only [Reading.value_bind, Reading.value_ite, length]
    split
    · rfl
    · rename_i fits
      obtain ⟨ps, some_packet, packets, flat, sizes⟩ :=
        packets_of_fits ds past some_dword (Nat.le_of_not_gt fits)
      have refused : ∃ p ∈ ps, ¬ Accepted (packetHeader p) := by
        by_contra all
        have accepted : ∀ p ∈ ps, Accepted (packetHeader p) := fun p hp =>
          by_contra fun no => all ⟨p, hp, no⟩
        exact h ps ⟨some_packet,
          fun p hp => (validPacket_iff p).mpr ⟨packets p hp, accepted p hp⟩, flat⟩
      rw [sizes]
      exact parseEntries_refused ds past ps packets refused flat

theorem parseRunlistEntries_framed {ps : List (List Dword)} (framed : Framed ds ps) :
    ∃ entries, (parseRunlistEntries (whole ds)).value (memory ds past) = .ok entries ∧
      List.Forall₂ Describes entries ps := by
  obtain ⟨some_packet, packets, rfl⟩ := framed
  have packets' : ∀ p ∈ ps, IsPacket p := fun p hp => ((validPacket_iff p).mp (packets p hp)).1
  have accepted : ∀ p ∈ ps, Accepted (packetHeader p) := fun p hp =>
    ((validPacket_iff p).mp (packets p hp)).2
  obtain ⟨entries, ok, headers⟩ := parseRunlistEntries_packets past some_packet packets' accepted
  exact ⟨entries, ok, describes_of_headers accepted headers⟩

/-- Framing is exact: an array is accepted exactly when it is a concatenation of well-formed
packets, its entries then describe these packets in order, and every other array is an error. -/
theorem framing_exact :
    (((parseRunlistEntries (whole ds)).value (memory ds past)).status = .success ↔
      ∃ ps, Framed ds ps) ∧
    (∀ ps, Framed ds ps →
      ∃ entries, (parseRunlistEntries (whole ds)).value (memory ds past) = .ok entries ∧
        List.Forall₂ Describes entries ps) ∧
    ((∀ ps, ¬ Framed ds ps) →
      (parseRunlistEntries (whole ds)).value (memory ds past) = .error) := by
  refine ⟨⟨?_, ?_⟩, fun ps => parseRunlistEntries_framed ds past,
    parseRunlistEntries_refused ds past⟩
  · intro success
    by_contra none
    rw [parseRunlistEntries_refused ds past fun ps framed => none ⟨ps, framed⟩] at success
    cases success
  · rintro ⟨ps, framed⟩
    obtain ⟨entries, ok, _⟩ := parseRunlistEntries_framed ds past framed
    rw [ok]
    rfl

end

end Rocsift.Pm4
