import Rocsift.Pm4.Dumps

/-! The search for one node in a text. It returns what the first section of that node holds, and
the lines before and after that section play no part. -/
namespace Rocsift.Pm4
open Sift (SiftStatus)

def Alone (p : List Dword) (entry : RunlistEntry) : Prop :=
  ∀ past, (parseRunlistEntry (whole p)).value (memory p past) = .ok entry

/-- A node line and data lines that hold packets, each with a body long enough for its decoder. -/
structure WellFormed where
  line : Line
  node : Node
  data : List (Line × List Dword)
  packets : List (List Dword)
  named : parseNodeLine line = .ok node
  read : ∀ l ∈ data, dataOf l.1 = some l.2
  split : (data.map Prod.snd).flatten = packets.flatten
  some_packet : packets ≠ []
  framed : ∀ p ∈ packets, IsPacket p
  accepted : ∀ p ∈ packets, Accepted (packetHeader p)
  full : ∀ p ∈ packets, bodyNeed (opcodeField (packetHeader p)) ≤ p.length - 1

def WellFormed.lines (s : WellFormed) : List Line := s.line :: s.data.map Prod.fst

section
variable (mem : Nat → Dword) (start n : Nat)

theorem getBodySlice_shift (idx msb lsb : Nat) :
    (getBodySlice ((Span.mk start n).subspan 1 (n - 1)) idx msb lsb).value mem =
      (getBodySlice ((Span.mk 0 n).subspan 1 (n - 1)) idx msb lsb).value
        fun i => mem (start + i) := by
  simp only [getBodySlice, Span.index, Span.subspan, Reading.value_bind, Reading.value_get,
    Reading.value_pure, Nat.zero_add, Nat.add_assoc]

theorem parseRunlistEntry_shift :
    (parseRunlistEntry ⟨start, n⟩).value mem =
      (parseRunlistEntry ⟨0, n⟩).value fun i => mem (start + i) := by
  simp only [parseRunlistEntry, parseBodyMapProcess, parseBodyMapQueues, Reading.value_ite,
    Reading.value_bind, Reading.value_pure, getBodySlice_shift mem start n]
  rfl

end

theorem memory_window (ds : List Dword) (past : Nat → Dword) {start : Nat} {p rest : List Dword}
    (h : ds.drop start = p ++ rest) :
    (fun i => memory ds past (start + i)) = memory p fun i => memory ds past (start + i) := by
  funext i
  by_cases inside : i < p.length
  · have same : ds[start + i]? = p[i]? := by
      rw [← List.getElem?_drop, h, List.getElem?_append_left inside]
    simp only [memory, same, List.getElem?_eq_getElem inside, Option.getD_some]
  · simp only [memory, List.getElem?_eq_none (Nat.not_lt.mp inside), Option.getD_none]

theorem Alone.decoded {p : List Dword} {entry : RunlistEntry} (alone : Alone p entry)
    (ds : List Dword) (past : Nat → Dword) {start : Nat} {rest : List Dword}
    (h : ds.drop start = p ++ rest) :
    (parseRunlistEntry ⟨start, p.length⟩).value (memory ds past) = .ok entry := by
  rw [parseRunlistEntry_shift, memory_window ds past h]
  exact alone _

theorem alone_of_full {p : List Dword} (packet : IsPacket p) (accepted : Accepted (packetHeader p))
    (full : bodyNeed (opcodeField (packetHeader p)) ≤ p.length - 1) : ∃ entry, Alone p entry := by
  have itself : p.drop 0 = p ++ [] := (List.append_nil p).symm
  obtain ⟨header, length, -⟩ := packet_at p (fun _ => 0#32) itself packet
  have value := parseRunlistEntry_value (memory p fun _ => 0#32) (whole p)
    (by rw [whole, header]; exact length)
  rw [whole, header, if_pos accepted] at value
  obtain ⟨body, decoded⟩ := value
  have held := (reads_held_iff (memory p fun _ => 0#32) (whole p)
    (by rw [whole, header]; exact length)).mpr fun _ => by rw [whole, header]; exact full
  refine ⟨_, fun past => Eq.trans (Reading.agree _ fun i hi => ?_).1.symm decoded⟩
  have inside : i < p.length := Nat.lt_of_lt_of_eq (held i hi).2 (Nat.zero_add _)
  simp only [memory, List.getElem?_eq_getElem inside, Option.getD_some]

theorem parseEntries_alone {ds : List Dword} (past : Nat → Dword) {ps : List (List Dword)}
    {entries : List RunlistEntry} (alone : List.Forall₂ Alone ps entries) {start : Nat}
    (h : ds.drop start = ps.flatten) :
    (parseEntries (whole ds) start (ps.map List.length)).value (memory ds past) = .ok entries := by
  induction alone generalizing start with
  | nil => rfl
  | @cons p entry ps entries here later ih =>
    obtain ⟨window, tail⟩ := next_span ds h
    rw [List.flatten_cons] at h
    simp only [List.map_cons, parseEntries, window, Reading.value_bind, here.decoded ds past h,
      ResultStatus.ok, ih tail, Reading.value_pure]

theorem decode_alone (past : List Dword → Nat → Dword) {ps : List (List Dword)}
    (some_packet : ps ≠ []) (framed : ∀ p ∈ ps, IsPacket p) {entries : List RunlistEntry}
    (alone : List.Forall₂ Alone ps entries) : decode past ps.flatten = .ok entries := by
  obtain ⟨some_dword, sizes⟩ :=
    entrySizes_framed ps.flatten (past ps.flatten) some_packet framed rfl
  have length : (whole ps.flatten).length = ps.flatten.length := rfl
  rw [decode, parseRunlistEntries, if_neg some_dword]
  simp only [Reading.value_bind, length, sizes, Nat.lt_irrefl, gt_iff_lt, if_false]
  exact parseEntries_alone _ alone List.drop_zero

namespace WellFormed
variable (s : WellFormed)

theorem alone : ∃ entries, List.Forall₂ Alone s.packets entries := by
  have each := s.full
  have framed := s.framed
  have accepted := s.accepted
  generalize s.packets = ps at each framed accepted
  induction ps with
  | nil => exact ⟨[], .nil⟩
  | cons p ps ih =>
    obtain ⟨framed_p, framed⟩ := List.forall_mem_cons.mp framed
    obtain ⟨accepted_p, accepted⟩ := List.forall_mem_cons.mp accepted
    obtain ⟨full_p, each⟩ := List.forall_mem_cons.mp each
    obtain ⟨entry, here⟩ := alone_of_full framed_p accepted_p full_p
    obtain ⟨entries, rest⟩ := ih each framed accepted
    exact ⟨entry :: entries, .cons here rest⟩

theorem some_data : s.data.map Prod.snd ≠ [] := by
  intro none
  have split := s.split
  obtain ⟨p, ps, packets⟩ := List.exists_cons_of_ne_nil s.some_packet
  have framed := s.framed p (packets ▸ List.mem_cons_self)
  rw [none, packets, List.flatten_cons, List.flatten_nil] at split
  rw [(List.append_eq_nil_iff.mp split.symm).1] at framed
  exact framed

theorem dataRun_data {data : List (Line × List Dword)} (read : ∀ l ∈ data, dataOf l.1 = some l.2)
    {after : List Line} (ends : ∀ l ∈ after.head?, dataOf l = none) :
    dataRun (data.map Prod.fst ++ after) = data.map Prod.snd := by
  induction data with
  | nil =>
    cases after with
    | nil => rfl
    | cons l after => simp only [List.map_nil, List.nil_append, dataRun, ends l rfl]
  | cons l data ih =>
    obtain ⟨here, rest⟩ := List.forall_mem_cons.mp read
    simp only [List.map_cons, List.cons_append, dataRun, here, ih rest]

theorem items_lines {after : List Line} (ends : ∀ l ∈ after.head?, dataOf l = none) :
    ∃ rest, items (s.lines ++ after) = .found s.node (s.data.map Prod.snd) :: rest := by
  simp only [lines, List.cons_append, items, s.named, ResultStatus.ok, dataRun_data s.read ends]
  exact ⟨_, rfl⟩

end WellFormed

theorem upcoming_skip {p : RlsParser} {before : List Line}
    (earlier : ∀ l ∈ before, parseNodeLine l ≠ .error ∧
      ∀ n, parseNodeLine l = .ok n → p.wants n = false) (rest : List Line) :
    p.upcoming (items (before ++ rest)) = p.upcoming (items rest) := by
  induction before with
  | nil => rfl
  | cons l before ih =>
    obtain ⟨here, later⟩ := List.forall_mem_cons.mp earlier
    have next := ih later
    rcases parseNodeLine_cases l with none | overflow | ⟨n, found⟩
    · simp only [List.cons_append, items, none, ResultStatus.noMatch, next]
    · exact absurd overflow here.1
    · have foreign := here.2 n found
      simp only [List.cons_append, items, found, ResultStatus.ok]
      simp only [RlsParser.upcoming, List.dropWhile_cons, foreign, Bool.not_false, if_true]
      exact next

theorem upcoming_stop {p : RlsParser} {n : Node} (wanted : p.wants n = true)
    (data : List (List Dword)) (rest : List Item) :
    p.upcoming (.found n data :: rest) = .found n data :: rest := by
  simp only [RlsParser.upcoming, List.dropWhile_cons, wanted, Bool.not_true, Bool.false_eq_true,
    if_false]

theorem parse_forNode {past : List Dword → Nat → Dword} {text : List Char} {node gpu : BitVec 32}
    {entries : List RunlistEntry} {parser : RlsParser}
    (found : (RlsParser.forNode text node gpu).parse past = some (.ok (some entries, parser))) :
    parser.node_ = node ∧ parser.gpu_ = gpu := by
  obtain ⟨r, parse, reaches⟩ := (RlsParser.forNode text node gpu).parse_reaches past
  have same := Option.some.inj (parse.symm.trans found)
  change RlsParser.Reaches _ 0 (RlsParser.upcoming _ (items (RlsParser.ahead text (some 0)))) r
    at reaches
  cases ahead : (RlsParser.forNode text node gpu).upcoming
      (items (RlsParser.ahead text (some 0))) with
  | nil =>
    rw [ahead] at reaches
    obtain ⟨state, rfl⟩ := reaches
    cases same
  | cons i is =>
    rw [ahead] at reaches
    cases i with
    | overflow =>
      cases reaches
      cases same
    | found n data =>
      obtain ⟨state, e, rfl, -, -⟩ := reaches
      have wanted : n.node_id = node ∧ n.gpu_id = gpu :=
        of_decide_eq_true (RlsParser.upcoming_wants _ ahead)
      simp only [Except.map, buildEntries_eq, Except.ok.injEq, Prod.mk.injEq] at same
      exact same.2 ▸ wanted

/-- The search for one node returns exactly the packets of its first section, if that is well
formed, whatever stands before and behind it; what it returns is always of the pair asked for. -/
theorem targeted_parse (past : List Dword → Nat → Dword) :
    (∀ s : WellFormed, ∃ entries, List.Forall₂ Alone s.packets entries ∧
      ∀ text before after, TextLines.lines '\n' text = before ++ (s.lines ++ after) →
        (∀ l ∈ before, parseNodeLine l ≠ .error ∧ parseNodeLine l ≠ .ok s.node) →
        (∀ l ∈ after.head?, dataOf l = none) →
        siftPm4ParseRunlist past s.node.node_id s.node.gpu_id text =
          some (.success, some ⟨s.node, entries⟩)) ∧
      ∀ text node gpu entries parser,
        (RlsParser.forNode text node gpu).parse past = some (.ok (some entries, parser)) →
          parser.node_ = node ∧ parser.gpu_ = gpu := by
  refine ⟨fun s => ?_, fun _ _ _ _ _ found => parse_forNode found⟩
  obtain ⟨entries, alone⟩ := s.alone
  refine ⟨entries, alone, fun text before after lines earlier ends => ?_⟩
  have foreign : ∀ l ∈ before, parseNodeLine l ≠ .error ∧ ∀ n, parseNodeLine l = .ok n →
      (RlsParser.forNode [] s.node.node_id s.node.gpu_id).wants n = false := by
    intro l hl
    refine ⟨(earlier l hl).1, fun n found => decide_eq_false fun same => ?_⟩
    exact (earlier l hl).2 (found.trans (congrArg _ (Node.ext same.1 same.2)))
  have wanted : (RlsParser.forNode [] s.node.node_id s.node.gpu_id).wants s.node = true :=
    decide_eq_true ⟨rfl, rfl⟩
  obtain ⟨rest, section_items⟩ := s.items_lines ends
  have decoded := decode_alone past s.some_packet s.framed alone
  rw [siftPm4ParseRunlist_eq, lines, runlistOf, upcoming_skip foreign, section_items,
    upcoming_stop wanted]
  simp only [entriesOf, s.split, decoded, ResultStatus.ok, if_neg s.some_data, if_false, ne_eq,
    not_true]

def mapQueuesSection : WellFormed where
  line := nodeLine ⟨2#32, 0x99#32⟩
  node := ⟨2#32, 0x99#32⟩
  data := [(dataLine 0#32 [0xC005A200#32, 1#32, 2#32, 3#32, 4#32, 5#32, 6#32],
    [0xC005A200#32, 1#32, 2#32, 3#32, 4#32, 5#32, 6#32])]
  packets := [[0xC005A200#32, 1#32, 2#32, 3#32, 4#32, 5#32, 6#32]]
  named := parseNodeLine_nodeLine _
  read := List.forall_mem_singleton.mpr (dataOf_dataLine _ _)
  split := rfl
  some_packet := List.cons_ne_nil _ _
  framed := by decide
  accepted := by decide
  full := by decide

theorem targeted_parse_map_queues :
    let text := TextLines.unlines '\n' ([nodeLine ⟨2#32, 0x98#32⟩, dataLine 0#32 [7#32]] ++
      (mapQueuesSection.lines ++ [[]]))
    ∃ entries, List.Forall₂ Alone mapQueuesSection.packets entries ∧
      siftPm4ParseRunlist (fun _ _ => 0#32) 2#32 0x99#32 text =
        some (.success, some ⟨⟨2#32, 0x99#32⟩, entries⟩) := by
  intro text
  obtain ⟨entries, alone, parse⟩ := (targeted_parse fun _ _ => 0#32).1 mapQueuesSection
  refine ⟨entries, alone, parse text _ _ (TextLines.lines_unlines _ ?_) ?_ ?_⟩
  · simp only [WellFormed.lines, mapQueuesSection, List.cons_append, List.nil_append, List.map_cons,
      List.map_nil, List.forall_mem_cons, nodeLine_plain, dataLine_plain, List.not_mem_nil,
      not_false_eq_true, false_implies, implies_true, and_self]
  · refine List.forall_mem_cons.mpr ⟨?_, List.forall_mem_singleton.mpr ?_⟩
    · rw [parseNodeLine_nodeLine]
      decide
    · rw [parseNodeLine_of_data (dataOf_dataLine _ _)]
      decide
  · rintro _ ⟨⟩
    rfl

end Rocsift.Pm4
