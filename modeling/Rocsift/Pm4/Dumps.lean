import Rocsift.Pm4.Framing
import Rocsift.Pm4.Sections

/-! Runlist dumps as the kernel prints them, and the series that is read back from one. -/
namespace Rocsift.Pm4
open Sift (SiftStatus)

/-- A type-3 packet whose body is long enough for its decoder and short enough for its header. -/
structure Packet where
  opcode : BitVec 8
  reserved : BitVec 8
  body : List Dword
  known : opcode = opMapProcess ∨ opcode = opMapQueues
  full : bodyNeed opcode ≤ body.length
  fits : body.length ≤ 2 ^ 14

namespace Packet

def headerDword (p : Packet) : Dword :=
  3#2 ++ BitVec.ofNat 14 (p.body.length - 1) ++ p.opcode ++ p.reserved

def dwords (p : Packet) : List Dword := p.headerDword :: p.body

def header (p : Packet) : Header := ⟨p.opcode, BitVec.ofNat 16 p.body.length, .type3⟩

variable (p : Packet)

theorem some_body : 1 ≤ p.body.length := Nat.le_trans (bodyNeed_pos p.opcode) p.full

theorem headerDword_toNat : p.headerDword.toNat =
    3 * 2 ^ 30 + (p.body.length - 1) * 2 ^ 16 + p.opcode.toNat * 2 ^ 8 + p.reserved.toNat := by
  have fits := p.fits
  have pos := p.some_body
  have count : (BitVec.ofNat 14 (p.body.length - 1)).toNat = p.body.length - 1 := by
    rw [BitVec.toNat_ofNat]
    exact Nat.mod_eq_of_lt (by omega)
  simp only [headerDword, BitField.append_toNat, count, BitVec.toNat_ofNat]
  omega

theorem bodyCount_headerDword : (bodyCount p.headerDword).toNat = p.body.length := by
  have fits := p.fits
  have pos := p.some_body
  have opcode := p.opcode.isLt
  have reserved := p.reserved.isLt
  rw [bodyCount_toNat, headerDword_toNat]
  omega

theorem opcodeField_headerDword : opcodeField p.headerDword = p.opcode := by
  have opcode := p.opcode.isLt
  have reserved := p.reserved.isLt
  apply BitVec.eq_of_toNat_eq
  rw [opcodeField, BitVec.toNat_setWidth, slice_dword _ _ _ (by decide) (by decide),
    headerDword_toNat]
  omega

theorem typeField_headerDword : typeField p.headerDword = 2#64 := by
  have fits := p.fits
  have pos := p.some_body
  have opcode := p.opcode.isLt
  have reserved := p.reserved.isLt
  have three : slice (p.headerDword.setWidth 64) 31 30 = 3#64 := by
    apply BitVec.eq_of_toNat_eq
    rw [slice_dword _ _ _ (by decide) (by decide), headerDword_toNat, BitVec.toNat_ofNat]
    omega
  rw [typeField, three]
  rfl

theorem entryHeader_headerDword : entryHeader p.headerDword = p.header := by
  have count : (bodyCount p.headerDword).setWidth 16 = BitVec.ofNat 16 p.body.length := by
    apply BitVec.eq_of_toNat_eq
    rw [BitVec.toNat_setWidth, bodyCount_headerDword, BitVec.toNat_ofNat]
  rw [entryHeader, opcodeField_headerDword, count, typeField_headerDword]
  rfl

theorem accepted : Accepted (packetHeader p.dwords) := by
  refine ⟨?_, ?_⟩
  · change typeField p.headerDword ≤ 2#64
    rw [typeField_headerDword]
    exact BitVec.le_refl _
  · change opcodeField p.headerDword = _ ∨ opcodeField p.headerDword = _
    rw [opcodeField_headerDword]
    exact p.known

theorem isPacket : IsPacket p.dwords := p.bodyCount_headerDword.symm

end Packet

structure Junk where
  line : Line
  whole : '\n' ∉ line
  no_node : nodeFormat line = none
  no_data : getDataStartPosition line = .noMatch

/-- A node with its packets, and its data lines: the address of each and the dwords it holds. -/
structure Section where
  node : Node
  packets : List Packet
  lines : List (Dword × List Dword)
  some_packet : packets ≠ []
  filled : ∀ l ∈ lines, l.2 ≠ []
  split : (lines.map Prod.snd).flatten = (packets.map Packet.dwords).flatten

namespace Section

def text (s : Section) : List Line :=
  nodeLine s.node :: s.lines.map fun l => dataLine l.1 l.2

def item (s : Section) : Item := .found s.node (s.lines.map Prod.snd)

end Section

structure Dump where
  sections : List (List Junk × Section)
  tail : List Junk

namespace Dump

def lines (d : Dump) : List Line :=
  (d.sections.flatMap fun s => s.1.map Junk.line ++ s.2.text) ++ d.tail.map Junk.line

def render (d : Dump) : List Char := TextLines.unlines '\n' d.lines

end Dump

theorem dataOf_dataLine (address : Dword) (ds : List Dword) :
    dataOf (dataLine address ds) = some ds := by
  simp only [dataOf, getDataStartPosition_dataLine, ResultStatus.ok, dataLine_drop,
    parseDataSection_dataText]

theorem dataOf_nodeLine (n : Node) : dataOf (nodeLine n) = none := by
  simp only [dataOf, getDataStartPosition_of_node (nodeLine_shape n), ResultStatus.noMatch]

theorem dataRun_dataLines (ls : List (Dword × List Dword)) {rest : List Line}
    (stop : dataRun rest = []) :
    dataRun (ls.map (fun l => dataLine l.1 l.2) ++ rest) = ls.map Prod.snd := by
  induction ls with
  | nil => exact stop
  | cons l ls ih => simp only [List.map_cons, List.cons_append, dataRun, dataOf_dataLine, ih]

theorem items_dataLines (ls : List (Dword × List Dword)) (rest : List Line) :
    items (ls.map (fun l => dataLine l.1 l.2) ++ rest) = items rest := by
  induction ls with
  | nil => rfl
  | cons l ls ih =>
    simp only [List.map_cons, List.cons_append, items,
      parseNodeLine_of_data (dataOf_dataLine l.1 l.2), ResultStatus.noMatch, ih]

theorem items_section (s : Section) {rest : List Line} (stop : dataRun rest = []) :
    items (s.text ++ rest) = s.item :: items rest := by
  simp only [Section.text, List.cons_append, items, parseNodeLine_nodeLine, ResultStatus.ok,
    dataRun_dataLines _ stop, items_dataLines, Section.item]

theorem items_junk (js : List Junk) (rest : List Line) :
    items (js.map Junk.line ++ rest) = items rest := by
  induction js with
  | nil => rfl
  | cons j js ih =>
    have no : parseNodeLine j.line = .noMatch := by simp only [parseNodeLine, j.no_node]
    simp only [List.map_cons, List.cons_append, items, no, ResultStatus.noMatch, ih]

theorem dataRun_junk (js : List Junk) {rest : List Line} (stop : dataRun rest = []) :
    dataRun (js.map Junk.line ++ rest) = [] := by
  cases js with
  | nil => exact stop
  | cons j js =>
    simp only [List.map_cons, List.cons_append, dataRun, dataOf, j.no_data, ResultStatus.noMatch]

theorem newline_free {p : Char → Bool} (no : p '\n' = false) {cs : List Char}
    (all : cs.all p = true) : '\n' ∉ cs := by
  intro h
  rw [List.all_eq_true.mp all _ h] at no
  cases no

theorem nodeLine_plain (n : Node) : '\n' ∉ nodeLine n := by
  have shape := nodeLine_shape n
  have node := newline_free (by decide) shape.node_digits
  have gpu := newline_free (by decide) shape.gpu_digits
  simp [nodeLine, nodeText, gpuText, node, gpu]

theorem dataLine_plain (address : Dword) (ds : List Dword) : '\n' ∉ dataLine address ds := by
  have text := newline_free (by decide) (dataText_any ds)
  have hex := newline_free (by decide) (List.all_eq_true.mpr (hex8_hex address))
  simp [dataLine, text, hex]

namespace Dump

theorem lines_plain (d : Dump) : ∀ l ∈ d.lines, '\n' ∉ l := by
  have junk : ∀ js : List Junk, ∀ l ∈ js.map Junk.line, '\n' ∉ l := by
    intro js l hl
    obtain ⟨j, _, rfl⟩ := List.mem_map.mp hl
    exact j.whole
  intro l hl
  rcases List.mem_append.mp hl with hl | hl
  · obtain ⟨s, _, hl⟩ := List.mem_flatMap.mp hl
    rcases List.mem_append.mp hl with hl | hl
    · exact junk _ l hl
    · rcases List.mem_cons.mp hl with rfl | hl
      · exact nodeLine_plain _
      · obtain ⟨d, _, rfl⟩ := List.mem_map.mp hl
        exact dataLine_plain _ _
  · exact junk _ l hl

theorem lines_cons (s : List Junk × Section) (ss : List (List Junk × Section))
    (tail : List Junk) : lines ⟨s :: ss, tail⟩ =
      s.1.map Junk.line ++ (s.2.text ++ lines ⟨ss, tail⟩) := by
  simp only [lines, List.flatMap_cons, List.append_assoc]

theorem dataRun_lines (d : Dump) : dataRun d.lines = [] := by
  obtain ⟨sections, tail⟩ := d
  cases sections with
  | nil =>
    have junk := @dataRun_junk tail [] rfl
    rwa [List.append_nil] at junk
  | cons s ss =>
    rw [lines_cons]
    apply dataRun_junk
    simp only [Section.text, List.cons_append, dataRun, dataOf_nodeLine]

theorem items_lines (d : Dump) : items d.lines = d.sections.map fun s => s.2.item := by
  obtain ⟨sections, tail⟩ := d
  induction sections with
  | nil =>
    have junk := items_junk tail []
    rwa [List.append_nil] at junk
  | cons s ss ih =>
    rw [lines_cons, items_junk, items_section _ (dataRun_lines ⟨ss, tail⟩), ih, List.map_cons]

end Dump

section
variable (past : List Dword → Nat → Dword)

theorem entriesOf_section (s : Section) : ∃ entries,
    entriesOf past (s.lines.map Prod.snd) = some entries ∧
      entries.map RunlistEntry.header = s.packets.map Packet.header := by
  have packets : s.packets.map Packet.dwords ≠ [] := by simpa using s.some_packet
  have data : s.lines.map Prod.snd ≠ [] := by
    intro empty
    obtain ⟨p, ps, hp⟩ := List.exists_cons_of_ne_nil s.some_packet
    have split := s.split
    simp [empty, hp, Packet.dwords] at split
  obtain ⟨entries, ok, headers⟩ := parseRunlistEntries_packets
    (past (s.packets.map Packet.dwords).flatten) packets
    (by
      intro q hq
      obtain ⟨p, _, rfl⟩ := List.mem_map.mp hq
      exact p.isPacket)
    (by
      intro q hq
      obtain ⟨p, _, rfl⟩ := List.mem_map.mp hq
      exact p.accepted)
  refine ⟨entries, ?_, ?_⟩
  · simp only [entriesOf, if_neg data, s.split, decode, ok, ResultStatus.ok, ne_eq, not_true,
      if_false]
  · rw [headers, List.map_map]
    exact List.map_congr_left fun p _ => p.entryHeader_headerDword

/-- Reading undoes printing: every section of a dump is in the series, in its place. -/
theorem runlists_of_dump (d : Dump) : ∃ series,
    siftPm4ParseRunlists past d.render = some (.success, series) ∧
      series.map (fun r => (r.node, r.entries.map RunlistEntry.header)) =
        d.sections.map fun s => (s.2.node, s.2.packets.map Packet.header) := by
  have series : ∀ ss : List (List Junk × Section), ∃ series,
      runlistsOf past (ss.map fun s => s.2.item) = (.success, series) ∧
        series.map (fun r => (r.node, r.entries.map RunlistEntry.header)) =
          ss.map fun s => (s.2.node, s.2.packets.map Packet.header) := by
    intro ss
    induction ss with
    | nil => exact ⟨[], rfl, rfl⟩
    | cons s ss ih =>
      obtain ⟨series, rest, same⟩ := ih
      obtain ⟨entries, ok, headers⟩ := entriesOf_section past s.2
      refine ⟨⟨s.2.node, entries⟩ :: series, ?_, ?_⟩
      · simp only [List.map_cons, Section.item, runlistsOf, ok]
        simp only [Section.item] at rest
        rw [rest]
      · simp only [List.map_cons, headers, same]
  obtain ⟨rs, ok, same⟩ := series d.sections
  refine ⟨rs, ?_, same⟩
  rw [siftPm4ParseRunlists_eq, Dump.render, TextLines.lines_unlines _ d.lines_plain,
    d.items_lines, ok]

end

end Rocsift.Pm4
