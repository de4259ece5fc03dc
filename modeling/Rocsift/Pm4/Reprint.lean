import Mathlib.Data.List.Forall2
import Rocsift.Pm4.Agreement
import Rocsift.Pm4.Encoding

/-! A series that the parser returned, printed again. What the decoders drop is not needed to
decode the same entries, so reading the new text gives the series back. -/
namespace Rocsift.Pm4
open Sift (SiftStatus)

structure Printed where
  runlist : Runlist
  rows : List (Dword × List Dword)
  split : (rows.map Prod.snd).flatten = runlist.entries.flatMap RunlistEntry.dwords

namespace Printed

def lines (p : Printed) : List Line :=
  nodeLine p.runlist.node :: p.rows.map fun row => dataLine row.1 row.2

def text (ps : List Printed) : List Char := TextLines.unlines '\n' (ps.flatMap lines)

end Printed

/-- What the decoders can return: a runlist has entries, and each is as its fields can say it. -/
structure Runlist.Decoded (r : Runlist) : Prop where
  some_entry : r.entries ≠ []
  encodable : ∀ e ∈ r.entries, e.Encodable

theorem parseEntries_encodable {data : Span} {mem : Nat → Dword} {start : Nat} {sizes : List Nat}
    {entries : List RunlistEntry}
    (decoded : ((parseEntries data start sizes).value mem).value = some entries) :
    entries.length = sizes.length ∧ ∀ e ∈ entries, e.Encodable := by
  induction sizes generalizing start entries with
  | nil =>
    cases decoded
    exact ⟨rfl, fun _ member => absurd member List.not_mem_nil⟩
  | cons size sizes ih =>
    rw [parseEntries, Reading.value_bind] at decoded
    rcases parseRunlistEntry_result mem (data.subspan start size) with refused | ⟨e, here⟩
    · rw [refused] at decoded
      cases decoded
    · rw [here] at decoded
      simp only [ResultStatus.ok, Reading.value_bind] at decoded
      generalize rest : (parseEntries data (start + size) sizes).value mem = later at decoded
      obtain ⟨status, value⟩ := later
      cases value with
      | none => cases status <;> cases decoded
      | some es =>
        cases status with
        | success =>
          cases decoded
          obtain ⟨length, all⟩ := ih (congrArg ResultStatus.value rest)
          refine ⟨congrArg (· + 1) length, List.forall_mem_cons.mpr ⟨?_, all⟩⟩
          exact RunlistEntry.encodable_of_decoded here
        | error => cases decoded
        | noMatch => cases decoded

theorem entrySizes_some {data : Span} (mem : Nat → Dword) (dwords : data.length ≠ 0) :
    ((entrySizes data data.length 0).value mem).2 ≠ [] := by
  obtain ⟨fuel, length⟩ := Nat.exists_eq_succ_of_ne_zero dwords
  rw [length, entrySizes, if_pos (Nat.pos_of_ne_zero dwords), Reading.value_bind,
    Reading.value_bind]
  exact List.cons_ne_nil _ _

theorem decode_encodable {past : List Dword → Nat → Dword} {dwords : List Dword}
    {entries : List RunlistEntry} (decoded : (decode past dwords).value = some entries) :
    entries ≠ [] ∧ ∀ e ∈ entries, e.Encodable := by
  by_cases none : (whole dwords).length = 0
  · rw [decode, parseRunlistEntries, if_pos none] at decoded
    cases decoded
  · rw [decode, parseRunlistEntries, if_neg none, Reading.value_bind, Reading.value_ite] at decoded
    split at decoded
    · cases decoded
    · obtain ⟨length, all⟩ := parseEntries_encodable decoded
      have sizes := entrySizes_some (memory dwords (past dwords)) none
      refine ⟨?_, all⟩
      rintro rfl
      exact sizes (List.eq_nil_of_length_eq_zero length.symm)

theorem entriesOf_encodable {past : List Dword → Nat → Dword} {data : List (List Dword)}
    {entries : List RunlistEntry} (decoded : entriesOf past data = some entries) :
    entries ≠ [] ∧ ∀ e ∈ entries, e.Encodable := by
  unfold entriesOf at decoded
  split at decoded
  · cases decoded
  · split at decoded
    · cases decoded
    · exact decode_encodable decoded

theorem runlistsOf_decoded {past : List Dword → Nat → Dword} {is : List Item}
    {series : List Runlist} (parsed : runlistsOf past is = (.success, series)) :
    ∀ r ∈ series, r.Decoded := by
  induction is generalizing series with
  | nil =>
    cases parsed
    exact fun _ member => absurd member List.not_mem_nil
  | cons i is ih =>
    cases i with
    | overflow => cases parsed
    | found n data =>
      cases decoded : entriesOf past data with
      | none =>
        rw [runlistsOf_found] at parsed
        simp only [decoded] at parsed
        cases parsed
        exact fun _ member => absurd member List.not_mem_nil
      | some entries =>
        obtain ⟨rest, later, rfl⟩ := runlistsOf_success decoded parsed
        obtain ⟨some_entry, encodable⟩ := entriesOf_encodable decoded
        exact List.forall_mem_cons.mpr ⟨⟨some_entry, encodable⟩, ih later⟩

/-! The printed text, section by section. -/

namespace Printed

def item (p : Printed) : Item := .found p.runlist.node (p.rows.map Prod.snd)

theorem dataRun_lines (ps : List Printed) : dataRun (ps.flatMap lines) = [] := by
  cases ps with
  | nil => rfl
  | cons p ps => simp only [List.flatMap_cons, lines, List.cons_append, dataRun, dataOf_nodeLine]

theorem items_lines (ps : List Printed) : items (ps.flatMap lines) = ps.map item := by
  induction ps with
  | nil => rfl
  | cons p ps ih =>
    have stop := dataRun_lines ps
    simp only [List.flatMap_cons, lines, List.cons_append, items, parseNodeLine_nodeLine,
      ResultStatus.ok, List.map_cons]
    rw [dataRun_dataLines _ stop, items_dataLines]
    exact congrArg _ ih

theorem lines_plain (ps : List Printed) : ∀ l ∈ ps.flatMap lines, '\n' ∉ l := by
  intro l member
  obtain ⟨p, -, member⟩ := List.mem_flatMap.mp member
  rcases List.mem_cons.mp member with rfl | member
  · exact nodeLine_plain _
  · obtain ⟨row, -, rfl⟩ := List.mem_map.mp member
    exact dataLine_plain _ _

theorem entriesOf_rows (past : List Dword → Nat → Dword) (p : Printed)
    (decoded : p.runlist.Decoded) (full : ∀ e ∈ p.runlist.entries, e.Full) :
    entriesOf past (p.rows.map Prod.snd) = some p.runlist.entries := by
  obtain ⟨some_entry, encodable⟩ := decoded
  have split := p.split
  rw [List.flatMap_def] at split
  have packets : p.runlist.entries.map RunlistEntry.dwords ≠ [] := by
    rwa [ne_eq, List.map_eq_nil_iff]
  have framed : ∀ ds ∈ p.runlist.entries.map RunlistEntry.dwords, IsPacket ds := by
    intro ds member
    obtain ⟨e, entry, rfl⟩ := List.mem_map.mp member
    exact (encodable e entry).isPacket
  have alone : List.Forall₂ Alone (p.runlist.entries.map RunlistEntry.dwords)
      p.runlist.entries := by
    apply List.forall₂_map_left_iff.mpr
    apply List.forall₂_same.mpr
    exact fun e entry => (encodable e entry).alone (full e entry)
  have rows : p.rows.map Prod.snd ≠ [] := by
    intro none
    obtain ⟨e, es, entries⟩ := List.exists_cons_of_ne_nil some_entry
    rw [none, entries] at split
    cases split
  have ok := decode_alone past packets framed alone
  rw [← split] at ok
  simp only [entriesOf, if_neg rows, ok, ResultStatus.ok, ne_eq, not_true, if_false]

theorem runlistsOf_items (past : List Dword → Nat → Dword) (ps : List Printed)
    (decoded : ∀ p ∈ ps, p.runlist.Decoded)
    (full : ∀ p ∈ ps, ∀ e ∈ p.runlist.entries, e.Full) :
    runlistsOf past (ps.map item) = (.success, ps.map runlist) := by
  induction ps with
  | nil => rfl
  | cons p ps ih =>
    obtain ⟨here, later⟩ := List.forall_mem_cons.mp decoded
    obtain ⟨full_here, full_later⟩ := List.forall_mem_cons.mp full
    rw [List.map_cons, item, runlistsOf_found, entriesOf_rows past p here full_here,
      ih later full_later]
    rfl

end Printed

/-- Reading what has been printed from a series gives the series again, when its packets are as
long as their decoders read; neither parse depends on what lies behind the arrays. -/
theorem reprint_parses (past past' : List Dword → Nat → Dword) (text : List Char)
    (ps : List Printed)
    (parsed : siftPm4ParseRunlists past text = some (.success, ps.map Printed.runlist))
    (full : ∀ p ∈ ps, ∀ e ∈ p.runlist.entries, e.Full) :
    siftPm4ParseRunlists past' (Printed.text ps) =
      some (.success, ps.map Printed.runlist) := by
  rw [siftPm4ParseRunlists_eq, Option.some.injEq] at parsed
  have decoded := List.forall_mem_map.mp (runlistsOf_decoded parsed)
  rw [siftPm4ParseRunlists_eq, Printed.text,
    TextLines.lines_unlines _ (Printed.lines_plain ps), Printed.items_lines,
    Printed.runlistsOf_items past' ps decoded full]

def checkedQueues : RunlistEntry where
  header := ⟨opMapQueues, 6#16, .type3⟩
  body := .mapQueues ⟨0#8, 0#8, 0#8, false, 0#8, 0#8, 0#8, 0#8, 0#8, true, 0#32, 3#32, 4#32, 5#32,
    6#32⟩

def checkedRows : Printed where
  runlist := ⟨⟨2#32, 0x99#32⟩, [checkedQueues]⟩
  rows := [(0#32, [0xC005A200#32, 0#32, 2#32]), (12#32, [3#32, 4#32, 5#32, 6#32])]
  split := by decide

/-- The reserved bits that the first text has set are clear in the second. -/
theorem reprint_parses_reserved :
    siftPm4ParseRunlists (fun _ _ => 1#32) (Printed.text [checkedRows]) =
      some (.success, [⟨⟨2#32, 0x99#32⟩, [checkedQueues]⟩]) := by
  have parsed : siftPm4ParseRunlists (fun _ _ => 0#32) (TextLines.unlines '\n'
      [nodeLine ⟨2#32, 0x99#32⟩, dataLine 0#32 [0xC005A2FF#32, 1#32, 2#32, 3#32, 4#32, 5#32,
        6#32]]) = some (.success, [⟨⟨2#32, 0x99#32⟩, [checkedQueues]⟩]) := by
    decide +kernel
  exact reprint_parses _ _ _ [checkedRows] parsed (by decide)

end Rocsift.Pm4
