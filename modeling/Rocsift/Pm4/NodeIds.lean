import Rocsift.Pm4.Targeted

/-! The numbers of a node line against the 32-bit ids that are read from it. Both go through a
64-bit conversion and are cut to their low 32 bits, so only the numbers in between are misread. -/
namespace Rocsift.Pm4
open Sift (SiftStatus)

def Denotes (line : Line) (n : Node) : Prop := ∃ node gpu, NodeShape line node gpu ∧
  n.node_id.toNat = Numerals.value 10 node ∧ n.gpu_id.toNat = Numerals.value 16 gpu

def Fits (line : Line) : Prop := ∀ node gpu, nodeFormat line = some (node, gpu) →
  Numerals.value 10 node < 2 ^ 32 ∧ Numerals.value 16 gpu < 2 ^ 32

/-- If the line is a node line, one of its numbers has more than 64 bits. -/
def OutOfRange (line : Line) : Prop := ∀ node gpu, nodeFormat line = some (node, gpu) →
  2 ^ 64 ≤ Numerals.value 10 node ∨ 2 ^ 64 ≤ Numerals.value 16 gpu

def ReadExactly (line : Line) : Prop := ∀ n, parseNodeLine line = .ok n → Denotes line n

section
variable {line : Line} {node gpu : List Char} (format : nodeFormat line = some (node, gpu))
include format

theorem denotes_iff (n : Node) : Denotes line n ↔
    n.node_id.toNat = Numerals.value 10 node ∧ n.gpu_id.toNat = Numerals.value 16 gpu := by
  constructor
  · rintro ⟨node', gpu', shape, ids⟩
    have same := (nodeFormat_some_iff line node' gpu').mpr shape
    rw [format] at same
    obtain ⟨rfl, rfl⟩ := Prod.mk.inj (Option.some.inj same)
    exact ids
  · intro ids
    exact ⟨node, gpu, (nodeFormat_some_iff line node gpu).mp format, ids⟩

theorem parseNodeLine_format : parseNodeLine line =
    if Numerals.value 10 node < 2 ^ 64 ∧ Numerals.value 16 gpu < 2 ^ 64 then
      .ok ⟨BitVec.ofNat 32 (Numerals.value 10 node), BitVec.ofNat 32 (Numerals.value 16 gpu)⟩
    else .error := by
  simp only [parseNodeLine, format, Numerals.stoul]
  by_cases first : Numerals.value 10 node < 2 ^ 64
  · by_cases second : Numerals.value 16 gpu < 2 ^ 64
    · simp only [first, second, and_self, if_true]
    · simp only [if_pos first, second, and_false, if_false]
  · simp only [first, false_and, if_false]

theorem ofNat_denotes_iff :
    Denotes line ⟨BitVec.ofNat 32 (Numerals.value 10 node),
      BitVec.ofNat 32 (Numerals.value 16 gpu)⟩ ↔ Fits line := by
  have low : ∀ v : Nat, (BitVec.ofNat 32 v).toNat = v ↔ v < 2 ^ 32 := by
    intro v
    rw [BitVec.toNat_ofNat]
    omega
  rw [denotes_iff format, low, low]
  constructor
  · intro fits node' gpu' same
    rw [format] at same
    obtain ⟨rfl, rfl⟩ := Prod.mk.inj (Option.some.inj same)
    exact fits
  · intro fits
    exact fits node gpu format

end

theorem denotes_iff_fits {line : Line} {n : Node} (found : parseNodeLine line = .ok n) :
    Denotes line n ↔ Fits line := by
  cases format : nodeFormat line with
  | none =>
    simp only [parseNodeLine, format] at found
    cases found
  | some digits =>
    obtain ⟨node, gpu⟩ := digits
    rw [parseNodeLine_format format] at found
    split at found
    · cases found
      exact ofNat_denotes_iff format
    · cases found

/-- The ids of a line are read exactly, unless a number of it lies between 32 and 64 bits while
neither has more. -/
theorem readExactly_iff (line : Line) : ReadExactly line ↔ Fits line ∨ OutOfRange line := by
  cases format : nodeFormat line with
  | none =>
    have exact_line : ReadExactly line := by
      intro n found
      simp only [parseNodeLine, format] at found
      cases found
    have fits : Fits line := by
      intro node gpu some_digits
      rw [format] at some_digits
      cases some_digits
    exact ⟨fun _ => Or.inl fits, fun _ => exact_line⟩
  | some digits =>
    obtain ⟨node, gpu⟩ := digits
    have read := parseNodeLine_format format
    constructor
    · intro exact_line
      split at read
      · exact Or.inl ((denotes_iff_fits read).mp (exact_line _ read))
      · rename_i beyond
        refine Or.inr fun node' gpu' same => ?_
        rw [format] at same
        obtain ⟨rfl, rfl⟩ := Prod.mk.inj (Option.some.inj same)
        omega
    · rintro (fits | beyond) n found
      · exact (denotes_iff_fits found).mpr fits
      · have large := beyond node gpu format
        rw [if_neg (by omega)] at read
        rw [read] at found
        cases found

section
variable (past : List Dword → Nat → Dword) (node : Node)

/-- The node line that a search takes for its own, with the lines behind it: the first one that is
read as the pair, unless a node line before it is out of range. -/
def taken : List Line → Option (Line × List Line)
  | [] => none
  | l :: ls =>
    match parseNodeLine l with
    | ⟨.success, some n⟩ => if n = node then some (l, ls) else taken ls
    | ⟨.noMatch, _⟩ => taken ls
    | _ => none

def Decodes (ls : List Line) : Prop := ∃ entries, entriesOf past (dataRun ls) = some entries

def OwnSection (text : List Char) : Prop := ∀ r,
  siftPm4ParseRunlist past node.node_id node.gpu_id text = some (.success, some r) →
    ∃ l ls, taken node (TextLines.lines '\n' text) = some (l, ls) ∧
      entriesOf past (dataRun ls) = some r.entries ∧ Denotes l node

theorem taken_found {ls rest : List Line} {l : Line} (h : taken node ls = some (l, rest)) :
    parseNodeLine l = .ok node := by
  induction ls with
  | nil => cases h
  | cons k ls ih =>
    unfold taken at h
    split at h
    · rename_i n found
      split at h
      · rename_i same
        cases h
        rw [found, same]
        rfl
      · exact ih h
    · exact ih h
    · cases h

def takenEntries (ls : List Line) : Option (List RunlistEntry) :=
  (taken node ls).bind fun t => entriesOf past (dataRun t.2)

theorem runlistOf_foreign {n : Node} (other : n ≠ node) (data : List (List Dword))
    (is : List Item) : runlistOf past node (.found n data :: is) = runlistOf past node is := by
  have foreign : (RlsParser.forNode [] node.node_id node.gpu_id).wants n = false :=
    decide_eq_false fun ids => other (Node.ext ids.1 ids.2)
  simp only [runlistOf, RlsParser.upcoming, List.dropWhile_cons, foreign, Bool.not_false, if_true]

theorem runlistOf_own (data : List (List Dword)) (is : List Item) :
    runlistOf past node (.found node data :: is) =
      match entriesOf past data with
      | some entries => (.success, some ⟨node, entries⟩)
      | none => (.error, none) := by
  have wanted : (RlsParser.forNode [] node.node_id node.gpu_id).wants node = true :=
    decide_eq_true ⟨rfl, rfl⟩
  cases decoded : entriesOf past data <;> simp only [runlistOf, upcoming_stop wanted, decoded]

theorem runlistOf_taken (ls : List Line) : runlistOf past node (items ls) =
    match takenEntries past node ls with
    | some entries => (.success, some ⟨node, entries⟩)
    | none => (.error, none) := by
  induction ls with
  | nil => rfl
  | cons l ls ih =>
    rcases parseNodeLine_cases l with h | h | ⟨n, h⟩
    · simp only [items, takenEntries, taken, h, ResultStatus.noMatch]
      exact ih
    · simp only [items, takenEntries, taken, h, ResultStatus.error]
      rfl
    · simp only [items, takenEntries, taken, h, ResultStatus.ok]
      by_cases same : n = node
      · rw [same, if_pos rfl]
        exact runlistOf_own past node (dataRun ls) (items ls)
      · rw [runlistOf_foreign past node same, if_neg same]
        exact ih

theorem siftPm4ParseRunlist_success_iff (text : List Char) (r : Runlist) :
    siftPm4ParseRunlist past node.node_id node.gpu_id text = some (.success, some r) ↔
      ∃ l ls, taken node (TextLines.lines '\n' text) = some (l, ls) ∧
        entriesOf past (dataRun ls) = some r.entries ∧ r.node = node := by
  rw [siftPm4ParseRunlist_eq, runlistOf_taken, takenEntries]
  constructor
  · intro returned
    split at returned
    · rename_i entries found
      obtain ⟨⟨l, ls⟩, here, decoded⟩ := Option.bind_eq_some_iff.mp found
      cases returned
      exact ⟨l, ls, here, decoded, rfl⟩
    · cases returned
  · rintro ⟨l, ls, here, decoded, rfl⟩
    rw [here, Option.bind_some, decoded]

theorem ownSection_iff (text : List Char) : OwnSection past node text ↔
    ∀ l ls, taken node (TextLines.lines '\n' text) = some (l, ls) → Decodes past ls → Fits l := by
  constructor
  · intro own l ls here decodes
    obtain ⟨entries, decoded⟩ := decodes
    have returned := (siftPm4ParseRunlist_success_iff past node text ⟨node, entries⟩).mpr
      ⟨l, ls, here, decoded, rfl⟩
    obtain ⟨l', ls', same, _, denotes⟩ := own ⟨node, entries⟩ returned
    rw [here] at same
    cases same
    exact (denotes_iff_fits (taken_found node here)).mp denotes
  · intro fits r returned
    obtain ⟨l, ls, here, decoded, _⟩ :=
      (siftPm4ParseRunlist_success_iff past node text r).mp returned
    have fit := fits l ls here ⟨r.entries, decoded⟩
    exact ⟨l, ls, here, decoded, (denotes_iff_fits (taken_found node here)).mpr fit⟩

end

theorem node_ids_exact_iff (past : List Dword → Nat → Dword) (node : Node) (text : List Char) :
    (∀ line, ReadExactly line ↔ Fits line ∨ OutOfRange line) ∧
    (OwnSection past node text ↔
      ∀ l ls, taken node (TextLines.lines '\n' text) = some (l, ls) → Decodes past ls → Fits l) :=
  ⟨readExactly_iff, ownSection_iff past node text⟩

/-- The number 2 ^ 32 + 1 is read as 1. -/
theorem node_beyond_32_bits :
    parseNodeLine "Node 4294967297, gpu_id 2:".toList = .ok ⟨1#32, 2#32⟩ ∧
      ¬ ReadExactly "Node 4294967297, gpu_id 2:".toList := by
  have format : nodeFormat "Node 4294967297, gpu_id 2:".toList =
      some ("4294967297".toList, "2".toList) := by decide
  refine ⟨by decide, ?_⟩
  rw [readExactly_iff]
  rintro (fits | beyond)
  · exact absurd (fits _ _ format).1 (by decide)
  · exact absurd (beyond _ _ format) (by decide)

end Rocsift.Pm4
