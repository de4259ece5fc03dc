import Rocsift.Pm4.Parser
import Rocsift.Pm4.Render

/-! A runlist text as its sections, and the parser's run over it. A section is a node line and
the data lines right behind it; where a line stands in the text plays no part. -/
namespace Rocsift.Pm4
open Sift (SiftStatus)

def dataOf (line : Line) : Option (List Dword) :=
  match (getDataStartPosition line).value with
  | some data_start_pos => (parseDataSection (line.drop data_start_pos)).value
  | none => none

def dataRun : List Line → List (List Dword)
  | [] => []
  | l :: ls =>
    match dataOf l with
    | some ds => ds :: dataRun ls
    | none => []

/-- A node line with a number out of range, or a section: its node and what its data lines hold. -/
inductive Item where
  | overflow
  | found (node : Node) (data : List (List Dword))
  deriving DecidableEq

def items : List Line → List Item
  | [] => []
  | l :: ls =>
    match parseNodeLine l with
    | ⟨.success, some node⟩ => .found node (dataRun ls) :: items ls
    | ⟨.noMatch, _⟩ => items ls
    | _ => .overflow :: items ls

theorem dataMatches_length (fuel : Nat) (cs : List Char) :
    ∀ w ∈ dataMatches fuel cs, w.length = 8 := by
  induction fuel generalizing cs with
  | zero => intro w hw; cases hw
  | succ fuel ih =>
    intro w hw
    unfold dataMatches at hw
    split at hw
    · rename_i starts
      rcases List.mem_cons.mp hw with rfl | hw
      · simp only [startsDword, Bool.and_eq_true, decide_eq_true_eq] at starts
        exact starts.1
      · exact ih _ w hw
    · exact ih _ w hw

theorem parseDataSection_matches (cs : List Char) : parseDataSection cs =
    .ok ((dataMatches cs.length cs).map fun w => BitVec.ofNat 32 (Numerals.value 16 w)) := by
  have values : ∀ ws : List (List Char), (∀ w ∈ ws, w.length = 8) →
      ws.mapM (Numerals.stoul 16) = some (ws.map (Numerals.value 16)) := by
    intro ws eight
    induction ws with
    | nil => rfl
    | cons w ws ih =>
      have fits := Numerals.stoul_hex (by rw [eight w List.mem_cons_self]; decide : w.length ≤ 16)
      have rest := ih fun v hv => eight v (List.mem_cons_of_mem w hv)
      simp [fits, rest]
  simp only [parseDataSection, values _ (dataMatches_length cs.length cs), List.map_map,
    Function.comp_def]

theorem parseDataSection_ok (cs : List Char) : ∃ ds, parseDataSection cs = .ok ds :=
  ⟨_, parseDataSection_matches cs⟩

theorem getDataStartPosition_cases (line : Line) :
    getDataStartPosition line = .noMatch ∨ ∃ pos, getDataStartPosition line = .ok pos := by
  rw [getDataStartPosition]
  split
  · exact Or.inr ⟨_, rfl⟩
  · exact Or.inl rfl

theorem parseNodeLine_of_data {line : Line} {ds : List Dword} (h : dataOf line = some ds) :
    parseNodeLine line = .noMatch := by
  cases format : nodeFormat line with
  | none => simp only [parseNodeLine, format]
  | some digits =>
    obtain ⟨node, gpu⟩ := digits
    have no := getDataStartPosition_of_node ((nodeFormat_some_iff line node gpu).mp format)
    simp [dataOf, no, ResultStatus.noMatch] at h

theorem parseNodeLine_cases (line : Line) :
    parseNodeLine line = .noMatch ∨ parseNodeLine line = .error ∨
      ∃ node, parseNodeLine line = .ok node := by
  unfold parseNodeLine
  split
  · exact Or.inl rfl
  · split
    · exact Or.inr (Or.inr ⟨_, rfl⟩)
    · exact Or.inr (Or.inl rfl)

structure IsLine (text : List Char) (s e : Nat) (l : Line) : Prop where
  found : TextLines.find text '\n' s = some e
  line : TextLines.substr text s (e - s) = l
  le : s ≤ e
  term : text.drop e = '\n' :: text.drop (e + 1)

theorem next_line {text : List Char} {s : Nat} {l : Line} {ls : List Line}
    (h : TextLines.lines '\n' (text.drop s) = l :: ls) :
    ∃ e, IsLine text s e l ∧ TextLines.lines '\n' (text.drop (e + 1)) = ls := by
  rw [TextLines.lines_drop] at h
  cases found : TextLines.find text '\n' s with
  | none => rw [found] at h; cases h
  | some e =>
    rw [found] at h
    obtain ⟨line, rest⟩ := List.cons.inj h
    obtain ⟨le, _, _, term⟩ := TextLines.find_some found
    exact ⟨e, ⟨found, line, le, term⟩, rest⟩

theorem no_line {text : List Char} {s : Nat} (h : TextLines.lines '\n' (text.drop s) = []) :
    TextLines.find text '\n' s = none := by
  rw [TextLines.lines_drop] at h
  cases found : TextLines.find text '\n' s with
  | none => rfl
  | some e => rw [found] at h; cases h

namespace RlsParser

def wants (p : RlsParser) (n : Node) : Bool :=
  p.find_all_nodes_ || decide (n.node_id = p.node_ ∧ n.gpu_id = p.gpu_)

/-- The items from the first one on that a call does not pass over. -/
def upcoming (p : RlsParser) (is : List Item) : List Item :=
  is.dropWhile fun
    | .overflow => false
    | .found n _ => !p.wants n

theorem upcoming_wants (p : RlsParser) {is rest : List Item} {n : Node}
    {data : List (List Dword)} (h : p.upcoming is = .found n data :: rest) : p.wants n = true := by
  have stops := List.head?_dropWhile_not (fun
    | Item.overflow => false
    | .found n _ => !p.wants n) is
  unfold upcoming at h
  simpa [h] using stops

def ahead (text : List Char) (e : Option Nat) : List Line :=
  TextLines.lines '\n' (text.drop (e.getD text.length))

def facing (p : RlsParser) (state : State) (start last : Nat) : Cursor :=
  ⟨p.seek state start, start, last, false⟩

variable (p : RlsParser)

theorem parseData_eq (line : Line) : p.parseData line =
    match dataOf line with
    | some ds => (⟨.data, 1⟩, { p with dwords_buffer_ := p.dwords_buffer_ ++ [ds] })
    | none => (⟨.end_, 0⟩, p) := by
  rcases getDataStartPosition_cases line with h | ⟨pos, h⟩
  · simp only [parseData, dataOf, h, ResultStatus.noMatch]
  · obtain ⟨ds, hd⟩ := parseDataSection_ok (line.drop pos)
    simp only [parseData, dataOf, h, hd, ResultStatus.ok]

theorem parseNode_pass {line : Line} (h : parseNodeLine line = .noMatch ∨
    ∃ n, parseNodeLine line = .ok n ∧ p.wants n = false) : p.parseNode line = (⟨.node, 1⟩, p) := by
  rcases h with h | ⟨n, h, foreign⟩
  · simp only [parseNode, h, ResultStatus.noMatch]
  · simp only [wants, Bool.or_eq_false_iff, decide_eq_false_iff_not] at foreign
    simp [parseNode, h, ResultStatus.ok, foreign.1, foreign.2]

theorem parseNode_found {line : Line} {n : Node} (h : parseNodeLine line = .ok n)
    (wanted : p.wants n = true) : p.parseNode line =
      (⟨.data, 1⟩, { p with node_ := n.node_id, gpu_ := n.gpu_id }) := by
  simp only [wants, Bool.or_eq_true, decide_eq_true_eq] at wanted
  simp only [parseNode, h, ResultStatus.ok, if_pos wanted]

theorem parseNode_overflow {line : Line} (h : parseNodeLine line = .error) :
    p.parseNode line = (⟨.error, 0⟩, p) := by
  simp only [parseNode, h, ResultStatus.error]

/-- Where a loop that meets these items leaves: past the text, by an exception, or behind the
first section it does not pass over. -/
def Reaches (s : Nat) : List Item → Except SiftStatus RlsParser → Prop
  | [], r => ∃ state, r = .ok { p with state_ := state, end_ := none }
  | .overflow :: _, r => r = .error .codeBug
  | .found n data :: is, r => ∃ state e,
      r = .ok { p with
        node_ := n.node_id
        gpu_ := n.gpu_id
        dwords_buffer_ := p.dwords_buffer_ ++ data
        state_ := state
        end_ := e } ∧
      items (ahead p.rls_text e) = is ∧ ∀ r ∈ e, s ≤ r

theorem Reaches.mono {p : RlsParser} {s t : Nat} (le : s ≤ t) {is : List Item}
    {r : Except SiftStatus RlsParser} (h : Reaches p t is r) : Reaches p s is r := by
  match is, h with
  | [], h => exact h
  | .overflow :: _, h => exact h
  | .found _ _ :: _, ⟨state, e, hr, same, after⟩ =>
    exact ⟨state, e, hr, same, fun q hq => Nat.le_trans le (after q hq)⟩

section
variable {p : RlsParser} {s last fuel e : Nat} {l : Line} {ls : List Line}

theorem turn_end (state : State) (h : TextLines.lines '\n' (p.rls_text.drop s) = []) :
    turn (facing p state s last) = .leave (.ok { p with state_ := state, end_ := none }) := by
  simp only [turn, facing, seek, no_line h]

theorem turn_pass (here : IsLine p.rls_text s e l) (h : parseNodeLine l = .noMatch ∨
    ∃ n, parseNodeLine l = .ok n ∧ p.wants n = false) :
    turn (facing p .node s last) = .again (facing p .node (e + 1) last) := by
  have pass := parseNode_pass (p.seek .node s) h
  simp only [seek, here.found] at pass
  simp only [turn, facing, seek, here.found, here.line, Bool.false_eq_true, if_false, pass]

theorem turn_found (here : IsLine p.rls_text s e l) {n : Node} (h : parseNodeLine l = .ok n)
    (wanted : p.wants n = true) :
    turn (facing p .node s last) =
      .again (facing { p with node_ := n.node_id, gpu_ := n.gpu_id } .data (e + 1) last) := by
  have found := parseNode_found (p.seek .node s) h wanted
  simp only [seek, here.found] at found
  simp only [turn, facing, seek, here.found, here.line, Bool.false_eq_true, if_false, found]

theorem turn_overflow (here : IsLine p.rls_text s e l) (h : parseNodeLine l = .error) :
    turn (facing p .node s last) = .again (facing p .error e last) := by
  have overflow := parseNode_overflow (p.seek .node s) h
  simp only [seek, here.found] at overflow
  simp only [turn, facing, seek, here.found, here.line, Bool.false_eq_true, if_false, overflow,
    Nat.add_zero]

theorem turn_data (here : IsLine p.rls_text s e l) {ds : List Dword} (h : dataOf l = some ds) :
    turn (facing p .data s last) =
      .again (facing { p with dwords_buffer_ := p.dwords_buffer_ ++ [ds] } .data (e + 1) last) := by
  have data := parseData_eq (p.seek .data s) l
  simp only [h, seek, here.found] at data
  simp only [turn, facing, seek, here.found, here.line, Bool.false_eq_true, if_false, data,
    ne_eq, not_true]

theorem turn_stop (here : IsLine p.rls_text s e l) (h : dataOf l = none) :
    turn (facing p .data s last) = .again (facing p .end_ e (s - 1)) := by
  have stop := parseData_eq (p.seek .data s) l
  simp only [h, seek, here.found] at stop
  simp only [turn, facing, seek, here.found, here.line, Bool.false_eq_true, if_false, stop,
    Nat.add_zero, ne_eq, reduceCtorEq, not_false_eq_true, if_true]

theorem turn_error (term : p.rls_text.drop e = '\n' :: p.rls_text.drop (e + 1)) :
    turn (facing p .error e last) = .leave (.error .codeBug) := by
  simp only [turn, facing, seek, TextLines.find_at term, Bool.false_eq_true, if_false]

theorem run_stop (term : p.rls_text.drop e = '\n' :: p.rls_text.drop (e + 1)) (fuel : Nat) :
    Looping.run turn (fuel + 2) (facing p .end_ e last) =
      some (.ok { p with state_ := .end_, end_ := some last }) := by
  have rewind : turn (facing p .end_ e last) =
      .again ⟨{ p with state_ := .end_, end_ := some last }, e, last, true⟩ := by
    simp only [turn, facing, seek, TextLines.find_at term, Bool.false_eq_true, if_false]
  rw [Looping.run_again rewind]
  exact Looping.run_leave (by simp only [turn, if_true]) fuel

theorem run_data (h : TextLines.lines '\n' (p.rls_text.drop s) = ls)
    (term : p.rls_text.drop (s - 1) = '\n' :: p.rls_text.drop s) (enough : ls.length + 2 ≤ fuel) :
    ∃ state e, Looping.run turn fuel (facing p .data s last) =
        some (.ok { p with
          dwords_buffer_ := p.dwords_buffer_ ++ dataRun ls, state_ := state, end_ := e }) ∧
      items (ahead p.rls_text e) = items ls ∧ ∀ r ∈ e, s - 1 ≤ r := by
  induction ls generalizing p s last fuel with
  | nil =>
    obtain ⟨fuel, rfl⟩ : ∃ n, fuel = n + 1 := ⟨fuel - 1, by omega⟩
    refine ⟨.data, none, ?_, by simp [ahead, TextLines.lines], by simp⟩
    rw [Looping.run_leave (turn_end .data h), dataRun, List.append_nil]
  | cons l ls ih =>
    rw [List.length_cons] at enough
    obtain ⟨fuel, rfl⟩ : ∃ n, fuel = n + 1 := ⟨fuel - 1, by omega⟩
    obtain ⟨e, here, rest⟩ := next_line h
    have le := here.le
    cases hd : dataOf l with
    | some ds =>
      obtain ⟨state, e', run, same, after⟩ :=
        @ih { p with dwords_buffer_ := p.dwords_buffer_ ++ [ds] } (e + 1) last fuel rest here.term
          (by omega)
      refine ⟨state, e', ?_, ?_, fun r hr => ?_⟩
      · rw [Looping.run_again (turn_data here hd), run]
        simp only [dataRun, hd, List.append_assoc, List.singleton_append]
      · simp only [items, parseNodeLine_of_data hd, ResultStatus.noMatch]
        exact same
      · have := after r hr
        omega
    | none =>
      obtain ⟨fuel, rfl⟩ : ∃ n, fuel = n + 2 := ⟨fuel - 2, by omega⟩
      refine ⟨.end_, some (s - 1), ?_, ?_, fun r hr => Nat.le_of_eq (Option.some.inj hr)⟩
      · rw [Looping.run_again (turn_stop here hd), run_stop here.term]
        simp only [dataRun, hd, List.append_nil]
      · have blank : parseNodeLine [] = ⟨.noMatch, none⟩ := rfl
        rw [ahead, Option.getD_some, term]
        simp only [TextLines.lines, if_true, h, items, blank]

theorem run_node (h : TextLines.lines '\n' (p.rls_text.drop s) = ls)
    (enough : ls.length + 2 ≤ fuel) :
    ∃ r, Looping.run turn fuel (facing p .node s last) = some r ∧
      Reaches p s (p.upcoming (items ls)) r := by
  induction ls generalizing s fuel with
  | nil =>
    obtain ⟨fuel, rfl⟩ : ∃ n, fuel = n + 1 := ⟨fuel - 1, by omega⟩
    exact ⟨_, Looping.run_leave (turn_end .node h) fuel, .node, rfl⟩
  | cons l ls ih =>
    rw [List.length_cons] at enough
    obtain ⟨fuel, rfl⟩ : ∃ n, fuel = n + 1 := ⟨fuel - 1, by omega⟩
    obtain ⟨e, here, rest⟩ := next_line h
    have le := here.le
    -- A line that is passed over leaves the same items upcoming, from a later offset.
    have pass (hp : parseNodeLine l = .noMatch ∨
        ∃ n, parseNodeLine l = .ok n ∧ p.wants n = false)
        (same : p.upcoming (items (l :: ls)) = p.upcoming (items ls)) :
        ∃ r, Looping.run turn (fuel + 1) (facing p .node s last) = some r ∧
          Reaches p s (p.upcoming (items (l :: ls))) r := by
      obtain ⟨r, run, reaches⟩ := ih rest (by omega : ls.length + 2 ≤ fuel)
      rw [same]
      exact ⟨r, by rw [Looping.run_again (turn_pass here hp), run], reaches.mono (by omega)⟩
    rcases parseNodeLine_cases l with hl | hl | ⟨n, hl⟩
    · exact pass (Or.inl hl) (by simp only [items, hl, ResultStatus.noMatch])
    · obtain ⟨fuel, rfl⟩ : ∃ n, fuel = n + 1 := ⟨fuel - 1, by omega⟩
      refine ⟨.error .codeBug, ?_, ?_⟩
      · rw [Looping.run_again (turn_overflow here hl), Looping.run_leave (turn_error here.term)]
      · simp only [items, hl, ResultStatus.error, upcoming, List.dropWhile_cons,
          Bool.false_eq_true, if_false, Reaches]
    · cases wanted : p.wants n with
      | false =>
        refine pass (Or.inr ⟨n, hl, wanted⟩) ?_
        simp only [items, hl, ResultStatus.ok, upcoming, List.dropWhile_cons, wanted,
          Bool.not_false, if_true]
      | true =>
        obtain ⟨state, e', run, same, after⟩ :=
          @run_data { p with node_ := n.node_id, gpu_ := n.gpu_id } (e + 1) last fuel ls rest
            here.term (by omega)
        refine ⟨_, (Looping.run_again (turn_found here hl wanted) fuel).trans run, ?_⟩
        simp only [items, hl, ResultStatus.ok, upcoming, List.dropWhile_cons, wanted,
          Bool.not_true, Bool.false_eq_true, if_false, Reaches]
        refine ⟨state, e', rfl, same, fun r hr => ?_⟩
        have := after r hr
        omega

end

theorem parse_reaches (past : List Dword → Nat → Dword) :
    ∃ r, p.parse past = some (r.map (buildEntries past)) ∧
      Reaches p (p.end_.getD p.rls_text.length)
        (p.upcoming (items (ahead p.rls_text p.end_))) r := by
  have short : (ahead p.rls_text p.end_).length ≤ p.rls_text.length :=
    Nat.le_trans (TextLines.lines_length_le _ _) (by simp)
  obtain ⟨r, run, reaches⟩ := @run_node p _ (p.end_.getD p.rls_text.length)
    (p.rls_text.length + 2) _ rfl (Nat.add_le_add_right short 2)
  exact ⟨r, congrArg (Option.map _) run, reaches⟩

end RlsParser

theorem items_length_le (ls : List Line) : (items ls).length ≤ ls.length := by
  induction ls with
  | nil => exact Nat.le_refl 0
  | cons l ls ih =>
    simp only [items]
    split <;> simp only [List.length_cons] <;> omega

section
variable (past : List Dword → Nat → Dword)

def entriesOf (data : List (List Dword)) : Option (List RunlistEntry) :=
  if data = [] then none
  else if (decode past data.flatten).status ≠ .success then none
  else (decode past data.flatten).value

def runlistsOf : List Item → SiftStatus × List Runlist
  | [] => (.success, [])
  | .overflow :: _ => (.error, [])
  | .found node data :: is =>
    match entriesOf past data with
    | none => (.success, [])
    | some entries =>
      match runlistsOf is with
      | (.success, series) => (.success, ⟨node, entries⟩ :: series)
      | (status, _) => (status, [])

def runlistOf (node : Node) (is : List Item) : SiftStatus × Option Runlist :=
  match (RlsParser.forNode [] node.node_id node.gpu_id).upcoming is with
  | .found _ data :: _ =>
    match entriesOf past data with
    | some entries => (.success, some ⟨node, entries⟩)
    | none => (.error, none)
  | _ => (.error, none)

theorem buildEntries_eq (p : RlsParser) : p.buildEntries past =
    (entriesOf past p.dwords_buffer_, { p with dwords_buffer_ := [] }) := by
  rw [RlsParser.buildEntries, entriesOf]
  split
  · rename_i empty
    rw [← empty]
  · simp only
    split <;> rfl

theorem parse_next (p : RlsParser) (empty : p.dwords_buffer_ = [])
    (every : p.find_all_nodes_ = true) :
    match items (RlsParser.ahead p.rls_text p.end_) with
    | [] => ∃ q, p.parse past = some (.ok (none, q))
    | .overflow :: _ => ∃ e, p.parse past = some (.error e)
    | .found n data :: is => ∃ q, p.parse past = some (.ok (entriesOf past data, q)) ∧
        (⟨q.node_, q.gpu_⟩ : Node) = n ∧ q.dwords_buffer_ = [] ∧ q.find_all_nodes_ = true ∧
        items (RlsParser.ahead q.rls_text q.end_) = is := by
  have all : ∀ is, p.upcoming is = is := by
    intro is
    cases is with
    | nil => rfl
    | cons i is => cases i <;> simp [RlsParser.upcoming, RlsParser.wants, every]
  obtain ⟨r, parse, reaches⟩ := p.parse_reaches past
  rw [all] at reaches
  cases ahead : items (RlsParser.ahead p.rls_text p.end_) with
  | nil =>
    rw [ahead] at reaches
    obtain ⟨state, rfl⟩ := reaches
    simp only [parse, Except.map, buildEntries_eq, empty, entriesOf, if_true]
    exact ⟨_, rfl⟩
  | cons i is =>
    rw [ahead] at reaches
    cases i with
    | overflow =>
      cases reaches
      exact ⟨_, parse⟩
    | found n data =>
      obtain ⟨state, e, rfl, rest, _⟩ := reaches
      simp only [parse, Except.map, buildEntries_eq, empty, List.nil_append]
      exact ⟨_, rfl, rfl, rfl, every, rest⟩

theorem parseSeries_eq (fuel : Nat) (p : RlsParser) (empty : p.dwords_buffer_ = [])
    (every : p.find_all_nodes_ = true)
    (enough : (items (RlsParser.ahead p.rls_text p.end_)).length < fuel) :
    parseSeries past fuel p =
      some (runlistsOf past (items (RlsParser.ahead p.rls_text p.end_))) := by
  induction fuel generalizing p with
  | zero => exact absurd enough (Nat.not_lt_zero _)
  | succ fuel ih =>
    have next := parse_next past p empty every
    cases ahead : items (RlsParser.ahead p.rls_text p.end_) with
    | nil =>
      rw [ahead] at next
      obtain ⟨q, parse⟩ := next
      simp only [parseSeries, parse, runlistsOf]
    | cons i is =>
      rw [ahead] at next enough
      cases i with
      | overflow =>
        obtain ⟨e, parse⟩ := next
        simp only [parseSeries, parse, runlistsOf]
      | found n data =>
        obtain ⟨q, parse, rfl, empty, every, rest⟩ := next
        simp only [parseSeries, parse, runlistsOf]
        cases entriesOf past data with
        | none => rfl
        | some entries =>
          have series := ih q empty every (by simpa only [rest] using Nat.lt_of_succ_lt_succ enough)
          simp only [series, rest]
          split <;> simp_all

/-- The series function sees nothing of a text but its sections. -/
theorem siftPm4ParseRunlists_eq (text : List Char) :
    siftPm4ParseRunlists past text =
      some (runlistsOf past (items (TextLines.lines '\n' text))) := by
  have lines : RlsParser.ahead text (some 0) = TextLines.lines '\n' text := rfl
  have short := Nat.le_trans (items_length_le (TextLines.lines '\n' text))
    (TextLines.lines_length_le '\n' text)
  exact parseSeries_eq past (text.length + 1) (RlsParser.ofText text) rfl rfl
    (Nat.lt_succ_of_le short)

theorem siftPm4ParseRunlist_eq (node : Node) (text : List Char) :
    siftPm4ParseRunlist past node.node_id node.gpu_id text =
      some (runlistOf past node (items (TextLines.lines '\n' text))) := by
  have same : (RlsParser.forNode text node.node_id node.gpu_id).upcoming =
      (RlsParser.forNode [] node.node_id node.gpu_id).upcoming := rfl
  have lines : RlsParser.ahead text (some 0) = TextLines.lines '\n' text := rfl
  obtain ⟨r, parse, reaches⟩ :=
    (RlsParser.forNode text node.node_id node.gpu_id).parse_reaches past
  change RlsParser.Reaches _ 0 (RlsParser.upcoming _ (items (RlsParser.ahead text (some 0)))) r
    at reaches
  rw [same, lines] at reaches
  rw [siftPm4ParseRunlist, parse, runlistOf]
  cases ahead : (RlsParser.forNode [] node.node_id node.gpu_id).upcoming
      (items (TextLines.lines '\n' text)) with
  | nil =>
    rw [ahead] at reaches
    obtain ⟨state, rfl⟩ := reaches
    rfl
  | cons i is =>
    rw [ahead] at reaches
    cases i with
    | overflow =>
      cases reaches
      rfl
    | found n data =>
      obtain ⟨state, e, rfl, _, _⟩ := reaches
      have wanted : n.node_id = node.node_id ∧ n.gpu_id = node.gpu_id :=
        of_decide_eq_true (RlsParser.upcoming_wants _ ahead)
      obtain rfl := Node.ext wanted.1 wanted.2
      simp only [Except.map, buildEntries_eq, RlsParser.forNode, List.nil_append]
      cases entriesOf past data with
      | none => rfl
      | some entries => simp

end

end Rocsift.Pm4
