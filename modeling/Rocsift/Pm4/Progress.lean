import Rocsift.Pm4.Sections

/-! The calls of `Parse` one after another. Each one ends, and a call that returns a value has read
a node line and a data line, so that it leaves the offset behind the one it began with even where
it goes back to the end of the section. -/
namespace Rocsift.Pm4
open Sift (SiftStatus)

/-- The offset `a` is greater than `b`; `npos` is the greatest of all. -/
def Beyond (a b : Option Nat) : Prop :=
  match b, a with
  | some _, none => True
  | some b, some a => b < a
  | none, _ => False

/-- The parsers that calls of `Parse` lead to. A call that throws leaves none to go on with. -/
inductive Called (past : List Dword → Nat → Dword) (p : RlsParser) : RlsParser → Prop
  | first : Called past p p
  | next {q q' : RlsParser} {v : Option (List RunlistEntry)} :
      Called past p q → q.parse past = some (.ok (v, q')) → Called past p q'

def Fresh (text : List Char) (p : RlsParser) : Prop :=
  p = RlsParser.ofText text ∨ ∃ node gpu, p = RlsParser.forNode text node gpu

namespace RlsParser

section
variable {p : RlsParser} {s last fuel e : Nat} {l : Line} {ls : List Line}

theorem run_data_beyond (h : TextLines.lines '\n' (p.rls_text.drop s) = ls)
    (some_data : dataRun ls ≠ []) (enough : ls.length + 2 ≤ fuel) {q : RlsParser}
    (run : Looping.run turn fuel (facing p .data s last) = some (.ok q)) :
    ∀ x ∈ q.end_, s ≤ x := by
  cases ls with
  | nil => exact absurd rfl some_data
  | cons l ls =>
    rw [List.length_cons] at enough
    obtain ⟨fuel, rfl⟩ : ∃ n, fuel = n + 1 := ⟨fuel - 1, by omega⟩
    obtain ⟨e, here, rest⟩ := next_line h
    have le := here.le
    cases hd : dataOf l with
    | none => exact absurd (by simp only [dataRun, hd]) some_data
    | some ds =>
      rw [Looping.run_again (turn_data here hd)] at run
      obtain ⟨state, e', run', _, after⟩ :=
        @run_data { p with dwords_buffer_ := p.dwords_buffer_ ++ [ds] } (e + 1) last fuel ls rest
          here.term (by omega)
      rw [run'] at run
      cases run
      intro x hx
      have := after x hx
      omega

theorem run_data_buffer (h : TextLines.lines '\n' (p.rls_text.drop s) = ls)
    (term : p.rls_text.drop (s - 1) = '\n' :: p.rls_text.drop s) (enough : ls.length + 2 ≤ fuel)
    {q : RlsParser} (run : Looping.run turn fuel (facing p .data s last) = some (.ok q)) :
    q.dwords_buffer_ = p.dwords_buffer_ ++ dataRun ls := by
  obtain ⟨state, e', run', _, _⟩ := @run_data p s last fuel ls h term enough
  rw [run'] at run
  cases run
  rfl

theorem run_node_beyond (h : TextLines.lines '\n' (p.rls_text.drop s) = ls)
    (empty : p.dwords_buffer_ = []) (enough : ls.length + 2 ≤ fuel) {q : RlsParser}
    (run : Looping.run turn fuel (facing p .node s last) = some (.ok q))
    (filled : q.dwords_buffer_ ≠ []) : ∀ x ∈ q.end_, s < x := by
  induction ls generalizing s fuel with
  | nil =>
    obtain ⟨fuel, rfl⟩ : ∃ n, fuel = n + 1 := ⟨fuel - 1, by omega⟩
    rw [Looping.run_leave (turn_end .node h)] at run
    cases run
    exact absurd empty filled
  | cons l ls ih =>
    rw [List.length_cons] at enough
    obtain ⟨fuel, rfl⟩ : ∃ n, fuel = n + 1 := ⟨fuel - 1, by omega⟩
    obtain ⟨e, here, rest⟩ := next_line h
    have le := here.le
    have pass (hp : parseNodeLine l = .noMatch ∨
        ∃ n, parseNodeLine l = .ok n ∧ p.wants n = false) : ∀ x ∈ q.end_, s < x := by
      rw [Looping.run_again (turn_pass here hp)] at run
      intro x hx
      have := ih rest (by omega) run x hx
      omega
    rcases parseNodeLine_cases l with hl | hl | ⟨n, hl⟩
    · exact pass (Or.inl hl)
    · obtain ⟨fuel, rfl⟩ : ∃ n, fuel = n + 1 := ⟨fuel - 1, by omega⟩
      rw [Looping.run_again (turn_overflow here hl), Looping.run_leave (turn_error here.term)]
        at run
      cases run
    · cases wanted : p.wants n with
      | false => exact pass (Or.inr ⟨n, hl, wanted⟩)
      | true =>
        rw [Looping.run_again (turn_found here hl wanted)] at run
        have buffer := run_data_buffer (p := { p with node_ := n.node_id, gpu_ := n.gpu_id }) rest
          here.term (by omega) run
        rw [buffer] at filled
        simp only [empty, List.nil_append] at filled
        intro x hx
        have := run_data_beyond (p := { p with node_ := n.node_id, gpu_ := n.gpu_id }) rest filled
          (by omega) run x hx
        omega

end

section
variable (past : List Dword → Nat → Dword) {p q : RlsParser}

theorem parse_ends (p : RlsParser) : ∃ r, p.parse past = some r := by
  obtain ⟨r, parse, _⟩ := p.parse_reaches past
  exact ⟨_, parse⟩

theorem buildEntries_value {v : List RunlistEntry} (h : p.buildEntries past = (some v, q)) :
    p.dwords_buffer_ ≠ [] ∧ q.end_ = p.end_ := by
  rw [buildEntries_eq] at h
  obtain ⟨value, rfl⟩ := Prod.mk.inj h
  refine ⟨fun empty => ?_, rfl⟩
  rw [empty] at value
  cases value

theorem parse_npos (empty : p.dwords_buffer_ = []) (npos : p.end_ = none) :
    ∃ q, p.parse past = some (.ok (none, q)) := by
  obtain ⟨r, parse, reaches⟩ := p.parse_reaches past
  have nothing : items (ahead p.rls_text p.end_) = [] := by
    rw [ahead, npos, Option.getD_none, List.drop_length]
    rfl
  rw [nothing] at reaches
  obtain ⟨state, rfl⟩ := reaches
  rw [parse, Except.map, buildEntries_eq]
  simp only [empty, entriesOf, if_true]
  exact ⟨_, rfl⟩

theorem parse_beyond (empty : p.dwords_buffer_ = []) {v : List RunlistEntry}
    (h : p.parse past = some (.ok (some v, q))) : Beyond q.end_ p.end_ := by
  cases offset : p.end_ with
  | none =>
    obtain ⟨q', nothing⟩ := parse_npos past empty offset
    rw [nothing] at h
    cases h
  | some e =>
    unfold parse at h
    obtain ⟨r, run, built⟩ := Option.map_eq_some_iff.mp h
    cases r with
    | error e => cases built
    | ok q' =>
      have value : q'.buildEntries past = (some v, q) := by
        simpa only [Except.map, Except.ok.injEq] using built
      obtain ⟨filled, same⟩ := buildEntries_value past value
      have short : (ahead p.rls_text p.end_).length ≤ p.rls_text.length :=
        Nat.le_trans (TextLines.lines_length_le _ _) (by simp)
      have beyond := run_node_beyond (s := p.end_.getD p.rls_text.length) rfl empty
        (Nat.add_le_add_right short 2) run filled
      rw [offset] at beyond
      rw [same]
      cases after : q'.end_ with
      | none => trivial
      | some x => exact beyond x after

theorem parse_buffer {v : Option (List RunlistEntry)} (h : p.parse past = some (.ok (v, q))) :
    q.dwords_buffer_ = [] := by
  unfold parse at h
  obtain ⟨r, _, built⟩ := Option.map_eq_some_iff.mp h
  cases r with
  | error e => cases built
  | ok q' =>
    rw [Except.map, buildEntries_eq] at built
    cases built
    rfl

end

end RlsParser

section
variable (past : List Dword → Nat → Dword)

theorem Called.empty {text : List Char} {p q : RlsParser} (fresh : Fresh text p)
    (called : Called past p q) : q.dwords_buffer_ = [] := by
  cases called with
  | first =>
    rcases fresh with rfl | ⟨node, gpu, rfl⟩
    · rfl
    · rfl
  | next _ parse => exact RlsParser.parse_buffer past parse

def nodeLines (text : List Char) : Nat :=
  (TextLines.lines '\n' text).countP fun l => (nodeFormat l).isSome

theorem items_length (ls : List Line) :
    (items ls).length = ls.countP fun l => (nodeFormat l).isSome := by
  induction ls with
  | nil => rfl
  | cons l ls ih =>
    rw [List.countP_cons, ← ih]
    cases format : nodeFormat l with
    | none => simp [items, parseNodeLine, format, ResultStatus.noMatch]
    | some digits =>
      have other : parseNodeLine l ≠ .noMatch := by
        simp only [parseNodeLine, format]
        split
        · exact fun h => by cases h
        · exact fun h => by cases h
      rcases parseNodeLine_cases l with h | h | ⟨n, h⟩
      · exact absurd h other
      · simp [items, h, ResultStatus.error]
      · simp [items, h, ResultStatus.ok]

theorem runlistsOf_length_le (is : List Item) : (runlistsOf past is).2.length ≤ is.length := by
  induction is with
  | nil => exact Nat.le_refl 0
  | cons i is ih =>
    cases i with
    | overflow => exact Nat.zero_le _
    | found n data =>
      simp only [runlistsOf]
      cases entriesOf past data with
      | none => exact Nat.zero_le _
      | some entries =>
        rcases h : runlistsOf past is with ⟨status, series⟩
        rw [h] at ih
        cases status
        case success => exact Nat.succ_le_succ ih
        all_goals exact Nat.zero_le _

/-- Runlist parsing ends: every call of a sequence of calls ends, a call that returns a value
leaves the offset behind the one it began with, and none is returned from `npos` on; so the loop
over the sections ends, with one element at most for each node line. -/
theorem parsing_ends (text : List Char) :
    (∀ p q, Fresh text p → Called past p q →
      (∃ r, q.parse past = some r) ∧
      (∀ v q', q.parse past = some (.ok (some v, q')) → Beyond q'.end_ q.end_) ∧
      (q.end_ = none → ∃ q', q.parse past = some (.ok (none, q')))) ∧
    (∃ status series, siftPm4ParseRunlists past text = some (status, series) ∧
      series.length ≤ nodeLines text) := by
  constructor
  · intro p q fresh called
    have empty := called.empty past fresh
    exact ⟨q.parse_ends past, fun v q' => RlsParser.parse_beyond past empty,
      RlsParser.parse_npos past empty⟩
  · have length := runlistsOf_length_le past (items (TextLines.lines '\n' text))
    rw [items_length] at length
    exact ⟨_, _, siftPm4ParseRunlists_eq past text, length⟩

end

end Rocsift.Pm4
