import Rocsift.Base.Looping
import Rocsift.Base.TextLines
import Rocsift.Pm4.Text
import Rocsift.Sift.Lifetime

/-! The resumable parser of rls_parser.cc and the two functions of pm4.cc that drive it. Offsets
are those of the source; `none` as an offset is `npos`. Allocations succeed. -/
namespace Rocsift.Pm4
open Sift (SiftStatus)

inductive State where
  | node | data | error | end_
  deriving DecidableEq, Repr

structure NextState where
  state : State
  increment : Nat

/-- The node and gpu ids are kept as the bits that the `int` fields share with the parsed ones. -/
structure RlsParser where
  rls_text : List Char
  node_ : BitVec 32
  gpu_ : BitVec 32
  find_all_nodes_ : Bool
  state_ : State
  dwords_buffer_ : List (List Dword)
  end_ : Option Nat

structure Runlist where
  node : Node
  entries : List RunlistEntry
  deriving DecidableEq

/-- What `parseRunlistEntries` returns for an array; `past` is the heap behind each array. -/
def decode (past : List Dword → Nat → Dword) (dwords : List Dword) :
    ResultStatus (List RunlistEntry) :=
  (parseRunlistEntries (whole dwords)).value (memory dwords (past dwords))

namespace RlsParser

def forNode (rls_text : List Char) (node gpu : BitVec 32) : RlsParser :=
  ⟨rls_text, node, gpu, false, .node, [], some 0⟩

def ofText (rls_text : List Char) : RlsParser :=
  { forNode rls_text 0 0 with find_all_nodes_ := true }

def parseNode (p : RlsParser) (line : Line) : NextState × RlsParser :=
  let result := parseNodeLine line
  match result.status, result.value with
  | .noMatch, _ => (⟨.node, 1⟩, p)
  | .success, some found_node =>
    if p.find_all_nodes_ ∨ (found_node.node_id = p.node_ ∧ found_node.gpu_id = p.gpu_) then
      (⟨.data, 1⟩, { p with node_ := found_node.node_id, gpu_ := found_node.gpu_id })
    else (⟨.node, 1⟩, p)
  | _, _ => (⟨.error, 0⟩, p)

def parseData (p : RlsParser) (line : Line) : NextState × RlsParser :=
  let result := getDataStartPosition line
  match result.status, result.value with
  | .noMatch, _ => (⟨.end_, 0⟩, p)
  | .success, some data_start_pos =>
    let data := parseDataSection (line.drop data_start_pos)
    match data.status, data.value with
    | .success, some dwords =>
      (⟨.data, 1⟩, { p with dwords_buffer_ := p.dwords_buffer_ ++ [dwords] })
    | _, _ => (⟨.error, 0⟩, p)
  | _, _ => (⟨.error, 0⟩, p)

structure Cursor where
  parser : RlsParser
  start : Nat
  last_data_match : Nat
  parsed_node : Bool

def seek (p : RlsParser) (state : State) (start : Nat) : RlsParser :=
  { p with state_ := state, end_ := TextLines.find p.rls_text '\n' start }

def turn (c : Cursor) : Looping.Turn Cursor (Except SiftStatus RlsParser) :=
  match c.parser.end_ with
  | none => .leave (.ok c.parser)
  | some e =>
    if c.parsed_node then .leave (.ok c.parser)
    else
      let line := TextLines.substr c.parser.rls_text c.start (e - c.start)
      match c.parser.state_ with
      | .node =>
        let (next, parser) := c.parser.parseNode line
        let start := e + next.increment
        .again { c with parser := parser.seek next.state start, start := start }
      | .data =>
        let (next, parser) := c.parser.parseData line
        let start := e + next.increment
        let last_data_match := if next.state ≠ .data then c.start - 1 else c.last_data_match
        .again { c with
          parser := parser.seek next.state start
          start := start
          last_data_match := last_data_match }
      | .end_ =>
        .again { c with
          parser := { c.parser with end_ := some c.last_data_match }
          parsed_node := true }
      | .error => .leave (.error .codeBug)

section
variable (past : List Dword → Nat → Dword)

def buildEntries (p : RlsParser) : Option (List RunlistEntry) × RlsParser :=
  if p.dwords_buffer_ = [] then (none, p)
  else
    let result := decode past p.dwords_buffer_.flatten
    let p := { p with dwords_buffer_ := [] }
    if result.status ≠ .success then (none, p) else (result.value, p)

/-- A line is visited once, and at most two turns follow the last one: the end of a section and
the test of the loop's condition. As an offset, `npos` is past every position. -/
def parse (p : RlsParser) : Option (Except SiftStatus (Option (List RunlistEntry) × RlsParser)) :=
  let start := p.end_.getD p.rls_text.length
  let entered : Cursor := ⟨p.seek .node start, start, start, false⟩
  (Looping.run turn (p.rls_text.length + 2) entered).map (Except.map (buildEntries past))

end

end RlsParser

section
variable (past : List Dword → Nat → Dword)

/-- The loop of `sift_pm4_parse_runlists`: an exception frees what was built so far. -/
def parseSeries : Nat → RlsParser → Option (SiftStatus × List Runlist)
  | 0, _ => none
  | fuel + 1, parser =>
    match parser.parse past with
    | none => none
    | some (.error _) => some (.error, [])
    | some (.ok (none, _)) => some (.success, [])
    | some (.ok (some entries, parser)) =>
      match parseSeries fuel parser with
      | none => none
      | some (.success, series) =>
        some (.success, ⟨⟨parser.node_, parser.gpu_⟩, entries⟩ :: series)
      | some (status, _) => some (status, [])

def siftPm4ParseRunlists (runlist_file_contents : List Char) : Option (SiftStatus × List Runlist) :=
  parseSeries past (runlist_file_contents.length + 1) (RlsParser.ofText runlist_file_contents)

def siftPm4ParseRunlist (node gpu : BitVec 32) (runlist_file_contents : List Char) :
    Option (SiftStatus × Option Runlist) :=
  match (RlsParser.forNode runlist_file_contents node gpu).parse past with
  | none => none
  | some (.error _) => some (.error, none)
  | some (.ok (none, _)) => some (.error, none)
  | some (.ok (some entries, parser)) =>
    if gpu ≠ parser.gpu_ then some (.error, none)
    else if node ≠ parser.node_ then some (.error, none)
    else some (.success, some ⟨⟨node, gpu⟩, entries⟩)

end

end Rocsift.Pm4
