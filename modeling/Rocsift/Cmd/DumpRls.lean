import Rocsift.Pm4.Plenty
import Rocsift.Pm4.Reprint

/-! `dumprls`: it prints the series of the runlist file and destroys it. A read through a member of
a body that was not written counts as one outside of the body. -/
namespace Rocsift.Cmd
open Blocks (Store Fault Linked)
open Sift (SiftStatus)
open Pm4
open Pm4.Owned (Bodies Entry SeriesSupply)

def opNames : List (BitVec 8 × String) :=
  [(0x10#8, "NOP"), (0x11#8, "SET_BASE"), (0x12#8, "CLEAR_STATE"), (0x13#8, "INDEX_BUFFER_SIZE"),
    (0x15#8, "DISPATCH_DIRECT"), (0x16#8, "DISPATCH_INDIRECT"), (0x1D#8, "ATOMIC_GDS"),
    (0x1F#8, "OCCLUSION_QUERY"), (0x20#8, "SET_PREDICATION"), (0x21#8, "REG_RMW"),
    (0x22#8, "COND_EXEC"), (0x23#8, "PRED_EXEC"), (0x24#8, "DRAW_INDIRECT"),
    (0x25#8, "DRAW_INDEX_INDIRECT"), (0x26#8, "INDEX_BASE"), (0x27#8, "DRAW_INDEX_2"),
    (0x28#8, "CONTEXT_CONTROL"), (0x2A#8, "INDEX_TYPE"), (0x2C#8, "DRAW_INDIRECT_MULTI"),
    (0x2D#8, "DRAW_INDEX_AUTO"), (0x2F#8, "NUM_INSTANCES"), (0x30#8, "DRAW_INDEX_MULTI_AUTO"),
    (0x33#8, "INDIRECT_BUFFER_CNST"), (0x34#8, "STRMOUT_BUFFER_UPDATE"),
    (0x35#8, "DRAW_INDEX_OFFSET_2"), (0x36#8, "DRAW_PREAMBLE"), (0x37#8, "WRITE_DATA"),
    (0x38#8, "DRAW_INDEX_INDIRECT_MULTI"), (0x39#8, "MEM_SEMAPHORE"), (0x3B#8, "COPY_DW"),
    (0x3C#8, "WAIT_REG_MEM"), (0x3F#8, "INDIRECT_BUFFER"), (0x40#8, "COPY_DATA"),
    (0x42#8, "PFP_SYNC_ME"), (0x43#8, "SURFACE_SYNC"), (0x45#8, "COND_WRITE"),
    (0x46#8, "EVENT_WRITE"), (0x47#8, "EVENT_WRITE_EOP"), (0x48#8, "EVENT_WRITE_EOS"),
    (0x49#8, "RELEASE_MEM"), (0x4A#8, "PREAMBLE_CNTL"), (0x50#8, "DMA_DATA"),
    (0x58#8, "ACQUIRE_MEM"), (0x59#8, "REWIND"), (0x5E#8, "LOAD_UCONFIG_REG"),
    (0x5F#8, "LOAD_SH_REG"), (0x60#8, "LOAD_CONFIG_REG"), (0x61#8, "LOAD_CONTEXT_REG"),
    (0x68#8, "SET_CONFIG_REG"), (0x69#8, "SET_CONTEXT_REG"), (0x73#8, "SET_CONTEXT_REG_INDIRECT"),
    (0x76#8, "SET_SH_REG"), (0x77#8, "SET_SH_REG_OFFSET"), (0x78#8, "SET_QUEUE_REG"),
    (0x79#8, "SET_UCONFIG_REG"), (0x7D#8, "SCRATCH_RAM_WRITE"), (0x7E#8, "SCRATCH_RAM_READ"),
    (0x80#8, "LOAD_CONST_RAM"), (0x81#8, "WRITE_CONST_RAM"), (0x83#8, "DUMP_CONST_RAM"),
    (0x84#8, "INCREMENT_CE_COUNTER"), (0x85#8, "INCREMENT_DE_COUNTER"),
    (0x86#8, "WAIT_ON_CE_COUNTER"), (0x88#8, "WAIT_ON_DE_COUNTER_DIFF"), (0x8B#8, "SWITCH_BUFFER"),
    (0xA0#8, "SET_RESOURCES"), (0xA1#8, "MAP_PROCESS"), (0xA2#8, "MAP_QUEUES"),
    (0xA3#8, "UNMAP_QUEUES"), (0xA4#8, "QUERY_STATUS"), (0xA5#8, "RUN_LIST")]

def pm4OpToStr (op : BitVec 8) : String :=
  ((opNames.find? fun row => row.1 = op).map Prod.snd).getD "UNKONWN"

def signed (n : Int) : List Char :=
  if n < 0 then '-' :: Numerals.digits 10 n.natAbs else Numerals.digits 10 n.natAbs

def fieldLine (name : String) (value : List Char) : List Char :=
  "\t ".toList ++ name.toList ++ [' '] ++ value ++ ['\n']

def decimalLine (name : String) (n : Nat) : List Char := fieldLine name (signed n)

def hexLine (name : String) (v : BitVec 32) : List Char :=
  fieldLine name ("0x".toList ++ Numerals.digits 16 v.toNat)

def mapProcessLines (b : BodyMapProcess) : List Char :=
  decimalLine "single_memop" b.single_memop.toNat ++
  decimalLine "debug_flag" b.debug_flag.toNat ++
  decimalLine "tmz" b.tmz.toNat ++
  decimalLine "diq_enable" b.diq_enable.toNat ++
  decimalLine "sdma_enable" b.sdma_enable.toNat ++
  hexLine "pasid" b.pasid ++
  decimalLine "debug_vmid" b.debug_vmid.toNat ++
  decimalLine "process_quantum" b.process_quantum.toNat ++
  hexLine "pt_base_addr_lo32" b.vm_context_page_table_base_addr_lo32 ++
  hexLine "pt_base_addr_hi32" b.vm_context_page_table_base_addr_hi32

def typeLine (op : BitVec 8) : List Char :=
  "TYPE3: ".toList ++ (pm4OpToStr op).toList ++ ['\n']

def parsePm4Type1 : List Char := "TYPE1: SKIPPING\n".toList

def parsePm4Type2 : List Char := "TYPE2: SKIPPING\n".toList

def parsePm4Type3 (e : Entry) (bodies : Bodies) : Except Fault (List Char) :=
  if e.header.opcode = opMapProcess then do
    let body ← bodies.load e.body
    match body with
    | some (.mapProcess b) => return typeLine e.header.opcode ++ mapProcessLines b
    | _ => throw .outside
  else return typeLine e.header.opcode

def printEntry (e : Entry) (bodies : Bodies) : Except Fault (List Char) :=
  match e.header.type with
  | .type1 => return parsePm4Type1
  | .type2 => return parsePm4Type2
  | .type3 => parsePm4Type3 e bodies

def follow {V : Type} (blocks : Store V) : Option Nat → Except Fault V
  | none => throw .outside
  | some i => blocks.load i

def printEntries (h : Owned.Heap) (entries : Option Nat) : Nat → Nat → Except Fault (List Char)
  | _, 0 => return []
  | n, left + 1 => do
    let array ← follow h.entries entries
    match array[n]? with
    | none => throw .outside
    | some ent => do
      let here ← printEntry ent h.bodies
      let rest ← printEntries h entries (n + 1) left
      return here ++ rest

def headLine (node : Node) (num_entries : Nat) : List Char :=
  "Node ".toList ++ signed node.node_id.toInt ++ " GPU_ID ".toList ++
    Numerals.digits 16 node.gpu_id.toNat ++ [' '] ++ signed (BitVec.ofNat 64 num_entries).toInt ++
    " entries\n".toList

def printSeries : Nat → Option Nat → Owned.Heap → Except Fault (List Char)
  | _, none, _ => return []
  | 0, some _, _ => throw .endless
  | fuel + 1, some current, h => do
    let node ← h.series.load current
    let rls ← follow h.runlists node.runlist
    let entries ← printEntries h rls.entries 0 rls.num_entries
    let rest ← printSeries fuel node.next h
    return headLine rls.node rls.num_entries ++ entries ++ rest

structure Finished where
  printed : List Char
  code : Int
  heap : Owned.Heap

section
variable (past : List Dword → Nat → Dword) (supply : SeriesSupply)

/-- `none` is a KFD without a debugfs; else `rls` is the file's text, up to its first NUL. -/
def siftKfdGetRunlists (rls : Option (List Char)) (h : Owned.Heap) :
    Except Fault (SiftStatus × Option Nat × Owned.Heap) :=
  match rls with
  | none => return (.error, none, h)
  | some rls => Owned.siftPm4ParseRunlists past supply rls h

/-- The run of `main`, given what `sift_init` and `sift_destroy` return. -/
def dumprls (init destroy : SiftStatus) (rls : Option (List Char)) (h : Owned.Heap) :
    Except Fault Finished :=
  if init ≠ .success then return ⟨[], -1, h⟩
  else do
    let (rc, series, h) ← siftKfdGetRunlists past supply rls h
    if rc ≠ .success then return ⟨[], -1, h⟩
    else
      let printed ← printSeries (h.series.calls + 1) series h
      let (rc, h) ← Owned.siftPm4DestroyRunlists series h
      if rc ≠ .success then return ⟨printed, -1, h⟩
      else if destroy ≠ .success then return ⟨printed, -1, h⟩
      else return ⟨printed, 0, h⟩

end

def entryReport (e : RunlistEntry) : List Char :=
  match e.header.type with
  | .type1 => parsePm4Type1
  | .type2 => parsePm4Type2
  | .type3 =>
    match e.body with
    | .mapProcess b => typeLine opMapProcess ++ mapProcessLines b
    | .mapQueues _ => typeLine opMapQueues

def report (rls : List Runlist) : List Char :=
  rls.flatMap fun r => headLine r.node r.entries.length ++ r.entries.flatMap entryReport

theorem printEntry_loaded {bodies : Bodies} {ent : Entry} {e : RunlistEntry}
    (loaded : Owned.Loaded bodies ent e) (encodable : e.Encodable) :
    printEntry ent bodies = .ok (entryReport e) := by
  obtain ⟨header, cell⟩ := loaded
  have opcode := encodable.opcode
  rw [printEntry, entryReport, header]
  cases type : e.header.type with
  | type1 => rfl
  | type2 => rfl
  | type3 =>
    dsimp only
    rw [parsePm4Type3, header, opcode]
    cases body : e.body with
    | mapProcess b =>
      rw [body] at cell
      simp only [Body.opcode, if_true, Store.load_ok cell, bind, Except.bind]
      rfl
    | mapQueues b =>
      have other : ¬ opMapQueues = opMapProcess := by decide
      exact if_neg other

theorem printEntries_loaded {h : Owned.Heap} {array n : Nat} {held : List Entry}
    {es : List RunlistEntry} (at_array : h.entries.cells array = some held)
    (loaded : List.Forall₂ (Owned.Loaded h.bodies) (held.drop n) es)
    (encodable : ∀ e ∈ es, e.Encodable) :
    printEntries h (some array) n es.length = .ok (es.flatMap entryReport) := by
  induction es generalizing n with
  | nil => rfl
  | cons e es ih =>
    obtain ⟨here, later⟩ := List.forall_mem_cons.mp encodable
    obtain ⟨ent, rest, first, tail, split⟩ := List.forall₂_cons_right_iff.mp loaded
    have at_n : held[n]? = some ent := by
      rw [← List.head?_drop, split]
      rfl
    have behind : held.drop (n + 1) = rest := by
      rw [← List.tail_drop, split]
      rfl
    rw [← behind] at tail
    simp only [List.length_cons, printEntries, follow, Store.load_ok at_array, at_n,
      printEntry_loaded first here, ih tail later, bind, Except.bind, pure, Except.pure,
      List.flatMap_cons]

theorem printSeries_linked {h : Owned.Heap} {rows : List Owned.Row} {start : Option Nat}
    (linked : Linked h.Holds Owned.Row.node start rows none)
    (decoded : ∀ r ∈ rows, r.value.Decoded) {fuel : Nat} (enough : rows.length ≤ fuel) :
    printSeries fuel start h = .ok (report (rows.map Owned.Row.value)) := by
  induction rows generalizing start fuel with
  | nil =>
    obtain rfl : start = none := linked
    cases fuel <;> rfl
  | cons r rows ih =>
    obtain ⟨here, later⟩ := List.forall_mem_cons.mp decoded
    obtain ⟨rfl, next, held, rest⟩ := linked
    obtain ⟨fuel, rfl⟩ := Nat.exists_eq_succ_of_ne_zero (Nat.ne_zero_of_lt enough)
    have length : r.held.length = r.value.entries.length := held.loaded.length_eq
    have entries : printEntries h (some r.array) 0 r.held.length =
        .ok (r.value.entries.flatMap entryReport) := by
      rw [length]
      exact printEntries_loaded held.array held.loaded here.encodable
    simp only [printSeries, follow, Store.load_ok held.node, Store.load_ok held.runlist,
      entries, ih rest later (Nat.le_of_succ_le_succ enough), bind,
      Except.bind, pure, Except.pure]
    rw [length]
    rfl

theorem rows_le_calls {h : Owned.Heap} {rows : List Owned.Row} {start stop : Option Nat}
    (linked : Linked h.Holds Owned.Row.node start rows stop)
    (apart : rows.Pairwise Owned.Row.Apart) :
    rows.length ≤ h.series.calls := by
  have once : (rows.map Owned.Row.node).Nodup :=
    List.pairwise_map.mpr (apart.imp Owned.Row.Apart.node)
  have live : ∀ i ∈ rows.map Owned.Row.node, ∃ v, h.series.cells i = some v := by
    intro i member
    obtain ⟨r, hr, rfl⟩ := List.mem_map.mp member
    obtain ⟨next, held⟩ := linked.mem r hr
    exact ⟨_, held.node⟩
  have short := Store.length_le_calls live once
  rwa [List.length_map] at short

/-- On a text that parses, with memory for its blocks, the tool reads no block that is not live and
prints the whole series, entry by entry. It frees all it has made, but for bodies of a section that
is no packets, and fails if there is no section: the empty series cannot be destroyed. -/
theorem dumps_series (past : List Dword → Nat → Dword) {text : List Char} {rls : List Runlist}
    (parses : siftPm4ParseRunlists past text = some (.success, rls)) (destroy : SiftStatus)
    (h : Owned.Heap) :
    ∃ g, dumprls past .plenty .success destroy (some text) h =
        .ok ⟨report rls, if rls = [] ∨ destroy ≠ .success then -1 else 0, g⟩ ∧
      Owned.Restored past text h g := by
  obtain ⟨list, g, rows, parsed, linked, apart, values, restored⟩ := Owned.parse_plenty parses h
  have decoded : ∀ r ∈ rows, r.value.Decoded := by
    rw [siftPm4ParseRunlists_eq, Option.some.injEq, ← values] at parses
    exact List.forall_mem_map.mp (runlistsOf_decoded parses)
  have printed := printSeries_linked linked decoded (Nat.le_succ_of_le (rows_le_calls linked apart))
  rw [values] at printed
  have destroyed := Owned.Heap.destroy_list linked apart
  refine ⟨g.without rows, ?_, restored⟩
  simp only [dumprls, siftKfdGetRunlists, parsed, printed, destroyed, bind, Except.bind, ne_eq,
    not_true, if_false]
  cases values
  by_cases empty : rows = []
  · subst empty
    rfl
  · have some_runlist : rows.map Owned.Row.value ≠ [] := mt List.map_eq_nil_iff.mp empty
    simp only [if_neg empty, not_true, if_false, some_runlist, false_or]
    by_cases closed : destroy = .success
    · simp only [closed, not_true, if_false]
      rfl
    · simp only [closed, not_false_eq_true, if_true]
      rfl

def flaggedProcess : RunlistEntry where
  header := ⟨opMapProcess, 20#16, .type3⟩
  body := .mapProcess ⟨true, true, false, false, true, 1#32, 0#16, 1#8, 0x89abc000#32, 1#32, 0#32,
    0#32, 0#32, 0#32, 0#32, 0#32, 0#32, 0#32, 0#8, 0#8, 0#8, 0#8, 0#16, 0#32, 0#32, 0#32, 0#32,
    0#32, 0#32, 0#32⟩

def processAndQueue : Printed where
  runlist := ⟨⟨3#32, 0x3e7#32⟩, [flaggedProcess, checkedQueues]⟩
  rows := [(0#32, flaggedProcess.dwords), (84#32, checkedQueues.dwords)]
  split := by rfl

theorem dumps_series_process :
    ∃ g, dumprls (fun _ _ => 0#32) .plenty .success .success
        (some (Printed.text [processAndQueue])) Owned.Heap.empty =
      .ok ⟨report [⟨⟨3#32, 0x3e7#32⟩, [flaggedProcess, checkedQueues]⟩], 0, g⟩ ∧
      Owned.Restored (fun _ _ => 0#32) (Printed.text [processAndQueue]) Owned.Heap.empty g := by
  have encodable : ∀ e ∈ processAndQueue.runlist.entries, e.Encodable := by
    have process : flaggedProcess.body.Fits := ⟨by intro f; cases f <;> decide, fun _ => rfl⟩
    have queues : checkedQueues.body.Fits := by intro f; cases f <;> decide
    exact List.forall_mem_cons.mpr ⟨⟨rfl, ⟨by decide, by decide⟩, process⟩,
      List.forall_mem_singleton.mpr ⟨rfl, ⟨by decide, by decide⟩, queues⟩⟩
  have parses : siftPm4ParseRunlists (fun _ _ => 0#32) (Printed.text [processAndQueue]) =
      some (.success, [processAndQueue.runlist]) := by
    rw [siftPm4ParseRunlists_eq, Printed.text, TextLines.lines_unlines _ (Printed.lines_plain _),
      Printed.items_lines, Printed.runlistsOf_items _ _
        (List.forall_mem_singleton.mpr ⟨List.cons_ne_nil _ _, encodable⟩) (by decide)]
    rfl
  exact dumps_series _ parses .success Owned.Heap.empty

end Rocsift.Cmd
