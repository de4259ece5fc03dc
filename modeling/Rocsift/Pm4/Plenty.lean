import Rocsift.Pm4.Agreement
import Rocsift.Pm4.ParseDestroy

/-! `sift_pm4_parse_runlists` when every allocation succeeds. The parser that only computes values
says what the one on the heap returns, and the heap holds the blocks of the list and what it held
before; only a section whose dwords are no packets leaves bodies behind. -/
namespace Rocsift.Pm4
open Blocks (Store Fault Linked)

section
variable {past : List Dword → Nat → Dword}

theorem parseEntries_accepted (ds : List Dword) (beyond : Nat → Dword) (ps : List (List Dword))
    (packets : ∀ p ∈ ps, IsPacket p) {start : Nat} (h : ds.drop start = ps.flatten)
    {entries : List RunlistEntry}
    (ok : (parseEntries (whole ds) start (ps.map List.length)).value (memory ds beyond) =
      .ok entries) :
    ∀ p ∈ ps, Accepted (packetHeader p) := by
  induction ps generalizing start entries with
  | nil => exact List.forall_mem_nil _
  | cons p ps ih =>
    obtain ⟨packet, others⟩ := List.forall_mem_cons.mp packets
    obtain ⟨window, tail, result⟩ := next_packet ds beyond h packet
    rw [List.map_cons, parseEntries, window, Reading.value_bind] at ok
    by_cases accepted : Accepted (packetHeader p)
    · rw [if_pos accepted] at result
      obtain ⟨body, here⟩ := result
      rw [here] at ok
      simp only [ResultStatus.ok, Reading.value_bind] at ok
      generalize rest : (parseEntries (whole ds) (start + p.length) (ps.map List.length)).value
        (memory ds beyond) = later at ok
      obtain ⟨status, value⟩ := later
      cases value with
      | none => cases status <;> cases ok
      | some es =>
        cases status with
        | success => exact List.forall_mem_cons.mpr ⟨accepted, ih others tail rest⟩
        | error => cases ok
        | noMatch => cases ok
    · rw [if_neg accepted] at result
      rw [result] at ok
      cases ok

theorem decode_packets {dwords : List Dword} {entries : List RunlistEntry}
    (ok : decode past dwords = .ok entries) :
    ∃ ps : List (List Dword), ps ≠ [] ∧ (∀ p ∈ ps, IsPacket p) ∧ dwords = ps.flatten ∧
      ∀ p ∈ ps, Accepted (packetHeader p) := by
  unfold decode parseRunlistEntries at ok
  split at ok
  · cases ok
  · rename_i some_dword
    rw [Reading.value_bind, Reading.value_ite] at ok
    split at ok
    · cases ok
    · rename_i fits
      obtain ⟨ps, some_packet, packets, flat, sizes⟩ :=
        packets_of_fits dwords (past dwords) some_dword (Nat.le_of_not_gt fits)
      have length : (whole dwords).length = dwords.length := rfl
      rw [length, sizes] at ok
      exact ⟨ps, some_packet, packets, flat,
        parseEntries_accepted dwords (past dwords) ps packets (List.drop_zero.trans flat) ok⟩

end

theorem parseEntries_value_cases (data : Span) (mem : Nat → Dword) (start : Nat)
    (sizes : List Nat) : (parseEntries data start sizes).value mem = .error ∨
      ∃ es, (parseEntries data start sizes).value mem = .ok es := by
  induction sizes generalizing start with
  | nil => exact Or.inr ⟨[], rfl⟩
  | cons size sizes ih =>
    rw [parseEntries, Reading.value_bind]
    rcases parseRunlistEntry_result mem (data.subspan start size) with refused | ⟨e, here⟩
    · rw [refused]
      exact Or.inl rfl
    · rw [here]
      simp only [ResultStatus.ok, Reading.value_bind]
      rcases ih (start + size) with failed | ⟨es, rest⟩
      · rw [failed]
        exact Or.inl rfl
      · rw [rest]
        exact Or.inr ⟨e :: es, rfl⟩

theorem decode_result (past : List Dword → Nat → Dword) (dwords : List Dword) :
    decode past dwords = .error ∨ ∃ es, decode past dwords = .ok es := by
  unfold decode parseRunlistEntries
  split
  · exact Or.inl rfl
  · rw [Reading.value_bind, Reading.value_ite]
    split
    · exact Or.inl rfl
    · exact parseEntries_value_cases _ _ _ _

namespace Owned
open Sift (SiftStatus)

theorem leading_all {ps : List (List Dword)} (accepted : ∀ p ∈ ps, Accepted (packetHeader p))
    (k : Nat) : leading Supply.plenty.body k ps = ps.length := by
  induction ps generalizing k with
  | nil => rfl
  | cons p ps ih =>
    obtain ⟨here, later⟩ := List.forall_mem_cons.mp accepted
    rw [leading, if_pos ⟨here, rfl⟩, ih later, List.length_cons]

section
variable {past : List Dword → Nat → Dword}

theorem decode_loads {dwords : List Dword} {es : List RunlistEntry}
    (ok : decode past dwords = .ok es) (b : Bodies) :
    ∃ entries b', parseRunlistEntries (memory dwords (past dwords)) .plenty (whole dwords) b =
        .ok (.ok entries, b') ∧ Made b b' entries es ∧
      (b'.without (entries.map Entry.body)).cells = b.cells := by
  obtain ⟨ps, some_packet, packets, flat, accepted⟩ := decode_packets ok
  have entered : Entered dwords .plenty ps := ⟨some_packet, packets, flat, rfl, rfl⟩
  obtain ⟨r, b', run, loop⟩ := parseRunlistEntries_entered dwords (past dwords) entered b
  have all := leading_all accepted b.calls
  obtain ⟨entries, es', rfl, values, bodies, loaded⟩ := loop.decoded all
  have same : es' = es := by
    have twice := values.symm.trans ok
    cases twice
    rfl
  subst same
  refine ⟨entries, b', run, ⟨?_, loaded, ?_⟩, ?_⟩
  · intro i member
    rw [bodies] at member
    exact (List.mem_range'_1.mp member).1
  · rw [bodies]
    exact List.nodup_range'
  · have grown := loop.grown
    rw [all] at grown
    funext i
    simp only [Store.without, bodies, List.mem_range'_1]
    split
    · rename_i new
      exact (b.fresh i new.1).symm
    · rename_i old
      rcases Nat.lt_or_ge i b.calls with early | late
      · exact grown.old i early
      · have behind : b.calls + ps.length ≤ i := by omega
        exact (grown.rest i behind).trans (b.fresh i late).symm

/-- Dwords that are no packets make an error, which may leave bodies behind. -/
theorem decode_fails {dwords : List Dword} (bad : (decode past dwords).status ≠ .success)
    (b : Bodies) :
    ∃ b', parseRunlistEntries (memory dwords (past dwords)) .plenty (whole dwords) b =
        .ok (.error, b') ∧ ∀ i v, b.cells i = some v → b'.cells i = some v := by
  by_cases inside : ∃ ps, Entered dwords .plenty ps
  · obtain ⟨ps, entered⟩ := inside
    obtain ⟨r, b', run, loop⟩ := parseRunlistEntries_entered dwords (past dwords) entered b
    have missed : leading Supply.plenty.body b.calls ps ≠ ps.length := by
      intro all
      obtain ⟨entries, es, -, values, -⟩ := loop.decoded all
      exact bad (congrArg ResultStatus.status values)
    rw [loop.failed missed] at run
    exact ⟨b', run, fun i v => loop.grown.kept⟩
  · have outside := parseRunlistEntries_outside dwords (past dwords)
      (fun ps entered => inside ⟨ps, entered⟩) b
    exact ⟨b, outside, fun i v found => found⟩

structure Filled (past : List Dword → Nat → Dword) (data : List (List Dword))
    (value : Option (List Entry)) (b b' : Bodies) : Prop where
  old : ∀ i v, b.cells i = some v → b'.cells i = some v
  made : ∀ es, entriesOf past data = some es → ∃ entries, value = some entries ∧
    Made b b' entries es ∧ (b'.without (entries.map Entry.body)).cells = b.cells
  dropped : entriesOf past data = none → value = none ∧
    (∀ n, ¬ Malformed past (.found n data) → b'.cells = b.cells)

variable (past) in
theorem buildEntries_filled (k : Nat) (p : RlsParser) (b : Bodies) :
    ∃ value b', buildEntries past .plenty k p b =
        .ok (some (value, { p with dwords_buffer_ := [] }), b') ∧
      Filled past p.dwords_buffer_ value b b' := by
  unfold buildEntries
  by_cases empty : p.dwords_buffer_ = []
  · have nothing : entriesOf past p.dwords_buffer_ = none := if_pos empty
    have same : p = { p with dwords_buffer_ := [] } := by rw [← empty]
    rw [if_pos empty, ← same]
    refine ⟨none, b, rfl, fun i v found => found, ?_, fun _ => ⟨rfl, fun _ _ => rfl⟩⟩
    rw [nothing]
    rintro es ⟨⟩
  · rw [if_neg empty]
    rcases decode_result past p.dwords_buffer_.flatten with bad | ⟨es, ok⟩
    · have failed : (decode past p.dwords_buffer_.flatten).status ≠ .success := by
        rw [bad]
        decide
      have nothing : entriesOf past p.dwords_buffer_ = none := by
        rw [entriesOf, if_neg empty, if_pos failed]
      obtain ⟨b', run, old⟩ := decode_fails failed b
      refine ⟨none, b', ?_, old, ?_, fun _ => ⟨rfl, fun n well => ?_⟩⟩
      · dsimp only [SeriesSupply.plenty]
        rw [run]
        rfl
      · rw [nothing]
        rintro es ⟨⟩
      · exact absurd ⟨empty, congrArg ResultStatus.status bad⟩ well
    · have entries_ok : entriesOf past p.dwords_buffer_ = some es := by
        rw [entriesOf, if_neg empty, ok]
        rfl
      obtain ⟨entries, b', run, made, frame⟩ := decode_loads ok b
      have old : ∀ i v, b.cells i = some v → b'.cells i = some v := by
        intro i v found
        have kept := congrFun frame i
        rw [found, Store.without] at kept
        dsimp only at kept
        split at kept
        · cases kept
        · exact kept
      refine ⟨some entries, b', ?_, old, ?_, ?_⟩
      · dsimp only [SeriesSupply.plenty]
        rw [run]
        rfl
      · rw [entries_ok]
        rintro _ ⟨⟩
        exact ⟨entries, rfl, made, frame⟩
      · rw [entries_ok]
        rintro ⟨⟩

section
variable {p : RlsParser}

theorem parse_turns {q : RlsParser}
    (turns : Looping.run RlsParser.turn (p.rls_text.length + 2)
      (p.facing .node (p.end_.getD p.rls_text.length) (p.end_.getD p.rls_text.length)) =
        some (.ok q)) (k : Nat) (b : Bodies) :
    parse past .plenty k p b = buildEntries past .plenty k q b := by
  rw [RlsParser.facing] at turns
  simp only [parse, turns, SeriesSupply.plenty, Bool.not_true, Bool.false_eq_true, if_false]

theorem parse_thrown {e : SiftStatus}
    (turns : Looping.run RlsParser.turn (p.rls_text.length + 2)
      (p.facing .node (p.end_.getD p.rls_text.length) (p.end_.getD p.rls_text.length)) =
        some (.error e)) (k : Nat) (b : Bodies) : parse past .plenty k p b = .ok (none, b) := by
  rw [RlsParser.facing] at turns
  simp only [parse, turns, SeriesSupply.plenty, Bool.not_true, Bool.false_eq_true, if_false]
  rfl

end

variable (past) in
theorem parse_filled (k : Nat) (p : RlsParser) (empty : p.dwords_buffer_ = [])
    (every : p.find_all_nodes_ = true) (b : Bodies) :
    match items (RlsParser.ahead p.rls_text p.end_) with
    | [] => ∃ q, parse past .plenty k p b = .ok (some (none, q), b)
    | .overflow :: _ => parse past .plenty k p b = .ok (none, b)
    | .found n data :: is => ∃ q value b',
        parse past .plenty k p b = .ok (some (value, q), b') ∧ Filled past data value b b' ∧
        (⟨q.node_, q.gpu_⟩ : Node) = n ∧ q.dwords_buffer_ = [] ∧ q.find_all_nodes_ = true ∧
        items (RlsParser.ahead q.rls_text q.end_) = is := by
  have all : ∀ is, p.upcoming is = is := by
    intro is
    cases is with
    | nil => rfl
    | cons i is => cases i <;> simp [RlsParser.upcoming, RlsParser.wants, every]
  have short : (RlsParser.ahead p.rls_text p.end_).length ≤ p.rls_text.length :=
    Nat.le_trans (TextLines.lines_length_le _ _) (by simp)
  obtain ⟨r, run, reaches⟩ := @RlsParser.run_node p _ (p.end_.getD p.rls_text.length)
    (p.rls_text.length + 2) _ rfl (Nat.add_le_add_right short 2)
  rw [all] at reaches
  cases ahead : items (RlsParser.ahead p.rls_text p.end_) with
  | nil =>
    rw [RlsParser.ahead] at ahead
    rw [ahead] at reaches
    obtain ⟨state, rfl⟩ := reaches
    exact ⟨_, (parse_turns run k b).trans (if_pos empty)⟩
  | cons i is =>
    rw [RlsParser.ahead] at ahead
    rw [ahead] at reaches
    cases i with
    | overflow =>
      cases reaches
      exact parse_thrown run k b
    | found n data =>
      obtain ⟨state, e, rfl, rest, _⟩ := reaches
      obtain ⟨value, b', built, filled⟩ := buildEntries_filled past k
        { p with
          node_ := n.node_id
          gpu_ := n.gpu_id
          dwords_buffer_ := p.dwords_buffer_ ++ data
          state_ := state
          end_ := e } b
      rw [empty, List.nil_append] at filled
      exact ⟨_, value, b', (parse_turns run k b).trans built, filled, rfl, rfl, every, rest⟩

structure Framed (start h : Heap) (rows : List Row) : Prop where
  series : (h.without rows).series.cells = start.series.cells
  runlists : (h.without rows).runlists.cells = start.runlists.cells
  entries : (h.without rows).entries.cells = start.entries.cells

theorem without_more {V : Type} {s t : Store V} {new : List Nat}
    (same : (s.without new).cells = t.cells) (old : List Nat) :
    (s.without (old ++ new)).cells = (t.without old).cells := by
  funext i
  have here := congrFun same i
  simp only [Store.without, List.mem_append] at here ⊢
  by_cases member : i ∈ old
  · rw [if_pos (Or.inl member), if_pos member]
  · simp only [member, false_or, if_false, here]

theorem Built.links {h : Heap} {v : SeriesVars} {rows : List Row} (built : Built h v rows)
    (made : SeriesNode) :
    ∃ nodes, linkPrev v.prev h.series.calls (h.series.add made) = .ok nodes ∧
      (nodes.without (rows.map Row.node ++ [h.series.calls])).cells =
        (h.series.without (rows.map Row.node)).cells := by
  have last := built.last
  rcases List.eq_nil_or_concat' rows with rfl | ⟨rs, x, rfl⟩
  · rw [last]
    exact ⟨_, rfl, Store.without_add _ _⟩
  · rw [List.getLast?_concat] at last
    obtain ⟨_, _, _, next, held, _⟩ := Blocks.linked_append.mp built.linked
    have old := Store.add_other held.node made
    rw [last]
    refine ⟨(h.series.add made).put x.node (some ⟨some x.runlist, some h.series.calls⟩), ?_,
      Store.without_made Store.fresh_calls fun j outside other => ?_⟩
    · simp only [linkPrev, Option.map_some, Store.load_ok old, Store.write_ok old, bind,
        Except.bind]
    · have not_last : j ≠ x.node := by
        rintro rfl
        exact outside (List.mem_map_of_mem (List.mem_append_right rs List.mem_cons_self))
      rw [Store.put_cells old, if_neg not_last, Store.add_cells, if_neg other]

theorem addRunlist_plenty {h : Heap} {v : SeriesVars} {nodes : Store SeriesNode} (node : Node)
    (entries : List Entry)
    (link : linkPrev v.prev h.series.calls (h.series.add ⟨some h.runlists.calls, none⟩) =
      .ok nodes) :
    addRunlist .plenty node entries v h = .ok ⟨false,
      ⟨v.runlists.or (some h.series.calls), some h.series.calls, some h.series.calls⟩,
      newHeap h nodes node entries⟩ := by
  simp only [addRunlist, SeriesSupply.plenty, Store.malloc, if_true,
    Store.write_ok (Store.add_self _), Store.put_add, bind, Except.bind, link]
  rfl

theorem Framed.snoc {start h : Heap} {rows : List Row} (frame : Framed start h rows)
    {nodes : Store SeriesNode} (entries : List Entry) (value : Runlist)
    (others : (nodes.without (rows.map Row.node ++ [h.series.calls])).cells =
      (h.series.without (rows.map Row.node)).cells) :
    Framed start (newHeap h nodes value.node entries) (rows ++ [newRow h entries value]) := by
  constructor <;> simp only [Heap.without, newHeap, newRow, List.map_append, List.map_cons,
    List.map_nil]
  · exact others.trans frame.series
  · exact (Store.without_add _ _).trans frame.runlists
  · exact (Store.without_add _ _).trans frame.entries

theorem seriesLoop_plenty {start : Heap} {fuel k : Nat} {p : RlsParser} {v : SeriesVars} {h : Heap}
    {rows : List Row} {rls : List Runlist} (empty : p.dwords_buffer_ = [])
    (every : p.find_all_nodes_ = true) (built : Built h v rows) (frame : Framed start h rows)
    (enough : (items (RlsParser.ahead p.rls_text p.end_)).length < fuel)
    (ok : runlistsOf past (items (RlsParser.ahead p.rls_text p.end_)) = (.success, rls)) :
    ∃ r more, seriesLoop past .plenty fuel k p v h = .ok r ∧ r.threw = false ∧
      Built r.heap r.vars (rows ++ more) ∧ more.map Row.value = rls ∧
      Framed start r.heap (rows ++ more) ∧
      ((∀ i ∈ items (RlsParser.ahead p.rls_text p.end_), ¬ Malformed past i) →
        (h.bodies.without (rows.flatMap Row.bodies)).cells = start.bodies.cells →
        (r.heap.bodies.without ((rows ++ more).flatMap Row.bodies)).cells =
          start.bodies.cells) := by
  induction fuel generalizing k p v h rows rls with
  | zero => exact absurd enough (Nat.not_lt_zero _)
  | succ fuel ih =>
    have next := parse_filled past k p empty every h.bodies
    cases ahead : items (RlsParser.ahead p.rls_text p.end_) with
    | nil =>
      rw [ahead] at next ok
      obtain ⟨q, parsed⟩ := next
      cases ok
      refine ⟨⟨false, v, h⟩, [], ?_, rfl, ?_, rfl, ?_, ?_⟩
      · simp only [seriesLoop, parsed, bind, Except.bind]
        rfl
      · rwa [List.append_nil]
      · rwa [List.append_nil]
      · intro _ same
        rwa [List.append_nil]
    | cons i is =>
      rw [ahead] at next ok enough
      cases i with
      | overflow => cases ok
      | found n data =>
        obtain ⟨q, value, bodies, parsed, filled, rfl, empty, every, rest⟩ := next
        have before := built.parsed filled.old
        cases decoded : entriesOf past data with
        | none =>
          obtain ⟨rfl, clean⟩ := filled.dropped decoded
          rw [runlistsOf_found, decoded] at ok
          cases ok
          refine ⟨⟨false, v, { h with bodies := bodies }⟩, [], ?_, rfl, ?_, rfl, ?_, ?_⟩
          · simp only [seriesLoop, parsed, bind, Except.bind]
            rfl
          · rwa [List.append_nil]
          · rw [List.append_nil]
            exact ⟨frame.series, frame.runlists, frame.entries⟩
          · intro well same
            have kept := clean _ (well _ List.mem_cons_self)
            rw [List.append_nil]
            simp only [Store.without, kept] at same ⊢
            exact same
        | some es =>
          obtain ⟨entries, rfl, made, only⟩ := filled.made es decoded
          obtain ⟨later, ok, rfl⟩ := runlistsOf_success decoded ok
          have apart : ∀ r ∈ rows, ∀ i ∈ r.bodies, i ∉ entries.map Entry.body := by
            intro r hr i member new
            obtain ⟨next, held⟩ := built.linked.mem r hr
            obtain ⟨w, found⟩ := loaded_live held.loaded i member
            exact Nat.not_lt.mpr (made.new i new) (Store.lt_calls found)
          have framed : Framed start { h with bodies := bodies } rows :=
            ⟨frame.series, frame.runlists, frame.entries⟩
          obtain ⟨nodes, link, others⟩ := before.links ⟨some h.runlists.calls, none⟩
          have after := before.snoc ⟨⟨q.node_, q.gpu_⟩, es⟩ apart made.loaded made.once link
          have enough : (items (RlsParser.ahead q.rls_text q.end_)).length < fuel := by
            rw [rest]
            exact Nat.lt_of_succ_lt_succ enough
          obtain ⟨r, more, run, done, all, values, outside, clean⟩ := ih (k := k + 1) empty every
            after (framed.snoc entries ⟨⟨q.node_, q.gpu_⟩, es⟩ others) enough (by rwa [rest])
          refine ⟨r, newRow { h with bodies := bodies } entries ⟨⟨q.node_, q.gpu_⟩, es⟩ :: more,
            ?_, done, ?_, ?_, ?_, ?_⟩
          · simp only [seriesLoop, parsed, addRunlist_plenty _ entries link, bind, Except.bind,
              Bool.false_eq_true, if_false]
            exact run
          · rwa [List.append_assoc] at all
          · rw [List.map_cons, values]
            rfl
          · rwa [List.append_assoc] at outside
          · intro well same
            rw [rest, List.append_assoc] at clean
            refine clean (fun i member => well i (List.mem_cons_of_mem _ member)) ?_
            rw [List.flatMap_append, List.flatMap_cons, List.flatMap_nil, List.append_nil]
            exact (without_more only _).trans same

/-- The blocks on the heap are those from before the parse of a text, but for the bodies that a
section leaves whose dwords are no packets. -/
structure Restored (past : List Dword → Nat → Dword) (text : List Char) (start h : Heap) :
    Prop where
  series : h.series.cells = start.series.cells
  runlists : h.runlists.cells = start.runlists.cells
  entries : h.entries.cells = start.entries.cells
  bodies : (∀ i ∈ items (TextLines.lines '\n' text), ¬ Malformed past i) →
    h.bodies.cells = start.bodies.cells

theorem parse_plenty {text : List Char} {rls : List Runlist}
    (ok : Pm4.siftPm4ParseRunlists past text = some (.success, rls)) (h : Heap) :
    ∃ list g rows, siftPm4ParseRunlists past .plenty text h = .ok (.success, list, g) ∧
      Linked g.Holds Row.node list rows none ∧ rows.Pairwise Row.Apart ∧
      rows.map Row.value = rls ∧ Restored past text h (g.without rows) := by
  rw [siftPm4ParseRunlists_eq, Option.some.injEq] at ok
  have lines : RlsParser.ahead text (some 0) = TextLines.lines '\n' text := rfl
  have short := Nat.le_trans (items_length_le (TextLines.lines '\n' text))
    (TextLines.lines_length_le '\n' text)
  have built : Built h ⟨none, none, none⟩ [] := ⟨rfl, rfl, List.Pairwise.nil⟩
  have frame : Framed h h [] := by constructor <;> rw [Heap.without_nil]
  obtain ⟨r, rows, run, done, all, values, outside, clean⟩ := seriesLoop_plenty (k := 0)
    (p := RlsParser.ofText text) rfl rfl built frame (Nat.lt_succ_of_le short) ok
  rw [List.nil_append] at all outside clean
  refine ⟨r.vars.runlists, r.heap, rows, ?_, all.linked, all.apart, values, outside.series,
    outside.runlists, outside.entries, fun well => clean well ?_⟩
  · simp only [siftPm4ParseRunlists, run, done, bind, Except.bind, Bool.false_eq_true, if_false]
    rfl
  · rw [List.flatMap_nil, Store.without_nil]

end

end Owned
end Rocsift.Pm4
