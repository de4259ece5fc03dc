import Rocsift.Pm4.NodeIds
import Rocsift.Pm4.PacketArrays

/-! A text whose last line is not terminated, against the same text with a newline behind it. The
loop of the parser goes from newline to newline, so the last line is never handed to it. -/
namespace Rocsift.Pm4
open Sift (SiftStatus)

theorem dataRun_append {xs ys : List Line} (closed : ∀ l ∈ ys.head?, dataOf l = none) :
    dataRun (xs ++ ys) = dataRun xs := by
  induction xs with
  | nil =>
    cases ys with
    | nil => rfl
    | cons l ys => simp only [List.nil_append, dataRun, closed l rfl]
  | cons l xs ih =>
    simp only [List.cons_append, dataRun, ih]

theorem items_append {xs ys : List Line} (closed : ∀ l ∈ ys.head?, dataOf l = none) :
    items (xs ++ ys) = items xs ++ items ys := by
  induction xs with
  | nil => rfl
  | cons l xs ih =>
    rcases parseNodeLine_cases l with h | h | ⟨n, h⟩
    · simp only [List.cons_append, items, h, ResultStatus.noMatch, ih]
    · simp only [List.cons_append, items, h, ResultStatus.error, ih]
    · simp only [List.cons_append, items, h, ResultStatus.ok, ih, dataRun_append closed]

theorem items_data {ls : List Line} (data : ∀ l ∈ ls, dataOf l ≠ none) : items ls = [] := by
  induction ls with
  | nil => rfl
  | cons l ls ih =>
    obtain ⟨here, later⟩ := List.forall_mem_cons.mp data
    obtain ⟨ds, hd⟩ := Option.ne_none_iff_exists'.mp here
    simp only [items, parseNodeLine_of_data hd, ResultStatus.noMatch, ih later]

theorem dataRun_snoc {ls : List Line} (data : ∀ l ∈ ls, dataOf l ≠ none) {f : Line}
    {ds : List Dword} (hd : dataOf f = some ds) : dataRun (ls ++ [f]) = dataRun ls ++ [ds] := by
  induction ls with
  | nil => simp only [List.nil_append, dataRun, hd]
  | cons l ls ih =>
    obtain ⟨here, later⟩ := List.forall_mem_cons.mp data
    obtain ⟨es, he⟩ := Option.ne_none_iff_exists'.mp here
    simp only [List.cons_append, dataRun, he, ih later]

theorem dataRun_ended {ls : List Line} (ended : ∃ k ∈ ls, dataOf k = none) (rest : List Line) :
    dataRun (ls ++ rest) = dataRun ls := by
  induction ls with
  | nil =>
    obtain ⟨k, hk, _⟩ := ended
    cases hk
  | cons l ls ih =>
    cases hd : dataOf l with
    | none => simp only [List.cons_append, dataRun, hd]
    | some ds =>
      have later : ∃ k ∈ ls, dataOf k = none := by
        obtain ⟨k, hk, none⟩ := ended
        rcases List.mem_cons.mp hk with rfl | hk
        · rw [hd] at none
          cases none
        · exact ⟨k, hk, none⟩
      simp only [List.cons_append, dataRun, hd, ih later]

theorem dataOf_of_node {l : Line} (h : parseNodeLine l ≠ .noMatch) : dataOf l = none := by
  cases hd : dataOf l with
  | none => rfl
  | some ds => exact absurd (parseNodeLine_of_data hd) h

structure EndsIn (ls before : List Line) (n : Node) (run : List Line) : Prop where
  split : ∃ l, ls = before ++ l :: run ∧ parseNodeLine l = .ok n
  data : ∀ k ∈ run, dataOf k ≠ none

theorem EndsIn.items {ls before run : List Line} {n : Node} (h : EndsIn ls before n run) :
    items ls = items before ++ [.found n (dataRun run)] := by
  obtain ⟨l, rfl, named⟩ := h.split
  have node : dataOf l = none := dataOf_of_node (by rw [named]; exact fun h => by cases h)
  have closed : ∀ k ∈ (l :: run).head?, dataOf k = none := by
    rintro _ ⟨⟩
    exact node
  rw [items_append closed]
  simp only [Pm4.items, named, ResultStatus.ok, items_data h.data]

theorem EndsIn.snoc {ls before run : List Line} {n : Node} (h : EndsIn ls before n run) {f : Line}
    {ds : List Dword} (hd : dataOf f = some ds) : EndsIn (ls ++ [f]) before n (run ++ [f]) where
  split := by
    obtain ⟨l, rfl, named⟩ := h.split
    exact ⟨l, by rw [List.append_assoc, List.cons_append], named⟩
  data := by
    intro k hk
    rcases List.mem_append.mp hk with old | new
    · exact h.data k old
    · rw [List.mem_singleton.mp new, hd]
      exact Option.some_ne_none ds

theorem items_snoc_data {f : Line} {ds : List Dword} (hd : dataOf f = some ds) (ls : List Line) :
    (∃ before n run, EndsIn ls before n run) ∨ items (ls ++ [f]) = items ls := by
  induction ls with
  | nil =>
    refine Or.inr ?_
    simp only [List.nil_append, items, parseNodeLine_of_data hd, ResultStatus.noMatch]
  | cons l ls ih =>
    rcases ih with ⟨before, n, run, ends⟩ | same
    · obtain ⟨k, rfl, named⟩ := ends.split
      exact Or.inl ⟨l :: before, n, run, ⟨k, rfl, named⟩, ends.data⟩
    · rcases parseNodeLine_cases l with h | h | ⟨n, h⟩
      · exact Or.inr (by simp only [List.cons_append, items, h, ResultStatus.noMatch, same])
      · exact Or.inr (by simp only [List.cons_append, items, h, ResultStatus.error, same])
      · by_cases data : ∀ k ∈ ls, dataOf k ≠ none
        · exact Or.inl ⟨[], n, ls, ⟨l, rfl, h⟩, data⟩
        · have run : dataRun (ls ++ [f]) = dataRun ls := dataRun_ended (by simpa using data) _
          exact Or.inr (by simp only [List.cons_append, items, h, ResultStatus.ok, same, run])

section
variable (past : List Dword → Nat → Dword)

theorem decode_length {ds : List Dword} {entries : List RunlistEntry}
    (decoded : decode past ds = .ok entries) :
    ds.length = (entries.map fun e => e.header.count.toNat + 1).sum := by
  have exact_framing := framing_exact ds (past ds)
  have success : (decode past ds).status = .success := by rw [decoded]; rfl
  obtain ⟨ps, framed⟩ := exact_framing.1.mp success
  obtain ⟨es, ok, described⟩ := exact_framing.2.1 ps framed
  have same : es = entries := by
    have both := ok.symm.trans decoded
    cases both
    rfl
  rw [framed.whole, List.length_flatten, ← same]
  have packets := framed.packets
  clear framed ok same
  induction described with
  | nil => rfl
  | @cons e p es ps here _ ih =>
    obtain ⟨valid, later⟩ := List.forall_mem_cons.mp packets
    rw [List.map_cons, List.map_cons, List.sum_cons, List.sum_cons, ih later, valid.size,
      here.count, Nat.add_comm 1]

theorem entriesOf_some_iff {data : List (List Dword)} {entries : List RunlistEntry} :
    entriesOf past data = some entries ↔
      data ≠ [] ∧ decode past data.flatten = .ok entries := by
  unfold entriesOf
  constructor
  · intro h
    split at h
    · cases h
    · rename_i some_data
      split at h
      · cases h
      · rename_i success
        refine ⟨some_data, ?_⟩
        cases hr : decode past data.flatten with
        | mk status value =>
          rw [hr] at h success
          simp only [ne_eq, not_not] at success h
          rw [success, h]
          rfl
  · rintro ⟨some_data, decoded⟩
    rw [if_neg some_data, decoded]
    rfl

theorem entriesOf_snoc_iff (data : List (List Dword)) {ds : List Dword} (some_dword : ds ≠ []) :
    entriesOf past (data ++ [ds]) = entriesOf past data ↔
      entriesOf past data = none ∧ entriesOf past (data ++ [ds]) = none := by
  constructor
  · intro same
    cases before : entriesOf past data with
    | none => exact ⟨rfl, same.trans before⟩
    | some entries =>
      have after := same.trans before
      have length := decode_length past ((entriesOf_some_iff past).mp before).2
      have longer := decode_length past ((entriesOf_some_iff past).mp after).2
      rw [← length, List.flatten_append, List.flatten_singleton, List.length_append] at longer
      have pos := List.length_pos_iff.mpr some_dword
      omega
  · rintro ⟨none, none'⟩
    rw [none, none']

theorem entriesOf_snoc_nil (data : List (List Dword)) :
    entriesOf past (data ++ [[]]) = entriesOf past data := by
  have flat : (data ++ [[]]).flatten = data.flatten := by simp
  unfold entriesOf
  rw [flat]
  cases data with
  | nil => rfl
  | cons d data => simp

def AllDecode (is : List Item) : Prop :=
  ∀ i ∈ is, ∃ n data entries, i = .found n data ∧ entriesOf past data = some entries

def Foreign (node : Node) (is : List Item) : Prop :=
  ∀ i ∈ is, ∃ n data, i = .found n data ∧ n ≠ node

theorem runlistsOf_cases (is : List Item) :
    (∃ series, runlistsOf past is = (.success, series)) ∨ runlistsOf past is = (.error, []) := by
  induction is with
  | nil => exact Or.inl ⟨[], rfl⟩
  | cons i is ih =>
    cases i with
    | overflow => exact Or.inr rfl
    | found n data =>
      cases decoded : entriesOf past data with
      | none => exact Or.inl ⟨[], by simp only [runlistsOf, decoded]⟩
      | some entries =>
        rcases ih with ⟨series, h⟩ | h
        · exact Or.inl ⟨_, by simp only [runlistsOf, decoded, h]; rfl⟩
        · exact Or.inr (by simp only [runlistsOf, decoded, h])

theorem runlistsOf_append_iff (xs ys zs : List Item) :
    runlistsOf past (xs ++ ys) = runlistsOf past (xs ++ zs) ↔
      (AllDecode past xs → runlistsOf past ys = runlistsOf past zs) := by
  induction xs with
  | nil => exact ⟨fun h _ => h, fun h => h (by simp [AllDecode])⟩
  | cons i xs ih =>
    have unreached (stops : ¬ ∃ n data entries, i = .found n data ∧
        entriesOf past data = some entries) : ¬ AllDecode past (i :: xs) :=
      fun all => stops (all i List.mem_cons_self)
    cases i with
    | overflow =>
      have stops := unreached (by rintro ⟨_, _, _, ⟨⟩, _⟩)
      exact ⟨fun _ all => absurd all stops, fun _ => rfl⟩
    | found n data =>
      cases decoded : entriesOf past data with
      | none =>
        have stops := unreached (by
          rintro ⟨_, _, _, ⟨⟩, some_entries⟩
          rw [decoded] at some_entries
          cases some_entries)
        refine ⟨fun _ all => absurd all stops, fun _ => ?_⟩
        simp only [List.cons_append, runlistsOf, decoded]
      | some entries =>
        have reached : AllDecode past (.found n data :: xs) ↔ AllDecode past xs := by
          constructor
          · exact fun all j hj => all j (List.mem_cons_of_mem _ hj)
          · exact fun all => List.forall_mem_cons.mpr ⟨⟨n, data, entries, rfl, decoded⟩, all⟩
        rw [reached, ← ih]
        simp only [List.cons_append, runlistsOf, decoded]
        rcases runlistsOf_cases past (xs ++ ys) with ⟨s, hs⟩ | hs <;>
          rcases runlistsOf_cases past (xs ++ zs) with ⟨t, ht⟩ | ht <;>
          simp [hs, ht]

theorem runlistsOf_single (n : Node) (data : List (List Dword)) :
    runlistsOf past [.found n data] =
      (.success, ((entriesOf past data).map (Runlist.mk n)).toList) := by
  cases decoded : entriesOf past data <;> simp [runlistsOf, decoded]

theorem runlistOf_append_iff (node : Node) (xs ys zs : List Item) :
    runlistOf past node (xs ++ ys) = runlistOf past node (xs ++ zs) ↔
      (Foreign node xs → runlistOf past node ys = runlistOf past node zs) := by
  induction xs with
  | nil => exact ⟨fun h _ => h, fun h => h (by simp [Foreign])⟩
  | cons i xs ih =>
    cases i with
    | overflow =>
      refine ⟨fun _ all => ?_, fun _ => rfl⟩
      obtain ⟨_, _, ⟨⟩, _⟩ := all _ List.mem_cons_self
    | found n data =>
      by_cases own : n = node
      · refine ⟨fun _ all => ?_, fun _ => ?_⟩
        · obtain ⟨_, _, ⟨⟩, other⟩ := all _ List.mem_cons_self
          exact absurd own other
        · rw [own, List.cons_append, List.cons_append, runlistOf_own, runlistOf_own]
      · have reached : Foreign node (.found n data :: xs) ↔ Foreign node xs := by
          constructor
          · exact fun all j hj => all j (List.mem_cons_of_mem _ hj)
          · exact fun all => List.forall_mem_cons.mpr ⟨⟨n, data, rfl, own⟩, all⟩
        rw [reached, ← ih, List.cons_append, List.cons_append, runlistOf_foreign past node own,
          runlistOf_foreign past node own]

def Neither (run : List Line) (ds : List Dword) : Prop :=
  entriesOf past (dataRun run) = none ∧ entriesOf past (dataRun run ++ [ds]) = none

/-- The last line does not matter to the series: it is no node line out of range that the loop
would reach, and no data line that would change a section that the loop reaches. -/
structure SeriesKeeps (ls : List Line) (f : Line) : Prop where
  overflow : parseNodeLine f = .error → ¬ AllDecode past (items ls)
  data : ∀ before n run ds, EndsIn ls before n run → AllDecode past (items before) →
    dataOf f = some ds → ds ≠ [] → Neither past run ds

/-- The last line does not matter to the search for a node: it is no data line that would change
the section that the search takes. -/
def SearchKeeps (node : Node) (ls : List Line) (f : Line) : Prop :=
  ∀ before run ds, EndsIn ls before node run → Foreign node (items before) →
    dataOf f = some ds → ds ≠ [] → Neither past run ds

section
variable {ls before run : List Line} {n : Node} {f : Line} {ds : List Dword}
  (ends : EndsIn ls before n run) (hd : dataOf f = some ds)
include ends hd

theorem EndsIn.items_snoc :
    Pm4.items (ls ++ [f]) = Pm4.items before ++ [.found n (dataRun run ++ [ds])] := by
  rw [(ends.snoc hd).items, dataRun_snoc ends.data hd]

theorem series_snoc_data_iff (some_dword : ds ≠ []) :
    runlistsOf past (Pm4.items (ls ++ [f])) = runlistsOf past (Pm4.items ls) ↔
      (AllDecode past (Pm4.items before) → Neither past run ds) := by
  rw [ends.items_snoc hd, ends.items, runlistsOf_append_iff]
  refine imp_congr_right fun _ => ?_
  rw [Neither, ← entriesOf_snoc_iff past _ some_dword, runlistsOf_single, runlistsOf_single]
  constructor
  · intro same
    have lists := congrArg Prod.snd same
    cases decoded : entriesOf past (dataRun run) <;>
      cases decoded' : entriesOf past (dataRun run ++ [ds]) <;>
      simp_all
  · intro same
    rw [same]

theorem search_snoc_data_iff (node : Node) (some_dword : ds ≠ []) :
    runlistOf past node (Pm4.items (ls ++ [f])) = runlistOf past node (Pm4.items ls) ↔
      (n = node → Foreign node (Pm4.items before) → Neither past run ds) := by
  rw [ends.items_snoc hd, ends.items, runlistOf_append_iff]
  by_cases own : n = node
  · rw [own, runlistOf_own, runlistOf_own, Neither, ← entriesOf_snoc_iff past _ some_dword]
    refine ⟨fun h _ reached => ?_, fun h reached => by rw [h rfl reached]⟩
    have same := h reached
    cases decoded : entriesOf past (dataRun run) <;>
      cases decoded' : entriesOf past (dataRun run ++ [ds]) <;>
      simp_all
  · rw [runlistOf_foreign past node own, runlistOf_foreign past node own]
    exact ⟨fun _ h => absurd h own, fun _ _ => rfl⟩

end

theorem items_snoc_nil_entries {ls before run : List Line} {n : Node} {f : Line}
    (ends : EndsIn ls before n run) (hd : dataOf f = some []) (node : Node) :
    runlistsOf past (items (ls ++ [f])) = runlistsOf past (items ls) ∧
      runlistOf past node (items (ls ++ [f])) = runlistOf past node (items ls) := by
  have same := entriesOf_snoc_nil past (dataRun run)
  rw [ends.items_snoc hd, ends.items, runlistsOf_append_iff, runlistOf_append_iff]
  constructor
  · intro _
    rw [runlistsOf_single, runlistsOf_single, same]
  · intro _
    by_cases own : n = node
    · rw [own, runlistOf_own, runlistOf_own, same]
    · rw [runlistOf_foreign past node own, runlistOf_foreign past node own]

theorem items_snoc_other {f : Line} (none : dataOf f = none) (ls : List Line) :
    items (ls ++ [f]) = items ls ++ items [f] :=
  items_append (by rintro _ ⟨⟩; exact none)

theorem series_snoc_iff (ls : List Line) (f : Line) :
    runlistsOf past (items (ls ++ [f])) = runlistsOf past (items ls) ↔ SeriesKeeps past ls f := by
  have unchanged := runlistsOf_append_iff past (items ls) (items [f]) []
  rw [List.append_nil] at unchanged
  constructor
  · intro same
    constructor
    · intro h reached
      rw [items_snoc_other (dataOf_of_node (by rw [h]; exact fun h => by cases h)),
        unchanged] at same
      have wrong := same reached
      simp only [items, h, ResultStatus.error] at wrong
      cases wrong
    · intro before n run ds ends reached hd some_dword
      exact (series_snoc_data_iff past ends hd some_dword).mp same reached
  · intro keeps
    cases hd : dataOf f with
    | some ds =>
      rcases items_snoc_data hd ls with ⟨before, n, run, ends⟩ | same
      · by_cases some_dword : ds = []
        · rw [some_dword] at hd
          exact (items_snoc_nil_entries past ends hd n).1
        · exact (series_snoc_data_iff past ends hd some_dword).mpr fun reached =>
            keeps.data before n run ds ends reached hd some_dword
      · rw [same]
    | none =>
      rw [items_snoc_other hd, unchanged]
      intro reached
      rcases parseNodeLine_cases f with h | h | ⟨n, h⟩
      · simp only [items, h, ResultStatus.noMatch]
      · exact absurd reached (keeps.overflow h)
      · simp only [items, h, ResultStatus.ok, dataRun]
        rfl

theorem search_snoc_iff (node : Node) (ls : List Line) (f : Line) :
    runlistOf past node (items (ls ++ [f])) = runlistOf past node (items ls) ↔
      SearchKeeps past node ls f := by
  have unchanged := runlistOf_append_iff past node (items ls) (items [f]) []
  rw [List.append_nil] at unchanged
  constructor
  · intro same before run ds ends reached hd some_dword
    exact (search_snoc_data_iff past ends hd node some_dword).mp same rfl reached
  · intro keeps
    cases hd : dataOf f with
    | some ds =>
      rcases items_snoc_data hd ls with ⟨before, n, run, ends⟩ | same
      · by_cases some_dword : ds = []
        · rw [some_dword] at hd
          exact (items_snoc_nil_entries past ends hd node).2
        · refine (search_snoc_data_iff past ends hd node some_dword).mpr ?_
          rintro rfl reached
          exact keeps before run ds ends reached hd some_dword
      · rw [same]
    | none =>
      rw [items_snoc_other hd, unchanged]
      intro _
      rcases parseNodeLine_cases f with h | h | ⟨n, h⟩
      · simp only [items, h, ResultStatus.noMatch]
      · simp only [items, h, ResultStatus.error]
        rfl
      · simp only [items, h, ResultStatus.ok, dataRun]
        by_cases own : n = node
        · rw [own, runlistOf_own]
          rfl
        · rw [runlistOf_foreign past node own]

/-- With a newline behind the text both functions return what they return without it, exactly when
its last line is none that the run would have seen. -/
theorem last_line_iff (text : List Char) :
    (siftPm4ParseRunlists past (text ++ ['\n']) = siftPm4ParseRunlists past text ↔
      SeriesKeeps past (TextLines.lines '\n' text) (TextLines.rest '\n' text)) ∧
    (∀ node : Node,
      siftPm4ParseRunlist past node.node_id node.gpu_id (text ++ ['\n']) =
          siftPm4ParseRunlist past node.node_id node.gpu_id text ↔
        SearchKeeps past node (TextLines.lines '\n' text) (TextLines.rest '\n' text)) := by
  constructor
  · rw [siftPm4ParseRunlists_eq, siftPm4ParseRunlists_eq, Option.some_inj, TextLines.lines_snoc]
    exact series_snoc_iff past _ _
  · intro node
    rw [siftPm4ParseRunlist_eq, siftPm4ParseRunlist_eq, Option.some_inj, TextLines.lines_snoc]
    exact search_snoc_iff past node _ _

end

def unterminated : List Char :=
  "Node 1, gpu_id 2:
  00000000: c005a200 00000001 00000002 00000003 00000004 00000005 00000006
  00000020: c005a200 00000011 00000012 00000013 00000014 00000015 00000016".toList

def entryCounts (r : Option (SiftStatus × List Runlist)) : Option (SiftStatus × List Nat) :=
  r.map fun s => (s.1, s.2.map fun l => l.entries.length)

/-- The second packet vanishes without an error. -/
theorem unterminated_packet_dropped :
    entryCounts (siftPm4ParseRunlists (fun _ _ => 0#32) unterminated) = some (.success, [1]) ∧
      entryCounts (siftPm4ParseRunlists (fun _ _ => 0#32) (unterminated ++ ['\n'])) =
        some (.success, [2]) ∧
      siftPm4ParseRunlists (fun _ _ => 0#32) (unterminated ++ ['\n']) ≠
        siftPm4ParseRunlists (fun _ _ => 0#32) unterminated := by
  have counts : entryCounts (siftPm4ParseRunlists (fun _ _ => 0#32) unterminated) =
        some (.success, [1]) ∧
      entryCounts (siftPm4ParseRunlists (fun _ _ => 0#32) (unterminated ++ ['\n'])) =
        some (.success, [2]) := by
    decide +kernel
  obtain ⟨without, terminated⟩ := counts
  refine ⟨without, terminated, ?_⟩
  intro same
  rw [same, without] at terminated
  cases terminated

end Rocsift.Pm4
