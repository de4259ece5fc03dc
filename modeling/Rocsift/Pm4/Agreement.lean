import Rocsift.Pm4.NodeIds
import Rocsift.Pm4.Series

/-! The two ways to read a node's runlist: picked out of the series of all of them, or searched for
by itself. The search sees every section, the series only those before the first one that it stops
at. -/
namespace Rocsift.Pm4
open Sift (SiftStatus)

def pick (node : Node) (series : List Runlist) : Option Runlist :=
  series.find? fun r => r.node = node

/-- Where a series names the node, the search returns the same runlist; where it does not, the
search finds none, if no section of the text is without entries. -/
structure SearchAgrees (past : List Dword → Nat → Dword) (text : List Char)
    (series : List Runlist) (node : Node) : Prop where
  named : ∀ r, pick node series = some r →
    siftPm4ParseRunlist past node.node_id node.gpu_id text = some (.success, some r)
  unnamed : (∀ i ∈ items (TextLines.lines '\n' text), (i.entries past).isSome) →
    pick node series = none →
      siftPm4ParseRunlist past node.node_id node.gpu_id text = some (.error, none)

section
variable {past : List Dword → Nat → Dword} {node : Node} {series : List Runlist}

theorem pick_cons (r : Runlist) :
    pick node (r :: series) = if r.node = node then some r else pick node series := by
  rw [pick, List.find?_cons]
  by_cases same : r.node = node <;> simp [same, pick]

theorem runlistsOf_success {n : Node} {data : List (List Dword)} {is : List Item}
    {entries : List RunlistEntry} (decoded : entriesOf past data = some entries)
    (h : runlistsOf past (.found n data :: is) = (.success, series)) :
    ∃ rest, runlistsOf past is = (.success, rest) ∧ series = ⟨n, entries⟩ :: rest := by
  rw [runlistsOf_found] at h
  simp only [decoded] at h
  generalize runlistsOf past is = parsed at h ⊢
  obtain ⟨status, rest⟩ := parsed
  by_cases ok : status = .success
  · subst ok
    cases h
    exact ⟨rest, rfl, rfl⟩
  · split at h
    · rename_i same
      exact absurd (congrArg Prod.fst same) ok
    · rename_i same
      cases same
      cases h
      exact absurd rfl ok

theorem pick_search {is : List Item} (h : runlistsOf past is = (.success, series)) {r : Runlist}
    (picked : pick node series = some r) : runlistOf past node is = (.success, some r) := by
  induction is generalizing series with
  | nil =>
    cases h
    cases picked
  | cons i is ih =>
    cases i with
    | overflow => cases h
    | found n data =>
      cases decoded : entriesOf past data with
      | none =>
        rw [runlistsOf_found] at h
        simp only [decoded] at h
        cases h
        cases picked
      | some entries =>
        obtain ⟨rest, parsed, rfl⟩ := runlistsOf_success decoded h
        rw [pick_cons] at picked
        by_cases same : n = node
        · subst same
          rw [if_pos rfl] at picked
          cases picked
          rw [runlistOf_own, decoded]
        · rw [if_neg same] at picked
          rw [runlistOf_foreign past node same]
          exact ih parsed picked

theorem unpicked_search {is : List Item} (all : ∀ i ∈ is, (i.entries past).isSome)
    (h : runlistsOf past is = (.success, series)) (unpicked : pick node series = none) :
    runlistOf past node is = (.error, none) := by
  induction is generalizing series with
  | nil => rfl
  | cons i is ih =>
    obtain ⟨here, later⟩ := List.forall_mem_cons.mp all
    cases i with
    | overflow => cases here
    | found n data =>
      obtain ⟨entries, decoded⟩ := Option.isSome_iff_exists.mp here
      obtain ⟨rest, parsed, rfl⟩ := runlistsOf_success decoded h
      rw [pick_cons] at unpicked
      by_cases same : n = node
      · rw [if_pos same] at unpicked
        cases unpicked
      · rw [if_neg same] at unpicked
        rw [runlistOf_foreign past node same]
        exact ih later parsed unpicked

end

/-- Whenever the series function succeeds, the search for a node agrees with what it returned. -/
theorem search_agrees (past : List Dword → Nat → Dword) (text : List Char)
    (series : List Runlist) (parsed : siftPm4ParseRunlists past text = some (.success, series))
    (node : Node) : SearchAgrees past text series node := by
  rw [siftPm4ParseRunlists_eq, Option.some.injEq] at parsed
  constructor
  · intro r picked
    rw [siftPm4ParseRunlist_eq, pick_search parsed picked]
  · intro all unpicked
    rw [siftPm4ParseRunlist_eq, unpicked_search all parsed unpicked]

def twoBusy : List Char :=
  ("Node 1, gpu_id 1:\n" ++
    "  00000000: c005a200 00000000 00000000 00000000 00000000 00000000 00000000\n" ++
    "Node 2, gpu_id 2:\n" ++
    "  00000000: c005a200 00000000 00000001 00000000 00000000 00000000 00000000\n").toList

def twoBusyItems : List Item :=
  [.found ⟨1#32, 1#32⟩ [[0xc005a200#32, 0#32, 0#32, 0#32, 0#32, 0#32, 0#32]],
    .found ⟨2#32, 2#32⟩ [[0xc005a200#32, 0#32, 1#32, 0#32, 0#32, 0#32, 0#32]]]

theorem search_agrees_twoBusy : ∃ series,
    (SearchAgrees (fun _ _ => 0#32) twoBusy series ⟨2#32, 2#32⟩ ∧
      (pick ⟨2#32, 2#32⟩ series).isSome) ∧
    SearchAgrees (fun _ _ => 0#32) twoBusy series ⟨3#32, 3#32⟩ ∧
      (∀ i ∈ items (TextLines.lines '\n' twoBusy), (i.entries fun _ _ => 0#32).isSome) ∧
      pick ⟨3#32, 3#32⟩ series = none := by
  have sections : items (TextLines.lines '\n' twoBusy) = twoBusyItems := by decide +kernel
  have parsed : siftPm4ParseRunlists (fun _ _ => 0#32) twoBusy =
      some (.success, (runlistsOf (fun _ _ => 0#32) twoBusyItems).2) := by
    rw [siftPm4ParseRunlists_eq, sections]
    decide +kernel
  refine ⟨_, ⟨search_agrees _ _ _ parsed _, ?_⟩, search_agrees _ _ _ parsed _, ?_, ?_⟩
  · decide +kernel
  · rw [sections]
    decide +kernel
  · decide +kernel

end Rocsift.Pm4
