import Rocsift.Pm4.Sections

/-! Which sections of a text the series function returns. It stops at the first section that
yields no entries, and reports an error only for a node line it cannot read. -/
namespace Rocsift.Pm4
open Sift (SiftStatus)

section
variable (past : List Dword → Nat → Dword)

def Item.entries : Item → Option (List RunlistEntry)
  | .overflow => none
  | .found _ data => entriesOf past data

def withData (is : List Item) : List Runlist :=
  is.filterMap fun
    | .overflow => none
    | .found node data => (entriesOf past data).map (⟨node, ·⟩)

def DataFirst (is : List Item) : Prop :=
  is.Pairwise fun i j => (j.entries past).isSome → (i.entries past).isSome

def Malformed : Item → Prop
  | .overflow => False
  | .found _ data => data ≠ [] ∧ (decode past data.flatten).status = .error

def OverflowFirst (is : List Item) : Prop :=
  ∃ pre post, is = pre ++ .overflow :: post ∧ ∀ i ∈ pre, (i.entries past).isSome

theorem withData_nil_iff (is : List Item) :
    withData past is = [] ↔ ∀ i ∈ is, i.entries past = none := by
  rw [withData, List.filterMap_eq_nil_iff]
  have same : ∀ i : Item, (match i with
      | .overflow => none
      | .found node data => (entriesOf past data).map (Runlist.mk node)) = none ↔
      i.entries past = none := by
    intro i
    cases i with
    | overflow => simp [Item.entries]
    | found n data => simp [Item.entries]
  exact ⟨fun h i hi => (same i).mp (h i hi), fun h i hi => (same i).mpr (h i hi)⟩

theorem dataFirst_cons_iff (i : Item) (is : List Item) : DataFirst past (i :: is) ↔
    if (i.entries past).isSome then DataFirst past is else withData past is = [] := by
  rw [DataFirst, List.pairwise_cons, withData_nil_iff]
  split
  · rename_i entries
    exact ⟨fun h => h.2, fun h => ⟨fun _ _ _ => entries, h⟩⟩
  · rename_i empty
    constructor
    · intro h j hj
      exact Option.not_isSome_iff_eq_none.mp fun some_j => empty (h.1 j hj some_j)
    · intro none
      refine ⟨fun j hj some_j => absurd (none j hj) (Option.isSome_iff_ne_none.mp some_j), ?_⟩
      refine List.pairwise_of_forall_mem_list fun j _ k hk some_k => ?_
      exact absurd (none k hk) (Option.isSome_iff_ne_none.mp some_k)

theorem runlistsOf_found (node : Node) (data : List (List Dword)) (is : List Item) :
    runlistsOf past (.found node data :: is) =
      match entriesOf past data with
      | none => (.success, [])
      | some entries =>
        match runlistsOf past is with
        | (.success, series) => (.success, ⟨node, entries⟩ :: series)
        | (status, _) => (status, []) := rfl

theorem runlistsOf_complete_iff {is : List Item} (fits : Item.overflow ∉ is) :
    runlistsOf past is = (.success, withData past is) ↔ DataFirst past is := by
  induction is with
  | nil => simp [runlistsOf, withData, DataFirst]
  | cons i is ih =>
    have rest := ih fun h => fits (List.mem_cons_of_mem i h)
    rw [dataFirst_cons_iff]
    cases i with
    | overflow => exact absurd List.mem_cons_self fits
    | found node data =>
      rw [runlistsOf_found]
      cases entries : entriesOf past data with
      | none =>
        have skip : withData past (.found node data :: is) = withData past is := by
          simp [withData, entries]
        simp only [skip, Item.entries, entries, Option.isSome_none, Bool.false_eq_true, if_false,
          Prod.mk.injEq, true_and]
        exact eq_comm
      | some es =>
        have keep : withData past (.found node data :: is) = ⟨node, es⟩ :: withData past is := by
          simp [withData, entries]
        simp only [keep, Item.entries, entries, Option.isSome_some, if_true, ← rest]
        split <;> simp_all

theorem overflowFirst_cons_iff (i : Item) (is : List Item) : OverflowFirst past (i :: is) ↔
    i = .overflow ∨ ((i.entries past).isSome ∧ OverflowFirst past is) := by
  constructor
  · rintro ⟨pre, post, split, before⟩
    cases pre with
    | nil => exact Or.inl (List.cons.inj split).1
    | cons j pre =>
      obtain ⟨rfl, rfl⟩ := List.cons.inj split
      exact Or.inr ⟨before i List.mem_cons_self, pre, post, rfl,
        fun k hk => before k (List.mem_cons_of_mem i hk)⟩
  · rintro (rfl | ⟨entries, pre, post, rfl, before⟩)
    · exact ⟨[], is, rfl, by simp⟩
    · refine ⟨i :: pre, post, rfl, fun k hk => ?_⟩
      rcases List.mem_cons.mp hk with rfl | hk
      · exact entries
      · exact before k hk

theorem runlistsOf_error_iff (is : List Item) :
    (runlistsOf past is).1 = .error ↔ OverflowFirst past is := by
  induction is with
  | nil => simp [runlistsOf, OverflowFirst]
  | cons i is ih =>
    rw [overflowFirst_cons_iff, ← ih]
    cases i with
    | overflow => simp [runlistsOf]
    | found node data =>
      rw [runlistsOf_found]
      cases entries : entriesOf past data with
      | none => simp [Item.entries, entries]
      | some es =>
        simp only [Item.entries, entries, Option.isSome_some, true_and, reduceCtorEq, false_or]
        split <;> simp_all

/-- On a text without an unreadable node line, the series has every section with well-formed
packets exactly when none of them stands behind a section without. -/
theorem series_complete_iff (text : List Char)
    (fits : Item.overflow ∉ items (TextLines.lines '\n' text)) :
    siftPm4ParseRunlists past text =
        some (.success, withData past (items (TextLines.lines '\n' text))) ↔
      DataFirst past (items (TextLines.lines '\n' text)) := by
  rw [siftPm4ParseRunlists_eq, Option.some.injEq]
  exact runlistsOf_complete_iff past fits

/-- A malformed section makes the status an error only where a node line that cannot be read
comes before the first section without entries. -/
theorem malformed_reported_iff (text : List Char) :
    ((∃ i ∈ items (TextLines.lines '\n' text), Malformed past i) →
      (siftPm4ParseRunlists past text).map Prod.fst = some .error) ↔
    (¬ ∃ i ∈ items (TextLines.lines '\n' text), Malformed past i) ∨
      OverflowFirst past (items (TextLines.lines '\n' text)) := by
  rw [siftPm4ParseRunlists_eq, Option.map_some, Option.some.injEq, runlistsOf_error_iff,
    imp_iff_not_or]

end

def idleThenBusy : List Char :=
  ("Node 1, gpu_id 1:\n  No active runlist\nNode 2, gpu_id 2:\n" ++
    "  00000000: c005a200 00000000 00000000 00000000 00000000 00000000 00000000\n").toList

theorem series_complete_idleThenBusy :
    siftPm4ParseRunlists (fun _ _ => 0#32) idleThenBusy =
        some (.success, withData (fun _ _ => 0#32)
          (items (TextLines.lines '\n' idleThenBusy))) ↔
      DataFirst (fun _ _ => 0#32) (items (TextLines.lines '\n' idleThenBusy)) :=
  series_complete_iff _ _ (by decide +kernel)

/-- The runlist behind the node without one is lost. -/
theorem idle_node_truncates :
    Item.overflow ∉ items (TextLines.lines '\n' idleThenBusy) ∧
      siftPm4ParseRunlists (fun _ _ => 0#32) idleThenBusy ≠
        some (.success, withData (fun _ _ => 0#32)
          (items (TextLines.lines '\n' idleThenBusy))) := by
  constructor <;> decide +kernel

def badHeader : List Char := "Node 1, gpu_id 1:\n  00000000: 00000000\n".toList

theorem malformed_dropped :
    ¬ ((∃ i ∈ items (TextLines.lines '\n' badHeader), Malformed (fun _ _ => 0#32) i) →
      (siftPm4ParseRunlists (fun _ _ => 0#32) badHeader).map Prod.fst = some .error) := by
  intro reported
  have member : Item.found ⟨1#32, 1#32⟩ [[0#32]] ∈ items (TextLines.lines '\n' badHeader) := by
    decide +kernel
  have status := reported ⟨_, member, by decide, by decide +kernel⟩
  exact absurd status (by decide +kernel)

end Rocsift.Pm4
