import Mathlib.Data.List.Induction
import Rocsift.Pm4.Parser
import Rocsift.Xlator.Entry

/-! The page-table base of a process, looked up by its pasid in the runlists of all GPUs. The
search for the runlist of one GPU keeps the last runlist it has visited in the variable that is
meant for the one it finds. -/
namespace Rocsift.Xlator
open Pm4 Sift

/-- The `while` loop over the series: `rls` is set before it is compared. -/
def findRunlist (gpuid : BitVec 32) : Option Runlist → List Runlist → Option Runlist
  | rls, [] => rls
  | _, rls :: series =>
    if rls.node.gpu_id = gpuid then some rls else findRunlist gpuid (some rls) series

/-- The body of an entry that the loop over the entries does not skip. The opcode selects the
member of the union, so a body of the other kind does not occur behind the checks. -/
def processOf (pasid : BitVec 32) (e : RunlistEntry) : Option BodyMapProcess :=
  if e.header.type ≠ .type3 then none
  else if e.header.opcode ≠ opMapProcess then none
  else
    match e.body with
    | .mapQueues _ => none
    | .mapProcess b => if b.pasid ≠ pasid then none else some b

def findEntry (pasid : BitVec 32) (entries : List RunlistEntry) : Option BodyMapProcess :=
  entries.foldl (fun ent e => (processOf pasid e).or ent) none

/-- What `sift_kfd_node_get_gpuid` and `sift_kfd_get_runlists` give comes with their status; `none`
is a status other than 0. The series is destroyed on the way out. -/
def siftXlatorPtBaseFromPasid (gpuid : SiftStatus × BitVec 32)
    (runlists : SiftStatus × List Runlist) (pasid : BitVec 32) : Option (BitVec 64) :=
  if gpuid.1 ≠ .success then none
  else if runlists.1 ≠ .success then none
  else
    match findRunlist gpuid.2 none runlists.2 with
    | none => none
    | some rls =>
      match findEntry pasid rls.entries with
      | none => none
      | some ent =>
        some (word ent.vm_context_page_table_base_addr_hi32
          ent.vm_context_page_table_base_addr_lo32)

def MapsProcess (rls : Runlist) (pasid : BitVec 32) (b : BodyMapProcess) : Prop :=
  b.pasid = pasid ∧ ∃ e ∈ rls.entries,
    e.header.type = .type3 ∧ e.header.opcode = opMapProcess ∧ e.body = .mapProcess b

def pageTableBase (b : BodyMapProcess) : Nat :=
  b.vm_context_page_table_base_addr_hi32.toNat * 2 ^ 32 +
    b.vm_context_page_table_base_addr_lo32.toNat

structure BaseBelongs (gpuid pasid : BitVec 32) (series : List Runlist)
    (result : Option (BitVec 64)) : Prop where
  found : ∀ base, result = some base →
    ∃ rls ∈ series, rls.node.gpu_id = gpuid ∧
      ∃ b, MapsProcess rls pasid b ∧ base.toNat = pageTableBase b
  missing : (∀ rls ∈ series, rls.node.gpu_id = gpuid → ∀ b, ¬MapsProcess rls pasid b) →
    result = none

theorem findRunlist_hit {gpuid : BitVec 32} {series : List Runlist} (rls : Option Runlist)
    (hit : ∃ r ∈ series, r.node.gpu_id = gpuid) :
    ∃ r ∈ series, findRunlist gpuid rls series = some r ∧ r.node.gpu_id = gpuid := by
  induction series generalizing rls with
  | nil =>
    obtain ⟨r, none, -⟩ := hit
    cases none
  | cons s series ih =>
    unfold findRunlist
    split
    · rename_i same
      exact ⟨s, List.mem_cons_self, rfl, same⟩
    · rename_i other
      have later : ∃ r ∈ series, r.node.gpu_id = gpuid := by
        obtain ⟨r, hr, same⟩ := hit
        rcases List.mem_cons.mp hr with rfl | hr
        · exact absurd same other
        · exact ⟨r, hr, same⟩
      obtain ⟨r, hr, found⟩ := ih (some s) later
      exact ⟨r, List.mem_cons_of_mem s hr, found⟩

theorem findRunlist_miss {gpuid : BitVec 32} {series : List Runlist} (rls : Option Runlist)
    (miss : ¬∃ r ∈ series, r.node.gpu_id = gpuid) :
    findRunlist gpuid rls series = series.getLast?.or rls := by
  induction series generalizing rls with
  | nil => rfl
  | cons s series ih =>
    have other : s.node.gpu_id ≠ gpuid := fun same => miss ⟨s, List.mem_cons_self, same⟩
    have rest := ih (some s) fun ⟨r, hr, same⟩ => miss ⟨r, List.mem_cons_of_mem s hr, same⟩
    simp only [findRunlist, if_neg other, rest]
    cases series with
    | nil => rfl
    | cons t series => simp [List.getLast?_cons]

theorem processOf_some_iff {pasid : BitVec 32} {e : RunlistEntry} {b : BodyMapProcess} :
    processOf pasid e = some b ↔
      b.pasid = pasid ∧ e.header.type = .type3 ∧ e.header.opcode = opMapProcess ∧
        e.body = .mapProcess b := by
  obtain ⟨header, body⟩ := e
  by_cases type : header.type = .type3
  · by_cases opcode : header.opcode = opMapProcess
    · cases body with
      | mapQueues q => simp [processOf, type, opcode]
      | mapProcess b' =>
        simp only [processOf, type, opcode, ne_eq, not_true, if_false, Body.mapProcess.injEq,
          true_and]
        split
        · rename_i other
          constructor
          · intro none
            cases none
          · rintro ⟨same, rfl⟩
            exact absurd same other
        · rename_i same
          simp only [Option.some.injEq]
          exact ⟨fun eq => ⟨eq ▸ not_not.mp same, eq⟩, And.right⟩
    · simp [processOf, type, opcode]
  · simp [processOf, type]

theorem mapsProcess_iff {rls : Runlist} {pasid : BitVec 32} {b : BodyMapProcess} :
    MapsProcess rls pasid b ↔ ∃ e ∈ rls.entries, processOf pasid e = some b := by
  simp only [MapsProcess, processOf_some_iff]
  constructor
  · rintro ⟨same, e, he, matched⟩
    exact ⟨e, he, same, matched⟩
  · rintro ⟨e, he, same, matched⟩
    exact ⟨same, e, he, matched⟩

theorem findEntry_snoc (pasid : BitVec 32) (entries : List RunlistEntry) (e : RunlistEntry) :
    findEntry pasid (entries ++ [e]) = (processOf pasid e).or (findEntry pasid entries) := by
  simp only [findEntry, List.foldl_append, List.foldl_cons, List.foldl_nil]

theorem findEntry_some {pasid : BitVec 32} {entries : List RunlistEntry} {b : BodyMapProcess}
    (found : findEntry pasid entries = some b) : ∃ e ∈ entries, processOf pasid e = some b := by
  induction entries using List.reverseRecOn with
  | nil => cases found
  | append_singleton entries e ih =>
    rw [findEntry_snoc, Option.or_eq_some_iff] at found
    rcases found with here | ⟨-, earlier⟩
    · exact ⟨e, by simp, here⟩
    · obtain ⟨e', he', matched⟩ := ih earlier
      exact ⟨e', List.mem_append_left _ he', matched⟩

theorem findEntry_none {pasid : BitVec 32} {entries : List RunlistEntry}
    (missing : findEntry pasid entries = none) : ∀ e ∈ entries, processOf pasid e = none := by
  induction entries using List.reverseRecOn with
  | nil => exact fun _ none => nomatch none
  | append_singleton entries e ih =>
    rw [findEntry_snoc, Option.or_eq_none_iff] at missing
    intro e' he'
    rcases List.mem_append.mp he' with he' | he'
    · exact ih missing.2 e' he'
    · exact List.mem_singleton.mp he' ▸ missing.1

theorem findEntry_cases (pasid : BitVec 32) (rls : Runlist) :
    (∃ b, findEntry pasid rls.entries = some b ∧ MapsProcess rls pasid b) ∨
      (findEntry pasid rls.entries = none ∧ ∀ b, ¬MapsProcess rls pasid b) := by
  cases entry : findEntry pasid rls.entries with
  | some b => exact Or.inl ⟨b, rfl, mapsProcess_iff.mpr (findEntry_some entry)⟩
  | none =>
    refine Or.inr ⟨rfl, fun b maps => ?_⟩
    obtain ⟨e, he, matched⟩ := mapsProcess_iff.mp maps
    rw [findEntry_none entry e he] at matched
    cases matched

/-- The lookup is right exactly when the GPU has a runlist, or the last runlist of the series does
not map the process either. -/
theorem base_belongs_iff (gpuid pasid : BitVec 32) (series : List Runlist) :
    BaseBelongs gpuid pasid series
        (siftXlatorPtBaseFromPasid (.success, gpuid) (.success, series) pasid) ↔
      (∃ rls ∈ series, rls.node.gpu_id = gpuid) ∨
        ∀ rls ∈ series.getLast?, ∀ b, ¬MapsProcess rls pasid b := by
  have steps : siftXlatorPtBaseFromPasid (.success, gpuid) (.success, series) pasid =
      ((findRunlist gpuid none series).bind fun rls => findEntry pasid rls.entries).map fun ent =>
        word ent.vm_context_page_table_base_addr_hi32 ent.vm_context_page_table_base_addr_lo32 := by
    simp only [siftXlatorPtBaseFromPasid, ne_eq, not_true, if_false]
    cases findRunlist gpuid none series with
    | none => rfl
    | some rls => cases entry : findEntry pasid rls.entries <;> simp [entry]
  rw [steps]
  by_cases hit : ∃ rls ∈ series, rls.node.gpu_id = gpuid
  · obtain ⟨rls, member, search, same⟩ := findRunlist_hit none hit
    simp only [search, Option.bind_some, hit, true_or, iff_true]
    rcases findEntry_cases pasid rls with ⟨b, entry, maps⟩ | ⟨entry, -⟩
    · rw [entry]
      refine ⟨?_, fun missing => absurd maps (missing rls member same b)⟩
      rintro base ⟨⟩
      exact ⟨rls, member, same, b, maps, word_toNat _ _⟩
    · rw [entry]
      exact ⟨by simp, fun _ => rfl⟩
  · have none_of : ∀ rls ∈ series, rls.node.gpu_id = gpuid → ∀ b, ¬MapsProcess rls pasid b :=
      fun rls member same => absurd ⟨rls, member, same⟩ hit
    simp only [findRunlist_miss none hit, Option.or_none, hit, false_or]
    cases series.getLast? with
    | none => exact iff_of_true ⟨by simp, fun _ => rfl⟩ (by simp)
    | some last =>
      simp only [Option.bind_some, Option.mem_some_iff, forall_eq']
      rcases findEntry_cases pasid last with ⟨b, entry, maps⟩ | ⟨entry, unmapped⟩
      · rw [entry]
        refine iff_of_false (fun belongs => ?_) fun unmapped => unmapped b maps
        cases belongs.missing none_of
      · rw [entry]
        exact iff_of_true ⟨by simp, fun _ => rfl⟩ unmapped

def processBody (pasid hi lo : Dword) : BodyMapProcess :=
  (parseBodyMapProcess ⟨0, 20⟩).value (memory [pasid, lo, hi] fun _ => 0#32)

theorem other_gpu_found :
    ¬BaseBelongs 2#32 0x8000#32
      [⟨⟨1#32, 1#32⟩, [⟨⟨opMapProcess, 20#16, .type3⟩,
        .mapProcess (processBody 0x8000#32 1#32 0x41875003#32)⟩]⟩]
      (siftXlatorPtBaseFromPasid (.success, 2#32)
        (.success, [⟨⟨1#32, 1#32⟩, [⟨⟨opMapProcess, 20#16, .type3⟩,
          .mapProcess (processBody 0x8000#32 1#32 0x41875003#32)⟩]⟩]) 0x8000#32) := by
  intro belongs
  obtain ⟨rls, member, same, -⟩ := belongs.found 0x141875003#64 (by decide +kernel)
  obtain rfl := List.mem_singleton.mp member
  exact absurd same (by decide)

end Rocsift.Xlator
