import Mathlib.Data.List.Chain
import Rocsift.Xlator.Contiguous

/-! Combining contiguous pages. The overlap check meets the last fragment, which is one page or a
run of joined pages, so combining is stricter: it also refuses a page that shares memory with an
earlier page of the run. What it accepts stands for the same map. -/
namespace Rocsift.Xlator
open Looping

def InOrder (ps : List Fragment) : Prop := ps.IsChain fun f g => f.va + f.size ≤ g.va

/-- No page after `last` is related to a page of the run that it follows. The pages of the run that
ends with `last` are `before`. -/
def RunApart (R : Fragment → Fragment → Prop) (last : Fragment) (before : List Fragment) :
    List Fragment → Prop
  | [] => True
  | p :: ps =>
    (∀ q ∈ last :: before, ¬R q p) ∧
      if isContiguous last p = some true then RunApart R p (last :: before) ps
      else RunApart R p [] ps

def RunsApart (R : Fragment → Fragment → Prop) : List Fragment → Prop
  | [] => True
  | p :: ps => RunApart R p [] ps

def Clear (last : Fragment) (before : List Fragment) : List Fragment → Prop
  | [] => True
  | p :: ps =>
    last.va + last.size ≤ p.va ∧ (∀ q ∈ last :: before, ¬Aliased q p) ∧
      if isContiguous last p = some true then Clear p (last :: before) ps else Clear p [] ps

def ClearAll : List Fragment → Prop
  | [] => True
  | p :: ps => Clear p [] ps

theorem clear_iff (last : Fragment) (before ps : List Fragment) :
    Clear last before ps ↔ InOrder (last :: ps) ∧ RunApart Aliased last before ps := by
  induction ps generalizing last before with
  | nil => exact iff_of_true trivial ⟨.singleton last, trivial⟩
  | cons p ps ih =>
    unfold Clear RunApart InOrder
    rw [List.isChain_cons_cons]
    split
    · rw [ih]
      unfold InOrder
      tauto
    · rw [ih]
      unfold InOrder
      tauto

theorem clearAll_iff (ps : List Fragment) : ClearAll ps ↔ InOrder ps ∧ RunsApart Aliased ps := by
  cases ps with
  | nil => exact iff_of_true trivial ⟨.nil, trivial⟩
  | cons p ps => exact clear_iff p [] ps

theorem RunApart.mono {R S : Fragment → Fragment → Prop} (weaker : ∀ f g, S f g → R f g)
    {last : Fragment} {before ps : List Fragment} (apart : RunApart R last before ps) :
    RunApart S last before ps := by
  induction ps generalizing last before with
  | nil => trivial
  | cons p ps ih =>
    obtain ⟨here, later⟩ := apart
    refine ⟨fun q member related => here q member (weaker q p related), ?_⟩
    split
    · rename_i contiguous
      rw [if_pos contiguous] at later
      exact ih later
    · rename_i separate
      rw [if_neg separate] at later
      exact ih later

theorem RunsApart.mono {R S : Fragment → Fragment → Prop} (weaker : ∀ f g, S f g → R f g)
    {ps : List Fragment} (apart : RunsApart R ps) : RunsApart S ps := by
  cases ps with
  | nil => trivial
  | cons p ps => exact RunApart.mono weaker apart

section
variable {f g : Fragment}

theorem place_overlap (combine : Bool) (overlaps : fragmentsOverlap f g = true) :
    place combine f g = .overlap :=
  if_pos overlaps

theorem place_separate (apart : fragmentsOverlap f g = false) :
    place false f g = .separate := by
  rw [place, apart]
  rfl

theorem place_combined (apart : fragmentsOverlap f g = false) :
    place true f g =
      match isContiguous f g with
      | none => .exit
      | some true => .joined
      | some false => .separate := by
  rw [place, apart]
  rfl

theorem place_joined {combine : Bool} (placed : place combine f g = .joined) :
    isContiguous f g = some true := by
  cases overlaps : fragmentsOverlap f g with
  | true =>
    rw [place_overlap combine overlaps] at placed
    cases placed
  | false =>
    cases combine with
    | false =>
      rw [place_separate overlaps] at placed
      cases placed
    | true =>
      rw [place_combined overlaps] at placed
      split at placed
      · cases placed
      · assumption
      · cases placed

theorem place_exit_iff :
    place true f g = .exit ↔ g.va < f.va + f.size ∧ fragmentsOverlap f g = false := by
  rw [← isContiguous_none_iff]
  cases overlaps : fragmentsOverlap f g with
  | true =>
    rw [place_overlap true overlaps]
    exact iff_of_false nofun fun h => nomatch h.2
  | false =>
    rw [place_combined overlaps, eq_self_iff_true, and_true]
    split <;> simp_all only [reduceCtorEq]

end

theorem assemble_separate_iff (prev : Fragment) (ps gs : List Fragment) :
    assemble false prev ps = some gs ↔
      gs = prev :: ps ∧ (prev :: ps).IsChain fun f g => fragmentsOverlap f g = false := by
  induction ps generalizing prev gs with
  | nil => simp only [assemble, Option.some.injEq, List.isChain_singleton, and_true, eq_comm]
  | cons p ps ih =>
    rw [assemble, List.isChain_cons_cons]
    cases overlaps : fragmentsOverlap prev p with
    | true =>
      rw [place_overlap false overlaps]
      exact iff_of_false (fun none => Option.some_ne_none gs none.symm)
        fun h => Bool.noConfusion h.2.1
    | false =>
      rw [place_separate overlaps]
      simp only [Option.map_eq_some_iff, ih, true_and]
      constructor
      · rintro ⟨hs, ⟨rfl, apart⟩, rfl⟩
        exact ⟨rfl, apart⟩
      · rintro ⟨rfl, apart⟩
        exact ⟨_, ⟨rfl, apart⟩, rfl⟩

inductive Combined : Fragment → List Fragment → List Fragment → Prop
  | last (run : Fragment) : Combined run [] [run]
  | join {run p : Fragment} {ps fs : List Fragment} (apart : fragmentsOverlap run p = false)
      (contiguous : isContiguous run p = some true)
      (rest : Combined { run with size := run.size + p.size } ps fs) : Combined run (p :: ps) fs
  | next {run p : Fragment} {ps fs : List Fragment} (apart : fragmentsOverlap run p = false)
      (separate : isContiguous run p = some false) (rest : Combined p ps fs) :
      Combined run (p :: ps) (run :: fs)

theorem assemble_combined_iff (run : Fragment) (ps fs : List Fragment) :
    assemble true run ps = some fs ↔ Combined run ps fs := by
  constructor
  · intro made
    induction ps generalizing run fs with
    | nil =>
      cases made
      exact .last run
    | cons p ps ih =>
      unfold assemble at made
      cases overlaps : fragmentsOverlap run p with
      | true =>
        rw [place_overlap true overlaps] at made
        cases made
      | false =>
        rw [place_combined overlaps] at made
        cases contiguous : isContiguous run p with
        | none =>
          rw [contiguous] at made
          cases made
        | some joined =>
          cases joined with
          | true =>
            rw [contiguous] at made
            exact .join overlaps contiguous (ih _ _ made)
          | false =>
            simp only [contiguous, Option.map_eq_some_iff] at made
            obtain ⟨fs, rest, rfl⟩ := made
            exact .next overlaps contiguous (ih _ _ rest)
  · intro combined
    induction combined with
    | last run => rfl
    | join apart contiguous _ ih =>
      rw [assemble, place_combined apart, contiguous]
      exact ih
    | next apart separate _ ih =>
      rw [assemble, place_combined apart, separate]
      exact congrArg (Option.map _) ih

theorem Combined.clear {run last : Fragment} {before ps fs : List Fragment}
    (combined : Combined run ps fs) (made : Run run last before)
    (laid : Laid (last.va + last.size) ps) : Clear last before ps := by
  induction combined generalizing last before with
  | last run => trivial
  | join apart contiguous _ ih =>
    obtain ⟨⟨page, le⟩, laid⟩ := laid
    obtain ⟨start, clear⟩ := made.accepted page le apart (contiguous ▸ Option.some_ne_none _)
    rw [Clear, if_pos ((made.contiguous_iff _).mp contiguous)]
    exact ⟨start, clear, ih (made.join page contiguous) laid⟩
  | next apart separate _ ih =>
    obtain ⟨⟨page, le⟩, laid⟩ := laid
    obtain ⟨start, clear⟩ := made.accepted page le apart (separate ▸ Option.some_ne_none _)
    rw [Clear, if_neg (made.not_contiguous separate)]
    exact ⟨start, clear, ih (Run.single page) laid⟩

theorem Clear.combined {run last : Fragment} {before ps : List Fragment}
    (clear : Clear last before ps) (made : Run run last before)
    (laid : Laid (last.va + last.size) ps) : ∃ fs, Combined run ps fs := by
  induction ps generalizing run last before with
  | nil => exact ⟨_, .last run⟩
  | cons p ps ih =>
    obtain ⟨⟨page, le⟩, laid⟩ := laid
    obtain ⟨start, clear, rest⟩ := clear
    have next : run.va + run.size = p.va := made.end_va.trans (BitVec.le_antisymm start le)
    have apart : fragmentsOverlap run p = false := by
      rw [← Bool.not_eq_true, made.overlap_iff page next]
      rintro ⟨q, member, shared⟩
      exact clear q member shared
    cases contiguous : isContiguous run p with
    | none =>
      rw [isContiguous_none_iff, next] at contiguous
      exact absurd contiguous (BitVec.lt_irrefl _)
    | some joined =>
      cases joined with
      | true =>
        rw [if_pos ((made.contiguous_iff p).mp contiguous)] at rest
        obtain ⟨fs, combined⟩ := ih rest (made.join page contiguous) laid
        exact ⟨fs, .join apart contiguous combined⟩
      | false =>
        rw [if_neg (made.not_contiguous contiguous)] at rest
        obtain ⟨fs, combined⟩ := ih rest (Run.single page) laid
        exact ⟨run :: fs, .next apart contiguous combined⟩

theorem clear_apart {last : Fragment} {before ps : List Fragment} (page : IsPage last)
    (laid : Laid (last.va + last.size) ps) (clear : Clear last before ps) :
    (last :: ps).IsChain fun f g => fragmentsOverlap f g = false := by
  induction ps generalizing last before with
  | nil => exact .singleton last
  | cons p ps ih =>
    obtain ⟨⟨next, le⟩, laid⟩ := laid
    obtain ⟨start, apart, rest⟩ := clear
    refine List.isChain_cons_cons.mpr ⟨?_, ?_⟩
    · rw [← Bool.not_eq_true, (Run.single page).overlap_iff next (BitVec.le_antisymm start le)]
      rintro ⟨q, member, shared⟩
      exact apart q (List.mem_singleton.mp member ▸ List.mem_cons_self) shared
    · split at rest
      · exact ih next laid rest
      · exact ih next laid rest

/-- The combined list stands for the same map as its pages, unless invalid pages wrap around the
address space. -/
theorem Combined.lookup {run last : Fragment} {before ps fs : List Fragment}
    (combined : Combined run ps fs) (made : Run run last before)
    (laid : Laid (last.va + last.size) ps) (bytes : invalidBytes (run :: ps) < 2 ^ 64)
    (v : BitVec 64) : Xlator.lookup fs v = Xlator.lookup (run :: ps) v := by
  induction combined generalizing last before with
  | last run => rfl
  | join _ contiguous _ ih =>
    obtain ⟨⟨page, -⟩, laid⟩ := laid
    obtain ⟨fits, bytes⟩ := made.fits page contiguous bytes
    rw [ih (made.join page contiguous) laid bytes, lookup_join contiguous fits]
  | @next run p ps fs _ _ _ ih =>
    obtain ⟨⟨page, -⟩, laid⟩ := laid
    have less : invalidBytes (p :: ps) < 2 ^ 64 := by
      simp only [invalidBytes, List.map_cons, List.sum_cons] at bytes ⊢
      omega
    rw [lookup_cons, lookup_cons, ih (Run.single page) laid less]

theorem assembleAll_combined_iff {addr : BitVec 64} {ps : List Fragment} (laid : Laid addr ps) :
    (∃ fs, assembleAll true ps = some fs) ↔ ClearAll ps := by
  cases ps with
  | nil => exact iff_of_true ⟨_, rfl⟩ trivial
  | cons p ps =>
    have made := Run.single laid.1.1
    simp only [assembleAll, assemble_combined_iff]
    exact ⟨fun ⟨_, combined⟩ => combined.clear made laid.2, fun clear => clear.combined made laid.2⟩

theorem assembleAll_separate {addr : BitVec 64} {ps : List Fragment} (laid : Laid addr ps)
    (clear : ClearAll ps) : ∃ gs, assembleAll false ps = some gs := by
  cases ps with
  | nil => exact ⟨_, rfl⟩
  | cons p ps =>
    exact ⟨p :: ps, (assemble_separate_iff p ps _).mpr ⟨rfl, clear_apart laid.1.1 laid.2 clear⟩⟩

theorem walked_of_listed {mem : Memory} {r : Registers} {va size : BitVec 64}
    {gs : List Fragment} (listed : siftXlatorTranslateRange mem r va size false (.list gs))
    (real : gs ≠ [Fragment.cleared]) :
    Walked mem (populateWalkHelper r) va ⟨PdeCache.cleared, va, size⟩ gs := by
  obtain ⟨ps, walked, made⟩ := (translateRange_list_iff ..).mp listed
  cases ps with
  | nil => exact absurd (Option.some.inj made).symm real
  | cons p ps => exact ((assemble_separate_iff p ps gs).mp made).1 ▸ walked

theorem assembleAll_lookup {addr : BitVec 64} {ps fs gs : List Fragment} (laid : Laid addr ps)
    (combined : assembleAll true ps = some fs) (separate : assembleAll false ps = some gs)
    (fits : invalidBytes gs < 2 ^ 64) (v : BitVec 64) : lookup fs v = lookup gs v := by
  cases ps with
  | nil =>
    cases combined
    cases separate
    rfl
  | cons p ps =>
    obtain ⟨rfl, -⟩ := (assemble_separate_iff p ps gs).mp separate
    exact ((assemble_combined_iff ..).mp combined).lookup (Run.single laid.1.1) laid.2 fits v

theorem separate_clear {ps gs : List Fragment} (separate : assembleAll false ps = some gs) :
    ClearAll gs ↔ ClearAll ps := by
  cases ps with
  | nil =>
    cases separate
    exact Iff.rfl
  | cons p ps => rw [((assemble_separate_iff p ps gs).mp separate).1]

/-- Where combining gives a list, so does the plain translation, both stand for the same map, and no
page shares memory with the run that it follows. Where the plain translation gives its pages,
combining gives a list if they are in order and their physical numbers are apart in each run. -/
theorem combining_refines (mem : Memory) (r : Registers) (va size : BitVec 64) :
    (∀ fs, siftXlatorTranslateRange mem r va size true (.list fs) →
      ∃ gs, siftXlatorTranslateRange mem r va size false (.list gs) ∧ RunsApart SharesMemory gs ∧
        (invalidBytes gs < 2 ^ 64 → ∀ v, lookup fs v = lookup gs v)) ∧
    ∀ gs, siftXlatorTranslateRange mem r va size false (.list gs) → InOrder gs →
      RunsApart Aliased gs → ∃ fs, siftXlatorTranslateRange mem r va size true (.list fs) := by
  simp only [translateRange_list_iff]
  constructor
  · rintro fs ⟨ps, walked, combined⟩
    have laid := walked_laid walked
    have clear := (assembleAll_combined_iff laid).mp ⟨fs, combined⟩
    obtain ⟨gs, separate⟩ := assembleAll_separate laid clear
    have apart := ((clearAll_iff gs).mp ((separate_clear separate).mpr clear)).2
    exact ⟨gs, ⟨ps, walked, separate⟩, apart.mono fun _ _ shared => shared.2,
      assembleAll_lookup laid combined separate⟩
  · rintro gs ⟨ps, walked, separate⟩ order apart
    have clear := (separate_clear separate).mp ((clearAll_iff gs).mpr ⟨order, apart⟩)
    obtain ⟨fs, combined⟩ := (assembleAll_combined_iff (walked_laid walked)).mpr clear
    exact ⟨fs, ps, walked, combined⟩

/-- Three pages of which the third maps the memory of the first: combining refuses what the plain
translation accepts. -/
theorem aliased_page_refused :
    let mem := systemMemory
      [(0x5000#64, 0x6003#64), (0x6008#64, 0x9003#64), (0x6010#64, 0xa003#64),
        (0x6018#64, 0x9003#64)]
    let r := oneDirectory 0x5003#32
    let gs := [smallPage 0x1000#64 0x9003#64, smallPage 0x2000#64 0xa003#64,
      smallPage 0x3000#64 0x9003#64]
    siftXlatorTranslateRange mem r 0x1000#64 0x3000#64 false (.list gs) ∧
      ¬∃ fs, siftXlatorTranslateRange mem r 0x1000#64 0x3000#64 true (.list fs) := by
  intro mem r gs
  have failed : siftXlatorTranslateRange mem r 0x1000#64 0x3000#64 true .failed :=
    ⟨4, by decide +kernel⟩
  refine ⟨⟨4, by decide +kernel⟩, ?_⟩
  rintro ⟨fs, listed⟩
  cases failed.unique listed

end Rocsift.Xlator
