import Rocsift.Xlator.Combine

/-! The combined list as the pages in blocks: each fragment is a run of pages that the test of
`is_contiguous` lets join, one after the other, and no two fragments in a row join. -/
namespace Rocsift.Xlator

def totalSize : List Fragment → BitVec 64
  | [] => 0#64
  | f :: fs => f.size + totalSize fs

def accumulated (first : Fragment) (rest : List Fragment) : Fragment :=
  { first with size := totalSize (first :: rest) }

/-- Pages in a row, each contiguous with the run of the pages before it. -/
structure Block where
  first : Fragment
  rest : List Fragment
  contiguous : ∀ before q after, rest = before ++ q :: after →
    isContiguous (accumulated first before) q = some true

def Block.pages (b : Block) : List Fragment := b.first :: b.rest

def Block.fragment (b : Block) : Fragment := accumulated b.first b.rest

def Block.single (p : Fragment) : Block where
  first := p
  rest := []
  contiguous := fun _ _ _ split => absurd split.symm (List.append_ne_nil_of_right_ne_nil _ nofun)

def Block.extend (b : Block) (p : Fragment) (joins : isContiguous b.fragment p = some true) :
    Block where
  first := b.first
  rest := b.rest ++ [p]
  contiguous := by
    intro before q after split
    rcases after.eq_nil_or_concat with rfl | ⟨after, last, rfl⟩
    · obtain ⟨rfl, same⟩ := List.append_inj' split rfl
      cases same
      exact joins
    · have regroup : b.rest ++ [p] = (before ++ q :: after) ++ [last] := by
        simp only [split, List.concat_eq_append, List.append_assoc, List.cons_append]
      exact b.contiguous before q after (List.append_inj' regroup rfl).1

/-- The pages in blocks, a fragment of the list for each, and no block that goes on in the next. -/
structure Coalesced (pages fragments : List Fragment) (blocks : List Block) : Prop where
  pages_eq : pages = blocks.flatMap Block.pages
  fragments_eq : fragments = blocks.map Block.fragment
  maximal : fragments.IsChain fun f g => isContiguous f g = some false

theorem totalSize_snoc (fs : List Fragment) (p : Fragment) :
    totalSize (fs ++ [p]) = totalSize fs + p.size := by
  induction fs with
  | nil => exact (BitVec.add_zero _).trans (BitVec.zero_add _).symm
  | cons f fs ih => rw [List.cons_append, totalSize, totalSize, ih, BitVec.add_assoc]

theorem Block.fragment_single (p : Fragment) : (Block.single p).fragment = p := by
  simp only [fragment, accumulated, single, totalSize, BitVec.add_zero]

theorem Block.fragment_extend (b : Block) (p : Fragment)
    (joins : isContiguous b.fragment p = some true) :
    (b.extend p joins).fragment = { b.fragment with size := b.fragment.size + p.size } := by
  have total : totalSize (b.first :: (b.rest ++ [p])) = totalSize (b.first :: b.rest) + p.size :=
    totalSize_snoc (b.first :: b.rest) p
  simp only [fragment, accumulated, extend, total]

/-- The size of the second fragment plays no part. -/
theorem isContiguous_fragment (f : Fragment) (b : Block) :
    isContiguous f b.fragment = isContiguous f b.first :=
  rfl

theorem Block.pages_extend (b : Block) (p : Fragment)
    (joins : isContiguous b.fragment p = some true) : (b.extend p joins).pages = b.pages ++ [p] :=
  rfl

theorem Combined.coalesced {run : Fragment} {ps fs : List Fragment} (combined : Combined run ps fs)
    (b : Block) (made : b.fragment = run) :
    ∃ c blocks, Coalesced (b.pages ++ ps) fs (c :: blocks) ∧ c.first = b.first := by
  induction combined generalizing b with
  | last run =>
    refine ⟨b, [], ⟨?_, ?_, .singleton _⟩, rfl⟩
    · simp only [List.flatMap_singleton, List.append_nil]
    · rw [← made, List.map_singleton]
  | @join run p ps fs _ contiguous _ ih =>
    have joins : isContiguous b.fragment p = some true := made ▸ contiguous
    have grown : (b.extend p joins).fragment = { run with size := run.size + p.size } := by
      simp only [b.fragment_extend, made]
    obtain ⟨c, blocks, rest, first⟩ := ih (b.extend p joins) grown
    rw [b.pages_extend, List.append_assoc] at rest
    exact ⟨c, blocks, rest, first⟩
  | @next run p ps fs _ separate _ ih =>
    obtain ⟨c, blocks, ⟨pages, fragments, maximal⟩, first⟩ :=
      ih (.single p) (Block.fragment_single p)
    refine ⟨b, c :: blocks, ⟨?_, ?_, ?_⟩, rfl⟩
    · rw [List.flatMap_cons, ← pages]
      rfl
    · rw [List.map_cons, made, ← fragments]
    · rw [fragments] at maximal ⊢
      have apart : isContiguous run c.fragment = some false := by
        simp only [isContiguous_fragment, first]
        exact separate
      exact .cons_cons apart maximal

theorem combining_coalesces (mem : Memory) (r : Registers) (va size : BitVec 64)
    (some_bytes : 1 ≤ size.toNat) (fits : va.toNat + size.toNat < 2 ^ 64) (fs : List Fragment)
    (listed : siftXlatorTranslateRange mem r va size true (.list fs)) :
    ∃ ps blocks, Walked mem (populateWalkHelper r) va ⟨PdeCache.cleared, va, size⟩ ps ∧
      Coalesced ps fs blocks := by
  have more : va < va + size := by
    simp only [BitVec.lt_def, BitVec.toNat_add, Nat.mod_eq_of_lt fits]
    omega
  obtain ⟨ps, walked, made⟩ := (translateRange_list_iff ..).mp listed
  cases walked with
  | done finished => exact absurd more finished
  | @page _ _ p ps _ walk rest =>
    have combined := (assemble_combined_iff p ps fs).mp made
    obtain ⟨c, blocks, coalesced, -⟩ := combined.coalesced (.single p) (Block.fragment_single p)
    exact ⟨p :: ps, c :: blocks, .page more walk rest, coalesced⟩

theorem coalesces_two_of_three :
    let mem := systemMemory
      [(0x5000#64, 0x6003#64), (0x6008#64, 0x9003#64), (0x6010#64, 0xa003#64),
        (0x6018#64, 0xf003#64)]
    let r := oneDirectory 0x5003#32
    let fs := [{ smallPage 0x1000#64 0x9003#64 with size := 0x2000#64 },
      smallPage 0x3000#64 0xf003#64]
    ∃ ps blocks, Walked mem (populateWalkHelper r) 0x1000#64
      ⟨PdeCache.cleared, 0x1000#64, 0x3000#64⟩ ps ∧ Coalesced ps fs blocks := by
  intro mem r fs
  exact combining_coalesces mem r 0x1000#64 0x3000#64 (by decide) (by decide) fs
    ⟨4, by decide +kernel⟩

end Rocsift.Xlator
