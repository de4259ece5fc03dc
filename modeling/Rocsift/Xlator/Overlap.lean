import Rocsift.Xlator.Turns

/-! What `fragments_overlap` decides, against the overlap of two fragments: of their virtual
ranges, or of their ranges in one memory. It compares the virtual ranges one way round, and the
physical ones as if there were one memory; no sum it forms reaches the top of the address space. -/
namespace Rocsift.Xlator
open Tiling

def Fragment.memoryPart (f : Fragment) : Part := ⟨f.pa.toNat, f.size.toNat⟩

structure Fragment.Bounded (f : Fragment) : Prop where
  filled : 0 < f.size.toNat
  va_le : f.part.finish ≤ 2 ^ 64
  pa_le : f.memoryPart.finish ≤ 2 ^ 64

def Overlap (lhs rhs : Fragment) : Prop :=
  lhs.flags.valid ≠ 0#8 ∧ rhs.flags.valid ≠ 0#8 ∧
    (lhs.part.Intersects rhs.part ∨
      (lhs.flags.system = rhs.flags.system ∧ lhs.memoryPart.Intersects rhs.memoryPart))

/-- The second part begins inside the first, which does not end at the top of the address space. -/
def Noticed (p q : Part) : Prop := p.BeginsIn q ∧ p.finish ≠ 2 ^ 64

def SameRanges (lhs rhs : Fragment) : Prop :=
  lhs.va = rhs.va ∧ lhs.pa = rhs.pa ∧ lhs.size = rhs.size

def MemoryNoticed (lhs rhs : Fragment) : Prop :=
  Noticed lhs.memoryPart rhs.memoryPart ∨ Noticed rhs.memoryPart lhs.memoryPart

/-- Where the test decides the overlap of two valid fragments. If the virtual ranges intersect, it
must come upon that or upon the physical ranges; if they do not, it must come upon physical ranges
that intersect exactly in one memory. -/
structure TestDecides (lhs rhs : Fragment) : Prop where
  virtual : lhs.part.Intersects rhs.part →
    SameRanges lhs rhs ∨ Noticed lhs.part rhs.part ∨ MemoryNoticed lhs rhs
  memory : ¬lhs.part.Intersects rhs.part → lhs.memoryPart.Intersects rhs.memoryPart →
    (MemoryNoticed lhs rhs ↔ lhs.flags.system = rhs.flags.system)

theorem lt_add_iff {a s x : BitVec 64} (le : a.toNat + s.toNat ≤ 2 ^ 64) :
    x < a + s ↔ x.toNat < a.toNat + s.toNat ∧ a.toNat + s.toNat ≠ 2 ^ 64 := by
  have below := x.isLt
  rw [BitVec.lt_def, BitVec.toNat_add]
  omega

section
variable {lhs rhs : Fragment}

theorem noticed_iff {a s b t : BitVec 64} (le : a.toNat + s.toNat ≤ 2 ^ 64) :
    Noticed ⟨a.toNat, s.toNat⟩ ⟨b.toNat, t.toNat⟩ ↔ a ≤ b ∧ b < a + s := by
  rw [lt_add_iff le, ← and_assoc]
  exact Iff.rfl

theorem fragmentsOverlap_true_iff (left : lhs.Bounded) (right : rhs.Bounded) :
    fragmentsOverlap lhs rhs = true ↔ lhs.flags.valid ≠ 0#8 ∧ rhs.flags.valid ≠ 0#8 ∧
      (SameRanges lhs rhs ∨ Noticed lhs.part rhs.part ∨ MemoryNoticed lhs rhs) := by
  have virtual : Noticed lhs.part rhs.part ↔ _ := noticed_iff left.va_le
  have here : Noticed lhs.memoryPart rhs.memoryPart ↔ _ := noticed_iff left.pa_le
  have there : Noticed rhs.memoryPart lhs.memoryPart ↔ _ := noticed_iff right.pa_le
  have checks : ∀ (c : Prop) [Decidable c] (rest : Bool),
      (if c then true else rest) = true ↔ c ∨ rest = true := by
    intro c _ rest
    split <;> simp_all
  unfold MemoryNoticed SameRanges
  rw [virtual, here, there]
  unfold fragmentsOverlap
  by_cases first : lhs.flags.valid = 0#8
  · simp [first]
  · by_cases second : rhs.flags.valid = 0#8
    · simp [second]
    · rw [if_neg first, if_neg second]
      simp only [checks, Bool.false_eq_true, or_false, ne_eq, first, second, not_false_eq_true,
        true_and]

theorem SameRanges.intersects (left : lhs.Bounded) (same : SameRanges lhs rhs) :
    lhs.part.Intersects rhs.part := by
  obtain ⟨va, -, size⟩ := same
  have inside : lhs.part.Covers lhs.va.toNat :=
    ⟨Nat.le_refl _, Nat.lt_add_of_pos_right left.filled⟩
  refine ⟨lhs.va.toNat, inside, ?_⟩
  unfold Fragment.part at *
  rwa [← va, ← size]

theorem overlap_decided_iff (lhs rhs : Fragment) (left : lhs.Bounded) (right : rhs.Bounded) :
    (fragmentsOverlap lhs rhs = true ↔ Overlap lhs rhs) ↔
      (lhs.flags.valid ≠ 0#8 → rhs.flags.valid ≠ 0#8 → TestDecides lhs rhs) := by
  rw [fragmentsOverlap_true_iff left right, Overlap]
  by_cases first : lhs.flags.valid = 0#8
  · simp [first]
  · by_cases second : rhs.flags.valid = 0#8
    · simp [second]
    · have virtual := Part.intersects_iff (p := lhs.part) (q := rhs.part) left.filled right.filled
      have memory := Part.intersects_iff (p := lhs.memoryPart) (q := rhs.memoryPart)
        left.filled right.filled
      have same : SameRanges lhs rhs → lhs.part.Intersects rhs.part :=
        SameRanges.intersects left
      have seen : Noticed lhs.part rhs.part → lhs.part.Intersects rhs.part :=
        fun noticed => virtual.mpr (Or.inl noticed.1)
      have found : MemoryNoticed lhs rhs → lhs.memoryPart.Intersects rhs.memoryPart :=
        fun noticed => memory.mpr (noticed.imp And.left And.left)
      simp only [ne_eq, first, second, not_false_eq_true, true_and, true_implies]
      constructor
      · intro decides
        constructor
        · exact fun share => decides.mpr (Or.inl share)
        · intro apart share
          constructor
          · exact fun noticed => ((decides.mp (Or.inr (Or.inr noticed))).resolve_left apart).1
          · intro system
            rcases decides.mpr (Or.inr ⟨system, share⟩) with ranges | noticed | noticed
            · exact absurd (same ranges) apart
            · exact absurd (seen noticed) apart
            · exact noticed
      · rintro ⟨whenVirtual, whenMemory⟩
        by_cases share : lhs.part.Intersects rhs.part
        · exact iff_of_true (whenVirtual share) (Or.inl share)
        · constructor
          · rintro (ranges | noticed | noticed)
            · exact absurd (same ranges) share
            · exact absurd (seen noticed) share
            · exact Or.inr ⟨(whenMemory share (found noticed)).mp noticed, found noticed⟩
          · rintro (virtually | ⟨system, physically⟩)
            · exact absurd virtually share
            · exact Or.inr (Or.inr ((whenMemory share physically).mpr system))

end

theorem overlap_decided_neighbours :
    let lhs := smallPage 0x1000#64 0x9003#64
    let rhs := smallPage 0x2000#64 0xa003#64
    lhs.Bounded ∧ rhs.Bounded ∧ (fragmentsOverlap lhs rhs = true ↔ Overlap lhs rhs) := by
  intro lhs rhs
  have left : lhs.Bounded := ⟨by decide, by decide, by decide⟩
  have right : rhs.Bounded := ⟨by decide, by decide, by decide⟩
  have apart : ¬lhs.part.Intersects rhs.part := by
    rw [Part.intersects_iff left.filled right.filled]
    rintro (⟨-, inside⟩ | ⟨before, -⟩)
    · exact absurd inside (by decide)
    · exact absurd before (by decide)
  have separate : ¬lhs.memoryPart.Intersects rhs.memoryPart := by
    rw [Part.intersects_iff left.filled right.filled]
    rintro (⟨-, inside⟩ | ⟨before, -⟩)
    · exact absurd inside (by decide)
    · exact absurd before (by decide)
  refine ⟨left, right, (overlap_decided_iff lhs rhs left right).mpr fun _ _ => ?_⟩
  exact ⟨fun share => absurd share apart, fun _ share => absurd share separate⟩

/-- A large page that begins before a small one and holds it: found in one order only. -/
theorem larger_page_missed :
    let small := smallPage 0x1000#64 0x9003#64
    let large : Fragment := ⟨0#64, 0x40000000#64, 0x200000#64, getPteFields 0x40000003#64⟩
    small.Bounded ∧ large.Bounded ∧ Overlap small large ∧ fragmentsOverlap small large = false ∧
      fragmentsOverlap large small = true := by
  intro small large
  have left : small.Bounded := ⟨by decide, by decide, by decide⟩
  have right : large.Bounded := ⟨by decide, by decide, by decide⟩
  have share : small.part.Intersects large.part := by
    rw [Part.intersects_iff left.filled right.filled]
    exact Or.inr ⟨by decide, by decide⟩
  exact ⟨left, right, ⟨by decide, by decide, Or.inl share⟩, by decide, by decide⟩

end Rocsift.Xlator
