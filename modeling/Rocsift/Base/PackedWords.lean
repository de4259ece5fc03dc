import Mathlib.Data.List.Pairwise
import Mathlib.Tactic.Common
import Mathlib.Tactic.Ring

/-! Records packed into words: every field lies in one word, from a low bit on. Writing a field
and reading another one commute as soon as the two lie apart. -/
namespace PackedWords

structure Field where
  word : Nat
  lsb : Nat
  width : Nat
  deriving DecidableEq

def Apart (f g : Field) : Prop :=
  f.word ≠ g.word ∨ f.lsb + f.width ≤ g.lsb ∨ g.lsb + g.width ≤ f.lsb

instance (f g : Field) : Decidable (Apart f g) :=
  inferInstanceAs (Decidable (_ ∨ _ ∨ _))

theorem Apart.symm {f g : Field} (h : Apart f g) : Apart g f := by
  rcases h with word | below | above
  · exact Or.inl (Ne.symm word)
  · exact Or.inr (Or.inr below)
  · exact Or.inr (Or.inl above)

variable {n : Nat}

def bits (x lsb width : Nat) : Nat := x / 2 ^ lsb % 2 ^ width

def fieldMask (n lsb width : Nat) : BitVec n := BitVec.ofNat n (2 ^ width - 1) <<< lsb

def putBits (x : BitVec n) (lsb width v : Nat) : BitVec n :=
  (x &&& ~~~fieldMask n lsb width) ||| (BitVec.ofNat n (v % 2 ^ width) <<< lsb)

def get (words : Nat → BitVec n) (f : Field) : Nat := bits (words f.word).toNat f.lsb f.width

def put (words : Nat → BitVec n) (f : Field) (v : Nat) : Nat → BitVec n := fun i =>
  if i = f.word then putBits (words i) f.lsb f.width v else words i

theorem bits_testBit (x lsb width i : Nat) :
    (bits x lsb width).testBit i = (decide (i < width) && x.testBit (lsb + i)) := by
  rw [bits, Nat.testBit_mod_two_pow, Nat.testBit_div_two_pow, Nat.add_comm i]

theorem fieldMask_getLsbD (lsb width i : Nat) :
    (fieldMask n lsb width).getLsbD i =
      (decide (i < n) && decide (lsb ≤ i) && decide (i < lsb + width)) := by
  simp only [fieldMask, BitVec.getLsbD_shiftLeft, BitVec.getLsbD_ofNat,
    Nat.testBit_two_pow_sub_one]
  grind

theorem putBits_getLsbD (x : BitVec n) (lsb width v i : Nat) (inside : i < n) :
    (putBits x lsb width v).getLsbD i =
      if lsb ≤ i ∧ i < lsb + width then v.testBit (i - lsb) else x.getLsbD i := by
  simp only [putBits, BitVec.getLsbD_or, BitVec.getLsbD_and, BitVec.getLsbD_not,
    fieldMask_getLsbD, BitVec.getLsbD_shiftLeft, BitVec.getLsbD_ofNat, Nat.testBit_mod_two_pow]
  grind

theorem get_put_same (words : Nat → BitVec n) {f : Field} (fits : f.lsb + f.width ≤ n) {v : Nat}
    (small : v < 2 ^ f.width) : get (put words f v) f = v := by
  apply Nat.eq_of_testBit_eq
  intro i
  simp only [get, put, if_true, bits_testBit]
  by_cases inside : i < f.width
  · have bit := putBits_getLsbD (words f.word) f.lsb f.width v (f.lsb + i) (by omega)
    rw [BitVec.getLsbD] at bit
    rw [bit, if_pos ⟨by omega, by omega⟩, Nat.add_sub_cancel_left, decide_eq_true inside,
      Bool.true_and]
  · have high : v < 2 ^ i :=
      Nat.lt_of_lt_of_le small (Nat.pow_le_pow_right (by decide) (Nat.le_of_not_lt inside))
    rw [decide_eq_false inside, Bool.false_and, Nat.testBit_lt_two_pow high]

theorem get_put_apart (words : Nat → BitVec n) {f g : Field} (fits : g.lsb + g.width ≤ n)
    (apart : Apart f g) (v : Nat) : get (put words f v) g = get words g := by
  by_cases same : g.word = f.word
  · apply Nat.eq_of_testBit_eq
    intro i
    simp only [get, put, if_pos same, bits_testBit]
    by_cases inside : i < g.width
    · have bit := putBits_getLsbD (words g.word) f.lsb f.width v (g.lsb + i) (by omega)
      have outside : ¬ (f.lsb ≤ g.lsb + i ∧ g.lsb + i < f.lsb + f.width) := by
        rcases apart with word | below | above
        · exact absurd same.symm word
        · omega
        · omega
      rw [if_neg outside, BitVec.getLsbD, BitVec.getLsbD] at bit
      rw [bit]
    · rw [decide_eq_false inside, Bool.false_and, Bool.false_and]
  · simp only [get, put, if_neg same]

def Covers (f : Field) (word i : Nat) : Prop := word = f.word ∧ f.lsb ≤ i ∧ i < f.lsb + f.width

instance (f : Field) (word i : Nat) : Decidable (Covers f word i) :=
  inferInstanceAs (Decidable (_ ∧ _ ∧ _))

theorem put_get_getLsbD (words others : Nat → BitVec n) (f : Field) (word : Nat) {i : Nat}
    (inside : i < n) : (put words f (get others f) word).getLsbD i =
      if Covers f word i then (others word).getLsbD i else (words word).getLsbD i := by
  by_cases here : word = f.word
  · subst here
    simp only [put, if_true, putBits_getLsbD _ _ _ _ _ inside, Covers, true_and]
    split
    · rename_i range
      rw [get, bits_testBit, decide_eq_true (by omega), Bool.true_and,
        Nat.add_sub_cancel' range.1]
      rfl
    · rfl
  · rw [put, if_neg here, if_neg fun covers => here covers.1]

section
variable {F : Type} (range : F → Field) (v : F → Nat)

def putAll (words : Nat → BitVec n) : List F → Nat → BitVec n
  | [] => words
  | f :: fs => putAll (put words (range f) (v f)) fs

theorem get_putAll_apart (words : Nat → BitVec n) {g : Field} (fits : g.lsb + g.width ≤ n)
    (fs : List F) (apart : ∀ f ∈ fs, Apart (range f) g) :
    get (putAll range v words fs) g = get words g := by
  induction fs generalizing words with
  | nil => rfl
  | cons f fs ih =>
    have rest := ih (put words (range f) (v f)) fun h hh => apart h (List.mem_cons_of_mem f hh)
    rw [putAll, rest]
    exact get_put_apart words fits (apart f List.mem_cons_self) (v f)

theorem putAll_get_getLsbD (words others : Nat → BitVec n) (fs : List F) (word : Nat) {i : Nat}
    (inside : i < n) : (putAll range (fun f => get others (range f)) words fs word).getLsbD i =
      if ∃ f ∈ fs, Covers (range f) word i then (others word).getLsbD i
      else (words word).getLsbD i := by
  induction fs generalizing words with
  | nil => simp [putAll]
  | cons f fs ih =>
    rw [putAll, ih, put_get_getLsbD words others (range f) word inside]
    by_cases here : Covers (range f) word i
    · simp [here]
    · simp [here]

/-- Fields that lie apart keep what was written to them, in whatever order they are written. -/
theorem get_putAll (words : Nat → BitVec n) (fs : List F)
    (fits : ∀ f ∈ fs, (range f).lsb + (range f).width ≤ n)
    (small : ∀ f ∈ fs, v f < 2 ^ (range f).width)
    (apart : fs.Pairwise fun f g => Apart (range f) (range g)) :
    ∀ f ∈ fs, get (putAll range v words fs) (range f) = v f := by
  induction fs generalizing words with
  | nil => simp
  | cons f fs ih =>
    have split := List.pairwise_cons.mp apart
    intro g hg
    rcases List.mem_cons.mp hg with rfl | later
    · have kept := get_putAll_apart range v (put words (range g) (v g)) (fits g hg) fs
        fun h hh => (split.1 h hh).symm
      rw [putAll, kept]
      exact get_put_same words (fits g hg) (small g hg)
    · exact ih _ (fun h hh => fits h (List.mem_cons_of_mem f hh))
        (fun h hh => small h (List.mem_cons_of_mem f hh)) split.2 g later

end

/-- The fields of a record packed into words of `n` bits: each fits in its word, and no two share
a bit. -/
structure Layout (F : Type) (n : Nat) where
  range : F → Field
  all : List F
  mem_all : ∀ f, f ∈ all
  fits : ∀ f, (range f).lsb + (range f).width ≤ n
  apart : all.Pairwise fun f g => Apart (range f) (range g)

namespace Layout

variable {F : Type} (L : Layout F n)

def Within (v : F → Nat) : Prop := ∀ f, v f < 2 ^ (L.range f).width

def write (v : F → Nat) (words : Nat → BitVec n) : Nat → BitVec n :=
  putAll L.range v words L.all

theorem get_write {v : F → Nat} (within : L.Within v) (words : Nat → BitVec n) (f : F) :
    get (L.write v words) (L.range f) = v f :=
  get_putAll L.range v words L.all (fun f _ => L.fits f) (fun f _ => within f) L.apart f
    (L.mem_all f)

theorem write_get_getLsbD {v : F → Nat} (others : Nat → BitVec n)
    (read : ∀ f, v f = get others (L.range f)) (words : Nat → BitVec n) (word : Nat) {i : Nat}
    (inside : i < n) : (L.write v words word).getLsbD i =
      if ∃ f ∈ L.all, Covers (L.range f) word i then (others word).getLsbD i
      else (words word).getLsbD i := by
  obtain rfl : v = fun f => get others (L.range f) := funext read
  exact putAll_get_getLsbD L.range words others L.all word inside

theorem get_put_other (words : Nat → BitVec n) {f g : F} (other : g ≠ f) (x : Nat) :
    get (put words (L.range f) x) (L.range g) = get words (L.range g) := by
  have symm : Std.Symm fun f g => Apart (L.range f) (L.range g) := ⟨fun _ _ h => h.symm⟩
  have apart : Apart (L.range f) (L.range g) :=
    L.apart.forall (L.mem_all f) (L.mem_all g) other.symm
  exact get_put_apart words (L.fits g) apart x

/-- Decoding gives back the record written over `words`, and writing the field `f` anew changes
no other decoded field. -/
structure Independent (decode : (Nat → BitVec n) → F → Nat) (v : F → Nat)
    (words : Nat → BitVec n) (f : F) (x : Nat) : Prop where
  back : decode (L.write v words) = v
  others : ∀ g, g ≠ f →
    decode (put (L.write v words) (L.range f) x) g = decode (L.write v words) g

/-- A decoder that reads every field from its own bits keeps the fields independent. -/
theorem independent_of_get {decode : (Nat → BitVec n) → F → Nat}
    (exact_field : ∀ words f, decode words f = get words (L.range f)) {v : F → Nat}
    (within : L.Within v) (words : Nat → BitVec n) (f : F) (x : Nat) :
    L.Independent decode v words f x := by
  constructor
  · funext g
    rw [exact_field]
    exact L.get_write within words g
  · intro g other
    simp only [exact_field]
    exact L.get_put_other _ other x

end Layout

end PackedWords
