import Mathlib.Data.List.Basic
import Mathlib.Data.List.TakeWhile

/-! The unanchored search for `literal\s+(\w+)`. The classes of blanks and of word characters are
parameters; no character is in both, so the greedy match at a place is the only one there. -/
namespace WordSearch

variable {C : Type} [DecidableEq C] (blank word : C → Bool)

def wordAfter (literal text : List C) : Option (List C) := do
  let rest ← literal.isPrefixOf? text
  let group := (rest.dropWhile blank).takeWhile word
  if rest.takeWhile blank ≠ [] ∧ group ≠ [] then some group else none

def search (literal : List C) : List C → Option (List C)
  | [] => wordAfter blank word literal []
  | c :: cs =>
    match wordAfter blank word literal (c :: cs) with
    | some group => some group
    | none => search literal cs

variable {blank word} {literal : List C}

theorem wordAfter_some {text group : List C} (h : wordAfter blank word literal text = some group) :
    ∃ b rest, text = literal ++ b :: rest ∧ blank b = true := by
  unfold wordAfter at h
  simp only [Option.bind_eq_bind, Option.bind_eq_some_iff,
    List.isPrefixOf?_eq_some_iff_append_eq] at h
  obtain ⟨rest, rfl, h⟩ := h
  cases rest with
  | nil => simp at h
  | cons b rest =>
    refine ⟨b, rest, rfl, ?_⟩
    by_contra other
    simp [other] at h

/-- A match holds the blanks of the literal and one more. -/
theorem search_blanks {text group : List C} (h : search blank word literal text = some group) :
    literal.countP blank < text.countP blank := by
  have here : ∀ cs, wordAfter blank word literal cs = some group →
      literal.countP blank < cs.countP blank := by
    intro cs found
    obtain ⟨b, rest, rfl, isBlank⟩ := wordAfter_some found
    rw [List.countP_append, List.countP_cons_of_pos isBlank]
    omega
  induction text with
  | nil => exact here [] h
  | cons c cs ih =>
    unfold search at h
    split at h
    · rename_i found
      cases h
      exact here (c :: cs) found
    · exact Nat.lt_of_lt_of_le (ih h) (List.sublist_cons_self c cs).countP_le

theorem search_none {text : List C} (few : text.countP blank ≤ literal.countP blank) :
    search blank word literal text = none := by
  cases found : search blank word literal text with
  | none => rfl
  | some group => exact absurd (search_blanks found) (Nat.not_lt.mpr few)

section
variable {b : C} {key group : List C}

theorem wordAfter_key (isBlank : blank b = true) (some_word : group ≠ [])
    (words : ∀ c ∈ group, word c = true ∧ blank c = false)
    (free : ∀ c ∈ literal, blank c = false) (plain : ∀ c ∈ key, blank c = false) :
    wordAfter blank word literal (key ++ b :: group) =
      if literal = key then some group else none := by
  by_cases same : literal = key
  · subst same
    have cut : literal.isPrefixOf? (literal ++ b :: group) = some (b :: group) :=
      List.isPrefixOf?_eq_some_iff_append_eq.mpr rfl
    have stop : group.dropWhile blank = group := by
      cases group with
      | nil => rfl
      | cons c cs => exact List.dropWhile_cons_of_neg (by simp [(words c List.mem_cons_self).2])
    have all : group.takeWhile word = group :=
      List.takeWhile_eq_self_iff.mpr fun c hc => (words c hc).1
    simp only [wordAfter, cut, Option.bind_eq_bind, Option.bind_some, List.dropWhile_cons, isBlank,
      if_true, stop, all, List.takeWhile_cons]
    rw [if_pos ⟨List.cons_ne_nil _ _, some_word⟩]
  · rw [if_neg same]
    cases found : wordAfter blank word literal (key ++ b :: group) with
    | none => rfl
    | some _ =>
      obtain ⟨b', rest, split, isBlank'⟩ := wordAfter_some found
      refine absurd ?_ same
      -- the first blank of the line is the one behind the key, and the one behind the literal
      rcases List.append_eq_append_iff.mp split with ⟨extra, rfl, tail⟩ | ⟨extra, rfl, tail⟩
      · cases extra with
        | nil => exact List.append_nil key
        | cons c extra =>
          have none := free c (List.mem_append_right key List.mem_cons_self)
          rw [← (List.cons.inj tail).1, isBlank] at none
          cases none
      · cases extra with
        | nil => exact (List.append_nil literal).symm
        | cons c extra =>
          have none := plain c (List.mem_append_right literal List.mem_cons_self)
          rw [← (List.cons.inj tail).1, isBlank'] at none
          cases none

/-- On a line of a key, a blank and a word, a literal without blanks matches exactly when it is the
end of the key. -/
theorem search_key (isBlank : blank b = true) (some_word : group ≠ [])
    (words : ∀ c ∈ group, word c = true ∧ blank c = false) (some_literal : literal ≠ [])
    (free : ∀ c ∈ literal, blank c = false) (plain : ∀ c ∈ key, blank c = false) :
    search blank word literal (key ++ b :: group) =
      if literal <:+ key then some group else none := by
  induction key with
  | nil =>
    have here := wordAfter_key isBlank some_word words free plain
    have behind : search blank word literal group = none := by
      apply search_none
      rw [List.countP_eq_zero.mpr fun c hc => by simp [(words c hc).2]]
      exact Nat.zero_le _
    rw [List.nil_append, if_neg some_literal] at here
    simp only [List.nil_append, search, here, behind, List.suffix_nil, some_literal, if_false]
  | cons c key ih =>
    have here := wordAfter_key isBlank some_word words free plain
    have later := ih fun d hd => plain d (List.mem_cons_of_mem c hd)
    rw [List.cons_append] at here ⊢
    rw [search, here, later]
    by_cases same : literal = c :: key
    · rw [if_pos same, if_pos (List.suffix_cons_iff.mpr (Or.inl same))]
    · rw [if_neg same]
      simp only [List.suffix_cons_iff, same, false_or]

end

end WordSearch
