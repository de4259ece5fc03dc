import Mathlib.Data.List.Induction
import Mathlib.Data.List.Nodup
import Rocsift.Kfd.Properties

/-! Properties files as the kernel prints them, and what is read back. A line changes the field of
the first search that hits its key, so the value of a field comes from the last line that leads to
it. -/
namespace Rocsift.Kfd
open Pm4 (isSpace)

def hits (k : Field) (literal : String) : Bool :=
  literal.toList.all (!isSpace ·) && literal.toList.isSuffixOf k.key.toList

def target (k : Field) : Option Field := (searches.find? fun s => hits k s.2).map Prod.fst

theorem mem_fields (k : Field) : k ∈ searches.map Prod.fst := by
  cases k <;> decide

theorem searches_some : ∀ s ∈ searches, s.2.toList ≠ [] := by decide +kernel

theorem key_plain (k : Field) : ∀ c ∈ k.key.toList, isSpace c = false := by
  have every : (searches.map Prod.fst).all (fun k => k.key.toList.all (!isSpace ·)) = true := by
    decide +kernel
  have all := List.all_eq_true.mp every k (mem_fields k)
  simpa only [List.all_eq_true, Bool.not_eq_true'] using all

/-- Two keys miss their field: the literal for `num_gws` ends with a space of its own, and the
search for `fw_version` comes before the one for `sdma_fw_version`. -/
theorem target_eq (k : Field) : target k =
    if k = .num_gws then none else if k = .sdma_fw_version then some .fw_version else some k := by
  have all : ∀ k ∈ searches.map Prod.fst, target k =
      if k = .num_gws then none
      else if k = .sdma_fw_version then some .fw_version else some k := by
    decide +kernel
  exact all k (mem_fields k)

theorem decimal_word {c : Char} (h : Numerals.isDecimal c = true) :
    isWord c = true ∧ isSpace c = false := by
  have digit : c.isAlphanum = true := by
    simp only [Numerals.isDecimal, Bool.and_eq_true, decide_eq_true_eq] at h
    simp only [Char.isAlphanum, Char.isDigit, Bool.or_eq_true, Bool.and_eq_true, decide_eq_true_eq]
    exact Or.inr h
  have code := Numerals.isHex_code (c := c) (by simp only [Numerals.isHex, h, Bool.true_or])
  constructor
  · simp only [isWord, digit, Bool.true_or]
  · simp only [isSpace, Bool.or_eq_false_iff, Bool.and_eq_false_iff, decide_eq_false_iff_not]
    omega

theorem digits_word (n : Nat) : ∀ c ∈ Numerals.digits 10 n, isWord c = true ∧ isSpace c = false :=
  fun c hc => decimal_word (Numerals.digits_all (by decide) _ Numerals.digitChar_decimal n c hc)

section
variable (values : Properties)

theorem regexSearch_line (k : Field) {literal : String} (some_literal : literal.toList ≠ []) :
    regexSearch (propertyLine values k) literal =
      if hits k literal then some (Numerals.digits 10 (values k).toNat) else none := by
  have words := digits_word (values k).toNat
  have blank : isSpace ' ' = true := by decide
  unfold regexSearch propertyLine hits
  by_cases free : ∀ c ∈ literal.toList, isSpace c = false
  · have found := WordSearch.search_key blank (Numerals.digits_ne_nil _ _) words some_literal free
      (key_plain k)
    have all : literal.toList.all (!isSpace ·) = true := by simpa using free
    rw [found, all, Bool.true_and]
    simp only [List.isSuffixOf_iff_suffix]
  · have all : literal.toList.all (!isSpace ·) = false := by
      rw [Bool.eq_false_iff]
      intro each
      exact free (by simpa using each)
    rw [all, Bool.false_and, if_neg Bool.false_ne_true]
    apply WordSearch.search_none
    -- the line has one blank, and so has the literal
    have one : (k.key.toList ++ ' ' :: Numerals.digits 10 (values k).toNat).countP isSpace = 1 := by
      rw [List.countP_append, List.countP_cons_of_pos blank,
        List.countP_eq_zero.mpr fun c hc => by simp [key_plain k c hc],
        List.countP_eq_zero.mpr fun c hc => by simp [(words c hc).2]]
    rw [one]
    apply List.countP_pos_iff.mpr
    simpa using free

theorem readLine_line (props : Properties) (k : Field) :
    readLine props (propertyLine values k) =
      match target k with
      | some f => Function.update props f (values k)
      | none => props := by
  have first : ∀ l : List (Field × String), (∀ s ∈ l, s.2.toList ≠ []) →
      (l.findSome? fun s => (regexSearch (propertyLine values k) s.2).map fun word => (s.1, word)) =
        (l.find? fun s => hits k s.2).map fun s =>
          (s.1, Numerals.digits 10 (values k).toNat) := by
    intro l some_literals
    induction l with
    | nil => rfl
    | cons s l ih =>
      obtain ⟨here, later⟩ := List.forall_mem_cons.mp some_literals
      rw [List.findSome?_cons, List.find?_cons, regexSearch_line values k here]
      cases hits k s.2 with
      | true => rfl
      | false => exact ih later
  unfold readLine target
  rw [first searches searches_some]
  cases searches.find? fun s => hits k s.2 with
  | none => rfl
  | some s => simp only [Option.map_some, Numerals.strtoul_digits]

theorem propertyLine_plain (k : Field) : '\n' ∉ propertyLine values k := by
  have blank : isSpace '\n' = true := by decide
  intro member
  rcases List.mem_append.mp member with inKey | rest
  · exact Bool.noConfusion (blank.symm.trans (key_plain k _ inKey))
  · rcases List.mem_cons.mp rest with newline | inDigits
    · exact absurd newline (by decide)
    · exact Bool.noConfusion (blank.symm.trans (digits_word _ _ inDigits).2)

theorem parse_file (order : List Field) : parseKFDProperties (propertiesFile values order) =
    (order.map (propertyLine values)).foldl readLine fun _ => 0#64 := by
  have lines : TextLines.getLines '\n' (propertiesFile values order) =
      order.map (propertyLine values) := by
    apply TextLines.getLines_unlines
    intro l hl
    obtain ⟨k, -, rfl⟩ := List.mem_map.mp hl
    exact propertyLine_plain values k
  rw [parseKFDProperties, lines]

theorem parse_snoc (order : List Field) (k : Field) :
    parseKFDProperties (propertiesFile values (order ++ [k])) =
      match target k with
      | some f =>
        Function.update (parseKFDProperties (propertiesFile values order)) f (values k)
      | none => parseKFDProperties (propertiesFile values order) := by
  rw [parse_file, parse_file, List.map_append, List.foldl_append]
  exact readLine_line values _ k

theorem parse_frame (before : List Field) {after : List Field} {f : Field}
    (others : ∀ k ∈ after, target k ≠ some f) :
    parseKFDProperties (propertiesFile values (before ++ after)) f =
      parseKFDProperties (propertiesFile values before) f := by
  induction after using List.reverseRecOn with
  | nil => rw [List.append_nil]
  | append_singleton after k ih =>
    have rest := ih fun k' hk => others k' (List.mem_append_left _ hk)
    have last := others k (List.mem_append_right _ List.mem_cons_self)
    rw [← List.append_assoc, parse_snoc, ← rest]
    cases found : target k with
    | none => rfl
    | some g =>
      apply Function.update_of_ne
      rintro rfl
      exact last found

theorem parse_unset {order : List Field} {f : Field} (others : ∀ k ∈ order, target k ≠ some f) :
    parseKFDProperties (propertiesFile values order) f = 0#64 :=
  parse_frame values [] others

theorem parse_last (before : List Field) {k : Field} {after : List Field} {f : Field}
    (leads : target k = some f) (others : ∀ k ∈ after, target k ≠ some f) :
    parseKFDProperties (propertiesFile values (before ++ k :: after)) f = values k := by
  have split : before ++ k :: after = (before ++ [k]) ++ after := by
    rw [List.append_assoc, List.singleton_append]
  rw [split, parse_frame values _ others, parse_snoc, leads]
  exact Function.update_self ..

theorem parse_from (order : List Field) (f : Field) :
    parseKFDProperties (propertiesFile values order) f = 0#64 ∨
      ∃ k ∈ order, target k = some f ∧
        parseKFDProperties (propertiesFile values order) f = values k := by
  induction order using List.reverseRecOn with
  | nil => exact Or.inl rfl
  | append_singleton order k ih =>
    by_cases leads : target k = some f
    · have last := parse_last values order leads (List.forall_mem_nil (target · ≠ some f))
      exact Or.inr ⟨k, List.mem_append_right _ List.mem_cons_self, leads, last⟩
    · rw [parse_frame values order (List.forall_mem_singleton.mpr leads)]
      refine ih.imp_right ?_
      rintro ⟨k', member, rest⟩
      exact ⟨k', List.mem_append_left _ member, rest⟩

end

structure LineOrder where
  fields : List Field
  once : fields.Nodup
  all : ∀ f, f ∈ fields

/-- Every field has the value of its own line, and no line changes the field of another key. -/
structure RoundTrip (values : Properties) (fields : List Field) : Prop where
  read : parseKFDProperties (propertiesFile values fields) = values
  own : ∀ before k after, fields = before ++ k :: after → ∀ f ≠ k,
    parseKFDProperties (propertiesFile values (before ++ [k])) f =
      parseKFDProperties (propertiesFile values before) f

theorem target_field {k f : Field} (leads : target k = some f) :
    k = f ∧ k ≠ .num_gws ∧ k ≠ .sdma_fw_version ∨
      k = .sdma_fw_version ∧ f = .fw_version := by
  rw [target_eq] at leads
  split at leads
  · cases leads
  · rename_i gws
    split at leads
    · rename_i sdma
      cases leads
      exact Or.inr ⟨sdma, rfl⟩
    · rename_i sdma
      cases leads
      exact Or.inl ⟨rfl, gws, sdma⟩

theorem target_own {f : Field} (gws : f ≠ .num_gws) (sdma : f ≠ .sdma_fw_version) :
    target f = some f := by
  rw [target_eq, if_neg gws, if_neg sdma]

namespace LineOrder
variable (order : LineOrder)

theorem split (f : Field) : ∃ before after, order.fields = before ++ f :: after ∧
    f ∉ before ∧ f ∉ after := by
  obtain ⟨before, after, split⟩ := List.append_of_mem (order.all f)
  have once := order.once
  rw [split, List.nodup_middle, List.nodup_cons, List.mem_append, not_or] at once
  exact ⟨before, after, split, once.1⟩

theorem before_iff {before after : List Field} {f : Field}
    (split : order.fields = before ++ f :: after) (g : Field) :
    (g ∈ before ↔ order.fields.idxOf g < order.fields.idxOf f) ∧ (g ∈ before → g ∉ after) := by
  have once := order.once
  rw [split, List.nodup_middle, List.nodup_cons, List.mem_append, not_or, List.nodup_append] at once
  obtain ⟨⟨first, -⟩, -, -, apart⟩ := once
  rw [split, List.idxOf_append_of_notMem first, List.idxOf_cons_self, Nat.add_zero]
  refine ⟨⟨fun early => ?_, fun less => ?_⟩, fun early late => apart g early g late rfl⟩
  · rw [List.idxOf_append_of_mem early]
    exact List.idxOf_lt_length_of_mem early
  · by_contra late
    rw [List.idxOf_append_of_notMem late] at less
    omega

end LineOrder

section
variable (values : Properties) (order : LineOrder)

theorem parse_lost {f : Field} (lost : f = .num_gws ∨ f = .sdma_fw_version) :
    parseKFDProperties (propertiesFile values order.fields) f = 0#64 := by
  apply parse_unset
  intro k _ leads
  rcases target_field leads with ⟨rfl, gws, sdma⟩ | ⟨-, rfl⟩
  · exact lost.elim gws sdma
  · exact lost.elim (by decide) (by decide)

theorem parse_own {f : Field} (gws : f ≠ .num_gws) (sdma : f ≠ .sdma_fw_version)
    (version : f = .fw_version →
      order.fields.idxOf .sdma_fw_version < order.fields.idxOf .fw_version) :
    parseKFDProperties (propertiesFile values order.fields) f = values f := by
  obtain ⟨before, after, split, -, once⟩ := order.split f
  rw [split]
  apply parse_last values before (target_own gws sdma)
  intro k member leads
  rcases target_field leads with ⟨rfl, -⟩ | ⟨rfl, rfl⟩
  · exact once member
  · have order_iff := order.before_iff split .sdma_fw_version
    exact order_iff.2 (order_iff.1.mpr (version rfl)) member

theorem parse_version
    (late : ¬order.fields.idxOf .sdma_fw_version < order.fields.idxOf .fw_version) :
    parseKFDProperties (propertiesFile values order.fields) .fw_version =
      values .sdma_fw_version := by
  obtain ⟨before, after, split, -, once⟩ := order.split .sdma_fw_version
  rw [split]
  apply parse_last values before (k := .sdma_fw_version) (by rw [target_eq]; rfl)
  intro k member leads
  rcases target_field leads with ⟨rfl, -⟩ | ⟨rfl, -⟩
  · have other : Field.fw_version ≠ .sdma_fw_version := by decide
    have apart : order.fields.idxOf .fw_version ≠ order.fields.idxOf .sdma_fw_version :=
      fun same => other ((List.idxOf_inj (order.all _)).mp same)
    have order_iff := order.before_iff split .fw_version
    exact order_iff.2 (order_iff.1.mpr (lt_of_le_of_ne (Nat.not_lt.mp late) apart)) member
  · exact once member

theorem parse_before_sdma {before after : List Field}
    (split : order.fields = before ++ .sdma_fw_version :: after)
    (version : values .fw_version = 0#64 ∨
      order.fields.idxOf .sdma_fw_version < order.fields.idxOf .fw_version) :
    parseKFDProperties (propertiesFile values before) .fw_version = 0#64 := by
  rcases parse_from values before .fw_version with unset | ⟨k, member, leads, value⟩
  · exact unset
  · have early := (order.before_iff split k).1.mp member
    rcases target_field leads with ⟨rfl, -⟩ | ⟨rfl, -⟩
    · exact value.trans (version.resolve_right (Nat.lt_asymm early))
    · exact absurd early (Nat.lt_irrefl _)

end

/-- Exactly these files are read back as they were written: no GWS and no SDMA firmware, and the
firmware version either zero or in a line behind that of the SDMA firmware. -/
theorem round_trip_iff (values : Properties) (order : LineOrder) :
    RoundTrip values order.fields ↔
      values .num_gws = 0#64 ∧ values .sdma_fw_version = 0#64 ∧
        (values .fw_version = 0#64 ∨
          order.fields.idxOf .sdma_fw_version < order.fields.idxOf .fw_version) := by
  constructor
  · rintro ⟨read, -⟩
    have gws := parse_lost values order (Or.inl rfl)
    have sdma := parse_lost values order (Or.inr rfl)
    rw [read] at gws sdma
    refine ⟨gws, sdma, or_iff_not_imp_right.mpr fun late => ?_⟩
    have version := parse_version values order late
    rwa [read, sdma] at version
  · rintro ⟨gws, sdma, version⟩
    constructor
    · funext f
      by_cases lost : f = .num_gws ∨ f = .sdma_fw_version
      · rw [parse_lost values order lost]
        rcases lost with rfl | rfl
        · exact gws.symm
        · exact sdma.symm
      · obtain ⟨not_gws, not_sdma⟩ := not_or.mp lost
        by_cases early : f = .fw_version →
            order.fields.idxOf .sdma_fw_version < order.fields.idxOf .fw_version
        · exact parse_own values order not_gws not_sdma early
        · obtain ⟨rfl, late⟩ := Classical.not_imp.mp early
          rw [parse_version values order late, sdma, version.resolve_right late]
    · intro before k after split f other
      rw [parse_snoc]
      cases leads : target k with
      | none => rfl
      | some g =>
        rcases target_field leads with ⟨rfl, -⟩ | ⟨rfl, rfl⟩
        · exact Function.update_of_ne other _ _
        · by_cases same : f = .fw_version
          · rw [same]
            have unset := parse_before_sdma values order split version
            exact (Function.update_self ..).trans (sdma.trans unset.symm)
          · exact Function.update_of_ne same _ _

def structOrder : LineOrder := ⟨searches.map Prod.fst, by decide, mem_fields⟩

/-- The version of the SDMA firmware is lost, and with it that of the other firmware. -/
theorem sdma_version_misrouted :
    let values : Properties := fun f =>
      if f = .fw_version then 472#64 else if f = .sdma_fw_version then 18#64 else 0#64
    ¬RoundTrip values structOrder.fields := by
  intro values round_trip
  have lost := parse_lost values structOrder (Or.inr rfl)
  rw [round_trip.read] at lost
  exact absurd lost (by decide)

end Rocsift.Kfd
