import Mathlib.Tactic.Common

/-! A text read by offsets (`find`, `substr`) and the same text as its terminated lines. An
unterminated rest is no line: a reader that looks for the next terminator never sees it. -/
namespace TextLines

variable {C : Type} [DecidableEq C]

/-- The first `c` at or after `start`; `none` is `npos`. -/
def find (text : List C) (c : C) (start : Nat) : Option Nat :=
  ((text.drop start).findIdx? (· == c)).map (start + ·)

def substr (text : List C) (start count : Nat) : List C := (text.drop start).take count

def lines (nl : C) : List C → List (List C)
  | [] => []
  | c :: cs =>
    if c = nl then [] :: lines nl cs
    else match lines nl cs with
      | [] => []
      | l :: ls => (c :: l) :: ls

/-- What `std::getline` gives until it fails: a rest without a terminator is a line too. -/
def getLines (nl : C) : List C → List (List C)
  | [] => []
  | c :: cs =>
    if c = nl then [] :: getLines nl cs
    else match getLines nl cs with
      | [] => [[c]]
      | l :: ls => (c :: l) :: ls

/-- The pieces of a text between separators; none stands behind a separator at the end. -/
def pieces (nl : C) (text : List C) : List (List C) :=
  if (text.splitOn nl).getLast? = some [] then (text.splitOn nl).dropLast else text.splitOn nl

def rest (nl : C) : List C → List C
  | [] => []
  | c :: cs =>
    if c = nl then rest nl cs
    else match lines nl cs with
      | [] => c :: rest nl cs
      | _ :: _ => rest nl cs

def unlines (nl : C) (ls : List (List C)) : List C := ls.flatMap (· ++ [nl])

theorem lines_none {nl : C} {text : List C} (free : nl ∉ text) : lines nl text = [] := by
  induction text with
  | nil => rfl
  | cons c cs ih =>
    have head : c ≠ nl := fun h => free (h ▸ List.mem_cons_self)
    have tail : nl ∉ cs := fun h => free (List.mem_cons_of_mem c h)
    simp only [lines, if_neg head, ih tail]

theorem lines_line {nl : C} {l : List C} (free : nl ∉ l) (rest : List C) :
    lines nl (l ++ nl :: rest) = l :: lines nl rest := by
  induction l with
  | nil => simp only [List.nil_append, lines, if_pos]
  | cons c cs ih =>
    have head : c ≠ nl := fun h => free (h ▸ List.mem_cons_self)
    have tail : nl ∉ cs := fun h => free (List.mem_cons_of_mem c h)
    simp only [List.cons_append, lines, if_neg head, ih tail]

theorem lines_snoc (nl : C) (text : List C) :
    lines nl (text ++ [nl]) = lines nl text ++ [rest nl text] := by
  induction text with
  | nil => simp only [List.nil_append, lines, rest, if_true]
  | cons c cs ih =>
    simp only [List.cons_append, lines, rest, ih]
    split
    · rfl
    · cases lines nl cs <;> rfl

theorem lines_unlines {nl : C} (ls : List (List C)) (free : ∀ l ∈ ls, nl ∉ l) :
    lines nl (unlines nl ls) = ls := by
  induction ls with
  | nil => rfl
  | cons l ls ih =>
    have rest := ih fun k hk => free k (List.mem_cons_of_mem l hk)
    have here := lines_line (free l List.mem_cons_self) (unlines nl ls)
    rw [unlines, List.flatMap_cons, List.append_assoc]
    exact here.trans (congrArg (l :: ·) rest)

theorem getLines_line {nl : C} {l : List C} (free : nl ∉ l) (rest : List C) :
    getLines nl (l ++ nl :: rest) = l :: getLines nl rest := by
  induction l with
  | nil => simp only [List.nil_append, getLines, if_pos]
  | cons c cs ih =>
    have head : c ≠ nl := fun h => free (h ▸ List.mem_cons_self)
    have tail : nl ∉ cs := fun h => free (List.mem_cons_of_mem c h)
    simp only [List.cons_append, getLines, if_neg head, ih tail]

theorem getLines_unlines {nl : C} (ls : List (List C)) (free : ∀ l ∈ ls, nl ∉ l) :
    getLines nl (unlines nl ls) = ls := by
  induction ls with
  | nil => rfl
  | cons l ls ih =>
    obtain ⟨here, later⟩ := List.forall_mem_cons.mp free
    unfold unlines at ih ⊢
    rw [List.flatMap_cons, List.append_assoc, List.singleton_append, getLines_line here, ih later]

theorem splitOn_cons (nl c : C) (cs : List C) : (c :: cs).splitOn nl =
    if c = nl then [] :: cs.splitOn nl else (cs.splitOn nl).modifyHead (c :: ·) := by
  rw [List.splitOn_eq_splitOnP, List.splitOnP_cons_eq_if_modifyHead]
  simp [List.splitOn_eq_splitOnP]

theorem getLines_eq_pieces (nl : C) (text : List C) : getLines nl text = pieces nl text := by
  induction text with
  | nil => simp [getLines, pieces]
  | cons c cs ih =>
    obtain ⟨l, ls, split⟩ := List.exists_cons_of_ne_nil (List.splitOn_ne_nil nl cs)
    rw [getLines, ih, pieces, pieces, splitOn_cons, split]
    by_cases here : c = nl
    · rw [if_pos here, if_pos here, List.getLast?_cons_cons, List.dropLast_cons_cons]
      split <;> rfl
    · rw [if_neg here, if_neg here, List.modifyHead_cons]
      cases ls with
      | nil =>
        by_cases empty : l = [] <;> simp [empty]
      | cons k ks =>
        rw [List.getLast?_cons_cons, List.getLast?_cons_cons, List.dropLast_cons_cons,
          List.dropLast_cons_cons]
        by_cases last : (k :: ks).getLast? = some []
        · rw [if_pos last, if_pos last]
        · rw [if_neg last, if_neg last]

theorem lines_length_le (nl : C) (text : List C) : (lines nl text).length ≤ text.length := by
  induction text with
  | nil => exact Nat.le_refl 0
  | cons c cs ih =>
    simp only [lines, List.length_cons]
    split
    · simpa using ih
    · split
      · exact Nat.zero_le _
      · rename_i l ls h
        rw [h] at ih
        simpa using Nat.le_succ_of_le ih

theorem find_some {text : List C} {nl : C} {start e : Nat} (h : find text nl start = some e) :
    start ≤ e ∧ nl ∉ substr text start (e - start) ∧
      text.drop start = substr text start (e - start) ++ text.drop e ∧
      text.drop e = nl :: text.drop (e + 1) := by
  obtain ⟨k, hk, rfl⟩ := Option.map_eq_some_iff.mp h
  obtain ⟨lt, at_k, before⟩ := List.findIdx?_eq_some_iff_getElem.mp hk
  have len : k < text.length - start := by simpa using lt
  have bound : start + k < text.length := by omega
  refine ⟨Nat.le_add_right _ _, ?_, ?_, ?_⟩
  · rw [substr, Nat.add_sub_cancel_left]
    intro hm
    obtain ⟨i, hi, eq⟩ := List.mem_iff_getElem.mp hm
    have less : i < k := by simp at hi; omega
    have other := before i less
    rw [List.getElem_take] at eq
    simp [eq] at other
  · rw [substr, Nat.add_sub_cancel_left, ← List.drop_drop, List.take_append_drop]
  · rw [List.drop_eq_getElem_cons bound]
    congr 1
    simpa using at_k

theorem find_none {text : List C} {nl : C} {start : Nat} (h : find text nl start = none) :
    nl ∉ text.drop start := by
  have hn := List.findIdx?_eq_none_iff.mp (Option.map_eq_none_iff.mp h)
  intro hm
  simpa using hn nl hm

theorem find_at {text : List C} {nl : C} {e : Nat} {rest : List C}
    (h : text.drop e = nl :: rest) : find text nl e = some e := by
  simp [find, h, List.findIdx?_cons]

theorem lines_drop (text : List C) (nl : C) (start : Nat) :
    lines nl (text.drop start) =
      match find text nl start with
      | none => []
      | some e => substr text start (e - start) :: lines nl (text.drop (e + 1)) := by
  cases h : find text nl start with
  | none => exact lines_none (find_none h)
  | some e =>
    obtain ⟨_, free, split, term⟩ := find_some h
    rw [split, term]
    exact lines_line free _

end TextLines
