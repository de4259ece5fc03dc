import Rocsift.Pm4.Text

/-! The lines that the kernel prints for a runlist, and what the expressions read from them. -/
namespace Rocsift.Pm4

def hex8 (d : Dword) : List Char := Numerals.padded 16 8 d.toNat

/-- `Node %u, gpu_id %x:` -/
def nodeLine (n : Node) : Line :=
  nodeText ++ Numerals.digits 10 n.node_id.toNat ++ gpuText ++ Numerals.digits 16 n.gpu_id.toNat ++
    [':']

def dataText (ds : List Dword) : List Char := ds.flatMap fun d => ' ' :: hex8 d

/-- `  %08x: ` and the dwords separated by spaces. -/
def dataLine (address : Dword) (ds : List Dword) : Line :=
  [' ', ' '] ++ hex8 address ++ ':' :: dataText ds

theorem hex8_length (d : Dword) : (hex8 d).length = 8 :=
  Numerals.padded_length (by decide) (by decide) d.isLt

theorem hex8_hex (d : Dword) : ∀ c ∈ hex8 d, Numerals.isHex c = true :=
  Numerals.padded_all (by decide) 8 _ (fun k hk => (Numerals.digitChar_facts k hk).2) d.toNat

theorem stoul_hex8 (d : Dword) : Numerals.stoul 16 (hex8 d) = some d.toNat := by
  have small : d.toNat < 2 ^ 64 := by have := d.isLt; omega
  rw [Numerals.stoul, hex8, Numerals.value_padded (by decide) (by decide), if_pos small]

theorem nodeLine_shape (n : Node) : NodeShape (nodeLine n)
    (Numerals.digits 10 n.node_id.toNat) (Numerals.digits 16 n.gpu_id.toNat) where
  split := ⟨[], [], rfl, rfl, rfl⟩
  node_digits := List.all_eq_true.mpr
    (Numerals.digits_all (by decide) _ Numerals.digitChar_decimal _)
  node_some := Numerals.digits_ne_nil _ _
  gpu_digits := List.all_eq_true.mpr
    (Numerals.digits_all (by decide) _ (fun k hk => (Numerals.digitChar_facts k hk).2) _)
  gpu_some := Numerals.digits_ne_nil _ _

theorem parseNodeLine_nodeLine (n : Node) : parseNodeLine (nodeLine n) = .ok n := by
  have node : Numerals.stoul 10 (Numerals.digits 10 n.node_id.toNat) = some n.node_id.toNat :=
    Numerals.stoul_digits (by decide) (by decide) (by have := n.node_id.isLt; omega)
  have gpu : Numerals.stoul 16 (Numerals.digits 16 n.gpu_id.toNat) = some n.gpu_id.toNat :=
    Numerals.stoul_digits (by decide) (by decide) (by have := n.gpu_id.isLt; omega)
  simp only [parseNodeLine, (nodeFormat_some_iff _ _ _).mpr (nodeLine_shape n), node, gpu,
    BitVec.ofNat_toNat, BitVec.setWidth_eq]

theorem startsDword_append {w : List Char} (len : w.length = 8)
    (hex : ∀ c ∈ w, Numerals.isHex c = true) (rest : List Char) :
    startsDword (w ++ rest) = true ∧ (w ++ rest).take 8 = w ∧ (w ++ rest).drop 8 = rest := by
  have cut : (w ++ rest).take 8 = w := List.take_left' len
  refine ⟨?_, cut, List.drop_left' len⟩
  simp only [startsDword, cut, len, List.all_eq_true.mpr hex, decide_true, Bool.and_self]

theorem startsDword_stop {c : Char} (no : Numerals.isHex c = false) (rest : List Char) :
    startsDword (c :: rest) = false := by
  simp [startsDword, no]

theorem getDataStartPosition_of_node {line : Line} {node gpu : List Char}
    (shape : NodeShape line node gpu) : getDataStartPosition line = .noMatch := by
  obtain ⟨before, after, hb, _, split⟩ := shape.split
  have skip : line.dropWhile isSpace =
      nodeText ++ (node ++ (gpuText ++ (gpu ++ ':' :: after))) := by
    rw [split]
    simpa only [List.append_assoc] using dropWhile_node hb _
  have stop : startsDword (nodeText ++ (node ++ (gpuText ++ (gpu ++ ':' :: after)))) = false :=
    startsDword_stop (by decide) _
  simp only [getDataStartPosition, skip, stop, Bool.false_eq_true, false_and, if_false]

theorem hex_plain {c : Char} (h : Numerals.isHex c = true) :
    isAny c = true ∧ isSpace c = false := by
  have code := Numerals.isHex_code h
  constructor
  · simp only [isAny, Bool.and_eq_true, decide_eq_true_eq]
    omega
  · simp only [isSpace, Bool.or_eq_false_iff, Bool.and_eq_false_iff, decide_eq_false_iff_not]
    omega

theorem dataText_any (ds : List Dword) : (dataText ds).all isAny = true := by
  rw [List.all_eq_true]
  intro c hc
  obtain ⟨d, _, hc⟩ := List.mem_flatMap.mp hc
  rcases List.mem_cons.mp hc with rfl | hc
  · decide
  · exact (hex_plain (hex8_hex d c hc)).1

theorem getDataStartPosition_dataLine (address : Dword) (ds : List Dword) :
    getDataStartPosition (dataLine address ds) = .ok 11 := by
  have stop : ∀ c ∈ (hex8 address ++ ':' :: dataText ds).head?, isSpace c = false := by
    intro c hc
    have first : (hex8 address ++ ':' :: dataText ds).head? = (hex8 address).head? := by
      rw [List.head?_append_of_ne_nil]
      exact List.ne_nil_of_length_pos (by rw [hex8_length]; decide)
    rw [first] at hc
    exact (hex_plain (hex8_hex address c (List.mem_of_mem_head? hc))).2
  have spaces : ∀ c ∈ [' ', ' '], isSpace c = true := List.all_eq_true.mp (by decide)
  have starts := startsDword_append (hex8_length address) (hex8_hex address) (':' :: dataText ds)
  have rest : (hex8 address ++ ':' :: dataText ds).drop 9 = dataText ds := by
    rw [show 9 = 8 + 1 from rfl, ← List.drop_drop, starts.2.2]
    rfl
  simp only [getDataStartPosition, dataLine, List.append_assoc, takeWhile_stop spaces stop,
    dropWhile_stop spaces stop, starts.1, starts.2.2, rest, dataText_any]
  rfl

theorem dataMatches_nil (fuel : Nat) : dataMatches fuel [] = [] := by
  induction fuel with
  | zero => rfl
  | succ fuel ih => exact ih

theorem dataMatches_dataText (ds : List Dword) {fuel : Nat} (enough : (dataText ds).length ≤ fuel) :
    dataMatches fuel (dataText ds) = ds.map hex8 := by
  induction ds generalizing fuel with
  | nil => exact dataMatches_nil fuel
  | cons d ds ih =>
    have text : dataText (d :: ds) = ' ' :: (hex8 d ++ dataText ds) := rfl
    rw [text, List.length_cons, List.length_append, hex8_length] at enough
    obtain ⟨fuel, rfl⟩ : ∃ n, fuel = n + 2 := ⟨fuel - 2, by omega⟩
    have starts := startsDword_append (hex8_length d) (hex8_hex d) (dataText ds)
    have blank := startsDword_stop (by decide : Numerals.isHex ' ' = false) (hex8 d ++ dataText ds)
    rw [text, dataMatches, blank, if_neg (by decide), List.drop_one, List.tail_cons, dataMatches,
      if_pos starts.1, starts.2.1, starts.2.2, ih (by omega), List.map_cons]

theorem parseDataSection_dataText (ds : List Dword) : parseDataSection (dataText ds) = .ok ds := by
  have values : (ds.map hex8).mapM (Numerals.stoul 16) = some (ds.map BitVec.toNat) := by
    induction ds with
    | nil => rfl
    | cons d ds ih => simp [stoul_hex8, ih]
  have back : (ds.map BitVec.toNat).map (BitVec.ofNat 32) = ds := by
    simp [List.map_map, Function.comp_def]
  simp only [parseDataSection, dataMatches_dataText ds (Nat.le_refl _), values, back]

theorem dataLine_drop (address : Dword) (ds : List Dword) :
    (dataLine address ds).drop 11 = dataText ds := by
  have len : ([' ', ' '] ++ hex8 address ++ [':']).length = 11 := by
    simp [hex8_length]
  have cut : dataLine address ds = ([' ', ' '] ++ hex8 address ++ [':']) ++ dataText ds := by
    simp [dataLine]
  rw [cut]
  exact List.drop_left' len

end Rocsift.Pm4
