import Mathlib.Data.List.Basic
import Rocsift.Base.Numerals
import Rocsift.Pm4.Packet

/-! The lines of a runlist dump: the three regular expressions of pm4.cc and what is read out of a
match. In each expression a repetition is followed by a character outside its class, so the
greedy match is the only one. -/
namespace Rocsift.Pm4

abbrev Line := List Char

def isSpace (c : Char) : Bool := c.toNat = 32 || (9 ≤ c.toNat && c.toNat ≤ 13)

def isAny (c : Char) : Bool := c.toNat ≠ 10 && c.toNat ≠ 13

@[ext] structure Node where
  node_id : BitVec 32
  gpu_id : BitVec 32
  deriving DecidableEq

def nodeText : List Char := ['N', 'o', 'd', 'e', ' ']
def gpuText : List Char := [',', ' ', 'g', 'p', 'u', '_', 'i', 'd', ' ']

/-- `\s*Node (\d+), gpu_id ([a-fA-F0-9]+):\s*` on the whole line, with its two groups. -/
def nodeFormat (line : Line) : Option (List Char × List Char) := do
  let rest ← nodeText.isPrefixOf? (line.dropWhile isSpace)
  let node := rest.takeWhile Numerals.isDecimal
  let rest ← gpuText.isPrefixOf? (rest.dropWhile Numerals.isDecimal)
  let gpu := rest.takeWhile Numerals.isHex
  let rest ← [':'].isPrefixOf? (rest.dropWhile Numerals.isHex)
  if node ≠ [] ∧ gpu ≠ [] ∧ rest.all isSpace then some (node, gpu) else none

def parseNodeLine (node_line : Line) : ResultStatus Node :=
  match nodeFormat node_line with
  | none => .noMatch
  | some (node, gpu) =>
    match Numerals.stoul 10 node, Numerals.stoul 16 gpu with
    | some n, some g => .ok ⟨BitVec.ofNat 32 n, BitVec.ofNat 32 g⟩
    | _, _ => .error

def startsDword (cs : List Char) : Bool := (cs.take 8).length = 8 && (cs.take 8).all Numerals.isHex

/-- `(^\s*[a-fA-F0-9]{8}:).*` on the whole line, with the length of its group. -/
def getDataStartPosition (address_line : Line) : ResultStatus Nat :=
  let rest := address_line.dropWhile isSpace
  if startsDword rest ∧ (rest.drop 8).head? = some ':' ∧ (rest.drop 9).all isAny then
    .ok ((address_line.takeWhile isSpace).length + 9)
  else .noMatch

/-- The matches of `[a-fA-F0-9]{8}` that a `sregex_iterator` visits: the next one starts where
the last one ended. -/
def dataMatches : Nat → List Char → List (List Char)
  | 0, _ => []
  | fuel + 1, cs =>
    if startsDword cs then cs.take 8 :: dataMatches fuel (cs.drop 8)
    else dataMatches fuel (cs.drop 1)

def parseDataSection (data_section : List Char) : ResultStatus (List Dword) :=
  match (dataMatches data_section.length data_section).mapM (Numerals.stoul 16) with
  | some data => .ok (data.map (BitVec.ofNat 32))
  | none => .error

section
variable {p : Char → Bool}

theorem takeWhile_stop {l r : List Char} (all : ∀ c ∈ l, p c = true)
    (stop : ∀ c ∈ r.head?, p c = false) : (l ++ r).takeWhile p = l := by
  rw [List.takeWhile_append_of_pos all]
  cases r with
  | nil => simp
  | cons c r => simp [stop c rfl]

theorem dropWhile_stop {l r : List Char} (all : ∀ c ∈ l, p c = true)
    (stop : ∀ c ∈ r.head?, p c = false) : (l ++ r).dropWhile p = r := by
  rw [List.dropWhile_append_of_pos all]
  cases r with
  | nil => simp
  | cons c r => simp [stop c rfl]

end

structure NodeShape (line : Line) (node gpu : List Char) : Prop where
  split : ∃ before after, before.all isSpace = true ∧ after.all isSpace = true ∧
    line = before ++ nodeText ++ node ++ gpuText ++ gpu ++ ':' :: after
  node_digits : node.all Numerals.isDecimal = true
  node_some : node ≠ []
  gpu_digits : gpu.all Numerals.isHex = true
  gpu_some : gpu ≠ []

theorem dropWhile_node {before : List Char} (blank : before.all isSpace = true)
    (rest : List Char) : (before ++ nodeText ++ rest).dropWhile isSpace = nodeText ++ rest := by
  rw [List.append_assoc]
  refine dropWhile_stop (List.all_eq_true.mp blank) ?_
  simp [nodeText]
  decide

theorem nodeFormat_some_iff (line : Line) (node gpu : List Char) :
    nodeFormat line = some (node, gpu) ↔ NodeShape line node gpu := by
  constructor
  · intro h
    simp only [nodeFormat, Option.bind_eq_bind, Option.bind_eq_some_iff,
      List.isPrefixOf?_eq_some_iff_append_eq] at h
    obtain ⟨r, hr, s, hs, t, ht, h⟩ := h
    split at h
    · rename_i ok
      obtain ⟨rfl, rfl⟩ := Prod.mk.inj (Option.some.inj h)
      refine ⟨⟨line.takeWhile isSpace, t, ?_, ok.2.2, ?_⟩, ?_, ok.1, ?_, ok.2.1⟩
      · exact List.all_takeWhile
      · have three : s.takeWhile Numerals.isHex ++ ':' :: t = s := by
          rw [← List.singleton_append, ht, List.takeWhile_append_dropWhile]
        simp only [List.append_assoc, three, hs, List.takeWhile_append_dropWhile, hr]
      · exact List.all_takeWhile
      · exact List.all_takeWhile
    · cases h
  · rintro ⟨⟨before, after, hb, ha, rfl⟩, hn, nn, hg, ng⟩
    have all_node := List.all_eq_true.mp hn
    have all_gpu := List.all_eq_true.mp hg
    have skip : (before ++ nodeText ++ node ++ gpuText ++ gpu ++ ':' :: after).dropWhile isSpace =
        nodeText ++ (node ++ (gpuText ++ (gpu ++ ':' :: after))) := by
      simpa only [List.append_assoc] using dropWhile_node hb _
    have stop_node : ∀ c ∈ (gpuText ++ (gpu ++ ':' :: after)).head?,
        Numerals.isDecimal c = false := by
      simp [gpuText]
      decide
    have stop_gpu : ∀ c ∈ (':' :: after).head?, Numerals.isHex c = false := by
      simp
      decide
    have cut : ∀ a b : List Char, a.isPrefixOf? (a ++ b) = some b := fun a b =>
      List.isPrefixOf?_eq_some_iff_append_eq.mpr rfl
    have colon : [':'].isPrefixOf? (':' :: after) = some after := cut [':'] after
    simp only [nodeFormat, skip, cut, Option.bind_eq_bind, Option.bind_some,
      takeWhile_stop all_node stop_node, dropWhile_stop all_node stop_node,
      takeWhile_stop all_gpu stop_gpu, dropWhile_stop all_gpu stop_gpu, colon]
    rw [if_pos ⟨nn, ng, ha⟩]

end Rocsift.Pm4
