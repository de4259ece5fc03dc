import Rocsift.Base.Stoul
import Rocsift.Kfd.Properties

/-! The `name` file of a debugfs directory: the expression that reads a PCI address out of it, and
the text that the driver writes. -/
namespace Rocsift.Sift
open Pm4 (isSpace)
open Kfd (isWord)

abbrev Contents := List Char

def literal (text : String) (cs : List Char) : Option (List Char) := text.toList.isPrefixOf? cs

def blanks (cs : List Char) : Option (List Char) :=
  if cs.takeWhile isSpace = [] then none else some (cs.dropWhile isSpace)

def wordOf (n : Nat) (cs : List Char) : Option (List Char × List Char) :=
  if (cs.take n).length = n ∧ (cs.take n).all isWord then some (cs.take n, cs.drop n) else none

structure PciWords where
  domain : List Char
  bus : List Char
  device : List Char
  func : List Char
  deriving DecidableEq

def pciWords (cs : List Char) : Option (PciWords × List Char) := do
  let (domain, cs) ← wordOf 4 cs
  let cs ← literal ":" cs
  let (bus, cs) ← wordOf 2 cs
  let cs ← literal ":" cs
  let (device, cs) ← wordOf 2 cs
  let cs ← literal "." cs
  let (func, cs) ← wordOf 1 cs
  return (⟨domain, bus, device, func⟩, cs)

/-- A match that begins where the text begins; the groups behind `unique=` are not looked at. -/
def nameHere (cs : List Char) : Option PciWords := do
  let cs ← literal "amdgpu" cs
  let cs ← blanks cs
  let cs ← literal "dev=" cs
  let (words, cs) ← pciWords cs
  let cs ← blanks cs
  let cs ← literal "unique=" cs
  let _ ← pciWords cs
  return words

def searchName (contents : Contents) : Option PciWords := contents.tails.findSome? nameHere

structure PciAddress where
  domain : BitVec 32
  bus : BitVec 32
  device : BitVec 32
  deriving DecidableEq

/-- The address in a `name` file; `none` is an exception, of whatever kind. -/
def readName (contents : Contents) : Option PciAddress := do
  let m ← searchName contents
  let domain ← Stoul.stoul isSpace 16 m.domain
  let bus ← Stoul.stoul isSpace 16 m.bus
  let device ← Stoul.stoul isSpace 16 m.device
  let _ ← Stoul.stoul isSpace 16 m.func
  return ⟨domain.setWidth 32, bus.setWidth 32, device.setWidth 32⟩

structure PciName where
  domain : Nat
  bus : Nat
  device : Nat
  func : Nat
  domain_lt : domain < 16 ^ 4
  bus_lt : bus < 16 ^ 2
  device_lt : device < 16 ^ 2
  func_lt : func < 16 ^ 1

namespace PciName
variable (a : PciName)

def text : List Char :=
  Numerals.padded 16 4 a.domain ++ (":".toList ++ (Numerals.padded 16 2 a.bus ++
    (":".toList ++ (Numerals.padded 16 2 a.device ++ (".".toList ++ Numerals.padded 16 1 a.func)))))

/-- The `name` file that the driver writes: `amdgpu dev=%s unique=%s`. -/
def nameFile : Contents :=
  "amdgpu".toList ++ (' ' :: ("dev=".toList ++ (a.text ++ (' ' :: ("unique=".toList ++
    (a.text ++ ['\n']))))))

def words : PciWords :=
  ⟨Numerals.padded 16 4 a.domain, Numerals.padded 16 2 a.bus, Numerals.padded 16 2 a.device,
    Numerals.padded 16 1 a.func⟩

def address : PciAddress :=
  ⟨BitVec.ofNat 32 a.domain, BitVec.ofNat 32 a.bus, BitVec.ofNat 32 a.device⟩

theorem literal_append (text : String) (rest : List Char) :
    literal text (text.toList ++ rest) = some rest :=
  List.isPrefixOf?_eq_some_iff_append_eq.mpr rfl

theorem wordOf_padded {width n : Nat} (pos : 0 < width) (fits : n < 16 ^ width)
    (rest : List Char) :
    wordOf width (Numerals.padded 16 width n ++ rest) =
      some (Numerals.padded 16 width n, rest) := by
  have long := Numerals.padded_length (by decide : 1 < 16) pos fits
  have words : (Numerals.padded 16 width n).all isWord := by
    rw [List.all_eq_true]
    exact Numerals.padded_all (by decide) width isWord (by decide) n
  have front : (Numerals.padded 16 width n ++ rest).take width = _ := List.take_left' long
  have back : (Numerals.padded 16 width n ++ rest).drop width = _ := List.drop_left' long
  rw [wordOf, front, back, if_pos ⟨long, words⟩]

theorem pciWords_text (rest : List Char) : pciWords (a.text ++ rest) = some (a.words, rest) := by
  simp only [pciWords, text, List.append_assoc, bind, Option.bind, pure,
    wordOf_padded (by decide) a.domain_lt, wordOf_padded (by decide) a.bus_lt,
    wordOf_padded (by decide) a.device_lt, wordOf_padded (by decide) a.func_lt, literal_append]
  rfl

theorem blanks_one (text : String) {c : Char} {cs : List Char} (shape : text.toList = c :: cs)
    (plain : isSpace c = false) (rest : List Char) :
    blanks (' ' :: (text.toList ++ rest)) = some (text.toList ++ rest) := by
  have one : isSpace ' ' = true := by decide
  have other : ¬ isSpace c = true := by simp [plain]
  rw [blanks, List.takeWhile_cons_of_pos one, if_neg (List.cons_ne_nil _ _),
    List.dropWhile_cons_of_pos one, shape, List.cons_append, List.dropWhile_cons_of_neg other]

theorem nameHere_nameFile : nameHere a.nameFile = some a.words := by
  have dev := blanks_one "dev=" rfl (by decide)
  have unique := blanks_one "unique=" rfl (by decide)
  unfold nameHere nameFile
  rw [Option.bind_eq_bind, literal_append, Option.bind_some, Option.bind_eq_bind, dev,
    Option.bind_some, literal_append, Option.bind_some, pciWords_text, Option.bind_some]
  change ((blanks _).bind fun cs => _) = _
  rw [unique, Option.bind_some, literal_append, Option.bind_some, pciWords_text, Option.bind_some]
  rfl

theorem stoul_padded {width n : Nat} (pos : 0 < width) (short : width ≤ 4)
    (fits : n < 16 ^ width) :
    Stoul.stoul isSpace 16 (Numerals.padded 16 width n) = some (BitVec.ofNat 64 n) := by
  have hex : 1 < 16 := by decide
  have digits := Numerals.padded_all hex width (Stoul.isDigit 16) (by decide) n
  have plain := Numerals.padded_all hex width (fun c => !isSpace c) (by decide) n
  have long := Numerals.padded_length hex pos fits
  have some_digit : Numerals.padded 16 width n ≠ [] := List.ne_nil_of_length_pos (by omega)
  have same := Numerals.value_padded hex (Nat.le_refl 16) width n
  have small : 16 ^ width ≤ 16 ^ 4 := Nat.pow_le_pow_right (by decide) short
  have unmarked : ∀ c ∈ Numerals.padded 16 width n, isSpace c = false := fun c hc => by
    simpa using plain c hc
  have read := Stoul.stoul_plain (by decide) digits some_digit unmarked
    (fun (_ : Char) (none : _ ∈ [].head?) => nomatch none) (by omega)
  rwa [List.append_nil, same] at read

theorem readName_nameFile : readName a.nameFile = some a.address := by
  have narrow (n : Nat) : (BitVec.ofNat 64 n).setWidth 32 = BitVec.ofNat 32 n :=
    BitVec.setWidth_ofNat_of_le (by decide) n
  have found : searchName a.nameFile = some a.words := by
    have some_char : a.nameFile ≠ [] := List.append_ne_nil_of_left_ne_nil (by decide) _
    obtain ⟨c, cs, shape⟩ := List.exists_cons_of_ne_nil some_char
    have here := a.nameHere_nameFile
    rw [shape] at here
    rw [searchName, shape, List.tails, List.findSome?_cons, here]
  simp only [readName, found, words, bind, Option.bind, pure,
    stoul_padded (by decide) (by decide) a.domain_lt,
    stoul_padded (by decide) (by decide) a.bus_lt,
    stoul_padded (by decide) (by decide) a.device_lt,
    stoul_padded (by decide) (by decide) a.func_lt, narrow]
  rfl

end PciName

end Rocsift.Sift
