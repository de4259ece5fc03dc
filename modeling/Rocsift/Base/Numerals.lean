import Mathlib.Data.List.TakeWhile
import Mathlib.Tactic.Common
import Mathlib.Tactic.Ring

/-! Numerals: the digit characters of a base, reading a digit string, and the two directions of
`printf` and `strtoul` on natural numbers. -/
namespace Numerals

def isDecimal (c : Char) : Bool := '0' ≤ c && c ≤ '9'

def isHex (c : Char) : Bool := isDecimal c || ('a' ≤ c && c ≤ 'f') || ('A' ≤ c && c ≤ 'F')

def digitValue (c : Char) : Nat :=
  if isDecimal c then c.toNat - '0'.toNat
  else if 'a' ≤ c && c ≤ 'f' then c.toNat - 'a'.toNat + 10
  else if 'A' ≤ c && c ≤ 'F' then c.toNat - 'A'.toNat + 10
  else 0

def valueFrom (base start : Nat) (cs : List Char) : Nat :=
  cs.foldl (fun v c => base * v + digitValue c) start

def value (base : Nat) (cs : List Char) : Nat := valueFrom base 0 cs

/-- The digits of `n`, without leading zeros: `%u` in base 10, `%x` in base 16. -/
def digits (base n : Nat) : List Char := Nat.toDigits base n

def padded (base width n : Nat) : List Char :=
  List.replicate (width - (digits base n).length) '0' ++ digits base n

theorem digitChar_facts : ∀ d < 16,
    digitValue (Nat.digitChar d) = d ∧ isHex (Nat.digitChar d) = true := by decide

theorem digitChar_decimal : ∀ d < 10, isDecimal (Nat.digitChar d) = true := by decide

theorem isHex_code {c : Char} (h : isHex c = true) : 48 ≤ c.toNat := by
  simp only [isHex, isDecimal, Bool.or_eq_true, Bool.and_eq_true, decide_eq_true_eq] at h
  have code : ∀ d : Char, d ≤ c → d.toNat ≤ c.toNat := fun d hd => hd
  rcases h with (h | h) | h
  · exact code '0' h.1
  · exact Nat.le_trans (by decide) (code 'a' h.1)
  · exact Nat.le_trans (by decide) (code 'A' h.1)

theorem valueFrom_append (base start : Nat) (cs ds : List Char) :
    valueFrom base start (cs ++ ds) = valueFrom base (valueFrom base start cs) ds :=
  List.foldl_append

theorem value_snoc (base : Nat) (cs : List Char) (c : Char) :
    value base (cs ++ [c]) = base * value base cs + digitValue c :=
  valueFrom_append base 0 cs [c]

theorem digitValue_lt (c : Char) : digitValue c < 16 := by
  have code : ∀ a b : Char, a ≤ b → a.toNat ≤ b.toNat := fun a b h => h
  unfold digitValue isDecimal
  split
  · rename_i h
    simp only [Bool.and_eq_true, decide_eq_true_eq] at h
    have hi := code c '9' h.2
    simp at hi ⊢
    omega
  · split
    · rename_i h
      simp only [Bool.and_eq_true, decide_eq_true_eq] at h
      have hi := code c 'f' h.2
      simp at hi ⊢
      omega
    · split
      · rename_i h
        simp only [Bool.and_eq_true, decide_eq_true_eq] at h
        have hi := code c 'F' h.2
        simp at hi ⊢
        omega
      · decide

theorem value_hex_lt (cs : List Char) : value 16 cs < 16 ^ cs.length := by
  have from_start : ∀ start, valueFrom 16 start cs < (start + 1) * 16 ^ cs.length := by
    induction cs with
    | nil => intro start; simp [valueFrom]
    | cons c cs ih =>
      intro start
      have rest := ih (16 * start + digitValue c)
      have digit := digitValue_lt c
      have grow : (16 * start + digitValue c + 1) * 16 ^ cs.length ≤
          (16 * (start + 1)) * 16 ^ cs.length := Nat.mul_le_mul_right _ (by omega)
      have shape : (16 * (start + 1)) * 16 ^ cs.length = (start + 1) * 16 ^ (cs.length + 1) := by
        rw [pow_succ]
        ring
      rw [List.length_cons, ← shape]
      exact Nat.lt_of_lt_of_le rest grow
  simpa [value] using from_start 0

theorem value_zeros (base n : Nat) (cs : List Char) :
    value base (List.replicate n '0' ++ cs) = value base cs := by
  have zeros : valueFrom base 0 (List.replicate n '0') = 0 := by
    induction n with
    | zero => rfl
    | succ n ih =>
      simpa [valueFrom, List.replicate_succ, show digitValue '0' = 0 by decide] using ih
  rw [value, valueFrom_append, zeros, value]

theorem digits_all {base : Nat} (hb : 1 < base) (p : Char → Bool)
    (hp : ∀ d < base, p (Nat.digitChar d) = true) (n : Nat) : ∀ c ∈ digits base n, p c = true := by
  induction n using Nat.strongRecOn with
  | ind n ih =>
    intro c hc
    rw [digits, Nat.toDigits_eq_if hb] at hc
    split at hc
    · rename_i small
      rw [List.mem_singleton.mp hc]
      exact hp n small
    · rename_i large
      rcases List.mem_append.mp hc with hc | hc
      · exact ih (n / base) (Nat.div_lt_self (by omega) hb) c hc
      · rw [List.mem_singleton.mp hc]
        exact hp (n % base) (Nat.mod_lt n (by omega))

theorem value_digits {base : Nat} (hb : 1 < base) (le : base ≤ 16) (n : Nat) :
    value base (digits base n) = n := by
  induction n using Nat.strongRecOn with
  | ind n ih =>
    rw [digits, Nat.toDigits_eq_if hb]
    split
    · rename_i small
      have d := (digitChar_facts n (by omega)).1
      simpa [value, valueFrom] using d
    · rename_i large
      have less : n % base < base := Nat.mod_lt n (by omega)
      have d := (digitChar_facts (n % base) (by omega)).1
      have rest := ih (n / base) (Nat.div_lt_self (by omega) hb)
      unfold digits at rest
      rw [value_snoc, rest, d]
      exact Nat.div_add_mod n base

theorem digits_ne_nil (base n : Nat) : digits base n ≠ [] := Nat.toDigits_ne_nil

theorem padded_all {base : Nat} (hb : 1 < base) (width : Nat) (p : Char → Bool)
    (hp : ∀ d < base, p (Nat.digitChar d) = true) (n : Nat) :
    ∀ c ∈ padded base width n, p c = true := by
  intro c hc
  rcases List.mem_append.mp hc with hc | hc
  · rw [List.eq_of_mem_replicate hc]
    exact hp 0 (by omega)
  · exact digits_all hb p hp n c hc

theorem padded_length {base width n : Nat} (hb : 1 < base) (pos : 0 < width)
    (fits : n < base ^ width) : (padded base width n).length = width := by
  have le : (digits base n).length ≤ width := (Nat.length_toDigits_le_iff hb pos).mpr fits
  rw [padded, List.length_append, List.length_replicate]
  omega

theorem value_padded {base : Nat} (hb : 1 < base) (le : base ≤ 16) (width n : Nat) :
    value base (padded base width n) = n := by
  rw [padded, value_zeros, value_digits hb le]

/-- `std::stoul` on a string of digits: out of range past 64 bits. -/
def stoul (base : Nat) (cs : List Char) : Option Nat :=
  if value base cs < 2 ^ 64 then some (value base cs) else none

/-- `std::strtoul` in base 10, on a text that begins with no blank or sign: the value of the digits
it begins with, or the largest 64-bit number. -/
def strtoul (cs : List Char) : BitVec 64 :=
  BitVec.ofNat 64 (min (value 10 (cs.takeWhile isDecimal)) (2 ^ 64 - 1))

theorem stoul_hex {cs : List Char} (short : cs.length ≤ 16) : stoul 16 cs = some (value 16 cs) := by
  have grow : 16 ^ cs.length ≤ 2 ^ 64 := Nat.pow_le_pow_right (by decide : 0 < 16) short
  rw [stoul, if_pos (Nat.lt_of_lt_of_le (value_hex_lt cs) grow)]

theorem stoul_digits {base : Nat} (hb : 1 < base) (le : base ≤ 16) {n : Nat} (fits : n < 2 ^ 64) :
    stoul base (digits base n) = some n := by
  rw [stoul, value_digits hb le, if_pos fits]

theorem strtoul_digits (v : BitVec 64) : strtoul (digits 10 v.toNat) = v := by
  have small := v.isLt
  have all : (digits 10 v.toNat).takeWhile isDecimal = digits 10 v.toNat :=
    List.takeWhile_eq_self_iff.mpr (digits_all (by decide) _ digitChar_decimal _)
  rw [strtoul, all, value_digits (by decide) (by decide), Nat.min_eq_left (by omega),
    BitVec.ofNat_toNat, BitVec.setWidth_eq]

end Numerals
