import Rocsift.Base.Numerals

/-! `std::stoul` and `std::stoull` on any text: blanks, a sign, a prefix that tells the base, and as
many digits as there are. What follows the digits is ignored. -/
namespace Stoul
open Numerals

def isDigit (base : Nat) (c : Char) : Bool := isHex c && digitValue c < base

def sign : List Char → Bool × List Char
  | '-' :: cs => (true, cs)
  | '+' :: cs => (false, cs)
  | cs => (false, cs)

def hexPrefix : List Char → Option (List Char)
  | '0' :: x :: d :: cs => if (x = 'x' ∨ x = 'X') ∧ isHex d then some (d :: cs) else none
  | _ => none

/-- The base of the digits, and where they begin. Base 0 leaves it to the numeral. -/
def radix (base : Nat) (cs : List Char) : Nat × List Char :=
  match if base = 0 ∨ base = 16 then hexPrefix cs else none with
  | some rest => (16, rest)
  | none => (if base ≠ 0 then base else if cs.head? = some '0' then 8 else 10, cs)

/-- `none` is an exception: there is no digit, or the number does not fit. -/
def stoul (blank : Char → Bool) (base : Nat) (str : List Char) : Option (BitVec 64) :=
  let signed := sign (str.dropWhile blank)
  let numeral := radix base signed.2
  let ds := numeral.2.takeWhile (isDigit numeral.1)
  let v := value numeral.1 ds
  if ds ≠ [] ∧ v < 2 ^ 64 then
    some (if signed.1 then -BitVec.ofNat 64 v else BitVec.ofNat 64 v)
  else none

def stoi (blank : Char → Bool) (str : List Char) : Option Int :=
  let signed := sign (str.dropWhile blank)
  let ds := signed.2.takeWhile (isDigit 10)
  let v : Int := if signed.1 then -(value 10 ds : Int) else value 10 ds
  if ds ≠ [] ∧ -2 ^ 31 ≤ v ∧ v < 2 ^ 31 then some v else none

section
variable {blank : Char → Bool} {base : Nat} {ds rest : List Char}

theorem isHex_ne {c : Char} (hex : isHex c = true) : c ≠ '-' ∧ c ≠ '+' ∧ c ≠ 'x' ∧ c ≠ 'X' := by
  refine ⟨?_, ?_, ?_, ?_⟩ <;> (rintro rfl; revert hex; decide)

theorem isDigit_hex {c : Char} (digit : isDigit base c = true) : isHex c = true :=
  (Bool.and_eq_true_iff.mp digit).1

theorem sign_digits (digits : ∀ c ∈ ds, isHex c = true) (some_digit : ds ≠ []) :
    sign (ds ++ rest) = (false, ds ++ rest) := by
  cases ds with
  | nil => exact absurd rfl some_digit
  | cons d ds =>
    obtain ⟨minus, plus, -⟩ := isHex_ne (digits d List.mem_cons_self)
    unfold sign
    split
    · rename_i same
      exact absurd (List.cons.inj same).1 minus
    · rename_i same
      exact absurd (List.cons.inj same).1 plus
    · rfl

theorem hexPrefix_second {cs after : List Char} (found : hexPrefix cs = some after) :
    cs[1]? = some 'x' ∨ cs[1]? = some 'X' := by
  unfold hexPrefix at found
  split at found
  · rename_i x d cs
    obtain ⟨⟨either, -⟩, -⟩ := Option.ite_none_right_eq_some.mp found
    exact either.imp (congrArg some) (congrArg some)
  · cases found

/-- Digits are not taken for a prefix, unless an `x` follows them. -/
theorem hexPrefix_digits (digits : ∀ c ∈ ds, isHex c = true) (some_digit : ds ≠ [])
    (stop : ∀ c ∈ rest.head?, c ≠ 'x' ∧ c ≠ 'X') : hexPrefix (ds ++ rest) = none := by
  have plain : ∀ c, (ds ++ rest)[1]? = some c → c ≠ 'x' ∧ c ≠ 'X' := by
    intro c at_one
    match ds with
    | [] => exact absurd rfl some_digit
    | [d] =>
      rw [List.singleton_append, List.getElem?_cons_succ, ← List.head?_eq_getElem?] at at_one
      exact stop c at_one
    | d :: e :: ds =>
      obtain rfl : e = c := Option.some.inj at_one
      obtain ⟨-, -, plain⟩ := isHex_ne (digits e (List.mem_cons_of_mem _ List.mem_cons_self))
      exact plain
  cases found : hexPrefix (ds ++ rest) with
  | none => rfl
  | some after =>
    rcases hexPrefix_second found with lower | upper
    · exact absurd rfl (plain 'x' lower).1
    · exact absurd rfl (plain 'X' upper).2

theorem takeWhile_digits (digits : ∀ c ∈ ds, isDigit base c = true)
    (stop : ∀ c ∈ rest.head?, isDigit base c = false) :
    (ds ++ rest).takeWhile (isDigit base) = ds := by
  rw [List.takeWhile_append_of_pos digits]
  cases rest with
  | nil => exact List.append_nil ds
  | cons c rest =>
    have other : ¬ isDigit base c = true := by simp [stop c rfl]
    rw [List.takeWhile_cons_of_neg other, List.append_nil]

theorem stoul_plain (explicit : base ≠ 0) (digits : ∀ c ∈ ds, isDigit base c = true)
    (some_digit : ds ≠ []) (plain : ∀ c ∈ ds, blank c = false)
    (stop : ∀ c ∈ rest.head?, isDigit base c = false ∧ c ≠ 'x' ∧ c ≠ 'X')
    (fits : value base ds < 2 ^ 64) :
    stoul blank base (ds ++ rest) = some (BitVec.ofNat 64 (value base ds)) := by
  have hex : ∀ c ∈ ds, isHex c = true := fun c hc => isDigit_hex (digits c hc)
  have start : (ds ++ rest).dropWhile blank = ds ++ rest := by
    cases ds with
    | nil => exact absurd rfl some_digit
    | cons d ds => exact List.dropWhile_cons_of_neg (by simp [plain d List.mem_cons_self])
  have no_prefix := hexPrefix_digits hex some_digit fun c hc => (stop c hc).2
  have told : radix base (ds ++ rest) = (base, ds ++ rest) := by
    simp only [radix, no_prefix, ite_self, if_pos explicit]
  have all := takeWhile_digits digits fun c hc => (stop c hc).1
  simp only [stoul, start, sign_digits hex some_digit, told, all]
  rw [if_pos ⟨some_digit, fits⟩]
  rfl

end

end Stoul
