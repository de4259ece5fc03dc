import Rocsift.Kfd.Properties
import Rocsift.Sift.Lifetime

/-! The device-id overrides at the end of `ParseKFDProperties`: the value of the environment
variable cut at its commas, every entry matched, and only then the matches applied one by one. -/
namespace Rocsift.Kfd
open Sift (SiftStatus)

/-- What leaves the function: a status of its own, or `std::out_of_range` from `std::stoul`. -/
inductive Thrown where
  | statusError (s : SiftStatus)
  | out_of_range
  deriving DecidableEq

/-- The groups 1 to 4 and 6 of a match. -/
@[ext] structure Match where
  domain : List Char
  bus : List Char
  device : List Char
  function : List Char
  did : List Char

def hexRun (cs : List Char) : Option (List Char × List Char) :=
  if cs.takeWhile Numerals.isHex = [] then none
  else some (cs.takeWhile Numerals.isHex, cs.dropWhile Numerals.isHex)

def isPoint (c : Char) : Bool := c = '.' || c = ':'

def skip (p : Char → Bool) : List Char → Option (List Char)
  | [] => none
  | c :: cs => if p c then some cs else none

def dropHexPrefix : List Char → List Char
  | '0' :: 'x' :: cs => cs
  | '0' :: 'X' :: cs => cs
  | cs => cs

def regexMatch (entry : List Char) : Option Match := do
  let (domain, rest) ← hexRun entry
  let rest ← skip isPoint rest
  let (bus, rest) ← hexRun rest
  let rest ← skip (· = ':') rest
  let (device, rest) ← hexRun rest
  let rest ← skip (· = '.') rest
  let (function, rest) ← hexRun rest
  let rest ← skip (· = '-') rest
  let rest ← skip (· = '>') rest
  let did := dropHexPrefix rest
  if did ≠ [] ∧ did.all Numerals.isHex then some ⟨domain, bus, device, function, did⟩ else none

def matchEntry (entry : List Char) : Except Thrown Match :=
  match regexMatch entry with
  | some m => .ok m
  | none => .error (.statusError .error)

def stoul32 (cs : List Char) : Except Thrown (BitVec 32) :=
  match Numerals.stoul 16 cs with
  | some v => .ok (BitVec.ofNat 32 v)
  | none => .error .out_of_range

def applyOverride (bus_id device_id function_id : BitVec 32) (props : Properties) (m : Match) :
    Except Thrown Properties := do
  let override_domain ← stoul32 m.domain
  let override_bus ← stoul32 m.bus
  let override_device ← stoul32 m.device
  let override_function ← stoul32 m.function
  let override_did ← stoul32 m.did
  if override_domain.setWidth 64 = props .domain_id ∧ override_bus = bus_id ∧
      override_device = device_id ∧ override_function = function_id then
    return Function.update props .device_id (override_did.setWidth 64)
  else return props

def BUS_ID_SHIFT : Nat := 0x8
def BUS_ID_MASK : BitVec 64 := 0xff#64
def DEVICE_ID_SHIFT : Nat := 0x3
def DEVICE_ID_MASK : BitVec 64 := 0x1f#64
def FUNCTION_ID_MASK : BitVec 64 := 0x7#64

def applyOverrides (overrides_string : List Char) (props : Properties) :
    Except Thrown Properties := do
  let bus_id := ((props .location_id >>> BUS_ID_SHIFT) &&& BUS_ID_MASK).setWidth 32
  let device_id := ((props .location_id >>> DEVICE_ID_SHIFT) &&& DEVICE_ID_MASK).setWidth 32
  let function_id := (props .location_id &&& FUNCTION_ID_MASK).setWidth 32
  let overrides ← (TextLines.getLines ',' overrides_string).mapM matchEntry
  overrides.foldlM (applyOverride bus_id device_id function_id) props

def parseWithOverride (props_file : List Char) (char_override : Option (List Char)) :
    Except Thrown Properties :=
  match char_override with
  | none => .ok (parseKFDProperties props_file)
  | some overrides_string => applyOverrides overrides_string (parseKFDProperties props_file)

structure HexNumber where
  digits : List Char
  some_digit : digits ≠ []
  hex : ∀ c ∈ digits, Numerals.isHex c = true

def HexNumber.value (n : HexNumber) : Nat := Numerals.value 16 n.digits

/-- `<domain>:<bus>:<device>.<function>-><id>` with the variants of its spelling. -/
structure Entry where
  domain : HexNumber
  point : Char
  point_ok : isPoint point = true
  bus : HexNumber
  device : HexNumber
  function : HexNumber
  lead : List Char
  lead_ok : lead ∈ [[], ['0', 'x'], ['0', 'X']]
  id : HexNumber

namespace Entry

def text (e : Entry) : List Char :=
  e.domain.digits ++ e.point :: (e.bus.digits ++ ':' :: (e.device.digits ++ '.' ::
    (e.function.digits ++ '-' :: '>' :: (e.lead ++ e.id.digits))))

theorem text_ne_nil (e : Entry) : e.text ≠ [] :=
  fun empty => e.domain.some_digit (List.append_eq_nil_iff.mp empty).1

def groups (e : Entry) : Match :=
  ⟨e.domain.digits, e.bus.digits, e.device.digits, e.function.digits, e.id.digits⟩

def numbers (e : Entry) : List HexNumber := [e.domain, e.bus, e.device, e.function, e.id]

end Entry

theorem hexRun_number (n : HexNumber) {c : Char} (no : Numerals.isHex c = false)
    (rest : List Char) : hexRun (n.digits ++ c :: rest) = some (n.digits, c :: rest) := by
  have stop : ∀ d ∈ (c :: rest).head?, Numerals.isHex d = false := by
    rintro d ⟨⟩
    exact no
  rw [hexRun, Pm4.takeWhile_stop n.hex stop, Pm4.dropWhile_stop n.hex stop, if_neg n.some_digit]

theorem hexRun_some {cs run rest : List Char} (h : hexRun cs = some (run, rest)) :
    ∃ n : HexNumber, run = n.digits ∧ cs = n.digits ++ rest := by
  unfold hexRun at h
  split at h
  · cases h
  · rename_i some_digit
    cases h
    have hex : ∀ c ∈ cs.takeWhile Numerals.isHex, Numerals.isHex c = true :=
      List.all_eq_true.mp List.all_takeWhile
    exact ⟨⟨_, some_digit, hex⟩, rfl, List.takeWhile_append_dropWhile.symm⟩

theorem skip_some {p : Char → Bool} {cs rest : List Char} (h : skip p cs = some rest) :
    ∃ c, p c = true ∧ cs = c :: rest := by
  cases cs with
  | nil => cases h
  | cons c cs =>
    rw [skip, Option.ite_none_right_eq_some] at h
    obtain ⟨here, same⟩ := h
    exact ⟨c, here, congrArg (c :: ·) (Option.some.inj same)⟩

theorem dropHexPrefix_split (cs : List Char) :
    ∃ lead ∈ [[], ['0', 'x'], ['0', 'X']], cs = lead ++ dropHexPrefix cs := by
  unfold dropHexPrefix
  split
  · exact ⟨['0', 'x'], by decide, rfl⟩
  · exact ⟨['0', 'X'], by decide, rfl⟩
  · exact ⟨[], by decide, rfl⟩

theorem dropHexPrefix_number (n : HexNumber) {lead : List Char}
    (ok : lead ∈ [[], ['0', 'x'], ['0', 'X']]) : dropHexPrefix (lead ++ n.digits) = n.digits := by
  simp only [List.mem_cons, List.not_mem_nil, or_false] at ok
  rcases ok with rfl | rfl | rfl
  · rw [List.nil_append]
    unfold dropHexPrefix
    split
    · rename_i cs digits
      exact absurd (n.hex 'x' (by rw [digits]; simp)) (by decide)
    · rename_i cs digits
      exact absurd (n.hex 'X' (by rw [digits]; simp)) (by decide)
    · rfl
  · rfl
  · rfl

theorem regexMatch_iff (cs : List Char) (m : Match) :
    regexMatch cs = some m ↔ ∃ e : Entry, e.text = cs ∧ e.groups = m := by
  constructor
  · intro h
    simp only [regexMatch, Option.bind_eq_bind, Option.bind_eq_some_iff, Prod.exists] at h
    obtain ⟨domain, r, h1, r, h2, bus, r, h3, r, h4, device, r, h5, r, h6, function, r, h7, r, h8,
      r, h9, h⟩ := h
    rw [Option.ite_none_right_eq_some] at h
    obtain ⟨⟨some_digit, hex⟩, same⟩ := h
    obtain ⟨domain, rfl, rfl⟩ := hexRun_some h1
    obtain ⟨point, point_ok, rfl⟩ := skip_some h2
    obtain ⟨bus, rfl, rfl⟩ := hexRun_some h3
    obtain ⟨colon, is_colon, rfl⟩ := skip_some h4
    obtain ⟨device, rfl, rfl⟩ := hexRun_some h5
    obtain ⟨dot, is_dot, rfl⟩ := skip_some h6
    obtain ⟨function, rfl, rfl⟩ := hexRun_some h7
    obtain ⟨dash, is_dash, rfl⟩ := skip_some h8
    obtain ⟨tip, is_tip, rfl⟩ := skip_some h9
    obtain rfl := of_decide_eq_true is_colon
    obtain rfl := of_decide_eq_true is_dot
    obtain rfl := of_decide_eq_true is_dash
    obtain rfl := of_decide_eq_true is_tip
    obtain ⟨lead, lead_ok, split⟩ := dropHexPrefix_split r
    refine ⟨⟨domain, point, point_ok, bus, device, function, lead, lead_ok,
      ⟨dropHexPrefix r, some_digit, List.all_eq_true.mp hex⟩⟩, ?_, Option.some.inj same⟩
    rw [Entry.text, ← split]
  · rintro ⟨e, rfl, rfl⟩
    have point : Numerals.isHex e.point = false := by
      have cases := e.point_ok
      simp only [isPoint, Bool.or_eq_true, decide_eq_true_eq] at cases
      rcases cases with same | same <;> rw [same] <;> decide
    have colon : Numerals.isHex ':' = false := by decide
    have dot : Numerals.isHex '.' = false := by decide
    have dash : Numerals.isHex '-' = false := by decide
    have hex : e.id.digits.all Numerals.isHex = true := List.all_eq_true.mpr e.id.hex
    simp only [regexMatch, Entry.text, hexRun_number _ point, hexRun_number _ colon,
      hexRun_number _ dot, hexRun_number _ dash, skip, e.point_ok, Option.bind_eq_bind,
      Option.bind_some, if_true, decide_true, dropHexPrefix_number e.id e.lead_ok]
    exact if_pos ⟨e.id.some_digit, hex⟩

end Rocsift.Kfd
