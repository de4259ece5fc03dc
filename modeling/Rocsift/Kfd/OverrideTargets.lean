import Mathlib.Data.List.Basic
import Rocsift.Base.BitField
import Rocsift.Base.Outcome
import Rocsift.Kfd.Override

/-! What the overrides do to the properties of a node. -/
namespace Rocsift.Kfd

def Targets (props : Properties) (e : Entry) : Prop :=
  e.domain.value = (props .domain_id).toNat ∧
    e.bus.value = (props .location_id).toNat / 2 ^ 8 % 2 ^ 8 ∧
      e.device.value = (props .location_id).toNat / 2 ^ 3 % 2 ^ 5 ∧
        e.function.value = (props .location_id).toNat % 2 ^ 3

instance (props : Properties) : DecidablePred (Targets props) :=
  fun _ => inferInstanceAs (Decidable (_ ∧ _ ∧ _ ∧ _))

structure Overridden (base : Properties) (entries : List Entry) (props : Properties) : Prop where
  device_id : props .device_id =
    (((entries.filter (Targets base)).getLast?).map fun e => BitVec.ofNat 64 e.id.value).getD
      (base .device_id)
  others : ∀ f ≠ .device_id, props f = base f

theorem stoul32_ok {n : HexNumber} (small : n.value < 2 ^ 32) :
    stoul32 n.digits = .ok (BitVec.ofNat 32 n.value) := by
  have fits : Numerals.stoul 16 n.digits = some n.value :=
    if_pos (Nat.lt_trans small (by decide))
  rw [stoul32, fits]

theorem stoul32_fits {n : HexNumber} {v : BitVec 32} (h : stoul32 n.digits = .ok v) :
    n.value < 2 ^ 64 := by
  by_contra big
  have none : Numerals.stoul 16 n.digits = none := if_neg big
  rw [stoul32, none] at h
  cases h

theorem applyOverride_fits {bus device function : BitVec 32} {props t : Properties} {e : Entry}
    (h : applyOverride bus device function props e.groups = .ok t) :
    ∀ n ∈ e.numbers, n.value < 2 ^ 64 := by
  obtain ⟨_, h1, h⟩ := Outcome.bind_ok h
  obtain ⟨_, h2, h⟩ := Outcome.bind_ok h
  obtain ⟨_, h3, h⟩ := Outcome.bind_ok h
  obtain ⟨_, h4, h⟩ := Outcome.bind_ok h
  obtain ⟨_, h5, h⟩ := Outcome.bind_ok h
  simp only [Entry.numbers, List.forall_mem_cons]
  exact ⟨stoul32_fits h1, stoul32_fits h2, stoul32_fits h3, stoul32_fits h4, stoul32_fits h5,
    List.forall_mem_nil _⟩

theorem ofNat_eq_field {n : Nat} (small : n < 2 ^ 32) (x mask : BitVec 64)
    (shift width : Nat) (ones : mask.toNat = 2 ^ width - 1) (narrow : width ≤ 32) :
    BitVec.ofNat 32 n = ((x >>> shift) &&& mask).setWidth 32 ↔
      n = x.toNat / 2 ^ shift % 2 ^ width := by
  have field : ((x >>> shift) &&& mask).toNat = x.toNat / 2 ^ shift % 2 ^ width := by
    rw [BitVec.toNat_and, ones, Nat.and_two_pow_sub_one_eq_mod, BitVec.toNat_ushiftRight,
      Nat.shiftRight_eq_div_pow]
  have less : x.toNat / 2 ^ shift % 2 ^ width < 2 ^ 32 :=
    Nat.lt_of_lt_of_le (Nat.mod_lt _ (Nat.two_pow_pos width))
      (Nat.pow_le_pow_right (by decide) narrow)
  rw [← BitVec.toNat_inj, BitVec.toNat_ofNat, BitVec.toNat_setWidth, field,
    Nat.mod_eq_of_lt small, Nat.mod_eq_of_lt less]

section
variable (base : Properties)

def busOf : BitVec 32 := ((base .location_id >>> BUS_ID_SHIFT) &&& BUS_ID_MASK).setWidth 32

def deviceOf : BitVec 32 :=
  ((base .location_id >>> DEVICE_ID_SHIFT) &&& DEVICE_ID_MASK).setWidth 32

def functionOf : BitVec 32 := (base .location_id &&& FUNCTION_ID_MASK).setWidth 32

theorem matches_iff {e : Entry} (small : ∀ n ∈ e.numbers, n.value < 2 ^ 32) :
    ((BitVec.ofNat 32 e.domain.value).setWidth 64 = base .domain_id ∧
      BitVec.ofNat 32 e.bus.value = busOf base ∧ BitVec.ofNat 32 e.device.value = deviceOf base ∧
        BitVec.ofNat 32 e.function.value = functionOf base) ↔ Targets base e := by
  simp only [Entry.numbers, List.forall_mem_cons] at small
  obtain ⟨domain, bus, device, function, -⟩ := small
  have same_domain : (BitVec.ofNat 32 e.domain.value).setWidth 64 = base .domain_id ↔
      e.domain.value = (base .domain_id).toNat := by
    rw [← BitVec.toNat_inj, BitVec.toNat_setWidth, BitVec.toNat_ofNat, Nat.mod_eq_of_lt domain,
      Nat.mod_eq_of_lt (Nat.lt_trans domain (by decide))]
  have same_bus : BitVec.ofNat 32 e.bus.value = busOf base ↔
      e.bus.value = (base .location_id).toNat / 2 ^ 8 % 2 ^ 8 :=
    ofNat_eq_field bus _ _ _ _ rfl (by decide)
  have same_device : BitVec.ofNat 32 e.device.value = deviceOf base ↔
      e.device.value = (base .location_id).toNat / 2 ^ 3 % 2 ^ 5 :=
    ofNat_eq_field device _ _ _ _ rfl (by decide)
  have same_function : BitVec.ofNat 32 e.function.value = functionOf base ↔
      e.function.value = (base .location_id).toNat % 2 ^ 3 := by
    have field := ofNat_eq_field function (base .location_id) FUNCTION_ID_MASK 0 3 rfl
      (by decide)
    rwa [BitVec.ushiftRight_zero, Nat.pow_zero, Nat.div_one] at field
  rw [same_domain, same_bus, same_device, same_function, Targets]

theorem applyOverride_ok {e : Entry} (small : ∀ n ∈ e.numbers, n.value < 2 ^ 32)
    (id : BitVec 64) :
    applyOverride (busOf base) (deviceOf base) (functionOf base)
        (Function.update base .device_id id) e.groups =
      .ok (Function.update base .device_id
        (if Targets base e then BitVec.ofNat 64 e.id.value else id)) := by
  have hits := matches_iff base small
  simp only [Entry.numbers, List.forall_mem_cons] at small
  obtain ⟨domain, bus, device, function, did, -⟩ := small
  have wide : (BitVec.ofNat 32 e.id.value).setWidth 64 = BitVec.ofNat 64 e.id.value := by
    rw [← BitVec.toNat_inj, BitVec.toNat_setWidth, BitVec.toNat_ofNat, BitVec.toNat_ofNat,
      Nat.mod_eq_of_lt did]
  have other : Function.update base .device_id id .domain_id = base .domain_id :=
    Function.update_of_ne (by decide) _ _
  simp only [applyOverride, Entry.groups, stoul32_ok domain, stoul32_ok bus, stoul32_ok device,
    stoul32_ok function, stoul32_ok did, bind, Except.bind, pure, Except.pure, other, hits, wide]
  split
  · rw [Function.update_idem]
  · rfl

theorem overrides_ok {entries : List Entry}
    (small : ∀ e ∈ entries, ∀ n ∈ e.numbers, n.value < 2 ^ 32) (id : BitVec 64) :
    (entries.map Entry.groups).foldlM
        (applyOverride (busOf base) (deviceOf base) (functionOf base))
        (Function.update base .device_id id) =
      .ok (Function.update base .device_id
        (((entries.filter (Targets base)).getLast?.map fun e => BitVec.ofNat 64 e.id.value).getD
          id)) := by
  induction entries generalizing id with
  | nil => rfl
  | cons e entries ih =>
    obtain ⟨here, later⟩ := List.forall_mem_cons.mp small
    rw [List.map_cons, List.foldlM_cons, applyOverride_ok base here]
    refine (ih later _).trans ?_
    by_cases hit : Targets base e
    · rw [if_pos hit, List.filter_cons_of_pos (by simpa using hit), List.getLast?_cons]
      cases (entries.filter (Targets base)).getLast? <;> rfl
    · rw [if_neg hit, List.filter_cons_of_neg (by simpa using hit)]

end

theorem matchEntry_text (e : Entry) : matchEntry e.text = .ok e.groups := by
  rw [matchEntry, (regexMatch_iff _ _).mpr ⟨e, rfl, rfl⟩]

theorem matchEntry_ok {cs : List Char} {m : Match} (h : matchEntry cs = .ok m) :
    ∃ e : Entry, e.text = cs ∧ e.groups = m := by
  unfold matchEntry at h
  split at h
  · rename_i found
    cases h
    exact (regexMatch_iff _ _).mp found
  · cases h

/-- The entries of a value are its pieces between commas. If all are of the form and their numbers
fit in 32 bits, the last one that names the node sets its id and nothing else changes; if one is
not of the form, or has a number past 64 bits, there are no properties for any node. -/
theorem overrides_hit_target (props_file overrides_string : List Char) :
    (∀ entries : List Entry, TextLines.pieces ',' overrides_string = entries.map Entry.text →
      (∀ e ∈ entries, ∀ n ∈ e.numbers, n.value < 2 ^ 32) →
        ∃ props, parseWithOverride props_file (some overrides_string) = .ok props ∧
          Overridden (parseKFDProperties props_file) entries props) ∧
    ((∃ p ∈ TextLines.pieces ',' overrides_string, ∀ e : Entry, e.text = p →
      ∃ n ∈ e.numbers, 2 ^ 64 ≤ n.value) →
        ∃ t, parseWithOverride props_file (some overrides_string) = .error t) := by
  rw [← TextLines.getLines_eq_pieces]
  constructor
  · intro entries split small
    have found : (entries.map Entry.text).mapM matchEntry = .ok (entries.map Entry.groups) := by
      clear split small
      induction entries with
      | nil => rfl
      | cons e entries ih =>
        rw [List.map_cons, List.mapM_cons, matchEntry_text, ih]
        rfl
    have done := overrides_ok (parseKFDProperties props_file) small
      (parseKFDProperties props_file .device_id)
    rw [Function.update_eq_self] at done
    refine ⟨_, ?_, Function.update_self .., fun f other => Function.update_of_ne other ..⟩
    rw [parseWithOverride, applyOverrides, split, found]
    exact done
  · rintro ⟨p, member, bad⟩
    cases result : parseWithOverride props_file (some overrides_string) with
    | error t => exact ⟨t, rfl⟩
    | ok props =>
      obtain ⟨found, matched, applied⟩ := Outcome.bind_ok result
      obtain ⟨i, at_i⟩ := List.getElem?_of_mem member
      obtain ⟨m, at_m, matches_p⟩ := (Outcome.mapM_getElem? matched i).2 p at_i
      obtain ⟨e, text, rfl⟩ := matchEntry_ok matches_p
      obtain ⟨s, t, step⟩ := Outcome.foldlM_mem applied (List.mem_of_getElem? at_m)
      obtain ⟨n, own, big⟩ := bad e text
      exact absurd (applyOverride_fits step n own) (Nat.not_lt.mpr big)

def hexNumber (s : String) (ok : s.toList ≠ [] ∧ s.toList.all Numerals.isHex = true) : HexNumber :=
  ⟨s.toList, ok.1, List.all_eq_true.mp ok.2⟩

def entryOfDomain (domain : HexNumber) : Entry :=
  let zero := hexNumber "0" (by decide)
  ⟨domain, ':', by decide, zero, zero, zero, [], by decide, hexNumber "1" (by decide)⟩

def readmeEntry : Entry :=
  ⟨hexNumber "0" (by decide), ':', by decide, hexNumber "03" (by decide),
    hexNumber "04" (by decide), hexNumber "1" (by decide), ['0', 'x'], by decide,
    hexNumber "74a1" (by decide)⟩

theorem readme_override : ∃ props,
    parseWithOverride "location_id 801\n".toList (some "0:03:04.1->0x74a1".toList) = .ok props ∧
      props .device_id = 0x74a1#64 := by
  have hit := (overrides_hit_target "location_id 801\n".toList "0:03:04.1->0x74a1".toList).1
    [readmeEntry] (by decide +kernel) (by decide +kernel)
  obtain ⟨props, read, overridden⟩ := hit
  refine ⟨props, read, overridden.device_id.trans ?_⟩
  decide +kernel

/-- The overrides, with the pieces of the value as its entries and numbers of any size. -/
structure HitsTarget (props_file overrides_string : List Char) : Prop where
  ok : ∀ entries : List Entry, overrides_string.splitOn ',' = entries.map Entry.text →
    ∃ props, parseWithOverride props_file (some overrides_string) = .ok props ∧
      Overridden (parseKFDProperties props_file) entries props
  error : (∃ p ∈ overrides_string.splitOn ',', ∀ e : Entry, e.text ≠ p) →
    ∃ t, parseWithOverride props_file (some overrides_string) = .error t

/-- A domain past 64 bits stops every parse, one past 32 bits names the node of domain 0, and a
comma at the end is let through. -/
theorem large_domains_miss :
    ¬ HitsTarget [] "10000000000000000:0:0.0->1".toList ∧
      ¬ HitsTarget [] "100000000:0:0.0->1".toList ∧ ¬ HitsTarget [] "0:0:0.0->1,".toList := by
  refine ⟨fun hits => ?_, fun hits => ?_, fun hits => ?_⟩
  · obtain ⟨props, read, -⟩ := hits.ok
      [entryOfDomain (hexNumber "10000000000000000" (by decide))] (by decide +kernel)
    have failed : parseWithOverride [] (some "10000000000000000:0:0.0->1".toList) =
        .error .out_of_range := by rfl
    rw [failed] at read
    cases read
  · let e := entryOfDomain (hexNumber "100000000" (by decide))
    obtain ⟨props, read, overridden⟩ := hits.ok [e] (by decide +kernel)
    have id : (parseWithOverride [] (some "100000000:0:0.0->1".toList)).map (· .device_id) =
        .ok 1#64 := by rfl
    have kept : (([e].filter (Targets (parseKFDProperties []))).getLast?.map fun e =>
        BitVec.ofNat 64 e.id.value).getD (parseKFDProperties [] .device_id) = 0#64 := by
      decide +kernel
    rw [read] at id
    exact absurd ((overridden.device_id.trans kept).symm.trans (Except.ok.inj id)) (by decide)
  · obtain ⟨t, failed⟩ := hits.error ⟨[], by decide +kernel, fun e => e.text_ne_nil⟩
    have id : (parseWithOverride [] (some "0:0:0.0->1,".toList)).map (· .device_id) =
        .ok 1#64 := by rfl
    rw [failed] at id
    cases id

end Rocsift.Kfd
