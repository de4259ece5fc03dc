import Rocsift.Base.TextLines
import Rocsift.Cmd.DumpRls
import Rocsift.Xlator.Create
import Rocsift.Xlator.RangeReturned

/-! `va2pa`: it translates a range, prints a line for each fragment of the list, and destroys the
list. -/
namespace Rocsift.Cmd
open Xlator Looping Numerals TextLines
open Blocks (Store Fault)

def isMi100 (id : BitVec 32) : Bool := [0x7388#32, 0x738C#32, 0x738E#32].contains id
def isNavi10 (id : BitVec 32) : Bool := [0x7310#32, 0x7312#32, 0x731B#32, 0x731F#32].contains id
def isNavi21 (id : BitVec 32) : Bool :=
  [0x73A1#32, 0x73A2#32, 0x73A3#32, 0x73A5#32, 0x73AB#32, 0x73AE#32, 0x73AF#32,
    0x73BF#32].contains id
def isNavi31 (id : BitVec 32) : Bool := [0x7448#32, 0x744C#32, 0x745E#32].contains id

def decodeMtype (mtype : BitVec 8) (id : BitVec 32) : Option String :=
  if isMi100 id || isMi200 id || isMi3xx id then ["NC", "RW", "CC", "UC"][mtype.toNat]?
  else if isNavi10 id || isNavi21 id || isNavi31 id then
    ["C_RW_US", "RESERVED", "C_RO_S", "UC", "C_RW_S", "RESERVED", "C_RO_US",
      "RESERVED"][mtype.toNat]?
  else none

section
variable (chip_id : BitVec 32)

def mtypeText (mtype : BitVec 8) : List Char :=
  match decodeMtype mtype chip_id with
  | some name => name.toList ++ ('(' :: digits 10 mtype.toNat ++ [')'])
  | none => digits 10 mtype.toNat

def numbered (label : String) (v : BitVec 8) : List Char := label.toList ++ digits 10 v.toNat

def addressText (v : BitVec 64) : List Char := "0x".toList ++ padded 16 16 v.toNat

/-- The words of a line; the format has a space between any two. -/
def fragmentWords (f : Fragment) : List (List Char) :=
  [numbered "V:" f.flags.valid, numbered "S:" f.flags.system, numbered "C:" f.flags.coherent,
    numbered "T:" f.flags.tmz, numbered "X:" f.flags.execute, numbered "R:" f.flags.read,
    numbered "W:" f.flags.write, "MType:".toList ++ mtypeText chip_id f.flags.mtype, "VA".toList,
    addressText f.va, "->".toList, "PA".toList, addressText f.pa,
    "Size:".toList ++ signed f.size.toInt]

def fragmentLine (f : Fragment) : List Char := [' '].intercalate (fragmentWords chip_id f)

def translationReport (fs : List Fragment) : List Char :=
  unlines '\n' (fs.map (fragmentLine chip_id))

/-- The loop over the nodes; a list has no more nodes than there were calls of `malloc`. -/
def printFragments (heap : Store FragmentNode) : Nat → Option Nat → Except Fault (List Char)
  | _, none => .ok []
  | 0, some _ => .error .endless
  | fuel + 1, some current => do
    let node ← heap.load current
    let rest ← printFragments heap fuel node.next
    return fragmentLine chip_id node.fragment ++ '\n' :: rest

structure Translated where
  printed : List Char
  code : Int
  heap : Store FragmentNode

def printTranslation (returned : Returned) : Except Fault Translated :=
  match returned.status with
  | .exited => .ok ⟨[], -1, returned.heap⟩
  | .failed => .ok ⟨[], -1, returned.heap⟩
  | .success => do
    let printed ← printFragments chip_id returned.heap (returned.heap.calls + 1) returned.list
    let heap ← siftXlatorFragmentListDestroy returned.list returned.heap
    return ⟨printed, 0, heap⟩

/-- A run of the tool from the created xlator on, with its registers, ends so. -/
def Va2Pa (supply : Nat → Bool) (reads : EntryAddr → EntryBytes) (r : Registers)
    (addr size : BitVec 64) (combine_fragments : Bool) (heap : Store FragmentNode)
    (out : Except Fault Translated) : Prop :=
  ∃ result,
    siftXlatorTranslateRangeReading supply reads r addr size combine_fragments none heap result ∧
      out = match result with
        | .error unread => .ok ⟨unread.1.toList, -1, unread.2⟩
        | .ok result => result.bind (printTranslation chip_id)

end

section
variable {chip_id : BitVec 32}

def Solid (cs : List Char) : Prop := ' ' ∉ cs ∧ '\n' ∉ cs

theorem Solid.append {cs ds : List Char} (left : Solid cs) (right : Solid ds) :
    Solid (cs ++ ds) :=
  ⟨fun h => (List.mem_append.mp h).elim left.1 right.1,
    fun h => (List.mem_append.mp h).elim left.2 right.2⟩

theorem solid_of_hex {cs : List Char} (all : ∀ c ∈ cs, isHex c = true) : Solid cs :=
  ⟨fun h => absurd (all _ h) (by decide), fun h => absurd (all _ h) (by decide)⟩

theorem solid_digits (n : Nat) : Solid (digits 10 n) := by
  refine solid_of_hex (digits_all (by decide) _ (fun d less => ?_) n)
  exact (digitChar_facts d (Nat.lt_trans less (by decide))).2

theorem solid_signed (n : Int) : Solid (signed n) := by
  unfold signed
  split
  · have sign : Solid ['-'] := ⟨by decide, by decide⟩
    exact sign.append (solid_digits _)
  · exact solid_digits _

theorem solid_address (v : BitVec 64) : Solid (addressText v) := by
  refine Solid.append ⟨by decide, by decide⟩ (solid_of_hex ?_)
  exact padded_all (by decide) _ _ (fun d less => (digitChar_facts d less).2) _

theorem name_letters {mtype : BitVec 8} {name : String}
    (found : decodeMtype mtype chip_id = some name) :
    Solid name.toList ∧ name.toList.filter isDecimal = [] := by
  have every : ∀ n ∈ ["NC", "RW", "CC", "UC"] ++ ["C_RW_US", "RESERVED", "C_RO_S", "UC", "C_RW_S",
      "RESERVED", "C_RO_US", "RESERVED"],
      (' ' ∉ n.toList ∧ '\n' ∉ n.toList) ∧ n.toList.filter isDecimal = [] := by decide
  apply every
  unfold decodeMtype at found
  split at found
  · exact List.mem_append_left _ (List.mem_of_getElem? found)
  · split at found
    · exact List.mem_append_right _ (List.mem_of_getElem? found)
    · cases found

theorem solid_mtype (mtype : BitVec 8) : Solid (mtypeText chip_id mtype) := by
  unfold mtypeText
  cases found : decodeMtype mtype chip_id with
  | none => exact solid_digits _
  | some name =>
    have opening : Solid ['('] := ⟨by decide, by decide⟩
    have closing : Solid [')'] := ⟨by decide, by decide⟩
    exact (name_letters found).1.append (opening.append ((solid_digits _).append closing))

theorem words_solid (f : Fragment) : ∀ w ∈ fragmentWords chip_id f, Solid w := by
  have number (v : BitVec 8) {label : String} (solid : Solid label.toList) :
      Solid (numbered label v) := solid.append (solid_digits _)
  simp only [fragmentWords, List.forall_mem_cons]
  refine ⟨number _ ?_, number _ ?_, number _ ?_, number _ ?_, number _ ?_, number _ ?_, number _ ?_,
    Solid.append ?_ (solid_mtype _), ?_, solid_address _, ?_, ?_, solid_address _,
    Solid.append ?_ (solid_signed _), List.forall_mem_nil _⟩
  all_goals exact ⟨by decide, by decide⟩

theorem digits_inj {n m : Nat} (same : digits 10 n = digits 10 m) : n = m := by
  have shows (k : Nat) : value 10 (digits 10 k) = k := value_digits (by decide) (by decide) k
  rw [← shows n, same, shows]

theorem number_inj {label : String} {v w : BitVec 8} (same : numbered label v = numbered label w) :
    v = w :=
  BitVec.eq_of_toNat_eq (digits_inj (List.append_cancel_left same))

theorem address_inj {v w : BitVec 64} (same : addressText v = addressText w) : v = w := by
  have text := congrArg (value 16) (List.append_cancel_left same)
  rw [value_padded (by decide) (by decide), value_padded (by decide) (by decide)] at text
  exact BitVec.eq_of_toNat_eq text

theorem signed_inj {n m : Int} (same : signed n = signed m) : n = m := by
  have digit (k : Nat) : '-' ∉ digits 10 k := fun h =>
    absurd (digits_all (by decide) _ digitChar_decimal k _ h) (by decide)
  unfold signed at same
  split at same <;> split at same
  · have abs := digits_inj (List.cons.inj same).2
    omega
  · exact absurd (same ▸ List.mem_cons_self) (digit _)
  · exact absurd (same ▸ List.mem_cons_self) (digit _)
  · have abs := digits_inj same
    omega

theorem mtype_digits (mtype : BitVec 8) :
    (mtypeText chip_id mtype).filter isDecimal = digits 10 mtype.toNat := by
  have number : (digits 10 mtype.toNat).filter isDecimal = digits 10 mtype.toNat :=
    List.filter_eq_self.mpr (digits_all (by decide) _ digitChar_decimal _)
  unfold mtypeText
  cases found : decodeMtype mtype chip_id with
  | none => exact number
  | some name =>
    have brackets : isDecimal '(' = false ∧ isDecimal ')' = false := by decide
    simp only [List.filter_append, (name_letters found).2, List.filter_cons, List.cons_append,
      brackets, number, List.filter_nil, List.nil_append]
    simp

structure Shown where
  valid : BitVec 8
  system : BitVec 8
  coherent : BitVec 8
  tmz : BitVec 8
  execute : BitVec 8
  read : BitVec 8
  write : BitVec 8
  mtype : BitVec 8
  va : BitVec 64
  pa : BitVec 64
  size : BitVec 64

def shown (f : Fragment) : Shown :=
  ⟨f.flags.valid, f.flags.system, f.flags.coherent, f.flags.tmz, f.flags.execute, f.flags.read,
    f.flags.write, f.flags.mtype, f.va, f.pa, f.size⟩

theorem line_shows {f g : Fragment} (same : fragmentLine chip_id f = fragmentLine chip_id g) :
    shown f = shown g := by
  have words (f : Fragment) : (fragmentLine chip_id f).splitOn ' ' = fragmentWords chip_id f :=
    List.splitOn_intercalate ' ' (fun w hw => (words_solid f w hw).1) (List.cons_ne_nil _ _)
  have all := congrArg (List.splitOn ' ') same
  rw [words, words] at all
  simp only [fragmentWords, List.cons.injEq] at all
  obtain ⟨v, s, c, t, x, r, w, m, -, va, -, -, pa, size, -⟩ := all
  have mtype := congrArg (List.filter isDecimal) (List.append_cancel_left m)
  rw [mtype_digits, mtype_digits] at mtype
  simp only [shown, number_inj v, number_inj s, number_inj c, number_inj t, number_inj x,
    number_inj r, number_inj w, BitVec.eq_of_toNat_eq (digits_inj mtype), address_inj va,
    address_inj pa, BitVec.eq_of_toInt_eq (signed_inj (List.append_cancel_left size))]

theorem intercalate_free {c : Char} {sep : List Char} (free : c ∉ sep) {ws : List (List Char)}
    (words : ∀ w ∈ ws, c ∉ w) : c ∉ sep.intercalate ws := by
  induction ws with
  | nil => exact List.not_mem_nil
  | cons w ws ih =>
    obtain ⟨here, later⟩ := List.forall_mem_cons.mp words
    cases ws with
    | nil => rwa [List.intercalate_singleton]
    | cons v ws =>
      rw [List.intercalate_cons_cons, List.mem_append, List.mem_append]
      rintro ((inside | inside) | inside)
      · exact here inside
      · exact free inside
      · exact ih later inside

theorem report_shows {fs gs : List Fragment}
    (same : translationReport chip_id fs = translationReport chip_id gs) :
    fs.map shown = gs.map shown := by
  have free (fs : List Fragment) : ∀ l ∈ fs.map (fragmentLine chip_id), '\n' ∉ l := by
    rw [List.forall_mem_map]
    exact fun f _ => intercalate_free (by decide) fun w hw => (words_solid f w hw).2
  have lines := congrArg (lines '\n') same
  rw [translationReport, translationReport, lines_unlines _ (free fs), lines_unlines _ (free gs)]
    at lines
  clear same
  induction fs generalizing gs with
  | nil =>
    cases gs with
    | nil => rfl
    | cons g gs => cases lines
  | cons f fs ih =>
    cases gs with
    | nil => cases lines
    | cons g gs =>
      obtain ⟨here, later⟩ := List.cons.inj lines
      rw [List.map_cons, List.map_cons, line_shows here, ih later]

end

section
variable {chip_id : BitVec 32} {start : Store FragmentNode} {fs : List Fragment}

theorem printFragments_listed {m k fuel : Nat} (whole : k + m = fs.length) (enough : m ≤ fuel) :
    printFragments chip_id (Xlator.listed start fs) fuel
        (if m = 0 then none else some (start.calls + k)) =
      .ok (translationReport chip_id (fs.drop k)) := by
  induction m generalizing k fuel with
  | zero =>
    have none : fs.drop k = [] := List.drop_eq_nil_of_le (Nat.le_of_eq whole.symm)
    rw [if_pos rfl, none]
    cases fuel <;> rfl
  | succ m ih =>
    obtain ⟨fuel, rfl⟩ := Nat.exists_eq_add_of_lt enough
    have inside : k < fs.length := by omega
    have node := @listed_cells start fs k
    rw [List.getElem?_eq_getElem inside, Option.map_some] at node
    have next : (if k + 1 < fs.length then some (start.calls + k + 1) else none) =
        if m = 0 then none else some (start.calls + (k + 1)) := by
      split <;> split <;> first | rfl | omega
    rw [next] at node
    have later : k + 1 + m = fs.length := by omega
    have rest := ih later (Nat.le_add_right m fuel)
    rw [if_neg (Nat.succ_ne_zero m), List.drop_eq_getElem_cons inside]
    simp only [printFragments, Store.load_ok node, rest, bind, Except.bind, pure, Except.pure]
    simp only [translationReport, unlines, List.map_cons, List.flatMap_cons, List.append_assoc,
      List.singleton_append]

theorem printTranslation_listed (some_fragment : fs ≠ []) : ∃ heap, heap.cells = start.cells ∧
    printTranslation chip_id ⟨.success, some start.calls, Xlator.listed start fs⟩ =
      .ok ⟨translationReport chip_id fs, 0, heap⟩ := by
  have length : fs.length ≠ 0 := mt List.length_eq_zero_iff.mp some_fragment
  have short : fs.length ≤ (Xlator.listed start fs).calls + 1 :=
    Nat.le_succ_of_le (Nat.le_add_left _ _)
  have printed := @printFragments_listed chip_id start fs _ _ _ (Nat.zero_add _) short
  have chain := @listed_chain start fs fs.length 0 (Nat.zero_add _)
  simp only [if_neg length, Nat.add_zero, List.drop_zero] at printed chain
  let heap := (Xlator.listed start fs).without (List.range' start.calls fs.length)
  have freed : (Xlator.listed start fs).freeChain FragmentNode.next
      ((Xlator.listed start fs).calls + 1) (some start.calls) = .ok heap :=
    Store.freeChain_ok chain (List.nodup_range' _) (by rwa [List.length_range'])
  refine ⟨heap, funext listed_without, ?_⟩
  simp only [printTranslation, printed, siftXlatorFragmentListDestroy, freed, bind, Except.bind]
  rfl

end

/-- `va2pa` prints a translation that can be read back. Where the range is translated, the entries
on the way can be read and there is memory for the list, it prints the list and frees each node of
it once; no run uses a node that is freed, and each other one prints nothing, or what `read_ent`
says of an entry; and two translations are printed alike only if their fragments are shown alike. -/
theorem va2pa_reports (chip_id : BitVec 32) (supply : Nat → Bool) (reads : EntryAddr → EntryBytes)
    (r : Registers) (addr size : BitVec 64) (combine : Bool) (start : Store FragmentNode) :
    (∀ fs, siftXlatorTranslateRange (entryValues reads) r addr size combine (.list fs) →
      EntriesRead reads r addr size combine →
      (∀ k < fs.length, supply (start.calls + k) = true) →
        ∃ heap, Va2Pa chip_id supply reads r addr size combine start
          (.ok ⟨translationReport chip_id fs, 0, heap⟩)) ∧
    (∀ out, Va2Pa chip_id supply reads r addr size combine start out →
      ∃ t, out = .ok t ∧ (t.printed = [] ∧ t.code = -1 ∨
        (∃ e line, readEnt (reads e) = .error line ∧ t.printed = line.toList ∧ t.code = -1) ∨
        ∃ fs, siftXlatorTranslateRange (entryValues reads) r addr size combine (.list fs) ∧
          t.printed = translationReport chip_id fs ∧ t.code = 0 ∧ t.heap.cells = start.cells)) ∧
    ∀ fs gs, translationReport chip_id fs = translationReport chip_id gs →
      fs.map shown = gs.map shown := by
  refine ⟨fun fs translated entries memory => ?_, ?_, fun fs gs => report_shows⟩
  · obtain ⟨heap, -, printed⟩ :=
      @printTranslation_listed chip_id start fs (list_nonempty translated)
    exact ⟨heap, _, reading_returned entries (list_returned translated memory), printed.symm⟩
  · rintro out ⟨result, ended, rfl⟩
    rcases returned_reading ended with ⟨result, rfl, ends⟩ | ⟨e, line, heap, failed, rfl⟩
    · obtain ⟨returned, rfl, list⟩ := returned_list ends
      cases status : returned.status with
      | failed =>
        refine ⟨⟨[], -1, returned.heap⟩, ?_, .inl ⟨rfl, rfl⟩⟩
        simp only [Except.bind, printTranslation, status]
      | exited =>
        refine ⟨⟨[], -1, returned.heap⟩, ?_, .inl ⟨rfl, rfl⟩⟩
        simp only [Except.bind, printTranslation, status]
      | success =>
        obtain ⟨fs, translated, rfl⟩ := list status
        obtain ⟨heap, same, printed⟩ :=
          @printTranslation_listed chip_id start fs (list_nonempty translated)
        exact ⟨_, printed, .inr (.inr ⟨fs, translated, rfl, rfl, same⟩)⟩
    · exact ⟨_, rfl, .inr (.inl ⟨e, line, failed, rfl, rfl⟩)⟩

theorem va2pa_reports_two : ∃ heap, Va2Pa 0x74A1#32 (fun _ => true)
    (.all ∘ systemMemory
      [(0x5000#64, 0x6003#64), (0x6008#64, 0x9003#64), (0x6010#64, 0xb003#64)])
    (oneDirectory 0x5003#32) 0x1000#64 0x2000#64 false Store.empty
    (.ok ⟨translationReport 0x74A1#32
      [smallPage 0x1000#64 0x9003#64, smallPage 0x2000#64 0xb003#64], 0, heap⟩) := by
  refine (va2pa_reports _ _ _ _ _ _ _ _).1 _ ⟨3, ?_⟩ (fun _ _ _ e _ => ⟨_, rfl⟩) fun _ _ => rfl
  decide +kernel

end Rocsift.Cmd
