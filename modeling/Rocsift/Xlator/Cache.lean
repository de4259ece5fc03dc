import Rocsift.Xlator.Walk

/-! The cache of directory entries over a sequence of walks with one helper. Its slots are keyed
by the number of an address alone, and a cleared slot looks like one that holds a zero at address
zero. It is transparent as long as neither is taken for another entry. -/
namespace Rocsift.Xlator

abbrev EntryLookup := SlotLookup Nat (BitVec 64) (BitVec 64)

def tableReads (mem : Memory) (h : WalkHelper) (va : BitVec 64) :
    Nat → BitVec 64 → List EntryLookup
  | level, base =>
    let pde := getPdeFields base
    if pde.pte ≠ 0#8 then []
    else
      let e := tableEntry h va level pde
      ⟨level, e.addr, mem e⟩ ::
        match level with
        | 0 => []
        | level + 1 => tableReads mem h va level (mem e)

def walkReads (mem : Memory) (h : WalkHelper) (va : BitVec 64) : List EntryLookup :=
  if h.pt_depth = 0 then []
  else tableReads mem h (va - h.pt_start_addr) h.pt_depth h.pt_base_addr

theorem cachedFetch_fits {mem : Memory} {cache : PdeCache} {level : Nat} {e : EntryAddr}
    (fits : cache.Fits ⟨level, e.addr, mem e⟩) :
    (cachedFetch cache level e).value mem = (mem e, cache.store level e.addr (mem e)) := by
  unfold cachedFetch
  split
  · rename_i hit
    have kept := @SlotCache.store_hit _ _ _ _ cache ⟨level, e.addr, mem e⟩ hit fits
    have same : mem e = (cache level).2 := fits hit
    rw [Reading.value_pure, kept, same]
  · simp only [Reading.value_bind, Reading.value_get, Reading.value_pure]

theorem descend_coherent {mem : Memory} {h : WalkHelper} {va : BitVec 64} (level : Nat)
    (base : BitVec 64) (cache other : PdeCache)
    (coherent : cache.Coherent (tableReads mem h va level base)) :
    (descend cachedFetch h va level base cache).value mem =
      (((descend memoryFetch h va level base other).value mem).1,
        cache.after (tableReads mem h va level base)) := by
  induction level generalizing base cache with
  | zero =>
    rw [descend, descend, tableReads] at *
    split
    · rfl
    · rename_i table
      simp only [if_neg table] at coherent ⊢
      simp only [Reading.value_bind, cachedFetch_fits coherent.1, memoryFetch, Reading.value_get,
        Reading.value_pure]
      rfl
  | succ level ih =>
    rw [descend, descend, tableReads] at *
    split
    · rfl
    · rename_i table
      simp only [if_neg table] at coherent ⊢
      simp only [Reading.value_bind, cachedFetch_fits coherent.1, memoryFetch, Reading.value_get,
        Reading.value_pure]
      rw [ih _ _ coherent.2]
      rfl

theorem walkPt_coherent {mem : Memory} {h : WalkHelper} {va : BitVec 64} {cache : PdeCache}
    (coherent : cache.Coherent (walkReads mem h va)) :
    (walkPt h cache va).value mem = (walkMemory h mem va, cache.after (walkReads mem h va)) := by
  unfold walkPt walkMemory walkWith
  unfold walkReads at *
  split
  · rfl
  · rename_i deep
    simp only [if_neg deep] at coherent
    simp only [Reading.value_bind, Reading.value_pure,
      descend_coherent h.pt_depth h.pt_base_addr cache PdeCache.cleared coherent]

def walkAll (mem : Memory) (h : WalkHelper) : PdeCache → List (BitVec 64) →
    List (Option WalkResults)
  | _, [] => []
  | cache, va :: vas =>
    let walked := (walkPt h cache va).value mem
    walked.1 :: walkAll mem h walked.2 vas

theorem walkAll_coherent {mem : Memory} {h : WalkHelper} (cache : PdeCache)
    (vas : List (BitVec 64)) (coherent : cache.Coherent (vas.flatMap (walkReads mem h))) :
    walkAll mem h cache vas = vas.map (walkMemory h mem) := by
  induction vas generalizing cache with
  | nil => rfl
  | cons va vas ih =>
    obtain ⟨here, rest⟩ := (cache.coherent_append _ _).mp coherent
    rw [walkAll, walkPt_coherent here, List.map_cons]
    exact congrArg (walkMemory h mem va :: ·) (ih _ rest)

/-- The table entries a sequence of walks meets do not mislead the cache: at each level, an entry
whose address is the one met last there holds the same, and one at address zero that is met
first holds zero. -/
def Unambiguous (mem : Memory) (h : WalkHelper) (vas : List (BitVec 64)) : Prop :=
  PdeCache.cleared.Coherent (vas.flatMap (walkReads mem h))

instance (mem : Memory) (h : WalkHelper) (vas : List (BitVec 64)) :
    Decidable (Unambiguous mem h vas) :=
  SlotCache.decidableCoherent _ _

/-- Two raw entries that are decoded to the same fields. -/
structure Alike (raw raw' : BitVec 64) : Prop where
  pde : getPdeFields raw = getPdeFields raw'
  pte : getPteFields raw = getPteFields raw'

theorem Alike.refl (raw : BitVec 64) : Alike raw raw := ⟨rfl, rfl⟩

def PdeCache.Alike (cache cache' : PdeCache) : Prop :=
  ∀ level, (cache level).1 = (cache' level).1 ∧ Xlator.Alike (cache level).2 (cache' level).2

theorem PdeCache.Alike.store {cache cache' : PdeCache} (caches : cache.Alike cache')
    (level : Nat) (addr : BitVec 64) {raw raw' : BitVec 64} (alike : Xlator.Alike raw raw') :
    PdeCache.Alike (cache.store level addr raw) (cache'.store level addr raw') := by
  intro other
  unfold SlotCache.store
  by_cases here : other = level
  · rw [here, Function.update_self, Function.update_self]
    exact ⟨rfl, alike⟩
  · rw [Function.update_of_ne here, Function.update_of_ne here]
    exact caches other

/-- What is fetched from memories and caches that are decoded alike is decoded alike, and leaves the
caches so. -/
def Fetch.Alike (fetch : Fetch) (mem mem' : Memory) : Prop :=
  ∀ cache cache', PdeCache.Alike cache cache' → ∀ level e,
    Xlator.Alike ((fetch cache level e).value mem).1 ((fetch cache' level e).value mem').1 ∧
      PdeCache.Alike ((fetch cache level e).value mem).2 ((fetch cache' level e).value mem').2

section
variable {mem mem' : Memory} (memories : ∀ e, Alike (mem e) (mem' e))
include memories

theorem cachedFetch_alike : Fetch.Alike cachedFetch mem mem' := by
  intro cache cache' caches level e
  unfold cachedFetch
  rw [← (caches level).1]
  split
  · exact ⟨(caches level).2, caches⟩
  · exact ⟨memories e, caches.store level e.addr (memories e)⟩

theorem memoryFetch_alike : Fetch.Alike memoryFetch mem mem' :=
  fun _ _ caches _ e => ⟨memories e, caches⟩

theorem leaf_alike (h : WalkHelper) (va : BitVec 64) {d d' : Descent} (base : Alike d.base d'.base)
    (pde : d.pde = d'.pde) (level : d.level = d'.level) :
    (leaf h va d).value mem = (leaf h va d').value mem' := by
  obtain ⟨raw, pde, level⟩ := d
  obtain ⟨raw', pde', level'⟩ := d'
  subst pde level
  simp only [leaf, nativeSize, base.pde, base.pte, Reading.value_ite, Reading.value_bind,
    Reading.value_get, Reading.value_pure, (memories _).pte]

variable {fetch : Fetch} (fetches : fetch.Alike mem mem')
include fetches

omit memories in
theorem descend_alike (h : WalkHelper) (va : BitVec 64) (level : Nat) {base base' : BitVec 64}
    (bases : Alike base base') {cache cache' : PdeCache} (caches : cache.Alike cache') :
    let d := (descend fetch h va level base cache).value mem
    let d' := (descend fetch h va level base' cache').value mem'
    (Alike d.1.base d'.1.base ∧ d.1.pde = d'.1.pde ∧ d.1.level = d'.1.level) ∧
      d.2.Alike d'.2 := by
  induction level generalizing base base' cache cache' with
  | zero =>
    rw [descend, descend, ← bases.pde]
    split
    · exact ⟨⟨bases, rfl, rfl⟩, caches⟩
    · simp only [Reading.value_bind]
      obtain ⟨raws, later⟩ := fetches cache cache' caches 0 (tableEntry h va 0 (getPdeFields base))
      exact ⟨⟨raws, rfl, rfl⟩, later⟩
  | succ level ih =>
    rw [descend, descend, ← bases.pde]
    split
    · exact ⟨⟨bases, rfl, rfl⟩, caches⟩
    · simp only [Reading.value_bind]
      obtain ⟨raws, later⟩ :=
        fetches cache cache' caches (level + 1) (tableEntry h va (level + 1) (getPdeFields base))
      exact ih raws later

theorem walkWith_alike (h : WalkHelper) (va : BitVec 64) {cache cache' : PdeCache}
    (caches : cache.Alike cache') :
    let walked := (walkWith fetch h cache va).value mem
    let walked' := (walkWith fetch h cache' va).value mem'
    walked.1 = walked'.1 ∧ walked.2.Alike walked'.2 := by
  unfold walkWith
  split
  · exact ⟨rfl, caches⟩
  · simp only [Reading.value_bind, Reading.value_pure]
    obtain ⟨⟨base, pde, level⟩, later⟩ := descend_alike fetches h (va - h.pt_start_addr) h.pt_depth
      (Alike.refl h.pt_base_addr) caches
    exact ⟨leaf_alike memories h _ base pde level, later⟩

omit fetches in
theorem walkAll_alike (h : WalkHelper) (vas : List (BitVec 64)) {cache cache' : PdeCache}
    (caches : cache.Alike cache') : walkAll mem h cache vas = walkAll mem' h cache' vas := by
  induction vas generalizing cache cache' with
  | nil => rfl
  | cons va vas ih =>
    obtain ⟨results, later⟩ := walkWith_alike memories (cachedFetch_alike memories) h va caches
    rw [walkAll, walkAll]
    exact congr (congrArg List.cons results) (ih later)

omit fetches in
theorem walkMemory_alike (h : WalkHelper) (va : BitVec 64) :
    walkMemory h mem va = walkMemory h mem' va :=
  (walkWith_alike memories (memoryFetch_alike memories) h va fun _ => ⟨rfl, Alike.refl _⟩).1

end

/-- No field is decoded from the bits 48 to 50. -/
def decodedBits : BitVec 64 := 0xfff8ffffffffffff#64

def Memory.decoded (mem : Memory) : Memory := fun e => mem e &&& decodedBits

theorem getBits_decoded {msb lsb : Nat}
    (covered : (decodedBits &&& BitField.mask msb) >>> lsb = BitField.mask msb >>> lsb)
    (raw : BitVec 64) : getBits (raw &&& decodedBits) msb lsb = getBits raw msb lsb :=
  BitField.extract_and covered raw

theorem alike_decoded (raw : BitVec 64) : Alike raw (raw &&& decodedBits) := by
  constructor
  · simp (disch := decide) only [getPdeFields, getByte, getBits_decoded]
  · simp (disch := decide) only [getPteFields, getByte, getBits_decoded]

theorem walks_transparent (mem : Memory) (r : Registers) (vas : List (BitVec 64))
    (unambiguous : Unambiguous mem.decoded (populateWalkHelper r) vas) :
    walkAll mem (populateWalkHelper r) PdeCache.cleared vas =
      vas.map (walkMemory (populateWalkHelper r) mem) := by
  have memories : ∀ e, Alike (mem e) (mem.decoded e) := fun e => alike_decoded (mem e)
  rw [walkAll_alike memories _ vas fun _ => ⟨rfl, Alike.refl _⟩, walkAll_coherent _ vas unambiguous]
  exact List.map_congr_left fun va _ => (walkMemory_alike memories _ va).symm

theorem walks_transparent_returning :
    let mem := systemMemory [(0x5000#64, 0x6003#64), (0x6008#64, 0x9003#64), (0x6010#64, 0xa003#64)]
    let h := populateWalkHelper (oneDirectory 0x5003#32)
    let vas := [0x1000#64, 0x2000#64, 0x1000#64, 0#64, 0x1234#64]
    walkAll mem h PdeCache.cleared vas = vas.map (walkMemory h mem) :=
  walks_transparent _ _ _ (of_decide_eq_true (by decide +kernel))

/-- A table in system memory and one in video memory under the same number: the second walk is
given the entry of the first. -/
theorem same_number_confused :
    let mem : Memory := fun e =>
      if e = ⟨true, 0x5000#64⟩ then 0x6003#64
      else if e = ⟨true, 0x5008#64⟩ then 0x6001#64
      else if e = ⟨true, 0x6008#64⟩ then 0x9003#64
      else if e = ⟨false, 0x6008#64⟩ then 0x2a001#64
      else 0#64
    let h := populateWalkHelper (oneDirectory 0x5003#32)
    let vas := [0x1000#64, 0x201000#64]
    walkAll mem h PdeCache.cleared vas ≠ vas.map (walkMemory h mem) := by
  decide +kernel

theorem unambiguous_of_placed (mem : Memory) (h : WalkHelper) (vas : List (BitVec 64))
    (nonzero : ∀ q ∈ vas.flatMap (walkReads mem h), q.key ≠ 0#64)
    (apart : ∀ q ∈ vas.flatMap (walkReads mem h), ∀ q' ∈ vas.flatMap (walkReads mem h),
      q.slot = q'.slot → q.key = q'.key → q.value = q'.value) : Unambiguous mem h vas :=
  SlotCache.coherent_of_function _ _ (fun q hq hit => absurd hit (nonzero q hq)) apart

end Rocsift.Xlator
