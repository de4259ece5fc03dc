import Rocsift.Pm4.Sections

/-! The data section of a line as a list of tokens separated by blanks, and the strings on which
the search for eight hexadecimal digits agrees with it. -/
namespace Rocsift.Pm4

/-- A token is eight hexadecimal digits between blanks or the ends of the string; its dword is the
value of its digits. -/
inductive Tokens : List Char → List Dword → Prop
  | nil : Tokens [] []
  | blank {c : Char} {cs : List Char} {ds : List Dword} :
      isSpace c = true → Tokens cs ds → Tokens (c :: cs) ds
  | token {w cs : List Char} {d : Dword} {ds : List Dword} :
      w.length = 8 → (∀ c ∈ w, Numerals.isHex c = true) → d.toNat = Numerals.value 16 w →
      (∀ c ∈ cs.head?, isSpace c = true) → Tokens cs ds → Tokens (w ++ cs) (d :: ds)

/-- The words of the string, split at every blank: an empty one where two blanks meet. -/
def words (cs : List Char) : List (List Char) := cs.splitOnP isSpace

def IsDword (w : List Char) : Prop := w.length = 8 ∧ ∀ c ∈ w, Numerals.isHex c = true

instance (w : List Char) : Decidable (IsDword w) :=
  inferInstanceAs (Decidable (_ ∧ _))

def AllDwords (cs : List Char) : Prop := ∀ w ∈ words cs, w = [] ∨ IsDword w

instance (cs : List Char) : Decidable (AllDwords cs) :=
  inferInstanceAs (Decidable (∀ w ∈ words cs, _))

theorem words_blank {c : Char} (h : isSpace c = true) (cs : List Char) :
    words (c :: cs) = [] :: words cs := by
  have none : ∀ c ∈ ([] : List Char), isSpace c = false := fun _ member => nomatch member
  exact List.splitOnP_append_cons_of_forall_mem none c h cs

theorem words_word {w cs : List Char} (plain : ∀ c ∈ w, isSpace c = false)
    (stop : ∀ c ∈ cs.head?, isSpace c = true) :
    words (w ++ cs) = w :: (words cs).tail := by
  cases cs with
  | nil =>
    rw [List.append_nil]
    exact List.splitOnP_eq_singleton plain
  | cons c cs =>
    have space := stop c rfl
    rw [words_blank space, List.tail_cons]
    exact List.splitOnP_append_cons_of_forall_mem plain c space cs

theorem words_head {cs : List Char} (stop : ∀ c ∈ cs.head?, isSpace c = true) :
    words cs = [] :: (words cs).tail :=
  words_word (w := []) (by simp) stop

theorem IsDword.plain {w : List Char} (h : IsDword w) : ∀ c ∈ w, isSpace c = false :=
  fun c hc => (hex_plain (h.2 c hc)).2

theorem AllDwords.of_tokens {cs : List Char} {ds : List Dword} (h : Tokens cs ds) :
    AllDwords cs := by
  induction h with
  | nil =>
    intro w hw
    exact Or.inl (List.mem_singleton.mp hw)
  | blank space _ ih =>
    intro w hw
    rw [words_blank space] at hw
    rcases List.mem_cons.mp hw with empty | hw
    · exact Or.inl empty
    · exact ih w hw
  | token len hex _ stop _ ih =>
    intro w hw
    rw [words_word (IsDword.plain ⟨len, hex⟩) stop] at hw
    rcases List.mem_cons.mp hw with rfl | hw
    · exact Or.inr ⟨len, hex⟩
    · exact ih w (List.mem_of_mem_tail hw)

theorem AllDwords.tokens {cs : List Char} (h : AllDwords cs) : ∃ ds, Tokens cs ds := by
  induction len : cs.length using Nat.strongRecOn generalizing cs with
  | ind n ih =>
    cases cs with
    | nil => exact ⟨[], .nil⟩
    | cons c cs =>
      by_cases space : isSpace c = true
      · rw [AllDwords, words_blank space] at h
        obtain ⟨ds, tokens⟩ := ih cs.length (by simp at len; omega)
          (fun w hw => h w (List.mem_cons_of_mem _ hw)) rfl
        exact ⟨ds, .blank space tokens⟩
      · -- the word that begins here, and what follows it
        obtain ⟨w, rest, cut, plain, stop, some_char⟩ : ∃ w rest, c :: cs = w ++ rest ∧
            (∀ d ∈ w, isSpace d = false) ∧ (∀ d ∈ rest.head?, isSpace d = true) ∧ w ≠ [] := by
          refine ⟨(c :: cs).takeWhile fun d => !isSpace d, (c :: cs).dropWhile fun d => !isSpace d,
            List.takeWhile_append_dropWhile.symm, ?_, ?_, ?_⟩
          · intro d hd
            simpa using List.mem_takeWhile_imp hd
          · intro d hd
            have stops := List.head?_dropWhile_not (fun d => !isSpace d) (c :: cs)
            rw [Option.mem_def] at hd
            rw [hd] at stops
            simpa using stops
          · simp [space]
        rw [cut] at h len ⊢
        rw [AllDwords, words_word plain stop] at h
        have dword : IsDword w := (h w List.mem_cons_self).resolve_left some_char
        have small : Numerals.value 16 w < 2 ^ 32 := by
          have below := Numerals.value_hex_lt w
          rw [dword.1] at below
          exact below
        have later : AllDwords rest := by
          intro v hv
          rw [words_head stop] at hv
          rcases List.mem_cons.mp hv with empty | hv
          · exact Or.inl empty
          · exact h v (List.mem_cons_of_mem _ hv)
        have shorter : rest.length < n := by
          rw [List.length_append, dword.1] at len
          omega
        obtain ⟨ds, tokens⟩ := ih rest.length shorter later rfl
        exact ⟨BitVec.ofNat 32 (Numerals.value 16 w) :: ds,
          .token dword.1 dword.2 (Nat.mod_eq_of_lt small) stop tokens⟩

theorem isSpace_not_hex {c : Char} (h : isSpace c = true) : Numerals.isHex c = false := by
  by_contra hex
  have plain := (hex_plain (Bool.eq_true_of_not_eq_false hex)).2
  rw [h] at plain
  cases plain

theorem Tokens.found {cs : List Char} {ds : List Dword} (h : Tokens cs ds) {fuel : Nat}
    (enough : cs.length ≤ fuel) :
    (dataMatches fuel cs).map (Numerals.value 16) = ds.map BitVec.toNat := by
  induction h generalizing fuel with
  | nil => rw [dataMatches_nil]; rfl
  | @blank c cs ds space _ ih =>
    obtain ⟨fuel, rfl⟩ : ∃ n, fuel = n + 1 := ⟨fuel - 1, by simp at enough; omega⟩
    have stop := startsDword_stop (isSpace_not_hex space) cs
    rw [dataMatches, stop, if_neg (by decide), List.drop_one, List.tail_cons]
    exact ih (by simpa using enough)
  | @token w cs d ds len hex value _ _ ih =>
    rw [List.length_append, len] at enough
    obtain ⟨fuel, rfl⟩ : ∃ n, fuel = n + 1 := ⟨fuel - 1, by omega⟩
    have starts := startsDword_append len hex cs
    rw [dataMatches, if_pos starts.1, starts.2.1, starts.2.2, List.map_cons, List.map_cons,
      ih (by omega), value]

theorem Tokens.parse {cs : List Char} {ds : List Dword} (h : Tokens cs ds) :
    parseDataSection cs = .ok ds := by
  have found := h.found (Nat.le_refl _)
  have dwords : (dataMatches cs.length cs).map (fun w => BitVec.ofNat 32 (Numerals.value 16 w)) =
      ((dataMatches cs.length cs).map (Numerals.value 16)).map (BitVec.ofNat 32) := by
    simp [List.map_map, Function.comp_def]
  rw [parseDataSection_matches, dwords, found]
  simp [List.map_map, Function.comp_def]

/-- No dword of the string is skipped or split: what is accepted is a list of tokens with these
values, and every such list is accepted. -/
structure TokenExact (cs : List Char) : Prop where
  sound : ∀ ds, parseDataSection cs = .ok ds → Tokens cs ds
  complete : ∀ ds, Tokens cs ds → parseDataSection cs = .ok ds

theorem tokenExact_iff (data_section : List Char) :
    TokenExact data_section ↔ AllDwords data_section := by
  constructor
  · intro exact_string
    obtain ⟨ds, ok⟩ := parseDataSection_ok data_section
    exact .of_tokens (exact_string.sound ds ok)
  · intro dwords
    obtain ⟨ds, tokens⟩ := dwords.tokens
    constructor
    · intro es ok
      rw [tokens.parse] at ok
      cases ok
      exact tokens
    · intro es other
      exact other.parse

theorem nine_digits_not_exact :
    parseDataSection "c005a2001 28000010".toList = .ok [0xc005a200#32, 0x28000010#32] ∧
      ¬ TokenExact "c005a2001 28000010".toList := by
  constructor
  · decide
  · rw [tokenExact_iff]
    decide

end Rocsift.Pm4
