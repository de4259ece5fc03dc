import Mathlib.Data.List.Forall2

/-! What a successful run in `Except` says about its parts. -/
namespace Outcome

variable {E A B S : Type}

theorem bind_ok {x : Except E A} {f : A → Except E B} {b : B} (h : (x >>= f) = .ok b) :
    ∃ a, x = .ok a ∧ f a = .ok b := by
  cases x with
  | error e => cases h
  | ok a => exact ⟨a, rfl, h⟩

theorem mapM_ok {f : A → Except E B} {l : List A} {r : List B} (h : l.mapM f = .ok r) :
    List.Forall₂ (fun a b => f a = .ok b) l r := by
  induction l generalizing r with
  | nil =>
    cases h
    exact List.Forall₂.nil
  | cons a l ih =>
    rw [List.mapM_cons] at h
    obtain ⟨b, hb, h⟩ := bind_ok h
    obtain ⟨rest, hr, h⟩ := bind_ok h
    cases h
    exact List.Forall₂.cons hb (ih hr)

theorem mapM_beside {C : Type} {f : A → Except E B} {g : A → Except E C} {R : B → C → Prop}
    {l : List A} (beside : ∀ a ∈ l, ∀ b, f a = .ok b → ∃ c, g a = .ok c ∧ R b c) {r : List B}
    (h : l.mapM f = .ok r) : ∃ s, l.mapM g = .ok s ∧ List.Forall₂ R r s := by
  induction l generalizing r with
  | nil =>
    cases h
    exact ⟨[], rfl, List.Forall₂.nil⟩
  | cons a l ih =>
    rw [List.mapM_cons] at h
    obtain ⟨b, hb, h⟩ := bind_ok h
    obtain ⟨rest, hr, h⟩ := bind_ok h
    cases h
    obtain ⟨c, hc, here⟩ := beside a List.mem_cons_self b hb
    obtain ⟨s, hs, later⟩ := ih (fun a ha => beside a (List.mem_cons_of_mem _ ha)) hr
    refine ⟨c :: s, ?_, List.Forall₂.cons here later⟩
    rw [List.mapM_cons, hc, hs]
    rfl

theorem mapM_getElem? {f : A → Except E B} {l : List A} {r : List B} (h : l.mapM f = .ok r)
    (i : Nat) : (∀ b, r[i]? = some b → ∃ a, l[i]? = some a ∧ f a = .ok b) ∧
      ∀ a, l[i]? = some a → ∃ b, r[i]? = some b ∧ f a = .ok b := by
  have all := mapM_ok h
  clear h
  induction all generalizing i with
  | nil => simp
  | cons hb _ ih =>
    cases i with
    | zero =>
      constructor
      · rintro b ⟨⟩
        exact ⟨_, rfl, hb⟩
      · rintro a ⟨⟩
        exact ⟨_, rfl, hb⟩
    | succ i => exact ih i

theorem foldlM_ok (inv : S → Prop) {f : S → A → Except E S} {l : List A}
    (step : ∀ s, ∀ a ∈ l, ∀ t, inv s → f s a = .ok t → inv t) {s t : S} (start : inv s)
    (h : l.foldlM f s = .ok t) : inv t := by
  induction l generalizing s with
  | nil =>
    cases h
    exact start
  | cons a l ih =>
    rw [List.foldlM_cons] at h
    obtain ⟨u, hu, h⟩ := bind_ok h
    exact ih (fun s b hb => step s b (List.mem_cons_of_mem a hb))
      (step s a List.mem_cons_self u start hu) h

theorem foldlM_mem {f : S → A → Except E S} {l : List A} {s t : S} (h : l.foldlM f s = .ok t)
    {a : A} (member : a ∈ l) : ∃ u v, f u a = .ok v := by
  induction l generalizing s with
  | nil => cases member
  | cons b l ih =>
    rw [List.foldlM_cons] at h
    obtain ⟨u, hu, h⟩ := bind_ok h
    rcases List.mem_cons.mp member with rfl | later
    · exact ⟨s, u, hu⟩
    · exact ih h later

theorem foldlM_congr {f g : S → A → Except E S} {l : List A}
    (same : ∀ s, ∀ a ∈ l, f s a = g s a) (s : S) : l.foldlM f s = l.foldlM g s := by
  induction l generalizing s with
  | nil => rfl
  | cons a l ih =>
    have later := fun s b hb => same s b (List.mem_cons_of_mem a hb)
    rw [List.foldlM_cons, List.foldlM_cons, same s a List.mem_cons_self]
    exact congrArg (g s a >>= ·) (funext (ih later))

theorem foldlM_flatMap (f : S → B → Except E S) (g : A → List B) (l : List A) (s : S) :
    (l.flatMap g).foldlM f s = l.foldlM (fun s a => (g a).foldlM f s) s := by
  induction l generalizing s with
  | nil => rfl
  | cons a l ih =>
    rw [List.flatMap_cons, List.foldlM_append, List.foldlM_cons]
    exact congrArg ((g a).foldlM f s >>= ·) (funext ih)

/-- A loop whose turns fail at an element without a value, and else add the value. -/
theorem foldlM_lookup {f : S → A → Except E S} {g : A → Option B} {add : S → B → S} {e : E}
    {l : List A} (turn : ∀ s, ∀ a ∈ l, f s a = (g a).elim (.error e) fun b => .ok (add s b))
    (s : S) :
    l.foldlM f s = (l.mapM g).elim (.error e) fun bs => .ok (bs.foldl add s) := by
  induction l generalizing s with
  | nil => rfl
  | cons a l ih =>
    have later := ih fun s b hb => turn s b (List.mem_cons_of_mem a hb)
    rw [List.foldlM_cons, turn s a List.mem_cons_self, List.mapM_cons]
    cases g a with
    | none => rfl
    | some b =>
      change l.foldlM f (add s b) = _
      rw [later]
      cases l.mapM g <;> rfl

end Outcome
