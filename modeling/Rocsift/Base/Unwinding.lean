import Rocsift.Base.Chains

/-! Construction of objects that own blocks, where each part may throw. What was built before the
throw is destroyed, and a `try` around a part leaves a null pointer in its place. -/
namespace Unwinding
open Blocks

variable {V E A B C : Type}

/-- The blocks of an object and what is in them, in the order in which they are freed. -/
class Owner (V A : Type) where
  holds : A → List (Nat × V)

export Owner (holds)

structure Block {V : Type} (v : V) where
  id : Nat
  deriving DecidableEq

instance {v : V} : Owner V (Block v) := ⟨fun b => [(b.id, v)]⟩

instance [Owner V A] : Owner V (Option A) := ⟨fun o => (o.map holds).getD []⟩

instance [Owner V A] : Owner V (List A) := ⟨List.flatMap holds⟩

instance [Owner V A] [Owner V B] : Owner V (A × B) := ⟨fun p => holds p.2 ++ holds p.1⟩

instance [Owner V A] : Owner V (Except E A) := ⟨fun r => (r.toOption.map holds).getD []⟩

/-- A run that throws or gives an object, and leaves a store. -/
def Build (V E A : Type) : Type := Store V → Except Fault (Except E A × Store V)

def ids [Owner V A] (a : A) : List Nat := (holds a : List (Nat × V)).map Prod.fst

def destroy [Owner V A] (a : A) : Store V → Except Fault (Store V) :=
  Store.freeEach (ids (V := V) a)

namespace Build

def done (a : A) : Build V E A := fun s => .ok (.ok a, s)

def throwing (e : E) : Build V E A := fun s => .ok (.error e, s)

def take (succeeds : Nat → V → Bool) (v : V) (e : E) : Build V E (Block v) := fun s =>
  match s.malloc (succeeds s.calls v) v with
  | (some i, s) => .ok (.ok ⟨i⟩, s)
  | (none, s) => .ok (.error e, s)

def map (g : A → B) (x : Build V E A) : Build V E B := fun s => do
  let (r, s) ← x s
  return (r.map g, s)

def pair [Owner V A] (x : Build V E A) (y : A → Build V E B) : Build V E (A × B) := fun s => do
  let (r, s) ← x s
  match r with
  | .error e => return (.error e, s)
  | .ok a =>
    let (r, s) ← y a s
    match r with
    | .ok b => return (.ok (a, b), s)
    | .error e =>
      let s ← destroy a s
      return (.error e, s)

/-- `try { return x; } catch (...) { return nullptr; }` -/
def attempt (x : Build V E A) : Build V E (Option A) := fun s => do
  let (r, s) ← x s
  return (.ok r.toOption, s)

/-- `push_back` of one object after another onto a vector, which is destroyed at a throw. -/
def pushEach [Owner V A] : List (Build V E A) → List A → Build V E (List A)
  | [], built => done built
  | x :: xs, built => fun s => do
    let (r, s) ← x s
    match r with
    | .ok a => pushEach xs (built ++ [a]) s
    | .error e =>
      let s ← destroy built s
      return (.error e, s)

end Build

structure Took (s t : Store V) (made : List (Nat × V)) : Prop where
  once : (made.map Prod.fst).Nodup
  fresh : ∀ b ∈ made, s.calls ≤ b.1
  found : ∀ b ∈ made, t.cells b.1 = some b.2
  same : (t.without (made.map Prod.fst)).cells = s.cells
  calls : s.calls ≤ t.calls

section
variable {s t u : Store V} {made more : List (Nat × V)}

theorem Took.refl (s : Store V) : Took s s [] where
  once := List.nodup_nil
  fresh := List.forall_mem_nil _
  found := List.forall_mem_nil _
  same := by rw [List.map_nil, Store.without_nil]
  calls := Nat.le_refl _

theorem Took.live (took : Took s t made) : ∀ i ∈ made.map Prod.fst, ∃ v, t.cells i = some v := by
  intro i member
  obtain ⟨b, hb, rfl⟩ := List.mem_map.mp member
  exact ⟨b.2, took.found b hb⟩

theorem Took.old (took : Took s t made) {i : Nat} (early : i < s.calls) :
    t.cells i = s.cells i := by
  have other : i ∉ made.map Prod.fst := by
    intro member
    obtain ⟨b, hb, rfl⟩ := List.mem_map.mp member
    exact Nat.not_lt.mpr (took.fresh b hb) early
  rw [← Store.without_cells other, took.same]

theorem without_same (same : t.cells = u.cells) (gone : List Nat) :
    (t.without gone).cells = (u.without gone).cells := by
  simp only [Store.without, same]

theorem Took.trans (first : Took s t made) (second : Took t u more) :
    Took s u (more ++ made) where
  once := by
    rw [List.map_append]
    apply List.Nodup.append second.once first.once
    intro i late early
    obtain ⟨b, hb, rfl⟩ := List.mem_map.mp late
    obtain ⟨v, found⟩ := first.live _ early
    exact Nat.not_lt.mpr (second.fresh b hb) (Store.lt_calls found)
  fresh b hb := by
    rcases List.mem_append.mp hb with late | early
    · exact Nat.le_trans first.calls (second.fresh b late)
    · exact first.fresh b early
  found b hb := by
    rcases List.mem_append.mp hb with late | early
    · exact second.found b late
    · have before := first.found b early
      exact (second.old (Store.lt_calls before)).trans before
  same := by
    rw [List.map_append, ← Store.without_without, without_same second.same, first.same]
  calls := Nat.le_trans first.calls second.calls

theorem Took.freed (took : Took s t made) :
    Store.freeEach (made.map Prod.fst) t = .ok (t.without (made.map Prod.fst)) :=
  Store.freeEach_ok took.live took.once

theorem Took.back (took : Took s t made) : Took s (t.without (made.map Prod.fst)) [] where
  once := List.nodup_nil
  fresh := List.forall_mem_nil _
  found := List.forall_mem_nil _
  same := by rw [List.map_nil, Store.without_nil, took.same]
  calls := took.calls

theorem Took.perm (took : Took s t made) (perm : made.Perm more) : Took s t more where
  once := (perm.map Prod.fst).nodup_iff.mp took.once
  fresh b hb := took.fresh b (perm.mem_iff.mpr hb)
  found b hb := took.found b (perm.mem_iff.mpr hb)
  same := by
    rw [← took.same]
    funext i
    simp only [Store.without, (perm.map Prod.fst).mem_iff]
  calls := took.calls

end

/-- The run touches no block that is not allocated, and what it makes is what the object owns: a
throw leaves nothing behind. -/
def Clean [Owner V A] (x : Build V E A) : Prop :=
  ∀ s, ∃ r t, x s = .ok (r, t) ∧ Took s t (holds r)

def Gives (x : Build V E A) (g : A → C) (o : Except E C) : Prop :=
  ∀ s, ∃ r t, x s = .ok (r, t) ∧ r.map g = o

section
variable [Owner V A] [Owner V B] {x : Build V E A} {y : A → Build V E B} {a : A}

theorem clean_done (empty : (holds a : List (Nat × V)) = []) :
    Clean (Build.done a : Build V E A) := by
  intro s
  refine ⟨.ok a, s, rfl, ?_⟩
  change Took s s (holds a)
  rw [empty]
  exact Took.refl s

theorem clean_throwing (e : E) : Clean (Build.throwing e : Build V E A) := fun s =>
  ⟨.error e, s, rfl, Took.refl s⟩

theorem took_add (s : Store V) (v : V) : Took s (s.add v) [(s.calls, v)] where
  once := List.nodup_singleton _
  fresh b hb := Nat.le_of_eq (congrArg Prod.fst (List.mem_singleton.mp hb)).symm
  found b hb := by
    rw [List.mem_singleton.mp hb]
    exact Store.add_self v
  same := by
    have back := Store.without_add (s := s) v []
    rwa [Store.without_nil] at back
  calls := Nat.le_succ _

theorem took_skip (s : Store V) : Took s s.skip [] where
  once := List.nodup_nil
  fresh := List.forall_mem_nil _
  found := List.forall_mem_nil _
  same := by rw [List.map_nil, Store.without_nil, Store.skip_cells]
  calls := Nat.le_succ _

theorem clean_take (succeeds : Nat → V → Bool) (v : V) (e : E) :
    Clean (Build.take succeeds v e) := by
  intro s
  unfold Build.take Store.malloc
  cases succeeds s.calls v with
  | true => exact ⟨.ok ⟨s.calls⟩, s.add v, rfl, took_add s v⟩
  | false => exact ⟨.error e, s.skip, rfl, took_skip s⟩

theorem Clean.map (clean : Clean x) {g : A → B}
    (kept : ∀ a, (holds (g a) : List (Nat × V)) = holds a) : Clean (x.map g) := by
  intro s
  obtain ⟨r, t, run, took⟩ := clean s
  refine ⟨r.map g, t, by simp only [Build.map, run, bind, Except.bind, pure, Except.pure], ?_⟩
  cases r with
  | error e => exact took
  | ok a =>
    change Took s t (holds (g a))
    rw [kept]
    exact took

theorem Clean.pair (clean : Clean x) (after : ∀ a, Clean (y a)) : Clean (x.pair y) := by
  intro s
  obtain ⟨r, t, run, took⟩ := clean s
  cases r with
  | error e =>
    exact ⟨.error e, t, by simp only [Build.pair, run, bind, Except.bind, pure, Except.pure], took⟩
  | ok a =>
    obtain ⟨r, u, later, more⟩ := after a t
    have both := took.trans more
    cases r with
    | ok b =>
      refine ⟨.ok (a, b), u, ?_, both⟩
      simp only [Build.pair, run, later, bind, Except.bind, pure, Except.pure]
    | error e =>
      refine ⟨.error e, u.without (ids (V := V) a), ?_, both.back⟩
      have freed : destroy a u = .ok (u.without (ids (V := V) a)) := both.freed
      simp only [Build.pair, run, later, freed, bind, Except.bind, pure, Except.pure]

theorem Clean.attempt (clean : Clean x) : Clean x.attempt := by
  intro s
  obtain ⟨r, t, run, took⟩ := clean s
  refine ⟨.ok r.toOption, t, ?_, ?_⟩
  · simp only [Build.attempt, run, bind, Except.bind, pure, Except.pure]
  · cases r with
    | error e => exact took
    | ok a => exact took

theorem holds_snoc (built : List A) (a : A) :
    (holds a ++ holds built : List (Nat × V)).Perm (holds (built ++ [a])) := by
  change (holds a ++ built.flatMap holds).Perm ((built ++ [a]).flatMap holds)
  rw [List.flatMap_append, List.flatMap_singleton]
  exact List.perm_append_comm

theorem pushEach_clean {xs : List (Build V E A)} (clean : ∀ x ∈ xs, Clean x) (built : List A)
    {s t : Store V} (took : Took s t (holds built)) :
    ∃ r u, Build.pushEach xs built t = .ok (r, u) ∧ Took s u (holds r) := by
  induction xs generalizing built t with
  | nil => exact ⟨.ok built, t, rfl, took⟩
  | cons x xs ih =>
    obtain ⟨here, later⟩ := List.forall_mem_cons.mp clean
    obtain ⟨r, u, run, more⟩ := here t
    have both := took.trans more
    cases r with
    | ok a =>
      have longer : Took s u (holds (built ++ [a])) := both.perm (holds_snoc built a)
      obtain ⟨r, w, rest, all⟩ := ih later (built ++ [a]) longer
      refine ⟨r, w, ?_, all⟩
      simp only [Build.pushEach, run, bind, Except.bind]
      exact rest
    | error e =>
      have freed : destroy built u = .ok (u.without (ids (V := V) built)) := both.freed
      refine ⟨.error e, u.without (ids (V := V) built), ?_, both.back⟩
      simp only [Build.pushEach, run, freed, bind, Except.bind, pure, Except.pure]

theorem clean_pushEach {xs : List (Build V E A)} (clean : ∀ x ∈ xs, Clean x) :
    Clean (Build.pushEach xs []) :=
  fun s => pushEach_clean clean [] (Took.refl s)

end

section
variable {D : Type} {x : Build V E A} {y : A → Build V E B} {g : A → C} {h : B → D}
  {o : Except E C} {q : C → Except E D}

theorem gives_done (a : A) : Gives (Build.done a : Build V E A) g (.ok (g a)) := fun s =>
  ⟨.ok a, s, rfl, rfl⟩

theorem gives_throwing (e : E) : Gives (Build.throwing e : Build V E A) g (.error e) := fun s =>
  ⟨.error e, s, rfl, rfl⟩

theorem gives_take (works : V → Bool) (v : V) (e : E) :
    Gives (Build.take (fun _ => works) v e) (fun _ => ())
      (if works v then .ok () else .error e) := by
  intro s
  unfold Build.take Store.malloc
  by_cases good : works v
  · exact ⟨.ok ⟨s.calls⟩, s.add v, by simp only [good, if_true], by simp only [good]; rfl⟩
  · exact ⟨.error e, s.skip, by simp only [good]; rfl, by simp only [good]; rfl⟩

theorem Gives.map (gives : Gives x g o) {f : A → B} {k : C → D} (square : ∀ a, h (f a) = k (g a)) :
    Gives (x.map f) h (o.map k) := by
  intro s
  obtain ⟨r, t, run, rfl⟩ := gives s
  refine ⟨r.map f, t, by simp only [Build.map, run, bind, Except.bind, pure, Except.pure], ?_⟩
  cases r with
  | error e => rfl
  | ok a => exact congrArg Except.ok (square a)

theorem Gives.attempt (gives : Gives x g o) : Gives x.attempt (Option.map g) (.ok o.toOption) := by
  intro s
  obtain ⟨r, t, run, rfl⟩ := gives s
  refine ⟨.ok r.toOption, t, ?_, ?_⟩
  · simp only [Build.attempt, run, bind, Except.bind, pure, Except.pure]
  · cases r <;> rfl

/-- Both parts must be clean, or else the first one could not be destroyed. -/
theorem Gives.pair [Owner V A] [Owner V B] (gives : Gives x g o) (clean : Clean x)
    (after : ∀ a, Gives (y a) h (q (g a))) (cleanAfter : ∀ a, Clean (y a)) :
    Gives (x.pair y) (Prod.map g h) (o.bind fun c => (q c).map fun d => (c, d)) := by
  intro s
  obtain ⟨r, t, run, took⟩ := clean s
  obtain ⟨r', t', run', rfl⟩ := gives s
  obtain ⟨rfl, rfl⟩ := Prod.mk.inj (Except.ok.inj (run.symm.trans run'))
  cases r with
  | error e =>
    exact ⟨.error e, t, by simp only [Build.pair, run, bind, Except.bind, pure, Except.pure], rfl⟩
  | ok a =>
    obtain ⟨r, u, later, more⟩ := cleanAfter a t
    obtain ⟨r', u', later', same⟩ := after a t
    obtain ⟨rfl, rfl⟩ := Prod.mk.inj (Except.ok.inj (later.symm.trans later'))
    have both := took.trans more
    cases r with
    | ok b =>
      refine ⟨.ok (a, b), u, ?_, ?_⟩
      · simp only [Build.pair, run, later, bind, Except.bind, pure, Except.pure]
      · simp only [Except.map, Except.bind, ← same, Prod.map]
    | error e =>
      have freed : destroy a u = .ok (u.without (ids (V := V) a)) := both.freed
      refine ⟨.error e, u.without (ids (V := V) a), ?_, ?_⟩
      · simp only [Build.pair, run, later, freed, bind, Except.bind, pure, Except.pure]
      · simp only [Except.map, Except.bind, ← same]

/-- The outcomes one after another, up to the first throw. -/
def inTurn : List (Except E C) → Except E (List C)
  | [] => .ok []
  | o :: os => o.bind fun c => (inTurn os).map (c :: ·)

theorem inTurn_map (f : A → Except E C) (k : C → D) (l : List A) :
    inTurn (l.map fun a => (f a).map k) = (l.mapM f).map (List.map k) := by
  induction l with
  | nil => rfl
  | cons a l ih =>
    rw [List.map_cons, inTurn, ih, List.mapM_cons]
    cases f a with
    | error e => rfl
    | ok c => cases l.mapM f <;> rfl

theorem pushEach_gives [Owner V A] {xs : List (Build V E A)} {os : List (Except E C)}
    (all : List.Forall₂ (fun x o => Clean x ∧ Gives x g o) xs os) (built : List A)
    {s t : Store V} (took : Took s t (holds built)) :
    ∃ r u, Build.pushEach xs built t = .ok (r, u) ∧
      r.map (List.map g) = (inTurn os).map (built.map g ++ ·) := by
  induction all generalizing built t with
  | nil => exact ⟨.ok built, t, rfl, by simp only [inTurn, Except.map, List.append_nil]⟩
  | @cons x o xs os both _ ih =>
    obtain ⟨r, u, run, more⟩ := both.1 t
    obtain ⟨r', u', run', rfl⟩ := both.2 t
    obtain ⟨rfl, rfl⟩ := Prod.mk.inj (Except.ok.inj (run.symm.trans run'))
    have all := took.trans more
    cases r with
    | ok a =>
      have longer : Took s u (holds (built ++ [a])) := all.perm (holds_snoc built a)
      obtain ⟨r, w, rest, same⟩ := ih (built ++ [a]) longer
      refine ⟨r, w, ?_, ?_⟩
      · simp only [Build.pushEach, run, bind, Except.bind]
        exact rest
      · rw [same]
        simp only [inTurn, Except.map, Except.bind]
        cases inTurn os with
        | error e => rfl
        | ok cs => simp only [List.map_append, List.map_cons, List.map_nil, List.append_assoc,
            List.singleton_append]
    | error e =>
      have freed : destroy built u = .ok (u.without (ids (V := V) built)) := all.freed
      refine ⟨.error e, u.without (ids (V := V) built), ?_, rfl⟩
      simp only [Build.pushEach, run, freed, bind, Except.bind, pure, Except.pure]

theorem gives_pushEach [Owner V A] {xs : List (Build V E A)} {os : List (Except E C)}
    (all : List.Forall₂ (fun x o => Clean x ∧ Gives x g o) xs os) :
    Gives (Build.pushEach xs []) (List.map g) (inTurn os) := by
  intro s
  obtain ⟨r, u, run, same⟩ := pushEach_gives all [] (Took.refl s)
  refine ⟨r, u, run, same.trans ?_⟩
  cases inTurn os <;> rfl

end

end Unwinding
