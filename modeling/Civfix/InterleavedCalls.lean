import Mathlib.Data.List.Basic
import Mathlib.Data.Option.Basic
import Mathlib.Algebra.Order.Ring.Nat
import Mathlib.Data.List.Nodup

/-! # Calls that interleave at their awaits

A call runs in pieces. Between two accesses of the shared state it only computes on its own
variables, so it is described by what it awaits and by what it does with each answer. Any
number of calls are in progress at once, the environment moves in between, and a call may
die at any await.

Calls are numbered in the order they start and keep their place when they end, so a call
with a number at least `w.calls.length` starts after `w`. A `Run` is a stretch of moves that
all satisfy a condition on the world they are made in. -/
namespace InterleavedCalls

variable {σ ι π ρ η : Type}

/-- What a call does after an access: it awaits the next one or returns. -/
inductive Next (π ρ : Type) where
  | await (p : π)
  | done (r : ρ)
  deriving DecidableEq

/-- `σ` is the shared state, `ι` a call with its arguments, `π` an await with the call's
variables, `ρ` a result, `η` a move of the environment. An access lists its possible
outcomes, the regular one first. -/
structure Machine (σ ι π ρ η : Type) where
  enter : σ → ι → Option (σ × π)
  access : σ → π → List (σ × Next π ρ)
  environment : σ → η → Option σ

structure Call (ι π : Type) where
  origin : ι
  await : π
  deriving DecidableEq

/-- What a call holds after an access. -/
def Next.held (f : Call ι π → ℕ) (o : ι) : Next π ρ → ℕ
  | .await p => f ⟨o, p⟩
  | .done _ => 0

/-- The call after an access. -/
def Next.call (o : ι) : Next π ρ → Option (Call ι π)
  | .await p => some ⟨o, p⟩
  | .done _ => none

/-- A call that has ended leaves its place empty. -/
structure World (σ ι π : Type) where
  shared : σ
  calls : List (Option (Call ι π))

inductive Move (ι η : Type) where
  | start (o : ι)
  | access (i k : ℕ)
  | crash (i : ℕ)
  | environment (e : η)

namespace World

variable (w : World σ ι π)

def initial (s : σ) : World σ ι π := ⟨s, []⟩

def call (i : ℕ) : Option (Call ι π) := w.calls[i]?.join

/-- A new call takes the next place. -/
def push (s : σ) (c : Call ι π) : World σ ι π := ⟨s, w.calls ++ [some c]⟩

def put (s : σ) (i : ℕ) (x : Option (Call ι π)) : World σ ι π := ⟨s, w.calls.set i x⟩

variable {w}

theorem call_eq_some {i : ℕ} {c : Call ι π} : w.call i = some c ↔ w.calls[i]? = some (some c) :=
  Option.join_eq_some_iff

theorem mem_calls {i : ℕ} {c : Call ι π} (h : w.call i = some c) : some c ∈ w.calls :=
  List.mem_of_getElem? (call_eq_some.mp h)

theorem lt_of_call {i : ℕ} {c : Call ι π} (h : w.call i = some c) : i < w.calls.length :=
  (List.getElem?_eq_some_iff.mp (call_eq_some.mp h)).1

@[simp] theorem call_initial (s : σ) (i : ℕ) : (initial s : World σ ι π).call i = none := rfl

/-- All calls have ended. -/
theorem call_eq_none (h : ∀ x ∈ w.calls, x = none) (i : ℕ) : w.call i = none := by
  by_contra hsome
  obtain ⟨c, hc⟩ := Option.ne_none_iff_exists'.mp hsome
  cases h _ (List.mem_of_getElem? (call_eq_some.mp hc))

theorem call_push (s : σ) (c : Call ι π) (i : ℕ) :
    (w.push s c).call i = if i = w.calls.length then some c else w.call i := by
  unfold call push
  rcases Nat.lt_trichotomy i w.calls.length with h | h | h
  · rw [List.getElem?_append_left h, if_neg (by omega)]
  · subst h
    simp
  · have h1 : (w.calls ++ [some c])[i]? = none := List.getElem?_eq_none (by simp; omega)
    have h2 : w.calls[i]? = none := List.getElem?_eq_none (by omega)
    rw [h1, h2, if_neg (by omega)]

theorem call_put_of_ne (s : σ) {i j : ℕ} (h : j ≠ i) (x : Option (Call ι π)) : (w.put s i x).call j = w.call j := by
  simp only [call, put, List.getElem?_set_ne (Ne.symm h)]

theorem call_put_self (s : σ) {i : ℕ} {c : Call ι π} (h : w.call i = some c) (x : Option (Call ι π)) :
    (w.put s i x).call i = x := by
  simp only [call, put, List.getElem?_set_self (lt_of_call h), Option.join_some]

/-- `P` holds of every call in progress beside the one with the given number. -/
def Others (w : World σ ι π) (i : ℕ) (P : Call ι π → Prop) : Prop :=
  ∀ j < w.calls.length, j ≠ i → ∀ c ∈ w.call j, P c

instance (i : ℕ) (P : Call ι π → Prop) [DecidablePred P] : Decidable (w.Others i P) :=
  Nat.decidableBallLT w.calls.length (fun j _ => j ≠ i → ∀ c ∈ w.call j, P c)

theorem Others.call {i j : ℕ} {P : Call ι π → Prop} (h : w.Others i P) (hj : j ≠ i) {c : Call ι π}
    (hc : w.call j = some c) : P c := h j (lt_of_call hc) hj c hc

/-- What the calls in progress hold together. -/
def total (f : Call ι π → ℕ) (w : World σ ι π) : ℕ := (w.calls.map (fun x => x.elim 0 f)).sum

@[simp] theorem total_initial (f : Call ι π → ℕ) (s : σ) : (initial s : World σ ι π).total f = 0 := rfl

theorem total_push (f : Call ι π → ℕ) (s : σ) (c : Call ι π) : (w.push s c).total f = w.total f + f c := by
  simp [total, push]

private theorem sum_set (f : Call ι π → ℕ) (l : List (Option (Call ι π))) (i : ℕ) (x y : Option (Call ι π))
    (h : l[i]? = some y) :
    ((l.set i x).map (fun z => z.elim 0 f)).sum + y.elim 0 f = (l.map (fun z => z.elim 0 f)).sum + x.elim 0 f := by
  induction l generalizing i with
  | nil => simp at h
  | cons z l ih =>
    cases i with
    | zero =>
      simp only [List.getElem?_cons_zero, Option.some.injEq] at h
      subst h
      simp only [List.set_cons_zero, List.map_cons, List.sum_cons]
      omega
    | succ i =>
      have := ih i (by simpa using h)
      simp only [List.set_cons_succ, List.map_cons, List.sum_cons]
      omega

theorem total_put (f : Call ι π → ℕ) (s : σ) {i : ℕ} {c : Call ι π} (h : w.call i = some c) (x : Option (Call ι π)) :
    (w.put s i x).total f + f c = w.total f + x.elim 0 f :=
  sum_set f w.calls i x (some c) (call_eq_some.mp h)

theorem total_put_none_le (f : Call ι π → ℕ) (s : σ) (i : ℕ) : (w.put s i none).total f ≤ w.total f := by
  cases h : w.calls[i]? with
  | none =>
    rw [total, put, List.set_eq_of_length_le (List.getElem?_eq_none_iff.mp h)]
    exact Nat.le_refl _
  | some y =>
    have hsum := sum_set f w.calls i none y h
    simp only [Option.elim_none, Nat.add_zero] at hsum
    exact Nat.le.intro hsum

theorem total_le_total {f g : Call ι π → ℕ} (h : ∀ c, f c ≤ g c) : w.total f ≤ w.total g := by
  unfold total
  induction w.calls with
  | nil => exact Nat.le_refl _
  | cons x l ih =>
    have hx : x.elim 0 f ≤ x.elim 0 g := by
      cases x with
      | none => exact Nat.le_refl _
      | some c => exact h c
    simp only [List.map_cons, List.sum_cons]
    omega

theorem le_total (f : Call ι π → ℕ) {i : ℕ} {c : Call ι π} (h : w.call i = some c) : f c ≤ w.total f := by
  have hput := total_put f w.shared h none
  simp only [Option.elim_none, Nat.add_zero] at hput
  omega

/-- A call of the new world is the one that was put there or one that was there before. -/
theorem call_put {s : σ} {i j : ℕ} {x : Option (Call ι π)} {c : Call ι π} (h : (w.put s i x).call j = some c) :
    (j = i ∧ x = some c) ∨ (j ≠ i ∧ w.call j = some c) := by
  by_cases hj : j = i
  · subst hj
    refine .inl ⟨rfl, ?_⟩
    have hlt := lt_of_call h
    simp only [put, List.length_set] at hlt
    simpa only [call, put, List.getElem?_set_self hlt, Option.join_some] using h
  · exact .inr ⟨hj, by rwa [call_put_of_ne s hj] at h⟩

end World

/-- The regular outcome of an access, or one of the others. -/
theorem getElem?_cons_cases {α : Type} {x z : α} {l : List α} {k : ℕ} (h : (x :: l)[k]? = some z) :
    (k = 0 ∧ x = z) ∨ z ∈ l := by
  cases k with
  | zero => exact .inl ⟨rfl, Option.some.inj h⟩
  | succ k => exact .inr (List.mem_of_getElem? (by simpa using h))

/-- An outcome of an access, or the failure that comes after them. -/
theorem getElem?_concat_cases {α : Type} {y z : α} {l : List α} {k : ℕ} (h : (l ++ [y])[k]? = some z) :
    l[k]? = some z ∨ y = z := by
  rw [List.getElem?_append] at h
  split at h
  · exact .inl h
  · exact .inr (List.mem_singleton.mp (List.mem_of_getElem? h)).symm

/-- A new item, with a key that no other has. -/
theorem nodup_map_concat {α β : Type} {f : α → β} {l : List α} {a : α} (h : (l.map f).Nodup)
    (hnew : ∀ b ∈ l, f b ≠ f a) : ((l ++ [a]).map f).Nodup := by
  rw [List.map_append, List.map_cons, List.map_nil, List.nodup_append]
  refine ⟨h, List.nodup_singleton _, fun x hx y hy => ?_⟩
  obtain ⟨b, hb, rfl⟩ := List.mem_map.mp hx
  cases List.mem_singleton.mp hy
  exact hnew b hb

namespace Machine

variable (M : Machine σ ι π ρ η)

/-- One move, with the result of the call that returned in it, if one did. -/
def step (w : World σ ι π) : Move ι η → Option (World σ ι π × Option ρ)
  | .start o => (M.enter w.shared o).map (fun x => (w.push x.1 ⟨o, x.2⟩, none))
  | .access i k => do
    let c ← w.call i
    match ← (M.access w.shared c.await)[k]? with
    | (s, .await p) => some (w.put s i (some ⟨c.origin, p⟩), none)
    | (s, .done r) => some (w.put s i none, some r)
  | .crash i => some (w.put w.shared i none, none)
  | .environment e => (M.environment w.shared e).map (fun s => (⟨s, w.calls⟩, none))

variable {M}

/-- What a move can be. -/
theorem step_cases {w w' : World σ ι π} {m : Move ι η} {r : Option ρ} (h : M.step w m = some (w', r)) :
    (∃ o s p, m = .start o ∧ M.enter w.shared o = some (s, p) ∧ w' = w.push s ⟨o, p⟩ ∧ r = none) ∨
    (∃ i k c s p, m = .access i k ∧ w.call i = some c ∧ (s, .await p) ∈ M.access w.shared c.await ∧
      w' = w.put s i (some ⟨c.origin, p⟩) ∧ r = none) ∨
    (∃ i k c s a, m = .access i k ∧ w.call i = some c ∧ (s, .done a) ∈ M.access w.shared c.await ∧
      w' = w.put s i none ∧ r = some a) ∨
    (∃ i, m = .crash i ∧ w' = w.put w.shared i none ∧ r = none) ∨
    (∃ e s, m = .environment e ∧ M.environment w.shared e = some s ∧ w' = ⟨s, w.calls⟩ ∧ r = none) := by
  cases m with
  | start o =>
    simp only [step, Option.map_eq_some_iff, Prod.mk.injEq] at h
    obtain ⟨⟨s, p⟩, he, rfl, rfl⟩ := h
    exact .inl ⟨o, s, p, rfl, he, rfl, rfl⟩
  | access i k =>
    simp only [step, Option.bind_eq_bind, Option.bind_eq_some_iff] at h
    obtain ⟨c, hc, ⟨s, n⟩, hn, h⟩ := h
    have hmem := List.mem_of_getElem? hn
    cases n with
    | await p =>
      simp only [Option.some.injEq, Prod.mk.injEq] at h
      exact .inr (.inl ⟨i, k, c, s, p, rfl, hc, hmem, h.1.symm, h.2.symm⟩)
    | done a =>
      simp only [Option.some.injEq, Prod.mk.injEq] at h
      exact .inr (.inr (.inl ⟨i, k, c, s, a, rfl, hc, hmem, h.1.symm, h.2.symm⟩))
  | crash i =>
    simp only [step, Option.some.injEq, Prod.mk.injEq] at h
    exact .inr (.inr (.inr (.inl ⟨i, rfl, h.1.symm, h.2.symm⟩)))
  | environment e =>
    simp only [step, Option.map_eq_some_iff, Prod.mk.injEq] at h
    obtain ⟨s, he, rfl, rfl⟩ := h
    exact .inr (.inr (.inr (.inr ⟨e, s, rfl, he, rfl, rfl⟩)))

/-- What a move does to the shared state. -/
theorem shared_cases {w w' : World σ ι π} {m : Move ι η} {r : Option ρ} (h : M.step w m = some (w', r)) :
    (∃ o p, m = .start o ∧ M.enter w.shared o = some (w'.shared, p)) ∨
    (∃ i k c n, m = .access i k ∧ w.call i = some c ∧ (w'.shared, n) ∈ M.access w.shared c.await) ∨
    (∃ i, m = .crash i ∧ w'.shared = w.shared) ∨
    ∃ e, m = .environment e ∧ M.environment w.shared e = some w'.shared ∧ w'.calls = w.calls := by
  rcases step_cases h with ⟨o, s, p, hm, he, rfl, -⟩ | ⟨i, k, c, s, p, hm, hc, hmem, rfl, -⟩ |
    ⟨i, k, c, s, a, hm, hc, hmem, rfl, -⟩ | ⟨i, hm, rfl, -⟩ | ⟨e, s, hm, he, rfl, -⟩
  · exact .inl ⟨o, p, hm, he⟩
  · exact .inr (.inl ⟨i, k, c, _, hm, hc, hmem⟩)
  · exact .inr (.inl ⟨i, k, c, _, hm, hc, hmem⟩)
  · exact .inr (.inr (.inl ⟨i, hm, rfl⟩))
  · exact .inr (.inr (.inr ⟨e, hm, he, rfl⟩))

/-- Where a call in progress after a move comes from: it is new, it made the move, or it
was there before. -/
theorem call_cases {w w' : World σ ι π} {m : Move ι η} {r : Option ρ} (h : M.step w m = some (w', r)) {i : ℕ}
    {c : Call ι π} (hc : w'.call i = some c) :
    (∃ o p, m = .start o ∧ i = w.calls.length ∧ c = ⟨o, p⟩ ∧ M.enter w.shared o = some (w'.shared, p)) ∨
    (∃ k d p, m = .access i k ∧ w.call i = some d ∧ c = ⟨d.origin, p⟩ ∧
      (w'.shared, .await p) ∈ M.access w.shared d.await) ∨
    (w.call i = some c ∧ ∀ k, m ≠ .access i k) := by
  rcases step_cases h with ⟨o, s, p, rfl, he, rfl, -⟩ | ⟨j, k, d, s, p, rfl, hd, hmem, rfl, -⟩ |
    ⟨j, k, d, s, a, rfl, -, -, rfl, -⟩ | ⟨j, rfl, rfl, -⟩ | ⟨e, s, rfl, -, rfl, -⟩
  · rw [World.call_push] at hc
    split at hc
    · next hi => exact .inl ⟨o, p, rfl, hi, (Option.some.inj hc).symm, he⟩
    · exact .inr (.inr ⟨hc, by simp⟩)
  · rcases World.call_put hc with ⟨rfl, hx⟩ | ⟨hj, hc⟩
    · exact .inr (.inl ⟨k, d, p, rfl, hd, (Option.some.inj hx).symm, hmem⟩)
    · exact .inr (.inr ⟨hc, fun l he => hj (by cases he; rfl)⟩)
  · rcases World.call_put hc with ⟨-, hx⟩ | ⟨hj, hc⟩
    · cases hx
    · exact .inr (.inr ⟨hc, fun l he => hj (by cases he; rfl)⟩)
  · rcases World.call_put hc with ⟨-, hx⟩ | ⟨-, hc⟩
    · cases hx
    · exact .inr (.inr ⟨hc, by simp⟩)
  · exact .inr (.inr ⟨hc, by simp⟩)

/-- The move in which a call returned. -/
theorem return_cases {w w' : World σ ι π} {m : Move ι η} {a : ρ} (h : M.step w m = some (w', some a)) :
    ∃ i k c, m = .access i k ∧ w.call i = some c ∧ (w'.shared, .done a) ∈ M.access w.shared c.await := by
  rcases step_cases h with ⟨_, _, _, -, -, -, hr⟩ | ⟨_, _, _, _, _, -, -, -, -, hr⟩ |
    ⟨i, k, c, s, b, rfl, hc, hmem, rfl, hr⟩ | ⟨_, -, -, hr⟩ | ⟨_, _, -, -, -, hr⟩
  · cases hr
  · cases hr
  · cases hr
    exact ⟨i, k, c, rfl, hc, hmem⟩
  · cases hr
  · cases hr

/-- An access with the number of its outcome, and the world that it leaves. -/
theorem outcome_of_access {w w' : World σ ι π} {i k : ℕ} {r : Option ρ} (h : M.step w (.access i k) = some (w', r)) :
    ∃ c n, w.call i = some c ∧ (M.access w.shared c.await)[k]? = some (w'.shared, n) ∧
      w' = w.put w'.shared i (n.call c.origin) := by
  simp only [step, Option.bind_eq_bind, Option.bind_eq_some_iff] at h
  obtain ⟨c, hc, ⟨s, n⟩, hn, h⟩ := h
  refine ⟨c, n, hc, ?_⟩
  cases n with
  | await p =>
    simp only [Option.some.injEq, Prod.mk.injEq] at h
    obtain ⟨rfl, -⟩ := h
    exact ⟨hn, rfl⟩
  | done a =>
    simp only [Option.some.injEq, Prod.mk.injEq] at h
    obtain ⟨rfl, -⟩ := h
    exact ⟨hn, rfl⟩

/-- The outcome in which a call returned. -/
theorem outcome_of_return {w w' : World σ ι π} {i k : ℕ} {a : ρ} (h : M.step w (.access i k) = some (w', some a)) :
    ∃ c, w.call i = some c ∧ (M.access w.shared c.await)[k]? = some (w'.shared, .done a) := by
  simp only [step, Option.bind_eq_bind, Option.bind_eq_some_iff] at h
  obtain ⟨c, hc, ⟨s, n⟩, hn, h⟩ := h
  cases n with
  | await p => simp at h
  | done b =>
    simp only [Option.some.injEq, Prod.mk.injEq] at h
    obtain ⟨rfl, rfl⟩ := h
    exact ⟨c, hc, hn⟩

theorem call_of_access {w w' : World σ ι π} {i k : ℕ} {r : Option ρ} (h : M.step w (.access i k) = some (w', r)) :
    ∃ c, w.call i = some c := by
  simp only [step, Option.bind_eq_bind, Option.bind_eq_some_iff] at h
  obtain ⟨c, hc, -⟩ := h
  exact ⟨c, hc⟩

/-- An access with the number of its outcome, and what the calls hold together after it. -/
theorem total_of_access {w w' : World σ ι π} {i k : ℕ} {r : Option ρ} (h : M.step w (.access i k) = some (w', r)) :
    ∃ c n, w.call i = some c ∧ (M.access w.shared c.await)[k]? = some (w'.shared, n) ∧
      ∀ f, w'.total f + f c = w.total f + Next.held f c.origin n := by
  obtain ⟨c, n, hc, hk, hput⟩ := outcome_of_access h
  refine ⟨c, n, hc, hk, fun f => ?_⟩
  rw [hput]
  cases n with
  | await p => exact World.total_put f w'.shared hc (some ⟨c.origin, p⟩)
  | done a => exact World.total_put f w'.shared hc none

/-- What a move does to the shared state and to what the calls hold together. -/
theorem total_cases {w w' : World σ ι π} {m : Move ι η} {r : Option ρ} (h : M.step w m = some (w', r)) :
    (∃ o p, M.enter w.shared o = some (w'.shared, p) ∧ ∀ f, w'.total f = w.total f + f ⟨o, p⟩) ∨
    (∃ i k c n, m = .access i k ∧ w.call i = some c ∧ (w'.shared, n) ∈ M.access w.shared c.await ∧
      ∀ f, w'.total f + f c = w.total f + Next.held f c.origin n) ∨
    (w'.shared = w.shared ∧ ∀ f, w'.total f ≤ w.total f) ∨
    ∃ e, M.environment w.shared e = some w'.shared ∧ ∀ f, w'.total f = w.total f := by
  rcases step_cases h with ⟨o, s, p, -, he, rfl, -⟩ | ⟨i, k, c, s, p, hm, hc, hmem, rfl, -⟩ |
    ⟨i, k, c, s, a, hm, hc, hmem, rfl, -⟩ | ⟨i, -, rfl, -⟩ | ⟨e, s, -, he, rfl, -⟩
  · exact .inl ⟨o, p, he, fun f => World.total_push f s _⟩
  · exact .inr (.inl ⟨i, k, c, .await p, hm, hc, hmem, fun f => World.total_put f s hc _⟩)
  · exact .inr (.inl ⟨i, k, c, .done a, hm, hc, hmem, fun f => World.total_put f s hc _⟩)
  · exact .inr (.inr (.inl ⟨rfl, fun f => World.total_put_none_le f _ i⟩))
  · exact .inr (.inr (.inr ⟨e, he, fun _ => rfl⟩))

/-! ## Assertions at the awaits -/

/-- `I` holds of the shared state and `J` of each call in progress, with its number. -/
structure Holds (I : σ → Prop) (J : σ → ℕ → Call ι π → Prop) (w : World σ ι π) : Prop where
  shared : I w.shared
  calls : ∀ i c, w.call i = some c → J w.shared i c

/-- The moving call has to establish its next assertion, and every move must leave the
assertions of the calls beside it true. The outcome of an access is told with its number. -/
theorem Holds.step_outcome {I : σ → Prop} {J : σ → ℕ → Call ι π → Prop} {w w' : World σ ι π} {m : Move ι η}
    {r : Option ρ} (hw : Holds I J w) (hs : M.step w m = some (w', r))
    (hstart : ∀ o s p, m = .start o → M.enter w.shared o = some (s, p) →
      I s ∧ J s w.calls.length ⟨o, p⟩ ∧ ∀ i c, w.call i = some c → J s i c)
    (haccess : ∀ i k c s n, m = .access i k → w.call i = some c → (M.access w.shared c.await)[k]? = some (s, n) →
      I s ∧ (∀ p, n = .await p → J s i ⟨c.origin, p⟩) ∧ ∀ j d, j ≠ i → w.call j = some d → J s j d)
    (henv : ∀ e s, m = .environment e → M.environment w.shared e = some s →
      I s ∧ ∀ i c, w.call i = some c → J s i c) :
    Holds I J w' := by
  cases m with
  | start o =>
    simp only [Machine.step, Option.map_eq_some_iff, Prod.mk.injEq] at hs
    obtain ⟨⟨s, p⟩, he, rfl, -⟩ := hs
    obtain ⟨hI, hJ, hrest⟩ := hstart o s p rfl he
    refine ⟨hI, fun i c hc => ?_⟩
    rw [World.call_push] at hc
    split at hc
    · next hi =>
      cases hc
      exact hi ▸ hJ
    · exact hrest i c hc
  | access i k =>
    obtain ⟨c, n, hc, hk, hw'⟩ := outcome_of_access hs
    obtain ⟨hI, hJ, hrest⟩ := haccess i k c w'.shared n rfl hc hk
    refine ⟨hI, fun j d hd => ?_⟩
    rw [hw'] at hd
    rcases World.call_put hd with ⟨rfl, hx⟩ | ⟨hj, hd⟩
    · cases n with
      | await p =>
        cases hx
        exact hJ p rfl
      | done a => cases hx
    · exact hrest j d hj hd
  | crash i =>
    simp only [Machine.step, Option.some.injEq, Prod.mk.injEq] at hs
    obtain ⟨rfl, -⟩ := hs
    refine ⟨hw.shared, fun j d hd => ?_⟩
    rcases World.call_put hd with ⟨-, hx⟩ | ⟨-, hd⟩
    · cases hx
    · exact hw.calls j d hd
  | environment e =>
    simp only [Machine.step, Option.map_eq_some_iff, Prod.mk.injEq] at hs
    obtain ⟨s, he, rfl, -⟩ := hs
    obtain ⟨hI, hrest⟩ := henv e s rfl he
    exact ⟨hI, hrest⟩

theorem Holds.step {I : σ → Prop} {J : σ → ℕ → Call ι π → Prop} {w w' : World σ ι π} {m : Move ι η} {r : Option ρ}
    (hw : Holds I J w) (hs : M.step w m = some (w', r))
    (hstart : ∀ o s p, m = .start o → M.enter w.shared o = some (s, p) →
      I s ∧ J s w.calls.length ⟨o, p⟩ ∧ ∀ i c, w.call i = some c → J s i c)
    (haccess : ∀ i k c s n, m = .access i k → w.call i = some c → (s, n) ∈ M.access w.shared c.await →
      I s ∧ (∀ p, n = .await p → J s i ⟨c.origin, p⟩) ∧ ∀ j d, j ≠ i → w.call j = some d → J s j d)
    (henv : ∀ e s, m = .environment e → M.environment w.shared e = some s →
      I s ∧ ∀ i c, w.call i = some c → J s i c) :
    Holds I J w' :=
  hw.step_outcome hs hstart (fun i k c s n hm hc hk => haccess i k c s n hm hc (List.mem_of_getElem? hk)) henv

/-- No two calls in progress hold the same thing. -/
def Separate {κ : Type} (held : Call ι π → List κ) (w : World σ ι π) : Prop :=
  ∀ i j c d k, w.call i = some c → w.call j = some d → k ∈ held c → k ∈ held d → i = j

private theorem Separate.put_none {κ : Type} {held : Call ι π → List κ} {w : World σ ι π} (hw : Separate held w)
    (s : σ) (n : ℕ) : Separate held (w.put s n none) := by
  intro i j c d k hc hd
  rcases World.call_put hc with ⟨-, hca⟩ | ⟨-, hc'⟩
  · cases hca
  rcases World.call_put hd with ⟨-, hda⟩ | ⟨-, hd'⟩
  · cases hda
  exact hw i j c d k hc' hd'

/-- Calls stay separate when a call keeps what it holds or takes what no other call holds. -/
theorem Separate.step {κ : Type} {held : Call ι π → List κ} {w w' : World σ ι π} {m : Move ι η} {r : Option ρ}
    (hw : Separate held w) (hs : M.step w m = some (w', r))
    (hstart : ∀ o s p, m = .start o → M.enter w.shared o = some (s, p) → ∀ k ∈ held ⟨o, p⟩,
      ∀ i c, w.call i = some c → k ∉ held c)
    (haccess : ∀ i n c s p, m = .access i n → w.call i = some c → (s, .await p) ∈ M.access w.shared c.await →
      ∀ k ∈ held ⟨c.origin, p⟩, k ∈ held c ∨ ∀ j d, j ≠ i → w.call j = some d → k ∉ held d) :
    Separate held w' := by
  rcases step_cases hs with ⟨o, s, p, hm, he, rfl, -⟩ | ⟨n, k, a, s, p, hm, ha, hmem, rfl, -⟩ |
    ⟨n, k, a, s, b, -, -, -, rfl, -⟩ | ⟨n, -, rfl, -⟩ | ⟨e, s, -, -, rfl, -⟩
  · intro i j c d k hc hd hk hk'
    rw [World.call_push] at hc hd
    split at hc <;> split at hd
    · omega
    · cases hc
      exact absurd hk' (hstart o s p hm he k hk j d hd)
    · cases hd
      exact absurd hk (hstart o s p hm he k hk' i c hc)
    · exact hw i j c d k hc hd hk hk'
  · -- What the moving call holds after the move is no other call's.
    have hown : ∀ x ∈ held ⟨a.origin, p⟩, ∀ j d, j ≠ n → w.call j = some d → x ∉ held d := by
      intro x hx j d hj hd hdx
      rcases haccess n k a s p hm ha hmem x hx with hkept | hnew
      · exact hj (hw j n d a x hd ha hdx hkept)
      · exact hnew j d hj hd hdx
    intro i j c d x hc hd hk hk'
    rcases World.call_put hc with ⟨hi, hca⟩ | ⟨hi, hc'⟩ <;> rcases World.call_put hd with ⟨hj, hda⟩ | ⟨hj, hd'⟩
    · exact hi.trans hj.symm
    · cases hca
      exact absurd hk' (hown x hk j d hj hd')
    · cases hda
      exact absurd hk (hown x hk' i c hi hc')
    · exact hw i j c d x hc' hd' hk hk'
  · exact hw.put_none s n
  · exact hw.put_none _ n
  · exact hw

/-- No two calls in progress have the same key. -/
def Exclusive {κ : Type} (key : Call ι π → Option κ) (w : World σ ι π) : Prop :=
  ∀ i j c d k, w.call i = some c → w.call j = some d → key c = some k → key d = some k → i = j

theorem exclusive_iff_separate {κ : Type} {key : Call ι π → Option κ} {w : World σ ι π} :
    Exclusive key w ↔ Separate (fun c => (key c).toList) w := by
  simp only [Exclusive, Separate, Option.mem_toList]

/-- Keys stay exclusive when a call keeps the key it has or takes one that is not in use. -/
theorem Exclusive.step_taking {κ : Type} {key : Call ι π → Option κ} {w w' : World σ ι π} {m : Move ι η} {r : Option ρ}
    (hw : Exclusive key w) (hs : M.step w m = some (w', r))
    (hstart : ∀ o s p, m = .start o → M.enter w.shared o = some (s, p) → ∀ k, key ⟨o, p⟩ = some k →
      ∀ i c, w.call i = some c → key c ≠ some k)
    (haccess : ∀ i n c s p, m = .access i n → w.call i = some c → (s, .await p) ∈ M.access w.shared c.await →
      key ⟨c.origin, p⟩ = key c ∨
        ∀ k, key ⟨c.origin, p⟩ = some k → ∀ j d, j ≠ i → w.call j = some d → key d ≠ some k) :
    Exclusive key w' := by
  rw [exclusive_iff_separate] at hw ⊢
  refine hw.step hs ?_ ?_
  · intro o s p hm he k hk i c hc
    simp only [Option.mem_toList] at hk ⊢
    exact hstart o s p hm he k hk i c hc
  · intro i n c s p hm hc hmem k hk
    simp only [Option.mem_toList] at hk ⊢
    rcases haccess i n c s p hm hc hmem with hkey | hnew
    · exact .inl (hkey ▸ hk)
    · exact .inr (hnew k hk)

/-- Keys stay exclusive when a new call brings a key that is not in use and a call keeps the key it has. -/
theorem Exclusive.step {κ : Type} {key : Call ι π → Option κ} {w w' : World σ ι π} {m : Move ι η} {r : Option ρ}
    (hw : Exclusive key w) (hs : M.step w m = some (w', r))
    (hstart : ∀ o s p, M.enter w.shared o = some (s, p) → ∀ k, key ⟨o, p⟩ = some k →
      ∀ i c, w.call i = some c → key c ≠ some k)
    (haccess : ∀ (c : Call ι π) s p, (s, .await p) ∈ M.access w.shared c.await → key ⟨c.origin, p⟩ = key c) :
    Exclusive key w' :=
  hw.step_taking hs (fun o s p _ => hstart o s p) (fun _ _ c s p _ _ hmem => .inl (haccess c s p hmem))

/-- Whatever is owed, a call in progress attends to it. -/
def Attended {κ : Type} (owes : σ → κ → Prop) (attends : Call ι π → κ → Prop) (w : World σ ι π) : Prop :=
  ∀ k, owes w.shared k → ∃ i c, w.call i = some c ∧ attends c k

/-- The moving call may take up what it makes owed, and must go on attending to what it attends to until that is no
longer owed. No call is lost. -/
theorem Attended.step {κ : Type} {owes : σ → κ → Prop} {attends : Call ι π → κ → Prop} {w w' : World σ ι π}
    {m : Move ι η} {r : Option ρ} (hw : Attended owes attends w) (hs : M.step w m = some (w', r))
    (hcrash : ∀ i, m ≠ .crash i)
    (hstart : ∀ o s p, m = .start o → M.enter w.shared o = some (s, p) → ∀ k, owes s k →
      owes w.shared k ∨ attends ⟨o, p⟩ k)
    (haccess : ∀ i n c s x, m = .access i n → w.call i = some c → (M.access w.shared c.await)[n]? = some (s, x) →
      ∀ k, owes s k → (owes w.shared k ∧ ¬ attends c k) ∨ ∃ p, x = .await p ∧ attends ⟨c.origin, p⟩ k)
    (henv : ∀ e s, m = .environment e → M.environment w.shared e = some s → ∀ k, owes s k → owes w.shared k) :
    Attended owes attends w' := by
  intro k hk
  cases m with
  | start o =>
    simp only [Machine.step, Option.map_eq_some_iff, Prod.mk.injEq] at hs
    obtain ⟨⟨s, p⟩, he, rfl, -⟩ := hs
    rcases hstart o s p rfl he k hk with howed | hnew
    · obtain ⟨i, c, hc, hattends⟩ := hw k howed
      refine ⟨i, c, ?_, hattends⟩
      rw [World.call_push, if_neg (Nat.ne_of_lt (World.lt_of_call hc))]
      exact hc
    · exact ⟨w.calls.length, ⟨o, p⟩, by rw [World.call_push, if_pos rfl], hnew⟩
  | access i n =>
    obtain ⟨c, x, hc, hx, hput⟩ := outcome_of_access hs
    rcases haccess i n c w'.shared x rfl hc hx k hk with ⟨howed, hnot⟩ | ⟨p, rfl, hattends⟩
    · obtain ⟨j, d, hd, hattends⟩ := hw k howed
      have hj : j ≠ i := by
        rintro rfl
        cases hc.symm.trans hd
        exact hnot hattends
      refine ⟨j, d, ?_, hattends⟩
      rw [hput, World.call_put_of_ne _ hj]
      exact hd
    · refine ⟨i, ⟨c.origin, p⟩, ?_, hattends⟩
      rw [hput, World.call_put_self _ hc]
      rfl
  | crash i => exact absurd rfl (hcrash i)
  | environment e =>
    simp only [Machine.step, Option.map_eq_some_iff, Prod.mk.injEq] at hs
    obtain ⟨s, he, rfl, -⟩ := hs
    exact hw k (henv e s rfl he k hk)

/-! ## Runs -/

/-- A stretch of moves, each allowed in the world it is made in. -/
inductive Run (M : Machine σ ι π ρ η) (ok : World σ ι π → Move ι η → Prop) : World σ ι π → World σ ι π → Prop where
  | refl (w : World σ ι π) : Run M ok w w
  | tail {w w' w'' : World σ ι π} {r : Option ρ} (h : Run M ok w w') (m : Move ι η) (hok : ok w' m)
      (hs : M.step w' m = some (w'', r)) : Run M ok w w''

variable {ok : World σ ι π → Move ι η → Prop} {w w' w'' : World σ ι π}

theorem Run.invariant {P : World σ ι π → Prop} (h : Run M ok w w') (hw : P w)
    (hstep : ∀ {v v' : World σ ι π} {m : Move ι η} {r : Option ρ}, P v → ok v m → M.step v m = some (v', r) → P v') :
    P w' := by
  induction h with
  | refl => exact hw
  | tail h m hok hs ih => exact hstep ih hok hs

theorem Run.trans (h : Run M ok w w') (h' : Run M ok w' w'') : Run M ok w w'' := by
  induction h' with
  | refl => exact h
  | tail _ m hok hs ih => exact ih.tail m hok hs

/-- Calls are never renumbered. -/
theorem length_le_of_step {m : Move ι η} {r : Option ρ} (h : M.step w m = some (w', r)) :
    w.calls.length ≤ w'.calls.length := by
  rcases step_cases h with ⟨o, s, p, -, -, rfl, -⟩ | ⟨i, k, c, s, p, -, -, -, rfl, -⟩ |
    ⟨i, k, c, s, a, -, -, -, rfl, -⟩ | ⟨i, -, rfl, -⟩ | ⟨e, s, -, -, rfl, -⟩ <;> simp [World.push, World.put]

/-- A fixed list of moves; `none` if one of them is not possible. -/
def perform (M : Machine σ ι π ρ η) : World σ ι π → List (Move ι η) → Option (World σ ι π)
  | w, [] => some w
  | w, m :: ms => (M.step w m).bind (fun x => perform M x.1 ms)

/-- Each of the moves is allowed where it is made. -/
def Allowed (M : Machine σ ι π ρ η) (ok : World σ ι π → Move ι η → Prop) : World σ ι π → List (Move ι η) → Prop
  | _, [] => True
  | w, m :: ms => ok w m ∧ ∀ x ∈ M.step w m, Allowed M ok x.1 ms

instance decidableAllowed [∀ w m, Decidable (ok w m)] (w : World σ ι π) :
    (ms : List (Move ι η)) → Decidable (Allowed M ok w ms)
  | [] => inferInstanceAs (Decidable True)
  | _ :: ms =>
    have := fun v : World σ ι π => decidableAllowed v ms
    inferInstanceAs (Decidable (_ ∧ ∀ x ∈ _, _))

private theorem allowed_of_forall (h : ∀ w m, ok w m) (w : World σ ι π) (ms : List (Move ι η)) : Allowed M ok w ms := by
  induction ms generalizing w with
  | nil => trivial
  | cons m ms ih => exact ⟨h w m, fun x _ => ih x.1⟩

theorem run_of_perform {ms : List (Move ι η)} (hok : Allowed M ok w ms) (h : M.perform w ms = some w') :
    Run M ok w w' := by
  induction ms generalizing w with
  | nil =>
    simp only [perform, Option.some.injEq] at h
    exact h ▸ .refl w
  | cons m ms ih =>
    simp only [perform, Option.bind_eq_some_iff] at h
    obtain ⟨⟨v, r⟩, hs, h⟩ := h
    exact Run.trans (.tail (.refl w) m hok.1 hs) (ih (hok.2 _ hs) h)

/-- A run without a condition. -/
theorem free_of_perform {ms : List (Move ι η)} (h : M.perform w ms = some w') : Run M (fun _ _ => True) w w' :=
  run_of_perform (allowed_of_forall (fun _ _ => trivial) w ms) h

/-! ## A call that runs alone -/

/-- The await, if the outcome taken there is not the regular one. -/
def irregular (k : ℕ) (p : π) : List π := if k = 0 then [] else [p]

/-- Whatever the outcomes of its accesses, a call that runs alone ends, and ends in `Q`, which
is told at which awaits the outcome was not the regular one. -/
inductive Ends (M : Machine σ ι π ρ η) (Q : List π → σ → ρ → Prop) : List π → σ → π → Prop where
  | intro {failed : List π} {s : σ} {p : π} (hne : M.access s p ≠ [])
      (hdone : ∀ k s' r, (M.access s p)[k]? = some (s', .done r) → Q (failed ++ irregular k p) s' r)
      (hawait : ∀ k s' q, (M.access s p)[k]? = some (s', .await q) → Ends M Q (failed ++ irregular k p) s' q) :
      Ends M Q failed s p

/-- The same, after an access. -/
def EndsNext (M : Machine σ ι π ρ η) (Q : List π → σ → ρ → Prop) (failed : List π) (s : σ) : Next π ρ → Prop
  | .await q => Ends M Q failed s q
  | .done r => Q failed s r

variable {Q : List π → σ → ρ → Prop} {failed : List π} {s : σ} {p : π}

/-- An access with one regular outcome; in any other outcome the dependency has failed. -/
theorem Ends.of_outcomes {x : σ × Next π ρ} {xs : List (σ × Next π ρ)} (h : M.access s p = x :: xs)
    (hx : EndsNext M Q failed x.1 x.2) (hxs : ∀ y ∈ xs, EndsNext M Q (failed ++ [p]) y.1 y.2) :
    Ends M Q failed s p := by
  have hnext : ∀ k y, (M.access s p)[k]? = some y → EndsNext M Q (failed ++ irregular k p) y.1 y.2 := by
    intro k y hy
    rw [h] at hy
    cases k with
    | zero =>
      cases hy
      simpa [irregular] using hx
    | succ k => exact hxs y (List.mem_of_getElem? hy)
  exact .intro (by simp [h]) (fun k s' r hr => hnext k _ hr) (fun k s' q hq => hnext k _ hq)

/-- The run in which the outcomes have the given numbers. -/
def follow (M : Machine σ ι π ρ η) : List π → σ → π → List ℕ → Option (List π × σ × ρ)
  | _, _, _, [] => none
  | failed, s, p, k :: ks =>
    match (M.access s p)[k]? with
    | none => none
    | some (s', .done r) => some (failed ++ irregular k p, s', r)
    | some (s', .await q) => follow M (failed ++ irregular k p) s' q ks

theorem Ends.follow {ks : List ℕ} {failed' : List π} {s' : σ} {r : ρ} (h : Ends M Q failed s p)
    (hf : M.follow failed s p ks = some (failed', s', r)) : Q failed' s' r := by
  induction ks generalizing failed s p with
  | nil => cases hf
  | cons k ks ih =>
    obtain ⟨-, hdone, hawait⟩ := h
    rw [Machine.follow] at hf
    split at hf
    · cases hf
    · next s₁ r₁ hk =>
      cases hf
      exact hdone k s' r hk
    · next s₁ q hk => exact ih (hawait k s₁ q hk) hf

end Machine

end InterleavedCalls
