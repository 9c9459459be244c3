import Mathlib.Logic.Function.Basic
import Mathlib.Data.Nat.Notation

/-! # Keys that expire

A key of a server still exists at the time at which it expires. A map of one process that keeps the times itself may
take the same time as past. -/
namespace ExpiringKeys

structure Entry (α : Type) where
  value : α
  expiresAt : ℕ

/-- What is seen of an entry. -/
def Entry.seen {α γ : Type} (f : α → γ) (e : Entry α) : γ × ℕ := (f e.value, e.expiresAt)

structure Store (κ α : Type) where
  entries : κ → Option (Entry α)

namespace Store

variable {κ α β γ : Type} {s : Store κ α} {m : Store κ β} {k k' : κ} {e : Entry α} {now t : ℕ}

def empty : Store κ α := ⟨fun _ => none⟩

def get (s : Store κ α) (now : ℕ) (k : κ) : Option (Entry α) :=
  (s.entries k).filter (fun e => decide (now ≤ e.expiresAt))

/-- The entry, if it has time left. -/
def left (s : Store κ α) (now : ℕ) (k : κ) : Option (Entry α) :=
  (s.entries k).filter (fun e => decide (now < e.expiresAt))

/-- No key is at its expiry. -/
def Apart (s : Store κ α) (now : ℕ) : Prop := ∀ k e, s.entries k = some e → e.expiresAt ≠ now

/-! ## Entries -/

theorem get_eq_some : s.get now k = some e ↔ s.entries k = some e ∧ now ≤ e.expiresAt := by
  simp only [get, Option.filter_eq_some_iff, decide_eq_true_eq]

theorem left_eq_some : s.left now k = some e ↔ s.entries k = some e ∧ now < e.expiresAt := by
  simp only [left, Option.filter_eq_some_iff, decide_eq_true_eq]

@[simp] theorem get_empty : (empty : Store κ α).get now k = none := rfl

@[simp] theorem left_empty : (empty : Store κ α).left now k = none := rfl

/-- A key that exists later exists now. -/
theorem get_earlier (h : s.get t k = some e) (hle : now ≤ t) : s.get now k = some e := by
  obtain ⟨hentry, hexpires⟩ := get_eq_some.mp h
  exact get_eq_some.mpr ⟨hentry, Nat.le_trans hle hexpires⟩

theorem left_earlier (h : s.left t k = some e) (hle : now ≤ t) : s.left now k = some e := by
  obtain ⟨hentry, hexpires⟩ := left_eq_some.mp h
  exact left_eq_some.mpr ⟨hentry, Nat.lt_of_le_of_lt hle hexpires⟩

/-! ## A server and a process with the same keys -/

/-- The keys of the server and of the process agree: they have the same values, and the same time left. -/
def Agree (now : ℕ) (f : α → γ) (g : β → γ) (s : Store κ α) (m : Store κ β) : Prop :=
  ∀ k, (s.get now k).map (Entry.seen f) = (m.left now k).map (Entry.seen g)

variable {f : α → γ} {g : β → γ}

/-- Keys agree as long as no key is looked at when it expires. -/
theorem Agree.later (h : Agree now f g s m) (hle : now ≤ t) (hapart : s.Apart t) : Agree t f g s m := by
  intro k
  have hk := h k
  cases hget : s.get t k with
  | some e =>
    obtain ⟨hentry, hexpires⟩ := get_eq_some.mp hget
    rw [get_earlier hget hle] at hk
    obtain ⟨e', hleft, hsame⟩ := Option.map_eq_some_iff.mp hk.symm
    have htime : e'.expiresAt = e.expiresAt := congrArg Prod.snd hsame
    have hlater : m.left t k = some e' := by
      refine left_eq_some.mpr ⟨(left_eq_some.mp hleft).1, htime ▸ ?_⟩
      exact Nat.lt_of_le_of_ne hexpires (Ne.symm (hapart k e hentry))
    rw [hlater, Option.map_some, Option.map_some, hsame]
  | none =>
    cases hleft : m.left t k with
    | none => rfl
    | some e' =>
      rw [left_earlier hleft hle] at hk
      obtain ⟨e, hearlier, hsame⟩ := Option.map_eq_some_iff.mp hk
      have htime : e.expiresAt = e'.expiresAt := congrArg Prod.snd hsame
      have hlater : s.get t k = some e :=
        get_eq_some.mpr ⟨(get_eq_some.mp hearlier).1, htime ▸ Nat.le_of_lt (left_eq_some.mp hleft).2⟩
      cases hget.symm.trans hlater

/-! ## Writes -/

variable [DecidableEq κ]

def put (s : Store κ α) (k : κ) (e : Entry α) : Store κ α := ⟨Function.update s.entries k (some e)⟩

def delete (s : Store κ α) (k : κ) : Store κ α := ⟨Function.update s.entries k none⟩

theorem put_put (s : Store κ α) (k : κ) (e e' : Entry α) : (s.put k e).put k e' = s.put k e' := by
  simp only [put, Function.update_idem]

theorem get_put_self (h : now ≤ e.expiresAt) : (s.put k e).get now k = some e := by
  simp only [get, put, Function.update_self]
  exact Option.filter_some_pos (decide_eq_true h)

theorem get_put_of_ne (h : k' ≠ k) : (s.put k e).get now k' = s.get now k' := by
  simp only [get, put, Function.update_of_ne h]

theorem left_put_self (h : now < e.expiresAt) : (s.put k e).left now k = some e := by
  simp only [left, put, Function.update_self]
  exact Option.filter_some_pos (decide_eq_true h)

theorem left_put_of_ne (h : k' ≠ k) : (s.put k e).left now k' = s.left now k' := by
  simp only [left, put, Function.update_of_ne h]

@[simp] theorem get_delete_self : (s.delete k).get now k = none := by
  simp only [get, delete, Function.update_self, Option.filter_none]

theorem get_delete_of_ne (h : k' ≠ k) : (s.delete k).get now k' = s.get now k' := by
  simp only [get, delete, Function.update_of_ne h]

@[simp] theorem left_delete_self : (s.delete k).left now k = none := by
  simp only [left, delete, Function.update_self, Option.filter_none]

theorem left_delete_of_ne (h : k' ≠ k) : (s.delete k).left now k' = s.left now k' := by
  simp only [left, delete, Function.update_of_ne h]

theorem entries_put_cases {e' : Entry α} (h : (s.put k e).entries k' = some e') :
    (k' = k ∧ e' = e) ∨ s.entries k' = some e' := by
  by_cases hk : k' = k
  · subst hk
    simp only [put, Function.update_self] at h
    exact .inl ⟨rfl, (Option.some.inj h).symm⟩
  · simp only [put, Function.update_of_ne hk] at h
    exact .inr h

theorem Agree.put {e' : Entry β} (h : Agree now f g s m) (hseen : Entry.seen f e = Entry.seen g e')
    (hnow : now < e.expiresAt) (k : κ) : Agree now f g (s.put k e) (m.put k e') := by
  intro k'
  have htime : e.expiresAt = e'.expiresAt := congrArg Prod.snd hseen
  by_cases hk : k' = k
  · subst hk
    rw [get_put_self (Nat.le_of_lt hnow), left_put_self (htime ▸ hnow), Option.map_some, Option.map_some, hseen]
  · rw [get_put_of_ne hk, left_put_of_ne hk]
    exact h k'

theorem Agree.delete (h : Agree now f g s m) (k : κ) : Agree now f g (s.delete k) (m.delete k) := by
  intro k'
  by_cases hk : k' = k
  · subst hk
    rw [get_delete_self, left_delete_self, Option.map_none, Option.map_none]
  · rw [get_delete_of_ne hk, left_delete_of_ne hk]
    exact h k'

end Store

/-! ## Batches -/

/-- Every element is served in turn. -/
def answerEach {σ α β : Type} (f : σ → α → σ × β) : σ → List α → σ × List β
  | s, [] => (s, [])
  | s, a :: as =>
    match f s a with
    | (s', b) =>
      match answerEach f s' as with
      | (s'', bs) => (s'', b :: bs)

theorem answerEach_cons {σ α β : Type} (f : σ → α → σ × β) (s : σ) (a : α) (as : List α) :
    answerEach f s (a :: as) = ((answerEach f (f s a).1 as).1, (f s a).2 :: (answerEach f (f s a).1 as).2) := rfl

end ExpiringKeys
