import Civfix.InboundEffects

/-! # A reply takes effect once

The stage of a message never falls. While runs end before their lease does, the run that works on a
message is the only one that holds it; and a stage is recorded after its effect before the next run
reads it, unless the record fails or the run dies in between. -/
namespace Civfix.InboundEffects

open InterleavedCalls

variable {cfg : Config} {s s' : Shared} {w w' : World}

/-! ## Conditions on the moves -/

/-- A run has ended, or has died, when its lease runs out. -/
def InLease (cfg : Config) (w : World) (m : Move) : Prop :=
  match m with
  | .environment (.tick n) => ∀ y ∈ w.calls, ∀ c ∈ y, ∀ x ∈ c.await.run, w.shared.now + n ≤ x.claimedAt + cfg.lease
  | _ => True

/-- An effect does not fail, the record of its stage does not fail, and no run dies in between. -/
def Recorded (w : World) (m : Move) : Prop :=
  match m with
  | .access i k => ∀ c ∈ w.call i, (c.await.making.isSome → k ≠ 1 ∧ k ≠ 2) ∧ (c.await.recording.isSome → k = 0)
  | .crash i => ∀ c ∈ w.call i, c.await.recording = none
  | _ => True

instance (cfg : Config) (w : World) (m : Move) : Decidable (InLease cfg w m) :=
  match m with
  | .environment (.tick n) =>
    inferInstanceAs (Decidable (∀ y ∈ w.calls, ∀ c ∈ y, ∀ x ∈ c.await.run, w.shared.now + n ≤ x.claimedAt + cfg.lease))
  | .start _ | .access _ _ | .crash _ | .environment (.setStatus _ _) | .environment .remove => isTrue trivial

instance (w : World) (m : Move) : Decidable (Recorded w m) :=
  match m with
  | .access i k => inferInstanceAs (Decidable (∀ c ∈ w.call i, (c.await.making.isSome → k ≠ 1 ∧ k ≠ 2) ∧ _))
  | .crash i => inferInstanceAs (Decidable (∀ c ∈ w.call i, c.await.recording = none))
  | .start _ | .environment _ => isTrue trivial

/-- Both. -/
def Steady (cfg : Config) (w : World) (m : Move) : Prop := InLease cfg w m ∧ Recorded w m

instance (cfg : Config) (w : World) (m : Move) : Decidable (Steady cfg w m) := inferInstanceAs (Decidable (_ ∧ _))

/-! ## What an access does -/

/-- The stages that are still below the one a run is about to reach. -/
def Await.bound : Await → Option ℕ
  | .getReport x => some x.stage
  | .effect _ _ e => some (e.stage - 1)
  | .setStage _ _ k => some (k - 1)
  | .currentReport _ _ => some 1
  | .correlate _ | .claim _ _ | .settle _ | .markApplied _ | .release _ => none

/-- The time that a call has read and not used yet. -/
def Await.readAt : Await → Option Instant
  | .correlate o => o.sweepNow
  | .claim _ t => some t
  | _ => none

theorem run_proceed (x : Run) (r : Option Report) (p : ℕ) : (proceed x r p).run = some x := by
  unfold proceed
  split
  · split
    · rfl
    split <;> rfl
  · split
    · rfl
    split
    · rfl
    split
    · split <;> rfl
    split <;> rfl

theorem bound_proceed (x : Run) (r : Option Report) (p : ℕ) : ∀ b ∈ (proceed x r p).bound, p ≤ b := by
  intro b hb
  unfold proceed at hb
  split at hb
  · split at hb
    · cases hb
      omega
    split at hb <;> cases hb
  · split at hb
    · omega
    split at hb
    · cases hb
      omega
    split at hb
    · split at hb
      · cases hb
        simp only [Effect.stage]
        omega
      · cases hb
        omega
    split at hb <;> cases hb

/-- An access touches the message of its run, or claims one. -/
theorem access_frame {p : Await} {n : Next} (hmem : (s', n) ∈ access cfg s p) : s'.now = s.now ∧
    ∀ id, s'.messages id = s.messages id ∨ (∃ x, p.run = some x ∧ x.message = id) ∨
      ∃ o t, p = .claim o t ∧ o.message = id ∧ s.claimable cfg id t = true := by
  have hsame : ∀ (x : Run) (f : Message → Message) (id : MessageId), p.run = some x →
      (s.update x.message f).messages id = s.messages id ∨ (∃ x, p.run = some x ∧ x.message = id) ∨
        ∃ o t, p = .claim o t ∧ o.message = id ∧ s.claimable cfg id t = true := by
    intro x f id hx
    by_cases hid : id = x.message
    · exact .inr (.inl ⟨x, hx, hid.symm⟩)
    · exact .inl (Shared.update_of_ne hid f)
  cases p with
  | correlate o =>
    simp only [access, List.mem_cons, Prod.mk.injEq, List.not_mem_nil, or_false] at hmem
    rcases hmem with ⟨rfl, -⟩ | ⟨rfl, -⟩ <;> exact ⟨rfl, fun _ => .inl rfl⟩
  | claim o t =>
    simp only [access] at hmem
    split at hmem
    · next hc =>
      simp only [List.mem_cons, Prod.mk.injEq, List.not_mem_nil, or_false] at hmem
      have hclaim : ∀ id, (s.claimMessageEffects o.message).messages id = s.messages id ∨
          ∃ o' t', Await.claim o t = .claim o' t' ∧ o'.message = id ∧ s.claimable cfg id t' = true := by
        intro id
        by_cases hid : id = o.message
        · exact .inr ⟨o, t, rfl, hid.symm, hid ▸ hc⟩
        · exact .inl (Shared.update_of_ne hid _)
      rcases hmem with ⟨rfl, -⟩ | ⟨rfl, -⟩ | ⟨rfl, -⟩
      · exact ⟨rfl, fun id => (hclaim id).imp_right .inr⟩
      · exact ⟨rfl, fun _ => .inl rfl⟩
      · exact ⟨rfl, fun id => (hclaim id).imp_right .inr⟩
    · simp only [List.mem_cons, Prod.mk.injEq, List.not_mem_nil, or_false] at hmem
      rcases hmem with ⟨rfl, -⟩ | ⟨rfl, -⟩ <;> exact ⟨rfl, fun _ => .inl rfl⟩
  | getReport x | currentReport x r =>
    simp only [access, List.mem_cons, Prod.mk.injEq, List.not_mem_nil, or_false] at hmem
    rcases hmem with ⟨rfl, -⟩ | ⟨rfl, -⟩ <;> exact ⟨rfl, fun _ => .inl rfl⟩
  | effect x r e =>
    rcases shared_of_effect hmem with rfl | rfl
    · refine ⟨Shared.now_perform _ e, fun id => ?_⟩
      by_cases hid : id = x.message
      · exact .inr (.inl ⟨x, rfl, hid.symm⟩)
      · exact .inl (Shared.perform_of_ne hid e)
    · exact ⟨rfl, fun _ => .inl rfl⟩
  | setStage x r k | settle x | markApplied x =>
    simp only [access, List.mem_cons, Prod.mk.injEq, List.not_mem_nil, or_false] at hmem
    rcases hmem with ⟨rfl, -⟩ | ⟨rfl, -⟩ | ⟨rfl, -⟩
    · exact ⟨rfl, fun id => hsame x _ id rfl⟩
    · exact ⟨rfl, fun _ => .inl rfl⟩
    · exact ⟨rfl, fun id => hsame x _ id rfl⟩
  | release x =>
    simp only [access, List.mem_cons, Prod.mk.injEq, List.not_mem_nil, or_false] at hmem
    rcases hmem with ⟨rfl, -⟩ | ⟨rfl, -⟩
    · exact ⟨rfl, fun id => hsame x _ id rfl⟩
    · exact ⟨rfl, fun _ => .inl rfl⟩

/-- The stage of a message never falls. -/
theorem stage_le_of_access {p : Await} {n : Next} (hmem : (s', n) ∈ access cfg s p) (id : MessageId) :
    (s.messages id).stage ≤ (s'.messages id).stage := by
  have hupdate : ∀ (j : MessageId) (f : Message → Message), (∀ m, m.stage ≤ (f m).stage) →
      (s.messages id).stage ≤ ((s.update j f).messages id).stage := by
    intro j f hf
    by_cases hj : id = j
    · subst hj
      simpa using hf _
    · rw [Shared.update_of_ne hj]
  cases p with
  | correlate o | getReport x | currentReport x r =>
    simp only [access, List.mem_cons, Prod.mk.injEq, List.not_mem_nil, or_false] at hmem
    rcases hmem with ⟨rfl, -⟩ | ⟨rfl, -⟩ <;> exact Nat.le_refl _
  | claim o t =>
    simp only [access] at hmem
    split at hmem
    · simp only [List.mem_cons, Prod.mk.injEq, List.not_mem_nil, or_false] at hmem
      rcases hmem with ⟨rfl, -⟩ | ⟨rfl, -⟩ | ⟨rfl, -⟩
      · exact hupdate _ _ (fun _ => Nat.le_refl _)
      · exact Nat.le_refl _
      · exact hupdate _ _ (fun _ => Nat.le_refl _)
    · simp only [List.mem_cons, Prod.mk.injEq, List.not_mem_nil, or_false] at hmem
      rcases hmem with ⟨rfl, -⟩ | ⟨rfl, -⟩ <;> exact Nat.le_refl _
  | effect x r e =>
    rcases shared_of_effect hmem with rfl | rfl
    · by_cases hid : id = x.message
      · subst hid
        exact (Shared.perform_same x.message e).1.ge
      · rw [Shared.perform_of_ne hid e]
    · exact Nat.le_refl _
  | setStage x r k =>
    have hf : ∀ m : Message, m.stage ≤ { m with stage := max m.stage k }.stage := fun m => Nat.le_max_left _ _
    simp only [access, List.mem_cons, Prod.mk.injEq, List.not_mem_nil, or_false] at hmem
    rcases hmem with ⟨rfl, -⟩ | ⟨rfl, -⟩ | ⟨rfl, -⟩
    · exact hupdate _ _ hf
    · exact Nat.le_refl _
    · exact hupdate _ _ hf
  | settle x =>
    have hf : ∀ m : Message, m.stage ≤ (if m.stage < 4 then { m with stage := 4 } else m).stage := by
      intro m
      split
      · next h => exact h.le
      · exact Nat.le_refl _
    simp only [access, List.mem_cons, Prod.mk.injEq, List.not_mem_nil, or_false] at hmem
    rcases hmem with ⟨rfl, -⟩ | ⟨rfl, -⟩ | ⟨rfl, -⟩
    · exact hupdate _ _ hf
    · exact Nat.le_refl _
    · exact hupdate _ _ hf
  | markApplied x =>
    simp only [access, List.mem_cons, Prod.mk.injEq, List.not_mem_nil, or_false] at hmem
    rcases hmem with ⟨rfl, -⟩ | ⟨rfl, -⟩ | ⟨rfl, -⟩
    · exact hupdate _ _ (fun _ => Nat.le_refl _)
    · exact Nat.le_refl _
    · exact hupdate _ _ (fun _ => Nat.le_refl _)
  | release x =>
    have hf : ∀ m : Message, m.stage ≤ (if m.applied then m else { m with claimedAt := none }).stage := by
      intro m
      split <;> exact Nat.le_refl _
    simp only [access, List.mem_cons, Prod.mk.injEq, List.not_mem_nil, or_false] at hmem
    rcases hmem with ⟨rfl, -⟩ | ⟨rfl, -⟩
    · exact hupdate _ _ hf
    · exact Nat.le_refl _

theorem shared_of_enter {o : Request} {p : Await} (he : enter cfg s o = some (s', p)) :
    s' = s ∧ p.run = none ∧ p.bound = none ∧ p.effecting = none ∧ p.recording = none := by
  unfold enter at he
  split at he
  · cases he
  split at he
  · cases he
    exact ⟨rfl, rfl, rfl, rfl, rfl⟩
  split at he
  · cases he
  · cases he
    exact ⟨rfl, rfl, rfl, rfl, rfl⟩

/-- A sweep began in the past. -/
theorem readAt_of_enter {o : Request} {p : Await} (he : enter cfg s o = some (s', p)) : ∀ t ∈ p.readAt, t ≤ s.now := by
  unfold enter at he
  split at he
  · cases he
  next hok =>
  have hnow : ∀ t ∈ o.sweepNow, t ≤ s.now := by
    intro t ht
    have ht' : o.sweepNow = some t := ht
    simp [ht'] at hok
    exact hok.2
  split at he
  · cases he
    exact hnow
  split at he
  · cases he
  · cases he
    intro t ht
    cases ht
    cases ho : o.sweepNow with
    | none => exact Nat.le_refl _
    | some t => exact hnow t ho

theorem now_of_write {e : Event} (he : environment s e = some s') (hne : ∀ n, e ≠ .tick n) : s'.now = s.now := by
  cases e with
  | tick n => exact absurd rfl (hne n)
  | setStatus sources target =>
    simp only [environment] at he
    split at he
    · cases he
    split at he <;> cases he
    rfl
  | remove =>
    simp only [environment] at he
    split at he <;> cases he
    rfl

theorem messages_of_environment {e : Event} (he : environment s e = some s') : s'.messages = s.messages := by
  cases e with
  | tick n =>
    cases he
    rfl
  | setStatus sources target =>
    simp only [environment] at he
    split at he
    · cases he
    split at he <;> cases he
    rfl
  | remove =>
    simp only [environment] at he
    split at he <;> cases he
    rfl

theorem stage_le_of_step {m : Move} {r : Option Result} (hs : (machine cfg).step w m = some (w', r)) (id : MessageId) :
    (w.shared.messages id).stage ≤ (w'.shared.messages id).stage := by
  rcases Machine.shared_cases hs with ⟨o, p, -, he⟩ | ⟨i, k, c, n, -, -, hmem⟩ | ⟨i, -, he⟩ | ⟨e, -, he, -⟩
  · rw [(shared_of_enter he).1]
  · exact stage_le_of_access hmem id
  · rw [he]
  · rw [messages_of_environment he]

/-! ## Runs that end before their leases -/

/-- What is true while a call awaits `p`: its run holds the message, whose stage is still below the
next one. -/
def Asserts (cfg : Config) (s : Shared) (p : Await) : Prop :=
  (∀ x ∈ p.run, x.Holds cfg s ∧ ∀ b ∈ p.bound, (s.messages x.message).stage ≤ b) ∧ ∀ t ∈ p.readAt, t ≤ s.now

/-- The message of the run. -/
def runKey (c : Call) : Option MessageId := c.await.run.map Run.message

theorem readAt_of_run {p : Await} {x : Run} (h : p.run = some x) : p.readAt = none := by
  cases p <;> first | rfl | cases h

theorem asserts_of_run {p : Await} {x : Run} (hx : p.run = some x) (hh : x.Holds cfg s)
    (hb : ∀ b ∈ p.bound, (s.messages x.message).stage ≤ b) : Asserts cfg s p := by
  refine ⟨fun y hy => ?_, fun t ht => ?_⟩
  · cases hx.symm.trans hy
    exact ⟨hh, hb⟩
  · rw [readAt_of_run hx] at ht
    cases ht

theorem not_claimable {x : Run} (hx : x.Holds cfg s) {t : Instant} (ht : t ≤ s.now) :
    s.claimable cfg x.message t = false := by
  obtain ⟨hat, hle⟩ := hx
  have hlate : ¬ x.claimedAt + cfg.lease < t := Nat.not_lt.mpr (ht.trans hle)
  simp [Shared.claimable, hat, hlate]

/-- A call that has not claimed a message yet, and its next await. -/
theorem next_of_unclaimed {p q : Await} (hp : p.run = none) (hmem : (s', .await q) ∈ access cfg s p) :
    (q.run = none ∧ s' = s ∧ ∃ o, p = .correlate o ∧ q = .claim o (o.sweepNow.getD s.now)) ∨
    ∃ o t, p = .claim o t ∧ s.claimable cfg o.message t = true ∧ s' = s.claimMessageEffects o.message ∧
      q.run = some ⟨o.message, s.now, (s.messages o.message).stage⟩ ∧
      ∀ b ∈ q.bound, (s.messages o.message).stage ≤ b := by
  cases p with
  | correlate o =>
    simp only [access, List.mem_cons, Prod.mk.injEq, reduceCtorEq, and_false, List.not_mem_nil, or_false] at hmem
    obtain ⟨rfl, hq⟩ := hmem
    split at hq
    · cases hq
    · cases hq
      exact .inl ⟨rfl, rfl, o, rfl, rfl⟩
  | claim o t =>
    simp only [access] at hmem
    split at hmem
    · next hc =>
      simp only [List.mem_cons, Prod.mk.injEq, reduceCtorEq, and_false, List.not_mem_nil, or_false,
        Next.await.injEq] at hmem
      obtain ⟨rfl, rfl⟩ := hmem
      refine .inr ⟨o, t, rfl, hc, rfl, ?_⟩
      split
      · exact ⟨run_proceed _ _ _, bound_proceed _ _ _⟩
      · refine ⟨rfl, fun b hb => ?_⟩
        cases hb
        exact Nat.le_refl _
    · simp at hmem
  | getReport x | effect x _ _ | setStage x _ _ | currentReport x _ | settle x | markApplied x | release x => cases hp

/-- A run goes on with the message it has claimed, until it releases it. -/
theorem next_of_claimed {p q : Await} {x : Run} (hp : p.run = some x) (hmem : (s', .await q) ∈ access cfg s p) :
    q.run = some x ∧ (s'.messages x.message).claimedAt = (s.messages x.message).claimedAt ∧
    ((∀ b ∈ p.bound, (s.messages x.message).stage ≤ b) → ∀ b ∈ q.bound, (s'.messages x.message).stage ≤ b) := by
  cases p with
  | correlate o | claim o t => cases hp
  | getReport y =>
    cases hp
    simp only [access, List.mem_cons, Prod.mk.injEq, Next.await.injEq, List.not_mem_nil, or_false] at hmem
    rcases hmem with ⟨rfl, rfl⟩ | ⟨rfl, rfl⟩
    · split
      · exact ⟨rfl, rfl, fun _ b hb => by cases hb⟩
      · exact ⟨run_proceed _ _ _, rfl, fun h b hb => (h _ rfl).trans (bound_proceed _ _ _ b hb)⟩
    · exact ⟨rfl, rfl, fun _ b hb => by cases hb⟩
  | effect y r e =>
    cases hp
    have hsame := Shared.perform_same (s := s) x.message e
    have hshared := shared_of_effect hmem
    have hq : q = .setStage x r e.stage ∨ q = .release x := by
      simp only [access, List.mem_append, List.mem_cons, Prod.mk.injEq, Next.await.injEq, List.not_mem_nil,
        or_false] at hmem
      rcases hmem with (⟨-, rfl⟩ | ⟨-, rfl⟩ | ⟨-, rfl⟩) | hskip
      · exact .inl rfl
      · exact .inr rfl
      · exact .inr rfl
      · split at hskip
        · simp only [List.mem_singleton, Prod.mk.injEq, Next.await.injEq] at hskip
          exact .inl hskip.2
        · cases hskip
    have hkeep : (s'.messages x.message).claimedAt = (s.messages x.message).claimedAt ∧
        (s'.messages x.message).stage = (s.messages x.message).stage := by
      rcases hshared with rfl | rfl
      · exact ⟨hsame.2.1, hsame.1⟩
      · exact ⟨rfl, rfl⟩
    rcases hq with rfl | rfl
    · exact ⟨rfl, hkeep.1, fun h b hb => by rw [hkeep.2]; exact h b hb⟩
    · exact ⟨rfl, hkeep.1, fun _ b hb => by cases hb⟩
  | setStage y r k =>
    cases hp
    simp only [access, List.mem_cons, Prod.mk.injEq, Next.await.injEq, List.not_mem_nil, or_false] at hmem
    rcases hmem with ⟨rfl, rfl⟩ | ⟨rfl, rfl⟩ | ⟨rfl, rfl⟩
    · refine ⟨run_proceed _ _ _, by simp [Shared.setMessageEffectsStage], fun h b hb => ?_⟩
      have hk := h (k - 1) rfl
      have hb := bound_proceed _ _ _ b hb
      simp only [Shared.setMessageEffectsStage, Shared.update_same]
      omega
    · exact ⟨rfl, rfl, fun _ b hb => by cases hb⟩
    · exact ⟨rfl, by simp [Shared.setMessageEffectsStage], fun _ b hb => by cases hb⟩
  | currentReport y r =>
    cases hp
    simp only [access, List.mem_cons, Prod.mk.injEq, Next.await.injEq, List.not_mem_nil, or_false] at hmem
    rcases hmem with ⟨rfl, rfl⟩ | ⟨rfl, rfl⟩
    · exact ⟨rfl, rfl, fun h b hb => by cases hb; exact h 1 rfl⟩
    · exact ⟨rfl, rfl, fun _ b hb => by cases hb⟩
  | settle y =>
    cases hp
    have hclaim : ((s.settleRepliedThread x.message).messages x.message).claimedAt =
      (s.messages x.message).claimedAt := by
      simp only [Shared.settleRepliedThread, Shared.update_same]
      split <;> rfl
    simp only [access, List.mem_cons, Prod.mk.injEq, Next.await.injEq, List.not_mem_nil, or_false] at hmem
    rcases hmem with ⟨rfl, rfl⟩ | ⟨rfl, rfl⟩ | ⟨rfl, rfl⟩
    · exact ⟨rfl, hclaim, fun _ b hb => by cases hb⟩
    · exact ⟨rfl, rfl, fun _ b hb => by cases hb⟩
    · exact ⟨rfl, hclaim, fun _ b hb => by cases hb⟩
  | markApplied y =>
    cases hp
    simp only [access, List.mem_cons, Prod.mk.injEq, Next.await.injEq, reduceCtorEq, and_false, List.not_mem_nil,
      or_false,
      false_or] at hmem
    rcases hmem with ⟨rfl, rfl⟩ | ⟨rfl, rfl⟩
    · exact ⟨rfl, rfl, fun _ b hb => by cases hb⟩
    · exact ⟨rfl, by simp [Shared.markMessageEffectsApplied], fun _ b hb => by cases hb⟩
  | release y => simp [access] at hmem

theorem asserts_next {p q : Await} (h : Asserts cfg s p) (hmem : (s', .await q) ∈ access cfg s p) :
    Asserts cfg s' q := by
  have hnow := (access_frame hmem).1
  cases hp : p.run with
  | none =>
    rcases next_of_unclaimed hp hmem with ⟨hq, rfl, o, rfl, rfl⟩ | ⟨o, t, rfl, -, rfl, hq, hb⟩
    · refine ⟨fun x hx => (by cases hx), fun t ht => ?_⟩
      cases ht
      cases ho : o.sweepNow with
      | none => exact Nat.le_refl _
      | some t => exact h.2 t ho
    · exact asserts_of_run hq ⟨by simp [Shared.claimMessageEffects], Nat.le_add_right _ _⟩
        (fun b hb' => by simpa [Shared.claimMessageEffects] using hb b hb')
  | some x =>
    obtain ⟨hq, hclaim, hb⟩ := next_of_claimed hp hmem
    obtain ⟨hh, hbound⟩ := h.1 x hp
    exact asserts_of_run hq ⟨hclaim.trans hh.1, hnow ▸ hh.2⟩ (hb hbound)

/-- The access of another call, whose run is not of the same message. -/
theorem asserts_other {p d : Await} {n : Next} (h : Asserts cfg s d) (hp : Asserts cfg s p)
    (hmem : (s', n) ∈ access cfg s p)
    (hne : ∀ x ∈ d.run, ∀ y ∈ p.run, y.message ≠ x.message) : Asserts cfg s' d := by
  obtain ⟨hnow, hframe⟩ := access_frame hmem
  refine ⟨fun x hx => ?_, fun t ht => hnow ▸ h.2 t ht⟩
  obtain ⟨hh, hb⟩ := h.1 x hx
  rcases hframe x.message with hsame | ⟨y, hy, hxy⟩ | ⟨o, t, rfl, ho, hc⟩
  · exact ⟨⟨hsame ▸ hh.1, hnow ▸ hh.2⟩, by rwa [hsame]⟩
  · exact absurd hxy (hne x hx y hy)
  · have hfree := not_claimable hh (hp.2 t rfl)
    rw [hc] at hfree
    cases hfree

structure Sound (cfg : Config) (w : World) : Prop where
  holds : Machine.Holds (fun _ => True) (fun s _ c => Asserts cfg s c.await) w
  exclusive : Machine.Exclusive runKey w

theorem Sound.apart (h : Sound cfg w) {i j : ℕ} {c d : Call} (hc : w.call i = some c) (hd : w.call j = some d)
    (hj : j ≠ i) :
    ∀ x ∈ d.await.run, ∀ y ∈ c.await.run, y.message ≠ x.message := by
  intro x hx y hy hxy
  have hx' : d.await.run = some x := hx
  have hy' : c.await.run = some y := hy
  exact hj (h.exclusive j i d c x.message hd hc (by simp [runKey, hx']) (by simp [runKey, hy', hxy]))

theorem Sound.step {m : Move} {r : Option Result} (h : Sound cfg w) (hok : InLease cfg w m)
    (hs : (machine cfg).step w m = some (w', r)) : Sound cfg w' := by
  refine ⟨h.holds.step hs ?_ ?_ ?_, h.exclusive.step_taking hs ?_ ?_⟩
  · intro o t p hm he
    obtain ⟨rfl, hrun, -⟩ := shared_of_enter he
    refine ⟨trivial, ⟨fun x hx => ?_, readAt_of_enter he⟩, fun i c hc => h.holds.calls i c hc⟩
    rw [hrun] at hx
    cases hx
  · intro i k c t n hm hc hmem
    have hcall := h.holds.calls i c hc
    refine ⟨trivial, fun p hp => asserts_next hcall (hp ▸ hmem), fun j d hj hd => ?_⟩
    exact asserts_other (h.holds.calls j d hd) hcall hmem (h.apart hc hd hj)
  · rintro e t rfl he
    refine ⟨trivial, fun i c hc => ?_⟩
    have hmsg := messages_of_environment he
    have hwrite := now_of_write he
    have hcall := h.holds.calls i c hc
    cases e with
    | tick n =>
      cases he
      refine ⟨fun x hx => ⟨⟨(hcall.1 x hx).1.1, ?_⟩, (hcall.1 x hx).2⟩,
        fun t ht => Nat.le_add_right_of_le (hcall.2 t ht)⟩
      exact hok (some c) (List.mem_of_getElem? (World.call_eq_some.mp hc)) c rfl x hx
    | setStatus _ _ | remove =>
      have hnow := hwrite (by simp)
      refine ⟨fun x hx => ⟨⟨hmsg ▸ (hcall.1 x hx).1.1, hnow ▸ (hcall.1 x hx).1.2⟩, hmsg ▸ (hcall.1 x hx).2⟩, ?_⟩
      exact fun t' ht => hnow ▸ hcall.2 t' ht
  · intro o t p hm he k hk
    obtain ⟨-, hrun, -⟩ := shared_of_enter he
    simp [runKey, hrun] at hk
  · rintro i k c t p rfl hc hmem
    cases hp : c.await.run with
    | none =>
      rcases next_of_unclaimed hp hmem with ⟨hq, -⟩ | ⟨o, u, ho, hfree, -, hq, -⟩
      · exact .inl (by simp [runKey, hq, hp])
      · refine .inr (fun id hid j d hj hd hdk => ?_)
        simp only [runKey, hq, Option.map_some, Option.some.injEq] at hid
        obtain ⟨x, hx, hxid⟩ := Option.map_eq_some_iff.mp hdk
        have hread := (h.holds.calls i c hc).2
        rw [ho] at hread
        have hheld := not_claimable ((h.holds.calls j d hd).1 x hx).1 (hread u rfl)
        rw [hxid, ← hid, hfree] at hheld
        cases hheld
    | some x => exact .inl (by simp [runKey, (next_of_claimed hp hmem).1, hp])

/-! ## Rows -/

/-- Only an effect adds a row, and one at most. -/
theorem rows_of_access {p : Await} {n : Next} (hmem : (s', n) ∈ access cfg s p) (id : MessageId) (k : ℕ) :
    (s'.messages id).rows k = (s.messages id).rows k ∨ ∃ x r e, p = .effect x r e ∧ x.message = id ∧ e.stage = k ∧
      (s'.messages id).rows k ≤ (s.messages id).rows k + 1 := by
  have hupdate : ∀ (j : MessageId) (f : Message → Message), (∀ m, (f m).rows k = m.rows k) →
      ((s.update j f).messages id).rows k = (s.messages id).rows k := by
    intro j f hf
    by_cases hj : id = j
    · subst hj
      rw [Shared.update_same, hf]
    · rw [Shared.update_of_ne hj]
  cases p with
  | correlate o | getReport x | currentReport x r =>
    simp only [access, List.mem_cons, Prod.mk.injEq, List.not_mem_nil, or_false] at hmem
    rcases hmem with ⟨rfl, -⟩ | ⟨rfl, -⟩ <;> exact .inl rfl
  | claim o t =>
    simp only [access] at hmem
    split at hmem
    · simp only [List.mem_cons, Prod.mk.injEq, List.not_mem_nil, or_false] at hmem
      rcases hmem with ⟨rfl, -⟩ | ⟨rfl, -⟩ | ⟨rfl, -⟩
      · exact .inl (hupdate _ _ (fun _ => by unfold Message.rows; rfl))
      · exact .inl rfl
      · exact .inl (hupdate _ _ (fun _ => by unfold Message.rows; rfl))
    · simp only [List.mem_cons, Prod.mk.injEq, List.not_mem_nil, or_false] at hmem
      rcases hmem with ⟨rfl, -⟩ | ⟨rfl, -⟩ <;> exact .inl rfl
  | effect x r e =>
    rcases shared_of_effect hmem with rfl | rfl
    · by_cases hid : id = x.message
      · subst hid
        obtain ⟨-, -, hle, hrest⟩ := Shared.perform_same (s := s) x.message e
        by_cases hk : k = e.stage
        · subst hk
          exact .inr ⟨x, r, e, rfl, rfl, rfl, hle⟩
        · exact .inl (hrest k hk)
      · exact .inl (by rw [Shared.perform_of_ne hid e])
    · exact .inl rfl
  | setStage x r j | markApplied x =>
    simp only [access, List.mem_cons, Prod.mk.injEq, List.not_mem_nil, or_false] at hmem
    rcases hmem with ⟨rfl, -⟩ | ⟨rfl, -⟩ | ⟨rfl, -⟩
    · exact .inl (hupdate _ _ (fun _ => by unfold Message.rows; rfl))
    · exact .inl rfl
    · exact .inl (hupdate _ _ (fun _ => by unfold Message.rows; rfl))
  | settle x =>
    have hf : ∀ m : Message, (if m.stage < 4 then { m with stage := 4 } else m).rows k = m.rows k := by
      intro m
      split
      · unfold Message.rows
        rfl
      · rfl
    simp only [access, List.mem_cons, Prod.mk.injEq, List.not_mem_nil, or_false] at hmem
    rcases hmem with ⟨rfl, -⟩ | ⟨rfl, -⟩ | ⟨rfl, -⟩
    · exact .inl (hupdate _ _ hf)
    · exact .inl rfl
    · exact .inl (hupdate _ _ hf)
  | release x =>
    have hf : ∀ m : Message, (if m.applied then m else { m with claimedAt := none }).rows k = m.rows k := by
      intro m
      split
      · rfl
      · unfold Message.rows
        rfl
    simp only [access, List.mem_cons, Prod.mk.injEq, List.not_mem_nil, or_false] at hmem
    rcases hmem with ⟨rfl, -⟩ | ⟨rfl, -⟩
    · exact .inl (hupdate _ _ hf)
    · exact .inl rfl

/-- The stage of the effect of `p` is recorded next, unless the effect fails. -/
theorem next_of_effect {x : Run} {r : Option Report} {e : Effect} {k : ℕ} {n : Next} (h1 : k ≠ 1) (h2 : k ≠ 2)
    (hk : (access cfg s (.effect x r e))[k]? = some (s', n)) : n = .await (.setStage x r e.stage) := by
  match k with
  | 0 => simpa [access, eq_comm] using (Prod.mk.inj (Option.some.inj hk)).2
  | 1 => exact absurd rfl h1
  | 2 => exact absurd rfl h2
  | k + 3 =>
    have hmem := List.mem_of_getElem? hk
    simp only [access, List.cons_append, List.nil_append, List.getElem?_cons_succ] at hk
    have hskip := List.mem_of_getElem? hk
    split at hskip
    · simp only [List.mem_singleton, Prod.mk.injEq] at hskip
      exact hskip.2
    · cases hskip

theorem stage_of_record {x : Run} {r : Option Report} {j : ℕ} {n : Next}
    (hk : (access cfg s (.setStage x r j))[0]? = some (s', n)) : j ≤ (s'.messages x.message).stage := by
  obtain ⟨rfl, -⟩ := Prod.mk.inj (Option.some.inj hk)
  simp [Shared.setMessageEffectsStage]

theorem run_of_effecting {p : Await} {x : Run} (h : p.effecting = some x) : p.run = some x := by
  cases p with
  | effect _ _ _ | settle _ => exact h
  | correlate _ | claim _ _ | getReport _ | setStage _ _ _ | currentReport _ _ | markApplied _ | release _ => cases h

theorem setStage_of_recording {p : Await} {id : MessageId} {k : ℕ} (h : p.recording = some (id, k)) :
    ∃ x r, p = .setStage x r k ∧ x.message = id := by
  cases p with
  | setStage x r j =>
    cases h
    exact ⟨x, r, rfl, rfl⟩
  | correlate _ | claim _ _ | getReport _ | effect _ _ _ | currentReport _ _ | settle _ | markApplied _ | release _ => cases h

/-- A row has been written once at most, and then its stage is recorded or is about to be. -/
def Once (w : World) : Prop :=
  ∀ id k, (w.shared.messages id).rows k ≤ 1 ∧ ((w.shared.messages id).rows k ≠ 0 →
    k ≤ (w.shared.messages id).stage ∨ ∃ i c, w.call i = some c ∧ c.await.recording = some (id, k))

/-- An effect that is about to be made has not been made yet. -/
theorem Once.unmade (ho : Once w) (h : Sound cfg w) {i : ℕ} {c : Call} (hc : w.call i = some c) {x : Run}
    {r : Option Report} {e : Effect} (hp : c.await = .effect x r e) :
    (w.shared.messages x.message).rows e.stage = 0 := by
  by_contra hne
  have hcall := h.holds.calls i c hc
  rw [hp] at hcall
  have hbelow := (hcall.1 x rfl).2 (e.stage - 1) rfl
  have hpos : 0 < e.stage := by cases e <;> exact Nat.succ_pos _
  rcases (ho x.message e.stage).2 hne with hle | ⟨j, d, hd, hrec⟩
  · omega
  · obtain ⟨y, q, hy, hyx⟩ := setStage_of_recording hrec
    by_cases hj : j = i
    · subst hj
      rw [hc] at hd
      obtain rfl := Option.some.inj hd
      rw [hp] at hy
      cases hy
    · exact h.apart hc hd hj y (by rw [hy]; rfl) x (by rw [hp]; rfl) hyx.symm

theorem Once.step {m : Move} {r : Option Result} (ho : Once w) (h : Sound cfg w) (hok : Recorded w m)
    (hs : (machine cfg).step w m = some (w', r)) : Once w' := by
  have hstage := stage_le_of_step hs
  -- A call that keeps its place keeps what it is about to record.
  have hkeep : ∀ id k, (w.shared.messages id).rows k = (w'.shared.messages id).rows k →
      (∀ i c, w.call i = some c → c.await.recording = some (id, k) →
        w'.call i = some c ∨ k ≤ (w'.shared.messages id).stage) →
      (w'.shared.messages id).rows k ≤ 1 ∧ ((w'.shared.messages id).rows k ≠ 0 →
        k ≤ (w'.shared.messages id).stage ∨ ∃ i c, w'.call i = some c ∧ c.await.recording = some (id, k)) := by
    intro id k hrows hcalls
    obtain ⟨hle, hmade⟩ := ho id k
    rw [hrows] at hle hmade
    refine ⟨hle, fun hne => ?_⟩
    rcases hmade hne with hst | ⟨i, c, hc, hrec⟩
    · exact .inl (hst.trans (hstage id))
    · exact (hcalls i c hc hrec).symm.imp_right (fun hc' => ⟨i, c, hc', hrec⟩)
  intro id k
  cases m with
  | start o =>
    rcases Machine.step_cases hs with ⟨o', s, p, -, he, rfl, -⟩ | ⟨_, _, _, _, _, hm, -⟩ | ⟨_, _, _, _, _, hm, -⟩ |
      ⟨_, hm, -⟩ | ⟨_, _, hm, -⟩
    · obtain ⟨rfl, -⟩ := shared_of_enter he
      refine hkeep id k rfl (fun i c hc _ => .inl ?_)
      rw [World.call_push, if_neg (World.lt_of_call hc).ne]
      exact hc
    all_goals cases hm
  | access i n =>
    obtain ⟨c, y, hc, hn, hw'⟩ := Machine.outcome_of_access hs
    obtain ⟨heff, hrec⟩ := hok c hc
    have hother : ∀ j d, j ≠ i → w.call j = some d → w'.call j = some d := by
      intro j d hj hd
      rw [hw', World.call_put_of_ne _ hj]
      exact hd
    rcases rows_of_access (List.mem_of_getElem? hn) id k with hrows | ⟨x, r, e, hp, rfl, rfl, hle⟩
    · refine hkeep id k hrows.symm (fun j d hd hdrec => ?_)
      by_cases hj : j = i
      · subst hj
        rw [hc] at hd
        obtain rfl := Option.some.inj hd
        obtain ⟨x, r, hp, rfl⟩ := setStage_of_recording hdrec
        rw [hrec (by rw [hdrec]; rfl), hp] at hn
        exact .inr (@stage_of_record cfg _ _ _ _ _ _ hn)
      · exact .inl (hother j d hj hd)
    · rw [ho.unmade h hc hp] at hle
      refine ⟨hle, fun _ => .inr ⟨i, ⟨c.origin, .setStage x r e.stage⟩, ?_, rfl⟩⟩
      obtain ⟨h1, h2⟩ := heff (by rw [hp]; rfl)
      rw [hp] at hn
      rw [hw', World.call_put_self _ hc, @next_of_effect cfg _ _ _ _ _ _ _ h1 h2 hn]
      rfl
  | crash i =>
    obtain ⟨rfl, -⟩ := Prod.mk.inj (Option.some.inj hs)
    refine hkeep id k rfl (fun j d hd hdrec => .inl ?_)
    by_cases hj : j = i
    · subst hj
      rw [hok d hd] at hdrec
      cases hdrec
    · rw [World.call_put_of_ne _ hj]
      exact hd
  | environment e =>
    rcases Machine.step_cases hs with ⟨_, _, _, hm, -⟩ | ⟨_, _, _, _, _, hm, -⟩ | ⟨_, _, _, _, _, hm, -⟩ | ⟨_, hm, -⟩ |
      ⟨e', s, -, he, rfl, -⟩
    on_goal 5 =>
      exact hkeep id k (by rw [show s.messages = _ from messages_of_environment he]) (fun i c hc _ => .inl hc)
    all_goals cases hm

/-! ## The claim -/

/-- No row of an effect has been written yet. -/
def Unanswered (s : Shared) : Prop := ∀ id k, (s.messages id).rows k = 0

theorem sound_initial (s : Shared) : Sound cfg (World.initial s) where
  holds := ⟨trivial, fun i c hc => by simp at hc⟩
  exclusive i j c d k hc := by simp at hc

/-- In every run the stage of a message never falls. In every run in which no lease runs out under its
run, an effect of a message is made only while no other run holds an unexpired claim on it. And when
besides neither an effect nor the record of its stage fails, and no run dies between the two, each row
is written once at most. -/
theorem reply_takes_effect_once (cfg : Config) (s : Shared) :
    (∀ w w' : World, Machine.Run (machine cfg) (fun _ _ => True) w w' →
      ∀ id, (w.shared.messages id).stage ≤ (w'.shared.messages id).stage) ∧
    (∀ w : World, Machine.Run (machine cfg) (InLease cfg) (World.initial s) w →
      ∀ i j c d x y, w.call i = some c → w.call j = some d → c.await.effecting = some x → d.await.run = some y →
        y.Holds cfg w.shared → x.message = y.message → i = j) ∧
    (Unanswered s → ∀ w : World, Machine.Run (machine cfg) (Steady cfg) (World.initial s) w →
      ∀ id, (w.shared.messages id).timeline.length ≤ 1 ∧ (w.shared.messages id).chat.length ≤ 1 ∧
        (w.shared.messages id).notified.length ≤ 1) := by
  refine ⟨fun w w' h id => ?_, fun w h i j c d x y hc hd hx hy _ hxy => ?_, fun hs w h id => ?_⟩
  · induction h with
    | refl => exact Nat.le_refl _
    | tail _ m _ hstep ih => exact ih.trans (stage_le_of_step hstep id)
  · have hsound : Sound cfg w := h.invariant (sound_initial s) (fun hw hok hstep => hw.step hok hstep)
    have hrun : c.await.run = some x := run_of_effecting hx
    exact hsound.exclusive i j c d y.message hc hd (by simp [runKey, hrun, hxy]) (by simp [runKey, hy])
  · have hboth : Sound cfg w ∧ Once w :=
      h.invariant (P := fun w => Sound cfg w ∧ Once w)
        ⟨sound_initial s, fun id k => by simp [World.initial, hs id k]⟩
        (fun hw hok hstep => ⟨hw.1.step hok.1 hstep, hw.2.step hw.1 hok.2 hstep⟩)
    exact ⟨(hboth.2 id 1).1, (hboth.2 id 2).1, (hboth.2 id 3).1⟩

/-! ## A reply on a published report -/

def exampleConfig : Config := ⟨600, false⟩

/-- The reply has arrived, and the report has a reporter. -/
def published : Shared := ⟨0, some ⟨.published, false, some 7⟩, fun _ => ⟨0, none, false, [], [], []⟩⟩

def delivery : Request := ⟨0, true, false, none⟩

/-- The regular outcomes of a call. -/
def regular (i n : ℕ) : List Move := List.replicate n (.access i 0)

theorem exists_of_perform (ok : World → Move → Prop) [∀ w m, Decidable (ok w m)] (ms : List Move) (P : World → Bool)
    (hok : Machine.Allowed (machine exampleConfig) ok (World.initial published) ms)
    (h : ((machine exampleConfig).perform (World.initial published) ms).any P = true) :
    ∃ w, Machine.Run (machine exampleConfig) ok (World.initial published) w ∧ P w = true := by
  obtain ⟨w, hw, hP⟩ := (Option.any_eq_true _ _).mp h
  exact ⟨w, Machine.run_of_perform hok hw, hP⟩

theorem unanswered_published : Unanswered published := by
  intro id k
  unfold Message.rows
  split <;> rfl

/-- A run that is not interrupted makes each effect once, and holds the message while it does. -/
theorem delivery_is_applied :
    (∃ w : World, (published.messages 0).stage ≤ (w.shared.messages 0).stage ∧ (w.shared.messages 0).applied = true) ∧
    (∃ (w : World) (c : Call) (x : Run), w.call 0 = some c ∧ c.await.effecting = some x ∧
    x.Holds exampleConfig w.shared ∧
      ∀ j d y, w.call j = some d → d.await.run = some y → y.Holds exampleConfig w.shared → x.message = y.message →
        0 = j) ∧
    ∃ w : World, (w.shared.messages 0).timeline.length = 1 ∧ (w.shared.messages 0).chat.length = 1 ∧
      (w.shared.messages 0).notified.length = 1 := by
  obtain ⟨hstage, halone, honce⟩ := reply_takes_effect_once exampleConfig published
  obtain ⟨u, hfree, happlied⟩ := exists_of_perform (fun _ _ => True) (.start delivery :: regular 0 12)
    (fun w => (w.shared.messages 0).applied) (by decide +kernel) (by decide +kernel)
  obtain ⟨v, hleased, hP⟩ := exists_of_perform (InLease exampleConfig) (.start delivery :: regular 0 3)
    (fun w => (w.call 0).any (fun c => c.await.effecting.any (fun x => decide (x.Holds exampleConfig w.shared))))
    (by decide +kernel) (by decide +kernel)
  obtain ⟨c, hc, hany⟩ := (Option.any_eq_true _ _).mp hP
  obtain ⟨x, hx, hheld⟩ := (Option.any_eq_true _ _).mp hany
  obtain ⟨w, hsteady, hmade⟩ := exists_of_perform (Steady exampleConfig) (.start delivery :: regular 0 12)
    (fun w => decide (1 ≤ (w.shared.messages 0).timeline.length ∧ 1 ≤ (w.shared.messages 0).chat.length ∧
      1 ≤ (w.shared.messages 0).notified.length)) (by decide +kernel) (by decide +kernel)
  obtain ⟨h1, h2, h3⟩ := of_decide_eq_true hmade
  obtain ⟨ht, hch, hn⟩ := honce unanswered_published w hsteady 0
  refine ⟨⟨u, hstage _ u hfree 0, happlied⟩, ⟨v, c, x, hc, hx, of_decide_eq_true hheld, ?_⟩,
    w, ht.antisymm h1, hch.antisymm h2, hn.antisymm h3⟩
  intro j d y hd hy hholds hsame
  exact halone v hleased 0 j c d x y hc hd hx hy hholds hsame

/-- No call of an effect fails. -/
def EffectsSucceed (w : World) (m : Move) : Prop :=
  match m with
  | .access i k => ∀ c ∈ w.call i, c.await.making.isSome → k ≠ 1 ∧ k ≠ 2
  | _ => True

instance (w : World) (m : Move) : Decidable (EffectsSucceed w m) :=
  match m with
  | .access i k => inferInstanceAs (Decidable (∀ c ∈ w.call i, c.await.making.isSome → k ≠ 1 ∧ k ≠ 2))
  | .start _ | .crash _ | .environment _ => isTrue trivial

/-- A run dies after the status is set and before its stage is recorded, and the sweep runs the reply again. -/
def redriven : List Move :=
  (.start delivery : Move) :: regular 0 4 ++ [(.crash 0 : Move), .environment (.tick 601),
    .start ⟨0, true, false, some 601⟩] ++ regular 1 4

/-- Every run ends within its lease and no effect fails, and yet the reply is on the timeline twice. -/
theorem redriven_reply_is_shown_twice :
    ¬ ∀ (cfg : Config) (s : Shared) (w : World), Unanswered s →
      Machine.Run (machine cfg) (fun w m => InLease cfg w m ∧ EffectsSucceed w m) (World.initial s) w →
      ∀ id, (w.shared.messages id).timeline.length ≤ 1 := by
  intro hall
  obtain ⟨w, hrun, hP⟩ := exists_of_perform (fun w m => InLease exampleConfig w m ∧ EffectsSucceed w m) redriven
    (fun w => decide (1 < (w.shared.messages 0).timeline.length)) (by decide +kernel) (by decide +kernel)
  have hone := hall exampleConfig published w unanswered_published hrun 0
  have htwo := of_decide_eq_true hP
  omega

end Civfix.InboundEffects
