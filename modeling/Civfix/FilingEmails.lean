import Mathlib.Data.List.ReduceOption
import Civfix.FilingSteps

/-! # Email tries and their outcomes

An email try writes its outcomes from the running row of its attempt. The attempt number tells
tries apart as long as no other claim is had under it while the try is unfinished: the sweep
leaves the number in place and the next claim counts on, but an operator's retry starts over. -/
namespace Civfix.Filings

open KeyedTables InterleavedCalls

variable {cfg : Config} {s s' : Shared} {w w' : World} {m : Move} {r : Option Result}

/-- The try of an await after its claim. -/
def Await.ofTry : Await → Option Try
  | .settle t _ | .deliver t _ | .applyLoad (.email t _) | .applyWrite (.email t _) _ | .applyLoad (.late t _)
  | .applyWrite (.late t _) _ => some t
  | _ => none

/-- The try, if it still has to write from its running row. -/
def Await.unfinished : Await → Option Try
  | .settle t _ | .deliver t _ | .applyLoad (.email t _) | .applyWrite (.email t _) _ => some t
  | _ => none

/-- No claim of a filing is had under the attempt number of an email try of it that is unfinished. -/
def Apart (w : World) (m : Move) : Prop :=
  ∀ x ∈ claims w m, ∀ c ∈ w.calls.reduceOption, ∀ t ∈ c.await.unfinished, (t.filing.id, t.attempt) ≠ x

instance (w : World) (m : Move) : Decidable (Apart w m) :=
  inferInstanceAs (Decidable (∀ x ∈ claims w m, ∀ c ∈ w.calls.reduceOption, ∀ t ∈ c.await.unfinished, _))

theorem Apart.ne {id : FilingId} {n i : ℕ} {c : Call Request Await} {t : Try} (h : Apart w m)
    (hclaim : claims w m = some (id, n))
    (hc : w.call i = some c) (ht : c.await.unfinished = some t) : (t.filing.id, t.attempt) ≠ (id, n) := by
  refine h _ hclaim c ?_ t ht
  exact List.reduceOption_mem_iff.mpr (List.mem_of_getElem? (World.call_eq_some.mp hc))

/-! ## A try keeps to its claim -/

theorem unfinished_fail {t u : Try} {thread : Option ThreadId} {e : SendError}
    (h : (t.fail thread e).unfinished = some u) :
    u = t := by
  unfold Try.fail at h
  split at h
  · cases h
    rfl
  · split at h
    · cases h
      rfl
    · cases h
      rfl

theorem unfinished_proceed {t u : Try} (h : t.proceed.unfinished = some u) : u = t := by
  unfold Try.proceed at h
  split at h
  · cases h
    rfl
  · split at h
    · exact unfinished_fail h
    · cases h
      rfl
    · split at h
      · cases h
        rfl
      · cases h
        rfl

theorem unfinished_delivered {t u : Try} {thread : ThreadId} (h : (t.delivered thread).unfinished = some u) :
    u = t := by
  unfold Try.delivered at h
  split at h
  · cases h
    rfl
  · exact unfinished_fail h

theorem unfinished_settled {t u : Try} {landed : Bool} {x : TryOutcome} {q : Await} (h : t.settled landed x = .await q)
    (hu : q.unfinished = some u) : u = t := by
  unfold Try.settled at h
  split at h
  · split at h
    · cases h
      cases hu
      rfl
    · cases h
  · split at h
    · cases h
      cases hu
    · cases h
  · cases h

/-- Only what belongs to an email job is of a try. -/
theorem unfinished_request {q : Await} {t : Try} (h : q.unfinished = some t) : q.request = .email t.job := by
  cases q with
  | settle _ _ | deliver _ _ =>
    cases h
    rfl
  | applyLoad x | applyWrite x _ =>
    cases x with
    | email _ _ =>
      cases h
      rfl
    | _ => cases h
  | _ => cases h

/-- An unfinished try was unfinished before the access, or the access was its claim. -/
theorem unfinished_access {p q : Await} {t : Try} (h : (s', .await q) ∈ access cfg s p) (ht : q.unfinished = some t) :
    p.unfinished = some t ∨ ∃ j f run, p = .emailClaim j f ∧ s.claim f.id (f.attempts + 1) = some (s', run) ∧
      t = ⟨j, f, f.attempts + 1, run⟩ := by
  have hone : ∀ {x : Shared × Go}, (s', .await q) ∈ [x] → x.2 = .await q := by
    intro x hm
    cases List.mem_singleton.mp hm
    rfl
  have hrequest : p.request = .email t.job := (request_access h).symm.trans (unfinished_request ht)
  cases p with
  | settle u x =>
    have hafter : u.settled (s.transition u.filing.id { status := [.running], attempts := some u.attempt } x.set []).2.isSome x =
        .await q := hone h
    exact .inl (congrArg some (unfinished_settled hafter ht).symm)
  | deliver u thread =>
    cases hone h
    exact .inl (congrArg some (unfinished_delivered ht).symm)
  | emailClaim j f =>
    simp only [access, List.mem_singleton] at h
    split at h
    · cases h
    · next s₁ run hclaim =>
      cases h
      exact .inr ⟨j, f, run, rfl, hclaim, unfinished_proceed ht⟩
  | applyLoad x =>
    have hnext := hone h
    split at hnext
    · cases hnext
    · cases hnext
      cases x with
      | email u thread => exact .inl ht
      | _ => cases ht
  | applyWrite x note =>
    have hnext := hone h
    split at hnext
    · cases hnext
    · cases hnext
  | emailRead j =>
    have hnext := hone h
    split at hnext
    · cases hnext
    · split at hnext
      · cases hnext
        cases ht
      · cases hnext
  | emailSettings j f =>
    have hnext := hone h
    split at hnext
    · cases hnext
    · cases hnext
      cases ht
  | emailReport j f =>
    have hnext := hone h
    split at hnext
    · cases hnext
      cases ht
    · cases hnext
      cases ht
  | emailCancel j f => cases hone h
  | _ => cases hrequest

/-! ## Who runs a filing -/

/-- A filing that runs under the attempt of an unfinished try runs under the claim of that try. -/
def Own (w : World) : Prop :=
  ∀ i c t, w.call i = some c → c.await.unfinished = some t →
    ∀ run, w.shared.Runs t.filing.id t.attempt run → run = some t.run

theorem unfinished_enter {o : Request} {p : Await} (h : enter s o = some (s', p)) : p.unfinished = none := by
  cases o <;> cases h <;> rfl

theorem runs_of_claim {id : FilingId} {n k : ℕ} {run : RunId} {x : Option RunId} (h : s.claim id n = some (s', run))
    (hr : s'.Runs id k x) : x = some run := by
  obtain ⟨y, hy, -, -, rfl⟩ := hr
  obtain ⟨z, -, -, -, rfl, rfl⟩ := claim_eq h
  rw [Table.find?_modify, if_pos rfl] at hy
  obtain ⟨z, -, rfl⟩ := Option.map_eq_some_iff.mp hy
  rfl

theorem Own.step (hw : Own w) (hok : Apart w m) (hs : cfg.machine.step w m = some (w', r)) : Own w' := by
  -- A try that was unfinished before the move.
  have hold : ∀ i c t, w.call i = some c → c.await.unfinished = some t →
      ∀ run, w'.shared.Runs t.filing.id t.attempt run → run = some t.run := by
    intro i c t hc ht run hr
    rcases runs_of_step hs hr with hbefore | ⟨-, -, hclaim⟩
    · exact hw i c t hc ht run hbefore
    · exact absurd rfl (hok.ne hclaim hc ht)
  intro i c t hc ht run hr
  rcases Machine.call_cases hs hc with ⟨o, p, -, -, rfl, he⟩ | ⟨k, d, p, -, hd, rfl, hmem⟩ | ⟨hc, -⟩
  · cases (unfinished_enter he).symm.trans ht
  · rcases unfinished_access hmem ht with hunfinished | ⟨j, f, run', -, hclaim, rfl⟩
    · exact hold i d t hd hunfinished run hr
    · exact runs_of_claim hclaim hr
  · exact hold i c t hc ht run hr

/-- What a try may write: from its running row, or a late success from an uncertain one. -/
theorem try_update {q : Await} {t : Try} {id : FilingId} {g : Guard} {set : FilingSet} (ht : q.ofTry = some t)
    (hu : q.update cfg = some (id, g, set)) :
    id = t.filing.id ∧ ((q.unfinished = some t ∧ g = { status := [.running], attempts := some t.attempt }) ∨
      g = { status := [.needsHuman], reason := some .uncertainSubmission }) := by
  cases q with
  | settle u x =>
    cases ht
    cases hu
    exact ⟨rfl, .inl ⟨rfl, rfl⟩⟩
  | applyWrite x note =>
    cases x with
    | email u thread =>
      cases ht
      cases hu
      exact ⟨rfl, .inl ⟨rfl, rfl⟩⟩
    | late u thread =>
      cases ht
      cases hu
      exact ⟨rfl, .inr rfl⟩
    | _ => cases ht
  | deliver _ _ | applyLoad _ => cases hu
  | _ => cases ht

/-- As long as claims stay apart, a try changes nothing while its filing runs under another claim. -/
theorem try_writes_own_outcome {i k n : ℕ} {c : Call Request Await} {t : Try} {run : Option RunId}
    (h : Machine.Run cfg.machine Apart (.initial .empty) w) (hs : cfg.machine.step w (.access i k) = some (w', r))
    (hc : w.call i = some c) (ht : c.await.ofTry = some t) (hruns : w.shared.Runs t.filing.id n run)
    (hne : run ≠ some t.run) :
    w'.shared = w.shared := by
  have hown : Own w := h.invariant (by simp [Own]) (fun hw hok hs => hw.step hok hs)
  obtain ⟨x, hx, hstatus, -, hrun⟩ := hruns
  have hwrote := wrote_of_access hs hc
  generalize w'.shared = s' at hwrote ⊢
  cases hwrote with
  | none => rfl
  | @update id g set y _ hu hy hg hf hr htimeline =>
    obtain ⟨rfl, hguard⟩ := try_update ht hu
    cases hx.symm.trans hy
    obtain ⟨hmem, hattempts, -, -⟩ := Guard.admits_iff.mp hg
    rcases hguard with ⟨hunfinished, rfl⟩ | rfl
    · have howned := hown i c t hc hunfinished x.runId ⟨x, hx, hstatus, hattempts _ rfl, rfl⟩
      exact absurd (hrun.symm.trans howned) hne
    · rw [hstatus] at hmem
      simp at hmem
  | insert hp hi =>
    rw [hp] at ht
    cases ht
  | claim hp hclaim =>
    rw [hp] at ht
    cases ht

/-! ## Two claims under one attempt number -/

/-- The first try claims the filing and is slow to deliver; past the window the sweep requeues
the filing, and a second try claims it under the next attempt and fails for good. -/
def slowTry : List Move :=
  filed emailRouting ++ [(.start (.email ⟨1, true, .send 5, .sent, false, false⟩) : Move), .access 1 0,
    .access 1 0, .access 1 0,
    .access 1 0, .access 1 0, .environment (.tick 900001), .start .sweep, .access 2 0, .access 2 0, .access 2 0,
    .start (.email ⟨1, true, .failed (.other "send in flight"), .sent, true, false⟩), .access 3 0, .access 3 0,
      .access 3 0,
    .access 3 0]

/-- The delivery of the first try ends while the second runs the filing. -/
theorem try_writes_own_outcome_nextAttempt :
    ∃ (w w' : World) (r : Option Result) (c : Call Request Await) (t : Try),
      Machine.Run filingOn.machine Apart (.initial .empty) w ∧ filingOn.machine.step w (.access 1 0) = some (w', r) ∧
      w.call 1 = some c ∧ c.await.ofTry = some t ∧ w.shared.Runs t.filing.id 2 (some 1) ∧ t.run = 0 ∧
        w'.shared = w.shared := by
  have hrun : ∃ w ∈ filingOn.machine.perform (.initial .empty) (slowTry ++ [(.access 1 0 : Move), .access 1 0]),
      ∃ x ∈ filingOn.machine.step w (.access 1 0),
        (w.call 1).any (fun c => c.await.ofTry.any (fun t => decide (t.run = 0 ∧ t.filing.id = 1))) = true ∧
        (w.shared.filings.find? 1).any (fun f => decide (f.status = .running ∧ f.attempts = 2 ∧
          f.runId = some 1)) = true := by
    decide +kernel
  obtain ⟨w, hw, ⟨w', r⟩, hs, hcall, hfiling⟩ := hrun
  obtain ⟨c, hc, htry⟩ := (Option.any_eq_true _ _).mp hcall
  obtain ⟨t, ht, heq⟩ := (Option.any_eq_true _ _).mp htry
  obtain ⟨htrun, hid⟩ := of_decide_eq_true heq
  obtain ⟨f, hf, hrunning⟩ := (Option.any_eq_true _ _).mp hfiling
  have hruns : w.shared.Runs t.filing.id 2 (some 1) := ⟨f, hid ▸ hf, of_decide_eq_true hrunning⟩
  have hreach : Machine.Run filingOn.machine Apart (.initial .empty) w := Machine.run_of_perform (by decide +kernel) hw
  exact ⟨w, w', r, c, t, hreach, hs, hc, ht, hruns, htrun,
    try_writes_own_outcome hreach hs hc ht hruns (by rw [htrun]; decide)⟩

/-- After the second try failed, an operator retries the filing, a third try claims it under the
first attempt number again, and the success of the first try lands on its row. -/
theorem not_try_writes_own_outcome :
    ¬ ∀ (cfg : Config) (w w' : World) (r : Option Result) (i k n : ℕ) (c : Call Request Await) (t : Try)
      (run : Option RunId),
      Machine.Run cfg.machine (fun _ _ => True) (.initial .empty) w → cfg.machine.step w (.access i k) = some (w', r) →
      w.call i = some c → c.await.ofTry = some t → w.shared.Runs t.filing.id n run → run ≠ some t.run →
      w'.shared.filings.find? t.filing.id = w.shared.filings.find? t.filing.id := by
  intro hclaim
  have hrun : ∃ w ∈ filingOn.machine.perform (.initial .empty)
    (slowTry ++ [(.access 3 0 : Move), .start (.retry ⟨1, emailRouting⟩),
        .access 4 0, .access 4 0, .access 4 0, .start (.email ⟨1, true, .send 5, .sent, false, false⟩),
          .access 5 0, .access 5 0,
        .access 5 0, .access 5 0, .access 1 0, .access 1 0]),
      ∃ x ∈ filingOn.machine.step w (.access 1 0),
        (w.call 1).any (fun c => c.await.ofTry.any (fun t => decide (t.run = 0 ∧ t.filing.id = 1))) = true ∧
        (w.shared.filings.find? 1).any (fun f => decide (f.status = .running ∧ f.attempts = 1 ∧
          f.runId = some 2)) = true ∧
        (x.1.shared.filings.find? 1).any (fun f => decide (f.status = .submitted)) = true := by
    decide +kernel
  obtain ⟨w, hw, ⟨w', r⟩, hs, hcall, hfiling, hafter⟩ := hrun
  obtain ⟨c, hc, htry⟩ := (Option.any_eq_true _ _).mp hcall
  obtain ⟨t, ht, heq⟩ := (Option.any_eq_true _ _).mp htry
  obtain ⟨htrun, hid⟩ := of_decide_eq_true heq
  obtain ⟨f, hf, hrunning⟩ := (Option.any_eq_true _ _).mp hfiling
  obtain ⟨f', hf', hsubmitted⟩ := (Option.any_eq_true _ _).mp hafter
  have hruns : w.shared.Runs t.filing.id 1 (some 2) := ⟨f, hid ▸ hf, of_decide_eq_true hrunning⟩
  have hsame := hclaim _ w w' r 1 0 1 c t _ (Machine.free_of_perform hw) hs hc ht hruns (by rw [htrun]; decide)
  rw [hid, hf, hf'] at hsame
  cases hsame
  exact absurd ((of_decide_eq_true hrunning).1.symm.trans (of_decide_eq_true hsubmitted)) (by decide)

end Civfix.Filings
