import Civfix.InboundEffects

/-! # A reply and the status of its report

A run reads the report, decides on the status it has read, and sets the status with a statement that
looks at no status. Between the two it relies on the other writers: on the statements of operators, of
city updates and of the owner, and on the runs of the other messages of the thread. -/
namespace Civfix.InboundEffects

open InterleavedCalls
open Filings (ReportStatus)

variable {cfg : Config} {s s' : Shared} {w w' : World}

/-- A run stands between its decision to move the report on and the statement that does it. -/
def Pending (w : World) : Prop := ∃ y ∈ w.calls, ∃ c ∈ y, c.await.advancing = true

instance (w : World) : Decidable (Pending w) := inferInstanceAs (Decidable (∃ y ∈ w.calls, ∃ c ∈ y, _))

/-- While a run is pending, no other writer takes the live report out of `published` and `acknowledged`,
another run among them. -/
def Undisturbed (w : World) (m : Move) : Prop :=
  match m with
  | .environment (.setStatus sources target) =>
    Pending w → ∀ r ∈ w.shared.getReport, r.status ∈ sources → advances target = true
  | .access i _ => ∀ c ∈ w.call i, c.await.advancing = true → w.shared.getReport.isSome →
      w.Others i (fun d => d.await.advancing = false)
  | _ => True

instance (w : World) (m : Move) : Decidable (Undisturbed w m) :=
  match m with
  | .environment (.setStatus sources target) =>
    inferInstanceAs (Decidable (Pending w → ∀ r ∈ w.shared.getReport, r.status ∈ sources → advances target = true))
  | .access i _ => inferInstanceAs (Decidable (∀ c ∈ w.call i, c.await.advancing = true → w.shared.getReport.isSome →
      w.Others i (fun d => d.await.advancing = false)))
  | .start _ | .crash _ | .environment (.tick _) | .environment .remove => isTrue trivial

theorem pending_of_call {i : ℕ} {c : Call} (hc : w.call i = some c) (h : c.await.advancing = true) : Pending w :=
  ⟨some c, List.mem_of_getElem? (World.call_eq_some.mp hc), c, rfl, h⟩

theorem idle_of_enter {o : Request} {p : Await} (he : enter cfg s o = some (s', p)) :
    s' = s ∧ p.advancing = false ∧ ∀ q ∈ p.recording, 0 < q.2 := by
  unfold enter at he
  split at he
  · cases he
  split at he
  · cases he
    exact ⟨rfl, rfl, fun _ hq => by cases hq⟩
  split at he
  · cases he
  · cases he
    exact ⟨rfl, rfl, fun _ hq => by cases hq⟩

/-- Only the first stage of a run moves the report on, from a status that allows it. -/
theorem advancing_proceed {x : Run} {r : Option Report} {p : ℕ} (h : (proceed x r p).advancing = true) :
    p < 1 ∧ ∃ y, r = some y ∧ advances y.status = true := by
  unfold proceed at h
  split at h
  · split at h
    · cases h
    split at h <;> cases h
  · next y =>
    split at h
    · next hp =>
      split at h
      · next hy => exact ⟨hp, y, rfl, hy⟩
      · cases h
    split at h
    · cases h
    split at h
    · split at h <;> cases h
    split at h <;> cases h

/-- Only `setStatus` touches the report. -/
theorem report_of_access {p : Await} {n : Next} (hmem : (s', n) ∈ access cfg s p) :
    s'.report = s.report ∨ p.advancing = true ∧ s.getReport.isSome := by
  have hnot : ∀ (t t' : Shared) (id : MessageId) (f : Message → Message), t' = t.update id f →
    t'.report = t.report := by
    rintro t t' id f rfl
    rfl
  cases p with
  | correlate o | getReport x | currentReport x r =>
    simp only [access, List.mem_cons, Prod.mk.injEq, List.not_mem_nil, or_false] at hmem
    rcases hmem with ⟨rfl, -⟩ | ⟨rfl, -⟩ <;> exact .inl rfl
  | claim o t =>
    simp only [access] at hmem
    split at hmem
    · simp only [List.mem_cons, Prod.mk.injEq, List.not_mem_nil, or_false] at hmem
      rcases hmem with ⟨rfl, -⟩ | ⟨rfl, -⟩ | ⟨rfl, -⟩ <;> exact .inl rfl
    · simp only [List.mem_cons, Prod.mk.injEq, List.not_mem_nil, or_false] at hmem
      rcases hmem with ⟨rfl, -⟩ | ⟨rfl, -⟩ <;> exact .inl rfl
  | effect x r e =>
    rcases shared_of_effect hmem with rfl | rfl
    · cases e with
      | setStatus =>
        cases hr : s.getReport with
        | none => exact .inl (by simp [Shared.perform, hr])
        | some y => exact .inr ⟨rfl, rfl⟩
      | appendSystemTimeline =>
        simp only [Shared.perform]
        split <;> exact .inl rfl
      | appendCleanupTimeline | emit _ | createNotification _ => exact .inl rfl
    · exact .inl rfl
  | setStage x r k | settle x | markApplied x =>
    simp only [access, List.mem_cons, Prod.mk.injEq, List.not_mem_nil, or_false] at hmem
    rcases hmem with ⟨rfl, -⟩ | ⟨rfl, -⟩ | ⟨rfl, -⟩ <;> exact .inl rfl
  | release x =>
    simp only [access, List.mem_cons, Prod.mk.injEq, List.not_mem_nil, or_false] at hmem
    rcases hmem with ⟨rfl, -⟩ | ⟨rfl, -⟩ <;> exact .inl rfl

/-- What is true while a call awaits `p`: a run that is about to move the report on finds it in a status
that allows it. -/
def Advancing (s : Shared) (p : Await) : Prop :=
  (p.advancing = true → ∀ r ∈ s.getReport, advances r.status = true) ∧ ∀ q ∈ p.recording, 0 < q.2

theorem advancing_of_idle {p : Await} (h : p.advancing = false) (hrec : ∀ q ∈ p.recording, 0 < q.2) : Advancing s p :=
  ⟨fun ha => absurd (h.symm.trans ha) (by decide), hrec⟩

theorem recording_proceed (x : Run) (r : Option Report) (p : ℕ) : ∀ q ∈ (proceed x r p).recording, 0 < q.2 := by
  intro q hq
  unfold proceed at hq
  split at hq
  · split at hq
    · cases hq
    split at hq <;> cases hq
  · split at hq
    · cases hq
    split at hq
    · cases hq
    split at hq
    · split at hq <;> cases hq
      exact Nat.succ_pos _
    split at hq <;> cases hq

/-- The run that has read the report goes on from the status it has read. -/
theorem advancing_next {p q : Await} (h : Advancing s p) (hmem : (s', .await q) ∈ access cfg s p) : Advancing s' q := by
  cases p with
  | correlate o =>
    simp only [access, List.mem_cons, Prod.mk.injEq, reduceCtorEq, and_false, List.not_mem_nil, or_false] at hmem
    obtain ⟨-, hq⟩ := hmem
    split at hq <;> cases hq
    exact advancing_of_idle rfl (fun _ hq => by cases hq)
  | claim o t =>
    simp only [access] at hmem
    split at hmem
    · simp only [List.mem_cons, Prod.mk.injEq, Next.await.injEq, reduceCtorEq, and_false, List.not_mem_nil,
        or_false] at hmem
      obtain ⟨-, rfl⟩ := hmem
      split
      · refine ⟨fun ha => ?_, recording_proceed _ _ _⟩
        obtain ⟨-, y, hy, -⟩ := advancing_proceed ha
        cases hy
      · exact advancing_of_idle rfl (fun _ hq => by cases hq)
    · simp at hmem
  | getReport x =>
    simp only [access, List.mem_cons, Prod.mk.injEq, Next.await.injEq, List.not_mem_nil, or_false] at hmem
    rcases hmem with ⟨rfl, rfl⟩ | ⟨rfl, rfl⟩
    · split
      · exact advancing_of_idle rfl (fun _ hq => by cases hq)
      · next r hr =>
        refine ⟨fun ha y hy => ?_, recording_proceed _ _ _⟩
        obtain ⟨-, z, hz, hadv⟩ := advancing_proceed ha
        cases hz
        cases hr.symm.trans hy
        exact hadv
    · exact advancing_of_idle rfl (fun _ hq => by cases hq)
  | effect x r e =>
    simp only [access, List.mem_append, List.mem_cons, Prod.mk.injEq, Next.await.injEq, List.not_mem_nil,
      or_false] at hmem
    have hpos : 0 < e.stage := by cases e <;> exact Nat.succ_pos _
    have hset : Advancing s' (.setStage x r e.stage) := advancing_of_idle rfl (fun q hq => by cases hq; exact hpos)
    have hrel : Advancing s' (.release x) := advancing_of_idle rfl (fun _ hq => by cases hq)
    rcases hmem with (⟨-, rfl⟩ | ⟨-, rfl⟩ | ⟨-, rfl⟩) | hskip
    · exact hset
    · exact hrel
    · exact hrel
    · split at hskip
      · simp only [List.mem_singleton, Prod.mk.injEq, Next.await.injEq] at hskip
        obtain ⟨-, rfl⟩ := hskip
        exact hset
      · cases hskip
  | setStage x r k =>
    have hpos : 0 < k := h.2 _ rfl
    simp only [access, List.mem_cons, Prod.mk.injEq, Next.await.injEq, List.not_mem_nil, or_false] at hmem
    rcases hmem with ⟨-, rfl⟩ | ⟨-, rfl⟩ | ⟨-, rfl⟩
    · refine ⟨fun ha => ?_, recording_proceed _ _ _⟩
      have hlt := (advancing_proceed ha).1
      omega
    · exact advancing_of_idle rfl (fun _ hq => by cases hq)
    · exact advancing_of_idle rfl (fun _ hq => by cases hq)
  | currentReport x r =>
    simp only [access, List.mem_cons, Prod.mk.injEq, Next.await.injEq, List.not_mem_nil, or_false] at hmem
    rcases hmem with ⟨-, rfl⟩ | ⟨-, rfl⟩ <;> exact advancing_of_idle rfl (fun _ hq => by cases hq)
  | settle x =>
    simp only [access, List.mem_cons, Prod.mk.injEq, Next.await.injEq, List.not_mem_nil, or_false] at hmem
    rcases hmem with ⟨-, rfl⟩ | ⟨-, rfl⟩ | ⟨-, rfl⟩ <;> exact advancing_of_idle rfl (fun _ hq => by cases hq)
  | markApplied x =>
    simp only [access, List.mem_cons, Prod.mk.injEq, Next.await.injEq, reduceCtorEq, and_false, List.not_mem_nil,
      or_false,
      false_or] at hmem
    rcases hmem with ⟨-, rfl⟩ | ⟨-, rfl⟩ <;> exact advancing_of_idle rfl (fun _ hq => by cases hq)
  | release x => simp [access] at hmem

/-- Every run that is about to set the status finds it in one that allows it. -/
def Forward (w : World) : Prop := Machine.Holds (fun _ => True) (fun s _ c => Advancing s c.await) w

theorem Forward.step {m : Move} {r : Option Result} (h : Forward w) (hok : Undisturbed w m)
    (hs : (machine cfg).step w m = some (w', r)) : Forward w' := by
  refine Machine.Holds.step h hs ?_ ?_ ?_
  · intro o t p hm he
    obtain ⟨rfl, hidle⟩ := idle_of_enter he
    exact ⟨trivial, advancing_of_idle hidle.1 hidle.2, fun i c hc => h.calls i c hc⟩
  · rintro i k c t n rfl hc hmem
    refine ⟨trivial, fun p hp => advancing_next (h.calls i c hc) (hp ▸ hmem), fun j d hj hd => ?_⟩
    refine ⟨fun ha x hx => ?_, (h.calls j d hd).2⟩
    rcases report_of_access hmem with hsame | ⟨hadv, hlive⟩
    · exact (h.calls j d hd).1 ha x (by rwa [Shared.getReport, hsame] at hx)
    · -- A second reply may not set the status meanwhile.
      have hno := (hok c hc hadv hlive).call hj hd
      rw [ha] at hno
      cases hno
  · rintro e t rfl he
    refine ⟨trivial, fun i c hc => ⟨fun ha x hx => ?_, (h.calls i c hc).2⟩⟩
    have hcall := (h.calls i c hc).1 ha
    cases e with
    | tick n =>
      cases he
      exact hcall x hx
    | setStatus sources target =>
      simp only [machine, environment] at he
      split at he
      · cases he
      next y hy =>
      split at he
      · next hsrc =>
        cases he
        have htarget := hok (pending_of_call hc ha) y hy hsrc
        obtain ⟨hx', -⟩ := Option.filter_eq_some_iff.mp hx
        cases hx'
        exact htarget
      · cases he
    | remove =>
      simp only [machine, environment] at he
      split at he
      · cases he
      · cases he
        simp only [Shared.getReport, Option.mem_def, Option.filter_eq_some_iff, Option.some.injEq] at hx
        obtain ⟨rfl, hlive⟩ := hx
        cases hlive

/-- A reply sets a report to `in_progress` only from `published` or `acknowledged`, in every run in which
no other writer takes the report out of these while a reply stands between its read and its write. -/
theorem reply_never_moves_back (cfg : Config) (s : Shared) (w : World)
    (h : Machine.Run (machine cfg) Undisturbed (World.initial s) w) (i : ℕ) (c : Call) (x : Run)
    (record : Option Report)
    (hc : w.call i = some c) (hp : c.await = .effect x record .setStatus) :
    ∀ r ∈ w.shared.getReport, r.status = .published ∨ r.status = .acknowledged := by
  have hforward : Forward w :=
    h.invariant (P := Forward) ⟨trivial, fun i c hc => by simp at hc⟩ (fun hw hok hs => hw.step hok hs)
  intro r hr
  have hadv := (hforward.calls i c hc).1 (by rw [hp]; rfl) r hr
  simpa [advances] using hadv

/-! ## A report that the city closes -/

def oneReport : Config := ⟨600, false⟩

def reported (st : ReportStatus) : Shared := ⟨0, some ⟨st, false, some 7⟩, fun _ => ⟨0, none, false, [], [], []⟩⟩

/-- A reply has been delivered, and its run has read the report. -/
def readBy (i : ℕ) : List Move := .start ⟨i, true, false, none⟩ :: List.replicate 3 (.access i 0)

/-- The `applyEffectIn` of a city update that closes the request. -/
def closed : Move := .environment (.setStatus [.acknowledged, .inProgress] .resolved)

/-- The record that the run goes on with. -/
def Await.settingStatus : Await → Option (Run × Option Report)
  | .effect x r .setStatus => some (x, r)
  | _ => none

theorem effect_of_settingStatus {p : Await} {x : Run} {r : Option Report} (h : p.settingStatus = some (x, r)) :
    p = .effect x r .setStatus := by
  unfold Await.settingStatus at h
  split at h
  · cases h
    rfl
  · cases h

/-- An operator acknowledges the report while the reply is pending. -/
theorem acknowledged_meanwhile : ∃ (w : World) (c : Call) (x : Run) (record : Option Report),
    w.call 0 = some c ∧ c.await = .effect x record .setStatus ∧ (∃ r, w.shared.getReport = some r) ∧
    ∀ r ∈ w.shared.getReport, r.status = .published ∨ r.status = .acknowledged := by
  have hrun : ∃ w, Machine.Run (machine oneReport) Undisturbed (World.initial (reported .published)) w ∧
      (w.call 0).any (fun c => c.await.settingStatus.isSome && w.shared.getReport.isSome) = true := by
    obtain ⟨w, hw, hP⟩ := (Option.any_eq_true _ _).mp
      (show ((machine oneReport).perform (World.initial (reported .published))
      (readBy 0 ++ [.environment (.setStatus [.published] .acknowledged)])).any
        (fun w => (w.call 0).any (fun c => c.await.settingStatus.isSome && w.shared.getReport.isSome)) =
          true by decide +kernel)
    exact ⟨w, Machine.run_of_perform (by decide +kernel) hw, hP⟩
  obtain ⟨w, hrun, hP⟩ := hrun
  obtain ⟨c, hc, hany⟩ := (Option.any_eq_true _ _).mp hP
  obtain ⟨hset, hlive⟩ := (Bool.and_eq_true _ _).mp hany
  obtain ⟨⟨x, record⟩, hx⟩ := Option.isSome_iff_exists.mp hset
  have hp := effect_of_settingStatus hx
  exact ⟨w, c, x, record, hc, hp, Option.isSome_iff_exists.mp hlive,
    reply_never_moves_back oneReport (reported .published) w hrun 0 c x record hc hp⟩

/-- A city update closes the request between the read and the write of a reply, which reopens the report. -/
theorem closed_report_is_reopened :
    ¬ ∀ (cfg : Config) (s : Shared) (w : World), Machine.Run (machine cfg) (fun _ _ => True) (World.initial s) w →
      ∀ (i : ℕ) (c : Call) (x : Run) (record : Option Report), w.call i = some c →
        c.await = .effect x record .setStatus →
        ∀ r ∈ w.shared.getReport, r.status = .published ∨ r.status = .acknowledged := by
  intro hall
  obtain ⟨w, hw, hP⟩ := (Option.any_eq_true _ _).mp (show ((machine oneReport).perform
    (World.initial (reported .acknowledged)) (readBy 0 ++ [closed])).any
      (fun w => (w.call 0).any (fun c => c.await.settingStatus.isSome && decide (w.shared.getReport =
        some ⟨.resolved, false, some 7⟩))) = true by decide +kernel)
  obtain ⟨c, hc, hany⟩ := (Option.any_eq_true _ _).mp hP
  obtain ⟨hset, hres⟩ := (Bool.and_eq_true _ _).mp hany
  obtain ⟨⟨x, record⟩, hx⟩ := Option.isSome_iff_exists.mp hset
  have hbad := hall oneReport (reported .acknowledged) w (Machine.free_of_perform hw) 0 c x record hc
    (effect_of_settingStatus hx) _ (of_decide_eq_true hres)
  rcases hbad with h | h <;> cases h

end Civfix.InboundEffects
