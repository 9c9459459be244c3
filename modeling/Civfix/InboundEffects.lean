import Civfix.FilingRepository
import Civfix.InterleavedCalls
import Mathlib.Logic.Function.Basic

/-! # The effects of a city's reply

A reply of a city on the thread of a report is put on the report's timeline, into its chat and into
the reporter's notifications, and the thread is settled; on the thread of an event it is put on the
event's timeline. A run of `applyInboundEffects` claims the message for the time of a lease, resumes at
the stage that the claim returned, records a stage after each effect, and marks the message or, when a
call fails, releases it.

One thread is modelled, with the messages on it and the report it is linked to. The rows that the
effects write are kept with their message. -/
namespace Civfix.InboundEffects

open InterleavedCalls
open Filings (ReportStatus)

abbrev MessageId := ℕ
abbrev UserId := ℕ
abbrev Instant := ℕ

structure Config where
  /-- `EFFECTS_LEASE_MS`. -/
  lease : ℕ
  /-- The thread is linked to an event, and to no report. -/
  event : Bool

structure Report where
  status : ReportStatus
  deleted : Bool
  reporter : Option UserId
  deriving DecidableEq

/-- A row of `mail_messages`, with the rows that its effects have written: those on the timeline with
the status they show, those in the chat with the status they were posted for. -/
structure Message where
  stage : ℕ
  claimedAt : Option Instant
  applied : Bool
  timeline : List (Option ReportStatus)
  chat : List ReportStatus
  notified : List UserId

structure Shared where
  now : Instant
  report : Option Report
  messages : MessageId → Message

/-- The effects in the order of their stages; the timeline is reached in one of three ways. -/
inductive Effect where
  | setStatus
  | appendSystemTimeline
  | appendCleanupTimeline
  | emit (status : ReportStatus)
  | createNotification (user : UserId)

/-- `EFFECTS_STAGE_TIMELINE`, `EFFECTS_STAGE_CHAT` and `EFFECTS_STAGE_NOTIFIED`. -/
def Effect.stage : Effect → ℕ
  | .setStatus | .appendSystemTimeline | .appendCleanupTimeline => 1
  | .emit _ => 2
  | .createNotification _ => 3

/-- The chat may be switched off, and the user may not want the notification. -/
def Effect.skippable : Effect → Bool
  | .emit _ | .createNotification _ => true
  | _ => false

/-- The rows that the effect of a stage has written. -/
def Message.rows (m : Message) : ℕ → ℕ
  | 1 => m.timeline.length
  | 2 => m.chat.length
  | 3 => m.notified.length
  | _ => 0

/-! ## Statements -/

section Statements

variable (cfg : Config) (s : Shared)

namespace Shared

def update (id : MessageId) (f : Message → Message) : Shared :=
  { s with messages := Function.update s.messages id (f (s.messages id)) }

/-- `getReport`: a removed report is not found. -/
def getReport : Option Report := s.report.filter (fun r => !r.deleted)

/-- `effects_applied_at IS NULL AND (effects_claimed_at IS NULL OR effects_claimed_at < leaseBefore)`. -/
def claimable (id : MessageId) (now : Instant) : Bool :=
  !(s.messages id).applied && (s.messages id).claimedAt.all (fun t => decide (t + cfg.lease < now))

def claimMessageEffects (id : MessageId) : Shared := s.update id (fun m => { m with claimedAt := some s.now })

def setMessageEffectsStage (id : MessageId) (stage : ℕ) : Shared :=
  s.update id (fun m => { m with stage := max m.stage stage })

/-- `EFFECTS_STAGE_SETTLED`, on a message that is not there yet. -/
def settleRepliedThread (id : MessageId) : Shared :=
  s.update id (fun m => if m.stage < 4 then { m with stage := 4 } else m)

def markMessageEffectsApplied (id : MessageId) : Shared := s.update id (fun m => { m with applied := true })

/-- Whoever has claimed the message. -/
def releaseMessageEffects (id : MessageId) : Shared :=
  s.update id (fun m => if m.applied then m else { m with claimedAt := none })

def addTimeline (id : MessageId) (st : Option ReportStatus) : Shared :=
  s.update id (fun m => { m with timeline := m.timeline ++ [st] })

/-- What an effect writes: `setStatus` finds a report that is not removed, whatever its status. -/
def perform (id : MessageId) : Effect → Shared
  | .setStatus =>
    match s.getReport with
    | none => s
    | some r => { s with report := some { r with status := .inProgress } }.addTimeline id (some .inProgress)
  | .appendSystemTimeline =>
    match s.report with
    | none => s
    | some r => s.addTimeline id (some r.status)
  | .appendCleanupTimeline => s.addTimeline id none
  | .emit st => s.update id (fun m => { m with chat := m.chat ++ [st] })
  | .createNotification u => s.update id (fun m => { m with notified := m.notified ++ [u] })

variable {s}

@[simp] theorem update_now (id : MessageId) (f : Message → Message) : (s.update id f).now = s.now := rfl

@[simp] theorem update_same (id : MessageId) (f : Message → Message) :
  (s.update id f).messages id = f (s.messages id) :=
  Function.update_self ..

theorem update_of_ne {id j : MessageId} (h : j ≠ id) (f : Message → Message) :
    (s.update id f).messages j = s.messages j := Function.update_of_ne h ..

theorem now_perform (id : MessageId) (e : Effect) : (s.perform id e).now = s.now := by
  cases e with
  | setStatus =>
    simp only [perform]
    split <;> rfl
  | appendSystemTimeline =>
    simp only [perform]
    split <;> rfl
  | appendCleanupTimeline | emit _ | createNotification _ => rfl

theorem perform_of_ne {id j : MessageId} (h : j ≠ id) (e : Effect) : (s.perform id e).messages j = s.messages j := by
  cases e with
  | setStatus =>
    simp only [perform]
    split
    · rfl
    · exact update_of_ne h _
  | appendSystemTimeline =>
    simp only [perform]
    split
    · rfl
    · exact update_of_ne h _
  | appendCleanupTimeline | emit _ | createNotification _ =>
    simp only [perform, addTimeline]
    exact update_of_ne h _

/-- An effect leaves the columns of the message alone and adds at most a row of its stage. -/
theorem perform_same (id : MessageId) (e : Effect) :
    ((s.perform id e).messages id).stage = (s.messages id).stage ∧
    ((s.perform id e).messages id).claimedAt = (s.messages id).claimedAt ∧
    ((s.perform id e).messages id).rows e.stage ≤ (s.messages id).rows e.stage + 1 ∧
    ∀ k ≠ e.stage, ((s.perform id e).messages id).rows k = (s.messages id).rows k := by
  have hrest : ∀ (m m' : Message) (j : ℕ), (j = 1 ∨ m'.timeline = m.timeline) → (j = 2 ∨ m'.chat = m.chat) →
      (j = 3 ∨ m'.notified = m.notified) → ∀ k ≠ j, m'.rows k = m.rows k := by
    intro m m' j h1 h2 h3 k hk
    unfold Message.rows
    split <;> grind
  have hrows : ∀ st, ((s.addTimeline id st).messages id).rows 1 = (s.messages id).rows 1 + 1 := by
    intro st
    simp [addTimeline, Message.rows]
  have hkeep : ∀ st, ∀ k ≠ 1, ((s.addTimeline id st).messages id).rows k = (s.messages id).rows k := by
    intro st
    exact hrest _ _ 1 (.inl rfl) (.inr (by simp [addTimeline])) (.inr (by simp [addTimeline]))
  cases e with
  | setStatus =>
    simp only [perform, Effect.stage]
    split
    · exact ⟨rfl, rfl, Nat.le_succ _, fun _ _ => rfl⟩
    · exact ⟨by simp [addTimeline], by simp [addTimeline], (hrows (some .inProgress)).le, hkeep (some .inProgress)⟩
  | appendSystemTimeline =>
    simp only [perform, Effect.stage]
    split
    · exact ⟨rfl, rfl, Nat.le_succ _, fun _ _ => rfl⟩
    · exact ⟨by simp [addTimeline], by simp [addTimeline], (hrows _).le, hkeep _⟩
  | appendCleanupTimeline =>
    exact ⟨by simp [perform, addTimeline], by simp [perform, addTimeline], (hrows _).le, hkeep _⟩
  | emit st =>
    exact ⟨by simp [perform], by simp [perform], by simp [perform, Effect.stage, Message.rows],
      hrest _ _ 2 (.inr (by simp [perform])) (.inl rfl) (.inr (by simp [perform]))⟩
  | createNotification u =>
    exact ⟨by simp [perform], by simp [perform], by simp [perform, Effect.stage, Message.rows],
      hrest _ _ 3 (.inr (by simp [perform])) (.inr (by simp [perform])) (.inl rfl)⟩

end Shared

end Statements

/-! ## Runs -/

/-- `sweepNow` is the time at which a sweep began; every other caller reads the clock. -/
structure Request where
  message : MessageId
  inbound : Bool
  unaffiliated : Bool
  sweepNow : Option Instant

/-- What a run has from its claim: when it was made and the stage that was read with it. -/
structure Run where
  message : MessageId
  claimedAt : Instant
  stage : ℕ

inductive Await where
  /-- `correlateFilingThreadReply`. -/
  | correlate (o : Request)
  | claim (o : Request) (now : Instant)
  | getReport (x : Run)
  | effect (x : Run) (record : Option Report) (e : Effect)
  | setStage (x : Run) (record : Option Report) (k : ℕ)
  /-- The second `getReport`, before the chat. -/
  | currentReport (x : Run) (record : Report)
  | settle (x : Run)
  | markApplied (x : Run)
  | release (x : Run)

inductive Result | withheld | skipped | applied | failed

abbrev Call := InterleavedCalls.Call Request Await
abbrev World := InterleavedCalls.World Shared Request Await
abbrev Next := InterleavedCalls.Next Await Result

/-- `setStatus` stands for every other writer of the status of a live report, with the statuses it
takes the report from: an operator's `advanceStatusIfIn`, the `applyEffectIn` of a city update, the
owner's `resolveByOwner`, a filing's success, an approval and the release of a hold. -/
inductive Event where
  | tick (n : ℕ)
  | setStatus (sources : List ReportStatus) (target : ReportStatus)
  | remove

abbrev Move := InterleavedCalls.Move Request Event

/-- A status from which a reply moves the report on. -/
def advances (st : ReportStatus) : Bool := st = .published || st = .acknowledged

/-- What a run does once the stage `p` is reached. The source compares the stage that the claim
returned, which is `p` until the run has recorded a stage of its own. -/
def proceed (x : Run) (record : Option Report) (p : ℕ) : Await :=
  match record with
  | none =>
    if p < 1 then .effect x none .appendCleanupTimeline
    else if p < 4 then .settle x
    else .markApplied x
  | some r =>
    if p < 1 then .effect x record (if advances r.status then .setStatus else .appendSystemTimeline)
    else if p < 2 then .currentReport x r
    else if p < 3 then
      match r.reporter with
      | some u => .effect x record (.createNotification u)
      | none => .setStage x record 3
    else if p < 4 then .settle x
    else .markApplied x

def enter (cfg : Config) (s : Shared) (o : Request) : Option (Shared × Await) :=
  if !o.inbound || o.sweepNow.any (fun t => decide (s.now < t)) then none
  else if !cfg.event then some (s, .correlate o)
  else if o.unaffiliated then none
  else some (s, .claim o (o.sweepNow.getD s.now))

def access (cfg : Config) (s : Shared) : Await → List (Shared × Next)
  | .correlate o =>
    [(s, if o.unaffiliated then .done .withheld else .await (.claim o (o.sweepNow.getD s.now))), (s, .done .failed)]
  | .claim o now =>
    if s.claimable cfg o.message now then
      let x : Run := ⟨o.message, s.now, (s.messages o.message).stage⟩
      let s' := s.claimMessageEffects o.message
      [(s', .await (if cfg.event then proceed x none x.stage else .getReport x)), (s, .done .failed),
        (s', .done .failed)]
    else [(s, .done .skipped), (s, .done .failed)]
  | .getReport x =>
    [(s, .await (match s.getReport with | none => .markApplied x | some r => proceed x (some r) x.stage)),
      (s, .await (.release x))]
  | .effect x record e =>
    let s' := s.perform x.message e
    [(s', .await (.setStage x record e.stage)), (s, .await (.release x)), (s', .await (.release x))] ++
      if e.skippable then [(s, .await (.setStage x record e.stage))] else []
  | .setStage x record k =>
    let s' := s.setMessageEffectsStage x.message k
    [(s', .await (proceed x record k)), (s, .await (.release x)), (s', .await (.release x))]
  | .currentReport x r =>
    [(s, .await (.effect x (some r) (.emit (s.getReport.getD r).status))), (s, .await (.release x))]
  | .settle x =>
    let s' := s.settleRepliedThread x.message
    [(s', .await (.markApplied x)), (s, .await (.release x)), (s', .await (.release x))]
  | .markApplied x =>
    let s' := s.markMessageEffectsApplied x.message
    [(s', .done .applied), (s, .await (.release x)), (s', .await (.release x))]
  | .release x => [(s.releaseMessageEffects x.message, .done .failed), (s, .done .failed)]

def environment (s : Shared) : Event → Option Shared
  | .tick n => some { s with now := s.now + n }
  | .setStatus sources target =>
    match s.getReport with
    | none => none
    | some r => if r.status ∈ sources then some { s with report := some { r with status := target } } else none
  | .remove =>
    match s.getReport with
    | none => none
    | some r => some { s with report := some { r with status := .rejected, deleted := true } }

def machine (cfg : Config) : Machine Shared Request Await Result Event := ⟨enter cfg, access cfg, environment⟩

theorem shared_of_effect {cfg : Config} {s s' : Shared} {x : Run} {r : Option Report} {e : Effect} {n : Next}
    (hmem : (s', n) ∈ access cfg s (.effect x r e)) : s' = s.perform x.message e ∨ s' = s := by
  simp only [access, List.mem_append, List.mem_cons, Prod.mk.injEq, List.not_mem_nil, or_false] at hmem
  rcases hmem with (⟨rfl, -⟩ | ⟨rfl, -⟩ | ⟨rfl, -⟩) | hskip
  · exact .inl rfl
  · exact .inr rfl
  · exact .inl rfl
  · split at hskip
    · simp only [List.mem_singleton, Prod.mk.injEq] at hskip
      exact .inr hskip.1
    · cases hskip

/-! ## What is in progress -/

/-- The run of a call that has claimed its message. -/
def Await.run : Await → Option Run
  | .correlate _ | .claim _ _ => none
  | .getReport x | .effect x _ _ | .setStage x _ _ | .currentReport x _ | .settle x | .markApplied x | .release x => some x

/-- An effect is being made, the settling of the thread among them. -/
def Await.effecting : Await → Option Run
  | .effect x _ _ | .settle x => some x
  | _ => none

/-- The effect that is being made. -/
def Await.making : Await → Option Effect
  | .effect _ _ e => some e
  | _ => none

/-- The stage that is being recorded. -/
def Await.recording : Await → Option (MessageId × ℕ)
  | .setStage x _ k => some (x.message, k)
  | _ => none

/-- A reply is about to set the status of the report. -/
def Await.advancing : Await → Bool
  | .effect _ _ .setStatus => true
  | _ => false

/-- The claim that the run made is the one on the message, and it has not expired. -/
def Run.Holds (cfg : Config) (s : Shared) (x : Run) : Prop :=
  (s.messages x.message).claimedAt = some x.claimedAt ∧ s.now ≤ x.claimedAt + cfg.lease

instance (cfg : Config) (s : Shared) (x : Run) : Decidable (x.Holds cfg s) := inferInstanceAs (Decidable (_ ∧ _))

end Civfix.InboundEffects
