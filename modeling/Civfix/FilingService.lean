import Mathlib.Data.List.Sort
import Civfix.FilingRepository
import Civfix.InterleavedCalls

/-! # Filing a report with its city

The operations on filings, cut at their reads and writes: `create`, the operator's `retry`,
`cancel` and `recordManual`, the result of a filer run, an email try, the sweep and the
cancellation that follows a rejected verdict. The filer's claims, city updates, `routeReport`,
reopened reports and everything that happens to a report or a mail thread are moves of the
environment.

What an operation reads outside these tables is part of its request: the routes and contact of
the report, the outreach an email try finds and how its delivery ends. An operation that throws
between two steps is one that dies there. The jobs that are enqueued, chat messages,
notifications and audit rows are left out, and so is the route lock of an email try, which only
takes interleavings away. -/
namespace Civfix.Filings

open KeyedTables InterleavedCalls

/-- `automaticFiling` is the flag of the deployment; the other fields are what comes from
elsewhere: the pattern of case ids, the host of a URL (with its scheme), names of places. -/
structure Config where
  automaticFiling : Bool
  caseIdPattern : String → Bool
  hostOf : String → Option (String × String)
  jurisdictionName : Geoid → Option String

def MS_PER_SECOND : ℕ := 1000
def MS_PER_MINUTE : ℕ := 60 * MS_PER_SECOND
def MS_PER_HOUR : ℕ := 60 * MS_PER_MINUTE
def MAX_ATTEMPTS : ℕ := 3
def AI_RETRY_DELAY_MS : ℕ := 30 * MS_PER_MINUTE
def AI_WAIT_LIMIT_MS : ℕ := 6 * MS_PER_HOUR
def FILING_REASON_DETAIL_MAX : ℕ := 500
def FILING_DUE_MAX_LIMIT : ℕ := 100

/-- `ROUTE_INFLIGHT_FLOOR_SECONDS`, which dominates the window computed from the send deadline. -/
def ROUTE_DEADLINE_INFLIGHT_SECONDS : ℕ := 15 * 60

/-- `RETRY_DELAY_MS`. -/
def retryDelay : ℕ → Option ℕ
  | 1 => some (10 * MS_PER_MINUTE)
  | 2 => some (30 * MS_PER_MINUTE)
  | _ => none

def FILING_NOT_FOUND : String := "Filing not found"
def REPORT_NOT_FOUND : String := "Report not found"
def WRONG_STATE : String := "This filing can't do that in its current state"
def UNUSABLE_LINKED_CASE_DETAIL : String := "The portal showed an existing request, but its number was not usable"

/-! ## Routes -/

structure Route where
  category : Option String
  channel : Channel
  formUrl : Option String
  enabled : Bool
  deriving DecidableEq

structure ResolvedRoute where
  channel : Option Channel
  routeCategory : Option String
  portalHost : Option String
  formUrl : Option String
  reason : Option Reason

/-- The report as the routing sees it, and the routes found for its geoid and category. -/
structure Routing where
  geoid : Option Geoid
  category : String
  contact : Option String
  routes : List Route
  deriving DecidableEq

def NO_ROUTE : ResolvedRoute := ⟨none, none, none, none, some .noRoute⟩

def resolveFilingRoute (cfg : Config) (r : Routing) : ResolvedRoute :=
  if r.geoid.isNone then NO_ROUTE
  else match (r.routes.find? (fun x => decide (x.category = some r.category))).orElse
      (fun _ => r.routes.find? (fun x => x.category.isNone)) with
    | none => if r.contact.all (fun c => c.isEmpty) then NO_ROUTE else ⟨some .email, none, none, none, none⟩
    | some route =>
      let host := if route.channel = .portal then (route.formUrl.bind cfg.hostOf).map (·.2) else none
      ⟨some route.channel, route.category, host, route.formUrl,
        if !route.enabled then some .routeDisabled else if route.channel = .manual then some .manualRoute else none⟩

def initialState (cfg : Config) (route : ResolvedRoute) : Status × Option Reason :=
  match route.reason with
  | some reason => (.needsHuman, some reason)
  | none =>
    if route.channel = some .portal ∧ cfg.automaticFiling = false then (.needsHuman,
      some .filingOff) else (.queued, none)

/-! ## Requests -/

structure Create where
  id : FilingId
  reportId : ReportId
  routing : Routing
  ticketText : String
  note : Option String
  actorId : Option UserId
  deriving DecidableEq

structure Retry where
  id : FilingId
  routing : Routing
  deriving DecidableEq

structure Manual where
  id : FilingId
  actorId : UserId
  caseId : String
  caseUrl : Option String
  deriving DecidableEq

inductive RunOutcome | submitted | linkedExisting | needsHuman | failed | cancelled deriving DecidableEq

/-- The schema's check on the reason: what a run may end on at once, and what it may fail with. -/
def RunOutcome.allows : RunOutcome → Option Reason → Bool
  | .needsHuman, some r =>
    decide (r ∈ [Reason.captcha, .loginRequired, .missingInfo, .noRoute, .routeDisabled, .manualRoute,
      .filingOff, .dryRun])
  | .failed, some r => decide (r ∈ [Reason.portalError, .aiUnavailable, .uncertainSubmission])
  | .needsHuman, none | .failed, none => false
  | _, _ => true

/-- A payload of `filing.result` that passed its schema. -/
structure Payload where
  filingId : FilingId
  runId : RunId
  attempt : ℕ
  outcome : RunOutcome
  reason : Option Reason
  reasonDetail : Option String
  caseId : Option String
  caseUrl : Option String
  scriptVersion : Option String
  dryRun : Bool
  evidence : List EvidenceInput
  positive : 0 < attempt
  allowed : outcome.allows reason = true
  deriving DecidableEq

inductive SendError | deadline | other (message : String) deriving DecidableEq

/-- What a try finds under the route lock: an error, a packet that reached the recipient
already, or a thread to send on. -/
inductive Outreach | failed (e : SendError) | delivered (thread : ThreadId) | send (thread : ThreadId)
  deriving DecidableEq

inductive Delivery | sent | failed (e : SendError) deriving DecidableEq

/-- A job of `filing.email`: `final` is its last attempt, `late` a success after its deadline. -/
structure EmailJob where
  filingId : FilingId
  recipient : Bool
  outreach : Outreach
  delivery : Delivery
  final : Bool
  late : Bool
  deriving DecidableEq

/-- A try that claimed its filing: the row it read, its attempt and the run id of the claim,
which the try itself never looks at. -/
structure Try where
  job : EmailJob
  filing : Filing
  attempt : ℕ
  run : RunId

inductive Request where
  | create (a : Create)
  | retry (a : Retry)
  | cancel (id : FilingId)
  | recordManual (a : Manual)
  | result (p : Payload)
  | email (j : EmailJob)
  | sweep
  | cancelForReport (r : ReportId)
  deriving DecidableEq

/-- What a try writes from its running row. -/
inductive TryOutcome where
  | noRoute
  | uncertain (thread : Option ThreadId)
  | failed (detail : String)
  | requeued
  | thread (thread : ThreadId)

/-- A reason other than the city's own, the only one a run does not end on. -/
abbrev RunReason := { r : Reason // r ≠ .cityNeedsInfo }

theorem Payload.reason_ne (p : Payload) (h : p.outcome = .needsHuman) : p.reason.getD .other ≠ .cityNeedsInfo := by
  have hallowed := p.allowed
  rw [h] at hallowed
  cases hr : p.reason with
  | none => simp [hr, RunOutcome.allows] at hallowed
  | some r =>
    rw [hr] at hallowed
    rintro rfl
    cases hallowed

/-- What the filing of a run becomes, when the run was no success. -/
inductive RunWrite where
  | needsHuman (reason : RunReason) (detail : Option (Option String))
  | requeue (attempts : Option ℕ) (nextAttemptAt : Instant) (aiWaitSince : Option Instant)
  | cancelled

/-- The callers of `applyFilingSuccess`. -/
inductive Success where
  | manual (a : Manual) (status : Status)
  | result (p : Payload) (f : Filing)
  | email (t : Try) (thread : ThreadId)
  | late (t : Try) (thread : ThreadId)

/-- What an operation awaits. -/
inductive Await where
  | createReport (a : Create)
  | createReads (a : Create) (active : Option (Option Filing)) (latest : Option (Option (Filing × Bool)))
  | createInsert (a : Create)
  | retryRead (a : Retry) | retryReport (a : Retry) (f : Filing) | retryWrite (a : Retry) | retryOff (a : Retry)
  | cancelRead (id : FilingId) | cancelWrite (id : FilingId)
  | manualRead (a : Manual) | manualReturn (a : Manual)
  | resultRead (p : Payload) | resultWrite (p : Payload) (x : RunWrite)
  | emailRead (j : EmailJob) | emailSettings (j : EmailJob) (f : Filing) | emailReport (j : EmailJob) (f : Filing)
  | emailCancel (j : EmailJob) (f : Filing) | emailClaim (j : EmailJob) (f : Filing)
  | settle (t : Try) (x : TryOutcome) | deliver (t : Try) (thread : ThreadId)
  | sweepSettings | sweepList (at' : Instant) | sweepWrite (id : FilingId) (attempts : ℕ) (rest : List (FilingId × ℕ))
  | rejectRead (r : ReportId) | rejectWrite (r : ReportId) (id : FilingId)
  | applyLoad (x : Success)
  | applyWrite (x : Success) (note : String)

inductive Result where
  | notFound (message : String)
  | conflict (message : String)
  | created (id : FilingId) | alreadyFiled | notFileable
  | applied (b : Bool)
  | finished
  deriving DecidableEq

/-! ## What each write is -/

/-- The fixed public note of a successful filing. -/
def filingNote (outcome : Outcome) (jurisdictionName : Option String) (caseId : Option String) : String :=
  let j := match jurisdictionName with
    | none => "the city"
    | some name => if name = "" then "the city" else name
  match caseId with
  | none => "Filed with " ++ j
  | some c => match outcome with
    | .linkedExisting => "Linked to " ++ j ++ " request " ++ c
    | .submitted => "Filed with " ++ j ++ " · Request " ++ c

/-- The case URL is kept only on the portal's own host over https. -/
def portalCaseUrl (cfg : Config) (caseUrl : String) (portalHost : Option String) : Option String :=
  match cfg.hostOf caseUrl with
  | none => none
  | some (scheme, host) => if scheme = "https:" ∧ portalHost = some host then some caseUrl else none

/-- What a caller hands to `applyFilingSuccess`. -/
def Success.input (cfg : Config) : Success → SuccessInput
  | .manual a status =>
    { filingId := a.id, guard := { status := [status] }, outcome := .submitted, method := .operator,
      caseId := some (some a.caseId), caseUrl := some a.caseUrl, actorId := some a.actorId }
  | .result p f =>
    { filingId := f.id, guard := { status := [.running], attempts := some p.attempt, runId := some p.runId },
      outcome := if p.outcome = .linkedExisting then .linkedExisting else .submitted, method := .script,
      caseId := p.caseId.map some, caseUrl := p.caseUrl.map (fun u => portalCaseUrl cfg u f.portalHost),
      scriptVersion := p.scriptVersion.map some, dryRun := some p.dryRun, evidence := p.evidence }
  | .email t thread =>
    { filingId := t.filing.id, guard := { status := [.running], attempts := some t.attempt }, outcome := .submitted,
      method := .email, mailThreadId := some (some thread) }
  | .late t thread =>
    { filingId := t.filing.id, guard := { status := [.needsHuman], reason := some .uncertainSubmission },
      outcome := .submitted, method := .email, mailThreadId := some (some thread) }

def TryOutcome.set : TryOutcome → FilingSet
  | .noRoute => { status := some .needsHuman, reason := some (some .noRoute) }
  | .uncertain _ => { status := some .needsHuman, reason := some (some .uncertainSubmission) }
  | .failed detail =>
    { status := some .needsHuman, reason := some (some .portalError), reasonDetail := some (some detail) }
  | .requeued => { status := some .queued }
  | .thread id => { mailThreadId := some (some id) }

/-- The columns of `guarded` in a filer's result. -/
def RunWrite.set (p : Payload) (x : RunWrite) : FilingSet :=
  let base : FilingSet := match x with
    | .needsHuman reason detail =>
      { status := some .needsHuman, reason := some (some reason.1), reasonDetail := detail }
    | .requeue attempts next wait =>
      { status := some .queued, attempts := attempts, nextAttemptAt := some (some next), aiWaitSince := wait.map some }
    | .cancelled => { status := some .cancelled }
  { base with dryRun := some p.dryRun, scriptVersion := p.scriptVersion.map some }

/-- The route of the report is resolved again, and the attempts start over. -/
def Retry.set (cfg : Config) (a : Retry) : FilingSet :=
  let route := resolveFilingRoute cfg a.routing
  { geoid := some a.routing.geoid, routeCategory := some route.routeCategory, channel := some route.channel,
    portalHost := some route.portalHost, formUrl := some route.formUrl, status := some (initialState cfg route).1,
    reason := some (initialState cfg route).2, reasonDetail := some none, attempts := some 0, aiWaitSince := some none }

/-- The guarded write of an await on a filing that is there: which filing, the guard and the
columns. `create`, the claim and the reads have none. -/
def Await.update (cfg : Config) : Await → Option (FilingId × Guard × FilingSet)
  | .retryWrite a => some (a.id, { status := [.needsHuman] }, a.set cfg)
  | .retryOff a =>
    some (a.id, { status := [.queued] }, { status := some .needsHuman, reason := some (some .filingOff) })
  | .cancelWrite id => some (id, { status := [.queued, .needsHuman] }, { status := some .cancelled })
  | .manualReturn a => some (a.id, { status := [.needsHuman] },
      { status := some .submitted, method := some .operator, caseId := some (some a.caseId), caseUrl := some a.caseUrl })
  | .resultWrite p x =>
    some (p.filingId, { status := [.running], attempts := some p.attempt, runId := some p.runId }, x.set p)
  | .emailCancel _ f => some (f.id, { status := [.queued] }, { status := some .cancelled })
  | .settle t x => some (t.filing.id, { status := [.running], attempts := some t.attempt }, x.set)
  | .sweepWrite id attempts _ =>
    some (id, { status := [.running], attempts := some attempts }, { status := some .queued })
  | .rejectWrite _ id => some (id, { status := [.queued, .needsHuman] }, { status := some .cancelled })
  | .applyWrite x _ => some ((x.input cfg).filingId, (x.input cfg).guard, (x.input cfg).set)
  | _ => none

/-! ## What happens between two accesses -/

abbrev Go := Next Await Result

/-- `enqueueFiling` sends a job for an email filing, and for a portal filing with automatic
filing on. -/
def enqueues (cfg : Config) (f : Filing) : Bool :=
  decide (f.channel = some .email) || (decide (f.channel = some .portal) && cfg.automaticFiling)

def isFileable (r : Report) : Bool := decide (r.status ≠ .rejected) && decide (r.verificationVerdict ≠ some .rejected)

def isOpen (f : Filing) : Bool :=
  (decide (f.status = .queued) || decide (f.status = .needsHuman)) && decide (f.reason ≠ some .cityNeedsInfo)

def isCityNeedsInfo (f : Filing) : Bool := decide (f.status = .needsHuman) && decide (f.reason = some .cityNeedsInfo)

/-- The decision of `fileability`, once both reads are there. -/
def alreadyFiled (active : Option Filing) (latest : Option (Filing × Bool)) : Bool :=
  active.isSome || latest.any (fun x => x.1.cityClosedAt.isNone && !x.2)

/-- `fileability` waits for both of its reads, which come in either order. -/
def Create.decide (a : Create) : Option (Option Filing) → Option (Option (Filing × Bool)) → Go
  | some active, some latest => if alreadyFiled active latest then .done .alreadyFiled else .await (.createInsert a)
  | active, latest => .await (.createReads a active latest)

/-- The row of a new filing, from the route of the report. -/
def Create.row (cfg : Config) (a : Create) (now : Instant) : Filing :=
  let route := resolveFilingRoute cfg a.routing
  (NewFiling.mk a.id a.reportId a.routing.geoid a.routing.category route.routeCategory route.channel route.portalHost
    route.formUrl a.ticketText a.note a.actorId).row now (initialState cfg route).1
      (initialState cfg route).2 none none none none

def Payload.detail (p : Payload) : Option (Option String) :=
  p.reasonDetail.map (fun d => some ((d.take FILING_REASON_DETAIL_MAX).toString))

/-- `apply` of a filer's result: the write that its outcome asks for. -/
def Payload.apply (cfg : Config) (p : Payload) (f : Filing) (now : Instant) : Await :=
  match h : p.outcome with
  | .submitted =>
    if p.caseId.all cfg.caseIdPattern then .applyLoad (.result p f) else needsHuman
      ⟨.uncertainSubmission, by decide⟩ p.detail
  | .linkedExisting =>
    if p.caseId.any cfg.caseIdPattern then .applyLoad (.result p f)
    else needsHuman ⟨.other, by decide⟩ (some (some UNUSABLE_LINKED_CASE_DETAIL))
  | .needsHuman => needsHuman ⟨p.reason.getD .other, p.reason_ne h⟩ p.detail
  | .failed =>
    match p.reason with
    | some .portalError =>
      match retryDelay p.attempt with
      | none => needsHuman ⟨.attemptsExhausted, by decide⟩ p.detail
      | some delay =>
        if MAX_ATTEMPTS ≤ p.attempt then needsHuman ⟨.attemptsExhausted, by decide⟩ p.detail
        else .resultWrite p (.requeue none (now + delay) none)
    | some .aiUnavailable =>
      let waitingSince := f.aiWaitSince.getD now
      if AI_WAIT_LIMIT_MS ≤ now - waitingSince then needsHuman ⟨.aiUnavailable, by decide⟩ p.detail
      else .resultWrite p (.requeue (some (p.attempt - 1)) (now + AI_RETRY_DELAY_MS) (some waitingSince))
    | _ => needsHuman ⟨.uncertainSubmission, by decide⟩ p.detail
  | .cancelled => .resultWrite p .cancelled
where
  needsHuman (reason : RunReason) (detail : Option (Option String)) : Await :=
    .resultWrite p (.needsHuman reason detail)

/-- `fail`: `thread` is there when the error came from the delivery. -/
def Try.fail (t : Try) (thread : Option ThreadId) : SendError → Await
  | .deadline => .settle t (.uncertain thread)
  | .other message =>
    if t.job.final then .settle t (.failed (message.take FILING_REASON_DETAIL_MAX).toString) else .settle t .requeued

def Try.succeed (t : Try) (thread : ThreadId) : Await := .applyLoad (.email t thread)

/-- What the claimed try does: the outreach it found, and `recordThread` before a send. -/
def Try.proceed (t : Try) : Await :=
  if !t.job.recipient then .settle t .noRoute
  else match t.job.outreach with
    | .failed e => t.fail none e
    | .delivered thread => t.succeed thread
    | .send thread => if t.filing.mailThreadId = some thread then .deliver t thread else .settle t (.thread thread)

/-- After the outcome is written: a recorded thread is sent on, and a delivery that ended at its
deadline may still succeed late. -/
def Try.settled (t : Try) (landed : Bool) : TryOutcome → Go
  | .thread thread => if landed then .await (.deliver t thread) else .done .finished
  | .uncertain (some thread) => if t.job.late then .await (.applyLoad (.late t thread)) else .done .finished
  | _ => .done .finished

def Try.delivered (t : Try) (thread : ThreadId) : Await :=
  match t.job.delivery with
  | .sent => t.succeed thread
  | .failed e => t.fail (some thread) e

/-- The email filings that ran for longer than the in-flight window at an instant, oldest first. -/
def Shared.listStaleRunningEmail (s : Shared) (at' : Instant) : List Filing :=
  ((s.filings.rows.filter (fun f => decide (f.status = .running) && decide (f.channel = some .email) &&
      decide (f.updatedAt + ROUTE_DEADLINE_INFLIGHT_SECONDS * MS_PER_SECOND < at'))).insertionSort
    (fun f g => toLex (f.updatedAt, f.id) ≤ toLex (g.updatedAt, g.id))).take FILING_DUE_MAX_LIMIT

def sweepNext : List (FilingId × ℕ) → Go
  | [] => .done .finished
  | (id, attempts) :: rest => .await (.sweepWrite id attempts rest)

/-- A wrong state is a conflict. -/
def orConflict (f : Option Filing) (r : Result) : Go := .done (if f.isSome then r else .conflict WRONG_STATE)

/-- What follows the write of a transition, from the row it returned. -/
def Await.after (cfg : Config) : Await → Option Filing → Go
  | .retryWrite a, some f =>
    if f.status = .queued ∧ enqueues cfg f = false then .await (.retryOff a) else .done .finished
  | .retryWrite _, none => .done (.conflict WRONG_STATE)
  | .cancelWrite _, f => orConflict f .finished
  | .manualReturn _, f => orConflict f .finished
  | .resultWrite _ _, f => .done (.applied f.isSome)
  | .settle t x, f => t.settled f.isSome x
  | .sweepWrite _ _ rest, _ => sweepNext rest
  | _, _ => .done .finished

def Success.returned (landed : Bool) : Success → Result
  | .manual _ _ => if landed then .finished else .conflict WRONG_STATE
  | _ => .applied landed

/-- The evidence a transition stores beside its write. -/
def Await.evidence : Await → List EvidenceInput
  | .resultWrite p _ => p.evidence
  | _ => []

/-- One access. -/
def access (cfg : Config) (s : Shared) (p : Await) : List (Shared × Go) :=
  match p with
  | .createReport a => [(s, match s.getReport a.reportId with
      | none => .done (.notFound REPORT_NOT_FOUND)
      | some r => if isFileable r then .await (.createReads a none none) else .done .notFileable)]
  | .createReads a active latest =>
    (if active.isNone then [(s, a.decide (some (s.getActiveForReport a.reportId)) latest)] else []) ++
    if latest.isNone then
      [(s, a.decide active (some ((s.getLatestSuccessfulForReport a.reportId).map
        (fun f => (f, s.bounced f)))))] else []
  | .createInsert a => [match s.insertFiling (a.row cfg s.now) with
      | none => (s, .done .alreadyFiled)
      | some s' => (s', .done (.created a.id))]
  | .retryRead a => [(s, match s.getById a.id with
      | none => .done (.notFound FILING_NOT_FOUND)
      | some f => if f.status ≠ .needsHuman ∨ f.reason = some .cityNeedsInfo then .done (.conflict WRONG_STATE)
        else .await (.retryReport a f))]
  | .retryReport a f =>
    [(s, if (s.getReport f.reportId).isNone then .done (.notFound REPORT_NOT_FOUND) else .await (.retryWrite a))]
  | .cancelRead id => [(s, match s.getById id with
      | none => .done (.notFound FILING_NOT_FOUND)
      | some f => if isOpen f then .await (.cancelWrite id) else .done (.conflict WRONG_STATE))]
  | .manualRead a => [(s, match s.getById a.id with
      | none => .done (.notFound FILING_NOT_FOUND)
      | some f => if isCityNeedsInfo f then .await (.manualReturn a)
        else if isOpen f then .await (.applyLoad (.manual a f.status)) else .done (.conflict WRONG_STATE))]
  | .resultRead p => [(s, match s.getById p.filingId with
      | none => .done (.applied false)
      | some f => .await (p.apply cfg f s.now))]
  | .emailRead j => [(s, match s.getById j.filingId with
      | none => .done .finished
      | some f => if f.status = .queued then .await (.emailSettings j f) else .done .finished)]
  | .emailSettings j f => [(s, if s.paused then .done .finished else .await (.emailReport j f))]
  | .emailReport j f =>
    [(s, if (s.getReport f.reportId).any isFileable then .await (.emailClaim j f) else .await (.emailCancel j f))]
  | .emailClaim j f => [match s.claim f.id (f.attempts + 1) with
      | none => (s, .done .finished)
      | some (s', run) => (s', .await (Try.proceed ⟨j, f, f.attempts + 1, run⟩))]
  | .deliver t thread => [(s, .await (t.delivered thread))]
  | .sweepSettings => [(s, if s.paused then .done .finished else .await (.sweepList s.now))]
  | .sweepList at' => [(s, sweepNext ((s.listStaleRunningEmail at').map (fun f => (f.id, f.attempts))))]
  | .rejectRead r => [(s, match s.getActiveForReport r with
      | none => .done .finished
      | some f => if f.status = .running then .done .finished else .await (.rejectWrite r f.id))]
  | .applyLoad x => [(s, match s.getById (x.input cfg).filingId with
      | none => .done (x.returned false)
      | some f => .await (.applyWrite x (filingNote (x.input cfg).outcome (f.geoid.bind cfg.jurisdictionName)
          ((x.input cfg).caseId.getD f.caseId))))]
  | .applyWrite x note => [match s.recordSuccess (x.input cfg) note with
      | none => (s, .done (x.returned false))
      | some s' => (s', .done (x.returned true))]
  | p => ((p.update cfg).map (fun u => ((s.transition u.1 u.2.1 u.2.2 p.evidence).1,
      p.after cfg (s.transition u.1 u.2.1 u.2.2 p.evidence).2))).toList

def enter (s : Shared) : Request → Option (Shared × Await)
  | .create a => some (s, .createReport a)
  | .retry a => some (s, .retryRead a)
  | .cancel id => some (s, .cancelRead id)
  | .recordManual a => some (s, .manualRead a)
  | .result p => some (s, .resultRead p)
  | .email j => some (s, .emailRead j)
  | .sweep => some (s, .sweepSettings)
  | .cancelForReport r => some (s, .rejectRead r)

/-- What happens beside the operations. -/
inductive Event where
  | tick (ms : ℕ)
  | report (r : Report)
  | thread (t : Thread)
  | pause (b : Bool)
  | message (m : Message)
  | cityUpdate (id : MessageId) (c : Option Classification)
  | routed (n : NewFiling) (thread : ThreadId)
  | reopened (r : ReportId) (id : FilingId)
  | claim (id : FilingId) (attempt : ℕ)

def environment (cfg : Config) (s : Shared) : Event → Option Shared
  | .tick ms => some { s with now := s.now + ms }
  | .report r => some { s with reports := s.reports.put r }
  | .thread t => some { s with threads := s.threads.put t }
  | .pause b => some { s with paused := b }
  | .message m => some { s with messages := s.messages.put m }
  | .cityUpdate id c => s.applyCityUpdate cfg.caseIdPattern cfg.jurisdictionName id c
  | .routed n thread => s.recordEmailRoute n thread (filingNote .submitted (n.geoid.bind cfg.jurisdictionName) none)
  | .reopened r id => s.insertReopenFiling r id
  | .claim id attempt => (s.claim id attempt).map (·.1)

def Config.machine (cfg : Config) : Machine Shared Request Await Result Event where
  enter := enter
  access := access cfg
  environment := environment cfg

abbrev World := InterleavedCalls.World Shared Request Await
abbrev Move := InterleavedCalls.Move Request Event

end Civfix.Filings
