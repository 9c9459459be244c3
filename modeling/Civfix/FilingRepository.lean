import Mathlib.Data.List.MinMax
import Mathlib.Data.Prod.Lex
import Mathlib.Order.WithBot
import Mathlib.Data.Rat.Defs
import Mathlib.Algebra.Order.Ring.Unbundled.Rat
import Civfix.KeyedTables

/-! # Filings with a city: rows and repository

The tables a filing lives in and the methods of the filing repository. Every method is one
statement or one transaction that locks the filing it writes, so it is one step here: a guarded
write sees the row as the last commit left it, and does nothing when its guard does not hold.
`run_id` is minted by every claim, here by a counter. A timeline row also names the filing whose
success wrote it; nothing reads that. -/
namespace Civfix.Filings

open KeyedTables

abbrev FilingId := ℕ
abbrev ReportId := ℕ
abbrev RunId := ℕ
abbrev ThreadId := ℕ
abbrev MessageId := ℕ
abbrev UserId := ℕ
abbrev Instant := ℕ
abbrev Geoid := String

inductive Channel | email | portal | manual deriving DecidableEq
inductive Status | queued | running | submitted | linkedExisting | needsHuman | cancelled deriving DecidableEq
inductive Method | email | script | operator deriving DecidableEq

inductive Reason where
  | noRoute | routeDisabled | manualRoute | filingOff | dryRun | captcha | loginRequired | missingInfo | portalError
  | attemptsExhausted | uncertainSubmission | aiUnavailable | cityNeedsInfo | reopenedAfterCityClosed | other
  deriving DecidableEq

inductive ReportStatus | submitted | held | published | acknowledged | inProgress | resolved | rejected
  deriving DecidableEq

inductive Verdict | approved | rejected deriving DecidableEq
inductive EvidenceKind | screenshot | script deriving DecidableEq
inductive TimelineKind | route | reply | status | done deriving DecidableEq

/-- A row of `report_filings`. -/
structure Filing where
  id : FilingId
  reportId : ReportId
  geoid : Option Geoid
  category : String
  routeCategory : Option String
  channel : Option Channel
  portalHost : Option String
  formUrl : Option String
  status : Status
  method : Option Method
  reason : Option Reason
  reasonDetail : Option String
  caseId : Option String
  caseUrl : Option String
  cityClosedAt : Option Instant
  attempts : ℕ
  runId : Option RunId
  nextAttemptAt : Option Instant
  aiWaitSince : Option Instant
  scriptVersion : Option String
  dryRun : Bool
  ticketText : String
  note : Option String
  mailThreadId : Option ThreadId
  createdBy : Option UserId
  createdAt : Instant
  updatedAt : Instant
  submittedAt : Option Instant
  deriving DecidableEq

structure Report where
  id : ReportId
  status : ReportStatus
  verificationVerdict : Option Verdict
  deletedAt : Option Instant
  deriving DecidableEq

structure TimelineRow where
  reportId : ReportId
  status : ReportStatus
  note : String
  kind : TimelineKind
  actorId : Option UserId
  filing : Option FilingId
  deriving DecidableEq

structure EvidenceInput where
  r2Key : String
  kind : EvidenceKind
  label : String
  deriving DecidableEq

structure Evidence where
  filingId : FilingId
  input : EvidenceInput

/-- A row of `mail_threads`: whether the mail bounced. -/
structure Thread where
  id : ThreadId
  bounced : Bool

inductive CityStatus | received | inProgress | closed | needsInfo | other

/-- The reading of a city's message. -/
structure Classification where
  caseId : Option String
  status : CityStatus
  summary : String
  confidence : ℚ

/-- A row of `filing_messages`. -/
structure Message where
  id : MessageId
  filingId : FilingId
  trusted : Bool
  flagged : Bool
  classification : Option Classification
  summary : Option String
  appliedAt : Option Instant

structure Shared where
  now : Instant
  filings : Table Filing.id
  reports : Table Report.id
  timeline : List TimelineRow
  evidence : List Evidence
  threads : Table Thread.id
  messages : Table Message.id
  paused : Bool
  nextRun : RunId

def Shared.empty : Shared := ⟨0, .empty _, .empty _, [], [], .empty _, .empty _, false, 0⟩

/-- `ACTIVE_FILING_STATUSES`. -/
def Status.active : Status → Bool
  | .queued | .running | .needsHuman => true
  | _ => false

/-- `SUCCESSFUL_FILING_STATUSES`. -/
def Status.successful : Status → Bool
  | .submitted | .linkedExisting => true
  | _ => false

/-- The columns the writes of this program set; an absent one is left as it is. `submittedNow`
is the `submitted_at = now()` of a success. -/
structure FilingSet where
  geoid : Option (Option Geoid) := none
  routeCategory : Option (Option String) := none
  channel : Option (Option Channel) := none
  portalHost : Option (Option String) := none
  formUrl : Option (Option String) := none
  status : Option Status := none
  method : Option Method := none
  reason : Option (Option Reason) := none
  reasonDetail : Option (Option String) := none
  caseId : Option (Option String) := none
  caseUrl : Option (Option String) := none
  attempts : Option ℕ := none
  nextAttemptAt : Option (Option Instant) := none
  aiWaitSince : Option (Option Instant) := none
  scriptVersion : Option (Option String) := none
  dryRun : Option Bool := none
  mailThreadId : Option (Option ThreadId) := none
  submittedNow : Bool := false

def FilingSet.apply (set : FilingSet) (now : Instant) (f : Filing) : Filing :=
  { f with
    geoid := set.geoid.getD f.geoid
    routeCategory := set.routeCategory.getD f.routeCategory
    channel := set.channel.getD f.channel
    portalHost := set.portalHost.getD f.portalHost
    formUrl := set.formUrl.getD f.formUrl
    status := set.status.getD f.status
    method := set.method.orElse (fun _ => f.method)
    reason := set.reason.getD f.reason
    reasonDetail := set.reasonDetail.getD f.reasonDetail
    caseId := set.caseId.getD f.caseId
    caseUrl := set.caseUrl.getD f.caseUrl
    attempts := set.attempts.getD f.attempts
    nextAttemptAt := set.nextAttemptAt.getD f.nextAttemptAt
    aiWaitSince := set.aiWaitSince.getD f.aiWaitSince
    scriptVersion := set.scriptVersion.getD f.scriptVersion
    dryRun := set.dryRun.getD f.dryRun
    mailThreadId := set.mailThreadId.getD f.mailThreadId
    submittedAt := if set.submittedNow then some now else f.submittedAt
    updatedAt := now }

/-- The `WHERE` of a guarded write: the status, and what else the writer names. -/
structure Guard where
  status : List Status
  attempts : Option ℕ := none
  runId : Option RunId := none
  reason : Option Reason := none

def Guard.admits (g : Guard) (f : Filing) : Bool :=
  g.status.contains f.status && g.attempts.all (fun n => decide (f.attempts = n)) &&
    g.runId.all (fun r => decide (f.runId = some r)) && g.reason.all (fun r => decide (f.reason = some r))

/-- The place of a filing by its `submitted_at`; a missing one comes before all others. -/
def Filing.submitted (f : Filing) : WithBot Instant := f.submittedAt

namespace Shared

variable (s : Shared)

def getReport (id : ReportId) : Option Report := (s.reports.find? id).filter (fun r => r.deletedAt.isNone)

def getById (id : FilingId) : Option Filing := s.filings.find? id

/-- The active index leaves at most one row to find. -/
def getActiveForReport (r : ReportId) : Option Filing :=
  s.filings.rows.find? (fun f => decide (f.reportId = r) && f.status.active)

def bounced (f : Filing) : Bool :=
  decide (f.status = .submitted) && (f.mailThreadId.bind s.threads.find?).any (·.bounced)

/-- `ORDER BY submitted_at DESC NULLS LAST, id DESC LIMIT 1`. -/
def getLatestSuccessfulForReport (r : ReportId) : Option Filing :=
  (s.filings.rows.filter (fun f => decide (f.reportId = r) && f.status.successful)).argmax
    (fun f => toLex (f.submitted, f.id))

/-- The write itself, without what its transaction writes beside it. -/
def write (id : FilingId) (set : FilingSet) : Shared :=
  { s with filings := s.filings.modify id (set.apply s.now) (fun _ => rfl) }

/-- `transition`: the guarded write and its evidence, and the row as it returns it. -/
def transition (id : FilingId) (g : Guard) (set : FilingSet) (evidence : List EvidenceInput) : Shared × Option Filing :=
  match (s.filings.find? id).filter g.admits with
  | none => (s, none)
  | some f => ({ s.write id set with evidence := s.evidence ++ evidence.map (⟨id, ·⟩) }, some (set.apply s.now f))

end Shared

/-- The part of the check on the report that reads its row. -/
def Report.fileable (r : Report) : Bool :=
  r.deletedAt.isNone && decide (r.status ≠ .rejected) && decide (r.verificationVerdict ≠ some .rejected)

/-- The status a report has once it is filed. -/
def ReportStatus.filed (st : ReportStatus) : ReportStatus :=
  if st = .submitted ∨ st = .held ∨ st = .published then .acknowledged else st

inductive Outcome | submitted | linkedExisting

def Outcome.status : Outcome → Status
  | .submitted => .submitted
  | .linkedExisting => .linkedExisting

/-- What `recordSuccess` is given for a filing that is there. -/
structure SuccessInput where
  filingId : FilingId
  guard : Guard
  outcome : Outcome
  method : Method
  caseId : Option (Option String) := none
  caseUrl : Option (Option String) := none
  mailThreadId : Option (Option ThreadId) := none
  scriptVersion : Option (Option String) := none
  dryRun : Option Bool := none
  actorId : Option UserId := none
  evidence : List EvidenceInput := []

/-- The columns of `updateToSuccess`. -/
def SuccessInput.set (x : SuccessInput) : FilingSet where
  status := some x.outcome.status
  method := some x.method
  caseId := x.caseId
  caseUrl := x.caseUrl
  mailThreadId := x.mailThreadId
  scriptVersion := x.scriptVersion
  dryRun := x.dryRun
  submittedNow := true

/-- What a filing is created from, apart from what its status says. -/
structure NewFiling where
  id : FilingId
  reportId : ReportId
  geoid : Option Geoid
  category : String
  routeCategory : Option String
  channel : Option Channel
  portalHost : Option String
  formUrl : Option String
  ticketText : String
  note : Option String
  createdBy : Option UserId

/-- The row of `insertFiling`. -/
def NewFiling.row (n : NewFiling) (now : Instant) (status : Status) (reason : Option Reason)
    (reasonDetail : Option String)
    (method : Option Method) (mailThreadId : Option ThreadId) (submittedAt : Option Instant) : Filing where
  id := n.id
  reportId := n.reportId
  geoid := n.geoid
  category := n.category
  routeCategory := n.routeCategory
  channel := n.channel
  portalHost := n.portalHost
  formUrl := n.formUrl
  status := status
  method := method
  reason := reason
  reasonDetail := reasonDetail
  caseId := none
  caseUrl := none
  cityClosedAt := none
  attempts := 0
  runId := none
  nextAttemptAt := none
  aiWaitSince := none
  scriptVersion := none
  dryRun := false
  ticketText := n.ticketText
  note := n.note
  mailThreadId := mailThreadId
  createdBy := n.createdBy
  createdAt := now
  updatedAt := now
  submittedAt := submittedAt

namespace Shared

variable (s : Shared)

/-- The success effects on the report, only while it is fileable. -/
def applyReportSuccess (filing : FilingId) (r : ReportId) (note : String) (actor : Option UserId) : Shared :=
  match (s.reports.find? r).filter Report.fileable with
  | none => s
  | some report =>
    { s with
      reports := s.reports.modify r (fun x => { x with status := x.status.filed }) (fun _ => rfl)
      timeline := s.timeline ++ [⟨r, report.status.filed, note, .route, actor, some filing⟩] }

/-- `recordSuccess` of a filing that is there; `none` when the guard does not hold. -/
def recordSuccess (x : SuccessInput) (note : String) : Option Shared :=
  ((s.filings.find? x.filingId).filter x.guard.admits).map (fun f =>
    let written := (s.write x.filingId x.set).applyReportSuccess f.id f.reportId note x.actorId
    { written with evidence := written.evidence ++ x.evidence.map (⟨x.filingId, ·⟩) })

/-- `create`: an id that is taken throws, and the active index refuses a second active filing. -/
def insertFiling (f : Filing) : Option Shared :=
  if (s.filings.find? f.id).isSome ∨ (f.status.active ∧ (s.getActiveForReport f.reportId).isSome) then none
  else some { s with filings := s.filings.insert f }

/-- `recordSuccess` of a new filing, the packet of `routeReport`. -/
def recordEmailRoute (n : NewFiling) (thread : ThreadId) (note : String) : Option Shared :=
  (s.insertFiling (n.row s.now .submitted none none (some .email) (some thread) (some s.now))).map
    (fun inserted => inserted.applyReportSuccess n.id n.reportId note n.createdBy)

/-- `claim`: the filing runs under the attempt and a new run id. -/
def claim (id : FilingId) (attempt : ℕ) : Option (Shared × RunId) :=
  ((s.filings.find? id).filter (fun f => decide (f.status = .queued ∧ f.attempts + 1 = attempt))).map (fun _ =>
    ({ s with
        filings := s.filings.modify id
          (fun f => { f with status := .running, attempts := attempt, runId := some s.nextRun, updatedAt := s.now }) (fun _ => rfl)
        nextRun := s.nextRun + 1 }, s.nextRun))

/-- `insertReopenFilingIn`: a report whose city closed its request waits for a human again. -/
def insertReopenFiling (r : ReportId) (id : FilingId) : Option Shared :=
  match s.getLatestSuccessfulForReport r with
  | none => none
  | some closed =>
    if closed.cityClosedAt.isNone then none
    else s.insertFiling ((NewFiling.mk id r closed.geoid closed.category none none none none closed.ticketText none none).row s.now
      .needsHuman (some .reopenedAfterCityClosed)
      (some (match closed.caseId with | none => "Previous request had no number" | some c => "Previous request " ++ c)) none none none)

end Shared

/-! ## City updates -/

/-- What one classification does to its filing. -/
inductive CityUpdateEffect where
  | none
  | flag
  | caseId (caseId note : String)
  | reportStatus (sources : List ReportStatus) (target : ReportStatus) (note : String) (timelineKind : TimelineKind)
      (cityClosed : Bool)
  | needsInfo (reasonDetail : String)
  deriving DecidableEq

def MIN_CONFIDENCE : ℚ := 7 / 10

/-- `caseIdPattern` is the check on a case id, `city` the name of the filing's jurisdiction. -/
def planCityUpdate (caseIdPattern : String → Bool) (city : String) (c : Option Classification) (f : Filing) :
    CityUpdateEffect :=
  match c with
  | none => .flag
  | some c =>
    if c.confidence < MIN_CONFIDENCE then .flag
    else match c.status with
      | .received =>
        match c.caseId.filter caseIdPattern with
        | none => .none
        | some caseId => if f.caseId.isSome then .none else .caseId caseId (city ++ " received request " ++ caseId)
      | .inProgress =>
        if f.channel ≠ some .portal then .none
        else .reportStatus [.acknowledged] .inProgress
          (match f.caseId with
            | none => city ++ " is working on this request"
            | some caseId => city ++ " is working on request " ++ caseId) .status false
      | .closed => .reportStatus [.acknowledged, .inProgress] .resolved
          (match f.caseId with
            | none => city ++ " closed the request"
            | some caseId => city ++ " closed request " ++ caseId) .done true
      | .needsInfo => .needsInfo c.summary
      | .other => .none

namespace Filing

variable (f : Filing) (now : Instant)

def received (caseId : String) : Filing := { f with caseId := some caseId, updatedAt := now }

def closedByCity : Filing := { f with cityClosedAt := some now, updatedAt := now }

def askedByCity (detail : String) : Filing :=
  { f with status := .needsHuman, reason := some .cityNeedsInfo, reasonDetail := some detail, updatedAt := now }

end Filing

namespace Shared

variable (s : Shared)

def writeRow (id : FilingId) (f : Filing → Filing) (hf : ∀ r, (f r).id = r.id) : Shared :=
  { s with filings := s.filings.modify id f hf }

/-- `applyEffectIn`; `none` when the effect's guard no longer holds. -/
def applyEffectIn (f : Filing) : CityUpdateEffect → Option Shared
  | .none | .flag => none
  | .caseId caseId note =>
    if f.caseId.isSome then none
    else some { s.writeRow f.id (fun x => x.received s.now caseId) (fun _ => rfl) with
      timeline := s.timeline ++
        ((s.reports.find? f.reportId).map (fun r => ⟨r.id, r.status, note, .reply, none, none⟩)).toList }
  | .reportStatus sources target note kind cityClosed =>
    if (s.reports.find? f.reportId).any (fun r => r.deletedAt.isNone && sources.contains r.status) then
      let moved : Shared := { s with
        reports := s.reports.modify f.reportId (fun r => { r with status := target }) (fun _ => rfl)
        timeline := s.timeline ++ [⟨f.reportId, target, note, kind, none, none⟩] }
      some (if cityClosed then moved.writeRow f.id (fun x => x.closedByCity s.now) (fun _ => rfl) else moved)
    else none
  | .needsInfo detail =>
    if f.status.successful ∧ (s.getActiveForReport f.reportId).isNone then
      some (s.writeRow f.id (fun x => x.askedByCity s.now detail) (fun _ => rfl))
    else none

/-- `applyCityUpdate`: the message is claimed once, and its effect is applied or the row flagged. -/
def applyCityUpdate (caseIdPattern : String → Bool) (jurisdictionName : Geoid → Option String) (id : MessageId)
    (c : Option Classification) : Option Shared :=
  ((s.messages.find? id).filter (fun m => m.appliedAt.isNone && m.trusted && !m.flagged)).bind (fun m =>
    (s.filings.find? m.filingId).map (fun f =>
      let effect := planCityUpdate caseIdPattern ((f.geoid.bind jurisdictionName).getD "The city") c f
      let claimed : Shared := { s with
        messages := s.messages.modify id
          (fun m => { m with appliedAt := some s.now, classification := c, summary := c.map (·.summary) })
            (fun _ => rfl) }
      match claimed.applyEffectIn f effect with
      | some applied => applied
      | none =>
        if effect = .none then claimed
        else { claimed with messages := claimed.messages.modify id (fun m => { m with flagged := true }) (fun _ => rfl) }))

end Shared

end Civfix.Filings
