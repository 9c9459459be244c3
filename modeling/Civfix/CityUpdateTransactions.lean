import Civfix.CityUpdateTables

/-! # The transactions beside a city update

`applyCityUpdate` statement by statement, with the transactions of operators, owners and the filing
repository that touch the same rows. An UPDATE locks the row it finds and judges it again under the
lock. A NOT EXISTS reads the view its statement began with, so the index entry is judged once more
when the row is filed there. -/
namespace Civfix.CityUpdates

open KeyedTables LockedTransactions Filings

inductive Failure | uniqueViolation | foreignKey | noFiling

abbrev Stmt := Tx Db Write Lock Failure

/-- A letter or digit, then at most 63 letters, digits, blanks, dots, underscores, number signs,
slashes or hyphens. -/
def CASE_ID_RE (caseId : String) : Bool :=
  let alphanumeric (c : Char) : Bool := ('A' ≤ c && c ≤ 'Z') || ('a' ≤ c && c ≤ 'z') || ('0' ≤ c && c ≤ '9')
  match caseId.toList with
  | [] => false
  | c :: cs =>
    alphanumeric c && decide (cs.length ≤ 63) &&
      cs.all (fun d => alphanumeric d || [' ', '.', '_', '#', '/', '-'].contains d)

namespace Db

variable (s : Db)

def hasActive (r : ReportId) : Bool := s.filings.rows.any (fun f => decide (ActiveOf r f))

/-- An active filing of the report that is not the given one. -/
def otherActive (r : ReportId) (id : FilingId) : Bool :=
  s.filings.rows.any (fun f => decide (f.id ≠ id) && decide (ActiveOf r f))

/-- `ORDER BY submitted_at DESC NULLS LAST, id DESC LIMIT 1`. -/
def latestSuccessful (r : ReportId) : Option Filing :=
  (s.filings.rows.filter (fun f => decide (f.reportId = r) && f.status.successful)).argmax
    (fun f => toLex (f.submitted, f.id))

def liveReport (r : ReportId) : Option Report := (s.reports.find? r).filter (fun x => x.deletedAt.isNone)

end Db

/-! ## Statements -/

/-- `UPDATE ... WHERE ... RETURNING` of one row: it is locked and written if it is found. -/
def updateWhere {α : Type} (lock : Lock) (found : Db → Option α) (write : Write) : Stmt (Option α) :=
  .stmt (fun s => if (found s).isSome then [lock] else []) (fun s => if (found s).isSome then [write] else [])
    (fun s => .commit (found s))

def appendTimeline (e : Entry) : Stmt Unit := .stmt (fun _ => []) (fun _ => [.appendTimeline e]) (fun _ => .commit ())

/-- An update of a filing. A row that becomes active is filed in the active index, which throws
when the report has another active filing. -/
def updateFilingWhere (now : Instant) (id : FilingId) (found : Db → Option Filing) (u : FilingUpdate) :
    Stmt (Option Filing) := do
  match ← Tx.selectFor (fun s => if (found s).isSome then [.filing id] else []) found with
  | none => pure none
  | some f =>
    if u.activates then
      .stmt (fun _ => [.active f.reportId])
        (fun s => if s.otherActive f.reportId id then [] else [.updateFiling id f.reportId now u])
        (fun s => if s.otherActive f.reportId id then .abort .uniqueViolation else .commit (some f))
    else .stmt (fun _ => []) (fun _ => [.updateFiling id f.reportId now u]) (fun _ => .commit (some f))

/-- An insert of a filing; `onConflictDoNothing` on the active index gives up instead of throwing. -/
def insertFilingRow (f : Filing) (onConflictDoNothing : Bool) : Stmt Bool :=
  .stmt (fun _ => .filing f.id :: if f.status.active then [.active f.reportId] else [])
    (fun s =>
      if (s.filings.find? f.id).isSome ∨ (s.reports.find? f.reportId).isNone ∨
        (f.status.active ∧ s.hasActive f.reportId)
      then [] else [.insertFiling f])
    (fun s =>
      if (s.filings.find? f.id).isSome then .abort .uniqueViolation
      else if (s.reports.find? f.reportId).isNone then .abort .foreignKey
      else if f.status.active ∧ s.hasActive f.reportId then
        if onConflictDoNothing then .commit false else .abort .uniqueViolation
      else .commit true)

/-! ## A city update -/

def claimMessage (now : Instant) (id : MessageId) (c : Option Classification) : Stmt (Option FilingId) :=
  updateWhere (.message id)
    (fun s => ((s.messages.find? id).filter (fun m => m.appliedAt.isNone && m.trusted && !m.flagged)).map (·.filingId))
    (.updateMessage id now (.claim c))

def flagMessage (now : Instant) (id : MessageId) : Stmt (Option Message) :=
  updateWhere (.message id) (fun s => s.messages.find? id) (.updateMessage id now .flag)

/-- The `timelineKind` of an effect. -/
def entryKind : TimelineKind → EntryKind
  | .route => .route
  | .reply => .reply
  | .status => .status
  | .done => .done

/-- The effect's guarded write; false when its guard no longer holds. -/
def applyEffectIn (now : Instant) (f : Filing) : CityUpdateEffect → Stmt Bool
  | .none | .flag => pure false
  | .caseId caseId note => do
    match ← updateFilingWhere now f.id (fun s => (s.filings.find? f.id).filter (·.caseId.isNone))
      (.received caseId) with
    | none => pure false
    | some _ =>
      -- INSERT ... SELECT: no row when the report is not there.
      match ← (Tx.select (fun s => s.reports.find? f.reportId) : Stmt _) with
      | none => pure true
      | some r =>
        appendTimeline ⟨f.reportId, r.status, note, some .reply, none⟩
        pure true
  | .reportStatus sources target note kind cityClosed => do
    match ← updateWhere (.report f.reportId) (fun s => (s.liveReport f.reportId).filter
      (fun r => sources.contains r.status))
        (.updateReport f.reportId now (.status target)) with
    | none => pure false
    | some _ =>
      appendTimeline ⟨f.reportId, target, note, some (entryKind kind), none⟩
      if cityClosed then
        let _ ← updateFilingWhere now f.id (fun s => s.filings.find? f.id) .closedByCity
        pure true
      else pure true
  | .needsInfo detail => do
    match ← updateFilingWhere now f.id
        (fun s => (s.filings.find? f.id).filter (fun x => x.status.successful && !s.hasActive x.reportId))
        (.askedByCity detail) with
    | none => pure false
    | some _ => pure true

/-- One `filing.city_update` job: the message, what was read from it, and the names that the
jurisdictions have at the time. -/
structure CityUpdate where
  now : Instant
  messageId : MessageId
  classification : Option Classification
  jurisdictionName : Geoid → Option String

def CityUpdate.plan (x : CityUpdate) (f : Filing) : CityUpdateEffect :=
  planCityUpdate CASE_ID_RE ((f.geoid.bind x.jurisdictionName).getD "The city") x.classification f

inductive CityUpdateResult where
  | notClaimed
  | claimed (f : Filing) (effect : CityUpdateEffect) (applied : Bool)

def applyCityUpdate (x : CityUpdate) : Stmt CityUpdateResult := do
  match ← claimMessage x.now x.messageId x.classification with
  | none => pure .notClaimed
  | some filingId =>
    match ← Tx.selectFor (fun s => if (s.filings.find? filingId).isSome then [.filing filingId] else [])
        (fun s => s.filings.find? filingId) with
    | none => .abort .noFiling
    | some f =>
      let applied ← applyEffectIn x.now f (x.plan f)
      if x.plan f = .flag ∨ (x.plan f ≠ .none ∧ applied = false) then
        let _ ← flagMessage x.now x.messageId
        pure (.claimed f (x.plan f) applied)
      else pure (.claimed f (x.plan f) applied)

/-! ## Status changes of a report -/

inductive ReopenFilingOutcome | created | skippedActive | none

def reopenReasonDetail : Option String → String
  | none => "Previous request had no number"
  | some caseId => "Previous request " ++ caseId

/-- The filing of a reopened report; `id` is the new row's. -/
def reopenFiling (now : Instant) (r : ReportId) (id : FilingId) (closed : Filing) : Filing :=
  (NewFiling.mk id r closed.geoid closed.category none none none none closed.ticketText none none).row now .needsHuman
    (some .reopenedAfterCityClosed) (some (reopenReasonDetail closed.caseId)) none none none

def insertReopenFilingIn (now : Instant) (r : ReportId) (id : FilingId) : Stmt ReopenFilingOutcome := do
  match ← (Tx.select (fun s => s.latestSuccessful r) : Stmt _) with
  | none => pure .none
  | some closed =>
    if closed.cityClosedAt.isNone then pure .none
    else if ← (Tx.select (fun s => s.hasActive r) : Stmt _) then pure .skippedActive
    else if ← insertFilingRow (reopenFiling now r id closed) true then pure .created
    else pure .skippedActive

/-- The row that a status change leaves on the timeline. -/
structure StatusNote where
  note : String
  kind : Option EntryKind
  actorId : Option UserId

/-- An operator's change: only from the statuses it was decided on. -/
def advanceStatusIfIn (now : Instant) (r : ReportId) (sources : List ReportStatus) (target : ReportStatus)
    (x : StatusNote) (newFiling : FilingId) : Stmt Bool := do
  let locked ← (Tx.selectFor (fun s => if (s.liveReport r).isSome then [.report r] else [])
    (fun s => (s.liveReport r).map (·.status)) : Stmt (Option ReportStatus))
  match ← updateWhere (.report r) (fun s => (s.liveReport r).filter (fun y => sources.contains y.status))
      (.updateReport r now (.status target)) with
  | none => pure false
  | some _ =>
    appendTimeline ⟨r, target, x.note, x.kind, x.actorId⟩
    if locked = some .resolved ∧ target ≠ .resolved then
      let _ ← insertReopenFilingIn now r newFiling
      pure true
    else pure true

/-- `setStatus`: whatever the status is now. -/
def setStatus (now : Instant) (r : ReportId) (st : ReportStatus) (x : StatusNote) : Stmt Bool := do
  match ← updateWhere (.report r) (fun s => s.liveReport r)
      (.updateReport r now (if st = .rejected then .reject else .status st)) with
  | none => pure false
  | some _ =>
    appendTimeline ⟨r, st, x.note, x.kind, x.actorId⟩
    pure true

/-- `resolveByOwner`; `mine` says that the caller is the reporter, `visible` which statuses are public. -/
def resolveByOwner (now : Instant) (r : ReportId) (mine : Bool) (visible : ReportStatus → Bool) (target : ReportStatus)
    (note : String) (user : UserId) (newFiling : FilingId) : Stmt Bool := do
  match ← (Tx.selectFor (fun s => if (s.reports.find? r).isSome then [.report r] else []) (fun s => s.liveReport r) :
      Stmt (Option Report)) with
  | none => pure false
  | some row =>
    if !mine || !visible row.status ||
        decide (decide (row.status = .resolved) = decide (target = .resolved)) then pure false
    else
      let _ ← updateWhere (.report r) (fun s => s.reports.find? r) (.updateReport r now (.status target))
      appendTimeline ⟨r, target, note, none, some user⟩
      if row.status = .resolved ∧ target ≠ .resolved then
        let _ ← insertReopenFilingIn now r newFiling
        pure true
      else pure true

def setReportVerdict (now : Instant) (r : ReportId) (v : Verdict) (x : StatusNote) : Stmt Bool := do
  match ← updateWhere (.report r) (fun s => s.liveReport r) (.updateReport r now (.verdict v)) with
  | none => pure false
  | some row =>
    appendTimeline ⟨r, row.status, x.note, x.kind, x.actorId⟩
    pure true

/-! ## The filing repository -/

def applyReportSuccess (now : Instant) (r : ReportId) (note : String) (actor : Option UserId) : Stmt Bool := do
  match ← (Tx.selectFor (fun s => if ((s.reports.find? r).filter Report.fileable).isSome then [.report r] else [])
      (fun s => (s.reports.find? r).filter Report.fileable) : Stmt (Option Report)) with
  | none => pure false
  | some report =>
    match ← updateWhere (.report r)
        (fun s => (s.reports.find? r).filter (fun x => [.submitted, .held, .published].contains x.status))
        (.updateReport r now (.status .acknowledged)) with
    | none =>
      appendTimeline ⟨r, report.status, note, some .route, actor⟩
      pure true
    | some _ =>
      appendTimeline ⟨r, .acknowledged, note, some .route, actor⟩
      pure true

def transition (now : Instant) (id : FilingId) (g : Guard) (set : FilingSet) : Stmt (Option Filing) :=
  updateFilingWhere now id (fun s => (s.filings.find? id).filter g.admits) (.set set)

def claim (now : Instant) (id : FilingId) (attempt : ℕ) (run : RunId) : Stmt (Option Filing) :=
  updateFilingWhere now id
    (fun s => (s.filings.find? id).filter (fun f => decide (f.status = .queued ∧ f.attempts + 1 = attempt)))
      (.claim attempt run)

/-- `recordSuccess` of a filing that is there. -/
def recordSuccess (now : Instant) (x : SuccessInput) (note : String) : Stmt Bool := do
  match ← updateFilingWhere now x.filingId (fun s => (s.filings.find? x.filingId).filter x.guard.admits)
    (.set x.set) with
  | none => pure false
  | some f =>
    let _ ← applyReportSuccess now f.reportId note x.actorId
    pure true

/-- `recordSuccess` of a new filing. -/
def recordNewSuccess (now : Instant) (f : Filing) (note : String) (actor : Option UserId) : Stmt Bool := do
  let inserted ← insertFilingRow f false
  let _ ← applyReportSuccess now f.reportId note actor
  pure inserted

/-- `insertMessageIfAbsent` of a message whose address and mail ids are new. -/
def insertMessage (m : Message) : Stmt Bool :=
  .stmt (fun _ => [.message m.id])
    (fun s => if (s.messages.find? m.id).isSome ∨ (s.filings.find? m.filingId).isNone then [] else [.insertMessage m])
    (fun s =>
      if (s.messages.find? m.id).isSome then .commit false
      else if (s.filings.find? m.filingId).isNone then .abort .foreignKey
      else .commit true)

/-! ## Programs -/

inductive Operation where
  | cityUpdate (x : CityUpdate)
  | operatorStatus (now : Instant) (r : ReportId) (sources : List ReportStatus) (target : ReportStatus) (x : StatusNote)
      (newFiling : FilingId)
  | replyStatus (now : Instant) (r : ReportId) (st : ReportStatus) (x : StatusNote)
  | ownerStatus (now : Instant) (r : ReportId) (mine : Bool) (visible : ReportStatus → Bool) (target : ReportStatus)
      (note : String) (user : UserId) (newFiling : FilingId)
  | verdict (now : Instant) (r : ReportId) (v : Verdict) (x : StatusNote)
  | createFiling (f : Filing)
  | transition (now : Instant) (id : FilingId) (g : Guard) (set : FilingSet)
  | claim (now : Instant) (id : FilingId) (attempt : ℕ) (run : RunId)
  | recordSuccess (now : Instant) (x : SuccessInput) (note : String)
  | recordNewSuccess (now : Instant) (f : Filing) (note : String) (actor : Option UserId)
  | insertMessage (m : Message)
  | flagMessage (now : Instant) (id : MessageId)

def ended {α : Type} (p : Stmt α) : Stmt Unit := p >>= fun _ => .commit ()

def program : Operation → Stmt Unit
  | .cityUpdate x => ended (applyCityUpdate x)
  | .operatorStatus now r sources target x id => ended (advanceStatusIfIn now r sources target x id)
  | .replyStatus now r st x => ended (setStatus now r st x)
  | .ownerStatus now r mine visible target note user id => ended (resolveByOwner now r mine visible target note user id)
  | .verdict now r v x => ended (setReportVerdict now r v x)
  | .createFiling f => ended (insertFilingRow f false)
  | .transition now id g set => ended (transition now id g set)
  | .claim now id attempt run => ended (claim now id attempt run)
  | .recordSuccess now x note => ended (recordSuccess now x note)
  | .recordNewSuccess now f note actor => ended (recordNewSuccess now f note actor)
  | .insertMessage m => ended (insertMessage m)
  | .flagMessage now id => ended (flagMessage now id)

end Civfix.CityUpdates
