import Mathlib.Data.List.Sort
import Civfix.KeyedTables

/-! # Broadcasts and their deliveries

The two tables of the broadcast repository and its statements, one definition each. A
statement is atomic; what happens between two statements is the business of the pipeline. -/
namespace Civfix.Broadcasts

open KeyedTables

abbrev BroadcastId := ℕ
abbrev DeliveryId := ℕ
abbrev CleanupId := ℕ
abbrev UserId := ℕ
abbrev GuestId := ℕ
abbrev Instant := ℕ

inductive BroadcastStatus | draft | scheduled | sending | sent | failed | cancelled deriving DecidableEq

/-- A finished broadcast is never taken up again. -/
def BroadcastStatus.finished : BroadcastStatus → Bool
  | .sent | .failed | .cancelled => true
  | .draft | .scheduled | .sending => false

inductive BroadcastKind
  | hostBroadcast | confirmation | waitlistPromoted | reminder | eventUpdated | eventCancelled | thankYou | announcement
  deriving DecidableEq

/-- `CRITICAL_BROADCAST_KINDS`. -/
def BroadcastKind.critical : BroadcastKind → Bool
  | .eventUpdated | .eventCancelled => true
  | _ => false

/-- `HOST_COMPOSED_BROADCAST_KINDS`. -/
def BroadcastKind.hostComposed : BroadcastKind → Bool
  | .hostBroadcast | .thankYou | .announcement => true
  | _ => false

/-- `BUDGETED_KINDS`. -/
def BroadcastKind.budgeted : BroadcastKind → Bool
  | .hostBroadcast | .announcement => true
  | _ => false

inductive Channel | inapp | push | email | sms deriving DecidableEq

inductive RecipientKind | member | guest deriving DecidableEq

inductive DeliveryStatus | pending | inFlight | sent | failed | suppressed | skipped deriving DecidableEq

/-- `status IN ('pending','in_flight')`. -/
def DeliveryStatus.isOpen : DeliveryStatus → Bool
  | .pending | .inFlight => true
  | .sent | .failed | .suppressed | .skipped => false

inductive SuppressionReason
  | prefsOff | bounceSuppressed | noContact | contactScrubbed | killSwitch | deletedUser | cap | cancelled
  deriving DecidableEq

inductive FailureKind | transient | permanent | auth | oversize | unknown deriving DecidableEq

structure Broadcast where
  id : BroadcastId
  cleanupId : CleanupId
  createdBy : Option UserId
  kind : BroadcastKind
  status : BroadcastStatus
  subject : Option String
  bodyMd : Option String
  ctaUrl : Option String
  channels : List Channel
  replyTo : Option String
  scheduledAt : Option Instant
  plannedAt : Option Instant
  startedAt : Option Instant
  finishedAt : Option Instant
  chunkSize : ℕ
  chunkCount : ℕ
  recipientCount : ℕ
  sentCount : ℕ
  failedCount : ℕ
  suppressedCount : ℕ
  updatedAt : Instant
  deriving DecidableEq

structure DeliveryRowInput where
  broadcastId : BroadcastId
  chunkNo : ℕ
  recipientKind : RecipientKind
  userId : Option UserId
  guestId : Option GuestId
  channel : Channel
  deriving DecidableEq

structure Delivery extends DeliveryRowInput where
  id : DeliveryId
  status : DeliveryStatus
  suppressionReason : Option SuppressionReason
  failureKind : Option FailureKind
  attempts : ℕ
  sentAt : Option Instant
  updatedAt : Instant

/-- The generated column `recipient_id`. -/
def DeliveryRowInput.recipientId (d : DeliveryRowInput) : Option ℕ := d.userId <|> d.guestId

structure DeliveryClaim where
  id : DeliveryId
  chunkNo : ℕ
  recipientKind : RecipientKind
  userId : Option UserId
  guestId : Option GuestId
  channel : Channel
  attempts : ℕ
  deriving DecidableEq

structure DeliveryOutcome where
  id : DeliveryId
  status : DeliveryStatus
  suppressionReason : Option SuppressionReason
  failureKind : Option FailureKind
  sentAt : Option Instant
  deriving DecidableEq

structure DeliveryCounts where
  pending : ℕ
  sent : ℕ
  failed : ℕ
  suppressed : ℕ
  skipped : ℕ

/-- The columns that a transition sets besides the status; `none` leaves a column alone. -/
structure TransitionFields where
  scheduledAt : Option (Option Instant) := none
  startedAt : Option (Option Instant) := none
  finishedAt : Option (Option Instant) := none
  replyTo : Option (Option String) := none

def MAX_DELIVERY_ATTEMPTS : ℕ := 3

/-- The two tables and the clock of the database. -/
structure Store where
  now : Instant
  broadcasts : Table Broadcast.id
  deliveries : Table Delivery.id

namespace Store

variable (s : Store)

def findById (b : BroadcastId) : Option Broadcast := s.broadcasts.find? b

def ofBroadcast (b : BroadcastId) : List Delivery := s.deliveries.rows.filter (fun d => d.broadcastId = b)

def modifyBroadcast (b : BroadcastId) (f : Broadcast → Broadcast) (hf : ∀ r, (f r).id = r.id) : Store :=
  { s with broadcasts := s.broadcasts.modify b f hf }

def updateDeliveries (p : Delivery → Bool) (f : Delivery → Delivery) (hf : ∀ d, (f d).id = d.id) : Store :=
  { s with deliveries := s.deliveries.update p f hf }

/-- The row after a transition. -/
def moved (status : BroadcastStatus) (fields : TransitionFields) (r : Broadcast) : Broadcast :=
  { r with
    status := status
    scheduledAt := fields.scheduledAt.getD r.scheduledAt
    startedAt := fields.startedAt.getD r.startedAt
    finishedAt := fields.finishedAt.getD r.finishedAt
    replyTo := fields.replyTo.getD r.replyTo
    updatedAt := s.now }

theorem moved_id (status : BroadcastStatus) (fields : TransitionFields) (r : Broadcast) :
    (s.moved status fields r).id = r.id := rfl

/-- The broadcast is in one of the statuses that a transition starts from. -/
def mayMove (b : BroadcastId) (prior : List BroadcastStatus) : Bool :=
  (s.findById b).any (fun r => r.status ∈ prior)

/-- `transition`: nothing happens to a row in another status. -/
def transition (b : BroadcastId) (prior : List BroadcastStatus) (status : BroadcastStatus)
    (fields : TransitionFields) : Store :=
  if s.mayMove b prior then s.modifyBroadcast b (s.moved status fields) (s.moved_id status fields) else s

/-- `markPlanned` reports whether the row was unplanned. -/
def unplanned (b : BroadcastId) : Bool := (s.findById b).any (fun r => r.plannedAt.isNone)

def markPlanned (b : BroadcastId) (recipientCount : ℕ) (plannedAt : Instant) : Store :=
  if s.unplanned b then
    s.modifyBroadcast b (fun r => { r with
      plannedAt := some plannedAt
      recipientCount := recipientCount
      chunkCount := ((s.ofBroadcast b).map (fun d => d.chunkNo + 1)).foldr max 0
      updatedAt := s.now }) (fun _ => rfl)
  else s

/-- The index `broadcast_deliveries_recipient_uidx`; a NULL recipient conflicts with nothing. -/
def conflicts (row : DeliveryRowInput) : Bool :=
  row.recipientId.isSome && s.deliveries.rows.any (fun d => d.broadcastId = row.broadcastId &&
    d.channel = row.channel && d.recipientKind = row.recipientKind && d.recipientId = row.recipientId)

def freshDeliveryId : DeliveryId := (s.deliveries.rows.map (·.id)).foldr max 0 + 1

/-- A new row, with the defaults of its columns. -/
def newDelivery (row : DeliveryRowInput) : Delivery :=
  { row with
    id := s.freshDeliveryId
    status := .pending
    suppressionReason := none
    failureKind := none
    attempts := 0
    sentAt := none
    updatedAt := s.now }

def insertDelivery (row : DeliveryRowInput) : Store :=
  if s.conflicts row then s else { s with deliveries := s.deliveries.insert (s.newDelivery row) }

/-- ON CONFLICT DO NOTHING. -/
def insertDeliveries (rows : List DeliveryRowInput) : Store := rows.foldl insertDelivery s

/-- The rows that `claimChunk` takes: pending, or in flight for too long. -/
def claimable (b : BroadcastId) (chunkNo : ℕ) (staleBefore : Instant) (limit : ℕ) : List Delivery :=
  ((s.deliveries.rows.filter (fun d => d.broadcastId = b && d.chunkNo = chunkNo &&
    d.attempts < MAX_DELIVERY_ATTEMPTS && (d.status = .pending || (d.status = .inFlight && d.updatedAt < staleBefore)))
    ).insertionSort (fun a c => a.id ≤ c.id)).take limit

def claimRows (ids : List DeliveryId) : Store :=
  s.updateDeliveries (fun d => d.id ∈ ids)
    (fun d => { d with status := .inFlight, attempts := d.attempts + 1, updatedAt := s.now }) (fun _ => rfl)

/-- What `claimChunk` returns for a row. -/
def claimOf (d : Delivery) : DeliveryClaim :=
  ⟨d.id, d.chunkNo, d.recipientKind, d.userId, d.guestId, d.channel, d.attempts + 1⟩

/-- `applyDeliveryOutcomes` writes every outcome, whatever the status of the row. -/
def applyDeliveryOutcomes (outcomes : List DeliveryOutcome) : Store :=
  s.updateDeliveries (fun d => outcomes.any (fun o => o.id = d.id))
    (fun d => ((outcomes.find? (fun o => o.id = d.id)).elim d (fun o => { d with
      status := o.status
      suppressionReason := o.suppressionReason
      failureKind := o.failureKind
      sentAt := o.sentAt
      updatedAt := s.now })))
    (fun d => by cases outcomes.find? (fun o => decide (o.id = d.id)) <;> rfl)

def releaseClaims (ids : List DeliveryId) : Store :=
  s.updateDeliveries (fun d => d.id ∈ ids && d.status.isOpen)
    (fun d => { d with status := .pending, attempts := d.attempts - 1, updatedAt := s.now }) (fun _ => rfl)

def listPendingChunks (b : BroadcastId) : List ℕ :=
  ((((s.ofBroadcast b).filter (fun d => d.status.isOpen)).map (·.chunkNo)).dedup).insertionSort (· ≤ ·)

/-- The rows that `failExhausted` ends. -/
def exhausted (b : BroadcastId) (d : Delivery) : Bool :=
  d.broadcastId = b && d.status.isOpen && MAX_DELIVERY_ATTEMPTS ≤ d.attempts

def failExhausted (b : BroadcastId) : Store :=
  s.updateDeliveries (exhausted b)
    (fun d => { d with status := .failed, failureKind := some .unknown, updatedAt := s.now }) (fun _ => rfl)

def suppressRemaining (b : BroadcastId) (reason : SuppressionReason) : Store :=
  s.updateDeliveries (fun d => d.broadcastId = b && d.status.isOpen)
    (fun d => { d with status := .suppressed, suppressionReason := some reason, updatedAt := s.now }) (fun _ => rfl)

/-- How many deliveries of the broadcast have a status that satisfies `p`. -/
def countWhere (b : BroadcastId) (p : DeliveryStatus → Bool) : ℕ := (s.ofBroadcast b).countP (fun d => p d.status)

def deliveryCounts (b : BroadcastId) : DeliveryCounts where
  pending := s.countWhere b (·.isOpen)
  sent := s.countWhere b (· = .sent)
  failed := s.countWhere b (· = .failed)
  suppressed := s.countWhere b (· = .suppressed)
  skipped := s.countWhere b (· = .skipped)

/-- `refreshCounts` counts people that were reached, and rows otherwise. -/
def refreshCounts (b : BroadcastId) : Store :=
  let sent := (s.ofBroadcast b).filter (fun d => d.status = .sent)
  s.modifyBroadcast b (fun r => { r with
    sentCount := ((sent.filter (fun d => d.recipientId.isSome)).map
      (fun d => (d.recipientKind, d.recipientId))).dedup.length
      + (sent.filter (fun d => d.recipientId.isNone)).length
    failedCount := s.countWhere b (· = .failed)
    suppressedCount := s.countWhere b (fun t => t = .suppressed || t = .skipped)
    updatedAt := s.now }) (fun _ => rfl)

end Store

end Civfix.Broadcasts
