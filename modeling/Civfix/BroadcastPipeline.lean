import Civfix.BroadcastRepository
import Civfix.InterleavedCalls

/-! # The broadcast pipeline

Planning, chunk workers, the sweeps, cancelling and finishing, cut at their awaits. What the
two tables do not hold (the audience, the kill switch, who is suspended) is read from the
shared state and changed by the environment; what the mailer and the notification service
answer to a worker is left open, and so is whether the daily budget has room. A job queue
may start any of the calls at any time, which covers a sweep: it makes its calls one after
the other. -/
namespace Civfix.Broadcasts

open KeyedTables InterleavedCalls

structure Audience where
  memberIds : List UserId
  guestIds : List GuestId
  deriving DecidableEq

/-- `host` and `event` give what the pipeline reads of a host and of an event: whether the
host, or the organization of the event, is suspended. -/
structure Shared extends Store where
  killSwitch : Bool
  host : UserId → Option Bool
  event : CleanupId → Option Bool
  audience : BroadcastId → Audience

structure Config where
  maxRecipients : ℕ

def CHUNK_STALE_MS : ℕ := 10 * 60 * 1000

def DELIVERY_INSERT_BATCH : ℕ := 500

def MAX_CHANNELS_PER_RECIPIENT : ℕ := 4

def AUTH_ABORT_BACKOFF_SEC : List ℕ := [60, 300, 900]

/-- Guests are reached by email and text message only. -/
def eligible (kind : RecipientKind) (channel : Channel) : Bool :=
  !(kind = .guest && channel ≠ .email && channel ≠ .sms)

def deliveryRowsFor (record : Broadcast) (audience : Audience) : List DeliveryRowInput :=
  let chunkSize := max 1 record.chunkSize
  let recipients := audience.memberIds.map (RecipientKind.member, ·) ++ audience.guestIds.map (RecipientKind.guest, ·)
  recipients.zipIdx.flatMap fun ⟨(kind, id), index⟩ =>
    (record.channels.filter (eligible kind)).map fun channel =>
      { broadcastId := record.id
        chunkNo := index / chunkSize
        recipientKind := kind
        userId := if kind = .member then some id else none
        guestId := if kind = .guest then some id else none
        channel := channel }

/-! ## What the senders make of a claim -/

/-- What the services outside answer about one claim. `lost` stands for a call that throws
before the claim has an outcome. -/
inductive Answer where
  | contactMissing | prefsOff | noContact | bounceSuppressed | duplicateAddress | delivered | undelivered
  | rejected (kind : FailureKind)
  | lost
  deriving DecidableEq

def Answer.all : List Answer :=
  [.delivered, .undelivered, .contactMissing, .prefsOff, .noContact, .bounceSuppressed, .duplicateAddress,
    .rejected .transient, .rejected .permanent, .rejected .auth, .rejected .oversize, .rejected .unknown, .lost]

def answers : ℕ → List (List Answer)
  | 0 => [[]]
  | n + 1 => Answer.all.flatMap fun a => (answers n).map (a :: ·)

namespace DeliveryClaim

variable (claim : DeliveryClaim)

def suppressed (reason : SuppressionReason) : DeliveryOutcome := ⟨claim.id, .suppressed, some reason, none, none⟩

def sent (now : Instant) : DeliveryOutcome := ⟨claim.id, .sent, none, none, some now⟩

def failed (kind : FailureKind) : DeliveryOutcome := ⟨claim.id, .failed, none, some kind, none⟩

def pending : DeliveryOutcome := ⟨claim.id, .pending, none, none, none⟩

/-- `runInAppAndPush` with `requeueUndelivered`. -/
def inAppOutcome (now : Instant) : Answer → Option DeliveryOutcome
  | .contactMissing => some (claim.suppressed .deletedUser)
  | .prefsOff => some (claim.suppressed .prefsOff)
  | .undelivered => some (if MAX_DELIVERY_ATTEMPTS ≤ claim.attempts then claim.failed .unknown else claim.pending)
  | .lost => none
  | _ => some (claim.sent now)

/-- `deliver` of the email sender. After a rejection of the sender every claim that is left
is held for a retry, just as the rejected one. -/
def emailOutcome (now : Instant) : Answer → Option DeliveryOutcome
  | .contactMissing => some (claim.suppressed (if claim.userId.isSome then .deletedUser else .contactScrubbed))
  | .prefsOff => some (if claim.userId.isSome then claim.suppressed .prefsOff else claim.sent now)
  | .noContact => some (claim.suppressed .noContact)
  | .bounceSuppressed => some (claim.suppressed .bounceSuppressed)
  | .duplicateAddress => some ⟨claim.id, .skipped, none, none, none⟩
  | .rejected .auth => some claim.pending
  | .rejected .permanent => some (claim.failed .permanent)
  | .rejected .transient =>
    some (if claim.attempts < MAX_DELIVERY_ATTEMPTS then claim.pending else claim.failed .transient)
  | .rejected kind => some (claim.failed kind)
  | .lost => none
  | .delivered | .undelivered => some (claim.sent now)

/-- No sender takes a text message. -/
def outcome (now : Instant) (answer : Answer) : Option DeliveryOutcome :=
  match claim.channel with
  | .inapp | .push => if claim.userId.isSome then claim.inAppOutcome now answer else none
  | .email => claim.emailOutcome now answer
  | .sms => none

end DeliveryClaim

/-- How the senders leave a chunk. -/
inductive Ending where
  | finished
  | aborted (releasedIds : List DeliveryId)
  | threw
  deriving DecidableEq

def chunkOutcomes (now : Instant) (claims : List DeliveryClaim) (as : List Answer) : List DeliveryOutcome :=
  (claims.zip as).filterMap fun x => x.1.outcome now x.2

def chunkEnding (claims : List DeliveryClaim) (as : List Answer) : Ending :=
  if .lost ∈ as then .threw
  else
    match (claims.zip as).filterMap (fun x => if x.1.channel = .email && x.2 = .rejected .auth then some x.1.id else none) with
    | [] => .finished
    | ids => .aborted ids

/-! ## Calls and their awaits -/

inductive Request where
  | plan (broadcastId : BroadcastId)
  | runChunk (broadcastId : BroadcastId) (chunkNo authRetry : ℕ)
  | finalizeIfDrained (broadcastId : BroadcastId)
  | releaseScheduled (broadcastId : BroadcastId)
  | resumeStale (broadcastId : BroadcastId)
  | cancel (cleanupId : CleanupId) (broadcastId : BroadcastId)
  deriving DecidableEq

inductive PlanOutcome where
  | planned (recipients chunks : ℕ)
  | skipped | killed | orgSuspended
  | tooMany (recipients : ℕ)
  | overBudget (recipients : ℕ)
  | empty
  deriving DecidableEq

inductive Result where
  | plan (kind : PlanOutcome)
  | returned
  | threw
  | notFound
  | conflict (message : String)
  deriving DecidableEq

/-- The statuses that a suspended organization ends. -/
inductive SuspendableStatus | scheduled | sending deriving DecidableEq

def SuspendableStatus.status : SuspendableStatus → BroadcastStatus
  | .scheduled => .scheduled
  | .sending => .sending

inductive Await where
  | planFind (b : BroadcastId)
  | planKilled (record : Broadcast)
  | planOrg (record : Broadcast)
  | planAudience (record : Broadcast)
  | failTooMany (b : BroadcastId) (recipientCount : ℕ)
  | markEmpty (b : BroadcastId)
  | emptyTransition (b : BroadcastId)
  | insertBatch (record : Broadcast) (rows : List DeliveryRowInput) (recipientCount : ℕ)
  | markPlanned (record : Broadcast) (recipientCount : ℕ)
  | reserveBudget (b : BroadcastId) (recipientCount : ℕ)
  | budgetSuppress (b : BroadcastId) (recipientCount : ℕ)
  | budgetTransition (b : BroadcastId) (recipientCount : ℕ)
  | listChunks (b : BroadcastId) (recipientCount : Option ℕ)
  | killSuppress (b : BroadcastId) (result : Result)
  | killTransition (b : BroadcastId) (result : Result)
  | orgTransition (b : BroadcastId) (prior : SuspendableStatus) (refused stayed : Result)
  | orgSuppress (b : BroadcastId) (refused : Result)
  | chunkFind (b : BroadcastId) (chunkNo authRetry : ℕ)
  | chunkKilled (record : Broadcast) (chunkNo authRetry : ℕ)
  | chunkEvent (record : Broadcast) (chunkNo authRetry : ℕ)
  | claimChunk (record : Broadcast) (chunkNo authRetry : ℕ)
  | runSenders (b : BroadcastId) (claims : List DeliveryClaim) (authRetry : ℕ)
  | applyOutcomes (b : BroadcastId) (outcomes : List DeliveryOutcome) (ending : Ending) (authRetry : ℕ)
  | chunkRefresh (b : BroadcastId) (ending : Ending) (authRetry : ℕ)
  | releaseClaims (ids : List DeliveryId) (authRetry : ℕ)
  | failExhausted (b : BroadcastId)
  | exhaustedRefresh (b : BroadcastId)
  | finalCounts (b : BroadcastId)
  | finalTransition (b : BroadcastId) (allFailed : Bool)
  | releaseFind (b : BroadcastId)
  | releaseOrg (record : Broadcast)
  | releaseTransition (b : BroadcastId)
  | reserveSlot (b : BroadcastId)
  | deferTransition (b : BroadcastId)
  | refuseSuppress (b : BroadcastId)
  | refuseTransition (b : BroadcastId)
  | resumeFind (b : BroadcastId)
  | resumeCounts (b : BroadcastId)
  | cancelFind (cleanupId : CleanupId) (b : BroadcastId)
  | cancelTransition (b : BroadcastId)
  | cancelSuppress (b : BroadcastId)
  | refreshCounts (b : BroadcastId) (result : Result)
  deriving DecidableEq

namespace Shared

variable (s : Shared)

def withStore (t : Store) : Shared := { s with toStore := t }

/-- `killed`: a host whose state cannot be read counts as suspended. -/
def killed (record : Broadcast) : List Bool :=
  match record.createdBy with
  | none => [s.killSwitch]
  | some host => [s.killSwitch || (s.host host).getD true, true]

/-- `organizationSuspendedFor`: only messages that a host composed are stopped. -/
def organizationSuspended (record : Broadcast) : Bool :=
  record.kind.hostComposed && (s.event record.cleanupId).getD false

/-- `finishedAt` is set to the present. -/
def finishing : TransitionFields := { finishedAt := some (some s.now) }

def transition (b : BroadcastId) (prior : List BroadcastStatus) (status : BroadcastStatus)
    (fields : TransitionFields) : Shared := s.withStore (s.toStore.transition b prior status fields)

end Shared

def unfinished : List BroadcastStatus := [.draft, .scheduled, .sending]

def backOffAfterAuthAbort (authRetry : ℕ) : Result :=
  if authRetry < AUTH_ABORT_BACKOFF_SEC.length then .returned else .threw

namespace Config

variable (cfg : Config)

/-- The awaits that follow a chunk whose outcomes are written. -/
def afterChunk (b : BroadcastId) (authRetry : ℕ) : Ending → Next Await Result
  | .finished => .await (.failExhausted b)
  | .aborted ids => .await (.releaseClaims ids authRetry)
  | .threw => .done .threw

/-- The next batch of `plan`, or what follows the last one. -/
def insertNext (record : Broadcast) (rows : List DeliveryRowInput) (recipientCount : ℕ) : Next Await Result :=
  if rows = [] then .await (.markPlanned record recipientCount) else .await (.insertBatch record rows recipientCount)

def access (s : Shared) : Await → List (Shared × Next Await Result)
  | .planFind b => [(s, match s.findById b with
      | none => .done (.plan .skipped)
      | some record => if record.status = .sending then .await (.planKilled record) else .done (.plan .skipped))]
  | .planKilled record => (s.killed record).map fun killed =>
      (s, if killed then .await (.killSuppress record.id (.plan .killed)) else .await (.planOrg record))
  | .planOrg record => [(s,
      if s.organizationSuspended record then
        .await (.orgTransition record.id .sending (.plan .orgSuspended) (.plan .skipped))
      else .await (.planAudience record))]
  | .planAudience record => [(s,
      let audience := s.audience record.id
      let recipientCount := audience.memberIds.length + audience.guestIds.length
      if cfg.maxRecipients < recipientCount then .await (.failTooMany record.id recipientCount)
      else if recipientCount = 0 then .await (.markEmpty record.id)
      else insertNext record (deliveryRowsFor record audience) recipientCount)]
  | .failTooMany b recipientCount =>
      [(s.transition b [.sending] .failed s.finishing, .done (.plan (.tooMany recipientCount)))]
  | .markEmpty b => [(s.withStore (s.markPlanned b 0 s.now), .await (.emptyTransition b))]
  | .emptyTransition b => [(s.transition b [.sending] .sent s.finishing, .done (.plan .empty))]
  | .insertBatch record rows recipientCount =>
      [(s.withStore (s.insertDeliveries (rows.take DELIVERY_INSERT_BATCH)),
        insertNext record (rows.drop DELIVERY_INSERT_BATCH) recipientCount)]
  | .markPlanned record recipientCount => [(s.withStore (s.toStore.markPlanned record.id recipientCount s.now),
      if s.unplanned record.id && record.createdBy.isSome && record.kind.budgeted then
        .await (.reserveBudget record.id recipientCount)
      else .await (.listChunks record.id (some recipientCount)))]
  | .reserveBudget b recipientCount =>
      [(s, .await (.listChunks b (some recipientCount))), (s, .await (.budgetSuppress b recipientCount))]
  | .budgetSuppress b recipientCount =>
      [(s.withStore (s.suppressRemaining b .cap), .await (.budgetTransition b recipientCount))]
  | .budgetTransition b recipientCount =>
      [(s.transition b [.sending] .failed s.finishing, .done (.plan (.overBudget recipientCount)))]
  | .listChunks b recipientCount => [(s,
      .done (recipientCount.elim .returned (fun n => .plan (.planned n (s.listPendingChunks b).length))))]
  | .killSuppress b result => [(s.withStore (s.suppressRemaining b .killSwitch), .await (.killTransition b result))]
  | .killTransition b result => [(s.transition b unfinished .cancelled s.finishing, .await (.refreshCounts b result))]
  | .orgTransition b prior refused stayed => [(s.transition b [prior.status] .failed s.finishing,
      if s.mayMove b [prior.status] then .await (.orgSuppress b refused) else .done stayed)]
  | .orgSuppress b refused => [(s.withStore (s.suppressRemaining b .killSwitch), .await (.refreshCounts b refused))]
  | .chunkFind b chunkNo authRetry => [(s, match s.findById b with
      | none => .done .returned
      | some record =>
        if record.status = .sending then .await (.chunkKilled record chunkNo authRetry) else .done .returned)]
  | .chunkKilled record chunkNo authRetry => (s.killed record).map fun killed =>
      (s, if killed then .await (.killSuppress record.id .returned)
        else .await (.chunkEvent record chunkNo authRetry))
  | .chunkEvent record chunkNo authRetry => [(s, match s.event record.cleanupId with
      | none => .done .returned
      | some _ =>
        if s.organizationSuspended record then .await (.orgTransition record.id .sending .returned .returned)
        else .await (.claimChunk record chunkNo authRetry))]
  | .claimChunk record chunkNo authRetry =>
      let rows := s.claimable record.id chunkNo (s.now - CHUNK_STALE_MS)
        (max 1 record.chunkSize * MAX_CHANNELS_PER_RECIPIENT)
      [(s.withStore (s.claimRows (rows.map (·.id))),
        if rows = [] then .await (.failExhausted record.id)
        else .await (.runSenders record.id (rows.map Store.claimOf) authRetry))]
  | .runSenders b claims authRetry => (answers claims.length).map fun as =>
      (s, .await (.applyOutcomes b (chunkOutcomes s.now claims as) (chunkEnding claims as) authRetry))
  | .applyOutcomes b outcomes ending authRetry =>
      [(s.withStore (s.applyDeliveryOutcomes outcomes), .await (.chunkRefresh b ending authRetry))]
  | .chunkRefresh b ending authRetry => [(s.withStore (s.toStore.refreshCounts b), afterChunk b authRetry ending)]
  | .releaseClaims ids authRetry =>
    [(s.withStore (s.toStore.releaseClaims ids), .done (backOffAfterAuthAbort authRetry))]
  | .failExhausted b => [(s.withStore (s.toStore.failExhausted b),
      if s.deliveries.rows.any (Store.exhausted b) then .await (.exhaustedRefresh b) else .await (.finalCounts b))]
  | .exhaustedRefresh b => [(s.withStore (s.toStore.refreshCounts b), .await (.finalCounts b))]
  | .finalCounts b => [(s,
      let counts := s.deliveryCounts b
      if 0 < counts.pending then .done .returned
      else .await (.finalTransition b (counts.sent = 0 && 0 < counts.failed)))]
  | .finalTransition b allFailed =>
      [(s.transition b [.sending] (if allFailed then .failed else .sent) s.finishing,
        .await (.refreshCounts b .returned))]
  | .releaseFind b => [(s, match s.findById b with
      | none => .done .returned
      | some record => if record.status = .scheduled then .await (.releaseOrg record) else .done .returned)]
  | .releaseOrg record => [(s,
      if s.organizationSuspended record then .await (.orgTransition record.id .scheduled .returned .returned)
      else .await (.releaseTransition record.id))]
  | .releaseTransition b => [(s.transition b [.scheduled] .sending { startedAt := some (some s.now) },
      match s.findById b with
      | none => .done .returned
      | some record =>
        if record.status ≠ .scheduled then .done .returned
        else if record.createdBy.isSome && record.kind = .hostBroadcast then .await (.reserveSlot b)
        else .await (.planFind b))]
  | .reserveSlot b =>
      [(s, .await (.planFind b)), (s, .await (.deferTransition b)), (s, .await (.refuseSuppress b))]
  | .deferTransition b => [(s.transition b [.sending] .scheduled { startedAt := some none }, .done .returned)]
  | .refuseSuppress b => [(s.withStore (s.suppressRemaining b .cap), .await (.refuseTransition b))]
  | .refuseTransition b => [(s.transition b [.sending] .failed s.finishing, .await (.refreshCounts b .returned))]
  | .resumeFind b => [(s, match s.findById b with
      | none => .done .returned
      | some record => if record.plannedAt.isNone then .await (.planFind b) else .await (.resumeCounts b))]
  | .resumeCounts b => [(s,
      if (s.deliveryCounts b).pending = 0 then .await (.failExhausted b) else .await (.listChunks b none))]
  | .cancelFind cleanupId b => [(s, match (s.findById b).filter (fun r => r.cleanupId = cleanupId) with
      | none => .done .notFound
      | some record =>
        if record.kind.critical then .done (.conflict "Automatic messages can't be cancelled.")
        else .await (.cancelTransition b))]
  | .cancelTransition b => [(s.transition b unfinished .cancelled s.finishing,
      if s.mayMove b unfinished then .await (.cancelSuppress b)
      else .done (.conflict "That message has already finished."))]
  | .cancelSuppress b => [(s.withStore (s.suppressRemaining b .cancelled), .await (.refreshCounts b .returned))]
  | .refreshCounts b result => [(s.withStore (s.toStore.refreshCounts b), .done result)]

def enter : Request → Await
  | .plan b => .planFind b
  | .runChunk b chunkNo authRetry => .chunkFind b chunkNo authRetry
  | .finalizeIfDrained b => .failExhausted b
  | .releaseScheduled b => .releaseFind b
  | .resumeStale b => .resumeFind b
  | .cancel cleanupId b => .cancelFind cleanupId b

/-- What happens outside the pipeline. `create` is a new draft or an automatic message,
`setStatus` a send, a schedule or the roll-back of a send. -/
inductive Change where
  | tick (now : Instant)
  | create (broadcast : Broadcast)
  | setStatus (b : BroadcastId) (status : BroadcastStatus)
  | setKillSwitch (on : Bool)
  | setHost (host : UserId) (suspended : Option Bool)
  | setEvent (cleanupId : CleanupId) (suspended : Option Bool)
  | setAudience (b : BroadcastId) (audience : Audience)

def environment (s : Shared) : Change → Option Shared
  | .tick now => if s.now ≤ now then some (s.withStore { s.toStore with now := now }) else none
  | .create broadcast =>
      if broadcast.status.finished then none
      else some (s.withStore { s.toStore with broadcasts := s.broadcasts.insert broadcast })
  | .setStatus b status => if status.finished then none else some (s.transition b unfinished status {})
  | .setKillSwitch on => some { s with killSwitch := on }
  | .setHost host suspended => some { s with host := Function.update s.host host suspended }
  | .setEvent cleanupId suspended => some { s with event := Function.update s.event cleanupId suspended }
  | .setAudience b audience => some { s with audience := Function.update s.audience b audience }

def machine : Machine Shared Request Await Result Change where
  enter s o := some (s, enter o)
  access := cfg.access
  environment := environment

end Config

def Shared.empty : Shared where
  now := 0
  broadcasts := .empty _
  deliveries := .empty _
  killSwitch := false
  host _ := some false
  event _ := none
  audience _ := ⟨[], []⟩

abbrev World := InterleavedCalls.World Shared Request Await

abbrev Move := InterleavedCalls.Move Request Config.Change

end Civfix.Broadcasts
