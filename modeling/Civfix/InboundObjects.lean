import Civfix.InterleavedCalls
import Mathlib.Data.List.Dedup

/-! # Inbound mail and its objects

A run stores the attachments of a mail, inserts the row that lists them, and deletes the pending object last. A run
that loses its insert deletes what it has stored and the winner's row does not list. -/
namespace Civfix.InboundObjects

open InterleavedCalls

abbrev ObjectKey := ℕ
abbrev Raw := ℕ
abbrev MessageId := ℕ
abbrev ThreadId := ℕ
abbrev RowId := ℕ

def INBOUND_ATTACHMENT_MAX_BYTES : ℕ := 25 * 1024 * 1024
def INBOUND_ATTACHMENT_MAX_COUNT : ℕ := 50
def INBOUND_ATTACHMENT_TOTAL_MAX_BYTES : ℕ := 30 * 1024 * 1024
def INBOUND_OBJECT_MAX_BYTES : ℕ := 30 * 1024 * 1024
def INBOUND_BOUNCE_MAX_ATTEMPTS : ℕ := 6

structure Content where
  digest : ℕ
  byteLength : ℕ

/-- `filename` is the one of the key, and `size` what the mail declares. -/
structure Attachment where
  filename : ℕ
  size : ℕ
  content : Option Content

/-- `messageId` is that of `resolveMessageId`. -/
structure Mail where
  messageId : MessageId
  isBounce : Bool
  isSelfOriginated : Bool
  attachments : List Attachment

/-- What the parser makes of the bytes of an object, if it does not fail. -/
structure Mailbox where
  byteLength : Raw → ℕ
  mail : Raw → Mail

/-- The folder of one raw message in the inbox or in a thread. -/
structure Folder where
  thread : Option ThreadId
  raw : Raw
  deriving DecidableEq

structure AttachmentKey where
  folder : Folder
  digest : ℕ
  filename : ℕ
  deriving DecidableEq

/-- The attachments of `streamAttachments`, after `count` of `total` bytes. -/
def streamed (folder : Folder) : ℕ → ℕ → List Attachment → List AttachmentKey
  | _, _, [] => []
  | count, total, a :: as =>
    if INBOUND_ATTACHMENT_MAX_COUNT ≤ count then streamed folder count total as
    else if INBOUND_ATTACHMENT_MAX_BYTES < a.size then streamed folder count total as
    else match a.content with
    | none => streamed folder count total as
    | some c =>
      if INBOUND_ATTACHMENT_MAX_BYTES < c.byteLength then streamed folder count total as
      else if INBOUND_ATTACHMENT_TOTAL_MAX_BYTES < total + c.byteLength then streamed folder count total as
      else ⟨folder, c.digest, a.filename⟩ :: streamed folder (count + 1) (total + c.byteLength) as

/-- `inbound_emails` and `mail_messages`, each with a unique index on the message id. -/
inductive Table where
  | inboundEmails
  | mailMessages
  deriving DecidableEq

structure Row where
  id : RowId
  messageId : MessageId
  attachments : List AttachmentKey
  deriving DecidableEq

/-- `removed` are the objects that retention has deleted, `stored` the message ids that ever had a row. -/
structure Shared where
  arrived : List (ObjectKey × Raw)
  pending : List (ObjectKey × Raw)
  failed : List (ObjectKey × Raw)
  rows : Table → List Row
  objects : List AttachmentKey
  removed : List AttachmentKey
  stored : List MessageId
  bounceFailures : List ObjectKey
  next : RowId

namespace Shared

variable (s : Shared)

def arrive (key : ObjectKey) (raw : Raw) : Shared :=
  { s with arrived := (key, raw) :: s.arrived, pending := (key, raw) :: s.pending }

def copyFailed (key : ObjectKey) (raw : Raw) : Shared := { s with failed := (key, raw) :: s.failed }

def deletePending (key : ObjectKey) : Shared := { s with pending := s.pending.filter (fun x => decide (x.1 ≠ key)) }

def put (k : AttachmentKey) : Shared :=
  { s with objects := k :: s.objects, removed := s.removed.filter (fun k' => decide (k' ≠ k)) }

def delete (k : AttachmentKey) : Shared := { s with objects := s.objects.filter (fun k' => decide (k' ≠ k)) }

def insert (t : Table) (m : MessageId) (attachments : List AttachmentKey) : Shared :=
  { s with
    rows := Function.update s.rows t (s.rows t ++ [⟨s.next, m, attachments⟩])
    stored := m :: s.stored
    next := s.next + 1 }

def recordBounceFailure (key : ObjectKey) : Shared := { s with bounceFailures := key :: s.bounceFailures }

def clearBounceFailures (key : ObjectKey) : Shared :=
  { s with bounceFailures := s.bounceFailures.filter (fun key' => decide (key' ≠ key)) }

/-- Retention deletes an object of an archived row, and then the row. -/
def retire (k : AttachmentKey) : Shared := { s.delete k with removed := k :: s.removed }

def reap (id : RowId) : Shared :=
  { s with
    rows := Function.update s.rows .inboundEmails ((s.rows .inboundEmails).filter (fun row => decide (row.id ≠ id))) }

def find (t : Table) (m : MessageId) : Option Row := (s.rows t).find? (fun row => decide (row.messageId = m))

def get (id : RowId) : Option Row := (s.rows .inboundEmails).find? (fun row => decide (row.id = id))

end Shared

/-- `processInboundObject`, with the thread that the mail is correlated with. -/
inductive Request where
  | process (key : ObjectKey) (thread : Option ThreadId)

structure Job where
  key : ObjectKey
  folder : Folder

inductive ProcessOutcome where
  | threaded
  | inbox
  | replay
  | skipped
  | failed
  | threw

inductive Step where
  | handleBounce
  | recordBounceFailure
  | clearBounceFailures
  | recordEvent
  | applyInboundEffects
  | correlateFilingsInbox

inductive Await where
  | getObject (key : ObjectKey) (thread : Option ThreadId)
  | parse (key : ObjectKey) (raw : Raw) (thread : Option ThreadId)
  | correlateThread (key : ObjectKey) (raw : Raw) (thread : Option ThreadId)
  | findExisting (job : Job)
  | put (job : Job) (todo : List AttachmentKey)
  | insert (job : Job)
  | findStored (job : Job)
  | get (job : Job) (id : RowId)
  | discard (job : Job) (orphans : List AttachmentKey)
  | settle (job : Job) (step : Step) (outcome : ProcessOutcome)
  | putFailed (key : ObjectKey) (raw : Raw) (parked : Bool)
  | deletePending (key : ObjectKey) (raw : Raw) (outcome : ProcessOutcome) (parked : Bool)
  | clearParked (key : ObjectKey)

/-- A mail arrives under a new key, and a message is sent to a contact. -/
inductive Event where
  | arrives (key : ObjectKey) (raw : Raw)
  | sends (m : MessageId)
  | retires (k : AttachmentKey)
  | reaps (id : RowId)

abbrev Next := InterleavedCalls.Next Await ProcessOutcome
abbrev Move := InterleavedCalls.Move Request Event
abbrev World := InterleavedCalls.World Shared Request Await

def Job.table (job : Job) : Table := if job.folder.thread = none then .inboundEmails else .mailMessages

variable (box : Mailbox)

def Job.messageId (job : Job) : MessageId := (box.mail job.folder.raw).messageId

def Job.attachments (job : Job) : List AttachmentKey := streamed job.folder 0 0 (box.mail job.folder.raw).attachments

def putNext (job : Job) (todo : List AttachmentKey) : Next :=
  if todo = [] then .await (.insert job) else .await (.put job todo)

/-- A mail of the inbox is a bounce or goes on to the filings. -/
def storedNext (job : Job) (inserted : Bool) : Next :=
  match job.folder.thread, inserted with
  | none, _ =>
    .await (.settle job (if (box.mail job.folder.raw).isBounce then .handleBounce else .correlateFilingsInbox)
      (if inserted then .inbox else .replay))
  | some _, true => .await (.settle job .recordEvent .threaded)
  | some _, false => .await (.settle job .applyInboundEffects .replay)

def discardNext (job : Job) (orphans : List AttachmentKey) : Next :=
  if orphans = [] then storedNext box job false else .await (.discard job orphans)

/-- `discardUnreferenced`. -/
def orphans (job : Job) (kept : Option Row) : List AttachmentKey :=
  ((job.attachments box).filter (fun k => decide (k ∉ kept.elim [] Row.attachments))).dedup

def enter (s : Shared) : Request → Option (Shared × Await)
  | .process key thread => some (s, .getObject key thread)

def settle (s : Shared) (job : Job) (outcome : ProcessOutcome) : Step → Shared × Next
  | .handleBounce => (s, .await (.settle job .clearBounceFailures outcome))
  | .clearBounceFailures =>
    (s.clearBounceFailures job.key, .await (.deletePending job.key job.folder.raw outcome false))
  | .recordBounceFailure =>
    (s.recordBounceFailure job.key,
      if s.bounceFailures.count job.key + 1 < INBOUND_BOUNCE_MAX_ATTEMPTS then .done outcome
      else .await (.putFailed job.key job.folder.raw true))
  | .recordEvent => (s, .await (.settle job .applyInboundEffects outcome))
  | .applyInboundEffects | .correlateFilingsInbox =>
    (s, .await (.deletePending job.key job.folder.raw outcome false))

/-- The access does not fail. -/
def serve (s : Shared) : Await → Shared × Next
  | .getObject key thread =>
    match s.pending.find? (fun x => decide (x.1 = key)) with
    | none => (s, .done .skipped)
    | some x =>
      if INBOUND_OBJECT_MAX_BYTES < box.byteLength x.2 then (s, .await (.putFailed key x.2 false))
      else (s, .await (.parse key x.2 thread))
  | .parse key raw thread =>
    if (box.mail raw).isBounce then (s, putNext ⟨key, none, raw⟩ (Job.attachments box ⟨key, none, raw⟩))
    else if (box.mail raw).isSelfOriginated then (s, .await (.deletePending key raw .skipped false))
    else (s, .await (.correlateThread key raw thread))
  | .correlateThread key raw none => (s, putNext ⟨key, none, raw⟩ (Job.attachments box ⟨key, none, raw⟩))
  | .correlateThread key raw (some t) => (s, .await (.findExisting ⟨key, some t, raw⟩))
  | .findExisting job =>
    if s.find .mailMessages (job.messageId box) ≠ none then (s, storedNext box job false)
    else (s, putNext job (job.attachments box))
  | .put job [] => (s, .await (.insert job))
  | .put job (k :: todo) => (s.put k, putNext job todo)
  | .insert job =>
    if s.find job.table (job.messageId box) ≠ none then (s, .await (.findStored job))
    else (s.insert job.table (job.messageId box) (job.attachments box), storedNext box job true)
  | .findStored job =>
    match job.folder.thread, s.find job.table (job.messageId box) with
    | some _, kept => (s, discardNext box job (orphans box job kept))
    -- The row has vanished since the conflict.
    | none, none => (s, .done .threw)
    | none, some row => (s, .await (.get job row.id))
  | .get job id => (s, discardNext box job (orphans box job (s.get id)))
  | .discard job [] => (s, storedNext box job false)
  | .discard job (k :: ks) => (s.delete k, discardNext box job ks)
  | .settle job step outcome => settle s job outcome step
  | .putFailed key raw parked => (s.copyFailed key raw, .await (.deletePending key raw .failed parked))
  | .deletePending key _ outcome parked =>
    (s.deletePending key, if parked then .await (.clearParked key) else .done outcome)
  | .clearParked key => (s.clearBounceFailures key, .done .failed)

/-- What the run does when an access fails. -/
def thrown : Await → Next
  | .parse key raw _ => .await (.putFailed key raw false)
  | .settle job .handleBounce outcome => .await (.settle job .recordBounceFailure outcome)
  | .settle job .applyInboundEffects outcome => .await (.deletePending job.key job.folder.raw outcome false)
  | _ => .done .threw

/-- A failed access may have had its effect. -/
def access (s : Shared) (p : Await) : List (Shared × Next) :=
  [serve box s p, (s, thrown p), ((serve box s p).1, thrown p)]

def environment (s : Shared) : Event → Option Shared
  | .arrives key raw => if ∀ x ∈ s.arrived, x.1 ≠ key then some (s.arrive key raw) else none
  | .sends m => if ∀ row ∈ s.rows .mailMessages, row.messageId ≠ m then some (s.insert .mailMessages m []) else none
  | .retires k => if k.folder.thread = none then some (s.retire k) else none
  | .reaps id => some (s.reap id)

def machine : Machine Shared Request Await ProcessOutcome Event := ⟨enter, access box, environment⟩

def empty : Shared := ⟨[], [], [], fun _ => [], [], [], [], [], 0⟩

/-- The mail of the inbox whose attachments the run is storing or discarding. -/
def Await.storing : Await → Option Job
  | .put job _ | .insert job | .findStored job | .get job _ | .discard job _ =>
    if job.folder.thread = none then some job else none
  | _ => none

/-- Retention reaps no row while a run on a mail with the same message id stores or discards attachments. -/
def Undisturbed (w : World) (m : Move) : Prop :=
  match m with
  | .environment (.reaps id) => ∀ row ∈ w.shared.rows .inboundEmails, row.id = id →
      ∀ i < w.calls.length, ∀ c ∈ w.call i, ∀ job ∈ c.await.storing, job.messageId box ≠ row.messageId
  | _ => True

instance (w : World) (m : Move) : Decidable (Undisturbed box w m) :=
  match m with
  | .environment (.reaps id) =>
    inferInstanceAs (Decidable (∀ row ∈ w.shared.rows .inboundEmails, row.id = id → _))
  | .environment (.arrives _ _) | .environment (.sends _) | .environment (.retires _) | .start _ | .access _ _
  | .crash _ => isTrue trivial

end Civfix.InboundObjects
