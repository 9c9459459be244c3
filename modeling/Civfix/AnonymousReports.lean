import Civfix.RelationalStores
import Civfix.FilingRepository
import Mathlib.Logic.Equiv.Basic

/-! # Reports, their votes and their claim codes

The tables behind anonymous reporting and behind the votes on reports, and the transactions on them:
`createAnonReportTx` and the replay of its idempotency key, `rotatePendingClaimCode`, `claimByCode`,
`setConfirmation`, and beside them the creation of tokens, uploads and signed-in reports and the changes
that owners and operators make to a report.

A claim code rests as its digest. Two columns that the source has not are kept with a report: the code
that the last committed call handed out for it, and the accounts that have claimed it. -/
namespace Civfix.AnonymousReports

open KeyedTables LockedTransactions RelationalStores
open Filings (ReportStatus ReportId UserId Instant)

abbrev TokenId := ℕ
abbrev KeyId := ℕ
abbrev UploadId := ℕ
abbrev Code := String
abbrev Digest := String
abbrev Uploader := String

inductive Visibility | shown | hidden deriving DecidableEq
inductive ReportVote | seen | fixed deriving DecidableEq
inductive VoteChange | add | remove deriving DecidableEq
inductive MediaStatus | validating | ready | rejected deriving DecidableEq
inductive Purpose | report | post | verification deriving DecidableEq

structure Config where
  /-- `sha256Hex`. -/
  sha256Hex : Code → Digest
  /-- `ANON_TOKEN_REPORT_CAP`. -/
  reportCap : ℕ
  /-- `MEDIA_CLAIM_WINDOW_SEC`. -/
  claimWindow : ℕ
  /-- `PUBLIC_REPORT_STATUSES` and `OPEN_REPORT_STATUSES`. -/
  publicStatuses : List ReportStatus
  openStatuses : List ReportStatus

/-! ## Tables -/

structure Report where
  id : ReportId
  reporterUserId : Option UserId
  anonSessionId : Option TokenId
  idempotencyKey : KeyId
  status : ReportStatus
  visibility : Visibility
  claimCodeHash : Option Digest
  createdAt : Instant
  deletedAt : Option Instant
  confirmCount : ℕ
  fixedCount : ℕ
  handedOut : Option Code
  claimants : List UserId

structure Confirmation where
  reportId : ReportId
  userId : UserId
  kind : ReportVote

structure Token where
  id : TokenId
  reportCount : ℕ

structure Snapshot where
  key : KeyId
  userOrAnon : Option TokenId
  reportId : ReportId
  status : ReportStatus

/-- `boundElsewhere` says whether an avatar, a logo, an event or an event page binds the upload. -/
structure Media where
  uploadId : UploadId
  reportId : Option ReportId
  postId : Option ℕ
  chatMessageId : Option ℕ
  purpose : Purpose
  uploader : Option Uploader
  status : MediaStatus
  finalizedAt : Option Instant
  createdAt : Instant
  boundElsewhere : Bool

structure TimelineEntry where
  reportId : ReportId
  status : ReportStatus
  note : Option String

structure ModerationItem where
  subjectId : ReportId
  flag : String
  reason : String
  autoAction : String
  reporter : String

inductive TableName | reports | confirmations | tokens | snapshots | media | timeline | items
  deriving DecidableEq

@[reducible] def RowOf : TableName → Type
  | .reports => Report
  | .confirmations => Confirmation
  | .tokens => Token
  | .snapshots => Snapshot
  | .media => Media
  | .timeline => TimelineEntry
  | .items => ModerationItem

@[reducible] def KeyOf : TableName → Type
  | .reports => ReportId
  | .confirmations => ReportId × UserId
  | .tokens => TokenId
  | .snapshots => KeyId × Option TokenId
  | .media => UploadId
  | .timeline => ReportId × ReportStatus
  | .items => ReportId

def keyOf : ∀ t, RowOf t → KeyOf t
  | .reports, r => Report.id r
  | .confirmations, c => (Confirmation.reportId c, Confirmation.userId c)
  | .tokens, t => Token.id t
  | .snapshots, k => (Snapshot.key k, Snapshot.userOrAnon k)
  | .media, m => Media.uploadId m
  | .timeline, e => (TimelineEntry.reportId e, TimelineEntry.status e)
  | .items, i => ModerationItem.subjectId i

instance : ∀ t, DecidableEq (KeyOf t)
  | .reports | .tokens | .media | .items => inferInstanceAs (DecidableEq ℕ)
  | .confirmations => inferInstanceAs (DecidableEq (ℕ × ℕ))
  | .snapshots => inferInstanceAs (DecidableEq (ℕ × Option ℕ))
  | .timeline => inferInstanceAs (DecidableEq (ℕ × ReportStatus))

/-- What the unique indexes of `reports` hold beside the primary key. -/
inductive IndexEntry
  | idempotencyKey (k : KeyId)
  | claimCodeHash (h : Digest)
  deriving DecidableEq

def entriesOf : ∀ t, RowOf t → List IndexEntry
  | .reports, r => .idempotencyKey (Report.idempotencyKey r) :: (Report.claimCodeHash r).toList.map .claimCodeHash
  | .confirmations, _ | .tokens, _ | .snapshots, _ | .media, _ | .timeline, _ | .items, _ => []

/-- A vote is written under the lock of its report. -/
def guardsOf : ∀ t, KeyOf t → List ((t : TableName) × KeyOf t)
  | .confirmations, k => [⟨.reports, k.1⟩]
  | .reports, _ | .tokens, _ | .snapshots, _ | .media, _ | .timeline, _ | .items, _ => []

@[reducible] def schema : Schema where
  Name := TableName
  Key := KeyOf
  Row := RowOf
  key := keyOf
  Entry := IndexEntry
  entries := entriesOf
  guards := guardsOf
  Follows := fun _ _ _ => True
  follows_refl := fun _ _ => trivial
  follows_trans := fun _ _ _ _ _ _ => trivial
  decName := inferInstance
  decKey := inferInstance
  decEntry := inferInstance

abbrev Db := schema.Db
abbrev Write := schema.Write

def noRows : Db := fun t => Table.empty (keyOf t)

/-! ## Writes -/

/-- UPDATE of a report that leaves its key and the columns of its unique indexes alone. -/
def updateReport (r : ReportId) (f : Report → Report) (hid : ∀ x, (f x).id = x.id)
    (hkey : ∀ x, (f x).idempotencyKey = x.idempotencyKey)
    (hhash : ∀ x, (f x).claimCodeHash = x.claimCodeHash ∨ (f x).claimCodeHash = none) : Write :=
  .update TableName.reports r f [] hid (fun _ => trivial) (by
    intro x e he
    refine .inr ?_
    simp only [entriesOf, hkey] at he ⊢
    rcases hhash x with h | h
    · rwa [h] at he
    · rw [h] at he
      exact List.mem_cons.mpr (.inl (by simpa using he)))

/-- `SET claim_code_hash = ...`, for the code that the call hands out. -/
def rotate (cfg : Config) (r : ReportId) (code : Code) : Write :=
  .update TableName.reports r
    (fun x : Report => { x with claimCodeHash := some (cfg.sha256Hex code), handedOut := some code })
    [.claimCodeHash (cfg.sha256Hex code)] (fun _ => rfl) (fun _ => trivial) (by
      intro x e he
      simp only [entriesOf, Option.toList_some, List.map_cons, List.map_nil, List.mem_cons, List.not_mem_nil,
        or_false] at he ⊢
      rcases he with rfl | rfl
      · exact .inr (.inl rfl)
      · exact .inl rfl)

/-- `SET reporter_user_id = ..., claim_code = NULL, claim_code_hash = NULL`. -/
def link (r : ReportId) (user : UserId) : Write :=
  updateReport r (fun x => { x with reporterUserId := some user, claimCodeHash := none, claimants := user :: x.claimants })
    (fun _ => rfl) (fun _ => rfl) (fun _ => .inr rfl)

/-- `GREATEST(count + delta, 0)`. -/
def addFloored (count : ℕ) (delta : ℤ) : ℕ := (max ((count : ℤ) + delta) 0).toNat

def addCounts (r : ReportId) (seen fixed : ℤ) : Write :=
  updateReport r (fun x => { x with confirmCount := addFloored x.confirmCount seen, fixedCount := addFloored x.fixedCount fixed })
    (fun _ => rfl) (fun _ => rfl) (fun _ => .inl rfl)

/-- What an owner, an operator or the release of a held report changes. -/
inductive ReportChange
  | status (st : ReportStatus)
  | visibility (v : Visibility)
  | delete (now : Instant)

def ReportChange.apply : ReportChange → Report → Report
  | .status st, r => { r with status := st }
  | .visibility v, r => { r with visibility := v }
  | .delete now, r => { r with deletedAt := some (r.deletedAt.getD now) }

def change (r : ReportId) (c : ReportChange) : Write :=
  updateReport r c.apply (fun _ => by cases c <;> rfl) (fun _ => by cases c <;> rfl)
    (fun _ => .inl (by cases c <;> rfl))

def insertReport (r : Report) : Write := .insert TableName.reports r trivial

/-- `INSERT ... ON CONFLICT (report_id, user_id) DO UPDATE SET kind = EXCLUDED.kind`. -/
def putVote (r : ReportId) (user : UserId) (kind : ReportVote) : Write where
  name := TableName.confirmations
  key := (r, user)
  change := fun _ => some ⟨r, user, kind⟩
  moves := []
  keyed := fun _ _ _ hy => Option.some.inj hy ▸ rfl
  follows := fun _ => trivial
  moved := fun _ _ _ _ he => nomatch he

def deleteVote (r : ReportId) (user : UserId) : Write := .delete TableName.confirmations (r, user) (fun _ => trivial)

def insertToken (id : TokenId) : Write := .insert TableName.tokens (⟨id, 0⟩ : Token) trivial

def bumpToken (id : TokenId) : Write :=
  .update TableName.tokens id (fun t : Token => { t with reportCount := t.reportCount + 1 }) [] (fun _ => rfl)
    (fun _ => trivial) (fun _ _ he => nomatch he)

def insertSnapshot (k : Snapshot) : Write := .insert TableName.snapshots k trivial

def insertMedia (m : Media) : Write := .insert TableName.media m trivial

def attach (u : UploadId) (r : ReportId) : Write :=
  .update TableName.media u (fun m : Media => { m with reportId := some r }) [] (fun _ => rfl) (fun _ => trivial)
    (fun _ _ he => nomatch he)

def insertTimeline (e : TimelineEntry) : Write := .insert TableName.timeline e trivial

def insertItem (i : ModerationItem) : Write := .insert TableName.items i trivial

/-! ## Transactions -/

inductive Refusal
  | rateLimited | keyRace | mediaUnavailable | unclaimable | uniqueViolation

inductive VoteOutcome
  | applied (confirmCount fixedCount : ℕ) (vote : Option ReportVote)
  | notFound | forbidden | closed

inductive Outcome
  | done
  | created (reportId : ReportId) (claimCode : Code)
  | noSnapshot
  | replayed (reportId : ReportId) (status : ReportStatus) (claimCode : Code)
  | nudged (reportId : ReportId) (claimCode : Code)
  | noPending
  | claimed (reportId : ReportId)
  | unknownCode
  | vote (v : VoteOutcome)

abbrev Transaction := schema.Transaction Refusal

def lockRow (t : TableName) (k : KeyOf t) : schema.Lock := .row ⟨t, k⟩

/-- INSERT that throws `e` when the key or a unique index is taken. -/
def insertOr (w : Write) (e : Refusal) : Transaction Unit := do
  if ← Schema.insertRow w then pure () else .abort e

structure CreateAnonReportTxArgs where
  reportId : ReportId
  anonSessionId : TokenId
  idempotencyKey : KeyId
  mediaUploadIds : List UploadId
  mediaUploaders : List Uploader
  claimCode : Code
  now : Instant

/-- `SET report_count = report_count + 1 WHERE id = ... AND report_count < cap`. -/
def consumeTokenQuota (cfg : Config) (a : CreateAnonReportTxArgs) : Transaction Unit := do
  let bumped ← Schema.updateFound
    (fun s => ((s TableName.tokens).find? a.anonSessionId).filter (fun t => decide (t.reportCount < cfg.reportCap)))
    (fun t => bumpToken t.id)
  if bumped.isSome then pure () else .abort .rateLimited

def CreateAnonReportTxArgs.report (cfg : Config) (a : CreateAnonReportTxArgs) : Report where
  id := a.reportId
  reporterUserId := none
  anonSessionId := some a.anonSessionId
  idempotencyKey := a.idempotencyKey
  status := .held
  visibility := .shown
  claimCodeHash := some (cfg.sha256Hex a.claimCode)
  createdAt := a.now
  deletedAt := none
  confirmCount := 0
  fixedCount := 0
  handedOut := some a.claimCode
  claimants := []

def insertHeldReport (cfg : Config) (a : CreateAnonReportTxArgs) : Transaction Unit :=
  insertOr (insertReport (a.report cfg)) .keyRace

/-- `claimableAsReportMedia` with what the UPDATE tests beside it. -/
def Media.Claimable (cfg : Config) (a : CreateAnonReportTxArgs) (m : Media) : Prop :=
  (m.reportId = none ∨ m.reportId = some a.reportId) ∧ m.postId = none ∧ m.chatMessageId = none ∧ m.purpose = .report ∧
    m.boundElsewhere = false ∧ a.now < m.createdAt + cfg.claimWindow ∧ (∀ u ∈ m.uploader, u ∈ a.mediaUploaders) ∧
    (m.status = .ready ∨ m.status = .validating ∧ m.finalizedAt ≠ none)

instance (cfg : Config) (a : CreateAnonReportTxArgs) (m : Media) : Decidable (m.Claimable cfg a) :=
  inferInstanceAs (Decidable ((_ ∨ _) ∧ _ ∧ _ ∧ _ ∧ _ ∧ _ ∧ (∀ u ∈ m.uploader, _) ∧ _))

/-- `lockUploadsForClaimIn`. -/
def lockUploadsForClaimIn (uploadIds : List UploadId) : Transaction Unit :=
  Tx.selectFor (fun s => (uploadIds.filter (fun u => ((s TableName.media).find? u).isSome)).map (lockRow .media))
    (fun _ => ())

/-- The uploads that the UPDATE would match. -/
def claimableUploads (cfg : Config) (a : CreateAnonReportTxArgs) (s : Db) : List UploadId :=
  a.mediaUploadIds.dedup.filter (fun u => ((s TableName.media).find? u).any (fun m => decide (m.Claimable cfg a)))

def attachReportMedia (cfg : Config) (a : CreateAnonReportTxArgs) : Transaction Unit :=
  if a.mediaUploadIds = [] then pure ()
  else do
    lockUploadsForClaimIn a.mediaUploadIds
    let claimed ← Schema.dml (fun s => (claimableUploads cfg a s).map (fun u => attach u a.reportId))
      (fun s => (claimableUploads cfg a s).length)
    if claimed ≠ a.mediaUploadIds.dedup.length then .abort .mediaUnavailable else pure ()

def insertInitialTimeline (a : CreateAnonReportTxArgs) : Transaction Unit := do
  insertOr (insertTimeline ⟨a.reportId, .submitted, none⟩) .keyRace
  insertOr (insertTimeline ⟨a.reportId, .held, some "Awaiting automated review"⟩) .keyRace

def insertModerationItem (a : CreateAnonReportTxArgs) : Transaction Unit :=
  insertOr (insertItem ⟨a.reportId, "Held report", "Awaiting automated review", "Hidden pending review",
    "Anonymous"⟩) .keyRace

def persistIdempotencySnapshot (a : CreateAnonReportTxArgs) : Transaction Unit :=
  insertOr (insertSnapshot ⟨a.idempotencyKey, some a.anonSessionId, a.reportId, .held⟩) .keyRace

/-- Any unique violation is answered as the race of the idempotency key. -/
def createAnonReportTx (cfg : Config) (a : CreateAnonReportTxArgs) : Transaction Outcome := do
  consumeTokenQuota cfg a
  insertHeldReport cfg a
  attachReportMedia cfg a
  insertInitialTimeline a
  insertModerationItem a
  persistIdempotencySnapshot a
  pure (.created a.reportId a.claimCode)

/-- The row is not claimed and not removed, and a code of it is open. -/
def Report.Pending (token : TokenId) (r : Report) : Prop :=
  r.anonSessionId = some token ∧ r.reporterUserId = none ∧ r.deletedAt = none ∧ r.claimCodeHash ≠ none

instance (token : TokenId) (r : Report) : Decidable (r.Pending token) := inferInstanceAs (Decidable (_ ∧ _ ∧ _ ∧ _))

/-- `UPDATE reports SET claim_code_hash = ... WHERE id = ...`, of a row that is pending for the session. -/
def rotateIfPending (cfg : Config) (r : ReportId) (token : Option TokenId) (code : Code) :
    Transaction (Option ReportId) := do
  match ← Schema.updateFound
      (fun s => ((s TableName.reports).find? r).filter (fun x => decide (∃ t ∈ token, x.Pending t)))
      (fun x => rotate cfg x.id code) with
  | none => pure none
  | some (x, true) => pure (some x.id)
  | some (_, false) => .abort .uniqueViolation

/-- The SELECT and the UPDATE commit one by one; only the UPDATE writes. -/
def replaySnapshot (cfg : Config) (key : KeyId) (userOrAnon : Option TokenId) (newCode : Code) :
    Transaction Outcome := do
  match ← Tx.select (fun s => (s TableName.snapshots).find? (key, userOrAnon)) with
  | none => pure .noSnapshot
  | some stored =>
    match ← rotateIfPending cfg stored.reportId userOrAnon newCode with
    | none => .abort .unclaimable
    | some r => pure (.replayed r stored.status newCode)

/-- The session's pending reports, the latest first. -/
def pendingReports (s : Db) (token : TokenId) : List ReportId :=
  (((s TableName.reports).rows.filter (fun r => decide (r.Pending token))).mergeSort
    (fun a b => decide (b.createdAt ≤ a.createdAt))).map Report.id

/-- `LIMIT 1 FOR UPDATE`: the first of the rows found that is still pending once it is locked. -/
def lockFirstPending (token : TokenId) : List ReportId → Transaction (Option ReportId)
  | [] => pure none
  | r :: rs => do
    if ← Tx.selectFor (fun _ => [lockRow .reports r])
        (fun s => ((s TableName.reports).find? r).any (fun x => decide (x.Pending token))) then pure (some r)
    else lockFirstPending token rs

def rotatePendingClaimCode (cfg : Config) (token : TokenId) (code : Code) : Transaction Outcome := do
  match ← lockFirstPending token (← Tx.select (fun s => pendingReports s token)) with
  | none => pure .noPending
  | some r =>
    match ← rotateIfPending cfg r (some token) code with
    | none => pure .noPending
    | some r => pure (.nudged r code)

/-- The row that the code opens. -/
def claimable (s : Db) (claimCodeHash : Digest) : Option Report :=
  (s TableName.reports).rows.find? (fun r => decide (r.claimCodeHash = some claimCodeHash ∧ r.reporterUserId = none ∧
    r.deletedAt = none))

/-- A vote is for someone else's report: the claimant's own goes, with the count it added. -/
def dropVote (r : ReportId) (user : UserId) : Transaction Unit := do
  let kind ← Schema.dml (fun s => ((s TableName.confirmations).find? (r, user)).toList.map (fun _ => deleteVote r user))
    (fun s => ((s TableName.confirmations).find? (r, user)).map Confirmation.kind)
  match kind with
  | some .seen => Schema.dml (fun _ => [addCounts r (-1) 0]) (fun _ => ())
  | some .fixed => Schema.dml (fun _ => [addCounts r 0 (-1)]) (fun _ => ())
  | none => pure ()

def claimByCode (cfg : Config) (claimCode : Code) (user : UserId) : Transaction Outcome := do
  match ← Schema.updateFound (fun s => claimable s (cfg.sha256Hex claimCode)) (fun x => link x.id user) with
  | none => pure .unknownCode
  | some (report, _) =>
    dropVote report.id user
    pure (.claimed report.id)

inductive ConfirmationVerdict | allowed | notFound | forbidden | closed

def confirmationVerdict (cfg : Config) (report : Report) (user : UserId) (c : VoteChange) : ConfirmationVerdict :=
  if report.deletedAt ≠ none then .notFound
  else if report.status ∉ cfg.publicStatuses ∨ report.visibility ≠ .shown then .notFound
  else if report.reporterUserId = some user then .forbidden
  else if c = .add ∧ report.status ∉ cfg.openStatuses then .closed
  else .allowed

/-- The vote that the change leaves. -/
def voteAfter (vote : ReportVote) (before : Option ReportVote) : VoteChange → Option ReportVote
  | .add => some vote
  | .remove => if before = some vote then none else before

/-- What the change adds to the count of one kind. -/
def delta (before after : Option ReportVote) (kind : ReportVote) : ℤ :=
  (if after = some kind then 1 else 0) - (if before = some kind then 1 else 0)

def writeVote (r : ReportId) (user : UserId) : Option ReportVote → Write
  | none => deleteVote r user
  | some kind => putVote r user kind

def setConfirmation (cfg : Config) (r : ReportId) (user : UserId) (vote : ReportVote) (c : VoteChange) :
    Transaction Outcome := do
  match ← Tx.selectFor (fun _ => [lockRow .reports r]) (fun s => (s TableName.reports).find? r) with
  | none => pure (.vote .notFound)
  | some row =>
    match confirmationVerdict cfg row user c with
    | .notFound => pure (.vote .notFound)
    | .forbidden => pure (.vote .forbidden)
    | .closed => pure (.vote .closed)
    | .allowed =>
      let before ← Tx.select (fun s => ((s TableName.confirmations).find? (r, user)).map Confirmation.kind)
      let after := voteAfter vote before c
      if after = before then pure (.vote (.applied row.confirmCount row.fixedCount before))
      else
        Schema.dml (fun _ => [writeVote r user after]) (fun _ => ())
        Schema.dml (fun _ => [addCounts r (delta before after .seen) (delta before after .fixed)]) (fun _ => ())
        pure (.vote (.applied (addFloored row.confirmCount (delta before after .seen))
          (addFloored row.fixedCount (delta before after .fixed)) after))

inductive Operation
  | issueToken (id : TokenId)
  | recordUpload (m : Media)
  | createReport (id : ReportId) (reporter : UserId) (key : KeyId) (status : ReportStatus) (now : Instant)
  | changeReport (id : ReportId) (c : ReportChange)
  | createAnonReportTx (a : CreateAnonReportTxArgs)
  | findIdempotentSnapshot (key : KeyId) (userOrAnon : Option TokenId) (newCode : Code)
  | rotatePendingClaimCode (token : TokenId) (newCode : Code)
  | claimByCode (claimCode : Code) (user : UserId)
  | setConfirmation (id : ReportId) (user : UserId) (vote : ReportVote) (c : VoteChange)

/-- The row of a report that an account files. -/
def signedInReport (id : ReportId) (reporter : UserId) (key : KeyId) (status : ReportStatus) (now : Instant) :
    Report where
  id := id
  reporterUserId := some reporter
  anonSessionId := none
  idempotencyKey := key
  status := status
  visibility := .shown
  claimCodeHash := none
  createdAt := now
  deletedAt := none
  confirmCount := 0
  fixedCount := 0
  handedOut := none
  claimants := []

def program (cfg : Config) : Operation → Transaction Outcome
  | .issueToken id => do insertOr (insertToken id) .uniqueViolation; pure .done
  | .recordUpload m => do insertOr (insertMedia { m with reportId := none }) .uniqueViolation; pure .done
  | .createReport id reporter key status now => do
    insertOr (insertReport (signedInReport id reporter key status now)) .uniqueViolation; pure .done
  | .changeReport id c => do Schema.dml (fun _ => [change id c]) (fun _ => ()); pure .done
  | .createAnonReportTx a => createAnonReportTx cfg a
  | .findIdempotentSnapshot key userOrAnon newCode => replaySnapshot cfg key userOrAnon newCode
  | .rotatePendingClaimCode token newCode => rotatePendingClaimCode cfg token newCode
  | .claimByCode code user => claimByCode cfg code user
  | .setConfirmation id user vote c => setConfirmation cfg id user vote c

/-! ## A configuration -/

/-- Two codes and their digests. -/
def firstCode : Code := "q3Zr1vXb0mT8yLwK5uNcE7hPjA2sGdFo4iRt6eYxWlQ"

def firstDigest : Digest := "0e6edd0ad8d149e2cb3d054f155ef3e771e3d93afd57da7db703b436f92f608b"

def secondCode : Code := "H9fVn2Bk7sQxD0wYpZt4uLaRcM6gJoE1iTy8vNqXe3s"

def secondDigest : Digest := "5b40cbf2fcafe37f0dcb18195221a9651c1d26ee2f427feb69c1f66340e60c23"

/-- A one-to-one function with these two values. -/
def twoDigests : Code ≃ Digest := (Equiv.swap firstCode firstDigest).trans (Equiv.swap secondCode secondDigest)

def Config.sample : Config where
  sha256Hex := twoDigests
  reportCap := 5
  claimWindow := 86400
  publicStatuses := [.published, .acknowledged, .inProgress, .resolved]
  openStatuses := [.published, .acknowledged, .inProgress]

def sampleArgs : CreateAnonReportTxArgs where
  reportId := 1
  anonSessionId := 4
  idempotencyKey := 9
  mediaUploadIds := [6]
  mediaUploaders := ["anon:4"]
  claimCode := firstCode
  now := 100

def sampleUpload : Media where
  uploadId := 6
  reportId := none
  postId := none
  chatMessageId := none
  purpose := .report
  uploader := some "anon:4"
  status := .ready
  finalizedAt := some 90
  createdAt := 80
  boundElsewhere := false

/-- A token, its upload, and a report of both. -/
def filed : List Operation := [.issueToken 4, .recordUpload sampleUpload, .createAnonReportTx sampleArgs]

abbrev World := Engine.World Db Write schema.Lock Refusal Operation Outcome

/-- The databases of every interleaving from the empty one. -/
def Reachable (cfg : Config) (w : World) : Prop := Engine.Reachable schema.engine (program cfg) (fun s => s = noRows) w

/-- What the operations leave when they run one after the other. -/
def afterAll (cfg : Config) (os : List Operation) : Db :=
    os.foldl (fun s o => (schema.engine.exec (program cfg o) s).2) noRows

theorem reachable_afterAll (cfg : Config) (os : List Operation) : Reachable cfg (.quiet (afterAll cfg os)) := by
  have hinit : Reachable cfg (.quiet noRows) := .init noRows rfl
  exact Engine.Reachable.serial hinit os

end Civfix.AnonymousReports
