import Civfix.AttendanceLocks
import Mathlib.Data.List.Dedup
import Mathlib.Data.List.Sort

/-! # Registration transactions

The bodies of `registerTx` and `registerWalkupTx`, with the standalone sign-up paths
`joinCleanupTx` and `claimSlot` that put a user into an event without a ticket type. One
`statement` is one SQL statement; seats, answers and consent rows are left out, since
nothing here reads them back. Ids that `gen_random_uuid` draws and the database clock are
arguments. `hasEventEnded` comes from the shared contract package and is a parameter. -/
namespace Civfix.Attendance

open KeyedTables LockedTransactions

inductive Constraint where
  | primaryKey | foreignKey | activeRegistration | activeWaitlist | idempotencyKeyScopeOwner
  | partyBounds | ticketTypeName | ticketTypeChecks
  deriving DecidableEq

inductive RegisterTxOutcome where
  | registered (registration : Registration)
  | replayed (registration : Option Registration)
  | notFound | closed | registrationClosed | banned | alreadyRegistered | ticketTypeNotFound
  | accessCodeRequired | accessCodeInvalid | partyTooLarge | salesClosed | full
  deriving DecidableEq

inductive ClaimWaitlistOutcome where
  | claimed (registration : Registration)
  | notFound | notOffered | expired

/-- What rolls a transaction back: a thrown refusal, an `AppError`, or a constraint. -/
inductive Failure where
  | registrationRefusal (outcome : RegisterTxOutcome)
  | claimRefusal (outcome : ClaimWaitlistOutcome)
  | notFound (message : String)
  | conflict (message : String)
  | internal (message : String)
  | violation (constraint : Constraint)

abbrev Stmt := Tx Db Write Lock Failure

/-- One SQL statement: the rows it selects `FOR`, the rows it writes, what it returns. -/
def statement {α : Type} (locks : Db → List Lock) (writes : Db → List Write) (returning : Db → α) : Stmt α :=
  .stmt (fun s => locks s ++ (writes s).flatMap Write.rowLocks) writes (fun s => .commit (returning s))

def select {α : Type} (f : Db → α) : Stmt α := statement (fun _ => []) (fun _ => []) f

def selectFor {α : Type} (locks : Db → List Lock) (f : Db → α) : Stmt α := statement locks (fun _ => []) f

def modifying (writes : Db → List Write) : Stmt Unit := statement (fun _ => []) writes (fun _ => ())

/-- How an INSERT ends: the row goes in, `ON CONFLICT DO NOTHING`, or a violation. -/
inductive InsertCheck | ok | ignored | violated (constraint : Constraint) deriving DecidableEq

/-- An INSERT is judged once the index entries it needs are free. -/
def inserting (check : Db → InsertCheck) (write : Write) : Stmt Unit :=
  .stmt (fun _ => write.rowLocks) (fun s => if check s = .ok then [write] else [])
    (fun s => match check s with
      | .violated c => .abort (.violation c)
      | .ok | .ignored => .commit ())

/-- A gate ends the call with its refusal. -/
def unlessRefused {α : Type} (gate : Stmt (Option α)) (k : Stmt α) : Stmt α := do
  match ← gate with
  | some r => pure r
  | none => k

/-! ## Constraints on inserted rows -/

namespace Db

def HasType (s : Db) (cleanupId ticketTypeId : Id) : Prop :=
  ∃ t ∈ s.ticketTypes.find? ticketTypeId, t.cleanupId = cleanupId

instance (s : Db) (c t : Id) : Decidable (s.HasType c t) := inferInstanceAs (Decidable (∃ t ∈ _, _))

def ActiveRegistration (s : Db) (cleanupId : Id) (subject : Subject) : Prop :=
  ∃ r ∈ s.registrations.rows, r.cleanupId = cleanupId ∧ r.subject = subject ∧ r.status = .registered

instance (s : Db) (c : Id) (x : Subject) : Decidable (s.ActiveRegistration c x) :=
  inferInstanceAs (Decidable (∃ r ∈ _, _))

def ActiveWaitlist (s : Db) (ticketTypeId : Id) (subject : Subject) : Prop :=
  ∃ w ∈ s.waitlist.rows, w.ticketTypeId = ticketTypeId ∧ w.subject = subject ∧ w.Active

instance (s : Db) (t : Id) (x : Subject) : Decidable (s.ActiveWaitlist t x) :=
  inferInstanceAs (Decidable (∃ w ∈ _, _))

def checkRegistration (r : Registration) (s : Db) : InsertCheck :=
  if (s.registrations.find? r.id).isSome then .violated .primaryKey
  else if ¬ ∀ t ∈ r.ticketTypeId, s.HasType r.cleanupId t then .violated .foreignKey
  else if s.ActiveRegistration r.cleanupId r.subject then .violated .activeRegistration
  else if r.partySize < 1 ∨ 10 < r.partySize then .violated .partyBounds
  else .ok

def checkWaitlist (w : WaitlistEntry) (s : Db) : InsertCheck :=
  if (s.waitlist.find? w.id).isSome then .violated .primaryKey
  else if ¬ s.HasType w.cleanupId w.ticketTypeId then .violated .foreignKey
  else if s.ActiveWaitlist w.ticketTypeId w.subject then .violated .activeWaitlist
  else if w.partySize < 1 ∨ 10 < w.partySize then .violated .partyBounds
  else .ok

end Db

/-! ## `registerIn` -/

structure RegisterTxArgs where
  cleanupId : Id
  subject : Subject
  ticketTypeId : Option Id
  /-- The number of seat drafts, which is the party size. -/
  seats : ℕ
  accessCodeHash : Option String
  slotId : Option Id
  source : RegistrationSource
  idempotencyKey : String
  idempotencyOwner : Option String
  waitlistId : Option Id
  now : Instant
  /-- Drawn by the database for the new row. -/
  registrationId : Id

def subjectOwner : Subject → String
  | .user userId => "user:" ++ toString userId
  | .guest guestId => "guest:" ++ toString guestId

def isEventPubliclyVisible (v : EventVisibility) : Bool := v = .public || v = .unlisted

def guestSelfRegistrationOnPrivateEvent (args : RegisterTxArgs) (visibility : EventVisibility) : Bool :=
  match args.subject with
  | .guest _ => args.source = .self && !isEventPubliclyVisible visibility
  | .user _ => false

def withinSalesWindow (now : Instant) (opensAt closesAt : Option Instant) : Bool :=
  opensAt.all (· ≤ now) && closesAt.all (now < ·)

def idempotencyOwnerOf (args : RegisterTxArgs) : String := args.idempotencyOwner.getD (subjectOwner args.subject)

/-- `SELECT ... FROM cleanups ... FOR`. A missing row is locked by its id: its body then ends
without a write. -/
def lockEvent (mode : LockMode) (cleanupId : Id) : Stmt (Option Event) :=
  selectFor (fun _ => [⟨.event cleanupId, mode⟩]) (fun s => s.events.find? cleanupId)

def isBannedIn (cleanupId userId : Id) : Stmt Bool := select (fun s => s.isBanned cleanupId userId)

def subjectBanned (cleanupId : Id) : Subject → Stmt Bool
  | .user userId => isBannedIn cleanupId userId
  | .guest _ => pure false

def loadRegistrationById (cleanupId registrationId : Id) : Stmt (Option Registration) :=
  select (fun s => (s.registrations.find? registrationId).filter (fun r => r.cleanupId = cleanupId))

def lockRegisterIdempotency (args : RegisterTxArgs) : Stmt Unit :=
  selectFor (fun _ => [⟨.registerIdempotency (idempotencyOwnerOf args) args.idempotencyKey, .update⟩]) (fun _ => ())

def findRegisterSnapshot (args : RegisterTxArgs) : Stmt (Option Id) :=
  select (fun s => (s.idempotencyKeys.find? (idempotencyOwnerOf args, args.idempotencyKey)).map (·.registrationId))

def replayOf (args : RegisterTxArgs) (registrationId : Id) : Stmt RegisterTxOutcome := do
  return .replayed (← loadRegistrationById args.cleanupId registrationId)

def eventGateRefusal (event : Event) (args : RegisterTxArgs) : Stmt (Option RegisterTxOutcome) :=
  if event.status = .cancelled then pure (some .closed)
  else if !withinSalesWindow args.now event.registrationOpensAt event.registrationClosesAt then
    pure (some .registrationClosed)
  else do
    let banned ← subjectBanned args.cleanupId args.subject
    if banned then pure (some .banned)
    else do
      let active ← select (fun s => decide (s.ActiveRegistration args.cleanupId args.subject))
      pure (if active then some .alreadyRegistered else none)

/-- `ORDER BY sort_order, id`. -/
def Db.ticketTypesOf (s : Db) (cleanupId : Id) : List TicketType :=
  (s.ticketTypes.rows.filter (fun t => t.cleanupId = cleanupId)).insertionSort
    (fun a b => a.sortOrder < b.sortOrder ∨ (a.sortOrder = b.sortOrder ∧ a.id ≤ b.id))

/-- A refusal, or the ticket type to seat the party in (none when the event has none). -/
def selectTicketType (types : List TicketType) (args : RegisterTxArgs) :
    Except RegisterTxOutcome (Option TicketType) :=
  match args.ticketTypeId with
  | none => if 1 < types.length then .error .ticketTypeNotFound else hiddenGate types.head?
  | some id =>
    match types.find? (fun t => t.id = id) with
    | none => .error .ticketTypeNotFound
    | some t => hiddenGate (some t)
where
  hiddenGate : Option TicketType → Except RegisterTxOutcome (Option TicketType)
    | none => .ok none
    | some t => if t.visibility = .hidden ∧ args.source = .self then .error .ticketTypeNotFound else .ok (some t)

def pickTicketType (args : RegisterTxArgs) : Stmt (Except RegisterTxOutcome (Option TicketType)) :=
  select (fun s => selectTicketType (s.ticketTypesOf args.cleanupId) args)

def accessCodeRefusal (ticketType : TicketType) (accessCodeHash : Option String) : Option RegisterTxOutcome :=
  match accessCodeHash with
  | none => some .accessCodeRequired
  | some h => if ticketType.accessCodeHash = some h then none else some .accessCodeInvalid

def ticketTypeGateRefusal (ticketType : TicketType) (args : RegisterTxArgs) (partySize : ℕ) :
    Option RegisterTxOutcome :=
  (if ticketType.visibility = .accessCode ∧ args.waitlistId = none then
    accessCodeRefusal ticketType args.accessCodeHash else none).or
  (if ticketType.maxPartySize < partySize then some .partyTooLarge
  else if args.waitlistId = none ∧ !withinSalesWindow args.now ticketType.salesOpensAt ticketType.salesClosesAt then
    some .salesClosed
  else none)

/-- The WHERE clause of the seat-taking UPDATE in `reserveCapacity`. -/
def reservable (args : RegisterTxArgs) (ticketTypeId : Id) (partySize : ℕ) (s : Db) : Bool :=
  (s.ticketTypes.find? ticketTypeId).any fun t =>
    t.cleanupId = args.cleanupId && partySize ≤ t.maxPartySize &&
      withinSalesWindow args.now t.salesOpensAt t.salesClosesAt &&
      t.capacity.all (t.reservedSeats + partySize ≤ ·)

def reserveCapacity (args : RegisterTxArgs) (eventCapacity : Option ℕ) (ticketType : Option TicketType)
    (partySize : ℕ) : Stmt (Option RegisterTxOutcome) :=
  match args.waitlistId, ticketType, eventCapacity with
  | some _, _, _ => pure none
  | none, none, none => pure none
  | none, none, some capacity => do
    selectFor (fun _ => [⟨.eventCapacity args.cleanupId, .update⟩]) (fun _ => ())
    let held ← select (fun s => s.registrations.total
      (fun r => if r.cleanupId = args.cleanupId ∧ r.status = .registered then r.partySize else 0))
    pure (if capacity < held + partySize then some .full else none)
  | none, some t, _ => do
    let reserved ← statement (fun _ => [])
      (fun s => if reservable args t.id partySize s then [.reserveSeats t.id partySize] else [])
      (fun s => reservable args t.id partySize s)
    if reserved then pure none else .abort (.registrationRefusal .full)

/-- The slot row is locked before its claims are counted; a refusal rolls the registration back. -/
def claimSlotIn (cleanupId userId slotId : Id) : Stmt Unit := do
  let slot ← lockSlot cleanupId slotId
  match slot with
  | none => .abort (.notFound "That slot no longer exists.")
  | some slot => do
    let mine ← select (fun s => (s.slotClaims.find? (cleanupId, userId)).map (·.slotId))
    if mine = some slotId then pure ()
    else do
      let full ← slotFull slot
      if full then .abort (.conflict "That slot is already full.")
      else modifying (fun _ => [.claimSlot cleanupId userId slotId])
where
  lockSlot (cleanupId slotId : Id) : Stmt (Option Slot) :=
    selectFor (fun _ => [⟨.slot slotId, .update⟩])
      (fun s => (s.slots.find? slotId).filter (fun x => x.cleanupId = cleanupId))
  slotFull (slot : Slot) : Stmt Bool :=
    match slot.capacity with
    | none => pure false
    | some capacity => select (fun s =>
        capacity ≤ (s.slotClaims.rows.filter (fun c => c.slotId = slot.id)).length)

def claimSlotOf (args : RegisterTxArgs) : Stmt Unit :=
  match args.slotId, args.subject with
  | some slotId, .user userId => claimSlotIn args.cleanupId userId slotId
  | _, _ => pure ()

def registrationRow (args : RegisterTxArgs) (ticketTypeId : Option Id) : Registration where
  id := args.registrationId
  cleanupId := args.cleanupId
  ticketTypeId := ticketTypeId
  subject := args.subject
  partySize := args.seats
  status := .registered
  source := args.source
  registeredAt := args.now
  cancelledAt := none
  cancelledBy := none

/-- `ON CONFLICT (cleanup_id, user_id) DO NOTHING`. -/
def insertMember (cleanupId : Id) : Subject → Stmt Unit
  | .user userId => modifying (fun _ => [.insertMember ⟨cleanupId, userId, .member⟩])
  | .guest _ => pure ()

def insertRegistrationRows (args : RegisterTxArgs) (ticketTypeId : Option Id) : Stmt Unit := do
  insertMember args.cleanupId args.subject
  let row := registrationRow args ticketTypeId
  inserting (Db.checkRegistration row) (.insertRegistration row)

def linkWaitlistEntry (args : RegisterTxArgs) : Stmt Unit :=
  match args.waitlistId with
  | none => pure ()
  | some waitlistId => modifying fun s =>
      if (s.waitlist.find? waitlistId).any (fun w => w.cleanupId = args.cleanupId && w.status = .claimed) then
        [.linkWaitlist waitlistId args.registrationId]
      else []

def recordRegisterIdempotency (args : RegisterTxArgs) : Stmt Unit :=
  inserting
    (fun s => if (s.idempotencyKeys.find? (idempotencyOwnerOf args, args.idempotencyKey)).isSome then
      .violated .idempotencyKeyScopeOwner else .ok)
    (.insertIdempotencyKey ⟨idempotencyOwnerOf args, args.idempotencyKey, args.registrationId⟩)

/-- The writes of a registration whose gates have passed and whose seats are taken. -/
def seatParty (args : RegisterTxArgs) (ticketTypeId : Option Id) : Stmt RegisterTxOutcome := do
  claimSlotOf args
  insertRegistrationRows args ticketTypeId
  linkWaitlistEntry args
  recordRegisterIdempotency args
  match ← loadRegistrationById args.cleanupId args.registrationId with
  | some registration => pure (.registered registration)
  | none => .abort (.internal "registration reload returned no row")

def registerIn (args : RegisterTxArgs) : Stmt RegisterTxOutcome := do
  lockRegisterIdempotency args
  match ← lockEvent .share args.cleanupId with
  | none => pure .notFound
  | some event =>
    if guestSelfRegistrationOnPrivateEvent args event.visibility then pure .notFound
    else do
      match ← findRegisterSnapshot args with
      | some registrationId => replayOf args registrationId
      | none =>
        unlessRefused (eventGateRefusal event args) do
          match ← pickTicketType args with
          | .error refusal => pure refusal
          | .ok ticketType =>
            unlessRefused (pure (ticketType.bind (ticketTypeGateRefusal · args args.seats))) <|
            unlessRefused (reserveCapacity args event.capacity ticketType args.seats) <|
            seatParty args (ticketType.map (·.id))

structure WalkupRegisterArgs where
  cleanupId : Id
  ticketTypeId : Option Id
  seats : ℕ
  idempotencyKey : String
  idempotencyOwner : Option String
  now : Instant
  guestId : Id
  registrationId : Id

def insertGuest (guestId cleanupId : Id) : Stmt Unit :=
  inserting (fun s => if (s.guests.find? guestId).isSome then .violated .primaryKey else .ok)
    (.insertGuest ⟨guestId, cleanupId, none⟩)

def walkupRegisterArgs (args : WalkupRegisterArgs) : RegisterTxArgs where
  cleanupId := args.cleanupId
  subject := .guest args.guestId
  ticketTypeId := args.ticketTypeId
  seats := args.seats
  accessCodeHash := none
  slotId := none
  source := .walkup
  idempotencyKey := args.idempotencyKey
  idempotencyOwner := args.idempotencyOwner
  waitlistId := none
  now := args.now
  registrationId := args.registrationId

/-- Checking the seats in touches no modelled row. -/
def registerWalkupTx (args : WalkupRegisterArgs) : Stmt RegisterTxOutcome := do
  insertGuest args.guestId args.cleanupId
  match ← registerIn (walkupRegisterArgs args) with
  | .registered registration => pure (.registered registration)
  | outcome => .abort (.registrationRefusal outcome)

/-! ## Sign-ups without a ticket type -/

inductive JoinRefusal | notFound | closed | ended | banned

/-- Members of the event and of its organization may join a private event. -/
def privateEventBlocksJoin (event : Event) (userId : Id) : Stmt Bool :=
  if event.visibility ≠ .private then pure false
  else select fun s =>
    (s.members.find? (event.id, userId)).isNone &&
      !(event.organizationId.any fun o => (s.organizationMembers.find? (o, userId)).isSome)

section EventEnd

variable (hasEventEnded : Event → Instant → Bool)

def lockJoinableEvent (cleanupId userId : Id) (now : Instant) : Stmt (Option JoinRefusal) := do
  match ← lockEvent .share cleanupId with
  | none => pure (some .notFound)
  | some event =>
    let blocked ← privateEventBlocksJoin event userId
    if blocked then pure (some .notFound)
    else if event.status = .cancelled then pure (some .closed)
    else if hasEventEnded event now then pure (some .ended)
    else do
      let banned ← isBannedIn cleanupId userId
      pure (if banned then some .banned else none)

def signupRow (cleanupId userId registrationId : Id) (now : Instant) : Registration where
  id := registrationId
  cleanupId := cleanupId
  ticketTypeId := none
  subject := .user userId
  partySize := 1
  status := .registered
  source := .self
  registeredAt := now
  cancelledAt := none
  cancelledBy := none

/-- `ON CONFLICT ... WHERE status = 'registered' DO NOTHING`. -/
def ensureSignupRegistrationIn (cleanupId userId registrationId : Id) (now : Instant) : Stmt Unit := do
  let ticketed ← select (fun s => s.ticketTypes.rows.any (fun t => t.cleanupId = cleanupId))
  if ticketed then pure ()
  else
    inserting
      (fun s => if s.ActiveRegistration cleanupId (.user userId) then .ignored
        else s.checkRegistration (signupRow cleanupId userId registrationId now))
      (.insertRegistration (signupRow cleanupId userId registrationId now))

def enrolMember (cleanupId userId registrationId : Id) (now : Instant) : Stmt Unit := do
  insertMember cleanupId (.user userId)
  ensureSignupRegistrationIn cleanupId userId registrationId now

def joinCleanupTx (cleanupId userId registrationId : Id) (now : Instant) : Stmt (Option JoinRefusal) := do
  match ← lockJoinableEvent hasEventEnded cleanupId userId now with
  | some refusal => pure (some refusal)
  | none => do
    enrolMember cleanupId userId registrationId now
    pure none

inductive ClaimSlotOutcome | refused (refusal : JoinRefusal) | slotNotFound | claimed | full

def claimSlot (cleanupId userId slotId registrationId : Id) (now : Instant) : Stmt ClaimSlotOutcome := do
  match ← lockJoinableEvent hasEventEnded cleanupId userId now with
  | some refusal => pure (.refused refusal)
  | none => do
    let mine ← select (fun s => (s.slotClaims.find? (cleanupId, userId)).map (·.slotId))
    match ← claimSlotIn.lockSlot cleanupId slotId with
    | none => pure .slotNotFound
    | some slot =>
      if mine = some slotId then pure .claimed
      else do
        let full ← claimSlotIn.slotFull slot
        if full then pure .full
        else do
          enrolMember cleanupId userId registrationId now
          modifying (fun _ => [.claimSlot cleanupId userId slotId])
          pure .claimed

end EventEnd

inductive LeaveCleanupOutcome | notFound | closed | left

/-- A registration on a ticket type is left to its own path. -/
def cancelSignupRegistrationIn (cleanupId userId : Id) (actorId : Option Id) (now : Instant) : Stmt Bool :=
  statement (fun _ => []) (fun s => (signups s).map (fun r => .cancelRegistration r.id now actorId))
    (fun s => !(signups s).isEmpty)
where
  signups (s : Db) : List Registration :=
    s.registrations.rows.filter fun r => r.cleanupId = cleanupId ∧ r.subject = .user userId ∧
      r.status = .registered ∧ r.ticketTypeId = none

def leaveCleanup (cleanupId userId : Id) (now : Instant) : Stmt LeaveCleanupOutcome := do
  match ← lockEvent .share cleanupId with
  | none => pure .notFound
  | some event =>
    if event.status = .cancelled then pure .closed
    else do
      modifying (fun _ => [.deleteMember cleanupId userId])
      let _ ← cancelSignupRegistrationIn cleanupId userId (some userId) now
      modifying (fun _ => [.deleteSlotClaim cleanupId userId])
      pure .left

inductive ReleaseSlotOutcome | notFound | closed | released

def releaseSlot (cleanupId userId : Id) : Stmt ReleaseSlotOutcome := do
  match ← select (fun s => s.events.find? cleanupId) with
  | none => pure .notFound
  | some event =>
    if event.status = .cancelled then pure .closed
    else do
      modifying (fun _ => [.deleteSlotClaim cleanupId userId])
      pure .released

end Civfix.Attendance
