import Civfix.RegistrationRepository

/-! # Waitlist transactions

Joining, offering, claiming and expiring. A data-modifying `UPDATE ... FROM` updates each
target row once, by one of the source rows that join it; which one is the planner's choice
and an argument here (`pick`). `SKIP LOCKED` may pass over any rows (`skipped`). -/
namespace Civfix.Attendance

open KeyedTables LockedTransactions

/-- The seats that source rows name for one ticket type. -/
def seatsFor (sources : List (Id × ℕ)) (ticketTypeId : Id) : List ℕ :=
  (sources.filter (fun x => x.1 = ticketTypeId)).map (·.2)

/-- `UPDATE cleanup_ticket_types ... FROM sources`: one source row per ticket type. -/
def releaseJoined (pick : Id → ℕ) (sources : List (Id × ℕ)) : List Write :=
  (sources.map (·.1)).dedup.map fun t =>
    .releaseSeats t ((seatsFor sources t).getD (pick t % (seatsFor sources t).length) 0)

/-- The same UPDATE from `SELECT ticket_type_id, sum(party_size) ... GROUP BY ticket_type_id`. -/
def releaseGrouped (sources : List (Id × ℕ)) : List Write :=
  (sources.map (·.1)).dedup.map fun t => .releaseSeats t (seatsFor sources t).sum

namespace WaitlistEntry

/-- What a closed entry gives back: its party, if it was ever offered. -/
def held (w : WaitlistEntry) : Option (Id × ℕ) :=
  if w.offeredAt.isSome then some (w.ticketTypeId, w.partySize) else none

end WaitlistEntry

def cancelWaitlistEntriesIn (pick : Id → ℕ) (cleanupId : Id) (ticketTypeId : Option Id) (subject : Subject) :
    Stmt (ℕ × List Id) :=
  statement (fun _ => [])
    (fun s => (leaving s).map (fun w => .closeWaitlist w.id .cancelled) ++
      releaseJoined pick ((leaving s).filterMap WaitlistEntry.held))
    (fun s => ((leaving s).length, (((leaving s).filterMap WaitlistEntry.held).map (·.1)).dedup))
where
  leaving (s : Db) : List WaitlistEntry :=
    s.waitlist.rows.filter fun w => w.cleanupId = cleanupId ∧ w.Active ∧
      (∀ t ∈ ticketTypeId, w.ticketTypeId = t) ∧ w.subject = subject

def loadWaitlistEntry (cleanupId waitlistId : Id) : Stmt (Option WaitlistEntry) :=
  select (fun s => (s.waitlist.find? waitlistId).filter (fun w => w.cleanupId = cleanupId))

def releaseWaitlistHold (cleanupId waitlistId : Id) : Stmt Unit :=
  modifying fun s =>
    (expired s).map (fun w => .closeWaitlist w.id .expired) ++
      releaseJoined (fun _ => 0) ((expired s).filterMap WaitlistEntry.held)
where
  expired (s : Db) : List WaitlistEntry :=
    ((s.waitlist.find? waitlistId).filter (fun w => w.cleanupId = cleanupId)).toList

def classifyUnclaimable (cleanupId waitlistId : Id) (subject : Subject) (now : Instant) :
    Stmt ClaimWaitlistOutcome := do
  let row ← selectFor (fun _ => [⟨.waitlist waitlistId, .update⟩])
    (fun s => (s.waitlist.find? waitlistId).filter (fun w => w.cleanupId = cleanupId))
  match row with
  | none => pure .notFound
  | some row => do
    match ← promotedRegistration row with
    | some registration => pure (.claimed registration)
    | none =>
      if row.status = .expired then pure .expired
      else if row.status ≠ .offered then pure .notOffered
      else if row.claimExpiresAt.any (· ≤ now) then do
        releaseWaitlistHold cleanupId waitlistId
        pure .expired
      else pure .notOffered
where
  promotedRegistration (row : WaitlistEntry) : Stmt (Option Registration) :=
    match row.promotedRegistrationId with
    | some registrationId =>
      if row.status = .claimed ∧ row.subject = subject then loadRegistrationById cleanupId registrationId
      else pure none
    | none => pure none

inductive JoinWaitlistOutcome where
  | joined (entry : WaitlistEntry)
  | alreadyWaiting (entry : WaitlistEntry)
  | notFound | closed | ended | banned | ticketTypeNotFound | waitlistDisabled
  | accessCodeRequired | accessCodeInvalid | alreadyRegistered

structure JoinWaitlistArgs where
  cleanupId : Id
  ticketTypeId : Id
  subject : Subject
  partySize : ℕ
  accessCodeHash : Option String
  now : Instant
  /-- The database clock, for the event window. -/
  dbNow : Instant
  /-- Drawn by the database for the new row. -/
  waitlistId : Id

def waitlistTicketTypeRefusal (type : Option TicketType) (accessCodeHash : Option String) :
    Option JoinWaitlistOutcome :=
  match type with
  | none => some .ticketTypeNotFound
  | some t =>
    if t.visibility = .hidden then some .ticketTypeNotFound
    else if !t.waitlistEnabled then some .waitlistDisabled
    else if t.visibility ≠ .accessCode then none
    else match accessCodeHash with
      | none => some .accessCodeRequired
      | some h => if t.accessCodeHash = some h then none else some .accessCodeInvalid

section EventEnd

variable (hasEventEnded : Event → Instant → Bool)

def joinWaitlistGateRefusal (args : JoinWaitlistArgs) : Stmt (Option JoinWaitlistOutcome) := do
  match ← lockEvent .share args.cleanupId with
  | none => pure (some .notFound)
  | some event =>
    if event.status = .cancelled then pure (some .closed)
    else if hasEventEnded event args.dbNow then pure (some .ended)
    else do
      let banned ← subjectBanned args.cleanupId args.subject
      if banned then pure (some .banned)
      else do
        let type ← select (fun s =>
          (s.ticketTypes.find? args.ticketTypeId).filter (fun t => t.cleanupId = args.cleanupId))
        match waitlistTicketTypeRefusal type args.accessCodeHash with
        | some refusal => pure (some refusal)
        | none => do
          let registered ← select (fun s => decide (s.ActiveRegistration args.cleanupId args.subject))
          pure (if registered then some .alreadyRegistered else none)

def findLiveWaitlistEntryId (ticketTypeId : Id) (subject : Subject) : Stmt (Option Id) :=
  select fun s => (s.waitlist.rows.find? fun w =>
    w.ticketTypeId = ticketTypeId ∧ w.Active ∧ w.subject = subject).map (·.id)

def waitlistRow (args : JoinWaitlistArgs) : WaitlistEntry where
  id := args.waitlistId
  cleanupId := args.cleanupId
  ticketTypeId := args.ticketTypeId
  subject := args.subject
  partySize := args.partySize
  status := .waiting
  createdAt := args.now
  offeredAt := none
  claimExpiresAt := none
  promotedRegistrationId := none

def joinWaitlistIn (args : JoinWaitlistArgs) : Stmt JoinWaitlistOutcome :=
  unlessRefused (joinWaitlistGateRefusal hasEventEnded args) do
    match ← findLiveWaitlistEntryId args.ticketTypeId args.subject with
    | some existingId => do
      match ← loadWaitlistEntry args.cleanupId existingId with
      | none => pure .notFound
      | some entry => pure (.alreadyWaiting entry)
    | none => do
      inserting (Db.checkWaitlist (waitlistRow args)) (.insertWaitlist (waitlistRow args))
      match ← loadWaitlistEntry args.cleanupId args.waitlistId with
      | none => .abort (.internal "waitlist reload returned no row")
      | some entry => pure (.joined entry)

structure ClaimWaitlistArgs where
  cleanupId : Id
  waitlistId : Id
  subject : Option Subject
  /-- The number of seat drafts. -/
  seats : ℕ
  now : Instant
  dbNow : Instant
  registrationId : Id

def claimRegisterArgs (args : ClaimWaitlistArgs) (entry : WaitlistEntry) : RegisterTxArgs where
  cleanupId := args.cleanupId
  subject := entry.subject
  ticketTypeId := some entry.ticketTypeId
  seats := min args.seats entry.partySize
  accessCodeHash := none
  slotId := none
  source := .waitlist
  idempotencyKey := "waitlist:" ++ toString args.waitlistId
  idempotencyOwner := none
  waitlistId := some args.waitlistId
  now := args.now
  registrationId := args.registrationId

/-- The WHERE clause of the claiming UPDATE. -/
def claimable (args : ClaimWaitlistArgs) (seats : ℕ) (s : Db) : Option WaitlistEntry :=
  (s.waitlist.find? args.waitlistId).filter fun w =>
    w.cleanupId = args.cleanupId && w.status = .offered && w.claimExpiresAt.all (args.now < ·) &&
      w.partySize = seats

def claimOfferIn (args : ClaimWaitlistArgs) (subject : Subject) (registerArgs : RegisterTxArgs) :
    Stmt ClaimWaitlistOutcome := do
  let event ← lockEvent .share args.cleanupId
  let claimed ← statement (fun _ => [])
    (fun s => (claimable args registerArgs.seats s).toList.map (fun w => .closeWaitlist w.id .claimed))
    (fun s => claimable args registerArgs.seats s)
  match claimed with
  | none => classifyUnclaimable args.cleanupId args.waitlistId subject args.now
  | some row =>
    if row.subject ≠ subject then .abort (.claimRefusal .notFound)
    else if event.any (hasEventEnded · args.dbNow) then do
      releaseWaitlistHold args.cleanupId args.waitlistId
      pure .notOffered
    else do
      match ← registerIn registerArgs with
      | .registered registration => pure (.claimed registration)
      | .replayed (some registration) => pure (.claimed registration)
      | .registrationClosed | .closed => do
        releaseWaitlistHold args.cleanupId args.waitlistId
        pure .notOffered
      | _ => .abort (.claimRefusal .notOffered)

/-- The entry is read before the transaction begins. -/
def claimWaitlistOffer (args : ClaimWaitlistArgs) : Stmt ClaimWaitlistOutcome := do
  match ← loadWaitlistEntry args.cleanupId args.waitlistId with
  | none => pure .notFound
  | some entry =>
    if ∃ x ∈ args.subject, entry.subject ≠ x then pure .notFound
    else claimOfferIn hasEventEnded args entry.subject (claimRegisterArgs args entry)

end EventEnd

structure WaitlistOffer where
  waitlistId : Id
  cleanupId : Id
  ticketTypeId : Id
  subject : Subject
  partySize : ℕ
  claimExpiresAt : Instant

/-- The WHERE clause of the offering UPDATE; `scope` is the event it is limited to, if any. -/
def offerable (entry : WaitlistEntry) (scope : Option Id) (s : Db) : Bool :=
  (s.ticketTypes.find? entry.ticketTypeId).any fun t =>
    scope.all (t.cleanupId = ·) && t.capacity.all (t.reservedSeats + entry.partySize ≤ ·)

def reserveAndOffer (candidate : WaitlistEntry) (scope : Option Id) (now claimExpiresAt : Instant) :
    Stmt (Option WaitlistOffer) := do
  let reserved ← statement (fun _ => [])
    (fun s => if offerable candidate scope s then [.reserveSeats candidate.ticketTypeId candidate.partySize] else [])
    (fun s => offerable candidate scope s)
  if !reserved then pure none
  else do
    modifying (fun _ => [.offerWaitlist candidate.id now claimExpiresAt])
    pure (some ⟨candidate.id, candidate.cleanupId, candidate.ticketTypeId, candidate.subject,
      candidate.partySize, claimExpiresAt⟩)

section EventDuration

variable (defaultEventDuration : ℕ)

/-- `waitlistEntryNotBanned`. -/
def Db.entryNotBanned (s : Db) (w : WaitlistEntry) : Bool :=
  match w.subject with
  | .user userId => !s.isBanned w.cleanupId userId
  | .guest _ => true

/-- `waitlistEventStillLive`, on the database clock. -/
def Db.entryEventLive (s : Db) (dbNow : Instant) (w : WaitlistEntry) : Bool :=
  (s.events.find? w.cleanupId).any fun e =>
    e.status ≠ .cancelled && dbNow < e.endsAt.getD (e.scheduledAt + defaultEventDuration)

/-- The entries that may be offered, first come first. -/
def Db.offerQueue (s : Db) (ticketTypeId : Id) (dbNow : Instant) (skipped : List Id) : List WaitlistEntry :=
  (s.waitlist.rows.filter (fun w => w.ticketTypeId = ticketTypeId ∧ w.status = .waiting ∧ s.entryNotBanned w ∧
    s.entryEventLive defaultEventDuration dbNow w ∧ w.id ∉ skipped)).insertionSort
    (fun a b => a.createdAt < b.createdAt ∨ (a.createdAt = b.createdAt ∧ a.id ≤ b.id))

def offerNextWaitlistEntry (ticketTypeId : Id) (now dbNow claimWindow : Instant) (skipped : List Id) :
    Stmt (Option WaitlistOffer) := do
  let candidate ← selectFor
    (fun s => (s.offerQueue defaultEventDuration ticketTypeId dbNow skipped).head?.toList.map
      (fun w => ⟨.waitlist w.id, .update⟩))
    (fun s => (s.offerQueue defaultEventDuration ticketTypeId dbNow skipped).head?)
  match candidate with
  | none => pure none
  | some w => reserveAndOffer w none now (now + claimWindow)

def offerWaitlistEntry (cleanupId waitlistId : Id) (now dbNow claimWindow : Instant) :
    Stmt (Option WaitlistOffer) := do
  let candidate ← selectFor (fun _ => [⟨.waitlist waitlistId, .update⟩])
    (fun s => (s.waitlist.find? waitlistId).filter fun w => w.cleanupId = cleanupId && w.status = .waiting &&
      s.entryNotBanned w && s.entryEventLive defaultEventDuration dbNow w)
  match candidate with
  | none => pure none
  | some w => reserveAndOffer w (some cleanupId) now (now + claimWindow)

end EventDuration

/-- The offers one sweep expires: `ORDER BY claim_expires_at LIMIT`. -/
def Db.dueOffers (s : Db) (now : Instant) (limit : ℕ) (skipped : List Id) : List WaitlistEntry :=
  ((s.waitlist.rows.filter (fun w => w.status = .offered ∧ w.claimExpiresAt.any (· ≤ now) ∧
    w.id ∉ skipped)).insertionSort (fun a b => a.claimExpiresAt.getD 0 ≤ b.claimExpiresAt.getD 0)).take limit

def expireWaitlistOffers (pick : Id → ℕ) (now : Instant) (limit : ℕ) (skipped : List Id) : Stmt (List Id) :=
  statement (fun s => (s.dueOffers now limit skipped).map (fun w => ⟨.waitlist w.id, .update⟩))
    (fun s => (s.dueOffers now limit skipped).map (fun w => .closeWaitlist w.id .expired) ++
      releaseJoined pick ((s.dueOffers now limit skipped).map (fun w => (w.ticketTypeId, w.partySize))))
    (fun s => ((s.dueOffers now limit skipped).map (·.ticketTypeId)).dedup)

end Civfix.Attendance
