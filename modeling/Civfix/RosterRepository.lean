import Civfix.WaitlistRepository

/-! # Roster, ban, erasure and ticket-type transactions

The paths that give seats back (cancelling, removing, banning, guest cancellation, account
erasure), the transfer between ticket types, and the host's edits of ticket types. -/
namespace Civfix.Attendance

open KeyedTables LockedTransactions

namespace Registration

/-- What a cancelled registration gives back: its party, if it is on a ticket type. -/
def held (r : Registration) : Option (Id × ℕ) := r.ticketTypeId.map (·, r.partySize)

end Registration

structure AppliedBan where
  cancelledRegistrations : List (Id × Option Id)
  releasedTicketTypeIds : List Id

/-- The one ban path. The event row is locked before anything is written. -/
def applyBanIn (pick : Id → ℕ) (cleanupId userId actorId : Id) (now : Instant) : Stmt AppliedBan := do
  selectFor (fun _ => [⟨.event cleanupId, .noKeyUpdate⟩]) (fun _ => ())
  inserting (fun s => if (s.events.find? cleanupId).isNone then .violated .foreignKey
      else if s.isBanned cleanupId userId then .ignored else .ok)
    (.insertBan ⟨cleanupId, userId, actorId⟩)
  modifying fun s => if (s.members.find? (cleanupId, userId)).any (fun m => m.role = .member) then
    [.deleteMember cleanupId userId] else []
  let waitlist ← cancelWaitlistEntriesIn pick cleanupId none (.user userId)
  let cancelled ← statement (fun _ => [])
    (fun s => (seated s).map (fun r => .cancelRegistration r.id now (some actorId)) ++
      releaseGrouped ((seated s).filterMap Registration.held))
    (fun s => (seated s).map (fun r => (r.id, r.ticketTypeId)))
  modifying (fun _ => [.deleteSlotClaim cleanupId userId])
  return ⟨cancelled, (waitlist.2 ++ cancelled.filterMap (·.2)).dedup⟩
where
  seated (s : Db) : List Registration :=
    s.registrations.rows.filter fun r =>
      r.cleanupId = cleanupId ∧ r.subject = .user userId ∧ r.status = .registered

inductive CancelRegistrationOutcome where
  | cancelled (registration : Registration) (ticketTypeId : Option Id)
  | notFound | alreadyCancelled

def cancelRegistrationIn (cleanupId registrationId : Id) (actorId : Option Id) (now : Instant) :
    Stmt CancelRegistrationOutcome := do
  let cancelled ← statement (fun _ => [])
    (fun s => (target s).toList.map (fun r => .cancelRegistration r.id now actorId) ++
      releaseJoined (fun _ => 0) ((target s).toList.filterMap Registration.held))
    target
  let existing ← loadRegistrationById cleanupId registrationId
  match cancelled, existing with
  | none, none => pure .notFound
  | none, some _ => pure .alreadyCancelled
  | some _, none => pure .notFound
  | some row, some registration => pure (.cancelled registration row.ticketTypeId)
where
  target (s : Db) : Option Registration :=
    (s.registrations.find? registrationId).filter fun r => r.cleanupId = cleanupId && r.status = .registered

/-- The outcome, with the ticket types that a ban on the way got seats back on. -/
def removeRegistrationIn (pick : Id → ℕ) (cleanupId registrationId actorId : Id) (ban : Bool) (now : Instant) :
    Stmt (CancelRegistrationOutcome × List Id) := do
  let target ← select (fun s => (s.registrations.find? registrationId).filter (fun r => r.cleanupId = cleanupId))
  match target with
  | none => pure (.notFound, [])
  | some row =>
    match bannedUserId row with
    | none => do
      return (← cancelRegistrationIn cleanupId registrationId (some actorId) now, [])
    | some userId => do
      let applied ← applyBanIn pick cleanupId userId actorId now
      match applied.cancelledRegistrations.find? (fun r => r.1 = registrationId) with
      | none => do
        return (← cancelRegistrationIn cleanupId registrationId (some actorId) now, applied.releasedTicketTypeIds)
      | some removed => do
        match ← loadRegistrationById cleanupId registrationId with
        | none => pure (.notFound, applied.releasedTicketTypeIds)
        | some registration => pure (.cancelled registration removed.2, applied.releasedTicketTypeIds)
where
  bannedUserId (row : Registration) : Option Id :=
    match ban, row.subject with
    | true, .user userId => some userId
    | _, _ => none

inductive TransferRegistrationOutcome where
  | transferred (registration : Registration) (previousTicketTypeId : Option Id)
  | notFound | sameType | ticketTypeNotFound | partyTooLarge | full

/-- The WHERE clause of the UPDATE that takes seats on the target type. -/
def transferable (cleanupId ticketTypeId : Id) (partySize : ℕ) (s : Db) : Bool :=
  (s.ticketTypes.find? ticketTypeId).any fun t =>
    t.cleanupId = cleanupId && t.capacity.all (t.reservedSeats + partySize ≤ ·)

def transferRegistrationIn (cleanupId registrationId ticketTypeId : Id) : Stmt TransferRegistrationOutcome := do
  match ← lockEvent .noKeyUpdate cleanupId with
  | none => pure .notFound
  | some _ =>
    let current ← selectFor (fun _ => [⟨.registration registrationId, .update⟩])
      (fun s => (s.registrations.find? registrationId).filter
        (fun r => r.cleanupId = cleanupId && r.status = .registered))
    match current with
    | none => pure .notFound
    | some current =>
      if current.ticketTypeId = some ticketTypeId then pure .sameType
      else do
        let targetType ← selectFor
          (fun s => (wanted current s).map (fun t => ⟨.ticketType t.id, .update⟩))
          (fun s => (wanted current s).find? (fun t => t.id = ticketTypeId))
        match targetType with
        | none => pure .ticketTypeNotFound
        | some targetType =>
          if targetType.maxPartySize < current.partySize then pure .partyTooLarge
          else do
            let reserved ← statement (fun _ => [])
              (fun s => if transferable cleanupId ticketTypeId current.partySize s then
                [.reserveSeats ticketTypeId current.partySize] else [])
              (fun s => transferable cleanupId ticketTypeId current.partySize s)
            if !reserved then pure .full
            else moveParty current
where
  wanted (current : Registration) (s : Db) : List TicketType :=
    s.ticketTypes.rows.filter fun t =>
      t.cleanupId = cleanupId ∧ (t.id = ticketTypeId ∨ current.ticketTypeId = some t.id)
  releasePrevious (current : Registration) : Stmt Unit :=
    match current.ticketTypeId with
    | none => pure ()
    | some t => modifying fun s =>
        if (s.ticketTypes.find? t).any (fun x => x.cleanupId = cleanupId) then [.releaseSeats t current.partySize]
        else []
  moveParty (current : Registration) : Stmt TransferRegistrationOutcome := do
    releasePrevious current
    modifying (fun _ => [.moveRegistration registrationId ticketTypeId])
    match ← loadRegistrationById cleanupId registrationId with
    | none => pure .notFound
    | some registration => pure (.transferred registration current.ticketTypeId)

inductive RemoveMemberOutcome where
  | notFound | closed
  | removed (releasedWaitlistTicketTypeIds : List Id)
  | notMember

/-- The `going` count of the answer is left out. -/
def removeMember (pick : Id → ℕ) (cleanupId userId actorId : Id) (now : Instant) : Stmt RemoveMemberOutcome := do
  match ← lockEvent .noKeyUpdate cleanupId with
  | none => pure .notFound
  | some event =>
    if event.status = .cancelled then pure .closed
    else do
      let deleted ← statement (fun _ => [])
        (fun s => if removable s then [.deleteMember cleanupId userId] else []) removable
      if deleted then do
        let ban ← applyBanIn pick cleanupId userId actorId now
        pure (.removed ban.releasedTicketTypeIds)
      else pure .notMember
where
  removable (s : Db) : Bool := (s.members.find? (cleanupId, userId)).any (fun m => m.role ≠ .organizer)

def unbanMember (cleanupId userId : Id) : Stmt Bool :=
  statement (fun _ => [])
    (fun s => if s.isBanned cleanupId userId then [.deleteBan cleanupId userId] else [])
    (fun s => s.isBanned cleanupId userId)

/-- One statement; contact columns and answers are left out. -/
def cancelGuest (guestId : Id) (now : Instant) : Stmt (List Id) :=
  statement (fun _ => [])
    (fun s => if live s then
        .cancelGuest guestId now ::
          ((seated s).map (fun r => (.cancelRegistration r.id now none : Write)) ++
            (queued s).map (fun w => (.closeWaitlist w.id .cancelled : Write)) ++ releaseGrouped (released s))
      else [])
    (fun s => if live s then ((released s).map (·.1)).dedup else [])
where
  live (s : Db) : Bool := (s.guests.find? guestId).any (fun g => g.cancelledAt = none)
  seated (s : Db) : List Registration :=
    s.registrations.rows.filter fun r => r.subject = .guest guestId ∧ r.status = .registered
  queued (s : Db) : List WaitlistEntry := s.waitlist.rows.filter fun w => w.subject = .guest guestId ∧ w.Active
  released (s : Db) : List (Id × ℕ) :=
    (seated s).filterMap Registration.held ++ (queued s).filterMap WaitlistEntry.held

/-- The waitlist part of the erasure; the scrubbed text columns are left out. -/
def scrubAttendeeContributions (userId : Id) : Stmt (List Id) :=
  statement (fun _ => [])
    (fun s => (queued s).map (fun w => .closeWaitlist w.id .cancelled) ++
      releaseGrouped ((queued s).filterMap WaitlistEntry.held))
    (fun s => (((queued s).filterMap WaitlistEntry.held).map (·.1)).dedup)
where
  queued (s : Db) : List WaitlistEntry := s.waitlist.rows.filter fun w => w.subject = .user userId ∧ w.Active

/-! ## Ticket types -/

inductive TicketTypeWriteOutcome where
  | created (record : TicketType)
  | updated (record : TicketType)
  | notFound | tooMany
  | capacityExceeded (eventCapacity used : ℕ)
  | capacityBelowReserved (reservedSeats : ℕ)

/-- The capacities of the event's other types must leave room for the new one. -/
def ticketTypeCapacityFit (cleanupId : Id) (eventCapacity nextCapacity excludeTicketTypeId : Option ℕ) :
    Stmt (Option TicketTypeWriteOutcome) :=
  match eventCapacity with
  | none => pure none
  | some capacity => select fun s =>
      let others := s.ticketTypes.rows.filter (fun t => t.cleanupId = cleanupId ∧ some t.id ≠ excludeTicketTypeId)
      let used := (others.map (fun t => t.capacity.getD 0)).sum
      if others.any (fun t => t.capacity = none) then some (.capacityExceeded capacity used)
      else match nextCapacity with
        | none => some (.capacityExceeded capacity used)
        | some n => if capacity < used + n then some (.capacityExceeded capacity used) else none

def MAX_TICKET_TYPES : ℕ := 20

namespace Db

/-- The unique index on the event and the lowered name. -/
def NameTaken (s : Db) (cleanupId ticketTypeId : Id) (nameKey : String) : Prop :=
  ∃ t ∈ s.ticketTypes.rows, t.cleanupId = cleanupId ∧ t.id ≠ ticketTypeId ∧ t.nameKey = nameKey

instance (s : Db) (c t : Id) (n : String) : Decidable (s.NameTaken c t n) :=
  inferInstanceAs (Decidable (∃ t ∈ _, _))

def checkTicketType (t : TicketType) (s : Db) : InsertCheck :=
  if (s.ticketTypes.find? t.id).isSome then .violated .primaryKey
  else if s.NameTaken t.cleanupId t.id t.nameKey then .violated .ticketTypeName
  else if ¬ t.Checks then .violated .ticketTypeChecks
  else .ok

def nextSortOrder (s : Db) (cleanupId : Id) : ℤ :=
  ((s.ticketTypes.rows.filter (fun t => t.cleanupId = cleanupId)).map (·.sortOrder)).max?.getD (-1) + 1

end Db

/-- `sortOrder` is none when the host left it to the database. -/
structure TicketTypeWriteArgs where
  cleanupId : Id
  columns : TicketTypeColumns
  sortOrder : Option ℤ

def ticketTypeRow (args : TicketTypeWriteArgs) (ticketTypeId : Id) (sortOrder : ℤ) : TicketType where
  toTicketTypeColumns := { args.columns with sortOrder := sortOrder }
  id := ticketTypeId
  cleanupId := args.cleanupId
  reservedSeats := 0

def insertTicketTypeIn (args : TicketTypeWriteArgs) (ticketTypeId : Id) : Stmt TicketTypeWriteOutcome := do
  match ← lockEvent .noKeyUpdate args.cleanupId with
  | none => pure .notFound
  | some event => do
    let counted ← select (fun s => (s.ticketTypes.rows.filter (fun t => t.cleanupId = args.cleanupId)).length)
    if MAX_TICKET_TYPES ≤ counted then pure .tooMany
    else
      unlessRefused (ticketTypeCapacityFit args.cleanupId event.capacity args.columns.capacity none) do
        let next ← select (fun s => s.nextSortOrder args.cleanupId)
        let row := ticketTypeRow args ticketTypeId (args.sortOrder.getD next)
        inserting (Db.checkTicketType row) (.insertTicketType row)
        match ← select (fun s => s.ticketTypes.find? ticketTypeId) with
        | none => .abort (.internal "ticket type reload returned no row")
        | some record => pure (.created record)

/-- The columns an update names; every other column keeps its value. -/
structure TicketTypePatch where
  nameKey : Option String
  capacity : Option (Option ℕ)
  salesOpensAt : Option (Option Instant)
  salesClosesAt : Option (Option Instant)
  visibility : Option TicketTypeVisibility
  clearAccessCode : Bool
  accessCodeHash : Option String
  maxPartySize : Option ℕ
  sortOrder : Option ℤ
  waitlistEnabled : Option Bool

def TicketTypePatch.apply (p : TicketTypePatch) (c : TicketTypeColumns) : TicketTypeColumns where
  nameKey := p.nameKey.getD c.nameKey
  capacity := p.capacity.getD c.capacity
  salesOpensAt := p.salesOpensAt.getD c.salesOpensAt
  salesClosesAt := p.salesClosesAt.getD c.salesClosesAt
  visibility := p.visibility.getD c.visibility
  accessCodeHash := if p.clearAccessCode then none else p.accessCodeHash.or c.accessCodeHash
  maxPartySize := p.maxPartySize.getD c.maxPartySize
  sortOrder := p.sortOrder.getD c.sortOrder
  waitlistEnabled := p.waitlistEnabled.getD c.waitlistEnabled

/-- The refusals of a capacity change, in the order they are checked. -/
def capacityChangeRefusal (cleanupId ticketTypeId : Id) (event : Event) (current : TicketType)
    (patch : TicketTypePatch) : Stmt (Option TicketTypeWriteOutcome) :=
  match patch.capacity with
  | none => pure none
  | some capacity =>
    if capacity.any (· < current.reservedSeats) then pure (some (.capacityBelowReserved current.reservedSeats))
    else ticketTypeCapacityFit cleanupId event.capacity capacity (some ticketTypeId)

def updateTicketTypeIn (cleanupId ticketTypeId : Id) (patch : TicketTypePatch) :
    Stmt TicketTypeWriteOutcome := do
  match ← lockEvent .noKeyUpdate cleanupId with
  | none => pure .notFound
  | some event => do
    let locked ← selectFor (fun _ => [⟨.ticketType ticketTypeId, .update⟩])
      (fun s => (s.ticketTypes.find? ticketTypeId).filter (fun t => t.cleanupId = cleanupId))
    match locked with
    | none => pure .notFound
    | some current =>
      unlessRefused (capacityChangeRefusal cleanupId ticketTypeId event current patch) do
        inserting (fun s => if s.NameTaken cleanupId ticketTypeId (patch.apply current.toTicketTypeColumns).nameKey then
            .violated .ticketTypeName
          else if ¬ (patch.apply current.toTicketTypeColumns).Checks then .violated .ticketTypeChecks
          else .ok)
          (.setTicketType ticketTypeId (patch.apply current.toTicketTypeColumns))
        match ← select (fun s => s.ticketTypes.find? ticketTypeId) with
        | none => pure .notFound
        | some record => pure (.updated record)

inductive DeleteTicketTypeOutcome | notFound | inUse | deleted

def deleteTicketType (cleanupId ticketTypeId : Id) : Stmt DeleteTicketTypeOutcome := do
  let locked ← selectFor (fun _ => [⟨.ticketType ticketTypeId, .update⟩])
    (fun s => (s.ticketTypes.find? ticketTypeId).filter (fun t => t.cleanupId = cleanupId))
  match locked with
  | none => pure .notFound
  | some _ => do
    let referenced ← select fun s =>
      s.registrations.rows.any (fun r => r.cleanupId = cleanupId && r.ticketTypeId = some ticketTypeId) ||
        s.waitlist.rows.any (fun w => w.cleanupId = cleanupId && w.ticketTypeId = ticketTypeId)
    if referenced then pure .inUse
    else do
      modifying (fun _ => [.deleteTicketType ticketTypeId])
      pure .deleted

end Civfix.Attendance
