import Civfix.KeyedTables
import Civfix.LockedTransactions

/-! # Tables, writes and row locks of event attendance

The rows of `cleanups`, `cleanup_ticket_types`, `cleanup_registrations`,
`cleanup_waitlist`, `cleanup_guests`, `cleanup_members`, `cleanup_bans`,
`cleanup_slots`, `cleanup_slot_claims` and `idempotency_keys`, with the columns that
registration reads or writes. Identifiers are numbers and instants are milliseconds.

`Write` lists the row changes the repository makes, `needs` the locks each one is made
under. A row write is covered by the lock the database takes for it; a new place at an
event (a registration, a waitlist entry, a slot claim) must in addition be made under
`FOR SHARE` on the event row, and a ban under `FOR NO KEY UPDATE`. -/
namespace Civfix.Attendance

open KeyedTables LockedTransactions

abbrev Id := ℕ
abbrev Instant := ℕ

inductive EventStatus | upcoming | active | done | cancelled deriving DecidableEq
inductive EventVisibility | «public» | unlisted | «private» deriving DecidableEq
inductive TicketTypeVisibility | «public» | hidden | accessCode deriving DecidableEq
inductive RegistrationStatus | registered | cancelled | transferred deriving DecidableEq
inductive RegistrationSource | self | waitlist | walkup | transfer deriving DecidableEq
inductive WaitlistStatus | waiting | offered | claimed | expired | cancelled deriving DecidableEq
inductive MemberRole | organizer | cohost | coordinator | staff | member deriving DecidableEq

/-- Exactly one of `user_id` and `guest_id` is set. -/
inductive Subject | user (userId : Id) | guest (guestId : Id) deriving DecidableEq

/-- A row of `cleanups`. -/
structure Event where
  id : Id
  status : EventStatus
  visibility : EventVisibility
  capacity : Option ℕ
  registrationOpensAt : Option Instant
  registrationClosesAt : Option Instant
  scheduledAt : Instant
  endsAt : Option Instant
  organizationId : Option Id

/-- The columns of a ticket type that the host edits; `nameKey` is `lower(name)`. -/
structure TicketTypeColumns where
  nameKey : String
  capacity : Option ℕ
  salesOpensAt : Option Instant
  salesClosesAt : Option Instant
  visibility : TicketTypeVisibility
  accessCodeHash : Option String
  maxPartySize : ℕ
  sortOrder : ℤ
  waitlistEnabled : Bool

structure TicketType extends TicketTypeColumns where
  id : Id
  cleanupId : Id
  reservedSeats : ℕ

structure Registration where
  id : Id
  cleanupId : Id
  ticketTypeId : Option Id
  subject : Subject
  partySize : ℕ
  status : RegistrationStatus
  source : RegistrationSource
  registeredAt : Instant
  cancelledAt : Option Instant
  cancelledBy : Option Id
  deriving DecidableEq

structure WaitlistEntry where
  id : Id
  cleanupId : Id
  ticketTypeId : Id
  subject : Subject
  partySize : ℕ
  status : WaitlistStatus
  createdAt : Instant
  offeredAt : Option Instant
  claimExpiresAt : Option Instant
  promotedRegistrationId : Option Id
  deriving DecidableEq

structure Guest where
  id : Id
  cleanupId : Id
  cancelledAt : Option Instant

structure Member where
  cleanupId : Id
  userId : Id
  role : MemberRole

structure Ban where
  cleanupId : Id
  userId : Id
  bannedByUserId : Id

structure Slot where
  id : Id
  cleanupId : Id
  capacity : Option ℕ

structure SlotClaim where
  cleanupId : Id
  userId : Id
  slotId : Id

/-- A row of `idempotency_keys` in the register scope with its snapshot. The stored key is
a digest of owner and key, so the pair itself stands for it. -/
structure IdempotencyKey where
  owner : String
  key : String
  registrationId : Id

/-- A member of an organization that is not deleted. -/
structure OrganizationMember where
  organizationId : Id
  userId : Id

structure Db where
  events : Table Event.id
  ticketTypes : Table TicketType.id
  registrations : Table Registration.id
  waitlist : Table WaitlistEntry.id
  guests : Table Guest.id
  members : Table (fun m : Member => (m.cleanupId, m.userId))
  bans : Table (fun b : Ban => (b.cleanupId, b.userId))
  slots : Table Slot.id
  slotClaims : Table (fun c : SlotClaim => (c.cleanupId, c.userId))
  idempotencyKeys : Table (fun k : IdempotencyKey => (k.owner, k.key))
  organizationMembers : Table (fun m : OrganizationMember => (m.organizationId, m.userId))

/-- The statuses a waitlist entry leaves the queue with. -/
inductive WaitlistClose | claimed | expired | cancelled

def WaitlistClose.status : WaitlistClose → WaitlistStatus
  | .claimed => .claimed | .expired => .expired | .cancelled => .cancelled

/-- One row change. -/
inductive Write where
  | insertEvent (e : Event)
  | setEvent (e : Event)
  | insertTicketType (t : TicketType)
  | setTicketType (id : Id) (columns : TicketTypeColumns)
  | deleteTicketType (id : Id)
  | reserveSeats (ticketTypeId : Id) (seats : ℕ)
  | releaseSeats (ticketTypeId : Id) (seats : ℕ)
  | insertRegistration (r : Registration)
  | cancelRegistration (id : Id) (now : Instant) (actorId : Option Id)
  | moveRegistration (id : Id) (ticketTypeId : Id)
  | insertWaitlist (w : WaitlistEntry)
  | closeWaitlist (id : Id) (close : WaitlistClose)
  | offerWaitlist (id : Id) (now claimExpiresAt : Instant)
  | linkWaitlist (id : Id) (registrationId : Id)
  | insertGuest (g : Guest)
  | cancelGuest (id : Id) (now : Instant)
  | insertMember (m : Member)
  | deleteMember (cleanupId userId : Id)
  | insertBan (b : Ban)
  | deleteBan (cleanupId userId : Id)
  | insertSlot (s : Slot)
  | claimSlot (cleanupId userId slotId : Id)
  | deleteSlotClaim (cleanupId userId : Id)
  | insertIdempotencyKey (k : IdempotencyKey)

namespace TicketTypeColumns

/-- The CHECK constraints on the columns the host writes. -/
def Checks (c : TicketTypeColumns) : Prop :=
  (∀ n ∈ c.capacity, 0 < n) ∧ 1 ≤ c.maxPartySize ∧ c.maxPartySize ≤ 10 ∧
    (c.visibility = .accessCode → c.accessCodeHash.isSome) ∧
    ∀ o ∈ c.salesOpensAt, ∀ e ∈ c.salesClosesAt, o < e

instance (c : TicketTypeColumns) : Decidable c.Checks := inferInstanceAs (Decidable (_ ∧ _))

end TicketTypeColumns

namespace Event

/-- A rewrite of every column but the key. -/
def set (e x : Event) : Event := { e with id := x.id }

theorem set_id (e x : Event) : (e.set x).id = x.id := rfl

end Event

namespace TicketType

def setColumns (c : TicketTypeColumns) (t : TicketType) : TicketType := { t with toTicketTypeColumns := c }

/-- `reserved_seats = reserved_seats + n`. -/
def reserve (n : ℕ) (t : TicketType) : TicketType := { t with reservedSeats := t.reservedSeats + n }

/-- `reserved_seats = GREATEST(reserved_seats - n, 0)`; subtraction on `ℕ` stops at zero. -/
def release (n : ℕ) (t : TicketType) : TicketType := { t with reservedSeats := t.reservedSeats - n }

theorem setColumns_id (c : TicketTypeColumns) (t : TicketType) : (t.setColumns c).id = t.id := rfl

theorem reserve_id (n : ℕ) (t : TicketType) : (t.reserve n).id = t.id := rfl

theorem release_id (n : ℕ) (t : TicketType) : (t.release n).id = t.id := rfl

end TicketType

namespace Registration

def cancel (now : Instant) (actorId : Option Id) (r : Registration) : Registration :=
  { r with status := .cancelled, cancelledAt := some now, cancelledBy := actorId }

def move (ticketTypeId : Id) (r : Registration) : Registration :=
  { r with ticketTypeId := some ticketTypeId, source := .transfer }

theorem cancel_id (now : Instant) (actorId : Option Id) (r : Registration) : (r.cancel now actorId).id = r.id := rfl

theorem move_id (t : Id) (r : Registration) : (r.move t).id = r.id := rfl

end Registration

namespace WaitlistEntry

/-- `status IN ('waiting', 'offered')`. -/
def Active (w : WaitlistEntry) : Prop := w.status = .waiting ∨ w.status = .offered

instance (w : WaitlistEntry) : Decidable w.Active := inferInstanceAs (Decidable (_ ∨ _))

def close (c : WaitlistClose) (w : WaitlistEntry) : WaitlistEntry := { w with status := c.status }

/-- The transaction has selected the row as waiting and keeps it locked, so the test below
never fails; it lets the write be judged without the statements before it. -/
def offer (now claimExpiresAt : Instant) (w : WaitlistEntry) : WaitlistEntry :=
  if w.status = .waiting then
    { w with status := .offered, offeredAt := some now, claimExpiresAt := some claimExpiresAt }
  else w

def link (registrationId : Id) (w : WaitlistEntry) : WaitlistEntry :=
  { w with promotedRegistrationId := some registrationId }

theorem close_id (c : WaitlistClose) (w : WaitlistEntry) : (w.close c).id = w.id := rfl

theorem link_id (r : Id) (w : WaitlistEntry) : (w.link r).id = w.id := rfl

theorem offer_id (now claimExpiresAt : Instant) (w : WaitlistEntry) :
    (w.offer now claimExpiresAt).id = w.id := by
  unfold offer
  split <;> rfl

end WaitlistEntry

namespace Guest

def cancel (now : Instant) (g : Guest) : Guest := { g with cancelledAt := some now }

theorem cancel_id (now : Instant) (g : Guest) : (g.cancel now).id = g.id := rfl

end Guest

namespace Db

def apply (s : Db) : Write → Db
  | .insertEvent e => { s with events := s.events.insert e }
  | .setEvent e => { s with events := s.events.modify e.id e.set e.set_id }
  | .insertTicketType t => { s with ticketTypes := s.ticketTypes.insert t }
  | .setTicketType id c =>
    { s with ticketTypes := s.ticketTypes.modify id (.setColumns c) (TicketType.setColumns_id c) }
  | .deleteTicketType id => { s with ticketTypes := s.ticketTypes.remove id }
  | .reserveSeats id n => { s with ticketTypes := s.ticketTypes.modify id (.reserve n) (TicketType.reserve_id n) }
  | .releaseSeats id n => { s with ticketTypes := s.ticketTypes.modify id (.release n) (TicketType.release_id n) }
  | .insertRegistration r => { s with registrations := s.registrations.insert r }
  | .cancelRegistration id now actorId =>
      { s with registrations := s.registrations.modify id (.cancel now actorId) (Registration.cancel_id now actorId) }
  | .moveRegistration id t => { s with registrations := s.registrations.modify id (.move t) (Registration.move_id t) }
  | .insertWaitlist w => { s with waitlist := s.waitlist.insert w }
  | .closeWaitlist id c => { s with waitlist := s.waitlist.modify id (.close c) (WaitlistEntry.close_id c) }
  | .offerWaitlist id now e => { s with waitlist := s.waitlist.modify id (.offer now e) (WaitlistEntry.offer_id now e) }
  | .linkWaitlist id r => { s with waitlist := s.waitlist.modify id (.link r) (WaitlistEntry.link_id r) }
  | .insertGuest g => { s with guests := s.guests.insert g }
  | .cancelGuest id now => { s with guests := s.guests.modify id (.cancel now) (Guest.cancel_id now) }
  | .insertMember m => { s with members := s.members.insert m }
  | .deleteMember c u => { s with members := s.members.remove (c, u) }
  | .insertBan b => { s with bans := s.bans.insert b }
  | .deleteBan c u => { s with bans := s.bans.remove (c, u) }
  | .insertSlot x => { s with slots := s.slots.insert x }
  | .claimSlot c u slot => { s with slotClaims := (s.slotClaims.remove (c, u)).insert ⟨c, u, slot⟩ }
  | .deleteSlotClaim c u => { s with slotClaims := s.slotClaims.remove (c, u) }
  | .insertIdempotencyKey k => { s with idempotencyKeys := s.idempotencyKeys.insert k }

/-- `isBannedIn`. -/
def isBanned (s : Db) (cleanupId userId : Id) : Bool := (s.bans.find? (cleanupId, userId)).isSome

end Db

/-! ## Row locks -/

inductive LockMode | keyShare | share | noKeyUpdate | update

/-- The lock strength order of the conflict table. -/
def LockMode.rank : LockMode → ℕ
  | .keyShare => 0 | .share => 1 | .noKeyUpdate => 2 | .update => 3

/-- The row-lock conflict table: each mode excludes the modes that could change what it reads. -/
def LockMode.conflicts (m n : LockMode) : Bool := 3 ≤ m.rank + n.rank

/-- What a lock is taken on: a row, an entry of a unique index, or an advisory name. -/
inductive LockKey where
  | event (id : Id)
  | ticketType (id : Id)
  | registration (id : Id)
  | waitlist (id : Id)
  | guest (id : Id)
  | member (cleanupId userId : Id)
  | ban (cleanupId userId : Id)
  | slot (id : Id)
  | slotClaim (cleanupId userId : Id)
  | activeRegistration (cleanupId : Id) (subject : Subject)
  | activeWaitlist (ticketTypeId : Id) (subject : Subject)
  | idempotencyKey (owner key : String)
  | registerIdempotency (owner key : String)
  | eventCapacity (cleanupId : Id)

structure Lock where
  key : LockKey
  mode : LockMode

def Lock.Conflict (k l : Lock) : Prop := k.key = l.key ∧ k.mode.conflicts l.mode = true

/-- The locks the database itself takes to make a write: the row, the index entries the
row enters, and the rows it refers to. -/
def Write.rowLocks : Write → List Lock
  | .insertEvent e => [⟨.event e.id, .update⟩]
  | .setEvent e => [⟨.event e.id, .noKeyUpdate⟩]
  | .insertTicketType t => [⟨.ticketType t.id, .update⟩]
  | .setTicketType id _ => [⟨.ticketType id, .noKeyUpdate⟩]
  | .deleteTicketType id => [⟨.ticketType id, .update⟩]
  | .reserveSeats id _ => [⟨.ticketType id, .noKeyUpdate⟩]
  | .releaseSeats id _ => [⟨.ticketType id, .noKeyUpdate⟩]
  | .insertRegistration r =>
      [⟨.registration r.id, .update⟩, ⟨.activeRegistration r.cleanupId r.subject, .update⟩] ++
        r.ticketTypeId.toList.map (fun t => ⟨.ticketType t, .keyShare⟩)
  | .cancelRegistration id _ _ => [⟨.registration id, .noKeyUpdate⟩]
  | .moveRegistration id t => [⟨.registration id, .noKeyUpdate⟩, ⟨.ticketType t, .keyShare⟩]
  | .insertWaitlist w =>
      [⟨.waitlist w.id, .update⟩, ⟨.activeWaitlist w.ticketTypeId w.subject, .update⟩,
        ⟨.ticketType w.ticketTypeId, .keyShare⟩]
  | .closeWaitlist id _ => [⟨.waitlist id, .noKeyUpdate⟩]
  | .offerWaitlist id _ _ => [⟨.waitlist id, .noKeyUpdate⟩]
  | .linkWaitlist id _ => [⟨.waitlist id, .noKeyUpdate⟩]
  | .insertGuest g => [⟨.guest g.id, .update⟩]
  | .cancelGuest id _ => [⟨.guest id, .noKeyUpdate⟩]
  | .insertMember m => [⟨.member m.cleanupId m.userId, .update⟩]
  | .deleteMember c u => [⟨.member c u, .update⟩]
  | .insertBan b => [⟨.ban b.cleanupId b.userId, .update⟩]
  | .deleteBan c u => [⟨.ban c u, .update⟩]
  | .insertSlot x => [⟨.slot x.id, .update⟩]
  | .claimSlot c u _ => [⟨.slotClaim c u, .update⟩]
  | .deleteSlotClaim c u => [⟨.slotClaim c u, .update⟩]
  | .insertIdempotencyKey k => [⟨.idempotencyKey k.owner k.key, .update⟩]

/-- The event-row lock that the lock order of the repository asks of the writer. -/
def Write.eventLock : Write → List Lock
  | .insertRegistration r => [⟨.event r.cleanupId, .share⟩]
  | .insertWaitlist w => [⟨.event w.cleanupId, .share⟩]
  | .claimSlot c _ _ => [⟨.event c, .share⟩]
  | .insertBan b => [⟨.event b.cleanupId, .noKeyUpdate⟩]
  | _ => []

def Write.needs (w : Write) : List Lock := w.rowLocks ++ w.eventLock

end Civfix.Attendance
