import Civfix.RosterRepository

/-! # The attendance operations

Every transaction that touches places, seats or bans, as one type, so that a run of the
service is a list of operations and an interleaving is labelled by them. The shared
contract's event window comes in as `Contract`. -/
namespace Civfix.Attendance

open KeyedTables LockedTransactions

/-- What the shared contract package decides about event windows. -/
structure Contract where
  hasEventEnded : Event → Instant → Bool
  defaultEventDuration : ℕ

inductive Operation where
  | createEvent (event : Event) (ticketTypes : List TicketTypeColumns) (ids : List Id)
  | updateEvent (event : Event)
  | insertSlot (slot : Slot)
  | insertGuest (guestId cleanupId : Id)
  | register (args : RegisterTxArgs) (h : args.waitlistId = none)
  | registerWalkup (args : WalkupRegisterArgs)
  | joinCleanup (cleanupId userId registrationId : Id) (now : Instant)
  | claimSlot (cleanupId userId slotId registrationId : Id) (now : Instant)
  | leaveCleanup (cleanupId userId : Id) (now : Instant)
  | releaseSlot (cleanupId userId : Id)
  | joinWaitlist (args : JoinWaitlistArgs)
  | leaveWaitlist (pick : Id → ℕ) (cleanupId : Id) (ticketTypeId : Option Id) (subject : Subject)
  | offerNextWaitlistEntry (ticketTypeId : Id) (now dbNow claimWindow : Instant) (skipped : List Id)
  | offerWaitlistEntry (cleanupId waitlistId : Id) (now dbNow claimWindow : Instant)
  | claimWaitlistOffer (args : ClaimWaitlistArgs)
  | expireWaitlistOffers (pick : Id → ℕ) (now : Instant) (limit : ℕ) (skipped : List Id)
  | cancelRegistration (cleanupId registrationId : Id) (actorId : Option Id) (now : Instant)
  | removeRegistration (pick : Id → ℕ) (cleanupId registrationId actorId : Id) (ban : Bool) (now : Instant)
  | transferRegistration (cleanupId registrationId ticketTypeId : Id)
  | applyBan (pick : Id → ℕ) (cleanupId userId actorId : Id) (now : Instant)
  | removeMember (pick : Id → ℕ) (cleanupId userId actorId : Id) (now : Instant)
  | unbanMember (cleanupId userId : Id)
  | cancelGuest (guestId : Id) (now : Instant)
  | scrubAttendeeContributions (userId : Id)
  | createTicketType (args : TicketTypeWriteArgs) (ticketTypeId : Id)
  | updateTicketType (cleanupId ticketTypeId : Id) (patch : TicketTypePatch)
  | deleteTicketType (cleanupId ticketTypeId : Id)

/-- A new event, with the ticket types it was duplicated with (`copyTicketTypesInTx`). -/
def createEvent (event : Event) : List (Id × TicketTypeColumns) → Stmt Unit
  | [] => inserting (fun s => if (s.events.find? event.id).isSome then .violated .primaryKey else .ok)
      (.insertEvent event)
  | (id, columns) :: rest => do
    createEvent event rest
    let row : TicketType := ⟨columns, id, event.id, 0⟩
    inserting (Db.checkTicketType row) (.insertTicketType row)

namespace Contract

variable (contract : Contract)

def program : Operation → Stmt Unit
  | .createEvent event columns ids => createEvent event (ids.zip columns)
  | .updateEvent event => modifying (fun _ => [.setEvent event])
  | .insertSlot slot => inserting (fun s => if (s.slots.find? slot.id).isSome then .violated .primaryKey else .ok)
      (.insertSlot slot)
  | .insertGuest g c => Attendance.insertGuest g c
  | .register args _ => do let _ ← registerIn args
  | .registerWalkup args => do let _ ← registerWalkupTx args
  | .joinCleanup c u r now => do let _ ← joinCleanupTx contract.hasEventEnded c u r now
  | .claimSlot c u slot r now => do let _ ← Attendance.claimSlot contract.hasEventEnded c u slot r now
  | .leaveCleanup c u now => do let _ ← Attendance.leaveCleanup c u now
  | .releaseSlot c u => do let _ ← Attendance.releaseSlot c u
  | .joinWaitlist args => do let _ ← joinWaitlistIn contract.hasEventEnded args
  | .leaveWaitlist pick c t x => do let _ ← cancelWaitlistEntriesIn pick c t x
  | .offerNextWaitlistEntry t now dbNow window skipped => do
    let _ ← Attendance.offerNextWaitlistEntry contract.defaultEventDuration t now dbNow window skipped
  | .offerWaitlistEntry c w now dbNow window => do
    let _ ← Attendance.offerWaitlistEntry contract.defaultEventDuration c w now dbNow window
  | .claimWaitlistOffer args => do let _ ← Attendance.claimWaitlistOffer contract.hasEventEnded args
  | .expireWaitlistOffers pick now limit skipped => do
    let _ ← Attendance.expireWaitlistOffers pick now limit skipped
  | .cancelRegistration c r actor now => do let _ ← cancelRegistrationIn c r actor now
  | .removeRegistration pick c r actor ban now => do let _ ← removeRegistrationIn pick c r actor ban now
  | .transferRegistration c r t => do let _ ← transferRegistrationIn c r t
  | .applyBan pick c u actor now => do let _ ← applyBanIn pick c u actor now
  | .removeMember pick c u actor now => do let _ ← Attendance.removeMember pick c u actor now
  | .unbanMember c u => do let _ ← Attendance.unbanMember c u
  | .cancelGuest g now => do let _ ← Attendance.cancelGuest g now
  | .scrubAttendeeContributions u => do let _ ← Attendance.scrubAttendeeContributions u
  | .createTicketType args id => do let _ ← insertTicketTypeIn args id
  | .updateTicketType c t patch => do let _ ← updateTicketTypeIn c t patch
  | .deleteTicketType c t => do let _ ← Attendance.deleteTicketType c t

/-- One operation as an atomic step; a transaction that fails leaves the database as it was. -/
def step (s : Db) (o : Operation) : Db := (engine.exec (contract.program o) s).2

def run (s : Db) (os : List Operation) : Db := os.foldl contract.step s

end Contract

namespace Db

/-- A database before the first event: only organizations have members. -/
structure Fresh (s : Db) : Prop where
  events : s.events.rows = []
  ticketTypes : s.ticketTypes.rows = []
  registrations : s.registrations.rows = []
  waitlist : s.waitlist.rows = []
  bans : s.bans.rows = []
  slotClaims : s.slotClaims.rows = []

def empty : Db where
  events := .empty _
  ticketTypes := .empty _
  registrations := .empty _
  waitlist := .empty _
  guests := .empty _
  members := .empty _
  bans := .empty _
  slots := .empty _
  slotClaims := .empty _
  idempotencyKeys := .empty _
  organizationMembers := .empty _

theorem fresh_empty : empty.Fresh := ⟨rfl, rfl, rfl, rfl, rfl, rfl⟩

end Db

end Civfix.Attendance
