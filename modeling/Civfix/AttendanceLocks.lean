import Civfix.AttendanceTables

/-! # What the attendance locks guarantee

The storage engine of the attendance tables. A row lock from `FOR SHARE` up keeps its row.
Beyond its own row, a lock keeps what the lock order of the repository hangs on it:
`FOR SHARE` on an event row excludes new bans, `FOR NO KEY UPDATE` on it new places,
`FOR UPDATE` on a ticket type new references to it, and an entry of the active-waitlist
index a second active entry. Without any lock a waitlist entry still keeps its ticket type,
party and subject. -/
namespace Civfix.Attendance

open KeyedTables LockedTransactions

/-! ## Places at an event -/

def Registration.PlaceOf (cleanupId userId : Id) (r : Registration) : Prop :=
  r.cleanupId = cleanupId ∧ r.subject = .user userId ∧ r.status = .registered

def WaitlistEntry.PlaceOf (cleanupId userId : Id) (w : WaitlistEntry) : Prop :=
  w.cleanupId = cleanupId ∧ w.subject = .user userId ∧ w.Active

def SlotClaim.PlaceOf (cleanupId userId : Id) (c : SlotClaim) : Prop :=
  c.cleanupId = cleanupId ∧ c.userId = userId

/-- An entry that the active-waitlist index files under the ticket type and subject. -/
def WaitlistEntry.Indexed (ticketTypeId : Id) (subject : Subject) (w : WaitlistEntry) : Prop :=
  w.ticketTypeId = ticketTypeId ∧ w.subject = subject ∧ w.Active

/-- The columns of a waitlist entry that no statement rewrites. -/
structure WaitlistEntry.SameEntry (w w' : WaitlistEntry) : Prop where
  cleanupId : w'.cleanupId = w.cleanupId
  ticketTypeId : w'.ticketTypeId = w.ticketTypeId
  subject : w'.subject = w.subject
  partySize : w'.partySize = w.partySize

/-- A ticket type stays with its event. -/
def TicketType.SameEvent (t t' : TicketType) : Prop := t'.cleanupId = t.cleanupId

theorem TicketType.SameEvent.refl (t : TicketType) : t.SameEvent t := rfl

namespace WaitlistEntry

variable {w w' w'' : WaitlistEntry}

theorem SameEntry.refl (w : WaitlistEntry) : w.SameEntry w := ⟨rfl, rfl, rfl, rfl⟩

theorem SameEntry.trans (h : w.SameEntry w') (h' : w'.SameEntry w'') : w.SameEntry w'' :=
  ⟨h'.1.trans h.1, h'.2.trans h.2, h'.3.trans h.3, h'.4.trans h.4⟩

theorem sameEntry_offer (now e : Instant) (w : WaitlistEntry) : w.SameEntry (w.offer now e) := by
  unfold offer
  split <;> exact ⟨rfl, rfl, rfl, rfl⟩

theorem not_active_close (c : WaitlistClose) (w : WaitlistEntry) : ¬ (w.close c).Active := by
  cases c <;> simp [Active, close, WaitlistClose.status]

theorem active_offer {now e : Instant} (h : (w.offer now e).Active) : w.Active := by
  unfold offer at h
  split at h
  · next hw => exact .inl hw
  · exact h

end WaitlistEntry

/-! ## The engine -/

namespace Db

/-- No user gained a place at the event. -/
structure NoNewPlaces (cleanupId : Id) (a b : Db) : Prop where
  registrations : ∀ u, Table.NoNew (Registration.PlaceOf cleanupId u) a.registrations b.registrations
  waitlist : ∀ u, Table.NoNew (WaitlistEntry.PlaceOf cleanupId u) a.waitlist b.waitlist
  slotClaims : ∀ u, Table.NoNew (SlotClaim.PlaceOf cleanupId u) a.slotClaims b.slotClaims

def NoNewBans (cleanupId : Id) (a b : Db) : Prop :=
  Table.NoNew (fun x : Ban => x.cleanupId = cleanupId) a.bans b.bans

/-- No row came to refer to the ticket type. -/
structure NoNewReferences (ticketTypeId : Id) (a b : Db) : Prop where
  registrations : ∀ c, Table.NoNew (fun r : Registration => r.cleanupId = c ∧ r.ticketTypeId = some ticketTypeId)
    a.registrations b.registrations
  waitlist : ∀ c, Table.NoNew (fun w : WaitlistEntry => w.cleanupId = c ∧ w.ticketTypeId = ticketTypeId)
    a.waitlist b.waitlist

/-- The ticket type is still there, at the same event. -/
def TypeStays (ticketTypeId : Id) (a b : Db) : Prop :=
  Table.PersistAt TicketType.SameEvent ticketTypeId a.ticketTypes b.ticketTypes

def Evolves (a b : Db) : Prop := ∀ id, Table.PersistAt WaitlistEntry.SameEntry id a.waitlist b.waitlist

end Db

open Db in
/-- What a lock keeps of the state `a` in which it was taken, at a later state `b`. -/
def Lock.Protects (l : Lock) (a b : Db) : Prop :=
  match l.key with
  | .event c => (1 ≤ l.mode.rank → NoNewBans c a b) ∧ (2 ≤ l.mode.rank → NoNewPlaces c a b)
  | .ticketType t => TypeStays t a b ∧
      (1 ≤ l.mode.rank → a.ticketTypes.find? t = b.ticketTypes.find? t) ∧
      (3 ≤ l.mode.rank → NoNewReferences t a b)
  | .registration id => 1 ≤ l.mode.rank → a.registrations.find? id = b.registrations.find? id
  | .waitlist id => 1 ≤ l.mode.rank → a.waitlist.find? id = b.waitlist.find? id
  | .ban c u => 1 ≤ l.mode.rank → a.bans.find? (c, u) = b.bans.find? (c, u)
  | .slotClaim c u => 1 ≤ l.mode.rank → a.slotClaims.find? (c, u) = b.slotClaims.find? (c, u)
  | .activeWaitlist t x => Table.NoNew (WaitlistEntry.Indexed t x) a.waitlist b.waitlist
  | .guest _ | .member _ _ | .slot _ | .activeRegistration _ _ | .idempotencyKey _ _
  | .registerIdempotency _ _ | .eventCapacity _ => True

namespace Db

variable {a b : Db} (w : Write)

/-! ### One write on two versions of the tables -/

theorem registrations_find?_apply {id : Id} (h : a.registrations.find? id = b.registrations.find? id) :
    (a.apply w).registrations.find? id = (b.apply w).registrations.find? id := by
  cases w <;> simp [apply, Table.find?_insert, Table.find?_modify, h]

theorem waitlist_find?_apply {id : Id} (h : a.waitlist.find? id = b.waitlist.find? id) :
    (a.apply w).waitlist.find? id = (b.apply w).waitlist.find? id := by
  cases w <;> simp [apply, Table.find?_insert, Table.find?_modify, h]

theorem ticketTypes_find?_apply {id : Id} (h : a.ticketTypes.find? id = b.ticketTypes.find? id) :
    (a.apply w).ticketTypes.find? id = (b.apply w).ticketTypes.find? id := by
  cases w <;> simp [apply, Table.find?_insert, Table.find?_modify, Table.find?_remove, h]

theorem bans_find?_apply {c u : Id} (h : a.bans.find? (c, u) = b.bans.find? (c, u)) :
    (a.apply w).bans.find? (c, u) = (b.apply w).bans.find? (c, u) := by
  cases w <;> simp [apply, Table.find?_insert, Table.find?_remove, h]

theorem slotClaims_find?_apply {c u : Id} (h : a.slotClaims.find? (c, u) = b.slotClaims.find? (c, u)) :
    (a.apply w).slotClaims.find? (c, u) = (b.apply w).slotClaims.find? (c, u) := by
  cases w <;> simp [apply, Table.find?_insert, Table.find?_remove, h]

variable {w}

theorem registration_row (hn : ∀ n ∈ w.needs, n.Protects a b) (m : LockMode) {id : Id}
    (h : ⟨.registration id, m⟩ ∈ w.needs) (hm : 1 ≤ m.rank) :
    a.registrations.find? id = b.registrations.find? id := hn _ h hm

theorem waitlist_row (hn : ∀ n ∈ w.needs, n.Protects a b) (m : LockMode) {id : Id}
    (h : ⟨.waitlist id, m⟩ ∈ w.needs) (hm : 1 ≤ m.rank) :
    a.waitlist.find? id = b.waitlist.find? id := hn _ h hm

theorem registrations_noNew_apply (hn : ∀ n ∈ w.needs, n.Protects a b) {P : Registration → Prop}
    (h : Table.NoNew P a.registrations b.registrations) :
    Table.NoNew P (a.apply w).registrations (b.apply w).registrations := by
  cases w with
  | insertRegistration r =>
    exact h.insert_both r (registration_row hn .update (by simp [Write.needs, Write.rowLocks]) (by decide))
  | cancelRegistration id now actorId =>
    exact h.modify_both id _ (Registration.cancel_id now actorId)
      (registration_row hn .noKeyUpdate (by simp [Write.needs, Write.rowLocks]) (by decide))
  | moveRegistration id t =>
    exact h.modify_both id _ (Registration.move_id t)
      (registration_row hn .noKeyUpdate (by simp [Write.needs, Write.rowLocks]) (by decide))
  | _ => exact h

theorem waitlist_noNew_apply (hn : ∀ n ∈ w.needs, n.Protects a b) {P : WaitlistEntry → Prop}
    (h : Table.NoNew P a.waitlist b.waitlist) :
    Table.NoNew P (a.apply w).waitlist (b.apply w).waitlist := by
  cases w with
  | insertWaitlist x =>
    exact h.insert_both x (waitlist_row hn .update (by simp [Write.needs, Write.rowLocks]) (by decide))
  | closeWaitlist id c =>
    exact h.modify_both id _ (WaitlistEntry.close_id c)
      (waitlist_row hn .noKeyUpdate (by simp [Write.needs, Write.rowLocks]) (by decide))
  | offerWaitlist id now e =>
    exact h.modify_both id _ (WaitlistEntry.offer_id now e)
      (waitlist_row hn .noKeyUpdate (by simp [Write.needs, Write.rowLocks]) (by decide))
  | linkWaitlist id r =>
    exact h.modify_both id _ (WaitlistEntry.link_id r)
      (waitlist_row hn .noKeyUpdate (by simp [Write.needs, Write.rowLocks]) (by decide))
  | _ => exact h

theorem bans_noNew_apply (hn : ∀ n ∈ w.needs, n.Protects a b) {P : Ban → Prop}
    (h : Table.NoNew P a.bans b.bans) : Table.NoNew P (a.apply w).bans (b.apply w).bans := by
  cases w with
  | insertBan x =>
    have hrow : (⟨.ban x.cleanupId x.userId, .update⟩ : Lock) ∈ (Write.insertBan x).needs := by
      simp [Write.needs, Write.rowLocks]
    exact h.insert_both x (hn _ hrow (by simp [LockMode.rank]))
  | deleteBan c u => exact h.remove_both (c, u)
  | _ => exact h

theorem slotClaims_noNew_apply {P : SlotClaim → Prop} (h : Table.NoNew P a.slotClaims b.slotClaims) :
    Table.NoNew P (a.apply w).slotClaims (b.apply w).slotClaims := by
  cases w with
  | claimSlot c u slot =>
    refine (h.remove_both (c, u)).insert_both ⟨c, u, slot⟩ ?_
    simp only [Table.find?_remove, ↓reduceIte]
  | deleteSlotClaim c u => exact h.remove_both (c, u)
  | _ => exact h

theorem typeStays_apply (hn : ∀ n ∈ w.needs, n.Protects a b) {t : Id} (h : TypeStays t a b) :
    TypeStays t (a.apply w) (b.apply w) := by
  cases w with
  | insertTicketType x =>
    have hrow : (⟨.ticketType x.id, .update⟩ : Lock) ∈ (Write.insertTicketType x).needs := by
      simp [Write.needs, Write.rowLocks]
    exact h.insert_both .refl x ((hn _ hrow).2.1 (by simp [LockMode.rank]))
  | setTicketType id c => exact h.modify_both id _ (TicketType.setColumns_id c) (fun _ _ h => h)
  | reserveSeats id n => exact h.modify_both id _ (TicketType.reserve_id n) (fun _ _ h => h)
  | releaseSeats id n => exact h.modify_both id _ (TicketType.release_id n) (fun _ _ h => h)
  | deleteTicketType id => exact h.remove_both id
  | _ => exact h

theorem evolves_apply (hn : ∀ n ∈ w.needs, n.Protects a b) (h : Evolves a b) :
    Evolves (a.apply w) (b.apply w) := by
  intro x
  cases w with
  | insertWaitlist y =>
    exact (h x).insert_both .refl y (waitlist_row hn .update (by simp [Write.needs, Write.rowLocks]) (by decide))
  | closeWaitlist id c =>
    exact (h x).modify_both id _ (WaitlistEntry.close_id c) (fun _ _ h => ⟨h.1, h.2, h.3, h.4⟩)
  | offerWaitlist id now e =>
    refine (h x).modify_both id _ (WaitlistEntry.offer_id now e) (fun y y' hy => ?_)
    have h1 := WaitlistEntry.sameEntry_offer now e y
    have h2 := WaitlistEntry.sameEntry_offer now e y'
    exact ⟨by rw [h2.1, h1.1, hy.1], by rw [h2.2, h1.2, hy.2], by rw [h2.3, h1.3, hy.3],
      by rw [h2.4, h1.4, hy.4]⟩
  | linkWaitlist id r =>
    exact (h x).modify_both id _ (WaitlistEntry.link_id r) (fun _ _ h => ⟨h.1, h.2, h.3, h.4⟩)
  | _ => exact h x

/-! ### What one write leaves alone -/

theorem evolves_write (s : Db) (w : Write) : Evolves s (s.apply w) := by
  intro x
  cases w with
  | insertWaitlist y => exact .insert .refl x _ y
  | closeWaitlist id c => exact .modify .refl x _ id _ (WaitlistEntry.close_id c) (fun _ => ⟨rfl, rfl, rfl, rfl⟩)
  | offerWaitlist id now e =>
    exact .modify .refl x _ id _ (WaitlistEntry.offer_id now e) (WaitlistEntry.sameEntry_offer now e)
  | linkWaitlist id r => exact .modify .refl x _ id _ (WaitlistEntry.link_id r) (fun _ => ⟨rfl, rfl, rfl, rfl⟩)
  | _ => exact .refl .refl x _

theorem noNewBans_of_lock (a : Db) {w : Write} {c : Id} (hw : ⟨.event c, .noKeyUpdate⟩ ∉ w.eventLock) :
    NoNewBans c a (a.apply w) := by
  cases w with
  | insertBan b => exact .insert _ b (fun hb => hw (by simp [Write.eventLock, hb]))
  | deleteBan c u => exact .remove _ (c, u)
  | _ => exact .refl _ _

/-- So is every new place; all other writes only take places away. -/
theorem noNewPlaces_of_lock (a : Db) {w : Write} {c : Id} (hw : ⟨.event c, .share⟩ ∉ w.eventLock) :
    NoNewPlaces c a (a.apply w) := by
  cases w with
  | insertRegistration r =>
    refine ⟨fun u => .insert _ r (fun hp => hw ?_), fun _ => .refl _ _, fun _ => .refl _ _⟩
    simp [Write.eventLock, hp.1]
  | cancelRegistration id now actorId =>
    refine ⟨fun u => .modify _ id _ (Registration.cancel_id now actorId) (fun r _ hp => ?_),
      fun _ => .refl _ _, fun _ => .refl _ _⟩
    simp [Registration.PlaceOf, Registration.cancel] at hp
  | moveRegistration id t =>
    exact ⟨fun u => .modify _ id _ (Registration.move_id t) (fun _ _ hp => hp), fun _ => .refl _ _,
      fun _ => .refl _ _⟩
  | insertWaitlist x =>
    refine ⟨fun _ => .refl _ _, fun u => .insert _ x (fun hp => hw ?_), fun _ => .refl _ _⟩
    simp [Write.eventLock, hp.1]
  | closeWaitlist id k =>
    refine ⟨fun _ => .refl _ _, fun u => .modify _ id _ (WaitlistEntry.close_id k) (fun x _ hp => ?_),
      fun _ => .refl _ _⟩
    exact absurd hp.2.2 (x.not_active_close k)
  | offerWaitlist id now e =>
    refine ⟨fun _ => .refl _ _, fun u => .modify _ id _ (WaitlistEntry.offer_id now e) (fun x _ hp => ?_),
      fun _ => .refl _ _⟩
    have hx := WaitlistEntry.sameEntry_offer now e x
    exact ⟨hx.1 ▸ hp.1, hx.3 ▸ hp.2.1, WaitlistEntry.active_offer hp.2.2⟩
  | linkWaitlist id r =>
    exact ⟨fun _ => .refl _ _, fun u => .modify _ id _ (WaitlistEntry.link_id r) (fun _ _ hp => hp),
      fun _ => .refl _ _⟩
  | claimSlot c' u' slot =>
    refine ⟨fun _ => .refl _ _, fun _ => .refl _ _, fun u => (Table.NoNew.remove _ (c', u')).trans ?_⟩
    refine .insert _ _ (fun hp => hw ?_)
    simp [Write.eventLock, ← hp.1]
  | deleteSlotClaim c' u' => exact ⟨fun _ => .refl _ _, fun _ => .refl _ _, fun _ => .remove _ (c', u')⟩
  | _ => exact ⟨fun _ => .refl _ _, fun _ => .refl _ _, fun _ => .refl _ _⟩

end Db

theorem Write.not_compatible {w : Write} {l : Lock} (hw : ∀ n ∈ w.needs, ¬ n.Conflict l) {k : LockKey}
    {m : LockMode} (hm : ⟨k, m⟩ ∈ w.needs) (hk : l.key = k) : l.mode.rank < 3 - m.rank := by
  by_contra hr
  refine hw _ hm ⟨hk.symm, ?_⟩
  simp only [LockMode.conflicts, decide_eq_true_eq]
  omega

namespace Db

variable {l : Lock} (a : Db) {w : Write} (hw : ∀ n ∈ w.needs, ¬ n.Conflict l)
include hw

theorem noNewBans_write {c : Id} (hl : l.key = .event c) (hr : 1 ≤ l.mode.rank) : NoNewBans c a (a.apply w) := by
  refine noNewBans_of_lock a (fun hm => ?_)
  have h : l.mode.rank < 1 := Write.not_compatible hw (List.mem_append_right _ hm) hl
  omega

theorem noNewPlaces_write {c : Id} (hl : l.key = .event c) (hr : 2 ≤ l.mode.rank) :
    NoNewPlaces c a (a.apply w) := by
  refine noNewPlaces_of_lock a (fun hm => ?_)
  have h : l.mode.rank < 2 := Write.not_compatible hw (List.mem_append_right _ hm) hl
  omega

theorem typeStays_write {t : Id} (hl : l.key = .ticketType t) : TypeStays t a (a.apply w) := by
  cases w with
  | insertTicketType x => exact .insert .refl t _ x
  | setTicketType id c => exact .modify .refl t _ id _ (TicketType.setColumns_id c) (fun _ => rfl)
  | reserveSeats id n => exact .modify .refl t _ id _ (TicketType.reserve_id n) (fun _ => rfl)
  | releaseSeats id n => exact .modify .refl t _ id _ (TicketType.release_id n) (fun _ => rfl)
  | deleteTicketType id =>
    refine Table.PersistAt.remove_of_ne .refl ?_ _
    rintro rfl
    have h : l.mode.rank < 0 := Write.not_compatible hw (m := .update) (by simp [Write.needs, Write.rowLocks]) hl
    omega
  | _ => exact .refl .refl t _

theorem noNewReferences_write {t : Id} (hl : l.key = .ticketType t) (hr : 3 ≤ l.mode.rank) :
    NoNewReferences t a (a.apply w) := by
  have hshare : ⟨.ticketType t, .keyShare⟩ ∈ w.needs → False := by
    intro hm
    have h : l.mode.rank < 3 := Write.not_compatible hw hm hl
    omega
  cases w with
  | insertRegistration r =>
    refine ⟨fun _ => .insert _ r (fun hp => hshare ?_), fun _ => .refl _ _⟩
    simp [Write.needs, Write.rowLocks, hp.2]
  | cancelRegistration id now actorId =>
    exact ⟨fun _ => .modify _ id _ (Registration.cancel_id now actorId) (fun _ _ hp => hp), fun _ => .refl _ _⟩
  | moveRegistration id t' =>
    refine ⟨fun _ => .modify _ id _ (Registration.move_id t') (fun r _ hp => (hshare ?_).elim), fun _ => .refl _ _⟩
    have ht : t' = t := by simpa [Registration.move] using hp.2
    simp [Write.needs, Write.rowLocks, ht]
  | insertWaitlist x =>
    refine ⟨fun _ => .refl _ _, fun _ => .insert _ x (fun hp => hshare ?_)⟩
    simp [Write.needs, Write.rowLocks, hp.2]
  | closeWaitlist id k =>
    exact ⟨fun _ => .refl _ _, fun _ => .modify _ id _ (WaitlistEntry.close_id k) (fun _ _ hp => hp)⟩
  | offerWaitlist id now e =>
    refine ⟨fun _ => .refl _ _, fun _ => .modify _ id _ (WaitlistEntry.offer_id now e) (fun x _ hp => ?_)⟩
    have hx := WaitlistEntry.sameEntry_offer now e x
    exact ⟨hx.1 ▸ hp.1, hx.2 ▸ hp.2⟩
  | linkWaitlist id r =>
    exact ⟨fun _ => .refl _ _, fun _ => .modify _ id _ (WaitlistEntry.link_id r) (fun _ _ hp => hp)⟩
  | _ => exact ⟨fun _ => .refl _ _, fun _ => .refl _ _⟩

theorem indexed_write {t : Id} {x : Subject} (hl : l.key = .activeWaitlist t x) :
    Table.NoNew (WaitlistEntry.Indexed t x) a.waitlist (a.apply w).waitlist := by
  cases w with
  | insertWaitlist y =>
    refine .insert _ y (fun hp => ?_)
    have h : l.mode.rank < 0 := Write.not_compatible hw (k := .activeWaitlist t x) (m := .update)
      (by simp [Write.needs, Write.rowLocks, hp.1, hp.2.1]) hl
    omega
  | closeWaitlist id k =>
    exact .modify _ id _ (WaitlistEntry.close_id k) (fun y _ hp => absurd hp.2.2 (y.not_active_close k))
  | offerWaitlist id now e =>
    refine .modify _ id _ (WaitlistEntry.offer_id now e) (fun y _ hp => ?_)
    have hy := WaitlistEntry.sameEntry_offer now e y
    exact ⟨hy.2 ▸ hp.1, hy.3 ▸ hp.2.1, WaitlistEntry.active_offer hp.2.2⟩
  | linkWaitlist id r => exact .modify _ id _ (WaitlistEntry.link_id r) (fun _ _ hp => hp)
  | _ => exact .refl _ _

private theorem rank_of_row {k : LockKey} (hm : ∃ m : LockMode, 2 ≤ m.rank ∧ ⟨k, m⟩ ∈ w.needs) (hl : l.key = k) :
    l.mode.rank < 1 := by
  obtain ⟨m, hr, hm⟩ := hm
  have h := Write.not_compatible hw hm hl
  omega

theorem registration_write {id : Id} (hl : l.key = .registration id) (hr : 1 ≤ l.mode.rank) :
    a.registrations.find? id = (a.apply w).registrations.find? id := by
  have hne : ∀ {k m}, 2 ≤ m.rank → ⟨.registration k, m⟩ ∈ w.needs → id ≠ k := by
    rintro k m h2 hm rfl
    have := rank_of_row hw ⟨m, h2, hm⟩ hl
    omega
  cases w with
  | insertRegistration r =>
    have h := hne (m := .update) (by decide) (.head _)
    simp [apply, Table.find?_insert, h]
  | cancelRegistration k now actorId =>
    have h := hne (m := .noKeyUpdate) (by decide) (.head _)
    simp [apply, Table.find?_modify, h]
  | moveRegistration k t =>
    have h := hne (m := .noKeyUpdate) (by decide) (.head _)
    simp [apply, Table.find?_modify, h]
  | _ => rfl

theorem waitlist_write {id : Id} (hl : l.key = .waitlist id) (hr : 1 ≤ l.mode.rank) :
    a.waitlist.find? id = (a.apply w).waitlist.find? id := by
  have hne : ∀ {k m}, 2 ≤ m.rank → ⟨.waitlist k, m⟩ ∈ w.needs → id ≠ k := by
    rintro k m h2 hm rfl
    have := rank_of_row hw ⟨m, h2, hm⟩ hl
    omega
  cases w with
  | insertWaitlist x =>
    have h := hne (m := .update) (by decide) (.head _)
    simp [apply, Table.find?_insert, h]
  | closeWaitlist k c =>
    have h := hne (m := .noKeyUpdate) (by decide) (.head _)
    simp [apply, Table.find?_modify, h]
  | offerWaitlist k now e =>
    have h := hne (m := .noKeyUpdate) (by decide) (.head _)
    simp [apply, Table.find?_modify, h]
  | linkWaitlist k r =>
    have h := hne (m := .noKeyUpdate) (by decide) (.head _)
    simp [apply, Table.find?_modify, h]
  | _ => rfl

theorem ticketType_write {t : Id} (hl : l.key = .ticketType t) (hr : 1 ≤ l.mode.rank) :
    a.ticketTypes.find? t = (a.apply w).ticketTypes.find? t := by
  have hne : ∀ {k m}, 2 ≤ m.rank → ⟨.ticketType k, m⟩ ∈ w.needs → t ≠ k := by
    rintro k m h2 hm rfl
    have := rank_of_row hw ⟨m, h2, hm⟩ hl
    omega
  cases w with
  | insertTicketType x =>
    have h := hne (m := .update) (by decide) (.head _)
    simp [apply, Table.find?_insert, h]
  | setTicketType k c =>
    have h := hne (m := .noKeyUpdate) (by decide) (.head _)
    simp [apply, Table.find?_modify, h]
  | reserveSeats k n =>
    have h := hne (m := .noKeyUpdate) (by decide) (.head _)
    simp [apply, Table.find?_modify, h]
  | releaseSeats k n =>
    have h := hne (m := .noKeyUpdate) (by decide) (.head _)
    simp [apply, Table.find?_modify, h]
  | deleteTicketType k =>
    have h := hne (m := .update) (by decide) (.head _)
    simp [apply, Table.find?_remove, h]
  | _ => rfl

theorem ban_write {c u : Id} (hl : l.key = .ban c u) (hr : 1 ≤ l.mode.rank) :
    a.bans.find? (c, u) = (a.apply w).bans.find? (c, u) := by
  have hne : ∀ {x y m}, 2 ≤ m.rank → ⟨.ban x y, m⟩ ∈ w.needs → (c, u) ≠ (x, y) := by
    rintro x y m h2 hm ⟨⟩
    have := rank_of_row hw ⟨m, h2, hm⟩ hl
    omega
  cases w with
  | insertBan b =>
    have h := hne (m := .update) (by decide) (.head _)
    simp only [apply, Table.find?_insert, h, ↓reduceIte]
  | deleteBan x y =>
    have h := hne (m := .update) (by decide) (.head _)
    simp only [apply, Table.find?_remove, h, ↓reduceIte]
  | _ => rfl

theorem slotClaim_write {c u : Id} (hl : l.key = .slotClaim c u) (hr : 1 ≤ l.mode.rank) :
    a.slotClaims.find? (c, u) = (a.apply w).slotClaims.find? (c, u) := by
  have hne : ∀ {x y m}, 2 ≤ m.rank → ⟨.slotClaim x y, m⟩ ∈ w.needs → (c, u) ≠ (x, y) := by
    rintro x y m h2 hm ⟨⟩
    have := rank_of_row hw ⟨m, h2, hm⟩ hl
    omega
  cases w with
  | claimSlot x y slot =>
    have h := hne (m := .update) (by decide) (.head _)
    simp only [apply, Table.find?_insert, Table.find?_remove, h, ↓reduceIte]
  | deleteSlotClaim x y =>
    have h := hne (m := .update) (by decide) (.head _)
    simp only [apply, Table.find?_remove, h, ↓reduceIte]
  | _ => rfl

end Db

namespace Lock

open Db

variable {l : Lock} {a b c : Db}

theorem Conflict.symm {k l : Lock} (h : k.Conflict l) : l.Conflict k := by
  refine ⟨h.1.symm, ?_⟩
  have h2 := h.2
  simp only [LockMode.conflicts, decide_eq_true_eq] at h2 ⊢
  omega

theorem protects_refl (l : Lock) (a : Db) : l.Protects a a := by
  unfold Protects
  split
  · exact ⟨fun _ => .refl _ _, fun _ => ⟨fun _ => .refl _ _, fun _ => .refl _ _, fun _ => .refl _ _⟩⟩
  · exact ⟨.refl .refl _ _, fun _ => rfl, fun _ => ⟨fun _ => .refl _ _, fun _ => .refl _ _⟩⟩
  · exact fun _ => rfl
  · exact fun _ => rfl
  · exact fun _ => rfl
  · exact fun _ => rfl
  · exact .refl _ _
  all_goals trivial

theorem Protects.trans (h : l.Protects a b) (h' : l.Protects b c) : l.Protects a c := by
  obtain ⟨k, m⟩ := l
  cases k with
  | event e =>
    refine ⟨fun hr => (h.1 hr).trans (h'.1 hr), fun hr => ?_⟩
    obtain ⟨hg, hw, hs⟩ := h.2 hr
    obtain ⟨hg', hw', hs'⟩ := h'.2 hr
    exact ⟨fun u => (hg u).trans (hg' u), fun u => (hw u).trans (hw' u), fun u => (hs u).trans (hs' u)⟩
  | ticketType t =>
    refine ⟨Table.PersistAt.trans (fun h h' => h'.trans h) h.1 h'.1, fun hr => (h.2.1 hr).trans (h'.2.1 hr), ?_⟩
    exact fun hr => ⟨fun c => ((h.2.2 hr).1 c).trans ((h'.2.2 hr).1 c),
      fun c => ((h.2.2 hr).2 c).trans ((h'.2.2 hr).2 c)⟩
  | registration | waitlist | ban | slotClaim => exact fun hr => (h hr).trans (h' hr)
  | activeWaitlist t x => exact Table.NoNew.trans h h'
  | _ => trivial

theorem Protects.apply {w : Write} (hn : ∀ n ∈ w.needs, n.Protects a b) (h : l.Protects a b) :
    l.Protects (a.apply w) (b.apply w) := by
  obtain ⟨k, m⟩ := l
  cases k with
  | event e =>
    refine ⟨fun hr => bans_noNew_apply hn (h.1 hr), fun hr => ?_⟩
    obtain ⟨hg, hw, hs⟩ := h.2 hr
    exact ⟨fun u => registrations_noNew_apply hn (hg u), fun u => waitlist_noNew_apply hn (hw u),
      fun u => slotClaims_noNew_apply (hs u)⟩
  | ticketType t =>
    refine ⟨typeStays_apply hn h.1, fun hr => ticketTypes_find?_apply w (h.2.1 hr), fun hr => ?_⟩
    exact ⟨fun c => registrations_noNew_apply hn ((h.2.2 hr).1 c),
      fun c => waitlist_noNew_apply hn ((h.2.2 hr).2 c)⟩
  | registration id => exact fun hr => registrations_find?_apply w (h hr)
  | waitlist id => exact fun hr => waitlist_find?_apply w (h hr)
  | ban x y => exact fun hr => bans_find?_apply w (h hr)
  | slotClaim x y => exact fun hr => slotClaims_find?_apply w (h hr)
  | activeWaitlist t x => exact waitlist_noNew_apply hn h
  | _ => trivial

theorem protects_write (a : Db) (w : Write) (hw : ∀ n ∈ w.needs, ¬ n.Conflict l) :
    l.Protects a (a.apply w) := by
  unfold Protects
  split
  · next hl => exact ⟨noNewBans_write a hw hl, noNewPlaces_write a hw hl⟩
  · next hl => exact ⟨typeStays_write a hw hl, ticketType_write a hw hl, noNewReferences_write a hw hl⟩
  · next hl => exact registration_write a hw hl
  · next hl => exact waitlist_write a hw hl
  · next hl => exact ban_write a hw hl
  · next hl => exact slotClaim_write a hw hl
  · next hl => exact indexed_write a hw hl
  all_goals trivial

end Lock

/-- The attendance tables under the row locks of the repository. -/
def engine : Engine Db Write Lock where
  apply := Db.apply
  conflict := Lock.Conflict
  needs := Write.needs
  evolves := Db.Evolves
  protects := Lock.Protects
  conflict_symm := Lock.Conflict.symm
  evolves_refl _ _ := .refl .refl _ _
  evolves_trans h h' := fun x => (h x).trans (fun h h' => h.trans h') (h' x)
  evolves_apply _ h hn := Db.evolves_apply hn h
  evolves_write := Db.evolves_write
  protects_refl := Lock.protects_refl
  protects_trans := Lock.Protects.trans
  protects_apply _ _ hn h := Lock.Protects.apply hn h
  protects_write := Lock.protects_write

theorem engine_covers {k : LockKey} {m m' : LockMode} (h : m.rank ≤ m'.rank) :
    engine.Covers ⟨k, m'⟩ ⟨k, m⟩ := by
  rintro x ⟨hk, hc⟩
  have hc' : m'.conflicts x.mode = true := by
    simp only [LockMode.conflicts, decide_eq_true_eq] at hc ⊢
    omega
  exact ⟨hk, hc'⟩

end Civfix.Attendance
