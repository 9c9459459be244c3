import Mathlib.Data.List.MinMax
import Mathlib.Data.Prod.Lex
import Mathlib.Order.WithBot
import Civfix.KeyedTables

/-! # Account erasure: what happens to events and organizations

The statements of the erasure transaction that touch events, their teams and the
organizations behind them, in the order `runErasure` issues them. Each statement reads the
tables as the one before it left them, and the parts of one `WITH` read the same tables. `now`
is the transaction's `now()`, `date` the clock of the process when it cancels what is left.
The transaction's other statements (sessions, reports, posts, registrations, certificates,
moderation snapshots, documents) touch none of these tables. -/
namespace Civfix.Erasure

open KeyedTables

abbrev UserId := ℕ
abbrev OrganizationId := ℕ
abbrev CleanupId := ℕ
abbrev InviteId := ℕ
abbrev Instant := ℕ

inductive OrganizationRole | owner | admin | member deriving DecidableEq
inductive CleanupRole | organizer | cohost | member | staff | coordinator deriving DecidableEq
inductive CleanupStatus | upcoming | active | done | cancelled deriving DecidableEq
inductive InviteStatus | pending | accepted | revoked | expired | declined deriving DecidableEq

/-- A row of `users`, without the profile the tombstone blanks. -/
structure User where
  id : UserId
  deletedAt : Option Instant
  primaryOrganizationId : Option OrganizationId

structure Organization where
  id : OrganizationId
  deletedAt : Option Instant
  updatedAt : Instant

structure OrganizationMember where
  organizationId : OrganizationId
  userId : UserId
  role : OrganizationRole
  joinedAt : Instant
  deriving DecidableEq

structure OrganizationInvite where
  id : InviteId
  organizationId : OrganizationId
  userId : Option UserId
  invitedBy : Option UserId
  status : InviteStatus
  revokedAt : Option Instant

structure Cleanup where
  id : CleanupId
  organizerUserId : UserId
  title : String
  status : CleanupStatus
  endsAt : Instant
  organizationId : Option OrganizationId

structure CleanupMember where
  cleanupId : CleanupId
  userId : UserId
  role : CleanupRole
  joinedAt : Option Instant

structure CleanupTeamInvite where
  id : InviteId
  invitedUserId : Option UserId
  invitedEmail : Option String
  invitedBy : Option UserId
  status : InviteStatus
  emailScrubbedAt : Option Instant

inductive AuditTarget | cleanup (id : CleanupId) | organization (id : OrganizationId)

inductive AuditMeta where
  | newOrganizer (newOrganizerId : UserId)
  | invite (inviteId : InviteId) (reason : String)
  | teamRole (targetUserId : UserId) (held given : CleanupRole)

structure Audit where
  actorId : Option UserId
  action : String
  target : AuditTarget
  details : AuditMeta

abbrev OrganizationMember.key (m : OrganizationMember) : OrganizationId × UserId := (m.organizationId, m.userId)

abbrev CleanupMember.key (m : CleanupMember) : CleanupId × UserId := (m.cleanupId, m.userId)

/-- `organization_members_owner_uidx`: an owner's row is filed under its organization. -/
def OrganizationMember.owner? (m : OrganizationMember) : Option OrganizationId :=
  if m.role = .owner then some m.organizationId else none

structure Db where
  users : Table User.id
  organizations : Table Organization.id
  organizationMembers : Table OrganizationMember.key
  organizationInvites : Table OrganizationInvite.id
  cleanups : Table Cleanup.id
  cleanupMembers : Table CleanupMember.key
  cleanupTeamInvites : Table CleanupTeamInvite.id
  auditLog : List Audit
  ownerIndex : organizationMembers.Unique OrganizationMember.owner?

/-- `c.status <> 'cancelled' AND c.ends_at > now()`. -/
def Cleanup.live (c : Cleanup) (now : Instant) : Bool := decide (c.status ≠ .cancelled) && decide (now < c.endsAt)

namespace Db

variable (db : Db)

/-- The join with `users` on an id that is not deleted. -/
def alive (u : UserId) : Bool := (db.users.find? u).any (fun x => x.deletedAt.isNone)

/-- `tombstoneUser`; an unknown id throws, and the transaction is rolled back. -/
def tombstoneUser (now : Instant) (id : UserId) : Option Db :=
  if (db.users.find? id).isSome then
    some { db with
      users := db.users.modify id
        (fun u => { u with deletedAt := some (u.deletedAt.getD now), primaryOrganizationId := none }) (fun _ => rfl) }
  else none

/-! ## Organizations -/

def owns (id : UserId) (m : OrganizationMember) : Bool := decide (m.userId = id ∧ m.role = .owner)

/-- The `RETURNING organization_id` of the step-down. -/
def ownedOrgIds (id : UserId) : List OrganizationId :=
  (db.organizationMembers.rows.filter (owns id)).map (·.organizationId)

/-- The user's own organizations lose their owner. -/
def stepDown (id : UserId) : Table OrganizationMember.key :=
  db.organizationMembers.update (owns id) (fun m => { m with role := .admin }) (fun _ => rfl)

/-- The admin of the organization who joined first, `ORDER BY joined_at ASC, user_id ASC`. -/
def successor (id : UserId) (o : OrganizationId) : Option OrganizationMember :=
  ((db.stepDown id).rows.filter (fun m => decide (m.organizationId = o ∧ m.role = .admin ∧ m.userId ≠ id) &&
    db.alive m.userId)).argmin (fun m => toLex (m.joinedAt, m.userId))

/-- With nothing owned the source does not issue the statement, and it would rewrite nothing. -/
def promoteSuccessors (id : UserId) : Table OrganizationMember.key :=
  (db.stepDown id).update
    (fun m => decide (m.organizationId ∈ db.ownedOrgIds id ∧ db.successor id m.organizationId = some m))
    (fun m => { m with role := .owner }) (fun _ => rfl)

/-- `DELETE FROM organization_members WHERE user_id = id`, after the hand-over. -/
def releasedMembers (id : UserId) : Table OrganizationMember.key :=
  (db.promoteSuccessors id).filter (fun m => decide (m.userId ≠ id))

/-- An organization of the user that the hand-over left without an owner. -/
def orphaned (id : UserId) (o : Organization) : Bool :=
  decide (o.id ∈ db.ownedOrgIds id) && o.deletedAt.isNone &&
    !(db.releasedMembers id).rows.any (fun m => decide (m.organizationId = o.id ∧ m.role = .owner))

def orphanedOrgIds (id : UserId) : List OrganizationId :=
  (db.organizations.rows.filter (db.orphaned id)).map (·.id)

/-- A pending invite that the user sent or was sent. -/
def inviteOf (id : UserId) (i : OrganizationInvite) : Bool :=
  decide (i.status = .pending ∧ (i.invitedBy = some id ∨ i.userId = some id))

theorem owner?_eq_some {m : OrganizationMember} {o : OrganizationId} :
    m.owner? = some o ↔ m.role = .owner ∧ m.organizationId = o := by
  unfold OrganizationMember.owner?
  split
  · next h => simp [h]
  · next h => simp [h]

theorem mem_ownedOrgIds {id : UserId} {o : OrganizationId} :
    o ∈ db.ownedOrgIds id ↔ ∃ m, db.organizationMembers.find? (o, id) = some m ∧ m.role = .owner := by
  unfold ownedOrgIds
  simp only [List.mem_map, List.mem_filter, owns, decide_eq_true_eq]
  constructor
  · rintro ⟨m, ⟨hm, hid, hrole⟩, rfl⟩
    rw [Table.mem_rows_iff, OrganizationMember.key, hid] at hm
    exact ⟨m, hm, hrole⟩
  · rintro ⟨m, hm, hrole⟩
    obtain ⟨hmem, hkey⟩ := Table.find?_eq_some hm
    cases hkey
    exact ⟨m, ⟨hmem, rfl, hrole⟩, rfl⟩

/-- After the step-down the organizations that had the user as their owner have none: the
index lets an organization have no second owner. -/
theorem not_owned_of_stepDown {id : UserId} {k : OrganizationId × UserId} {m : OrganizationMember}
    (hm : (db.stepDown id).find? k = some m) (hrole : m.role = .owner) :
    db.organizationMembers.find? k = some m ∧ m.organizationId ∉ db.ownedOrgIds id := by
  rw [stepDown, Table.find?_update] at hm
  obtain ⟨x, hx, rfl⟩ := Option.map_eq_some_iff.mp hm
  split at hrole
  · cases hrole
  · next hnot =>
    rw [if_neg hnot]
    refine ⟨hx, fun howned => hnot ?_⟩
    obtain ⟨y, hy, hyrole⟩ := db.mem_ownedOrgIds.mp howned
    have hykey := Table.key_of_find? hy
    have hkeys : k = (x.organizationId, id) := by
      refine db.ownerIndex _ _ x y hx hy x.organizationId (owner?_eq_some.mpr ⟨hrole, rfl⟩)
        (owner?_eq_some.mpr ⟨hyrole, ?_⟩)
      exact congrArg Prod.fst hykey
    have hxkey := (Table.key_of_find? hx).trans hkeys
    simp only [owns, decide_eq_true_eq]
    exact ⟨congrArg Prod.snd hxkey, hrole⟩

/-- An owner after the hand-over was one before it, or is the successor in an organization of
the user. -/
theorem owner_of_promote {id : UserId} {k : OrganizationId × UserId} {m : OrganizationMember}
    (hm : (db.promoteSuccessors id).find? k = some m) (hrole : m.role = .owner) :
    (db.organizationMembers.find? k = some m ∧ m.organizationId ∉ db.ownedOrgIds id) ∨
      (m.organizationId ∈ db.ownedOrgIds id ∧ ∃ x, db.successor id m.organizationId = some x ∧ k = x.key) := by
  rw [promoteSuccessors, Table.find?_update] at hm
  obtain ⟨x, hx, rfl⟩ := Option.map_eq_some_iff.mp hm
  split
  · next hp =>
    simp only [decide_eq_true_eq] at hp
    exact .inr ⟨hp.1, x, hp.2, (Table.key_of_find? hx).symm⟩
  · next hp =>
    rw [if_neg hp] at hrole
    exact .inl (db.not_owned_of_stepDown hx hrole)

theorem ownerIndex_promoteSuccessors (id : UserId) : (db.promoteSuccessors id).Unique OrganizationMember.owner? := by
  intro k k' m m' hm hm' o ho ho'
  rw [owner?_eq_some] at ho ho'
  obtain ⟨hrole, rfl⟩ := ho
  obtain ⟨hrole', horg⟩ := ho'
  rcases db.owner_of_promote hm hrole with ⟨hold, hnot⟩ | ⟨hin, x, hx, rfl⟩
  · rcases db.owner_of_promote hm' hrole' with ⟨hold', -⟩ | ⟨hin', -⟩
    · exact db.ownerIndex k k' m m' hold hold' _ (owner?_eq_some.mpr ⟨hrole, rfl⟩) (owner?_eq_some.mpr ⟨hrole', horg⟩)
    · rw [horg] at hin'
      exact absurd hin' hnot
  · rcases db.owner_of_promote hm' hrole' with ⟨-, hnot'⟩ | ⟨-, y, hy, rfl⟩
    · rw [horg] at hnot'
      exact absurd hin hnot'
    · rw [horg, hx, Option.some.injEq] at hy
      rw [hy]

theorem ownerIndex_releasedMembers (id : UserId) : (db.releasedMembers id).Unique OrganizationMember.owner? := by
  refine (db.ownerIndex_promoteSuccessors id).of_old (fun k m o hm ho => ?_)
  rw [releasedMembers, Table.find?_filter] at hm
  exact ⟨m, (Option.filter_eq_some_iff.mp hm).1, ho⟩

/-- `releaseOrganizations`: the hand-over, the user's memberships and pending invites, and the
organizations left without an owner, which are deleted and taken off their events. -/
def releaseOrganizations (now : Instant) (id : UserId) : Db :=
  { db with
    organizationMembers := db.releasedMembers id
    ownerIndex := db.ownerIndex_releasedMembers id
    organizationInvites := db.organizationInvites.update (inviteOf id)
      (fun i => { i with status := .revoked, revokedAt := some now }) (fun _ => rfl)
    auditLog := db.auditLog ++ (db.organizationInvites.rows.filter (inviteOf id)).map (fun i =>
      ⟨some id, "org.invite_revoked", .organization i.organizationId, .invite i.id "account_deleted"⟩)
    organizations := db.organizations.update (db.orphaned id)
      (fun o => { o with deletedAt := some now, updatedAt := now }) (fun _ => rfl)
    cleanups := db.cleanups.update (fun c => c.organizationId.any (fun o => decide (o ∈ db.orphanedOrgIds id)))
      (fun c => { c with organizationId := none }) (fun _ => rfl)
    cleanupTeamInvites := db.cleanupTeamInvites.update
      (fun i => decide (i.status = .pending ∧ (i.invitedUserId = some id ∨ i.invitedBy = some id)))
      (fun i => { i with status := .revoked, invitedEmail := none, emailScrubbedAt := some now }) (fun _ => rfl) }

/-! ## Events -/

structure TransferredEvent where
  cleanupId : CleanupId
  newOrganizer : UserId
  title : String
  deriving DecidableEq

/-- The owner of the event's organization, when both are there and the owner is somebody else.
The owner index leaves at most one row to choose from. -/
def ownerCandidate (now : Instant) (id : UserId) (c : Cleanup) : Option UserId :=
  if c.organizerUserId = id ∧ c.live now = true then
    ((db.organizationMembers.rows.filter (fun om => decide (c.organizationId = some om.organizationId ∧
      om.role = .owner ∧
      om.userId ≠ id) && (db.organizations.find? om.organizationId).any (fun o => o.deletedAt.isNone) &&
      db.alive om.userId)).head?).map (·.userId)
  else none

/-- The co-host who joined first, `ORDER BY joined_at ASC NULLS LAST, user_id ASC`. -/
def cohostCandidate (now : Instant) (id : UserId) (c : Cleanup) : Option UserId :=
  if c.organizerUserId = id ∧ c.live now = true then
    ((db.cleanupMembers.rows.filter (fun m => decide (m.cleanupId = c.id ∧
      m.role = .cohost) && db.alive m.userId)).argmin
      (fun m => toLex ((m.joinedAt : WithTop Instant), m.userId))).map (·.userId)
  else none

/-- The rows the `moved` part of the statement returns. -/
def moved (candidate : Cleanup → Option UserId) : List TransferredEvent :=
  db.cleanups.rows.filterMap (fun c => (candidate c).map (fun u => ⟨c.id, u, c.title⟩))

def setOrganizers (candidate : Cleanup → Option UserId) : Table Cleanup.id :=
  db.cleanups.update (fun c => (candidate c).isSome)
    (fun c => { c with organizerUserId := (candidate c).getD c.organizerUserId }) (fun _ => rfl)

def hostTransferred (id : UserId) (e : TransferredEvent) : Audit :=
  ⟨some id, "event.host_transferred", .cleanup e.cleanupId, .newOrganizer e.newOrganizer⟩

/-- `INSERT INTO cleanup_members ... ON CONFLICT (cleanup_id, user_id) DO UPDATE SET role = 'organizer'`. -/
def seat (now : Instant) (t : Table CleanupMember.key) (e : TransferredEvent) : Table CleanupMember.key :=
  (t.insert ⟨e.cleanupId, e.newOrganizer, .organizer, some now⟩).modify (e.cleanupId, e.newOrganizer)
    (fun m => { m with role := .organizer }) (fun _ => rfl)

def transferToOrganizationOwners (now : Instant) (id : UserId) : Db × List TransferredEvent :=
  let events := db.moved (db.ownerCandidate now id)
  ({ db with
      cleanups := db.setOrganizers (db.ownerCandidate now id)
      cleanupMembers := events.foldl (seat now) db.cleanupMembers
      auditLog := db.auditLog ++ events.map (hostTransferred id) }, events)

def transferToCohosts (now : Instant) (id : UserId) : Db × List TransferredEvent :=
  let events := db.moved (db.cohostCandidate now id)
  ({ db with
      cleanups := db.setOrganizers (db.cohostCandidate now id)
      cleanupMembers := db.cleanupMembers.update
        (fun m => decide (m.key ∈ events.map (fun e => (e.cleanupId, e.newOrganizer))))
        (fun m => { m with role := .organizer }) (fun _ => rfl)
      auditLog := db.auditLog ++ events.map (hostTransferred id) }, events)

/-- The roles on a team below the organizer's: `role IN ('cohost', 'staff', 'coordinator')`. -/
def teamRole (r : CleanupRole) : Bool := decide (r = .cohost ∨ r = .staff ∨ r = .coordinator)

/-- The first statement: the organizer's role on events that somebody else organizes now. -/
def demoteOrganizer (id : UserId) : Db :=
  { db with
    cleanupMembers := db.cleanupMembers.update
      (fun m => decide (m.userId = id ∧ m.role = .organizer) &&
        (db.cleanups.find? m.cleanupId).any (fun c => decide (c.organizerUserId ≠ id)))
      (fun m => { m with role := .member }) (fun _ => rfl) }

def held (id : UserId) (m : CleanupMember) : Bool := decide (m.userId = id) && teamRole m.role

/-- The second: every other role on a team. -/
def demoteTeam (id : UserId) : Db :=
  { db with
    cleanupMembers := db.cleanupMembers.update (held id) (fun m => { m with role := .member }) (fun _ => rfl)
    auditLog := db.auditLog ++ (db.cleanupMembers.rows.filter (held id)).map (fun m =>
      ⟨none, "event.team_role_changed", .cleanup m.cleanupId, .teamRole id m.role .member⟩) }

def demoteRemainingTeamRoles (id : UserId) : Db := (db.demoteOrganizer id).demoteTeam id

def transferHostedEvents (now : Instant) (id : UserId) : Db × List TransferredEvent :=
  let owners := db.transferToOrganizationOwners now id
  let cohosts := owners.1.transferToCohosts now id
  (cohosts.1.demoteRemainingTeamRoles id, owners.2 ++ cohosts.2)

def cancelRemainingHostedEvents (date : Instant) (id : UserId) : Db :=
  { db with
    cleanups := db.cleanups.update (fun c => decide (c.organizerUserId = id) && c.live date)
      (fun c => { c with status := .cancelled }) (fun _ => rfl) }

/-- The transaction of `runErasure`: the database it commits and the events it moved. -/
def runErasure (now date : Instant) (id : UserId) : Option (Db × List TransferredEvent) :=
  (db.tombstoneUser now id).map (fun tombstoned =>
    let transferred := (tombstoned.releaseOrganizations now id).transferHostedEvents now id
    (transferred.1.cancelRemainingHostedEvents date id, transferred.2))

end Db

end Civfix.Erasure
