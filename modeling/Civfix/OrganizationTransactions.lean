import Civfix.OrganizationTables
import Civfix.RelyConditions
import Mathlib.Data.List.MinMax
import Mathlib.Data.Prod.Lex

/-! # The transactions of the organizations

Members, invites, suspension and the part of an account erasure that gives up an account's
organizations, statement by statement. What the service reads before it opens the transaction are the
first statements here: they lock nothing. An organization that the service has found is never removed
from the table, so the row locked afterwards is there. -/
namespace Civfix.Organizations

open KeyedTables LockedTransactions

/-- What the contract package decides. -/
structure Contract where
  /-- `can({ eventRole: null, orgRole }, "manage_org_members")`. -/
  canManage : Role → Bool
  /-- `MAX_ORG_INVITES_PER_ORG`. -/
  maxInvites : ℕ
  canManage_iff : ∀ r, canManage r = true ↔ r ≠ .member

/-- The roles that hold `manage_org_members`. -/
def Contract.managers (maxInvites : ℕ) : Contract :=
  ⟨fun r => decide (r ≠ .member), maxInvites, fun _ => decide_eq_true_iff⟩

inductive Refusal | notFound | forbidden | conflict | uniqueViolation

inductive Outcome
  | created | added | alreadyMember | unknownHandle | forbidden | updated | notMember | owner | lastAdmin | removed
  | notFound | userNotFound | soleOwner | invited | alreadyInvited | revoked | declined | expired | invalid
  | wrongRecipient | suspended | accepted | listed | erased

abbrev Transaction := Tx Db Write Lock Refusal

namespace Db

variable (s : Db)

/-- The seats with `owner` or `admin`. -/
def countAdminSeats (org : OrgId) : ℕ :=
  (s.members.rows.filter (fun m => decide (m.organizationId = org ∧ m.role ≠ .member))).length

def openInvites (org : OrgId) : List Invite :=
  s.invites.rows.filter (fun i => decide (i.organizationId = org ∧ i.status = .pending))

def countOpenInvites (org : OrgId) (now : Instant) : ℕ :=
  ((s.openInvites org).filter (fun i => decide (now < i.expiresAt))).length

/-- The account that signs in with the address. -/
def resolveEmail (email : String) : Option UserId :=
  (s.users.rows.find? (fun u => decide (u.email = some email ∧ u.emailVerified ∧ u.deletedAt = none))).map User.id

/-- `SELECT 1 FROM users WHERE id = ... AND email = ... AND email_verified = true AND deleted_at IS NULL`. -/
def HasVerified (user : UserId) (email : String) : Prop :=
  ∃ u ∈ s.users.find? user, u.email = some email ∧ u.emailVerified ∧ u.deletedAt = none

instance (user : UserId) (email : String) : Decidable (s.HasVerified user email) :=
  inferInstanceAs (Decidable (∃ u ∈ _, _))

/-- The row names the account, or carries an address that the account has verified. -/
def Addresses (i : Invite) (user : UserId) : Prop := i.userId = some user ∨ ∃ e ∈ i.email, s.HasVerified user e

instance (i : Invite) (user : UserId) : Decidable (s.Addresses i user) :=
  inferInstanceAs (Decidable (_ ∨ ∃ e ∈ i.email, _))

/-- `inviterRevocationReason` gives none: the account is there, not deleted, and manages the members. -/
def InviterStands (C : Contract) (org : OrgId) (inviter : Option UserId) : Prop :=
  ∃ u ∈ inviter, s.Live u ∧ ∃ r ∈ s.roleOf org u, C.canManage r = true

instance (C : Contract) (org : OrgId) (inviter : Option UserId) : Decidable (s.InviterStands C org inviter) :=
  inferInstanceAs (Decidable (∃ u ∈ inviter, _ ∧ ∃ r ∈ s.roleOf org u, _))

/-- The first live admin to have joined, other than the account. -/
def successor (leaving : UserId) (org : OrgId) : Option UserId :=
  ((s.members.rows.filter (fun m => decide (m.organizationId = org ∧ m.role = .admin ∧ m.userId ≠ leaving ∧
    s.Live m.userId))).argmin
    (fun m => toLex (m.joinedAt, m.userId))).map Member.userId

end Db

/-- The lock of a SELECT ... FOR that finds its row. -/
def lockFound {α : Type} (l : Lock) : Option α → List Lock
  | some _ => [l]
  | none => []

/-! ## What the service checks first -/

/-- `findOrganizationAccess` with a check of the role: the organization is not deleted and the actor has
a seat with a role that passes. -/
def requireRole (passes : Role → Bool) (org : OrgId) (actor : UserId) : Transaction Organization := do
  match ← Tx.select (fun s => (s.organizations.find? org, s.roleOf org actor)) with
  | (some o, some r) =>
    if o.deletedAt ≠ none then .abort .notFound
    else if passes r then pure o else .abort .forbidden
  | _ => .abort .notFound

def requireOrgMembership (org : OrgId) (actor : UserId) : Transaction Organization :=
    requireRole (fun _ => true) org actor

def requireOrgOwner (org : OrgId) (actor : UserId) : Transaction Organization :=
  requireRole (fun r => decide (r = .owner)) org actor

/-- `requireOrgCapability(organizationId, actorId, "manage_org_members")`. -/
def requireOrgCapability (C : Contract) (org : OrgId) (actor : UserId) : Transaction Organization :=
  requireRole C.canManage org actor

def assertNotSuspended (o : Organization) : Transaction Unit :=
  if o.suspendedAt = none then pure () else .abort .conflict

/-- The operator's check: a deleted organization is found too. -/
def requireAdminOrg (org : OrgId) : Transaction Unit := do
  if ← Tx.select (fun s => (s.organizations.find? org).isSome) then pure () else .abort .notFound

/-! ## Statements -/

def lockOrganization (org : OrgId) : Transaction Unit :=
  Tx.selectFor (fun _ => [Resource.exclusive (.organization org)]) (fun _ => ())

/-- `SELECT role FROM organization_members ... FOR UPDATE`. -/
def lockMemberRole (org : OrgId) (user : UserId) : Transaction (Option Role) :=
  Tx.selectFor (fun s => lockFound (Resource.exclusive (.member org user)) (s.members.find? (org, user)))
    (fun s => s.roleOf org user)

/-- Locks the organization, then the actor's seat FOR SHARE, and answers whether the actor may manage
the members. -/
def lockOrgForActor (C : Contract) (org : OrgId) (actor : UserId) : Transaction Bool := do
  lockOrganization org
  let role ← Tx.selectFor (fun s => lockFound (Resource.share (.member org actor)) (s.members.find? (org, actor)))
    (fun s => s.roleOf org actor)
  pure (role.any C.canManage)

/-- `INSERT INTO organization_members ... ON CONFLICT DO NOTHING RETURNING`. -/
def insertSeat (m : Member) : Transaction Bool :=
  engine.dml (fun s => if (s.members.find? m.key).isNone then [.insertMember m] else [])
    (fun s => (s.members.find? m.key).isNone)

def setRole (org : OrgId) (user : UserId) (role : Role) : Transaction Unit :=
  engine.dml (fun _ => [.setRole org user role]) (fun _ => ())

def revokeInvitesByInviter (org : OrgId) (inviter : UserId) : Transaction Unit :=
  engine.dml (fun s => ((s.openInvites org).filter (fun i => decide (i.invitedBy = some inviter))).map
    (fun i => .closeInvite i.id .revoked none)) (fun _ => ())

/-- `SET role = 'admin' WHERE organization_id = ... AND role = 'owner'`. -/
def demoteOwner (org : OrgId) : Transaction Unit :=
  engine.dml (fun s => (s.members.rows.filter (fun m => decide (m.organizationId = org ∧ m.role = .owner))).map
    (fun m => .setRole org m.userId .admin)) (fun _ => ())

/-- The transfer of ownership: the owner steps down before the new one is seated. -/
def stepDownFor (org : OrgId) (role : Role) : Transaction Unit := if role = .owner then demoteOwner org else pure ()

/-- A role change that takes away the power to invite withdraws the invites sent with it. -/
def withdrawInvites (C : Contract) (org : OrgId) (user : UserId) (existing role : Role) : Transaction Unit :=
  if C.canManage existing && !C.canManage role then revokeInvitesByInviter org user else pure ()

def expireInvites (org : OrgId) (now : Instant) : Transaction Unit :=
  engine.dml (fun s => ((s.openInvites org).filter (fun i => decide (i.expiresAt ≤ now))).map
    (fun i => .closeInvite i.id .expired none)) (fun _ => ())

def closeInvite (id : InviteId) (status : Closing) (user : Option UserId) : Transaction Unit :=
  engine.dml (fun _ => [.closeInvite id status user]) (fun _ => ())

/-- The seats of an organization are counted only where the change lowers an admin. -/
def lastAdmin (org : OrgId) (lowers : Bool) : Transaction Bool :=
  if lowers then Tx.select (fun s => decide (s.countAdminSeats org ≤ 1)) else pure false

/-! ## Members -/

def createOrganization (org : OrgId) (owner : UserId) (now : Instant) : Transaction Outcome := do
  let free ← engine.dml (fun s => if (s.organizations.find? org).isNone then [.insertOrganization ⟨org, none,
    none⟩] else [])
    (fun s => (s.organizations.find? org).isNone)
  if free then
    if ← insertSeat ⟨org, owner, .owner, now⟩ then pure .created else .abort .uniqueViolation
  else .abort .uniqueViolation

/-- The handle has resolved to the account, or to none that is live. -/
def addMember (C : Contract) (org : OrgId) (user : UserId) (role : SeatRole) (actor : UserId) (now : Instant) :
    Transaction Outcome := do
  assertNotSuspended (← requireOrgCapability C org actor)
  if ← Tx.select (fun s => decide (s.Live user)) then
    if ← lockOrgForActor C org actor then
      if ← insertSeat ⟨org, user, role.toRole, now⟩ then pure .added else pure .alreadyMember
    else pure .forbidden
  else pure .unknownHandle

def setMemberRole (C : Contract) (org : OrgId) (user : UserId) (role : SeatRole) (actor : UserId) :
    Transaction Outcome := do
  assertNotSuspended (← requireOrgOwner org actor)
  if user = actor then .abort .conflict
  else
    lockOrganization org
    match ← lockMemberRole org user with
    | none => pure .notMember
    | some .owner => pure .owner
    | some existing =>
      if existing = role.toRole then pure .updated
      else if ← lastAdmin org (decide (existing = .admin ∧ role = .member)) then pure .lastAdmin
      else
        setRole org user role.toRole
        withdrawInvites C org user existing role.toRole
        pure .updated

/-- Who takes a member away. -/
inductive Remover where
  | self
  | manager (actor : UserId)
  | operator
  deriving DecidableEq

def requireRemover (C : Contract) (org : OrgId) (user : UserId) : Remover → Transaction Unit
  | .self => do let _ ← requireOrgMembership org user
  | .manager actor => do let _ ← requireOrgCapability C org actor
  | .operator => requireAdminOrg org

/-- `DELETE FROM organization_members ... AND role <> 'owner' RETURNING role`. -/
def deleteNonOwner (org : OrgId) (user : UserId) : Transaction Bool :=
  engine.dml (fun s => if s.roleOf org user = none ∨ s.roleOf org user = some .owner then [] else [.deleteMember org user])
    (fun s => decide (¬ (s.roleOf org user = none ∨ s.roleOf org user = some .owner)))

def removeMember (C : Contract) (org : OrgId) (user : UserId) (by_ : Remover) : Transaction Outcome := do
  requireRemover C org user by_
  lockOrganization org
  let _ ← Tx.selectFor (fun s => lockFound (Resource.exclusive (.user user)) (s.users.find? user)) (fun _ => ())
  let targetRole ← lockMemberRole org user
  if ← lastAdmin org (decide (targetRole = some .admin)) then pure .lastAdmin
  else if ← deleteNonOwner org user then
    revokeInvitesByInviter org user
    pure .removed
  else if (← Tx.select (fun s => s.roleOf org user)).isSome then pure .owner else pure .notMember

def adminAddMember (org : OrgId) (user : UserId) (role : Role) (now : Instant) : Transaction Outcome := do
  requireAdminOrg org
  let live ← Tx.selectFor (fun s => if s.Open org then [Resource.exclusive (.organization org)] else [])
    (fun s => decide (s.Open org))
  if live then
    if ← Tx.select (fun s => decide (s.Live user)) then
      if (← Tx.select (fun s => s.roleOf org user)).isSome then pure .alreadyMember
      else
        stepDownFor org role
        if ← insertSeat ⟨org, user, role, now⟩ then pure .added else .abort .uniqueViolation
    else pure .userNotFound
  else pure .notFound

def adminSetMemberRole (C : Contract) (org : OrgId) (user : UserId) (role : Role) : Transaction Outcome := do
  requireAdminOrg org
  lockOrganization org
  match ← lockMemberRole org user with
  | none => pure .notMember
  | some existing =>
    if existing = role then pure .updated
    else if existing = .owner then pure .soleOwner
    else
      stepDownFor org role
      setRole org user role
      withdrawInvites C org user existing role
      pure .updated

/-! ## Invites -/

structure NewInvite where
  id : InviteId
  organizationId : OrgId
  email : String
  role : SeatRole
  tokenHash : String
  invitedBy : UserId
  now : Instant
  expiresAt : Instant
  deriving DecidableEq

def NewInvite.row (x : NewInvite) (userId : Option UserId) : Invite :=
  ⟨x.id, x.organizationId, some x.email, userId, x.role, x.tokenHash, .pending, some x.invitedBy, x.expiresAt⟩

/-- The insert skips an address that has an open invite, and throws on a key that is taken. -/
def insertInvite (i : Invite) : Transaction Bool := do
  let (free, fresh) ← engine.dml
    (fun s => if (s.openInvites i.organizationId).all (fun j => decide (j.email ≠ i.email)) ∧
      (s.invites.find? i.id).isNone
      then [.insertInvite i] else [])
    (fun s => ((s.openInvites i.organizationId).all (fun j => decide (j.email ≠ i.email)),
      (s.invites.find? i.id).isNone))
  if free && !fresh then .abort .uniqueViolation else pure free

def createInvite (C : Contract) (x : NewInvite) : Transaction Outcome := do
  assertNotSuspended (← requireOrgCapability C x.organizationId x.invitedBy)
  let userId ← Tx.select (fun s => s.resolveEmail x.email)
  if ← lockOrgForActor C x.organizationId x.invitedBy then
    expireInvites x.organizationId x.now
    if C.maxInvites ≤ (← Tx.select (fun s => s.countOpenInvites x.organizationId x.now)) then .abort .conflict
    else if ← insertInvite (x.row userId) then pure .invited else pure .alreadyInvited
  else pure .forbidden

def listInvites (C : Contract) (org : OrgId) (actor : UserId) (now : Instant) : Transaction Outcome := do
  let _ ← requireOrgCapability C org actor
  expireInvites org now
  pure .listed

def revokeInvite (C : Contract) (org : OrgId) (id : InviteId) (actor : UserId) : Transaction Outcome := do
  let _ ← requireOrgCapability C org actor
  let found ← engine.dml
    (fun s => if (s.invites.find? id).any (fun i => decide (i.organizationId = org ∧ i.status = .pending))
      then [.closeInvite id .revoked none] else [])
    (fun s => (s.invites.find? id).any (fun i => decide (i.organizationId = org ∧ i.status = .pending)))
  if found then pure .revoked else pure .notFound

def lockInvite (id : InviteId) : Transaction (Option Invite) :=
  Tx.selectFor (fun s => lockFound (Resource.exclusive (.invite id)) (s.invites.find? id)) (fun s => s.invites.find? id)

def declineInvite (id : InviteId) (user : UserId) (now : Instant) : Transaction Outcome := do
  match ← lockInvite id with
  | none => pure .invalid
  | some i =>
    if i.status ≠ .pending then pure .invalid
    else if ← Tx.select (fun s => decide (s.Addresses i user)) then
      if i.expiresAt ≤ now then
        closeInvite id .expired none
        pure .expired
      else
        closeInvite id .declined (some user)
        pure .declined
    else pure .invalid

/-- An invite is found by the hash of its token or by its id. -/
inductive InviteLookup where
  | tokenHash (hash : String)
  | inviteId (id : InviteId)
  deriving DecidableEq

def InviteLookup.Finds (i : Invite) : InviteLookup → Prop
  | .tokenHash hash => i.tokenHash = hash
  | .inviteId id => i.id = id

instance (i : Invite) : (by_ : InviteLookup) → Decidable (by_.Finds i)
  | .tokenHash _ => inferInstanceAs (Decidable (_ = _))
  | .inviteId _ => inferInstanceAs (Decidable (_ = _))

/-- Who may answer: an invite without an address is open to the holder of its token. -/
def InviteLookup.Admits (addressed : Bool) (i : Invite) : InviteLookup → Bool
  | .tokenHash _ => i.email.isNone || addressed
  | .inviteId _ => addressed

def lockInvitedOrg (org : OrgId) : Transaction (Option Organization) :=
  Tx.selectFor (fun s => if s.Open org then [Resource.exclusive (.organization org)] else [])
    (fun s => (s.organizations.find? org).filter (fun o => decide (o.deletedAt = none)))

/-- A member that is there already keeps the seat. -/
def seatInvitee (i : Invite) (org : OrgId) (user : UserId) (now : Instant) : Transaction Outcome := do
  let _ ← insertSeat ⟨org, user, i.role.toRole, now⟩
  closeInvite i.id .accepted (some user)
  pure .accepted

/-- The invite and its organization are locked. -/
def acceptLocked (C : Contract) (by_ : InviteLookup) (o : Organization) (i : Invite) (user : UserId) (now : Instant) :
    Transaction Outcome := do
  if i.status ≠ .pending then pure .invalid
  else
    let addressed ← Tx.select (fun s => decide (s.Addresses i user))
    if by_.Admits addressed i = false then pure .wrongRecipient
    else if i.expiresAt ≤ now then
      closeInvite i.id .expired none
      pure .expired
    else
      let stands ← Tx.select (fun s => decide (s.InviterStands C o.id i.invitedBy))
      if stands = false then
        closeInvite i.id .revoked none
        pure .invalid
      else if o.suspendedAt ≠ none then pure .suspended
      else seatInvitee i o.id user now

def acceptInvite (C : Contract) (by_ : InviteLookup) (user : UserId) (now : Instant) : Transaction Outcome := do
  match ← Tx.select (fun s => s.invites.rows.find? (fun i => decide (by_.Finds i))) with
  | none => pure .invalid
  | some hit =>
    match ← lockInvitedOrg hit.organizationId with
    | none => pure .invalid
    | some o =>
      match ← lockInvite hit.id with
      | none => pure .invalid
      | some i => acceptLocked C by_ o i user now

/-! ## Suspension and erasure -/

def setSuspended (org : OrgId) (at_ : Option Instant) : Transaction Outcome := do
  let found ← engine.dml (fun s => if s.Open org then [.setSuspended org at_] else []) (fun s => decide (s.Open org))
  if found then pure .updated else pure .notFound

def tombstoneUser (user : UserId) (now : Instant) : Transaction Unit := do
  let found ← engine.dml (fun s => if (s.users.find? user).isSome then [.tombstoneUser user now] else [])
    (fun s => (s.users.find? user).isSome)
  if found then pure () else .abort .notFound

def lockOwnedOrganizations (user : UserId) : Transaction Unit :=
  Tx.selectFor (fun s => (s.members.rows.filter (fun m => decide (m.userId = user ∧ m.role = .owner))).map
    (fun m => Resource.exclusive (.organization m.organizationId))) (fun _ => ())

/-- `SET role = 'admin' WHERE user_id = ... AND role = 'owner' RETURNING organization_id`. -/
def stepDown (user : UserId) : Transaction (List OrgId) :=
  engine.dml (fun s => (s.members.rows.filter (fun m => decide (m.userId = user ∧ m.role = .owner))).map
      (fun m => .setRole m.organizationId user .admin))
    (fun s => (s.members.rows.filter (fun m => decide (m.userId = user ∧ m.role = .owner))).map
      (fun m => m.organizationId))

def appointSuccessors (user : UserId) (owned : List OrgId) : Transaction Unit :=
  engine.dml (fun s => owned.filterMap (fun o => (s.successor user o).map (fun v => .setRole o v .owner))) (fun _ => ())

def deleteSeats (user : UserId) : Transaction Unit :=
  engine.dml (fun s => (s.members.rows.filter (fun m => decide (m.userId = user))).map
    (fun m => .deleteMember m.organizationId user)) (fun _ => ())

def revokeInvitesOf (user : UserId) : Transaction Unit :=
  engine.dml (fun s => (s.invites.rows.filter (fun i => decide (i.Names user))).map
    (fun i => .closeInvite i.id .revoked none)) (fun _ => ())

/-- Of the organizations given up, those left without an owner are closed. -/
def closeOrphaned (owned : List OrgId) (now : Instant) : Transaction Unit :=
  engine.dml (fun s => (owned.filter (fun o => decide (s.Open o) &&
      s.members.rows.all (fun m => decide (¬ (m.organizationId = o ∧ m.role = .owner))))).map
    (fun o => .deleteOrganization o now)) (fun _ => ())

def releaseOrganizations (user : UserId) (now : Instant) : Transaction Unit := do
  lockOwnedOrganizations user
  let owned ← stepDown user
  appointSuccessors user owned
  deleteSeats user
  revokeInvitesOf user
  closeOrphaned owned now

def eraseAccount (user : UserId) (now : Instant) : Transaction Outcome := do
  tombstoneUser user now
  releaseOrganizations user now
  pure .erased

/-! ## The operations -/

inductive Operation where
  | createOrganization (org : OrgId) (owner : UserId) (now : Instant)
  | addMember (org : OrgId) (user : UserId) (role : SeatRole) (actor : UserId) (now : Instant)
  | setMemberRole (org : OrgId) (user : UserId) (role : SeatRole) (actor : UserId)
  | removeMember (org : OrgId) (user : UserId) (by_ : Remover)
  | adminAddMember (org : OrgId) (user : UserId) (role : Role) (now : Instant)
  | adminSetMemberRole (org : OrgId) (user : UserId) (role : Role)
  | createInvite (x : NewInvite)
  | listInvites (org : OrgId) (actor : UserId) (now : Instant)
  | revokeInvite (org : OrgId) (id : InviteId) (actor : UserId)
  | declineInvite (id : InviteId) (user : UserId) (now : Instant)
  | acceptInvite (by_ : InviteLookup) (user : UserId) (now : Instant)
  | setSuspended (org : OrgId) (at_ : Option Instant)
  | eraseAccount (user : UserId) (now : Instant)
  deriving DecidableEq

def program (C : Contract) : Operation → Transaction Outcome
  | .createOrganization org owner now => createOrganization org owner now
  | .addMember org user role actor now => addMember C org user role actor now
  | .setMemberRole org user role actor => setMemberRole C org user role actor
  | .removeMember org user by_ => removeMember C org user by_
  | .adminAddMember org user role now => adminAddMember org user role now
  | .adminSetMemberRole org user role => adminSetMemberRole C org user role
  | .createInvite x => createInvite C x
  | .listInvites org actor now => listInvites C org actor now
  | .revokeInvite org id actor => revokeInvite C org id actor
  | .declineInvite id user now => declineInvite id user now
  | .acceptInvite by_ user now => acceptInvite C by_ user now
  | .setSuspended org at_ => setSuspended org at_
  | .eraseAccount user now => eraseAccount user now

/-- An organization with an owner, an admin and a member. -/
def ownerAdminMember : Db where
  organizations := (Table.empty _).insert ⟨1, none, none⟩
  users := (((Table.empty _).insert ⟨1, none, some "a", true⟩).insert ⟨2, none, some "b", true⟩).insert ⟨3, none,
    some "c", true⟩
  members := (((Table.empty _).insert ⟨1, 1, .owner, 0⟩).insert ⟨1, 2, .admin, 0⟩).insert ⟨1, 3, .member, 0⟩
  invites := Table.empty _

end Civfix.Organizations
