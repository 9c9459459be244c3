import Civfix.KeyedTables
import Civfix.LockedTransactions

/-! # Tables, writes and locks of the organizations

Organizations, accounts, seats and invites. Every write is of one row, so the row under a key after a
write is a function of the row before it. Rows are locked exclusively or shared: FOR SHARE on a seat,
and the key share that a foreign key takes on the account it refers to. An erasure rewrites the unique
handle of its account, which conflicts with that key share, so while it is in progress nobody seats the
account and no invite is filed in its name.

The partial unique index on owners is not among the locks: nothing below relies on it. -/
namespace Civfix.Organizations

open KeyedTables LockedTransactions

abbrev OrgId := ℕ
abbrev UserId := ℕ
abbrev InviteId := ℕ
abbrev Instant := ℕ

inductive Role | owner | admin | member deriving DecidableEq

/-- The roles that an invite or a member can give. -/
inductive SeatRole | admin | member deriving DecidableEq

def SeatRole.toRole : SeatRole → Role
  | .admin => .admin
  | .member => .member

structure Organization where
  id : OrgId
  deletedAt : Option Instant
  suspendedAt : Option Instant
  deriving DecidableEq

structure User where
  id : UserId
  deletedAt : Option Instant
  email : Option String
  emailVerified : Bool

/-- A row of `organization_members`. -/
structure Member where
  organizationId : OrgId
  userId : UserId
  role : Role
  joinedAt : Instant
  deriving DecidableEq

inductive InviteStatus | pending | accepted | revoked | expired | declined deriving DecidableEq

/-- The statuses that end an invite. -/
inductive Closing | accepted | revoked | expired | declined deriving DecidableEq

def Closing.toStatus : Closing → InviteStatus
  | .accepted => .accepted
  | .revoked => .revoked
  | .expired => .expired
  | .declined => .declined

/-- A row of `organization_invites`. -/
structure Invite where
  id : InviteId
  organizationId : OrgId
  email : Option String
  userId : Option UserId
  role : SeatRole
  tokenHash : String
  status : InviteStatus
  invitedBy : Option UserId
  expiresAt : Instant
  deriving DecidableEq

def Member.key (m : Member) : OrgId × UserId := (m.organizationId, m.userId)

/-- An open invite that the account sent or that is addressed to it. -/
def Invite.Names (i : Invite) (user : UserId) : Prop :=
  i.status = .pending ∧ (i.invitedBy = some user ∨ i.userId = some user)

instance (i : Invite) (user : UserId) : Decidable (i.Names user) := inferInstanceAs (Decidable (_ ∧ _))

structure Db where
  organizations : Table Organization.id
  users : Table User.id
  members : Table Member.key
  invites : Table Invite.id

inductive Write where
  | insertOrganization (o : Organization)
  | setSuspended (id : OrgId) (at_ : Option Instant)
  | deleteOrganization (id : OrgId) (now : Instant)
  | insertMember (m : Member)
  | setRole (org : OrgId) (user : UserId) (role : Role)
  | deleteMember (org : OrgId) (user : UserId)
  | insertInvite (i : Invite)
  /-- Ends the invite; an answer also names the account that gave it. -/
  | closeInvite (id : InviteId) (status : Closing) (user : Option UserId)
  | tombstoneUser (id : UserId) (now : Instant)
  deriving DecidableEq

def Invite.close (i : Invite) (status : Closing) (user : Option UserId) : Invite :=
  { i with status := status.toStatus, userId := user <|> i.userId }

def User.tombstone (u : User) (now : Instant) : User :=
  { u with deletedAt := u.deletedAt <|> some now, email := none, emailVerified := false }

def Member.withRole (m : Member) (role : Role) : Member := { m with role := role }

theorem Member.withRole_key (m : Member) (role : Role) : (m.withRole role).key = m.key := rfl

theorem Invite.close_id (i : Invite) (status : Closing) (user : Option UserId) : (i.close status user).id = i.id := rfl

theorem User.tombstone_id (u : User) (now : Instant) : (u.tombstone now).id = u.id := rfl

theorem Closing.toStatus_ne_pending (c : Closing) : c.toStatus ≠ .pending := by
  cases c <;> simp [toStatus]

theorem User.tombstone_deletedAt (u : User) (now : Instant) : (u.tombstone now).deletedAt ≠ none := by
  cases h : u.deletedAt <;> simp [tombstone, h]

namespace Db

def apply (s : Db) : Write → Db
  | .insertOrganization o => { s with organizations := s.organizations.insert o }
  | .setSuspended id at_ =>
    { s with organizations := s.organizations.modify id (fun o => { o with suspendedAt := at_ }) (fun _ => rfl) }
  | .deleteOrganization id now =>
    { s with organizations := s.organizations.modify id (fun o => { o with deletedAt := some now }) (fun _ => rfl) }
  | .insertMember m => { s with members := s.members.insert m }
  | .setRole o u r => { s with members := s.members.modify (o, u) (fun m => m.withRole r) (fun m => m.withRole_key r) }
  | .deleteMember o u => { s with members := s.members.remove (o, u) }
  | .insertInvite i => { s with invites := s.invites.insert i }
  | .closeInvite id st u => { s with invites := s.invites.modify id (fun i => i.close st u) (fun i => i.close_id st u) }
  | .tombstoneUser id now =>
    { s with users := s.users.modify id (fun u => u.tombstone now) (fun u => u.tombstone_id now) }

def roleOf (s : Db) (org : OrgId) (user : UserId) : Option Role := (s.members.find? (org, user)).map Member.role

/-- The account is there and not deleted. -/
def Live (s : Db) (user : UserId) : Prop := ∃ u ∈ s.users.find? user, u.deletedAt = none

instance (s : Db) (user : UserId) : Decidable (s.Live user) := inferInstanceAs (Decidable (∃ u ∈ _, _))

/-- The organization is there and not deleted. -/
def Open (s : Db) (org : OrgId) : Prop := ∃ o ∈ s.organizations.find? org, o.deletedAt = none

instance (s : Db) (org : OrgId) : Decidable (s.Open org) := inferInstanceAs (Decidable (∃ u ∈ _, _))

end Db

/-! ## One row at a time -/

namespace Write

/-- What the write makes of the organization row under the key. -/
def organization (k : OrgId) : Write → Option Organization → Option Organization
  | .insertOrganization o, x => if k = o.id then some (x.getD o) else x
  | .setSuspended id at_, x => if k = id then x.map (fun o => { o with suspendedAt := at_ }) else x
  | .deleteOrganization id now, x => if k = id then x.map (fun o => { o with deletedAt := some now }) else x
  | _, x => x

def user (k : UserId) : Write → Option User → Option User
  | .tombstoneUser id now, x => if k = id then x.map (fun u => u.tombstone now) else x
  | _, x => x

def member (k : OrgId × UserId) : Write → Option Member → Option Member
  | .insertMember m, x => if k = m.key then some (x.getD m) else x
  | .setRole o u r, x => if k = (o, u) then x.map (fun m => m.withRole r) else x
  | .deleteMember o u, x => if k = (o, u) then none else x
  | _, x => x

def invite (k : InviteId) : Write → Option Invite → Option Invite
  | .insertInvite i, x => if k = i.id then some (x.getD i) else x
  | .closeInvite id st u, x => if k = id then x.map (fun i => i.close st u) else x
  | _, x => x

end Write

namespace Db

variable (s : Db) (w : Write)

theorem find?_organizations (k : OrgId) :
    (s.apply w).organizations.find? k = w.organization k (s.organizations.find? k) := by
  cases w with
  | insertOrganization o => exact Table.find?_insert ..
  | setSuspended id at_ | deleteOrganization id now => simp only [apply, Write.organization, Table.find?_modify]
  | insertMember _ | setRole _ _ _ | deleteMember _ _ | insertInvite _ | closeInvite _ _ _ | tombstoneUser _ _ => rfl

theorem find?_users (k : UserId) : (s.apply w).users.find? k = w.user k (s.users.find? k) := by
  cases w with
  | tombstoneUser id now => simp only [apply, Write.user, Table.find?_modify]
  | insertOrganization _ | setSuspended _ _ | deleteOrganization _ _ | insertMember _ | setRole _ _ _
  | deleteMember _ _ | insertInvite _ | closeInvite _ _ _ => rfl

theorem find?_members (k : OrgId × UserId) : (s.apply w).members.find? k = w.member k (s.members.find? k) := by
  cases w with
  | insertMember m => exact Table.find?_insert ..
  | setRole o u r => simp only [apply, Write.member, Table.find?_modify]
  | deleteMember o u => exact Table.find?_remove ..
  | insertOrganization _ | setSuspended _ _ | deleteOrganization _ _ | insertInvite _ | closeInvite _ _ _
  | tombstoneUser _ _ => rfl

theorem find?_invites (k : InviteId) : (s.apply w).invites.find? k = w.invite k (s.invites.find? k) := by
  cases w with
  | insertInvite i => exact Table.find?_insert ..
  | closeInvite id st u => simp only [apply, Write.invite, Table.find?_modify]
  | insertOrganization _ | setSuspended _ _ | deleteOrganization _ _ | insertMember _ | setRole _ _ _
  | deleteMember _ _ | tombstoneUser _ _ => rfl

end Db

/-! ## Locks -/

inductive Resource where
  | organization (id : OrgId)
  | user (id : UserId)
  | member (org : OrgId) (user : UserId)
  | invite (id : InviteId)
  deriving DecidableEq

structure Lock where
  resource : Resource
  shared : Bool

def Resource.exclusive (r : Resource) : Lock := ⟨r, false⟩

def Resource.share (r : Resource) : Lock := ⟨r, true⟩

def Lock.Conflict (l l' : Lock) : Prop := l.resource = l'.resource ∧ ¬ (l.shared ∧ l'.shared)

instance (l l' : Lock) : Decidable (l.Conflict l') := inferInstanceAs (Decidable (_ ∧ _))

/-- A row written is locked, and an account that a new row refers to is key-shared. -/
def Write.needs : Write → List Lock
  | .insertOrganization o => [Resource.exclusive (.organization o.id)]
  | .setSuspended id _ | .deleteOrganization id _ => [Resource.exclusive (.organization id)]
  | .insertMember m => [Resource.exclusive (.member m.organizationId m.userId), Resource.share (.user m.userId)]
  | .setRole o u _ | .deleteMember o u => [Resource.exclusive (.member o u)]
  | .insertInvite i =>
    Resource.exclusive (.invite i.id) :: (i.invitedBy.toList ++ i.userId.toList).map (fun u => Resource.share (.user u))
  | .closeInvite id _ u => Resource.exclusive (.invite id) :: u.toList.map (fun u => Resource.share (.user u))
  | .tombstoneUser id _ => [Resource.exclusive (.user id)]

/-- What a lock keeps of the state `a` in which it was taken, at a later state `b`. An exclusive lock on
an account also keeps new rows from referring to it. -/
def Lock.Protects (a b : Db) : Lock → Prop
  | ⟨.organization o, _⟩ => b.organizations.find? o = a.organizations.find? o
  | ⟨.member o u, _⟩ => b.members.find? (o, u) = a.members.find? (o, u)
  | ⟨.invite i, _⟩ => b.invites.find? i = a.invites.find? i
  | ⟨.user u, true⟩ => b.users.find? u = a.users.find? u
  | ⟨.user u, false⟩ => b.users.find? u = a.users.find? u ∧
      (∀ o, a.members.find? (o, u) = none → b.members.find? (o, u) = none) ∧
      ∀ k i, b.invites.find? k = some i → i.Names u → a.invites.find? k = some i

/-- What becomes of an invite: an open one is as it was filed, and none is opened again. -/
structure Invite.Becomes (i j : Invite) : Prop where
  organization : j.organizationId = i.organizationId
  role : j.role = i.role
  pending : j.status = .pending → j = i

/-- What every committed write respects, whatever it locks. -/
structure Db.Evolves (a b : Db) : Prop where
  organizations : ∀ o, (a.organizations.find? o).isSome → (b.organizations.find? o).isSome
  users : ∀ u, b.Live u → b.users.find? u = a.users.find? u
  invites : ∀ k, Table.PersistAt Invite.Becomes k a.invites b.invites

theorem Invite.Becomes.refl (i : Invite) : i.Becomes i := ⟨rfl, rfl, fun _ => rfl⟩

theorem Invite.Becomes.trans {i j k : Invite} (h : i.Becomes j) (h' : j.Becomes k) : i.Becomes k := by
  refine ⟨h'.organization.trans h.organization, h'.role.trans h.role, fun hk => ?_⟩
  have hj := h'.pending hk
  subst hj
  exact h.pending hk

theorem Invite.becomes_close (i : Invite) (c : Closing) (u : Option UserId) : i.Becomes (i.close c u) :=
  ⟨rfl, rfl, fun h => absurd h c.toStatus_ne_pending⟩

namespace Db

variable {a b : Db} {w : Write}

theorem Live.of_evolves (h : Evolves a b) {u : UserId} (hb : b.Live u) : a.Live u := by
  have he := h.users u hb
  obtain ⟨x, hx, hl⟩ := hb
  exact ⟨x, by rw [← he]; exact hx, hl⟩

theorem Evolves.refl (a : Db) : Evolves a a := ⟨fun _ h => h, fun _ _ => rfl, fun _ => .refl .refl _ _⟩

theorem Evolves.trans {c : Db} (h : Evolves a b) (h' : Evolves b c) : Evolves a c :=
  ⟨fun o ho => h'.organizations o (h.organizations o ho),
    fun u hu => (h'.users u hu).trans (h.users u (Live.of_evolves h' hu)),
    fun k => (h.invites k).trans .trans (h'.invites k)⟩

theorem organization_isSome (w : Write) (k : OrgId) {x : Option Organization} (hx : x.isSome) :
    (w.organization k x).isSome := by
  cases w with
  | insertOrganization o | setSuspended o _ | deleteOrganization o _ =>
    simp only [Write.organization]
    split <;> simp [hx]
  | insertMember _ | setRole _ _ _ | deleteMember _ _ | insertInvite _ | closeInvite _ _ _ | tombstoneUser _ _ => exact hx

/-- An account that is live after a write is one that the write does not reach. -/
theorem user_of_live {k : UserId} {x : Option User} (h : ∃ u ∈ w.user k x, u.deletedAt = none) : w.user k x = x := by
  cases w with
  | tombstoneUser id now =>
    simp only [Write.user] at h ⊢
    split at h
    · obtain ⟨u, hu, hd⟩ := h
      obtain ⟨v, _, rfl⟩ := Option.map_eq_some_iff.mp hu
      exact absurd hd (v.tombstone_deletedAt now)
    · next hk => rw [if_neg hk]
  | insertOrganization _ | setSuspended _ _ | deleteOrganization _ _ | insertMember _ | setRole _ _ _
  | deleteMember _ _ | insertInvite _ | closeInvite _ _ _ => rfl

theorem evolves_write (s : Db) (w : Write) : Evolves s (s.apply w) := by
  refine ⟨fun o ho => ?_, fun u hu => ?_, fun k => ?_⟩
  · rw [find?_organizations]
    exact organization_isSome w o ho
  · rw [Live, find?_users] at hu
    rw [find?_users, user_of_live hu]
  · cases w with
    | insertInvite i => exact .insert .refl k _ i
    | closeInvite id st u => exact .modify .refl k _ id _ (fun i => i.close_id st u) (fun i => i.becomes_close st u)
    | insertOrganization _ | setSuspended _ _ | deleteOrganization _ _ | insertMember _ | setRole _ _ _
    | deleteMember _ _ | tombstoneUser _ _ => exact .refl .refl k _

theorem evolves_apply (hn : ∀ n ∈ w.needs, n.Protects a b) (h : Evolves a b) : Evolves (a.apply w) (b.apply w) := by
  refine ⟨fun o ho => ?_, fun u hu => ?_, fun k => ?_⟩
  · rw [find?_organizations] at ho ⊢
    cases ha : a.organizations.find? o with
    | some x => exact organization_isSome w o (h.organizations o (by simp [ha]))
    | none =>
      cases w with
      | insertOrganization x =>
        simp only [Write.organization, ha] at ho ⊢
        split at ho
        · next hk => simp [hk]
        · cases ho
      | setSuspended x _ | deleteOrganization x _ => simp [Write.organization, ha] at ho
      | insertMember _ | setRole _ _ _ | deleteMember _ _ | insertInvite _ | closeInvite _ _ _ | tombstoneUser _ _ =>
        simp [Write.organization, ha] at ho
  · rw [Live, find?_users] at hu
    have hb := user_of_live hu
    rw [hb] at hu
    rw [find?_users, find?_users, hb, h.users u hu, ← h.users u hu, hb]
  · cases w with
    | insertInvite i =>
      exact (h.invites k).insert_both .refl i (hn (Resource.exclusive (.invite i.id)) (by simp [Write.needs])).symm
    | closeInvite id st u =>
      refine (h.invites k).modify_both id _ (fun i => i.close_id st u) (fun i j hij => ?_)
      exact ⟨hij.organization, hij.role, fun hp => absurd hp st.toStatus_ne_pending⟩
    | insertOrganization _ | setSuspended _ _ | deleteOrganization _ _ | insertMember _ | setRole _ _ _
    | deleteMember _ _ | tombstoneUser _ _ => exact h.invites k

end Db

/-! ## What locks keep -/

theorem conflict_exclusive {r : Resource} {l : Lock} : r.exclusive.Conflict l ↔ r = l.resource := by
  simp [Lock.Conflict, Resource.exclusive]

theorem conflict_share {r r' : Resource} : r.share.Conflict r'.exclusive ↔ r = r' := by
  simp [Lock.Conflict, Resource.exclusive, Resource.share]

namespace Write

variable {w : Write}

theorem organization_of_unlocked {k : OrgId} (h : Resource.exclusive (.organization k) ∉ w.needs)
    (x : Option Organization) : w.organization k x = x := by
  cases w with
  | insertOrganization o =>
    have hk : k ≠ o.id := fun he => h (by simp [needs, he])
    simp only [organization, if_neg hk]
  | setSuspended id _ | deleteOrganization id _ =>
    have hk : k ≠ id := fun he => h (by simp [needs, he])
    simp only [organization, if_neg hk]
  | insertMember _ | setRole _ _ _ | deleteMember _ _ | insertInvite _ | closeInvite _ _ _ | tombstoneUser _ _ => rfl

theorem user_of_unlocked {k : UserId} (h : Resource.exclusive (.user k) ∉ w.needs) (x : Option User) :
    w.user k x = x := by
  cases w with
  | tombstoneUser id now =>
    have hk : k ≠ id := fun he => h (by simp [needs, he])
    simp only [user, if_neg hk]
  | insertOrganization _ | setSuspended _ _ | deleteOrganization _ _ | insertMember _ | setRole _ _ _
  | deleteMember _ _ | insertInvite _ | closeInvite _ _ _ => rfl

theorem member_of_unlocked {o : OrgId} {u : UserId} (h : Resource.exclusive (.member o u) ∉ w.needs)
    (x : Option Member) : w.member (o, u) x = x := by
  cases w with
  | insertMember m =>
    have hk : (o, u) ≠ m.key := by
      intro he
      have h1 : o = m.organizationId := congrArg Prod.fst he
      have h2 : u = m.userId := congrArg Prod.snd he
      exact h (by simp [needs, h1, h2])
    simp only [member, if_neg hk]
  | setRole o' u' _ | deleteMember o' u' =>
    have hk : (o, u) ≠ (o', u') := by
      rintro ⟨⟩
      exact h (by simp [needs])
    simp only [member, if_neg hk]
  | insertOrganization _ | setSuspended _ _ | deleteOrganization _ _ | insertInvite _ | closeInvite _ _ _
  | tombstoneUser _ _ => rfl

theorem invite_of_unlocked {k : InviteId} (h : Resource.exclusive (.invite k) ∉ w.needs) (x : Option Invite) :
    w.invite k x = x := by
  cases w with
  | insertInvite i =>
    have hk : k ≠ i.id := fun he => h (by simp [needs, he])
    simp only [invite, if_neg hk]
  | closeInvite id _ _ =>
    have hk : k ≠ id := fun he => h (by simp [needs, he])
    simp only [invite, if_neg hk]
  | insertOrganization _ | setSuspended _ _ | deleteOrganization _ _ | insertMember _ | setRole _ _ _
  | deleteMember _ _ | tombstoneUser _ _ => rfl

/-- A new seat key-shares its account. -/
theorem member_none {o : OrgId} {u : UserId} (h : Resource.share (.user u) ∉ w.needs) :
    w.member (o, u) none = none := by
  cases w with
  | insertMember m =>
    have hk : (o, u) ≠ m.key := by
      intro he
      have h2 : u = m.userId := congrArg Prod.snd he
      exact h (by simp [needs, h2])
    simp only [member, if_neg hk]
  | setRole _ _ _ | deleteMember _ _ => simp [member]
  | insertOrganization _ | setSuspended _ _ | deleteOrganization _ _ | insertInvite _ | closeInvite _ _ _
  | tombstoneUser _ _ => rfl

/-- Whether there is a seat after a write depends on whether there was one before. -/
theorem member_none_of_none {k : OrgId × UserId} {x y : Option Member} (hxy : x = none → y = none)
    (h : w.member k x = none) : w.member k y = none := by
  cases w with
  | insertMember m =>
    simp only [member] at h ⊢
    split at h
    · cases h
    · next hk =>
      rw [if_neg hk]
      exact hxy h
  | setRole o u r =>
    simp only [member] at h ⊢
    split at h
    · next hk =>
      rw [if_pos hk, hxy (Option.map_eq_none_iff.mp h)]
      rfl
    · next hk =>
      rw [if_neg hk]
      exact hxy h
  | deleteMember o u =>
    simp only [member] at h ⊢
    split at h
    · next hk => rw [if_pos hk]
    · next hk =>
      rw [if_neg hk]
      exact hxy h
  | insertOrganization _ | setSuspended _ _ | deleteOrganization _ _ | insertInvite _ | closeInvite _ _ _
  | tombstoneUser _ _ => exact hxy h

/-- A new invite key-shares the accounts it names, and a closed one is not open. -/
theorem invite_named {k : InviteId} {u : UserId} (h : Resource.share (.user u) ∉ w.needs) {x : Option Invite}
    {i : Invite}
    (hi : w.invite k x = some i) (hu : i.Names u) : x = some i := by
  cases w with
  | insertInvite j =>
    simp only [invite] at hi
    split at hi
    · cases x with
      | some y => exact hi
      | none =>
        cases hi
        refine absurd ?_ h
        simp only [needs, List.map_append, List.mem_cons, List.mem_append, List.mem_map, Option.mem_toList]
        rcases hu.2 with hb | hb
        · exact .inr (.inl ⟨u, hb, rfl⟩)
        · exact .inr (.inr ⟨u, hb, rfl⟩)
    · exact hi
  | closeInvite id st v =>
    simp only [invite] at hi
    split at hi
    · obtain ⟨y, _, rfl⟩ := Option.map_eq_some_iff.mp hi
      exact absurd hu.1 st.toStatus_ne_pending
    · exact hi
  | insertOrganization _ | setSuspended _ _ | deleteOrganization _ _ | insertMember _ | setRole _ _ _
  | deleteMember _ _ | tombstoneUser _ _ => exact hi

end Write

namespace Lock

theorem Protects.refl (l : Lock) (a : Db) : l.Protects a a := by
  obtain ⟨_ | _ | _ | _, _ | _⟩ := l
  case user.false => exact ⟨rfl, fun _ h => h, fun _ _ h _ => h⟩
  all_goals rfl

theorem Protects.trans {l : Lock} {a b c : Db} (h : l.Protects a b) (h' : l.Protects b c) : l.Protects a c := by
  obtain ⟨_ | _ | _ | _, _ | _⟩ := l
  case user.false =>
    exact ⟨h'.1.trans h.1, fun o ho => h'.2.1 o (h.2.1 o ho), fun k i hi hu => h.2.2 k i (h'.2.2 k i hi hu) hu⟩
  all_goals exact Eq.trans h' h

theorem protects_write {l : Lock} (a : Db) (w : Write) (hw : ∀ n ∈ w.needs, ¬ n.Conflict l) :
    l.Protects a (a.apply w) := by
  have hx : ∀ r, r = l.resource → r.exclusive ∉ w.needs := fun r hr hn => hw _ hn (conflict_exclusive.mpr hr)
  obtain ⟨r, sh⟩ := l
  cases r with
  | organization o =>
    cases sh <;> exact (a.find?_organizations w o).trans (Write.organization_of_unlocked (hx _ rfl) _)
  | member o u =>
    cases sh <;> exact (a.find?_members w (o, u)).trans (Write.member_of_unlocked (hx _ rfl) _)
  | invite i =>
    cases sh <;> exact (a.find?_invites w i).trans (Write.invite_of_unlocked (hx _ rfl) _)
  | user u =>
    have hrow := (a.find?_users w u).trans (Write.user_of_unlocked (hx _ rfl) _)
    cases sh with
    | true => exact hrow
    | false =>
      have hshare : Resource.share (.user u) ∉ w.needs := fun hn => hw _ hn (conflict_share.mpr rfl)
      refine ⟨hrow, fun o ho => ?_, fun k i hi hu => ?_⟩
      · rw [Db.find?_members, ho]
        exact Write.member_none hshare
      · rw [Db.find?_invites] at hi
        exact Write.invite_named hshare hi hu

theorem protects_apply {l : Lock} {a b : Db} {w : Write} (hn : ∀ n ∈ w.needs, n.Protects a b) (h : l.Protects a b) :
    l.Protects (a.apply w) (b.apply w) := by
  obtain ⟨r, sh⟩ := l
  cases r with
  | organization o =>
    have hab : b.organizations.find? o = a.organizations.find? o := by cases sh <;> exact h
    cases sh <;> exact (b.find?_organizations w o).trans (hab ▸ (a.find?_organizations w o).symm)
  | member o u =>
    have hab : b.members.find? (o, u) = a.members.find? (o, u) := by cases sh <;> exact h
    cases sh <;> exact (b.find?_members w _).trans (hab ▸ (a.find?_members w _).symm)
  | invite i =>
    have hab : b.invites.find? i = a.invites.find? i := by cases sh <;> exact h
    cases sh <;> exact (b.find?_invites w i).trans (hab ▸ (a.find?_invites w i).symm)
  | user u =>
    have hab : b.users.find? u = a.users.find? u := by
      cases sh with
      | true => exact h
      | false => exact h.1
    have hrow := (b.find?_users w u).trans (hab ▸ (a.find?_users w u).symm)
    cases sh with
    | true => exact hrow
    | false =>
      refine ⟨hrow, fun o ho => ?_, fun k i hi hu => ?_⟩
      · rw [Db.find?_members] at ho ⊢
        exact Write.member_none_of_none (h.2.1 o) ho
      · rw [Db.find?_invites] at hi ⊢
        cases w with
        | insertInvite j =>
          have hj : b.invites.find? j.id = a.invites.find? j.id :=
            hn (Resource.exclusive (.invite j.id)) (by simp [Write.needs])
          simp only [Write.invite] at hi ⊢
          split
          · next hk =>
            rw [if_pos hk, hk, hj] at hi
            rw [hk]
            exact hi
          · next hk =>
            rw [if_neg hk] at hi
            exact h.2.2 k i hi hu
        | closeInvite id st v =>
          simp only [Write.invite] at hi ⊢
          split at hi
          · obtain ⟨y, _, rfl⟩ := Option.map_eq_some_iff.mp hi
            exact absurd hu.1 st.toStatus_ne_pending
          · next hk =>
            rw [if_neg hk]
            exact h.2.2 k i hi hu
        | insertOrganization _ | setSuspended _ _ | deleteOrganization _ _ | insertMember _ | setRole _ _ _
        | deleteMember _ _ | tombstoneUser _ _ => exact h.2.2 k i hi hu

end Lock

/-- The storage engine under the organizations. -/
def engine : Engine Db Write Lock where
  apply := Db.apply
  conflict := Lock.Conflict
  needs := Write.needs
  evolves := Db.Evolves
  protects := fun l a b => l.Protects a b
  conflict_symm := fun h => ⟨h.1.symm, fun hs => h.2 ⟨hs.2, hs.1⟩⟩
  evolves_refl := Db.Evolves.refl
  evolves_trans := Db.Evolves.trans
  evolves_apply := fun _ h hn => Db.evolves_apply hn h
  evolves_write := Db.evolves_write
  protects_refl := Lock.Protects.refl
  protects_trans := Lock.Protects.trans
  protects_apply := fun _ _ hn h => Lock.protects_apply hn h
  protects_write := fun a w hw => Lock.protects_write a w hw

instance : DecidableRel engine.conflict := inferInstanceAs (DecidableRel Lock.Conflict)

end Civfix.Organizations
