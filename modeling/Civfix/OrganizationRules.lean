import Civfix.OrganizationTransactions

/-! # What the transactions of the organizations may write

`Operation.MayWrite` lists the rows that an operation can write, whatever it reads, and
`program_plain` checks the list against the programs. What an operation cannot write it leaves as it
was: the lemmas below say so for seats, accounts, organizations and invites. -/
namespace Civfix.Organizations

open KeyedTables LockedTransactions

def Write.Closes (w : Write) : Prop := ∃ id st u, w = .closeInvite id st u

def Operation.MayWrite (w : Write) : Operation → Prop
  | .createOrganization org owner now =>
    w = .insertOrganization ⟨org, none, none⟩ ∨ w = .insertMember ⟨org, owner, .owner, now⟩
  | .addMember org user role _ now => w = .insertMember ⟨org, user, role.toRole, now⟩
  | .setMemberRole org user role _ => w = .setRole org user role.toRole ∨ w.Closes
  | .removeMember org user _ => w = .deleteMember org user ∨ w.Closes
  | .adminAddMember org user role now =>
    w = .insertMember ⟨org, user, role, now⟩ ∨ role = .owner ∧ ∃ v, w = .setRole org v .admin
  | .adminSetMemberRole org user role =>
    w = .setRole org user role ∨ (role = .owner ∧ ∃ v, w = .setRole org v .admin) ∨ w.Closes
  | .createInvite x => (∃ u, w = .insertInvite (x.row u)) ∨ w.Closes
  | .listInvites _ _ _ | .revokeInvite _ _ _ | .declineInvite _ _ _ => w.Closes
  | .acceptInvite _ user now => (∃ org, ∃ role : SeatRole, w = .insertMember ⟨org, user, role.toRole, now⟩) ∨ w.Closes
  | .setSuspended org at_ => w = .setSuspended org at_
  | .eraseAccount user now =>
    w = .tombstoneUser user now ∨ (∃ o, w = .setRole o user .admin) ∨ (∃ o v, w = .setRole o v .owner) ∨
      (∃ o, w = .deleteMember o user) ∨ (∃ o, w = .deleteOrganization o now) ∨ w.Closes

/-! ## Statements -/

section Statements

variable {φ : Write → Prop}

theorem plain_requireRole (passes : Role → Bool) (org : OrgId) (actor : UserId) :
    engine.Plain φ (requireRole passes org actor) := by
  refine (Engine.plain_select _).bind ?_
  rintro ⟨_ | o, _ | r⟩
  · exact Engine.plain_abort _
  · exact Engine.plain_abort _
  · exact Engine.plain_abort _
  · exact Engine.plain_ite (Engine.plain_abort _) (Engine.plain_ite (Engine.plain_pure _) (Engine.plain_abort _))

theorem plain_assertNotSuspended (o : Organization) : engine.Plain φ (assertNotSuspended o) :=
  Engine.plain_ite (Engine.plain_pure _) (Engine.plain_abort _)

theorem plain_requireAdminOrg (org : OrgId) : engine.Plain φ (requireAdminOrg org) :=
  (Engine.plain_select _).bind (fun _ => Engine.plain_ite (Engine.plain_pure _) (Engine.plain_abort _))

theorem plain_requireRemover (C : Contract) (org : OrgId) (user : UserId) (by_ : Remover) :
    engine.Plain φ (requireRemover C org user by_) := by
  cases by_ with
  | self => exact (plain_requireRole _ org user).bind (fun _ => Engine.plain_pure _)
  | manager actor => exact (plain_requireRole _ org actor).bind (fun _ => Engine.plain_pure _)
  | operator => exact plain_requireAdminOrg org

theorem plain_lockOrganization (org : OrgId) : engine.Plain φ (lockOrganization org) := Engine.plain_selectFor _ _

theorem plain_lockMemberRole (org : OrgId) (user : UserId) : engine.Plain φ (lockMemberRole org user) :=
  Engine.plain_selectFor _ _

theorem plain_lockOrgForActor (C : Contract) (org : OrgId) (actor : UserId) :
    engine.Plain φ (lockOrgForActor C org actor) :=
  (plain_lockOrganization org).bind (fun _ => (Engine.plain_selectFor _ _).bind (fun _ => Engine.plain_pure _))

theorem plain_lastAdmin (org : OrgId) (lowers : Bool) : engine.Plain φ (lastAdmin org lowers) :=
  Engine.plain_ite (Engine.plain_select _) (Engine.plain_pure _)

theorem plain_insertSeat {m : Member} (h : φ (.insertMember m)) : engine.Plain φ (insertSeat m) := by
  refine Engine.plain_dml (fun s w hw => ?_) _
  split at hw
  · rw [List.mem_singleton.mp hw]
    exact h
  · cases hw

theorem plain_setRole {org : OrgId} {user : UserId} {role : Role} (h : φ (.setRole org user role)) :
    engine.Plain φ (setRole org user role) := by
  refine Engine.plain_dml (fun s w hw => ?_) _
  rw [List.mem_singleton.mp hw]
  exact h

theorem plain_closeInvite (h : ∀ w : Write, w.Closes → φ w) (id : InviteId) (st : Closing) (u : Option UserId) :
    engine.Plain φ (closeInvite id st u) := by
  refine Engine.plain_dml (fun s w hw => h w ?_) _
  rw [List.mem_singleton.mp hw]
  exact ⟨id, st, u, rfl⟩

theorem plain_revokeInvitesByInviter (h : ∀ w : Write, w.Closes → φ w) (org : OrgId) (inviter : UserId) :
    engine.Plain φ (revokeInvitesByInviter org inviter) := by
  refine Engine.plain_dml (fun s w hw => h w ?_) _
  obtain ⟨i, -, rfl⟩ := List.mem_map.mp hw
  exact ⟨i.id, .revoked, none, rfl⟩

theorem plain_withdrawInvites (h : ∀ w : Write, w.Closes → φ w) (C : Contract) (org : OrgId) (user : UserId)
    (existing role : Role) : engine.Plain φ (withdrawInvites C org user existing role) :=
  Engine.plain_ite (plain_revokeInvitesByInviter h org user) (Engine.plain_pure _)

theorem plain_expireInvites (h : ∀ w : Write, w.Closes → φ w) (org : OrgId) (now : Instant) :
    engine.Plain φ (expireInvites org now) := by
  refine Engine.plain_dml (fun s w hw => h w ?_) _
  obtain ⟨i, -, rfl⟩ := List.mem_map.mp hw
  exact ⟨i.id, .expired, none, rfl⟩

theorem plain_stepDownFor {org : OrgId} {role : Role} (h : role = .owner → ∀ v, φ (.setRole org v .admin)) :
    engine.Plain φ (stepDownFor org role) := by
  refine Tx.each_ite (fun hr => ?_) (fun _ => Engine.plain_pure _)
  refine Engine.plain_dml (fun s w hw => ?_) _
  obtain ⟨m, -, rfl⟩ := List.mem_map.mp hw
  exact h hr m.userId

theorem plain_deleteNonOwner {org : OrgId} {user : UserId} (h : φ (.deleteMember org user)) :
    engine.Plain φ (deleteNonOwner org user) := by
  refine Engine.plain_dml (fun s w hw => ?_) _
  split at hw
  · cases hw
  · rw [List.mem_singleton.mp hw]
    exact h

theorem plain_insertInvite {i : Invite} (h : φ (.insertInvite i)) : engine.Plain φ (insertInvite i) := by
  refine Engine.Plain.bind (Engine.plain_dml (fun s w hw => ?_) _)
    (fun _ => Engine.plain_ite (Engine.plain_abort _) (Engine.plain_pure _))
  split at hw
  · rw [List.mem_singleton.mp hw]
    exact h
  · cases hw

theorem plain_lockInvite (id : InviteId) : engine.Plain φ (lockInvite id) := Engine.plain_selectFor _ _

theorem plain_seatInvitee {i : Invite} {org : OrgId} {user : UserId} {now : Instant} (h : ∀ w : Write, w.Closes → φ w)
    (hm : φ (.insertMember ⟨org, user, i.role.toRole, now⟩)) : engine.Plain φ (seatInvitee i org user now) :=
  (plain_insertSeat hm).bind (fun _ => (plain_closeInvite h _ _ _).bind (fun _ => Engine.plain_pure _))

theorem plain_acceptLocked {C : Contract} {by_ : InviteLookup} {o : Organization} {i : Invite} {user : UserId}
    {now : Instant}
    (h : ∀ w : Write, w.Closes → φ w) (hm : φ (.insertMember ⟨o.id, user, i.role.toRole, now⟩)) :
    engine.Plain φ (acceptLocked C by_ o i user now) := by
  refine Engine.plain_ite (Engine.plain_pure _) ((Engine.plain_select _).bind (fun _ => ?_))
  refine Engine.plain_ite (Engine.plain_pure _) (Engine.plain_ite ?_ ((Engine.plain_select _).bind (fun _ => ?_)))
  · exact (plain_closeInvite h _ _ _).bind (fun _ => Engine.plain_pure _)
  · refine Engine.plain_ite ?_ (Engine.plain_ite (Engine.plain_pure _) (plain_seatInvitee h hm))
    exact (plain_closeInvite h _ _ _).bind (fun _ => Engine.plain_pure _)

theorem plain_stepDown {user : UserId} (h : ∀ o, φ (.setRole o user .admin)) : engine.Plain φ (stepDown user) := by
  refine Engine.plain_dml (fun s w hw => ?_) _
  obtain ⟨m, -, rfl⟩ := List.mem_map.mp hw
  exact h _

theorem plain_appointSuccessors (h : ∀ o v, φ (.setRole o v .owner)) (user : UserId) (owned : List OrgId) :
    engine.Plain φ (appointSuccessors user owned) := by
  refine Engine.plain_dml (fun s w hw => ?_) _
  obtain ⟨o, -, ho⟩ := List.mem_filterMap.mp hw
  obtain ⟨v, -, rfl⟩ := Option.map_eq_some_iff.mp ho
  exact h o v

theorem plain_deleteSeats {user : UserId} (h : ∀ o, φ (.deleteMember o user)) : engine.Plain φ (deleteSeats user) := by
  refine Engine.plain_dml (fun s w hw => ?_) _
  obtain ⟨m, -, rfl⟩ := List.mem_map.mp hw
  exact h _

theorem plain_revokeInvitesOf (h : ∀ w : Write, w.Closes → φ w) (user : UserId) :
    engine.Plain φ (revokeInvitesOf user) := by
  refine Engine.plain_dml (fun s w hw => h w ?_) _
  obtain ⟨i, -, rfl⟩ := List.mem_map.mp hw
  exact ⟨i.id, .revoked, none, rfl⟩

theorem plain_closeOrphaned {now : Instant} (h : ∀ o, φ (.deleteOrganization o now)) (owned : List OrgId) :
    engine.Plain φ (closeOrphaned owned now) := by
  refine Engine.plain_dml (fun s w hw => ?_) _
  obtain ⟨o, -, rfl⟩ := List.mem_map.mp hw
  exact h o

end Statements

/-! ## Operations -/

theorem program_plain (C : Contract) (op : Operation) : engine.Plain (fun w => op.MayWrite w) (program C op) := by
  cases op with
  | createOrganization org owner now =>
    refine Engine.Plain.bind (Engine.plain_dml (fun s w hw => ?_) _) (fun free => ?_)
    · split at hw
      · exact .inl (List.mem_singleton.mp hw)
      · cases hw
    · refine Engine.plain_ite ?_ (Engine.plain_abort _)
      exact (plain_insertSeat (.inr rfl)).bind (fun _ => Engine.plain_ite (Engine.plain_pure _) (Engine.plain_abort _))
  | addMember org user role actor now =>
    refine (plain_requireRole _ org actor).bind (fun o => (plain_assertNotSuspended o).bind (fun _ => ?_))
    refine (Engine.plain_select _).bind (fun _ => ?_)
    refine Engine.plain_ite ?_ (Engine.plain_pure _)
    refine (plain_lockOrgForActor C org actor).bind (fun _ => ?_)
    refine Engine.plain_ite (Engine.Plain.bind (plain_insertSeat ?_) (fun _ => ?_)) (Engine.plain_pure _)
    · exact (rfl : Write.insertMember _ = _)
    · exact Engine.plain_ite (Engine.plain_pure _) (Engine.plain_pure _)
  | setMemberRole org user role actor =>
    refine (plain_requireRole _ org actor).bind (fun o => (plain_assertNotSuspended o).bind (fun _ => ?_))
    refine Engine.plain_ite (Engine.plain_abort _) ((plain_lockOrganization org).bind (fun _ => ?_))
    refine (plain_lockMemberRole org user).bind (fun r => ?_)
    split
    · exact Engine.plain_pure _
    · exact Engine.plain_pure _
    · refine Engine.plain_ite (Engine.plain_pure _) ((plain_lastAdmin org _).bind (fun _ => ?_))
      refine Engine.plain_ite (Engine.plain_pure _) ((plain_setRole (.inl rfl)).bind (fun _ => ?_))
      exact (plain_withdrawInvites (fun _ => .inr) C org user _ _).bind (fun _ => Engine.plain_pure _)
  | removeMember org user by_ =>
    refine (plain_requireRemover C org user by_).bind (fun _ => (plain_lockOrganization org).bind (fun _ => ?_))
    refine (Engine.plain_selectFor _ _).bind (fun _ => (plain_lockMemberRole org user).bind (fun r => ?_))
    refine (plain_lastAdmin org _).bind (fun _ => Engine.plain_ite (Engine.plain_pure _) ?_)
    refine (plain_deleteNonOwner (.inl rfl)).bind (fun _ => Engine.plain_ite ?_ ?_)
    · exact (plain_revokeInvitesByInviter (fun _ => .inr) org user).bind (fun _ => Engine.plain_pure _)
    · exact (Engine.plain_select _).bind (fun _ => Engine.plain_ite (Engine.plain_pure _) (Engine.plain_pure _))
  | adminAddMember org user role now =>
    refine (plain_requireAdminOrg org).bind (fun _ => (Engine.plain_selectFor _ _).bind (fun _ => ?_))
    refine Engine.plain_ite ((Engine.plain_select _).bind (fun _ => ?_)) (Engine.plain_pure _)
    refine Engine.plain_ite ((Engine.plain_select _).bind (fun _ => ?_)) (Engine.plain_pure _)
    refine Engine.plain_ite (Engine.plain_pure _) ((plain_stepDownFor (fun hr v => .inr ⟨hr, v, rfl⟩)).bind
      (fun _ => ?_))
    exact (plain_insertSeat (.inl rfl)).bind (fun _ => Engine.plain_ite (Engine.plain_pure _) (Engine.plain_abort _))
  | adminSetMemberRole org user role =>
    refine (plain_requireAdminOrg org).bind (fun _ => (plain_lockOrganization org).bind (fun _ => ?_))
    refine (plain_lockMemberRole org user).bind (fun r => ?_)
    split
    · exact Engine.plain_pure _
    · refine Engine.plain_ite (Engine.plain_pure _) (Engine.plain_ite (Engine.plain_pure _) ?_)
      refine (plain_stepDownFor (fun hr v => .inr (.inl ⟨hr, v, rfl⟩))).bind
        (fun _ => (plain_setRole (.inl rfl)).bind (fun _ => ?_))
      exact (plain_withdrawInvites (fun _ h => .inr (.inr h)) C org user _ _).bind (fun _ => Engine.plain_pure _)
  | createInvite x =>
    refine (plain_requireRole _ _ _).bind (fun o => (plain_assertNotSuspended o).bind (fun _ => ?_))
    refine (Engine.plain_select _).bind (fun u => (plain_lockOrgForActor C _ _).bind (fun _ => ?_))
    refine Engine.plain_ite ?_ (Engine.plain_pure _)
    refine (plain_expireInvites (fun _ => .inr) _ _).bind (fun _ => (Engine.plain_select _).bind (fun _ => ?_))
    refine Engine.plain_ite (Engine.plain_abort _) ((plain_insertInvite (.inl ⟨u, rfl⟩)).bind (fun _ => ?_))
    exact Engine.plain_ite (Engine.plain_pure _) (Engine.plain_pure _)
  | listInvites org actor now =>
    refine (plain_requireRole _ org actor).bind (fun _ => ?_)
    exact (plain_expireInvites (fun _ h => h) org now).bind (fun _ => Engine.plain_pure _)
  | revokeInvite org id actor =>
    refine (plain_requireRole _ org actor).bind (fun _ => Engine.Plain.bind (Engine.plain_dml (fun s w hw => ?_) _)
      (fun _ => ?_))
    · split at hw
      · exact ⟨id, .revoked, none, List.mem_singleton.mp hw⟩
      · cases hw
    · exact Engine.plain_ite (Engine.plain_pure _) (Engine.plain_pure _)
  | declineInvite id user now =>
    refine (plain_lockInvite id).bind (fun i => ?_)
    split
    · exact Engine.plain_pure _
    · refine Engine.plain_ite (Engine.plain_pure _) ((Engine.plain_select _).bind (fun _ => ?_))
      refine Engine.plain_ite (Engine.plain_ite ?_ ?_) (Engine.plain_pure _)
      · exact (plain_closeInvite (fun _ h => h) _ _ _).bind (fun _ => Engine.plain_pure _)
      · exact (plain_closeInvite (fun _ h => h) _ _ _).bind (fun _ => Engine.plain_pure _)
  | acceptInvite by_ user now =>
    refine (Engine.plain_select _).bind (fun hit => ?_)
    split
    · exact Engine.plain_pure _
    · refine (Engine.plain_selectFor _ _).bind (fun o => ?_)
      split
      · exact Engine.plain_pure _
      · refine (plain_lockInvite _).bind (fun i => ?_)
        split
        · exact Engine.plain_pure _
        · exact plain_acceptLocked (fun _ => .inr) (.inl ⟨_, _, rfl⟩)
  | setSuspended org at_ =>
    refine Engine.Plain.bind (Engine.plain_dml (fun s w hw => ?_) _) (fun _ => ?_)
    · split at hw
      · exact List.mem_singleton.mp hw
      · cases hw
    · exact Engine.plain_ite (Engine.plain_pure _) (Engine.plain_pure _)
  | eraseAccount user now =>
    refine Engine.Plain.bind (Engine.Plain.bind (Engine.plain_dml (fun s w hw => ?_) _) (fun _ => ?_)) (fun _ => ?_)
    · split at hw
      · exact .inl (List.mem_singleton.mp hw)
      · cases hw
    · exact Engine.plain_ite (Engine.plain_pure _) (Engine.plain_abort _)
    · refine Engine.Plain.bind ?_ (fun _ => Engine.plain_pure _)
      refine (Engine.plain_selectFor _ _).bind (fun _ => Engine.Plain.bind (plain_stepDown ?_) (fun owned => ?_))
      · exact fun o => .inr (.inl ⟨o, rfl⟩)
      refine Engine.Plain.bind (plain_appointSuccessors ?_ user owned)
        (fun _ => Engine.Plain.bind (plain_deleteSeats ?_) (fun _ => ?_))
      · exact fun o v => .inr (.inr (.inl ⟨o, v, rfl⟩))
      · exact fun o => .inr (.inr (.inr (.inl ⟨o, rfl⟩)))
      refine Engine.Plain.bind (plain_revokeInvitesOf ?_ user) (fun _ => plain_closeOrphaned ?_ owned)
      · exact fun w h => .inr (.inr (.inr (.inr (.inr h))))
      · exact fun o => .inr (.inr (.inr (.inr (.inl ⟨o, rfl⟩))))

/-! ## What the writes leave -/

/-- The seat that a write is of. -/
def Write.seat : Write → Option (OrgId × UserId)
  | .insertMember m => some m.key
  | .setRole o u _ | .deleteMember o u => some (o, u)
  | _ => none

def Write.account : Write → Option UserId
  | .tombstoneUser u _ => some u
  | _ => none

def Write.ofOrganization : Write → Option OrgId
  | .insertOrganization o => some o.id
  | .setSuspended o _ | .deleteOrganization o _ => some o
  | _ => none

theorem seat_of_needs {w : Write} {o : OrgId} {u : UserId} (h : Resource.exclusive (.member o u) ∈ w.needs) :
    w.seat = some (o, u) := by
  cases w with
  | insertMember m =>
    obtain ⟨rfl, rfl⟩ : o = m.organizationId ∧ u = m.userId := by simpa [Write.needs, Resource.exclusive,
      Resource.share] using h
    rfl
  | setRole o' u' r =>
    obtain ⟨rfl, rfl⟩ : o = o' ∧ u = u' := by simpa [Write.needs, Resource.exclusive] using h
    rfl
  | deleteMember o' u' =>
    obtain ⟨rfl, rfl⟩ : o = o' ∧ u = u' := by simpa [Write.needs, Resource.exclusive] using h
    rfl
  | insertOrganization _ | setSuspended _ _ | deleteOrganization _ _ | insertInvite _ | closeInvite _ _ _
  | tombstoneUser _ _ => simp [Write.needs, Resource.exclusive, Resource.share] at h

theorem account_of_needs {w : Write} {u : UserId} (h : Resource.exclusive (.user u) ∈ w.needs) :
    w.account = some u := by
  cases w with
  | tombstoneUser u' now =>
    obtain rfl : u = u' := by simpa [Write.needs, Resource.exclusive] using h
    rfl
  | insertOrganization _ | setSuspended _ _ | deleteOrganization _ _ | insertMember _ | setRole _ _ _ | deleteMember _ _
  | insertInvite _ | closeInvite _ _ _ => simp [Write.needs, Resource.exclusive, Resource.share] at h

theorem ofOrganization_of_needs {w : Write} {o : OrgId} (h : Resource.exclusive (.organization o) ∈ w.needs) :
    w.ofOrganization = some o := by
  cases w with
  | insertOrganization x =>
    obtain rfl : o = x.id := by simpa [Write.needs, Resource.exclusive] using h
    rfl
  | setSuspended x _ | deleteOrganization x _ =>
    obtain rfl : o = x := by simpa [Write.needs, Resource.exclusive] using h
    rfl
  | insertMember _ | setRole _ _ _ | deleteMember _ _ | insertInvite _ | closeInvite _ _ _ | tombstoneUser _ _ =>
    simp [Write.needs, Resource.exclusive, Resource.share] at h

section Rows

variable (s : Db) {ws : List Write}

theorem roleOf_apply_of_ne {w : Write} {o : OrgId} {u : UserId} (h : w.seat ≠ some (o, u)) :
    (s.apply w).roleOf o u = s.roleOf o u := by
  rw [Db.roleOf, Db.find?_members, Write.member_of_unlocked (fun hn => h (seat_of_needs hn)), Db.roleOf]

theorem roleOf_setRole (o : OrgId) (u : UserId) (r : Role) :
    (s.apply (.setRole o u r)).roleOf o u = (s.roleOf o u).map (fun _ => r) := by
  rw [Db.roleOf, Db.find?_members, Db.roleOf]
  simp only [Write.member, ↓reduceIte, Option.map_map]
  rfl

theorem roleOf_insertMember (m : Member) :
    (s.apply (.insertMember m)).roleOf m.organizationId m.userId =
      some ((s.roleOf m.organizationId m.userId).getD m.role) := by
  rw [Db.roleOf, Db.find?_members, Db.roleOf]
  simp only [Write.member, Member.key, ↓reduceIte, Option.map_some]
  cases s.members.find? (m.organizationId, m.userId) <;> rfl

theorem roleOf_deleteMember (o : OrgId) (u : UserId) : (s.apply (.deleteMember o u)).roleOf o u = none := by
  rw [Db.roleOf, Db.find?_members]
  simp [Write.member]

theorem roleOf_applyAll_of_ne {o : OrgId} {u : UserId} (h : ∀ w ∈ ws, w.seat ≠ some (o, u)) :
    (engine.applyAll s ws).roleOf o u = s.roleOf o u :=
  Engine.applyAll_of_silent (E := engine) (f := fun s => s.roleOf o u) (fun w hw s => roleOf_apply_of_ne s (h w hw)) s

/-- A seat whose role is only ever set to `r`. -/
theorem roleOf_applyAll {o : OrgId} {u : UserId} {r : Role} (h : ∀ w ∈ ws, w.seat = some (o, u) → w = .setRole o u r) :
    (engine.applyAll s ws).roleOf o u = if .setRole o u r ∈ ws then (s.roleOf o u).map
      (fun _ => r) else s.roleOf o u := by
  induction ws generalizing s with
  | nil => simp
  | cons w ws ih =>
    rw [Engine.applyAll_cons, ih _ (fun x hx => h x (by simp [hx]))]
    change (if _ then ((s.apply w).roleOf o u).map _ else (s.apply w).roleOf o u) = _
    by_cases hw : w.seat = some (o, u)
    · obtain rfl := h w (by simp) hw
      rw [roleOf_setRole]
      cases s.roleOf o u <;> simp
    · rw [roleOf_apply_of_ne s hw]
      have hne : Write.setRole o u r ≠ w := by
        rintro rfl
        exact hw rfl
      simp [hne]

/-- A seat that is only ever deleted. -/
theorem roleOf_applyAll_delete {o : OrgId} {u : UserId} (h : ∀ w ∈ ws, w.seat = some (o, u) → w = .deleteMember o u) :
    (engine.applyAll s ws).roleOf o u = if .deleteMember o u ∈ ws then none else s.roleOf o u := by
  induction ws generalizing s with
  | nil => simp
  | cons w ws ih =>
    rw [Engine.applyAll_cons, ih _ (fun x hx => h x (by simp [hx]))]
    change (if _ then none else (s.apply w).roleOf o u) = _
    by_cases hw : w.seat = some (o, u)
    · obtain rfl := h w (by simp) hw
      rw [roleOf_deleteMember]
      simp
    · rw [roleOf_apply_of_ne s hw]
      have hne : Write.deleteMember o u ≠ w := by
        rintro rfl
        exact hw rfl
      simp [hne]

/-- An organization that is only ever closed. -/
theorem open_applyAll_delete {o : OrgId} {now : Instant}
    (h : ∀ w ∈ ws, w.ofOrganization = some o → w = .deleteOrganization o now)
    (hopen : (engine.applyAll s ws).Open o) : s.Open o ∧ .deleteOrganization o now ∉ ws := by
  induction ws generalizing s with
  | nil => exact ⟨hopen, by simp⟩
  | cons w ws ih =>
    obtain ⟨hs, hn⟩ := ih (s.apply w) (fun x hx => h x (by simp [hx])) hopen
    by_cases hw : w.ofOrganization = some o
    · obtain rfl := h w (by simp) hw
      obtain ⟨x, hx, hd⟩ := hs
      rw [Db.find?_organizations] at hx
      simp only [Write.organization, ↓reduceIte] at hx
      obtain ⟨y, -, rfl⟩ := Option.map_eq_some_iff.mp hx
      cases hd
    · refine ⟨?_, ?_⟩
      · rwa [Db.Open, Db.find?_organizations, Write.organization_of_unlocked
          (fun hx => hw (ofOrganization_of_needs hx))] at hs
      · simp only [List.mem_cons, not_or]
        refine ⟨?_, hn⟩
        rintro rfl
        exact hw rfl

theorem live_applyAll {u : UserId} (h : ∀ w ∈ ws, w.account ≠ some u) : (engine.applyAll s ws).Live u ↔ s.Live u := by
  have hrow : (engine.applyAll s ws).users.find? u = s.users.find? u :=
    Engine.applyAll_of_silent (E := engine) (f := fun s => s.users.find? u)
      (fun w hw s => (s.find?_users w u).trans (Write.user_of_unlocked (fun hn => h w hw (account_of_needs hn)) _)) s
  rw [Db.Live, hrow, Db.Live]

theorem organization_applyAll {o : OrgId} (h : ∀ w ∈ ws, w.ofOrganization ≠ some o) :
    (engine.applyAll s ws).organizations.find? o = s.organizations.find? o :=
  Engine.applyAll_of_silent (E := engine) (f := fun s => s.organizations.find? o)
    (fun w hw s => (s.find?_organizations w o).trans
      (Write.organization_of_unlocked (fun hn => h w hw (ofOrganization_of_needs hn)) _)) s

/-- Invites are only added by an insert, and none is opened again. -/
theorem invite_of_applyAll {k : InviteId} {i : Invite} (h : (engine.applyAll s ws).invites.find? k = some i)
    (hp : i.status = .pending) : s.invites.find? k = some i ∨ .insertInvite i ∈ ws := by
  induction ws generalizing s with
  | nil => exact .inl h
  | cons w ws ih =>
    rcases ih _ h with h | h
    · rw [show engine.apply s w = s.apply w from rfl, Db.find?_invites] at h
      cases w with
      | insertInvite j =>
        simp only [Write.invite] at h
        split at h
        · cases hs : s.invites.find? k with
          | some y =>
            rw [hs] at h
            exact .inl h
          | none =>
            rw [hs] at h
            cases h
            exact .inr (by simp)
        · exact .inl h
      | closeInvite id st u =>
        simp only [Write.invite] at h
        split at h
        · obtain ⟨y, -, rfl⟩ := Option.map_eq_some_iff.mp h
          exact absurd hp st.toStatus_ne_pending
        · exact .inl h
      | insertOrganization _ | setSuspended _ _ | deleteOrganization _ _ | insertMember _ | setRole _ _ _
      | deleteMember _ _ | tombstoneUser _ _ => exact .inl h
    · exact .inr (by simp [h])

end Rows

/-! ## What the statements read -/

section Rules

variable {R : Engine.Rely Db Lock Operation} {op : Operation} {s : Db} {held : List Lock} {ws : List Write}

theorem roleOf_of_seen {d : Db} {o : OrgId} {u : UserId} {b : Bool} (hd : engine.Seen R op held ws d s)
    (hl : ⟨.member o u, b⟩ ∈ held) : (engine.applyAll d ws).roleOf o u = (engine.applyAll s ws).roleOf o u := by
  have hrow : (engine.applyAll s ws).members.find? (o, u) = (engine.applyAll d ws).members.find? (o, u) := by
    have hp := hd.view.2 _ hl
    cases b <;> exact hp
  rw [Db.roleOf, Db.roleOf, hrow]

theorem organization_of_seen {d : Db} {o : OrgId} (hd : engine.Seen R op held ws d s)
    (hl : Resource.exclusive (.organization o) ∈ held) :
    (engine.applyAll d ws).organizations.find? o = (engine.applyAll s ws).organizations.find? o := (hd.view.2 _ hl).symm

theorem mem_lockFound {α : Type} {l : Lock} {x : Option α} (h : x.isSome) : l ∈ lockFound l x := by
  cases x with
  | none => cases h
  | some a => simp [lockFound]

theorem isSome_of_roleOf {v : Db} {o : OrgId} {u : UserId} {r : Role} (h : v.roleOf o u = some r) :
    (v.members.find? (o, u)).isSome := by
  obtain ⟨m, hm, -⟩ := Option.map_eq_some_iff.mp h
  simp [hm]

theorem wlpR_requireRole {passes : Role → Bool} {org : OrgId} {actor : UserId}
    {Q : List Lock → List Write → Organization → Prop}
    (h : ∀ d o r, engine.Seen R op held ws d s → (engine.applyAll d ws).roleOf org actor = some r → passes r = true →
      Q held ws o) : engine.wlpR R op s held ws (requireRole passes org actor) Q := by
  refine Engine.wlpR_bind (Engine.wlpR_select (fun d hd => ?_))
  cases hrole : (engine.applyAll d ws).roleOf org actor with
  | none => cases (engine.applyAll d ws).organizations.find? org <;> trivial
  | some r =>
    cases (engine.applyAll d ws).organizations.find? org with
    | none => trivial
    | some o =>
      simp only []
      split
      · trivial
      · split
        · next hp => exact h d o r hd hrole hp
        · trivial

theorem wlpR_requireAdminOrg {org : OrgId} {Q : List Lock → List Write → Unit → Prop}
    (h : ((engine.applyAll s ws).organizations.find? org).isSome → Q held ws ()) :
    engine.wlpR R op s held ws (requireAdminOrg org) Q := by
  refine Engine.wlpR_bind (Engine.wlpR_select (fun d hd => ?_))
  split
  · next hfound => exact h (hd.view.1.organizations org hfound)
  · trivial

/-- The role that the actor is seen to have under the lock is the role at the commit. -/
theorem wlpR_lockOrgForActor {C : Contract} {org : OrgId} {actor : UserId} {Q : List Lock → List Write → Bool → Prop}
    (h : ∀ held' (b : Bool), held ⊆ held' → Resource.exclusive (.organization org) ∈ held' →
      (b = true → ∃ r, (engine.applyAll s ws).roleOf org actor = some r ∧ C.canManage r = true) → Q held' ws b) :
    engine.wlpR R op s held ws (lockOrgForActor C org actor) Q := by
  refine Engine.wlpR_bind (Engine.wlpR_selectFor (fun d _ => Engine.wlpR_bind
    (Engine.wlpR_selectFor (fun d' hd' => ?_))))
  refine h _ _ (by simp) (by simp) (fun hb => ?_)
  obtain ⟨r, hr, hcan⟩ := (Option.any_eq_true _ _).mp hb
  refine ⟨r, ?_, hcan⟩
  rw [← hr]
  exact (roleOf_of_seen hd' (List.mem_append_right _ (mem_lockFound (isSome_of_roleOf hr)))).symm

theorem wlpR_lockMemberRole {org : OrgId} {user : UserId} {Q : List Lock → List Write → Option Role → Prop}
    (h : ∀ held' role, held ⊆ held' → (∀ r, role = some r →
      Resource.exclusive (.member org user) ∈ held' ∧ (engine.applyAll s ws).roleOf org user = some r) →
        Q held' ws role) :
    engine.wlpR R op s held ws (lockMemberRole org user) Q := by
  refine Engine.wlpR_selectFor (fun d hd => h _ _ (by simp) (fun r hr => ?_))
  have hl := mem_lockFound (l := Resource.exclusive (.member org user)) (isSome_of_roleOf hr)
  exact ⟨List.mem_append_right _ hl, by rw [← hr, roleOf_of_seen hd (List.mem_append_right _ hl)]⟩

/-- A seat inserted was free, at the commit too. -/
theorem wlpR_insertSeat {m : Member} {Q : List Lock → List Write → Bool → Prop}
    (hold : ∀ held', held ⊆ held' → Q held' ws false)
    (hnew : ∀ held', held ⊆ held' → Resource.exclusive (.member m.organizationId m.userId) ∈ held' →
      Resource.share (.user m.userId) ∈ held' → (engine.applyAll s ws).roleOf m.organizationId m.userId = none →
      Q held' (ws ++ [.insertMember m]) true) : engine.wlpR R op s held ws (insertSeat m) Q := by
  refine Engine.wlpR_dml (fun d hd => ?_)
  cases hm : (engine.applyAll d ws).members.find? m.key with
  | some x =>
    simp only [Option.isNone_some, Bool.false_eq_true, ↓reduceIte, List.flatMap_nil, List.append_nil]
    exact hold held (fun _ h => h)
  | none =>
    simp only [hm, Option.isNone_none, ↓reduceIte] at hd ⊢
    refine hnew _ (by simp) (by simp [engine, Write.needs]) (by simp [engine, Write.needs]) ?_
    have hrow := roleOf_of_seen (o := m.organizationId) (u := m.userId) (b := false) hd
      (List.mem_append_right _ (by simp [engine, Write.needs, Resource.exclusive]))
    rw [← hrow, Db.roleOf]
    change ((engine.applyAll d ws).members.find? m.key).map _ = none
    rw [hm]
    rfl

end Rules

end Civfix.Organizations
