import Civfix.OrganizationRules
import Civfix.Schedules

/-! # One owner

Who owns an organization changes only under its row lock, and an erasure hands over what its account
owned when it took those locks. It does not look again, so an account that is made an owner while it is
being erased loses the seat with the others; and an operation that appoints an account may have read
it before its erasure. Apart from these, an organization that is not deleted has one owner, whose
account is not deleted. -/
namespace Civfix.OrganizationOwners

open KeyedTables LockedTransactions Organizations

abbrev World := Engine.World Db Write Lock Refusal Operation Outcome

def OwnerOf (s : Db) (org : OrgId) (user : UserId) : Prop := s.roleOf org user = some .owner

instance (s : Db) (org : OrgId) (user : UserId) : Decidable (OwnerOf s org user) := inferInstanceAs (Decidable (_ = _))

/-- Every organization that is not deleted has one owner, and the owner's account is not deleted. -/
structure Owned (s : Db) : Prop where
  known : ∀ o v, OwnerOf s o v → (s.organizations.find? o).isSome
  owner : ∀ o, s.Open o → ∃ v, OwnerOf s o v ∧ s.Live v ∧ ∀ u, OwnerOf s o u → u = v

/-- The account that the operation names as an owner. -/
def appointee : Operation → Option UserId
  | .createOrganization _ owner _ => some owner
  | .adminAddMember _ user .owner _ | .adminSetMemberRole _ user .owner => some user
  | _ => none

def AppointsLive (op : Operation) (s : Db) : Prop := ∀ u ∈ appointee op, s.Live u

instance (op : Operation) (s : Db) : Decidable (AppointsLive op s) :=
    inferInstanceAs (Decidable (∀ u ∈ appointee op, _))

/-- While an account is being erased nobody makes it an owner. -/
def NotAppointed (a b : Db) : Operation → Prop
  | .eraseAccount user _ => ∀ o, OwnerOf b o user → OwnerOf a o user
  | _ => True

/-- What a row lock keeps against whole transactions: an organization's owners, and that the account of
a locked seat is not erased. -/
def Keeps (l : Lock) (a b : Db) : Prop :=
  match l.resource with
  | .organization o => ∀ v, OwnerOf b o v ↔ OwnerOf a o v
  | .member o v => (a.members.find? (o, v)).isSome → (b.members.find? (o, v)).isSome ∧ (a.Live v → b.Live v)
  | _ => True

def settled : Engine.Rely Db Lock Operation where
  keeps := Keeps
  during op a b := NotAppointed a b op
  keeps_refl := by
    rintro ⟨r, _⟩ a
    cases r with
    | organization o => exact fun _ => .rfl
    | member o v => exact fun h => ⟨h, fun hl => hl⟩
    | user u | invite i => trivial
  keeps_trans := by
    rintro ⟨r, _⟩ a b c h h'
    cases r with
    | organization o => exact fun v => (h' v).trans (h v)
    | member o v => exact fun ha => ⟨(h' (h ha).1).1, fun hl => (h' (h ha).1).2 ((h ha).2 hl)⟩
    | user u | invite i => trivial
  during_refl := by
    intro op a
    cases op with
    | eraseAccount u now => exact fun _ h => h
    | _ => trivial
  during_trans := by
    intro op a b c h h'
    cases op with
    | eraseAccount u now => exact fun o ho => h o (h' o ho)
    | _ => trivial

theorem ownerOf_iff_row {s : Db} {o : OrgId} {v : UserId} :
    OwnerOf s o v ↔ ∃ m ∈ s.members.rows, m.organizationId = o ∧ m.userId = v ∧ m.role = .owner := by
  constructor
  · intro h
    obtain ⟨m, hm, hr⟩ := Option.map_eq_some_iff.mp h
    have hk : m.key = (o, v) := Table.key_of_find? hm
    refine ⟨m, Table.mem_rows_iff.mpr (hk ▸ hm), ?_, ?_, hr⟩
    · exact congrArg Prod.fst hk
    · exact congrArg Prod.snd hk
  · rintro ⟨m, hm, rfl, rfl, hr⟩
    have hf : s.members.find? (m.organizationId, m.userId) = some m := Table.mem_rows_iff.mp hm
    rw [OwnerOf, Db.roleOf, hf, Option.map_some, hr]

/-! ## Operations that appoint nobody -/

/-- The same owners, the same accounts and no organization more. -/
structure SameOwners (s s' : Db) : Prop where
  owners : ∀ o v, OwnerOf s' o v ↔ OwnerOf s o v
  live : ∀ v, s'.Live v ↔ s.Live v
  open_ : ∀ o, s'.Open o → s.Open o

theorem SameOwners.refl (s : Db) : SameOwners s s := ⟨fun _ _ => .rfl, fun _ => .rfl, fun _ h => h⟩

theorem SameOwners.trans {a b c : Db} (h : SameOwners a b) (h' : SameOwners b c) : SameOwners a c :=
  ⟨fun o v => (h'.owners o v).trans (h.owners o v), fun v => (h'.live v).trans (h.live v),
    fun o ho => h.open_ o (h'.open_ o ho)⟩

/-- Writes of invites and suspensions, new seats below the owner's, and changes to a seat that is not
the owner's. -/
def Harmless (s : Db) : Write → Prop
  | .setSuspended _ _ | .insertInvite _ | .closeInvite _ _ _ => True
  | .insertMember m => m.role ≠ .owner
  | .setRole o u r => r ≠ .owner ∧ ¬ OwnerOf s o u
  | .deleteMember o u => ¬ OwnerOf s o u
  | .insertOrganization _ | .deleteOrganization _ _ | .tombstoneUser _ _ => False

theorem Harmless.of_same {s s' : Db} {w : Write} (hs : SameOwners s s') (h : Harmless s w) : Harmless s' w := by
  cases w with
  | setRole o u r => exact ⟨h.1, fun ho => h.2 ((hs.owners o u).mp ho)⟩
  | deleteMember o u => exact fun ho => h ((hs.owners o u).mp ho)
  | insertOrganization _ | deleteOrganization _ _ | tombstoneUser _ _ => exact h.elim
  | setSuspended _ _ | insertMember _ | insertInvite _ | closeInvite _ _ _ => exact h

theorem Harmless.ownerOf {s : Db} {w : Write} (h : Harmless s w) (o : OrgId) (v : UserId) :
    OwnerOf (s.apply w) o v ↔ OwnerOf s o v := by
  by_cases hw : w.seat = some (o, v)
  · cases w with
    | insertMember m =>
      obtain ⟨rfl, rfl⟩ : m.organizationId = o ∧ m.userId = v := by simpa [Write.seat, Member.key] using hw
      rw [OwnerOf, roleOf_insertMember, OwnerOf]
      cases s.roleOf m.organizationId m.userId with
      | none =>
        have hm : m.role ≠ .owner := h
        simpa using hm
      | some r => simp
    | setRole o' u r =>
      obtain ⟨rfl, rfl⟩ : o' = o ∧ u = v := by simpa [Write.seat] using hw
      rw [OwnerOf, roleOf_setRole]
      cases hr : s.roleOf o' u with
      | none => simp [OwnerOf, hr]
      | some x =>
        simp only [Option.map_some, Option.some.injEq]
        exact ⟨fun he => absurd he h.1, fun he => absurd he h.2⟩
    | deleteMember o' u =>
      obtain ⟨rfl, rfl⟩ : o' = o ∧ u = v := by simpa [Write.seat] using hw
      rw [OwnerOf, roleOf_deleteMember]
      exact ⟨fun he => absurd he (by simp), fun he => absurd he h⟩
    | insertOrganization _ | deleteOrganization _ _ | tombstoneUser _ _ => exact h.elim
    | setSuspended _ _ | insertInvite _ | closeInvite _ _ _ => cases hw
  · rw [OwnerOf, roleOf_apply_of_ne s hw, OwnerOf]

theorem Harmless.same {s : Db} {w : Write} (h : Harmless s w) : SameOwners s (s.apply w) := by
  refine ⟨h.ownerOf, fun v => ?_, fun o ho => ?_⟩
  · rw [Db.Live, Db.find?_users, Db.Live]
    cases w with
    | tombstoneUser _ _ => exact h.elim
    | insertOrganization _ | setSuspended _ _ | deleteOrganization _ _ | insertMember _ | setRole _ _ _ | deleteMember _ _
    | insertInvite _ | closeInvite _ _ _ => exact .rfl
  · rw [Db.Open, Db.find?_organizations] at ho
    cases w with
    | setSuspended id at_ =>
      simp only [Write.organization] at ho
      split at ho
      · obtain ⟨x, hx, hd⟩ := ho
        obtain ⟨y, hy, rfl⟩ := Option.map_eq_some_iff.mp hx
        exact ⟨y, hy, hd⟩
      · exact ho
    | insertOrganization _ | deleteOrganization _ _ => exact h.elim
    | insertMember _ | setRole _ _ _ | deleteMember _ _ | insertInvite _ | closeInvite _ _ _ | tombstoneUser _ _ => exact ho

theorem sameOwners_applyAll {ws : List Write} {s : Db} (h : ∀ w ∈ ws, Harmless s w) :
    SameOwners s (engine.applyAll s ws) := by
  induction ws generalizing s with
  | nil => exact .refl s
  | cons w ws ih =>
    have hw : SameOwners s (s.apply w) := (h w (by simp)).same
    exact hw.trans (ih (fun x hx => (h x (by simp [hx])).of_same hw))

/-! ## Commits -/

/-- What a commit owes to the invariant and to the locks of others. -/
def Sound (s : Db) (held : List Lock) (ws : List Write) : Prop :=
  Owned (engine.applyAll s ws) ∧ ∀ l, (∀ h ∈ held, ¬ h.Conflict l) → l.Protects s (engine.applyAll s ws) →
    Keeps l s (engine.applyAll s ws)

theorem organization_persists {s : Db} (ws : List Write) {o : OrgId} (h : (s.organizations.find? o).isSome) :
    ((engine.applyAll s ws).organizations.find? o).isSome := (engine.evolves_writes s ws).organizations o h

theorem member_persists {s s' : Db} {o : OrgId} {v : UserId} {b : Bool} (h : Lock.Protects s s' ⟨.member o v, b⟩)
    (hs : (s.members.find? (o, v)).isSome) : (s'.members.find? (o, v)).isSome := by
  have hrow : s'.members.find? (o, v) = s.members.find? (o, v) := by cases b <;> exact h
  rw [hrow]
  exact hs

theorem SameOwners.sound {s : Db} {ws : List Write} (hs : Owned s) (held : List Lock)
    (h : SameOwners s (engine.applyAll s ws)) : Sound s held ws := by
  refine ⟨⟨fun o v ho => organization_persists ws (hs.known o v ((h.owners o v).mp ho)), fun o ho => ?_⟩,
    fun l _ hp => ?_⟩
  · obtain ⟨v, hv, hl, hu⟩ := hs.owner o (h.open_ o ho)
    exact ⟨v, (h.owners o v).mpr hv, (h.live v).mpr hl, fun u hu' => hu u ((h.owners o u).mp hu')⟩
  · obtain ⟨r, b⟩ := l
    cases r with
    | organization o => exact h.owners o
    | member o v => exact fun hm => ⟨member_persists hp hm, (h.live v).mpr⟩
    | user u | invite i => trivial

/-- The owner of one organization changes, under its lock. -/
structure Appoints (o : OrgId) (u : UserId) (s s' : Db) : Prop where
  owner : ∀ v, OwnerOf s' o v ↔ v = u
  others : ∀ o', o' ≠ o → ∀ v, OwnerOf s' o' v ↔ OwnerOf s o' v
  live : ∀ v, s'.Live v ↔ s.Live v
  open_ : ∀ o', o' ≠ o → s'.Open o' → s.Open o'

theorem Appoints.sound {s : Db} {ws : List Write} {o : OrgId} {u : UserId} {held : List Lock} (hs : Owned s)
    (h : Appoints o u s (engine.applyAll s ws)) (hl : Resource.exclusive (.organization o) ∈ held) (hu : s.Live u)
    (hrow : ((engine.applyAll s ws).organizations.find? o).isSome) : Sound s held ws := by
  refine ⟨⟨fun o' v ho => ?_, fun o' ho => ?_⟩, fun l hfree hp => ?_⟩
  · by_cases he : o' = o
    · rw [he]
      exact hrow
    · exact organization_persists ws (hs.known o' v ((h.others o' he v).mp ho))
  · by_cases he : o' = o
    · subst he
      exact ⟨u, (h.owner u).mpr rfl, (h.live u).mpr hu, fun v hv => (h.owner v).mp hv⟩
    · obtain ⟨v, hv, hl, huniq⟩ := hs.owner o' (h.open_ o' he ho)
      exact ⟨v, (h.others o' he v).mpr hv, (h.live v).mpr hl, fun x hx => huniq x ((h.others o' he x).mp hx)⟩
  · obtain ⟨r, b⟩ := l
    cases r with
    | organization o' =>
      refine h.others o' (fun he => hfree _ hl (conflict_exclusive.mpr ?_))
      rw [he]
    | member o v => exact fun hm => ⟨member_persists hp hm, (h.live v).mpr⟩
    | user u | invite i => trivial

section Operations

variable {C : Contract} {s : Db}

theorem Owned.unchanged (hs : Owned s) (held : List Lock) : Sound s held [] := SameOwners.sound hs held (.refl s)

theorem Owned.harmless (hs : Owned s) (held : List Lock) {ws : List Write} (h : ∀ w ∈ ws, Harmless s w) :
    Sound s held ws :=
  SameOwners.sound hs held (sameOwners_applyAll h)

theorem Write.Closes.harmless {w : Write} (h : w.Closes) : Harmless s w := by
  obtain ⟨id, st, u, rfl⟩ := h
  trivial

theorem SeatRole.toRole_ne_owner (r : SeatRole) : r.toRole ≠ .owner := by cases r <;> simp [SeatRole.toRole]

theorem sound_of_mayWrite (hs : Owned s) {op : Operation} (h : ∀ w, op.MayWrite w → Harmless s w) :
    engine.wlpR settled op s [] [] (program C op) (fun held ws _ => Sound s held ws) := by
  refine Engine.wlpR_writes (program_plain C op).writes (fun held us _ _ hus => ?_)
  rw [List.nil_append]
  exact hs.harmless held (fun w hw => h w (hus w hw))

theorem setMemberRole_sound (hs : Owned s) {op : Operation} (org : OrgId) (user : UserId) (role : SeatRole)
    (actor : UserId) :
    engine.wlpR settled op s [] [] (setMemberRole C org user role actor) (fun held ws _ => Sound s held ws) := by
  refine Engine.wlpR_bind (Engine.wlpR_reads (plain_requireRole _ org actor) (fun _ o _ => ?_))
  refine Engine.wlpR_bind (Engine.wlpR_reads (plain_assertNotSuspended o) (fun _ _ _ => ?_))
  split
  · trivial
  refine Engine.wlpR_bind (Engine.wlpR_reads (plain_lockOrganization org) (fun _ _ _ => ?_))
  refine Engine.wlpR_bind (wlpR_lockMemberRole (fun held r _ hr => ?_))
  split
  · exact hs.unchanged held
  · exact hs.unchanged held
  · next existing hne =>
    have hrole : s.roleOf org user = some existing := (hr existing rfl).2
    have hnot : ¬ OwnerOf s org user := by
      intro ho
      rw [OwnerOf, hrole] at ho
      cases ho
      exact hne rfl
    split
    · exact hs.unchanged held
    refine Engine.wlpR_bind (Engine.wlpR_reads (plain_lastAdmin org _) (fun held' _ _ => ?_))
    split
    · exact hs.unchanged held'
    have hplain : engine.Plain (Harmless s) (do
        setRole org user role.toRole
        withdrawInvites C org user existing role.toRole
        pure Outcome.updated) := by
      refine Engine.Plain.bind (plain_setRole ⟨SeatRole.toRole_ne_owner role, hnot⟩) (fun _ => ?_)
      exact (plain_withdrawInvites (fun _ => Write.Closes.harmless) C org user _ _).bind (fun _ => Engine.plain_pure _)
    exact Engine.wlpR_writes hplain.writes (fun held us _ _ hus => hs.harmless held hus)

theorem removeMember_sound (hs : Owned s) {op : Operation} (org : OrgId) (user : UserId) (by_ : Remover) :
    engine.wlpR settled op s [] [] (removeMember C org user by_) (fun held ws _ => Sound s held ws) := by
  refine Engine.wlpR_bind (Engine.wlpR_reads (plain_requireRemover C org user by_) (fun _ _ _ => ?_))
  refine Engine.wlpR_bind (Engine.wlpR_reads (plain_lockOrganization org) (fun _ _ _ => ?_))
  refine Engine.wlpR_bind (Engine.wlpR_selectFor (fun _ _ => ?_))
  refine Engine.wlpR_bind (wlpR_lockMemberRole (fun held r _ _ => ?_))
  refine Engine.wlpR_bind (Engine.wlpR_reads (plain_lastAdmin org _) (fun held' _ _ => ?_))
  split
  · exact hs.unchanged held'
  refine Engine.wlpR_bind (Engine.wlpR_dml (fun d hd => ?_))
  by_cases hrole : (engine.applyAll d []).roleOf org user = none ∨ (engine.applyAll d []).roleOf org user = some .owner
  · simp only [hrole, not_true_eq_false, decide_false, Bool.false_eq_true, ↓reduceIte, List.append_nil]
    refine Engine.wlpR_bind (Engine.wlpR_select (fun _ _ => ?_))
    split <;> exact hs.unchanged _
  · simp only [if_neg hrole] at hd ⊢
    -- The row deleted is locked, so it is not the owner's at the commit either.
    have hnot : ¬ OwnerOf s org user := by
      have hl : (⟨.member org user, false⟩ : Lock) ∈ held' ++ ([Write.deleteMember org user]).flatMap engine.needs := by
        simp [engine, Write.needs, Resource.exclusive]
      have hsame : d.roleOf org user = s.roleOf org user := roleOf_of_seen hd hl
      exact fun ho => hrole (.inr (hsame.trans ho))
    simp only [hrole, not_false_eq_true, decide_true, ↓reduceIte]
    have hplain : engine.Plain (Harmless s) (revokeInvitesByInviter org user) :=
      plain_revokeInvitesByInviter (fun _ => Write.Closes.harmless) org user
    refine Engine.wlpR_bind (Engine.wlpR_writes hplain.writes ?_)
    refine fun held us _ _ hus => hs.harmless held (fun w hw => ?_)
    rcases List.mem_append.mp hw with hw | hw
    · rw [List.nil_append, List.mem_singleton] at hw
      subst hw
      exact hnot
    · exact hus w hw

/-! ### Appointments -/

/-- The owners seen under the organization's lock are its owners at the commit, and they step down. -/
theorem wlpR_demoteOwner {op : Operation} {held : List Lock} {org : OrgId} {Q : List Lock → List Write → Unit → Prop}
    (hl : Resource.exclusive (.organization org) ∈ held)
    (h : ∀ held' us, held ⊆ held' → (∀ w ∈ us, ∃ v, w = .setRole org v .admin ∧ OwnerOf s org v) →
      (∀ v, OwnerOf s org v → .setRole org v .admin ∈ us) → Q held' us ()) :
    engine.wlpR settled op s held [] (demoteOwner org) Q := by
  refine Engine.wlpR_dml (fun d hd => ?_)
  have howners : ∀ v, OwnerOf s org v ↔ OwnerOf d org v := hd.keeps _ (List.mem_append_left _ hl)
  rw [List.nil_append]
  refine h _ _ (by simp) (fun w hw => ?_) (fun v hv => ?_)
  · obtain ⟨m, hm, rfl⟩ := List.mem_map.mp hw
    obtain ⟨hm, hf⟩ := List.mem_filter.mp hm
    obtain ⟨ho, hr⟩ := of_decide_eq_true hf
    exact ⟨m.userId, rfl, (howners _).mpr (ownerOf_iff_row.mpr ⟨m, hm, ho, rfl, hr⟩)⟩
  · obtain ⟨m, hm, ho, rfl, hr⟩ := ownerOf_iff_row.mp ((howners v).mp hv)
    exact List.mem_map.mpr ⟨m, List.mem_filter.mpr ⟨hm, decide_eq_true ⟨ho, hr⟩⟩, rfl⟩

/-- A write of a seat of one organization, or of an invite. -/
def WithinMembers (org : OrgId) (w : Write) : Prop :=
  w.account = none ∧ w.ofOrganization = none ∧ ∀ o u, w.seat = some (o, u) → o = org

theorem Write.Closes.within {w : Write} (h : w.Closes) (org : OrgId) : WithinMembers org w := by
  obtain ⟨id, st, u, rfl⟩ := h
  exact ⟨rfl, rfl, fun o u hs => by cases hs⟩

theorem within_setRole (org : OrgId) (u : UserId) (r : Role) : WithinMembers org (.setRole org u r) := by
  refine ⟨rfl, rfl, fun o u hs => ?_⟩
  cases hs
  rfl

theorem within_insertMember (m : Member) : WithinMembers m.organizationId (.insertMember m) := by
  refine ⟨rfl, rfl, fun o u hs => ?_⟩
  cases hs
  rfl

/-- One organization has a new owner and the owners it had step down. -/
theorem appoints_of_writes {ws : List Write} {org : OrgId} {user : UserId} (hw : ∀ w ∈ ws, WithinMembers org w)
    (huser : OwnerOf (engine.applyAll s ws) org user)
    (hother : ∀ v, v ≠ user → ∀ w ∈ ws, w.seat = some (org, v) → w = .setRole org v .admin)
    (hall : ∀ v, OwnerOf s org v → .setRole org v .admin ∈ ws) : Appoints org user s (engine.applyAll s ws) where
  owner v := by
    refine ⟨fun hv => ?_, fun hv => hv ▸ huser⟩
    by_contra hne
    rw [OwnerOf, roleOf_applyAll s (hother v hne)] at hv
    split at hv
    · cases hr : s.roleOf org v with
      | none => simp [hr] at hv
      | some r => simp [hr] at hv
    · next hnot => exact hnot (hall v hv)
  others o ho v := by
    rw [OwnerOf, roleOf_applyAll_of_ne s (fun w hx hs => ho ((hw w hx).2.2 o v hs)), OwnerOf]
  live v := live_applyAll s (fun w hx => by simp [(hw w hx).1])
  open_ o _ ho := by
    rwa [Db.Open, organization_applyAll s (fun w hx => by simp [(hw w hx).2.1])] at ho

theorem adminAddMember_sound (C : Contract) (hs : Owned s) (org : OrgId) (user : UserId) (role : Role) (now : Instant)
    (hok : AppointsLive (.adminAddMember org user role now) s) :
    engine.wlpR settled (.adminAddMember org user role now) s [] [] (adminAddMember org user role now)
      (fun held ws _ => Sound s held ws) := by
  by_cases hr : role = .owner
  · subst hr
    have hlive : s.Live user := hok user rfl
    refine Engine.wlpR_bind (Engine.wlpR_reads (plain_requireAdminOrg org) (fun held _ _ => ?_))
    refine Engine.wlpR_bind (Engine.wlpR_selectFor (fun d hd => ?_))
    by_cases hopen : (engine.applyAll d []).Open org
    · simp only [hopen, ↓reduceIte, decide_true] at hd ⊢
      have hrow : (s.organizations.find? org).isSome := by
        have hsame : (engine.applyAll d []).organizations.find? org = s.organizations.find? org :=
          organization_of_seen hd (by simp)
        obtain ⟨o, ho, -⟩ := hopen
        rw [← hsame, ho]
        rfl
      refine Engine.wlpR_bind (Engine.wlpR_select (fun _ _ => ?_))
      split
      · refine Engine.wlpR_bind (Engine.wlpR_select (fun _ _ => ?_))
        split
        · exact hs.unchanged _
        · refine Engine.wlpR_bind (wlpR_demoteOwner (by simp) (fun held' us hsub hus hall => ?_))
          refine Engine.wlpR_bind (wlpR_insertSeat (fun _ _ => trivial) (fun held2 hsub2 _ _ hnone => ?_))
          refine Appoints.sound hs (appoints_of_writes (fun w hw => ?_) ?_ (fun v hv w hw hn => ?_) (fun v hv => ?_))
            (hsub2 (hsub (by simp))) hlive (organization_persists _ hrow)
          · rcases List.mem_append.mp hw with hw | hw
            · obtain ⟨v, rfl, -⟩ := hus w hw
              exact within_setRole org v .admin
            · rw [List.mem_singleton.mp hw]
              exact within_insertMember _
          · rw [Engine.applyAll_append]
            change ((engine.applyAll s us).apply (.insertMember ⟨org, user, .owner, now⟩)).roleOf org user = some .owner
            rw [roleOf_insertMember (engine.applyAll s us) ⟨org, user, .owner, now⟩, hnone]
            rfl
          · rcases List.mem_append.mp hw with hw | hw
            · obtain ⟨x, rfl, -⟩ := hus w hw
              cases hn
              rfl
            · rw [List.mem_singleton.mp hw] at hn
              cases hn
              exact absurd rfl hv
          · exact List.mem_append_left _ (hall v hv)
      · exact hs.unchanged _
    · simp only [hopen, ↓reduceIte, decide_false, Bool.false_eq_true]
      exact hs.unchanged _
  · refine sound_of_mayWrite (C := C) hs (fun w hw => ?_)
    rcases hw with rfl | ⟨hw, -⟩
    · exact hr
    · exact absurd hw hr

theorem adminSetMemberRole_sound (hs : Owned s) (org : OrgId) (user : UserId) (role : Role)
    (hok : AppointsLive (.adminSetMemberRole org user role) s) :
    engine.wlpR settled (.adminSetMemberRole org user role) s [] [] (adminSetMemberRole C org user role)
      (fun held ws _ => Sound s held ws) := by
  refine Engine.wlpR_bind (wlpR_requireAdminOrg (fun hrow => ?_))
  refine Engine.wlpR_bind (Engine.wlpR_selectFor (fun _ _ => ?_))
  refine Engine.wlpR_bind (wlpR_lockMemberRole (fun held r hsub hr => ?_))
  have hl : Resource.exclusive (.organization org) ∈ held := hsub (by simp)
  split
  · exact hs.unchanged held
  · next existing =>
    have hrole : s.roleOf org user = some existing := (hr existing rfl).2
    split
    · exact hs.unchanged held
    split
    · exact hs.unchanged held
    next hne hnotOwner =>
    have hnot : ¬ OwnerOf s org user := by
      intro ho
      rw [OwnerOf, hrole] at ho
      cases ho
      exact hnotOwner rfl
    by_cases hrowner : role = .owner
    · subst hrowner
      have hlive : s.Live user := hok user rfl
      refine Engine.wlpR_bind (wlpR_demoteOwner hl (fun held' us hsub' hus hall => ?_))
      have hplain : engine.Plain (fun w => w = .setRole org user .owner ∨ w.Closes)
        (withdrawInvites C org user existing .owner) :=
        plain_withdrawInvites (fun _ => .inr) C org user _ _
      refine Engine.wlpR_bind (Engine.wlpR_dml (fun _ _ => Engine.wlpR_bind (Engine.wlpR_writes hplain.writes ?_)))
      refine fun held2 us' _ hsub2 hus' => ?_
      -- Each write is a demotion, the appointment, or closes an invite.
      have hcases : ∀ w ∈ us ++ [Write.setRole org user .owner] ++ us',
          (∃ v, w = .setRole org v .admin ∧ OwnerOf s org v) ∨ w = .setRole org user .owner ∨ w.Closes := by
        intro w hw
        rcases List.mem_append.mp hw with hw | hw
        · rcases List.mem_append.mp hw with hw | hw
          · exact .inl (hus w hw)
          · exact .inr (.inl (List.mem_singleton.mp hw))
        · exact .inr (hus' w hw)
      refine Appoints.sound hs (appoints_of_writes (fun w hw => ?_) ?_ (fun v hv w hw hn => ?_) (fun v hv => ?_))
        (hsub2 (List.mem_append_left _ (hsub' hl))) hlive (organization_persists _ hrow)
      · rcases hcases w hw with ⟨v, rfl, -⟩ | rfl | hc
        · exact within_setRole org v .admin
        · exact within_setRole org user .owner
        · exact Write.Closes.within hc org
      · rw [OwnerOf, roleOf_applyAll s (r := .owner), if_pos (by simp), hrole]
        · rfl
        intro w hw hseat
        rcases hcases w hw with ⟨v, rfl, hv⟩ | rfl | ⟨id, st, u, rfl⟩
        · cases hseat
          exact absurd hv hnot
        · rfl
        · cases hseat
      · rcases hcases w hw with ⟨x, rfl, -⟩ | rfl | ⟨id, st, u, rfl⟩
        · cases hn
          rfl
        · cases hn
          exact absurd rfl hv
        · cases hn
      · exact List.mem_append_left _ (List.mem_append_left _ (hall v hv))
    · have hplain : engine.Plain (Harmless s) (do
          stepDownFor org role
          setRole org user role
          withdrawInvites C org user existing role
          pure Outcome.updated) := by
        refine Engine.Plain.bind (plain_stepDownFor (fun hx => absurd hx hrowner)) (fun _ => ?_)
        refine Engine.Plain.bind (plain_setRole ⟨hrowner, hnot⟩) (fun _ => ?_)
        exact (plain_withdrawInvites (fun _ => Write.Closes.harmless) C org user _ _).bind
          (fun _ => Engine.plain_pure _)
      exact Engine.wlpR_writes hplain.writes (fun held us _ _ hus => hs.harmless held hus)

theorem createOrganization_sound (hs : Owned s) (org : OrgId) (owner : UserId) (now : Instant)
    (hok : AppointsLive (.createOrganization org owner now) s) :
    engine.wlpR settled (.createOrganization org owner now) s [] [] (createOrganization org owner now)
      (fun held ws _ => Sound s held ws) := by
  have hlive : s.Live owner := hok owner rfl
  refine Engine.wlpR_bind (Engine.wlpR_dml (fun d hd => ?_))
  cases hfree : (engine.applyAll d []).organizations.find? org with
  | some o =>
    simp only [Option.isNone_some, Bool.false_eq_true, ↓reduceIte]
    trivial
  | none =>
    simp only [hfree, Option.isNone_none, ↓reduceIte] at hd ⊢
    have hnew : s.organizations.find? org = none := by
      have hsame : (engine.applyAll d []).organizations.find? org = s.organizations.find? org :=
        organization_of_seen hd (by simp [engine, Write.needs])
      rw [← hsame, hfree]
    refine Engine.wlpR_bind (wlpR_insertSeat (fun _ _ => trivial) (fun held2 hsub _ _ hnone => ?_))
    have hseat : ∀ o v, (o, v) ≠ (org, owner) → ∀ w ∈ [] ++ [Write.insertOrganization ⟨org, none, none⟩] ++
        [Write.insertMember ⟨org, owner, .owner, now⟩], w.seat ≠ some (o, v) := by
      intro o v hne w hw he
      simp only [List.nil_append, List.cons_append, List.mem_cons, List.not_mem_nil, or_false] at hw
      rcases hw with rfl | rfl
      · cases he
      · exact hne (Option.some.inj he).symm
    refine Appoints.sound (o := org) (u := owner) hs ⟨fun v => ?_, fun o ho v => ?_, fun v => ?_, fun o ho hopen => ?_⟩
      (hsub (List.mem_append_right _ (by simp [engine, Write.needs]))) hlive ?_
    · constructor
      · intro hv
        by_contra hne
        rw [OwnerOf, roleOf_applyAll_of_ne s (hseat org v (by simp [hne]))] at hv
        have hknown := hs.known org v hv
        rw [hnew] at hknown
        cases hknown
      · rintro rfl
        rw [OwnerOf, Engine.applyAll_append]
        refine (roleOf_insertMember _ ⟨org, v, .owner, now⟩).trans ?_
        rw [show (engine.applyAll s ([] ++ [Write.insertOrganization ⟨org, none, none⟩])).roleOf org v =
          none from hnone]
        rfl
    · rw [OwnerOf, roleOf_applyAll_of_ne s (hseat o v (by simp [ho])), OwnerOf]
    · refine live_applyAll s (fun w hw => ?_)
      simp only [List.nil_append, List.cons_append, List.mem_cons, List.not_mem_nil, or_false] at hw
      rcases hw with rfl | rfl <;> simp [Write.account]
    · rwa [Db.Open, organization_applyAll s (fun w hw => ?_)] at hopen
      simp only [List.nil_append, List.cons_append, List.mem_cons, List.not_mem_nil, or_false] at hw
      rcases hw with rfl | rfl
      · simp only [Write.ofOrganization, ne_eq, Option.some.injEq]
        exact fun he => ho he.symm
      · simp [Write.ofOrganization]
    · rw [Engine.applyAll_append]
      refine organization_persists _ ?_
      change ((s.apply (.insertOrganization ⟨org, none, none⟩)).organizations.find? org).isSome
      rw [Db.find?_organizations]
      simp [Write.organization]

/-! ### Erasures -/

/-- What an erasure leaves: the account's organizations have gone to the heirs, or are closed. -/
structure HandsOver (user : UserId) (s s' : Db) (held : List Lock) (heir : OrgId → Option UserId) : Prop where
  ownedLocked : ∀ o, OwnerOf s o user → Resource.exclusive (.organization o) ∈ held
  seatsLocked : ∀ o, (s.members.find? (o, user)).isSome → Resource.exclusive (.member o user) ∈ held
  gone : ∀ o, ¬ OwnerOf s' o user
  owners : ∀ o v, v ≠ user → (OwnerOf s' o v ↔ OwnerOf s o v ∨ OwnerOf s o user ∧ heir o = some v)
  heirLive : ∀ o v, OwnerOf s o user → heir o = some v → v ≠ user ∧ s.Live v
  closed : ∀ o, OwnerOf s o user → heir o = none → ¬ s'.Open o
  live : ∀ v, v ≠ user → (s'.Live v ↔ s.Live v)
  open_ : ∀ o, s'.Open o → s.Open o

theorem HandsOver.sound {user : UserId} {ws : List Write} {held : List Lock} {heir : OrgId → Option UserId}
    (hs : Owned s)
    (h : HandsOver user s (engine.applyAll s ws) held heir) : Sound s held ws := by
  refine ⟨⟨fun o v ho => organization_persists ws ?_, fun o ho => ?_⟩, fun l hfree hp => ?_⟩
  · have hv : v ≠ user := fun he => h.gone o (he ▸ ho)
    rcases (h.owners o v hv).mp ho with hv' | ⟨hu, -⟩
    · exact hs.known o v hv'
    · exact hs.known o user hu
  · obtain ⟨v, hv, hl, huniq⟩ := hs.owner o (h.open_ o ho)
    by_cases hvu : v = user
    · subst hvu
      cases hh : heir o with
      | none => exact absurd ho (h.closed o hv hh)
      | some x =>
        obtain ⟨hx, hxl⟩ := h.heirLive o x hv hh
        refine ⟨x, (h.owners o x hx).mpr (.inr ⟨hv, hh⟩), (h.live x hx).mpr hxl, fun y hy => ?_⟩
        have hyv : y ≠ v := fun he => h.gone o (he ▸ hy)
        rcases (h.owners o y hyv).mp hy with hy' | ⟨-, hy'⟩
        · exact absurd (huniq y hy') hyv
        · exact Option.some.inj (hy'.symm.trans hh)
    · refine ⟨v, (h.owners o v hvu).mpr (.inl hv), (h.live v hvu).mpr hl, fun y hy => ?_⟩
      have hyu : y ≠ user := fun he => h.gone o (he ▸ hy)
      rcases (h.owners o y hyu).mp hy with hy' | ⟨hu, -⟩
      · exact huniq y hy'
      · exact absurd (huniq user hu).symm hvu
  · obtain ⟨r, b⟩ := l
    cases r with
    | organization o =>
      have hnot : ¬ OwnerOf s o user := fun ho => hfree _ (h.ownedLocked o ho) (conflict_exclusive.mpr rfl)
      intro v
      by_cases hv : v = user
      · subst hv
        exact ⟨fun ho => absurd ho (h.gone o), fun ho => absurd ho hnot⟩
      · exact (h.owners o v hv).trans ⟨fun hx => hx.resolve_right (fun hu => hnot hu.1), .inl⟩
    | member o v =>
      refine fun hm => ⟨member_persists hp hm, ?_⟩
      have hv : v ≠ user := by
        rintro rfl
        exact hfree _ (h.seatsLocked o hm) (conflict_exclusive.mpr rfl)
      exact (h.live v hv).mpr
    | user u | invite i => trivial

section Statements

variable {user : UserId} {now : Instant} {held : List Lock}

/-- The organizations given up are those owned at the commit: nobody appoints the account meanwhile. -/
theorem wlpR_stepDown {Q : List Lock → List Write → List OrgId → Prop}
    (h : ∀ held' owned, held ⊆ held' → (∀ o, o ∈ owned ↔ OwnerOf s o user) →
      (∀ o ∈ owned, Resource.exclusive (.member o user) ∈ held') →
      Q held' ([(.tombstoneUser user now : Write)] ++ owned.map (fun o => (.setRole o user .admin : Write))) owned) :
    engine.wlpR settled (.eraseAccount user now) s held [.tombstoneUser user now] (stepDown user) Q := by
  refine Engine.wlpR_dml (fun d hd => ?_)
  -- The tombstone leaves the seats of the snapshot as they were.
  have hmem : ∀ o, o ∈ (d.members.rows.filter (fun m => decide (m.userId = user ∧ m.role = .owner))).map
      (fun m => m.organizationId) ↔ OwnerOf d o user := by
    intro o
    simp only [List.mem_map, List.mem_filter, decide_eq_true_eq, ownerOf_iff_row]
    exact ⟨fun ⟨m, hm, ho⟩ => ⟨m, hm.1, ho, hm.2.1, hm.2.2⟩, fun ⟨m, hm, ho, hu, hr⟩ => ⟨m, ⟨hm, hu, hr⟩, ho⟩⟩
  have hlock : ∀ o, OwnerOf d o user → Resource.exclusive (.member o user) ∈
      ((d.members.rows.filter (fun m => decide (m.userId = user ∧ m.role = .owner))).map
        (fun m => Write.setRole m.organizationId user .admin)).flatMap engine.needs := by
    intro o ho
    obtain ⟨m, hm, rfl⟩ := List.mem_map.mp ((hmem o).mpr ho)
    exact List.mem_flatMap.mpr ⟨_, List.mem_map_of_mem hm, List.mem_singleton.mpr rfl⟩
  have howned : ∀ o, OwnerOf d o user ↔ OwnerOf s o user := by
    refine fun o => ⟨fun ho => ?_, hd.during o⟩
    have hsame : d.roleOf o user = s.roleOf o user := roleOf_of_seen hd (List.mem_append_right _ (hlock o ho))
    exact hsame.symm.trans ho
  have h' := h (held ++ _) _ (by simp) (fun o => (hmem o).trans (howned o))
    (fun o ho => List.mem_append_right _ (hlock o ((hmem o).mp ho)))
  rwa [List.map_map] at h'

/-- An heir is a live admin whose seat is locked, at the commit too. -/
theorem wlpR_appointSuccessors {ws : List Write} {owned : List OrgId} {Q : List Lock → List Write → Unit → Prop}
    (hws : ∀ w ∈ ws, (∀ o v, w.seat = some (o, v) → v = user) ∧ ∀ v, w.account = some v → v = user)
    (h : ∀ held' (heir : OrgId → Option UserId), held ⊆ held' →
      (∀ o ∈ owned, ∀ v, heir o = some v → v ≠ user ∧ s.roleOf o v = some .admin ∧ s.Live v) →
      Q held' (ws ++ owned.filterMap (fun o => (heir o).map (fun v => .setRole o v .owner))) ()) :
    engine.wlpR settled (.eraseAccount user now) s held ws (appointSuccessors user owned) Q := by
  refine Engine.wlpR_dml (fun d hd => h _ (fun o => (engine.applyAll d ws).successor user o) (by simp)
    (fun o ho v hv => ?_))
  obtain ⟨m, hm, rfl⟩ := Option.map_eq_some_iff.mp hv
  obtain ⟨hrow, hf⟩ := List.mem_filter.mp (List.argmin_mem hm)
  obtain ⟨rfl, hadmin, hne, hlive⟩ := of_decide_eq_true hf
  have hview : (engine.applyAll d ws).roleOf m.organizationId m.userId = some .admin := by
    have hfind : (engine.applyAll d ws).members.find? (m.organizationId, m.userId) = some m :=
      Table.mem_rows_iff.mp hrow
    rw [Db.roleOf, hfind, Option.map_some, hadmin]
  have hl : Resource.exclusive (.member m.organizationId m.userId) ∈ held ++ (owned.filterMap (fun o =>
      ((engine.applyAll d ws).successor user o).map (fun v => Write.setRole o v .owner))).flatMap engine.needs := by
    refine List.mem_append_right _ (List.mem_flatMap.mpr ⟨.setRole m.organizationId m.userId .owner, ?_,
      List.mem_singleton.mpr rfl⟩)
    exact List.mem_filterMap.mpr ⟨m.organizationId, ho, by rw [hv]; rfl⟩
  have hother : ∀ x : Db, (engine.applyAll x ws).roleOf m.organizationId m.userId =
    x.roleOf m.organizationId m.userId :=
    fun x => roleOf_applyAll_of_ne x (fun w hw hseat => hne ((hws w hw).1 _ _ hseat))
  have hlived : d.Live m.userId := (live_applyAll d (fun w hw hacc => hne ((hws w hw).2 _ hacc))).mp hlive
  have hseat : (d.members.find? (m.organizationId, m.userId)).isSome := isSome_of_roleOf ((hother d).symm.trans hview)
  refine ⟨hne, ?_, (hd.keeps _ hl hseat).2 hlived⟩
  rw [← hother s, ← roleOf_of_seen hd hl, hview]

/-- Every seat of the account is deleted: while it is being erased it takes no new one. -/
theorem wlpR_deleteSeats {ws : List Write} {Q : List Lock → List Write → Unit → Prop}
    (hu : Resource.exclusive (.user user) ∈ held)
    (hws : ∀ o, (s.members.find? (o, user)).isSome → ((engine.applyAll s ws).members.find? (o, user)).isSome)
    (h : ∀ held' us, held ⊆ held' → (∀ w ∈ us, ∃ o, w = .deleteMember o user) →
      (∀ o, (s.members.find? (o, user)).isSome →
        .deleteMember o user ∈ us ∧ Resource.exclusive (.member o user) ∈ held') → Q held' (ws ++ us) ()) :
    engine.wlpR settled (.eraseAccount user now) s held ws (deleteSeats user) Q := by
  refine Engine.wlpR_dml (fun d hd => h _ _ (by simp) (fun w hw => ?_) (fun o ho => ?_))
  · obtain ⟨m, -, rfl⟩ := List.mem_map.mp hw
    exact ⟨m.organizationId, rfl⟩
  · have hview : ∃ m, (engine.applyAll d ws).members.find? (o, user) = some m := by
      refine Option.ne_none_iff_exists'.mp (fun hnone => ?_)
      have hp := hd.view.2 _ (List.mem_append_left _ hu)
      have hnone' := hp.2.1 o hnone
      have hsome := hws o ho
      rw [hnone'] at hsome
      cases hsome
    obtain ⟨m, hm⟩ := hview
    have hk : m.key = (o, user) := Table.key_of_find? hm
    have hmem : Write.deleteMember o user ∈ ((engine.applyAll d ws).members.rows.filter
      (fun m => decide (m.userId = user))).map
        (fun m => Write.deleteMember m.organizationId user) := by
      refine List.mem_map.mpr ⟨m, List.mem_filter.mpr ⟨Table.mem_rows_iff.mpr (hk ▸ hm), ?_⟩, ?_⟩
      · exact decide_eq_true (congrArg Prod.snd hk)
      · rw [show m.organizationId = o from congrArg Prod.fst hk]
    exact ⟨hmem, List.mem_append_right _ (List.mem_flatMap.mpr ⟨_, hmem, List.mem_singleton.mpr rfl⟩)⟩

/-- The writes of an erasure up to the seats: what it deletes comes last, and nothing else is of the
account's seats but the step down. -/
def given (user : UserId) (now : Instant) (owned : List OrgId) (heir : OrgId → Option UserId) : List Write :=
  [(.tombstoneUser user now : Write)] ++ owned.map (fun o => (.setRole o user .admin : Write)) ++
    owned.filterMap (fun o => (heir o).map (fun v => (.setRole o v .owner : Write)))

theorem mem_given {owned : List OrgId} {heir : OrgId → Option UserId} {w : Write} :
    w ∈ given user now owned heir ↔ w = .tombstoneUser user now ∨ (∃ o ∈ owned, w = .setRole o user .admin) ∨
      ∃ o ∈ owned, ∃ v, heir o = some v ∧ w = .setRole o v .owner := by
  simp only [given, List.mem_append, List.mem_singleton, List.mem_map, List.mem_filterMap, Option.map_eq_some_iff,
    or_assoc]
  refine or_congr_right (or_congr ?_ ?_)
  · exact exists_congr fun o => and_congr_right fun _ => eq_comm
  · exact exists_congr fun o => and_congr_right fun _ => exists_congr fun v => and_congr_right fun _ => eq_comm

/-- The lists of writes of an erasure. -/
structure Released (user : UserId) (now : Instant) (owned : List OrgId) (heir : OrgId → Option UserId)
    (s : Db) (ws : List Write) : Prop where
  heirs : ∀ o ∈ owned, ∀ v, heir o = some v → v ≠ user ∧ s.roleOf o v = some .admin ∧ s.Live v
  writes : ∀ w ∈ ws, w ∈ given user now owned heir ∨ (∃ o, w = .deleteMember o user) ∨
    (∃ o, w = .deleteOrganization o now) ∨
    w.Closes
  given : ∀ w ∈ given user now owned heir, w ∈ ws

theorem Released.roleOf {owned : List OrgId} {heir : OrgId → Option UserId} {ws : List Write} {t : Db}
    (h : Released user now owned heir s ws) {o : OrgId} {v : UserId} (hv : v ≠ user) :
    (engine.applyAll t ws).roleOf o v = if o ∈ owned ∧ heir o = some v then (t.roleOf o v).map
      (fun _ => .owner) else t.roleOf o v := by
  rw [roleOf_applyAll t (r := .owner)]
  · congr 1
    refine propext ⟨fun hm => ?_, fun hm => h.given _ (mem_given.mpr (.inr (.inr ⟨o, hm.1, v, hm.2, rfl⟩)))⟩
    rcases h.writes _ hm with hg | ⟨x, hx⟩ | ⟨x, hx⟩ | ⟨id, st, u, hx⟩
    · rcases mem_given.mp hg with hx | ⟨x, -, hx⟩ | ⟨x, hx, y, hy, he⟩
      · cases hx
      · cases hx
      · cases he
        exact ⟨hx, hy⟩
    · cases hx
    · cases hx
    · cases hx
  · intro w hw hseat
    rcases h.writes w hw with hg | ⟨x, rfl⟩ | ⟨x, rfl⟩ | ⟨id, st, u, rfl⟩
    · rcases mem_given.mp hg with rfl | ⟨x, -, rfl⟩ | ⟨x, hx, y, hy, rfl⟩
      · cases hseat
      · cases hseat
        exact absurd rfl hv
      · cases hseat
        rfl
    · cases hseat
      exact absurd rfl hv
    · cases hseat
    · cases hseat

/-- The account's own seats, until they are deleted. -/
theorem roleOf_given {owned : List OrgId} {heir : OrgId → Option UserId}
    (hheir : ∀ o ∈ owned, ∀ v, heir o = some v → v ≠ user ∧ s.roleOf o v = some .admin ∧ s.Live v) (o : OrgId) :
    ((engine.applyAll s (given user now owned heir)).roleOf o user).isSome = (s.roleOf o user).isSome := by
  rw [roleOf_applyAll s (r := .admin)]
  · split <;> simp
  · intro w hw hseat
    rcases mem_given.mp hw with rfl | ⟨x, -, rfl⟩ | ⟨x, hx, y, hy, rfl⟩
    · cases hseat
    · cases hseat
      rfl
    · cases hseat
      exact absurd rfl (hheir o hx user hy).1

theorem roleOf_isSome {t : Db} {o : OrgId} {v : UserId} : (t.roleOf o v).isSome = (t.members.find? (o, v)).isSome := by
  rw [Db.roleOf, Option.isSome_map]

/-- With the seats deleted the account has none. -/
theorem roleOf_deleted {owned : List OrgId} {heir : OrgId → Option UserId} {us tail : List Write}
    (hheir : ∀ o ∈ owned, ∀ v, heir o = some v → v ≠ user ∧ s.roleOf o v = some .admin ∧ s.Live v)
    (hdel : ∀ w ∈ us, ∃ o, w = .deleteMember o user)
    (hall : ∀ o, (s.members.find? (o, user)).isSome → .deleteMember o user ∈ us)
    (htail : ∀ w ∈ tail, w.seat = none) (o : OrgId) :
    (engine.applyAll s (given user now owned heir ++ (us ++ tail))).roleOf o user = none := by
  rw [Engine.applyAll_append, roleOf_applyAll_delete]
  · split
    · rfl
    · next hnot =>
      have hnone : ¬ (s.members.find? (o, user)).isSome := fun hx => hnot (List.mem_append_left _ (hall o hx))
      have hgiven : ((engine.applyAll s (given user now owned heir)).roleOf o user).isSome = (s.roleOf o user).isSome :=
        roleOf_given hheir o
      rw [← roleOf_isSome, ← hgiven] at hnone
      simpa using hnone
  · intro w hw hseat
    rcases List.mem_append.mp hw with hw | hw
    · obtain ⟨x, rfl⟩ := hdel w hw
      cases hseat
      rfl
    · rw [htail w hw] at hseat
      cases hseat

theorem releaseOrganizations_handsOver (hs : Owned s) (hu : Resource.exclusive (.user user) ∈ held) :
    engine.wlpR settled (.eraseAccount user now) s held [.tombstoneUser user now] (releaseOrganizations user now)
      (fun held' ws _ => ∃ heir, HandsOver user s (engine.applyAll s ws) held' heir) := by
  refine Engine.wlpR_bind (Engine.wlpR_selectFor (fun d hd => ?_))
  -- Whoever owns at the commit owned when the organizations were locked.
  have hlocked : ∀ o, OwnerOf s o user → Resource.exclusive (.organization o) ∈
      held ++ (d.members.rows.filter (fun m => decide (m.userId = user ∧ m.role = .owner))).map
        (fun m => Resource.exclusive (.organization m.organizationId)) := by
    intro o ho
    obtain ⟨m, hm, rfl, hmu, hr⟩ := ownerOf_iff_row.mp (hd.during o ho)
    exact List.mem_append_right _ (List.mem_map.mpr ⟨m, List.mem_filter.mpr ⟨hm, decide_eq_true ⟨hmu, hr⟩⟩, rfl⟩)
  refine Engine.wlpR_bind (wlpR_stepDown (fun held2 owned hsub2 howned hseats => ?_))
  refine Engine.wlpR_bind (wlpR_appointSuccessors ?_ (fun held3 heir hsub3 hheir => ?_))
  · intro w hw
    rcases List.mem_append.mp hw with hw | hw
    · rw [List.mem_singleton.mp hw]
      exact ⟨fun o v hx => (by cases hx), fun v hx => (Option.some.inj hx).symm⟩
    · obtain ⟨o, -, rfl⟩ := List.mem_map.mp hw
      exact ⟨fun o v hx => (congrArg Prod.snd (Option.some.inj hx)).symm, fun v hx => (by cases hx)⟩
  change engine.wlpR settled _ s held3 (given user now owned heir) _ _
  have hu3 : Resource.exclusive (.user user) ∈ held3 := hsub3 (hsub2 (List.mem_append_left _ hu))
  refine Engine.wlpR_bind (wlpR_deleteSeats hu3 (fun o ho => ?_) (fun held4 us hsub4 hdel hall => ?_))
  · rw [← roleOf_isSome, roleOf_given hheir, roleOf_isSome]
    exact ho
  have hplain : engine.Plain Write.Closes (revokeInvitesOf user) := plain_revokeInvitesOf (fun _ h => h) user
  refine Engine.wlpR_bind (Engine.wlpR_writes hplain.writes (fun held5 cs _ hsub5 hcs => ?_))
  refine Engine.wlpR_dml (fun d6 hd6 => ⟨heir, ?_⟩)
  set closing : List Write := (owned.filter (fun o =>
    decide ((engine.applyAll d6 (given user now owned heir ++ us ++ cs)).Open o) &&
    (engine.applyAll d6 (given user now owned heir ++ us ++ cs)).members.rows.all
      (fun m => decide (¬ (m.organizationId = o ∧ m.role = .owner))))).map
        (fun o => .deleteOrganization o now) with hclosing
  have hclose : ∀ w ∈ closing, ∃ o, w = .deleteOrganization o now := by
    intro w hw
    obtain ⟨o, -, rfl⟩ := List.mem_map.mp hw
    exact ⟨o, rfl⟩
  have hbefore : Released user now owned heir s (given user now owned heir ++ us ++ cs) := by
    refine ⟨hheir, fun w hw => ?_, fun w hw => List.mem_append_left _ (List.mem_append_left _ hw)⟩
    rcases List.mem_append.mp hw with hw | hw
    · rcases List.mem_append.mp hw with hw | hw
      · exact .inl hw
      · exact .inr (.inl (hdel w hw))
    · exact .inr (.inr (.inr (hcs w hw)))
  have hafter : Released user now owned heir s (given user now owned heir ++ us ++ cs ++ closing) := by
    refine ⟨hheir, fun w hw => ?_, fun w hw => List.mem_append_left _ (hbefore.given w hw)⟩
    rcases List.mem_append.mp hw with hw | hw
    · exact hbefore.writes w hw
    · exact .inr (.inr (.inl (hclose w hw)))
  have hnoseat : ∀ w ∈ cs ++ closing, w.seat = none := by
    intro w hw
    rcases List.mem_append.mp hw with hw | hw
    · obtain ⟨id, st, u, rfl⟩ := hcs w hw
      rfl
    · obtain ⟨o, rfl⟩ := hclose w hw
      rfl
  have hdelOrg : ∀ o, ∀ w ∈ given user now owned heir ++ us ++ cs ++ closing, w.ofOrganization = some o →
      w = .deleteOrganization o now := by
    intro o w hw he
    rcases hafter.writes w hw with hg | ⟨x, rfl⟩ | ⟨x, rfl⟩ | ⟨id, st, u, rfl⟩
    · rcases mem_given.mp hg with rfl | ⟨x, -, rfl⟩ | ⟨x, -, y, -, rfl⟩ <;> cases he
    · cases he
    · cases he
      rfl
    · cases he
  have hnoOrg : ∀ w ∈ given user now owned heir ++ us ++ cs, ∀ o, w.ofOrganization ≠ some o := by
    intro w hw o he
    rcases List.mem_append.mp hw with hw | hw
    · rcases List.mem_append.mp hw with hw | hw
      · rcases mem_given.mp hw with rfl | ⟨x, -, rfl⟩ | ⟨x, -, y, -, rfl⟩ <;> cases he
      · obtain ⟨x, rfl⟩ := hdel w hw
        cases he
    · obtain ⟨id, st, u, rfl⟩ := hcs w hw
      cases he
  have hsub6 : ∀ l, l ∈ held2 → l ∈ held5 := fun l hl => hsub5 (hsub4 (hsub3 hl))
  exact {
    ownedLocked := fun o ho => List.mem_append_left _ (hsub6 _ (hsub2 (hlocked o ho)))
    seatsLocked := fun o ho => List.mem_append_left _ (hsub5 (hall o ho).2)
    gone := fun o ho => by
      rw [OwnerOf, List.append_assoc, List.append_assoc,
        roleOf_deleted hheir hdel (fun o ho => (hall o ho).1) hnoseat] at ho
      cases ho
    owners := fun o v hv => by
      rw [OwnerOf, hafter.roleOf hv, ← howned o]
      split
      · next hx =>
        rw [(hheir o hx.1 v hx.2).2.1]
        simp [hx]
      · next hx => simp [OwnerOf, hx]
    heirLive := fun o v ho hv => by
      obtain ⟨hne, -, hl⟩ := hheir o ((howned o).mpr ho) v hv
      exact ⟨hne, hl⟩
    closed := fun o ho hh hopen => by
      obtain ⟨hsopen, hnot⟩ := open_applyAll_delete s (hdelOrg o) hopen
      have hl : Resource.exclusive (.organization o) ∈ held5 := hsub6 _ (hsub2 (hlocked o ho))
      -- The statement saw an owner who had not been given the seat by this erasure.
      obtain ⟨v, hv⟩ : ∃ v, OwnerOf (engine.applyAll d6 (given user now owned heir ++ us ++ cs)) o v := by
        by_contra hnone
        refine hnot (List.mem_append_right _ (List.mem_map.mpr ⟨o, List.mem_filter.mpr ⟨(howned o).mpr ho, ?_⟩, rfl⟩))
        have hview : (engine.applyAll d6 (given user now owned heir ++ us ++ cs)).organizations.find? o =
          s.organizations.find? o := by
          refine (organization_of_seen hd6 (List.mem_append_left _ hl)).trans
            (organization_applyAll s (fun w hw he => ?_))
          exact hnoOrg w hw o he
        refine Bool.and_eq_true_iff.mpr ⟨decide_eq_true ?_, List.all_eq_true.mpr (fun m hm => decide_eq_true ?_)⟩
        · rw [Db.Open, hview]
          exact hsopen
        · rintro ⟨hmo, hr⟩
          exact hnone ⟨m.userId, ownerOf_iff_row.mpr ⟨m, hm, hmo, rfl, hr⟩⟩
      by_cases hvu : v = user
      · subst hvu
        have hseat : (s.members.find? (o, v)).isSome := isSome_of_roleOf ho
        have hsame := roleOf_of_seen hd6 (List.mem_append_left _ (hsub5 (hall o hseat).2))
        rw [OwnerOf, hsame, List.append_assoc, roleOf_deleted hheir hdel (fun o ho => (hall o ho).1)
          (fun w hw => hnoseat w (List.mem_append_left _ hw))] at hv
        cases hv
      · rw [OwnerOf, hbefore.roleOf hvu, if_neg (by simp [hh])] at hv
        have hkeep : OwnerOf s o v ↔ OwnerOf d6 o v := hd6.keeps _ (List.mem_append_left _ hl) v
        obtain ⟨x, -, -, huniq⟩ := hs.owner o hsopen
        exact hvu ((huniq v (hkeep.mpr hv)).trans (huniq user ho).symm)
    live := fun v hv => by
      refine live_applyAll s (fun w hw hacc => ?_)
      rcases hafter.writes w hw with hg | ⟨x, rfl⟩ | ⟨x, rfl⟩ | ⟨id, st, u, rfl⟩
      · rcases mem_given.mp hg with rfl | ⟨x, -, rfl⟩ | ⟨x, -, y, -, rfl⟩
        · exact hv (Option.some.inj hacc).symm
        · cases hacc
        · cases hacc
      · cases hacc
      · cases hacc
      · cases hacc
    open_ := fun o ho => (open_applyAll_delete s (hdelOrg o) ho).1 }

theorem eraseAccount_sound (hs : Owned s) : engine.wlpR settled (.eraseAccount user now) s [] [] (eraseAccount user now)
    (fun held ws _ => Sound s held ws) := by
  refine Engine.wlpR_bind (Engine.wlpR_bind (Engine.wlpR_dml (fun d hd => ?_)))
  by_cases hfound : ((engine.applyAll d []).users.find? user).isSome
  · simp only [hfound, ↓reduceIte]
    refine Engine.wlpR_bind (Engine.wlpR_mono ?_ (releaseOrganizations_handsOver hs (by simp [engine, Write.needs])))
    rintro held ws - ⟨heir, h⟩
    exact h.sound hs
  · simp only [hfound, Bool.false_eq_true, ↓reduceIte]
    trivial

end Statements

end Operations

theorem careful (C : Contract) : engine.Careful settled AppointsLive (program C) Owned where
  locked op := (program_plain C op).wellLocked
  commit op s hs hok := by
    cases op with
    | createOrganization org owner now => exact createOrganization_sound hs org owner now hok
    | setMemberRole org user role actor => exact setMemberRole_sound hs org user role actor
    | removeMember org user by_ => exact removeMember_sound hs org user by_
    | adminAddMember org user role now => exact adminAddMember_sound C hs org user role now hok
    | adminSetMemberRole org user role => exact adminSetMemberRole_sound hs org user role hok
    | eraseAccount user now => exact eraseAccount_sound hs
    | addMember org user role actor now =>
      refine sound_of_mayWrite hs ?_
      rintro w rfl
      exact SeatRole.toRole_ne_owner role
    | acceptInvite by_ user now =>
      refine sound_of_mayWrite hs ?_
      rintro w (⟨org, role, rfl⟩ | hc)
      · exact SeatRole.toRole_ne_owner role
      · exact Write.Closes.harmless hc
    | createInvite x =>
      refine sound_of_mayWrite hs ?_
      rintro w (⟨u, rfl⟩ | hc)
      · trivial
      · exact Write.Closes.harmless hc
    | listInvites _ _ _ | revokeInvite _ _ _ | declineInvite _ _ _ =>
      exact sound_of_mayWrite hs (fun w hc => Write.Closes.harmless hc)
    | setSuspended org at_ =>
      refine sound_of_mayWrite hs ?_
      rintro w rfl
      trivial

/-- In every interleaving in which an operation names only live accounts as owners and nobody makes an
account an owner while it is being erased, each organization that is not deleted has exactly one owner,
and the owner's account is not deleted. -/
theorem one_owner (C : Contract) (w : World) (h : engine.Reaches settled AppointsLive (program C) Owned w) (o : OrgId)
    (ho : w.db.Open o) : ∃ v, OwnerOf w.db o v ∧ w.db.Live v ∧ ∀ u, OwnerOf w.db o u → u = v :=
  (h.invariant (fun _ hs => hs) (careful C)).owner o ho

/-! ## Erasures of an owner and of an heir -/

instance (op : Operation) (a b : Db) : Decidable (settled.during op a b) :=
  match op with
  | .eraseAccount user _ =>
    decidable_of_iff (∀ m ∈ b.members.rows, m.userId = user ∧ m.role = .owner → OwnerOf a m.organizationId user) (by
      change _ ↔ ∀ o, OwnerOf b o user → OwnerOf a o user
      constructor
      · intro h o ho
        obtain ⟨m, hm, rfl, hu, hr⟩ := ownerOf_iff_row.mp ho
        exact h m hm ⟨hu, hr⟩
      · exact fun h m hm hx => h _ (ownerOf_iff_row.mpr ⟨m, hm, rfl, hx.1, hx.2⟩))
  | .createOrganization _ _ _ | .addMember _ _ _ _ _ | .setMemberRole _ _ _ _ | .removeMember _ _ _ | .adminAddMember _ _ _ _
  | .adminSetMemberRole _ _ _ | .createInvite _ | .listInvites _ _ _ | .revokeInvite _ _ _ | .declineInvite _ _ _
  | .acceptInvite _ _ _ | .setSuspended _ _ => isTrue trivial

theorem Owned.of_rows {s : Db} (h1 : ∀ m ∈ s.members.rows, m.role = .owner →
    (s.organizations.find? m.organizationId).isSome)
    (h2 : ∀ x ∈ s.organizations.rows, x.deletedAt = none → ∃ m ∈ s.members.rows, m.organizationId = x.id ∧
    m.role = .owner ∧
      s.Live m.userId ∧ ∀ n ∈ s.members.rows, n.organizationId = x.id → n.role = .owner → n.userId = m.userId) :
        Owned s := by
  refine ⟨fun o v ho => ?_, fun o ho => ?_⟩
  · obtain ⟨m, hm, rfl, -, hr⟩ := ownerOf_iff_row.mp ho
    exact h1 m hm hr
  · obtain ⟨x, hx, hd⟩ := ho
    have hk : x.id = o := Table.key_of_find? hx
    obtain ⟨m, hm, hmo, hr, hl, huniq⟩ := h2 x (Table.mem_rows_iff.mpr (hk ▸ hx)) hd
    refine ⟨m.userId, ownerOf_iff_row.mpr ⟨m, hm, hmo.trans hk, rfl, hr⟩, hl, fun u hu => ?_⟩
    obtain ⟨n, hn, hno, rfl, hnr⟩ := ownerOf_iff_row.mp hu
    exact huniq n hn (hno.trans hk.symm) hnr

theorem owned_ownerAdminMember : Owned ownerAdminMember := by
  refine .of_rows ?_ ?_
  · decide
  · decide

/-- The owner's account is erased, and the admin owns the organization. -/
theorem admin_inherits :
    ∃ w : World, OwnerOf w.db 1 2 ∧ ∃ v, OwnerOf w.db 1 v ∧ w.db.Live v ∧ ∀ u, OwnerOf w.db 1 u → u = v := by
  obtain ⟨st, hst, hP⟩ := Option.any_eq_true _ _ |>.mp (show (Engine.perform engine (program (.managers 100))
    (Engine.meets settled AppointsLive) (.start 0 (.eraseAccount 1 5) :: List.replicate 8 (.next 0))
      ⟨ownerAdminMember, []⟩).any
      (fun st => decide (st.db.Open 1 ∧ OwnerOf st.db 1 2)) = true by decide +kernel)
  obtain ⟨hopen, hheir⟩ := of_decide_eq_true hP
  exact ⟨st.world, hheir, one_owner _ _ (Engine.reaches_of_perform owned_ownerAdminMember hst) 1 hopen⟩

/-- The owner's erasure commits while the admin's is past the step down: it appoints the admin. -/
def crossing : List (Engine.Act Operation) :=
  [(.start 0 (.eraseAccount 2 5) : Engine.Act Operation), .next 0, .next 0, .next 0, .start 1 (.eraseAccount 1 5)] ++
    List.replicate 8 (.next 1 : Engine.Act Operation) ++ List.replicate 5 (.next 0 : Engine.Act Operation)

/-- The heir's seat is deleted with the account's other seats, and the organization stays open. -/
theorem crossing_erasures_leave_no_owner :
    ¬ ∀ (C : Contract) (w : World), Engine.Reachable engine (program C) Owned w → ∀ o, w.db.Open o →
      ∃ v, OwnerOf w.db o v ∧ w.db.Live v ∧ ∀ u, OwnerOf w.db o u → u = v := by
  intro h
  obtain ⟨st, hst, hP⟩ := Option.any_eq_true _ _ |>.mp (show (Engine.perform engine (program (.managers 100))
    (fun _ _ _ => true) crossing ⟨ownerAdminMember, []⟩).any
      (fun st => decide (st.db.Open 1 ∧ ∀ m ∈ st.db.members.rows, m.role ≠ .owner)) = true by decide +kernel)
  obtain ⟨hopen, hnone⟩ := of_decide_eq_true hP
  obtain ⟨v, hv, -⟩ := h _ _ (Engine.reachable_of_perform owned_ownerAdminMember hst) 1 hopen
  obtain ⟨m, hm, -, -, hr⟩ := ownerOf_iff_row.mp hv
  exact hnone m hm hr

end Civfix.OrganizationOwners
