import Civfix.OrganizationRules
import Civfix.Schedules

/-! # Changing the membership takes a current role

The service reads the actor's role before the transaction. `addMember` and `createInvite` read it again
under the organization's lock, with the seat locked to the commit; a role change, a removal and a
revocation do not. For those it is enough that the role is not taken from the actor while the operation
is in progress. -/
namespace Civfix.OrganizationAuthority

open KeyedTables LockedTransactions Organizations

abbrev World := Engine.World Db Write Lock Refusal Operation Outcome

/-- Owner or admin. -/
def manages (r : Role) : Bool := decide (r ≠ .member)

/-- The seat that an actor changes the membership with, and the roles it must have. -/
structure Standing where
  org : OrgId
  actor : UserId
  passes : Role → Bool

/-- Leaving an organization and what an operator or an invitee does take no seat in it. -/
def standing : Operation → Option Standing
  | .addMember org _ _ actor _ => some ⟨org, actor, manages⟩
  | .setMemberRole org _ _ actor => some ⟨org, actor, fun r => decide (r = .owner)⟩
  | .removeMember org _ (.manager actor) => some ⟨org, actor, manages⟩
  | .createInvite x => some ⟨x.organizationId, x.invitedBy, manages⟩
  | .revokeInvite org _ actor => some ⟨org, actor, manages⟩
  | _ => none

def Authorized (s : Db) (op : Operation) : Prop :=
  ∀ a ∈ standing op, ∃ r ∈ s.roleOf a.org a.actor, a.passes r = true

instance (s : Db) (op : Operation) : Decidable (Authorized s op) :=
  inferInstanceAs (Decidable (∀ a ∈ standing op, ∃ r ∈ s.roleOf a.org a.actor, a.passes r = true))

/-- The operations that judge the actor again under the organization's lock. -/
def rechecks : Operation → Bool
  | .addMember _ _ _ _ _ | .createInvite _ => true
  | _ => false

/-- What happens while the operation is in progress does not take the role from its actor. -/
def KeepsStanding (op : Operation) (a b : Db) : Prop := rechecks op = false → Authorized a op → Authorized b op

instance (op : Operation) (a b : Db) : Decidable (KeepsStanding op a b) := inferInstanceAs (Decidable (_ → _ → _))

def undisturbed : Engine.Rely Db Lock Operation where
  keeps _ _ _ := True
  during := KeepsStanding
  keeps_refl _ _ := trivial
  keeps_trans _ _ := trivial
  during_refl _ _ _ h := h
  during_trans h h' hr ha := h' hr (h hr ha)

instance (op : Operation) (a b : Db) : Decidable (undisturbed.during op a b) :=
  inferInstanceAs (Decidable (KeepsStanding op a b))

theorem careful (C : Contract) : engine.Careful undisturbed (fun _ _ => True) (program C) (fun _ => True) where
  locked op := (program_plain C op).wellLocked
  commit op _ _ _ := Engine.wlpR_writes (program_plain C op).writes (fun _ _ _ _ _ => ⟨trivial, fun _ _ _ => trivial⟩)

theorem canManage_manages {C : Contract} {r : Role} (h : C.canManage r = true) : manages r = true :=
  decide_eq_true ((C.canManage_iff r).mp h)

section Operations

variable {C : Contract} {s : Db}

/-- What an operation changes it changes with the role. -/
abbrev Changes (op : Operation) (s : Db) : List Lock → List Write → Outcome → Prop :=
  fun _ ws _ => engine.applyAll s ws ≠ s → Authorized s op

theorem unchanged {op : Operation} (h : engine.applyAll s [] ≠ s) : Authorized s op := absurd rfl h

theorem changes_of_seen {op : Operation} {held : List Lock} {d : Db} (hd : engine.Seen undisturbed op held [] d s)
    (hr : rechecks op = false) {a : Standing} (ha : standing op = some a) {r : Role}
    (hrole : d.roleOf a.org a.actor = some r)
    (hp : a.passes r = true) : Authorized s op := by
  refine hd.during hr (fun b hb => ?_)
  rw [ha] at hb
  cases hb
  exact ⟨r, hrole, hp⟩

theorem setMemberRole_changes (org : OrgId) (user : UserId) (role : SeatRole) (actor : UserId) :
    engine.wlpR undisturbed (.setMemberRole org user role actor) s [] [] (setMemberRole C org user role actor)
      (Changes (.setMemberRole org user role actor) s) := by
  refine Engine.wlpR_bind (wlpR_requireRole (fun d o r hd hrole hp => ?_))
  have hauth : Authorized s (.setMemberRole org user role actor) := changes_of_seen hd rfl rfl hrole hp
  exact Engine.wlpR_of_forall (fun _ _ _ _ => hauth)

theorem removeMember_changes (org : OrgId) (user : UserId) (by_ : Remover) :
    engine.wlpR undisturbed (.removeMember org user by_) s [] [] (removeMember C org user by_)
      (Changes (.removeMember org user by_) s) := by
  cases by_ with
  | self | operator => exact Engine.wlpR_of_forall (fun _ _ _ _ a ha => by cases ha)
  | manager actor =>
    refine Engine.wlpR_bind (Engine.wlpR_bind (wlpR_requireRole (fun d o r hd hrole hp => ?_)))
    have hauth : Authorized s (.removeMember org user (.manager actor)) :=
      changes_of_seen hd rfl rfl hrole (canManage_manages hp)
    exact Engine.wlpR_of_forall (fun _ _ _ => Engine.wlpR_of_forall (fun _ _ _ _ => hauth))

theorem revokeInvite_changes (org : OrgId) (id : InviteId) (actor : UserId) :
    engine.wlpR undisturbed (.revokeInvite org id actor) s [] [] (revokeInvite C org id actor)
      (Changes (.revokeInvite org id actor) s) := by
  refine Engine.wlpR_bind (wlpR_requireRole (fun d o r hd hrole hp => ?_))
  have hauth : Authorized s (.revokeInvite org id actor) := changes_of_seen hd rfl rfl hrole (canManage_manages hp)
  exact Engine.wlpR_of_forall (fun _ _ _ _ => hauth)

/-- The role that `lockOrgForActor` reads is the role at the commit. -/
theorem addMember_changes (org : OrgId) (user : UserId) (role : SeatRole) (actor : UserId) (now : Instant) :
    engine.wlpR undisturbed (.addMember org user role actor now) s [] [] (addMember C org user role actor now)
      (Changes (.addMember org user role actor now) s) := by
  refine Engine.wlpR_bind (Engine.wlpR_reads (plain_requireRole _ org actor) (fun held o _ => ?_))
  refine Engine.wlpR_bind (Engine.wlpR_reads (plain_assertNotSuspended o) (fun held _ _ => ?_))
  refine Engine.wlpR_bind (Engine.wlpR_select (fun d _ => ?_))
  split
  · refine Engine.wlpR_bind (wlpR_lockOrgForActor (fun held' b _ _ hb => ?_))
    split
    · next hb' =>
      have hauth : Authorized s (.addMember org user role actor now) := by
        intro a ha
        cases ha
        obtain ⟨r, hr, hcan⟩ := hb hb'
        exact ⟨r, hr, canManage_manages hcan⟩
      exact Engine.wlpR_of_forall (fun _ _ _ _ => hauth)
    · exact unchanged
  · exact unchanged

theorem createInvite_changes (x : NewInvite) :
    engine.wlpR undisturbed (.createInvite x) s [] [] (createInvite C x) (Changes (.createInvite x) s) := by
  refine Engine.wlpR_bind (Engine.wlpR_reads (plain_requireRole _ _ _) (fun held o _ => ?_))
  refine Engine.wlpR_bind (Engine.wlpR_reads (plain_assertNotSuspended o) (fun held _ _ => ?_))
  refine Engine.wlpR_bind (Engine.wlpR_select (fun d _ => ?_))
  refine Engine.wlpR_bind (wlpR_lockOrgForActor (fun held' b _ _ hb => ?_))
  split
  · next hb' =>
    have hauth : Authorized s (.createInvite x) := by
      intro a ha
      cases ha
      obtain ⟨r, hr, hcan⟩ := hb hb'
      exact ⟨r, hr, canManage_manages hcan⟩
    exact Engine.wlpR_of_forall (fun _ _ _ _ => hauth)
  · exact unchanged

theorem program_changes (op : Operation) : engine.wlpR undisturbed op s [] [] (program C op) (Changes op s) := by
  cases op with
  | addMember org user role actor now => exact addMember_changes org user role actor now
  | setMemberRole org user role actor => exact setMemberRole_changes org user role actor
  | removeMember org user by_ => exact removeMember_changes org user by_
  | createInvite x => exact createInvite_changes x
  | revokeInvite org id actor => exact revokeInvite_changes org id actor
  | createOrganization _ _ _ | adminAddMember _ _ _ _ | adminSetMemberRole _ _ _ | listInvites _ _ _
  | declineInvite _ _ _ | acceptInvite _ _ _ | setSuspended _ _ | eraseAccount _ _ =>
    exact Engine.wlpR_of_forall (fun _ _ _ _ a ha => by cases ha)

end Operations

/-- In every interleaving in which nothing takes the role from the actor of a role change, a removal or
a revocation in progress, a membership change commits only while its actor has the role that the
service required. -/
theorem membership_changes_authorized (C : Contract) (w w' : World) (op : Operation)
    (h : engine.Reaches undisturbed (fun _ _ => True) (program C) (fun _ => True) w)
    (hs : Engine.Step engine (program C) w (some op) w') (hc : w'.db ≠ w.db) : Authorized w.db op :=
  h.commits (Q := fun s s' => s' ≠ s → Authorized s op) (fun _ _ => trivial) (careful C) hs
    (fun _ _ => program_changes op) hc

/-! ## A promotion -/

/-- The owner makes the member an admin. -/
def promotion : Operation := .setMemberRole 1 3 .admin 1

/-- Nothing else happens, and the member is promoted. -/
theorem owner_promotes_member :
    ∃ w w' : World, Engine.Step engine (program (.managers 100)) w (some promotion) w' ∧
      w'.db.roleOf 1 3 = some .admin ∧
      Authorized w.db promotion := by
  obtain ⟨st, st', hst, hs, hP⟩ := Engine.exists_commit_of_perform engine (program (.managers 100))
    (Engine.meets undisturbed (fun _ _ => True))
    [.start 0 promotion, .next 0, .next 0, .next 0, .next 0] 0 ownerAdminMember promotion
    (fun s s' => decide (s.roleOf 1 3 = some .member ∧ s'.roleOf 1 3 = some .admin)) (by decide +kernel)
  obtain ⟨hbefore, hafter⟩ := of_decide_eq_true hP
  refine ⟨st.world, st'.world, hs, hafter, ?_⟩
  refine membership_changes_authorized (.managers 100) _ _ promotion (Engine.reaches_of_perform trivial hst) hs
    (fun he => ?_)
  rw [he, hbefore] at hafter
  cases hafter

/-- An operator transfers the ownership between the owner's check and the owner's transaction. -/
def overtaken : List (Engine.Act Operation) :=
  let transfer := Operation.adminSetMemberRole 1 2 .owner
  [(.start 0 promotion : Engine.Act Operation), .next 0, .start 1 transfer] ++
    List.replicate 6 (.next 1 : Engine.Act Operation) ++ [(.next 0 : Engine.Act Operation), .next 0, .next 0]

/-- An account that is not the owner any more changes a role. -/
theorem demoted_owner_promotes_member :
    ¬ ∀ (C : Contract) (w w' : World) (op : Operation), Engine.Reachable engine (program C) (fun _ => True) w →
      Engine.Step engine (program C) w (some op) w' → w'.db ≠ w.db → Authorized w.db op := by
  intro h
  obtain ⟨st, st', hst, hs, hP⟩ := Engine.exists_commit_of_perform engine (program (.managers 100))
    (fun _ _ _ => true) overtaken 0
    ownerAdminMember promotion
    (fun s s' => decide (s.roleOf 1 1 = some .admin ∧ s.roleOf 1 3 = some .member ∧ s'.roleOf 1 3 = some .admin))
    (by decide +kernel)
  obtain ⟨hdemoted, hbefore, hafter⟩ := of_decide_eq_true hP
  have hne : st'.world.db ≠ st.world.db := by
    intro he
    rw [he, hbefore] at hafter
    cases hafter
  obtain ⟨r, hr, howner⟩ := h (.managers 100) _ _ promotion (Engine.reachable_of_perform trivial hst) hs hne _ rfl
  rw [Option.mem_def, hdemoted, Option.some.injEq] at hr
  subst hr
  cases howner

end Civfix.OrganizationAuthority
