import Civfix.OrganizationRules
import Civfix.Schedules

/-! # Invites seat on live authority

An acceptance holds the organization and the invite from the moment it has found them. Whoever lowers
an inviter's role takes the organization's lock, and an erasure takes the lock of every open invite that
names its account, so what the acceptance has read of the invite, its inviter and the organization still
stands when it commits. The account that accepts is not locked: an invite that carries only an address is
as good as the account's claim to the address, and an erasure that commits after the acceptance has read
that claim takes it away. -/
namespace Civfix.OrganizationInvites

open KeyedTables LockedTransactions Organizations

abbrev World := Engine.World Db Write Lock Refusal Operation Outcome

/-- Open invites carry an address, and an organization has no more of them than the cap. -/
structure Bounded (max : ℕ) (s : Db) : Prop where
  addressed : ∀ k i, s.invites.find? k = some i → i.status = .pending → i.email ≠ none
  capped : ∀ o, (s.openInvites o).length ≤ max

/-- Owner or admin. -/
def Manages (s : Db) (org : OrgId) (user : UserId) : Prop := ∃ r ∈ s.roleOf org user, r ≠ .member

/-- What the lock of an organization keeps: a manager who is not erased stays one, and no invite is filed. -/
structure KeepsOrganization (o : OrgId) (a b : Db) : Prop where
  live : ∀ u, b.Live u → a.Live u
  managers : ∀ u, Manages a o u → b.Live u → Manages b o u
  filed : ∀ k i, b.invites.find? k = some i → i.status = .pending → i.organizationId = o → a.invites.find? k = some i

/-- What the lock of an invite keeps: while it is open its inviter is not erased. -/
structure KeepsInvite (k : InviteId) (a b : Db) : Prop where
  row : b.invites.find? k = a.invites.find? k
  inviter : ∀ i u, a.invites.find? k = some i → i.status = .pending → i.invitedBy = some u → a.Live u → b.Live u

def Keeps (l : Lock) (a b : Db) : Prop :=
  match l.resource with
  | .organization o => KeepsOrganization o a b
  | .invite k => KeepsInvite k a b
  | _ => True

def locked : Engine.Rely Db Lock Operation where
  keeps := Keeps
  during _ _ _ := True
  keeps_refl := by
    rintro ⟨r, _⟩ a
    cases r with
    | organization o => exact ⟨fun _ h => h, fun _ h _ => h, fun _ _ h _ _ => h⟩
    | invite k => exact ⟨rfl, fun _ _ _ _ _ h => h⟩
    | user u | member o u => trivial
  keeps_trans := by
    rintro ⟨r, _⟩ a b c h h'
    cases r with
    | organization o =>
      exact ⟨fun u hu => h.live u (h'.live u hu), fun u hm hc => h'.managers u (h.managers u hm (h'.live u hc)) hc,
        fun k i hi hp ho => h.filed k i (h'.filed k i hi hp ho) hp ho⟩
    | invite k =>
      exact ⟨h'.row.trans h.row, fun i u hi hp hu ha => h'.inviter i u (h.row.trans hi) hp hu
        (h.inviter i u hi hp hu ha)⟩
    | user u | member o u => trivial
  during_refl _ _ := trivial
  during_trans _ _ := trivial

/-! ## What a commit owes to the others -/

/-- The locks under which a transaction takes a role away, files an invite or erases an account. -/
structure Disciplined (s : Db) (held : List Lock) (ws : List Write) : Prop where
  lowers : ∀ o u, .setRole o u .member ∈ ws ∨ .deleteMember o u ∈ ws →
    Resource.exclusive (.organization o) ∈ held ∨ ∃ now, .tombstoneUser u now ∈ ws
  files : ∀ i, .insertInvite i ∈ ws → Resource.exclusive (.organization i.organizationId) ∈ held
  erases : ∀ u now, .tombstoneUser u now ∈ ws → ∀ k i, s.invites.find? k = some i → i.Names u →
    Resource.exclusive (.invite k) ∈ held

theorem not_live_of_tombstone {ws : List Write} {u : UserId} {now : Instant} (s : Db) (h : .tombstoneUser u now ∈ ws) :
    ¬ (engine.applyAll s ws).Live u := by
  induction ws generalizing s with
  | nil => cases h
  | cons w ws ih =>
    rcases List.mem_cons.mp h with rfl | h
    · intro hl
      have hafter : (s.apply (.tombstoneUser u now)).Live u := Db.Live.of_evolves (engine.evolves_writes _ ws) hl
      obtain ⟨x, hx, hd⟩ := hafter
      rw [Db.find?_users] at hx
      simp only [Write.user, ↓reduceIte] at hx
      obtain ⟨y, -, rfl⟩ := Option.map_eq_some_iff.mp hx
      exact y.tombstone_deletedAt now hd
    · exact ih _ h

/-- A manager whose role nothing takes away stays one. -/
theorem manages_applyAll {ws : List Write} {s : Db} {o : OrgId} {u : UserId} (h : Manages s o u)
    (hset : .setRole o u .member ∉ ws) (hdel : .deleteMember o u ∉ ws) : Manages (engine.applyAll s ws) o u := by
  induction ws generalizing s with
  | nil => exact h
  | cons w ws ih =>
    rw [Engine.applyAll_cons]
    refine ih ?_ (fun hm => hset (List.mem_cons_of_mem _ hm)) (fun hm => hdel (List.mem_cons_of_mem _ hm))
    change Manages (s.apply w) o u
    obtain ⟨r, hr, hne⟩ := h
    have hr' : s.roleOf o u = some r := hr
    by_cases hw : w.seat = some (o, u)
    · cases w with
      | insertMember m =>
        obtain ⟨rfl, rfl⟩ : m.organizationId = o ∧ m.userId = u := by simpa [Write.seat, Member.key] using hw
        exact ⟨r, by rw [roleOf_insertMember, hr']; rfl, hne⟩
      | setRole o' u' r' =>
        obtain ⟨rfl, rfl⟩ : o' = o ∧ u' = u := by simpa [Write.seat] using hw
        refine ⟨r', by rw [roleOf_setRole, hr']; rfl, ?_⟩
        rintro rfl
        exact hset List.mem_cons_self
      | deleteMember o' u' =>
        obtain ⟨rfl, rfl⟩ : o' = o ∧ u' = u := by simpa [Write.seat] using hw
        exact absurd List.mem_cons_self hdel
      | insertOrganization _ | setSuspended _ _ | deleteOrganization _ _ | insertInvite _ | closeInvite _ _ _
      | tombstoneUser _ _ => cases hw
    · exact ⟨r, by rw [roleOf_apply_of_ne s hw]; exact hr', hne⟩

theorem Disciplined.keeps {s : Db} {held : List Lock} {ws : List Write} (h : Disciplined s held ws) {l : Lock}
    (hfree : ∀ x ∈ held, ¬ x.Conflict l) (hp : l.Protects s (engine.applyAll s ws)) :
    Keeps l s (engine.applyAll s ws) := by
  have hnot : ∀ r, r = l.resource → r.exclusive ∉ held := fun r hr hx => hfree _ hx (conflict_exclusive.mpr hr)
  obtain ⟨r, b⟩ := l
  cases r with
  | organization o =>
    refine ⟨fun u hu => Db.Live.of_evolves (engine.evolves_writes s ws) hu, fun u hm hu => ?_,
      fun k i hi hpend ho => ?_⟩
    · have hkept : ∀ w, (w = .setRole o u .member ∨ w = .deleteMember o u) → w ∉ ws := by
        intro w hw hmem
        have hlow : .setRole o u .member ∈ ws ∨ .deleteMember o u ∈ ws := by
          rcases hw with rfl | rfl
          · exact .inl hmem
          · exact .inr hmem
        rcases h.lowers o u hlow with hx | ⟨now, hx⟩
        · exact hnot _ rfl hx
        · exact not_live_of_tombstone s hx hu
      exact manages_applyAll hm (hkept _ (.inl rfl)) (hkept _ (.inr rfl))
    · rcases invite_of_applyAll s hi hpend with hs | hs
      · exact hs
      · exact absurd (h.files i hs) (hnot _ (by rw [ho]))
  | invite k =>
    have hrow : (engine.applyAll s ws).invites.find? k = s.invites.find? k := by cases b <;> exact hp
    refine ⟨hrow, fun i u hi hpend hu hl => ?_⟩
    refine (live_applyAll s (fun w hw hacc => ?_)).mpr hl
    cases w with
    | tombstoneUser v now =>
      obtain rfl : v = u := by simpa [Write.account] using hacc
      exact hnot _ rfl (h.erases v now hw k i hi ⟨hpend, .inl hu⟩)
    | insertOrganization _ | setSuspended _ _ | deleteOrganization _ _ | insertMember _ | setRole _ _ _ | deleteMember _ _
    | insertInvite _ | closeInvite _ _ _ => cases hacc
  | user u | member o u => trivial

/-! ## Open invites -/

theorem mem_openInvites {s : Db} {o : OrgId} {i : Invite} :
    i ∈ s.openInvites o ↔ s.invites.find? i.id = some i ∧ i.organizationId = o ∧ i.status = .pending := by
  simp only [Db.openInvites, List.mem_filter, decide_eq_true_eq, Table.mem_rows_iff]

theorem nodup_openInvites (s : Db) (o : OrgId) : (s.openInvites o).Nodup :=
  (List.Nodup.of_map _ s.invites.nodup).filter _

theorem length_openInvites_le {s : Db} {o : OrgId} {is : List Invite} (h : s.openInvites o ⊆ is) :
    (s.openInvites o).length ≤ is.length :=
  (nodup_openInvites s o).length_le_of_subset h

theorem invite_applyAll {s : Db} {ws : List Write} {k : InviteId}
    (h : ∀ w ∈ ws, Resource.exclusive (.invite k) ∉ w.needs) :
    (engine.applyAll s ws).invites.find? k = s.invites.find? k :=
  Engine.applyAll_of_silent (E := engine) (f := fun s => s.invites.find? k)
    (fun w hw s => (s.find?_invites w k).trans (Write.invite_of_unlocked (h w hw) _)) s

theorem closed_of_evolves {a b : Db} (h : Db.Evolves a b) {k : InviteId} {i j : Invite}
    (hi : a.invites.find? k = some i)
    (hc : i.status ≠ .pending) (hj : b.invites.find? k = some j) : j.status ≠ .pending := by
  obtain ⟨x, hx, hij⟩ := h.invites k i hi
  obtain rfl : j = x := Option.some.inj (hj.symm.trans hx)
  exact fun hp => hc (hij.pending hp ▸ hp)

theorem not_pending_of_close {s : Db} {ws : List Write} {k : InviteId} {c : Closing} {u : Option UserId} {i j : Invite}
    (h : .closeInvite k c u ∈ ws) (hi : s.invites.find? k = some i)
    (hj : (engine.applyAll s ws).invites.find? k = some j) :
    j.status ≠ .pending := by
  induction ws generalizing s i with
  | nil => cases h
  | cons w ws ih =>
    rcases List.mem_cons.mp h with rfl | h
    · have hclosed : (s.apply (.closeInvite k c u)).invites.find? k = some (i.close c u) := by
        rw [Db.find?_invites, hi]
        simp [Write.invite]
      exact closed_of_evolves (engine.evolves_writes _ ws) hclosed c.toStatus_ne_pending hj
    · obtain ⟨y, hy, -⟩ := (Db.evolves_write s w).invites k i hi
      exact ih h hy hj

theorem Bounded.of_silent {max : ℕ} {s : Db} (h : Bounded max s) {ws : List Write} (hno : ∀ i, .insertInvite i ∉ ws) :
    Bounded max (engine.applyAll s ws) := by
  have hold : ∀ k i, (engine.applyAll s ws).invites.find? k = some i → i.status = .pending →
    s.invites.find? k = some i :=
    fun k i hi hp => (invite_of_applyAll s hi hp).resolve_right (hno i)
  refine ⟨fun k i hi hp => h.addressed k i (hold k i hi hp) hp, fun o => ?_⟩
  refine (length_openInvites_le (fun i hi => ?_)).trans (h.capped o)
  obtain ⟨hi, ho, hp⟩ := mem_openInvites.mp hi
  exact mem_openInvites.mpr ⟨hold i.id i hi hp, ho, hp⟩

/-- The open invites that have expired. -/
abbrev expiries (d : Db) (org : OrgId) (now : Instant) : List Write :=
  ((d.openInvites org).filter (fun i => decide (i.expiresAt ≤ now))).map (fun i => .closeInvite i.id .expired none)

theorem mem_expiries {d : Db} {org : OrgId} {now : Instant} {w : Write} :
    w ∈ expiries d org now ↔ ∃ i ∈ d.openInvites org, i.expiresAt ≤ now ∧ w = .closeInvite i.id .expired none := by
  simp only [List.mem_map, List.mem_filter, decide_eq_true_eq]
  exact ⟨fun ⟨i, hi, hw⟩ => ⟨i, hi.1, hi.2, hw.symm⟩, fun ⟨i, hi, he, hw⟩ => ⟨i, ⟨hi, he⟩, hw.symm⟩⟩

/-- The invites that are open after an invite was filed are that one and the ones counted before. -/
theorem openInvites_of_counted {d d' s : Db} {org : OrgId} {now : Instant} {x : Invite}
    (hd : KeepsOrganization org d s) (hd' : KeepsOrganization org d' s) :
    (engine.applyAll s (expiries d org now ++ [.insertInvite x])).openInvites org ⊆
      x :: ((engine.applyAll d' (expiries d org now)).openInvites org).filter
        (fun i => decide (now < i.expiresAt)) := by
  intro i hi
  obtain ⟨hi, ho, hp⟩ := mem_openInvites.mp hi
  rcases invite_of_applyAll s hi hp with hs | hs
  · have hfirst := hd.filed i.id i hs hp ho
    have hfresh : now < i.expiresAt := by
      by_contra hexp
      have hclose : .closeInvite i.id .expired none ∈ expiries d org now ++ [.insertInvite x] :=
        List.mem_append_left _ (mem_expiries.mpr ⟨i, mem_openInvites.mpr ⟨hfirst, ho, hp⟩, Nat.not_lt.mp hexp, rfl⟩)
      exact not_pending_of_close hclose hs hi hp
    have hsilent : ∀ w ∈ expiries d org now, Resource.exclusive (.invite i.id) ∉ w.needs := by
      intro w hw hn
      obtain ⟨j, hj, hexp, rfl⟩ := mem_expiries.mp hw
      have hid : i.id = j.id := by simpa [Write.needs, Resource.exclusive] using hn
      have hrow := (mem_openInvites.mp hj).1
      rw [← hid, hfirst, Option.some.injEq] at hrow
      subst hrow
      exact absurd hexp (Nat.not_le.mpr hfresh)
    have hview := (invite_applyAll (s := d') hsilent).trans (hd'.filed i.id i hs hp ho)
    exact List.mem_cons_of_mem _ (List.mem_filter.mpr ⟨mem_openInvites.mpr ⟨hview, ho, hp⟩, decide_eq_true hfresh⟩)
  · rcases List.mem_append.mp hs with hs | hs
    · obtain ⟨j, -, -, hj⟩ := mem_expiries.mp hs
      cases hj
    · obtain rfl : i = x := by simpa using hs
      exact List.mem_cons_self

/-- What a commit owes to the cap and to the others. -/
structure Sound (max : ℕ) (s : Db) (held : List Lock) (ws : List Write) : Prop where
  bounded : Bounded max (engine.applyAll s ws)
  disciplined : Disciplined s held ws

theorem Sound.unchanged {max : ℕ} {s : Db} (hs : Bounded max s) (held : List Lock) : Sound max s held [] where
  bounded := hs
  disciplined := ⟨by simp, by simp, by simp⟩

/-- Writes that take no role away, file no invite and erase no account. -/
def Quiet : Write → Prop
  | .insertInvite _ | .deleteMember _ _ | .tombstoneUser _ _ => False
  | .setRole _ _ r => r ≠ .member
  | _ => True

/-- Writes of the seats of one organization besides. -/
def WithinOrg (org : OrgId) : Write → Prop
  | .insertInvite _ | .tombstoneUser _ _ => False
  | .setRole o _ _ | .deleteMember o _ => o = org
  | _ => True

theorem Sound.quiet {max : ℕ} {s : Db} (hs : Bounded max s) (held : List Lock) {ws : List Write}
    (h : ∀ w ∈ ws, Quiet w) :
    Sound max s held ws where
  bounded := hs.of_silent (fun i hi => h _ hi)
  disciplined := by
    refine ⟨fun o u hw => ?_, fun i hi => (h _ hi).elim, fun u now hw => (h _ hw).elim⟩
    rcases hw with hw | hw
    · exact absurd rfl (h _ hw)
    · exact (h _ hw).elim

theorem Sound.within {max : ℕ} {s : Db} (hs : Bounded max s) {held : List Lock} {ws : List Write} {org : OrgId}
    (h : ∀ w ∈ ws, WithinOrg org w) (hl : Resource.exclusive (.organization org) ∈ held) : Sound max s held ws where
  bounded := hs.of_silent (fun i hi => h _ hi)
  disciplined := by
    refine ⟨fun o u hw => .inl ?_, fun i hi => (h _ hi).elim, fun u now hw => (h _ hw).elim⟩
    rcases hw with hw | hw
    · obtain rfl : o = org := h _ hw
      exact hl
    · obtain rfl : o = org := h _ hw
      exact hl

section Operations

variable {C : Contract} {max : ℕ} {s : Db}

theorem Write.Closes.quiet {w : Write} (h : w.Closes) : Quiet w := by
  obtain ⟨id, st, u, rfl⟩ := h
  trivial

theorem Write.Closes.withinOrg {w : Write} (h : w.Closes) (org : OrgId) : WithinOrg org w := by
  obtain ⟨id, st, u, rfl⟩ := h
  trivial

theorem sound_of_quiet (hs : Bounded max s) {op : Operation} (h : ∀ w, op.MayWrite w → Quiet w) :
    engine.wlpR locked op s [] [] (program C op) (fun held ws _ => Sound max s held ws) := by
  refine Engine.wlpR_writes (program_plain C op).writes (fun held us _ _ hus => ?_)
  rw [List.nil_append]
  exact .quiet hs held (fun w hw => h w (hus w hw))

theorem sound_of_within (hs : Bounded max s) {op : Operation} {org : OrgId} (h : ∀ w, op.MayWrite w → WithinOrg org w)
    (hl : engine.wlpR locked op s [] [] (program C op)
    (fun held _ _ => Resource.exclusive (.organization org) ∈ held)) :
    engine.wlpR locked op s [] [] (program C op) (fun held ws _ => Sound max s held ws) := by
  have hw : engine.wlpR locked op s [] [] (program C op) (fun _ ws _ => ∀ w ∈ ws, WithinOrg org w) := by
    refine Engine.wlpR_writes (program_plain C op).writes (fun _ us _ _ hus => ?_)
    rw [List.nil_append]
    exact fun w hx => h w (hus w hx)
  exact Engine.wlpR_mono (fun held ws _ hx => .within hs hx.1 hx.2) (Engine.wlpR_and hw hl)

theorem wlpR_lockOrganization {op : Operation} {org : OrgId} {held : List Lock} {ws : List Write}
    {f : Unit → Transaction Outcome} :
    engine.wlpR locked op s held ws (lockOrganization org >>= f)
      (fun held' _ _ => Resource.exclusive (.organization org) ∈ held') :=
  Engine.wlpR_bind (Engine.wlpR_selectFor (fun _ _ => Engine.wlpR_grows (fun _ _ _ hsub => hsub (by simp))))

theorem setMemberRole_holds (org : OrgId) (user : UserId) (role : SeatRole) (actor : UserId) :
    engine.wlpR locked (.setMemberRole org user role actor) s [] [] (setMemberRole C org user role actor)
      (fun held _ _ => Resource.exclusive (.organization org) ∈ held) := by
  refine Engine.wlpR_bind (Engine.wlpR_reads (plain_requireRole _ org actor) (fun _ o _ => ?_))
  refine Engine.wlpR_bind (Engine.wlpR_reads (plain_assertNotSuspended o) (fun _ _ _ => ?_))
  split
  · trivial
  · exact wlpR_lockOrganization

theorem removeMember_holds (org : OrgId) (user : UserId) (by_ : Remover) :
    engine.wlpR locked (.removeMember org user by_) s [] [] (removeMember C org user by_)
      (fun held _ _ => Resource.exclusive (.organization org) ∈ held) :=
  Engine.wlpR_bind (Engine.wlpR_reads (plain_requireRemover C org user by_) (fun _ _ _ => wlpR_lockOrganization))

theorem adminSetMemberRole_holds (org : OrgId) (user : UserId) (role : Role) :
    engine.wlpR locked (.adminSetMemberRole org user role) s [] [] (adminSetMemberRole C org user role)
      (fun held _ _ => Resource.exclusive (.organization org) ∈ held) :=
  Engine.wlpR_bind (Engine.wlpR_reads (plain_requireAdminOrg org) (fun _ _ _ => wlpR_lockOrganization))

/-! ### Filing an invite -/

theorem Sound.swept (hs : Bounded max s) (held : List Lock) (d : Db) (org : OrgId) (now : Instant) :
    Sound max s held (expiries d org now) := by
  refine .quiet hs held (fun w hw => ?_)
  obtain ⟨i, -, -, rfl⟩ := mem_expiries.mp hw
  trivial

/-- The invite filed finds the cap not reached by those that are open at the commit. -/
theorem Sound.filed (hs : Bounded max s) {held : List Lock} {d d' : Db} {now : Instant} {x : Invite}
    (haddr : x.email ≠ none) (hl : Resource.exclusive (.organization x.organizationId) ∈ held)
    (hd : KeepsOrganization x.organizationId d s) (hd' : KeepsOrganization x.organizationId d' s)
    (hcount : (engine.applyAll d' (expiries d x.organizationId now)).countOpenInvites x.organizationId now < max) :
    Sound max s held (expiries d x.organizationId now ++ [.insertInvite x]) := by
  have hcases : ∀ w ∈ expiries d x.organizationId now ++ [.insertInvite x], w.Closes ∨ w = .insertInvite x := by
    intro w hw
    rcases List.mem_append.mp hw with hw | hw
    · obtain ⟨i, -, -, rfl⟩ := mem_expiries.mp hw
      exact .inl ⟨i.id, .expired, none, rfl⟩
    · exact .inr (List.mem_singleton.mp hw)
  have hinsert : ∀ i, .insertInvite i ∈ expiries d x.organizationId now ++ [.insertInvite x] → i = x := by
    intro i hi
    rcases hcases _ hi with ⟨_, _, _, hw⟩ | hw
    · cases hw
    · exact Write.insertInvite.inj hw
  refine ⟨⟨fun k i hi hp => ?_, fun o => ?_⟩, ⟨fun o u hw => ?_, fun i hi => ?_, fun u now hw => ?_⟩⟩
  · rcases invite_of_applyAll s hi hp with hi | hi
    · exact hs.addressed k i hi hp
    · rw [hinsert i hi]
      exact haddr
  · by_cases ho : o = x.organizationId
    · subst ho
      refine (length_openInvites_le (openInvites_of_counted hd hd')).trans ?_
      exact hcount
    · refine (length_openInvites_le (fun i hi => ?_)).trans (hs.capped o)
      obtain ⟨hi, hio, hp⟩ := mem_openInvites.mp hi
      rcases invite_of_applyAll s hi hp with hi | hi
      · exact mem_openInvites.mpr ⟨hi, hio, hp⟩
      · rw [hinsert i hi] at hio
        exact absurd hio.symm ho
  · rcases hw with hw | hw
    · rcases hcases _ hw with ⟨_, _, _, hw⟩ | hw <;> cases hw
    · rcases hcases _ hw with ⟨_, _, _, hw⟩ | hw <;> cases hw
  · rw [hinsert i hi]
    exact hl
  · rcases hcases _ hw with ⟨_, _, _, hw⟩ | hw <;> cases hw

/-- The insert either files the invite or finds the address taken. -/
theorem wlpR_insertInvite {op : Operation} {held : List Lock} {ws : List Write} {i : Invite}
    {Q : List Lock → List Write → Bool → Prop}
    (hold : ∀ held', held ⊆ held' → Q held' ws false)
    (hnew : ∀ held', held ⊆ held' → Q held' (ws ++ [.insertInvite i]) true) :
    engine.wlpR locked op s held ws (insertInvite i) Q := by
  refine Engine.wlpR_bind (Engine.wlpR_dml (fun d _ => ?_))
  generalize ((engine.applyAll d ws).openInvites i.organizationId).all (fun j => decide (j.email ≠ i.email)) = free
  generalize ((engine.applyAll d ws).invites.find? i.id).isNone = fresh
  cases free with
  | false =>
    simp only [Bool.false_eq_true, false_and, ↓reduceIte, List.flatMap_nil, List.append_nil]
    exact hold held (fun _ h => h)
  | true =>
    cases fresh with
    | false => trivial
    | true =>
      simp only [and_self, ↓reduceIte]
      exact hnew _ (by simp)

theorem createInvite_sound (hs : Bounded C.maxInvites s) (x : NewInvite) :
    engine.wlpR locked (.createInvite x) s [] [] (createInvite C x)
      (fun held ws _ => Sound C.maxInvites s held ws) := by
  refine Engine.wlpR_bind (Engine.wlpR_reads (plain_requireRole _ _ _) (fun _ o _ => ?_))
  refine Engine.wlpR_bind (Engine.wlpR_reads (plain_assertNotSuspended o) (fun _ _ _ => ?_))
  refine Engine.wlpR_bind (Engine.wlpR_select (fun d0 _ => ?_))
  refine Engine.wlpR_bind (wlpR_lockOrgForActor (fun held b _ hl _ => ?_))
  split
  · refine Engine.wlpR_bind (Engine.wlpR_dml (fun d hd => Engine.wlpR_bind (Engine.wlpR_select (fun d' hd' => ?_))))
    split
    · trivial
    next hcap =>
    have hkept : KeepsOrganization x.organizationId d s := hd.keeps _ (List.mem_append_left _ hl)
    have hkept' : KeepsOrganization x.organizationId d' s := hd'.keeps _ (List.mem_append_left _ hl)
    rw [List.nil_append] at hcap ⊢
    refine Engine.wlpR_bind (wlpR_insertInvite (fun held' _ => ?_) (fun held' hsub => ?_))
    · exact Sound.swept hs held' d x.organizationId x.now
    · exact Sound.filed (x := x.row ((engine.applyAll d0 []).resolveEmail x.email)) hs (by simp [NewInvite.row])
        (hsub (List.mem_append_left _ hl)) hkept hkept' (Nat.not_le.mp hcap)
  · exact .unchanged hs held

/-! ### Erasures -/

/-- An erasure writes no invite before it revokes those that name its account. -/
def LeavesInvites (w : Write) : Prop := ∀ k, Resource.exclusive (.invite k) ∉ w.needs

/-- The account is marked deleted, and every open invite that names it is locked. -/
def ErasesNamed (user : UserId) (s : Db) : List Lock → List Write → Outcome → Prop :=
  fun held ws _ => (∃ now, .tombstoneUser user now ∈ ws) ∧
    ∀ k i, s.invites.find? k = some i → i.Names user → Resource.exclusive (.invite k) ∈ held

/-- While the account is locked no invite is filed that names it, so those found are all there are. -/
theorem wlpR_revokeInvitesOf {op : Operation} {held : List Lock} {ws : List Write} {user : UserId}
    {Q : List Lock → List Write → Unit → Prop} (hl : Resource.exclusive (.user user) ∈ held)
    (hws : ∀ w ∈ ws, LeavesInvites w)
    (h : ∀ held' us, held ⊆ held' → (∀ k i, s.invites.find? k = some i → i.Names user →
    Resource.exclusive (.invite k) ∈ held') →
      Q held' (ws ++ us) ()) : engine.wlpR locked op s held ws (revokeInvitesOf user) Q := by
  refine Engine.wlpR_dml (fun d hd => h _ _ (by simp) (fun k i hi hn => ?_))
  have hseen : d.invites.find? k = some i := (hd.db.2 _ (List.mem_append_left _ hl)).2.2 k i hi hn
  have hview : (engine.applyAll d ws).invites.find? k = some i :=
    (invite_applyAll (fun w hw => hws w hw k)).trans hseen
  have hk : i.id = k := Table.key_of_find? hview
  have hrow : i ∈ (engine.applyAll d ws).invites.rows := Table.mem_rows_iff.mpr (hk ▸ hview)
  refine List.mem_append_right _ (List.mem_flatMap.mpr ⟨.closeInvite i.id .revoked none, ?_, ?_⟩)
  · exact List.mem_map.mpr ⟨i, List.mem_filter.mpr ⟨hrow, decide_eq_true hn⟩, rfl⟩
  · simp [engine, Write.needs, hk]

theorem eraseAccount_erasesNamed (user : UserId) (now : Instant) :
    engine.wlpR locked (.eraseAccount user now) s [] [] (eraseAccount user now) (ErasesNamed user s) := by
  refine Engine.wlpR_bind (Engine.wlpR_bind (Engine.wlpR_dml (fun d hd => ?_)))
  by_cases hfound : ((engine.applyAll d []).users.find? user).isSome
  · simp only [hfound, ↓reduceIte]
    have hl : Resource.exclusive (.user user) ∈ [] ++ ([Write.tombstoneUser user now]).flatMap engine.needs := by
      simp [engine, Write.needs]
    refine Engine.wlpR_bind (Engine.wlpR_bind (Engine.wlpR_selectFor (fun _ _ => ?_)))
    have hdown : (stepDown user).Writes LeavesInvites :=
      (plain_stepDown (fun _ _ => by simp [Write.needs, Resource.exclusive])).writes
    refine Engine.wlpR_bind (Engine.wlpR_writes hdown (fun held1 us1 owned hsub1 hus1 => ?_))
    have happoint : (appointSuccessors user owned).Writes LeavesInvites :=
      (plain_appointSuccessors (fun _ _ _ => by simp [Write.needs, Resource.exclusive]) user owned).writes
    refine Engine.wlpR_bind (Engine.wlpR_writes happoint (fun held2 us2 _ hsub2 hus2 => ?_))
    have hdelete : (deleteSeats user).Writes LeavesInvites :=
      (plain_deleteSeats (fun _ _ => by simp [Write.needs, Resource.exclusive])).writes
    refine Engine.wlpR_bind (Engine.wlpR_writes hdelete (fun held3 us3 _ hsub3 hus3 => ?_))
    refine Engine.wlpR_bind (wlpR_revokeInvitesOf ?_ (fun w hw => ?_) (fun held4 us4 hsub4 hnamed => ?_))
    · exact hsub3 (hsub2 (hsub1 (List.mem_append_left _ hl)))
    · simp only [List.nil_append, List.mem_append, List.mem_singleton] at hw
      rcases hw with ((rfl | hw) | hw) | hw
      · exact fun k => by simp [Write.needs, Resource.exclusive]
      · exact hus1 w hw
      · exact hus2 w hw
      · exact hus3 w hw
    · have hclose : (closeOrphaned owned now).Writes (fun _ => True) :=
        (plain_closeOrphaned (fun _ => trivial) owned).writes
      refine Engine.wlpR_writes hclose (fun held5 us5 _ hsub5 _ => ?_)
      exact ⟨⟨now, by simp⟩, fun k i hi hn => hsub5 (hnamed k i hi hn)⟩
  · simp only [hfound, Bool.false_eq_true, ↓reduceIte]
    trivial

theorem eraseAccount_sound (hs : Bounded max s) (user : UserId) (now : Instant) :
    engine.wlpR locked (.eraseAccount user now) s [] [] (program C (.eraseAccount user now))
      (fun held ws _ => Sound max s held ws) := by
  have hw : engine.wlpR locked (.eraseAccount user now) s [] [] (program C (.eraseAccount user now))
      (fun _ ws _ => ∀ w ∈ ws, (Operation.eraseAccount user now).MayWrite w) := by
    refine Engine.wlpR_writes (program_plain C _).writes (fun _ us _ _ hus => ?_)
    rwa [List.nil_append]
  refine Engine.wlpR_mono (fun held ws _ hx => ?_) (Engine.wlpR_and hw (eraseAccount_erasesNamed user now))
  obtain ⟨hmay, hdeleted, hnamed⟩ := hx
  have hfiles : ∀ i, .insertInvite i ∉ ws := by
    intro i hi
    rcases hmay _ hi with hw | ⟨_, hw⟩ | ⟨_, _, hw⟩ | ⟨_, hw⟩ | ⟨_, hw⟩ | ⟨_, _, _, hw⟩ <;> cases hw
  have hlowers : ∀ o u, .setRole o u .member ∈ ws ∨ .deleteMember o u ∈ ws → u = user := by
    intro o u hlow
    rcases hlow with hlow | hlow
    · rcases hmay _ hlow with hw | ⟨_, hw⟩ | ⟨_, _, hw⟩ | ⟨_, hw⟩ | ⟨_, hw⟩ | ⟨_, _, _, hw⟩ <;> cases hw
    · rcases hmay _ hlow with hw | ⟨_, hw⟩ | ⟨_, _, hw⟩ | ⟨_, hw⟩ | ⟨_, hw⟩ | ⟨_, _, _, hw⟩ <;> cases hw
      rfl
  have herases : ∀ u at_, .tombstoneUser u at_ ∈ ws → u = user := by
    intro u at_ hu
    rcases hmay _ hu with hw | ⟨_, hw⟩ | ⟨_, _, hw⟩ | ⟨_, hw⟩ | ⟨_, hw⟩ | ⟨_, _, _, hw⟩ <;> cases hw
    rfl
  refine ⟨hs.of_silent hfiles, ⟨fun o u hlow => .inr ?_, fun i hi => absurd hi (hfiles i),
    fun u at_ hu k i hi hn => ?_⟩⟩
  · rw [hlowers o u hlow]
    exact hdeleted
  · rw [herases u at_ hu] at hn
    exact hnamed k i hi hn

theorem program_sound (op : Operation) (hs : Bounded C.maxInvites s) :
    engine.wlpR locked op s [] [] (program C op) (fun held ws _ => Sound C.maxInvites s held ws) := by
  cases op with
  | createOrganization org owner now =>
    refine sound_of_quiet hs ?_
    rintro w (rfl | rfl) <;> trivial
  | addMember org user role actor now =>
    refine sound_of_quiet hs ?_
    rintro w rfl
    trivial
  | adminAddMember org user role now =>
    refine sound_of_quiet hs ?_
    rintro w (rfl | ⟨-, v, rfl⟩)
    · trivial
    · simp [Quiet]
  | listInvites _ _ _ | revokeInvite _ _ _ | declineInvite _ _ _ =>
    exact sound_of_quiet hs (fun w hc => Write.Closes.quiet hc)
  | acceptInvite by_ user now =>
    refine sound_of_quiet hs ?_
    rintro w (⟨org, role, rfl⟩ | hc)
    · trivial
    · exact Write.Closes.quiet hc
  | setSuspended org at_ =>
    refine sound_of_quiet hs ?_
    rintro w rfl
    trivial
  | setMemberRole org user role actor =>
    refine sound_of_within hs ?_ (setMemberRole_holds org user role actor)
    rintro w (rfl | hc)
    · rfl
    · exact Write.Closes.withinOrg hc org
  | removeMember org user by_ =>
    refine sound_of_within hs ?_ (removeMember_holds org user by_)
    rintro w (rfl | hc)
    · rfl
    · exact Write.Closes.withinOrg hc org
  | adminSetMemberRole org user role =>
    refine sound_of_within hs ?_ (adminSetMemberRole_holds org user role)
    rintro w (rfl | ⟨-, v, rfl⟩ | hc)
    · rfl
    · rfl
    · exact Write.Closes.withinOrg hc org
  | createInvite x => exact createInvite_sound hs x
  | eraseAccount user now => exact eraseAccount_sound hs user now

end Operations

theorem careful (C : Contract) : engine.Careful locked (fun _ _ => True) (program C) (Bounded C.maxInvites) where
  locked op := (program_plain C op).wellLocked
  commit op _ hs _ :=
    Engine.wlpR_mono (fun _ _ _ h => ⟨h.bounded, fun _ hfree hp => h.disciplined.keeps hfree hp⟩) (program_sound op hs)

/-! ## Acceptances -/

/-- The acceptance seats its account through an open invite, which it closes. -/
structure Seats (C : Contract) (by_ : InviteLookup) (user : UserId) (now : Instant) (s s' : Db) (i : Invite) :
    Prop where
  found : by_.Finds i
  row : s.invites.find? i.id = some i
  pending : i.status = .pending
  unexpired : now < i.expiresAt
  inviter : s.InviterStands C i.organizationId i.invitedBy
  organization : ∃ o ∈ s.organizations.find? i.organizationId, o.deletedAt = none ∧ o.suspendedAt = none
  free : s.roleOf i.organizationId user = none
  seated : s'.members = s.members.insert ⟨i.organizationId, user, i.role.toRole, now⟩
  closed : s'.invites.find? i.id = some (i.close .accepted (some user))

section Acceptances

variable {C : Contract} {s : Db} {by_ : InviteLookup} {user : UserId} {now : Instant}

/-- What an acceptance does to the seats; the invite names the account or its address exactly when the
row names the account or the account is not deleted. -/
def Accepts (C : Contract) (by_ : InviteLookup) (user : UserId) (now : Instant) (s s' : Db) : Prop :=
  s'.members = s.members ∨ ∃ i, Seats C by_ user now s s' i ∧ (s.Addresses i user ↔ i.userId = some user ∨ s.Live user)

end Acceptances

theorem Seats.once {C : Contract} {by_ by' : InviteLookup} {user user' : UserId} {now now' : Instant}
    {s s' t t' : Db} {i j : Invite}
    (h : Seats C by_ user now s s' i) (he : Db.Evolves s' t) (h' : Seats C by' user' now' t t' j) : j.id ≠ i.id := by
  intro hid
  have hopen : t.invites.find? i.id = some j := hid ▸ h'.row
  exact closed_of_evolves he h.closed Closing.accepted.toStatus_ne_pending hopen h'.pending

/-- The owner has invited an address, which is that of an account outside the organization. -/
def invited : Db :=
  { ownerAdminMember with
    users := ownerAdminMember.users.insert ⟨4, none, some "d", true⟩
    invites := (Table.empty _).insert ⟨7, 1, some "d", none, .member, "t", .pending, some 1, 100⟩ }

end Civfix.OrganizationInvites
