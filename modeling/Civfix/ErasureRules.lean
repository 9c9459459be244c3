import Civfix.ErasureRepository

/-! # What an erasure leaves of events and organizations

Inside the transaction one fact about the events that are still to come is kept from statement
to statement: leaving the erased user aside, the organizer of such an event is the one member
with that role, and an organizer other than the user has an account. The last two steps take
the user out of it as well: the demotion takes the role, and what the user still organizes is
cancelled. -/
namespace Civfix.Erasure

open KeyedTables

namespace Db

variable {db db' : Db} {now date : Instant} {id : UserId}

/-- The role of a user on an event. -/
def roleOf (db : Db) (c : CleanupId) (u : UserId) : Option CleanupRole := (db.cleanupMembers.find? (c, u)).map (·.role)

/-- Exactly one member of the event has the role `organizer`: the one its row names, and that
account is not deleted. -/
def Hosted (db : Db) (c : Cleanup) : Prop :=
  (∀ u, db.roleOf c.id u = some .organizer ↔ u = c.organizerUserId) ∧ db.alive c.organizerUserId = true

/-- The event belongs to the organization. -/
def pointsTo (db : Db) (c : CleanupId) (o : OrganizationId) : Prop :=
  ∃ x, db.cleanups.find? c = some x ∧ x.organizationId = some o

def organizationDeleted (db : Db) (o : OrganizationId) : Prop :=
  ∃ x, db.organizations.find? o = some x ∧ x.deletedAt.isSome = true

/-- The events still to come, inside the transaction that erases `id`. -/
structure Between (db : Db) (now : Instant) (id : UserId) : Prop where
  organizers : ∀ k c, db.cleanups.find? k = some c → c.live now = true →
    ∀ u ≠ id, db.roleOf k u = some .organizer ↔ u = c.organizerUserId
  accounts : ∀ k c, db.cleanups.find? k = some c → c.live now = true → c.organizerUserId ≠ id →
    db.alive c.organizerUserId = true

/-- A statement that leaves organizers, teams and accounts alone keeps the fact. -/
theorem Between.of_same (h : db.Between now id)
    (hcleanups : ∀ k c', db'.cleanups.find? k = some c' → c'.live now = true →
      ∃ c, db.cleanups.find? k = some c ∧ c.live now = true ∧ c'.organizerUserId = c.organizerUserId)
    (hroles : ∀ k, ∀ u ≠ id, db'.roleOf k u = db.roleOf k u) (halive : ∀ u, db'.alive u = db.alive u) :
    db'.Between now id := by
  constructor
  · intro k c' hc' hlive u hu
    obtain ⟨c, hc, hclive, horg⟩ := hcleanups k c' hc' hlive
    rw [hroles k u hu, horg]
    exact h.organizers k c hc hclive u hu
  · intro k c' hc' hlive hne
    obtain ⟨c, hc, hclive, horg⟩ := hcleanups k c' hc' hlive
    rw [horg] at hne ⊢
    rw [halive]
    exact h.accounts k c hc hclive hne

theorem alive_eq_of_users {u : UserId} (h : db'.users = db.users) : db'.alive u = db.alive u := by
  unfold alive
  rw [h]

theorem roleOf_eq_some {c : CleanupId} {u : UserId} {r : CleanupRole} :
    db.roleOf c u = some r ↔ ∃ m ∈ db.cleanupMembers.rows, m.cleanupId = c ∧ m.userId = u ∧ m.role = r := by
  simp only [roleOf, Option.map_eq_some_iff]
  constructor
  · rintro ⟨m, hm, hrole⟩
    obtain ⟨hmem, hkey⟩ := Table.find?_eq_some hm
    cases hkey
    exact ⟨m, hmem, rfl, rfl, hrole⟩
  · rintro ⟨m, hmem, rfl, rfl, hrole⟩
    exact ⟨m, Table.mem_rows_iff.mp hmem, hrole⟩

/-! ## The tombstone -/

theorem tombstoneUser_eq (h : db.tombstoneUser now id = some db') :
    (∃ users, db' = { db with users := users }) ∧ db'.alive id = false ∧ ∀ u ≠ id, db'.alive u = db.alive u := by
  unfold tombstoneUser at h
  split at h
  · next hsome =>
    cases h
    refine ⟨⟨_, rfl⟩, ?_, fun u hu => ?_⟩
    · obtain ⟨x, hx⟩ := Option.isSome_iff_exists.mp hsome
      simp [alive, Table.find?_modify, hx]
    · simp [alive, Table.find?_modify, hu]
  · cases h

/-! ## The hand-over of organizations -/

theorem find?_releaseOrganizations_cleanups (k : CleanupId) :
    (db.releaseOrganizations now id).cleanups.find? k = (db.cleanups.find? k).map (fun c =>
      if c.organizationId.any (fun o => decide (o ∈ db.orphanedOrgIds id)) then { c with organizationId := none } else c) := by
  unfold releaseOrganizations
  rw [Table.find?_update]

theorem find?_releaseOrganizations_organizations (o : OrganizationId) :
    (db.releaseOrganizations now id).organizations.find? o = (db.organizations.find? o).map (fun x =>
      if db.orphaned id x then { x with deletedAt := some now, updatedAt := now } else x) := by
  unfold releaseOrganizations
  rw [Table.find?_update]

/-- An organization that the erasure deletes is taken off every event. -/
theorem pointsTo_releaseOrganizations {c : CleanupId} {o : OrganizationId}
    (hpoints : (db.releaseOrganizations now id).pointsTo c o)
    (hdeleted : (db.releaseOrganizations now id).organizationDeleted o) : db.pointsTo c o ∧
    db.organizationDeleted o := by
  obtain ⟨x, hx, hxo⟩ := hpoints
  rw [find?_releaseOrganizations_cleanups] at hx
  obtain ⟨y, hy, rfl⟩ := Option.map_eq_some_iff.mp hx
  split at hxo
  · cases hxo
  · next hnot =>
    refine ⟨⟨y, hy, hxo⟩, ?_⟩
    obtain ⟨z, hz, hzd⟩ := hdeleted
    rw [find?_releaseOrganizations_organizations] at hz
    obtain ⟨w, hw, rfl⟩ := Option.map_eq_some_iff.mp hz
    refine ⟨w, hw, ?_⟩
    split at hzd
    · -- The organization is one of those the run deletes, so the event no longer points to it.
      next horphan =>
      obtain ⟨hmem, hid⟩ := Table.find?_eq_some hw
      have hin : o ∈ db.orphanedOrgIds id := List.mem_map.mpr ⟨w, List.mem_filter.mpr ⟨hmem, horphan⟩, hid⟩
      exact absurd (by simpa [hxo] using hin) hnot
    · exact hzd

theorem Between.releaseOrganizations (h : db.Between now id) : (db.releaseOrganizations now id).Between now id := by
  refine h.of_same (fun k c hc hlive => ?_) (fun k u _ => rfl) (fun u => rfl)
  rw [find?_releaseOrganizations_cleanups] at hc
  obtain ⟨x, hx, rfl⟩ := Option.map_eq_some_iff.mp hc
  refine ⟨x, hx, ?_⟩
  split at hlive
  · next hp =>
    rw [if_pos hp]
    exact ⟨hlive, rfl⟩
  · next hp =>
    rw [if_neg hp]
    exact ⟨hlive, rfl⟩

/-! ## The transfer of events -/

variable {candidate : Cleanup → Option UserId}

theorem mem_moved {k : CleanupId} {u : UserId} :
    (k, u) ∈ (db.moved candidate).map (fun e => (e.cleanupId, e.newOrganizer)) ↔
      ∃ c, db.cleanups.find? k = some c ∧ candidate c = some u := by
  simp only [moved, List.mem_map, List.mem_filterMap, Option.map_eq_some_iff]
  constructor
  · rintro ⟨e, ⟨c, hc, v, hv, rfl⟩, heq⟩
    cases heq
    exact ⟨c, Table.mem_rows_iff.mp hc, hv⟩
  · rintro ⟨c, hc, hu⟩
    obtain ⟨hmem, rfl⟩ := Table.find?_eq_some hc
    exact ⟨_, ⟨c, hmem, u, hu, rfl⟩, rfl⟩

theorem role_seat (t : Table CleanupMember.key) (e : TransferredEvent) (k : CleanupId × UserId) :
    ((seat now t e).find? k).map (·.role) =
      if k = (e.cleanupId, e.newOrganizer) then some .organizer else (t.find? k).map (·.role) := by
  unfold seat
  rw [Table.find?_modify, Table.find?_insert]
  split
  · simp
  · rfl

theorem role_foldl_seat (t : Table CleanupMember.key) (es : List TransferredEvent) (k : CleanupId × UserId) :
    ((es.foldl (seat now) t).find? k).map (·.role) =
      if k ∈ es.map (fun e => (e.cleanupId, e.newOrganizer)) then some .organizer else (t.find? k).map (·.role) := by
  induction es generalizing t with
  | nil => simp
  | cons e es ih =>
    rw [List.foldl_cons, ih, role_seat, List.map_cons]
    by_cases hk : k ∈ es.map (fun e => (e.cleanupId, e.newOrganizer))
    · rw [if_pos hk, if_pos (List.mem_cons_of_mem _ hk)]
    · simp only [List.mem_cons, hk, or_false, if_false]

/-- What either transfer does: the events with a candidate get it as their organizer, on the
event and on its team. -/
structure Transfers (db : Db) (candidate : Cleanup → Option UserId) (db' : Db) : Prop where
  cleanups : db'.cleanups = db.setOrganizers candidate
  users : db'.users = db.users
  organizations : db'.organizations = db.organizations
  seated : ∀ k u, (∃ c, db.cleanups.find? k = some c ∧ candidate c = some u) → db'.roleOf k u = some .organizer
  others : ∀ k u, (¬ ∃ c, db.cleanups.find? k = some c ∧ candidate c = some u) → db'.roleOf k u = db.roleOf k u

theorem transfers_organizationOwners :
    db.Transfers (db.ownerCandidate now id) (db.transferToOrganizationOwners now id).1 where
  cleanups := rfl
  users := rfl
  organizations := rfl
  seated k u h := by
    simp only [roleOf, transferToOrganizationOwners, role_foldl_seat]
    exact if_pos (mem_moved.mpr h)
  others k u h := by
    simp only [roleOf, transferToOrganizationOwners, role_foldl_seat]
    exact if_neg (fun hm => h (mem_moved.mp hm))

theorem ownerCandidate_eq_some {c : Cleanup} {u : UserId} (h : db.ownerCandidate now id c = some u) :
    c.organizerUserId = id ∧ u ≠ id ∧ db.alive u = true := by
  unfold ownerCandidate at h
  split at h
  · next hc =>
    obtain ⟨m, hm, rfl⟩ := Option.map_eq_some_iff.mp h
    have hmem := (List.mem_filter.mp (List.mem_of_mem_head? hm)).2
    simp only [Bool.and_eq_true, decide_eq_true_eq] at hmem
    exact ⟨hc.1, hmem.1.1.2.2, hmem.2⟩
  · cases h

theorem cohostCandidate_eq_some {c : Cleanup} {u : UserId} (h : db.cohostCandidate now id c = some u) :
    c.organizerUserId = id ∧ db.roleOf c.id u = some .cohost ∧ db.alive u = true := by
  unfold cohostCandidate at h
  split at h
  · next hc =>
    obtain ⟨m, hm, rfl⟩ := Option.map_eq_some_iff.mp h
    obtain ⟨hrow, hmem⟩ := List.mem_filter.mp (List.argmin_mem hm)
    simp only [Bool.and_eq_true, decide_eq_true_eq] at hmem
    obtain ⟨⟨hid, hrole⟩, halive⟩ := hmem
    refine ⟨hc.1, ?_, halive⟩
    rw [Table.mem_rows_iff, CleanupMember.key, hid] at hrow
    simp [roleOf, hrow, hrole]
  · cases h

/-- The seats of the second transfer are rows that are there: its candidates are co-hosts. -/
theorem transfers_cohosts : db.Transfers (db.cohostCandidate now id) (db.transferToCohosts now id).1 where
  cleanups := rfl
  users := rfl
  organizations := rfl
  seated k u h := by
    obtain ⟨c, hc, hu⟩ := h
    obtain ⟨-, hrole, -⟩ := cohostCandidate_eq_some hu
    rw [Table.key_of_find? hc] at hrole
    obtain ⟨m, hm, -⟩ := Option.map_eq_some_iff.mp hrole
    have hin := mem_moved.mpr ⟨c, hc, hu⟩
    rw [← Table.key_of_find? hm] at hin
    simp only [roleOf, transferToCohosts, Table.find?_update, hm, Option.map_some, hin, decide_true, if_true]
  others k u h := by
    simp only [roleOf, transferToCohosts, Table.find?_update, Option.map_map]
    refine Option.map_congr (fun m hm => ?_)
    have hkey : m.key = (k, u) := Table.key_of_find? hm
    have hnot : m.key ∉ (db.moved (db.cohostCandidate now id)).map (fun e => (e.cleanupId, e.newOrganizer)) := by
      rw [hkey]
      exact fun hin => h (mem_moved.mp hin)
    simp only [Function.comp, hnot, decide_false, Bool.false_eq_true, if_false]

theorem Between.transfers (h : db.Between now id) (ht : db.Transfers candidate db')
    (hc : ∀ c u, candidate c = some u → c.organizerUserId = id ∧ u ≠ id ∧ db.alive u = true) : db'.Between now id := by
  -- An event afterwards: its organizer is the candidate, or it is as before.
  have hbefore : ∀ k c', db'.cleanups.find? k = some c' → ∃ c, db.cleanups.find? k = some c ∧ c'.live now = c.live now ∧
      ((∃ u, candidate c = some u ∧ c'.organizerUserId = u) ∨
        (candidate c = none ∧ c'.organizerUserId = c.organizerUserId)) := by
    intro k c' hc'
    rw [ht.cleanups, setOrganizers, Table.find?_update] at hc'
    obtain ⟨c, hfind, rfl⟩ := Option.map_eq_some_iff.mp hc'
    refine ⟨c, hfind, ?_⟩
    cases hcand : candidate c with
    | none => simp
    | some u => simp [Cleanup.live]
  constructor
  · intro k c' hc' hlive u hu
    obtain ⟨c, hfind, heq, ⟨v, hv, horg⟩ | ⟨hnone, horg⟩⟩ := hbefore k c' hc'
    · rw [horg]
      by_cases huv : u = v
      · subst huv
        simp [ht.seated k u ⟨c, hfind, hv⟩]
      · -- The event was the user's own, so nobody else had the role.
        have hold := h.organizers k c hfind (heq ▸ hlive) u hu
        rw [(hc c v hv).1] at hold
        have hsame := ht.others k u (by simp [hfind, hv, Ne.symm huv])
        rw [hsame, hold]
        simp [hu, huv]
    · rw [horg, ht.others k u (by simp [hfind, hnone])]
      exact h.organizers k c hfind (heq ▸ hlive) u hu
  · intro k c' hc' hlive hne
    obtain ⟨c, hfind, heq, ⟨v, hv, horg⟩ | ⟨hnone, horg⟩⟩ := hbefore k c' hc'
    · rw [horg, alive_eq_of_users ht.users]
      exact (hc c v hv).2.2
    · rw [horg] at hne ⊢
      rw [alive_eq_of_users ht.users]
      exact h.accounts k c hfind (heq ▸ hlive) hne

/-! ## The demotion -/

theorem roleOf_demoteOrganizer (k : CleanupId) (u : UserId) :
    (db.demoteOrganizer id).roleOf k u =
      if u = id ∧ db.roleOf k u = some .organizer ∧ ∃ c, db.cleanups.find? k = some c ∧ c.organizerUserId ≠ id
      then some .member else db.roleOf k u := by
  simp only [roleOf, demoteOrganizer, Table.find?_update, Option.map_map]
  rcases Option.eq_none_or_eq_some (db.cleanupMembers.find? (k, u)) with hm | ⟨m, hm⟩
  · simp [hm]
  · have hkey : m.key = (k, u) := Table.key_of_find? hm
    cases hkey
    simp only [hm, Option.map_some, Function.comp, Bool.and_eq_true, decide_eq_true_eq, Option.any_eq_true,
      Option.some.injEq,
      and_assoc]
    split
    · rfl
    · rfl

theorem roleOf_demoteTeam (k : CleanupId) (u : UserId) :
    (db.demoteTeam id).roleOf k u =
      if u = id ∧ (db.roleOf k u).any teamRole = true then some .member else db.roleOf k u := by
  simp only [roleOf, demoteTeam, Table.find?_update, Option.map_map]
  rcases Option.eq_none_or_eq_some (db.cleanupMembers.find? (k, u)) with hm | ⟨m, hm⟩
  · simp [hm]
  · have hkey : m.key = (k, u) := Table.key_of_find? hm
    cases hkey
    simp only [hm, Option.map_some, Function.comp, held, Bool.and_eq_true, decide_eq_true_eq, Option.any_some]
    split
    · rfl
    · rfl

theorem Between.demoteRemainingTeamRoles (h : db.Between now id) : (db.demoteRemainingTeamRoles id).Between now id := by
  refine h.of_same (fun k c hc hlive => ⟨c, hc, hlive, rfl⟩) (fun k u hu => ?_) (fun u => rfl)
  rw [Db.demoteRemainingTeamRoles, roleOf_demoteTeam, if_neg (fun hx => hu hx.1), roleOf_demoteOrganizer,
    if_neg (fun hx => hu hx.1)]

theorem teamRole_demoteRemainingTeamRoles {k : CleanupId} {r : CleanupRole}
    (h : (db.demoteRemainingTeamRoles id).roleOf k id = some r) : teamRole r = false := by
  rw [demoteRemainingTeamRoles, roleOf_demoteTeam] at h
  split at h
  · cases h
    rfl
  · next hnot =>
    rw [h] at hnot
    simpa using hnot

theorem organizer_demoteRemainingTeamRoles {k : CleanupId} {c : Cleanup} (hc : db.cleanups.find? k = some c)
    (hne : c.organizerUserId ≠ id) : (db.demoteRemainingTeamRoles id).roleOf k id ≠ some .organizer := by
  rw [demoteRemainingTeamRoles, roleOf_demoteTeam]
  split
  · simp
  · rw [roleOf_demoteOrganizer]
    split
    · simp
    · next hnot => exact fun hrole => hnot ⟨rfl, hrole, c, hc, hne⟩

/-! ## The transaction -/

theorem runErasure_eq {events : List TransferredEvent} (h : db.runErasure now date id = some (db', events)) :
    ∃ tombstoned owners cohosts, db.tombstoneUser now id = some tombstoned ∧
      (tombstoned.releaseOrganizations now id).Transfers
        ((tombstoned.releaseOrganizations now id).ownerCandidate now id) owners ∧
      owners.Transfers (owners.cohostCandidate now id) cohosts ∧
      db' = (cohosts.demoteRemainingTeamRoles id).cancelRemainingHostedEvents date id := by
  obtain ⟨tombstoned, htomb, heq⟩ := Option.map_eq_some_iff.mp h
  cases heq
  exact ⟨tombstoned, _, _, htomb, transfers_organizationOwners, transfers_cohosts, rfl⟩

theorem live_mono {c : Cleanup} {t t' : Instant} (h : c.live t' = true) (hle : t ≤ t') : c.live t = true := by
  simp only [Cleanup.live, Bool.and_eq_true, decide_eq_true_eq] at h ⊢
  exact ⟨h.1, lt_of_le_of_lt hle h.2⟩

/-- An event that is still to come after the last statement is as it was before it, and is not
the user's. -/
theorem live_cancelRemainingHostedEvents {k : CleanupId} {c : Cleanup} {t : Instant}
    (hc : (db.cancelRemainingHostedEvents date id).cleanups.find? k = some c) (hlive : c.live t = true)
    (ht : date ≤ t) :
    db.cleanups.find? k = some c ∧ c.organizerUserId ≠ id := by
  rw [cancelRemainingHostedEvents, Table.find?_update] at hc
  obtain ⟨x, hx, rfl⟩ := Option.map_eq_some_iff.mp hc
  split at hlive
  · simp [Cleanup.live] at hlive
  · next hnot =>
    rw [if_neg hnot]
    refine ⟨hx, fun hid => hnot ?_⟩
    simp [hid, live_mono hlive ht]

theorem pointsTo_of_transfers {c : CleanupId} {o : OrganizationId} (ht : db.Transfers candidate db')
    (h : db'.pointsTo c o) : db.pointsTo c o := by
  obtain ⟨x, hx, hxo⟩ := h
  rw [ht.cleanups, setOrganizers, Table.find?_update] at hx
  obtain ⟨y, hy, rfl⟩ := Option.map_eq_some_iff.mp hx
  refine ⟨y, hy, ?_⟩
  split at hxo
  · exact hxo
  · exact hxo

theorem pointsTo_of_cancel {c : CleanupId} {o : OrganizationId}
    (h : (db.cancelRemainingHostedEvents date id).pointsTo c o) : db.pointsTo c o := by
  obtain ⟨x, hx, hxo⟩ := h
  rw [cancelRemainingHostedEvents, Table.find?_update] at hx
  obtain ⟨y, hy, rfl⟩ := Option.map_eq_some_iff.mp hx
  refine ⟨y, hy, ?_⟩
  split at hxo
  · exact hxo
  · exact hxo

theorem organizationDeleted_congr {o : OrganizationId} (h : db'.organizations = db.organizations) :
    db'.organizationDeleted o ↔ db.organizationDeleted o := by
  unfold organizationDeleted
  rw [h]

/-- The fact holds from the tombstone on, when every event still to come was hosted before. -/
theorem between_tombstoneUser (h : db.tombstoneUser now id = some db')
    (hhosted : ∀ c ∈ db.cleanups.rows, c.live now = true → db.Hosted c) : db'.Between now id := by
  obtain ⟨⟨users, rfl⟩, -, halive⟩ := tombstoneUser_eq h
  constructor
  · intro k c hc hlive u hu
    obtain ⟨hmem, rfl⟩ := Table.find?_eq_some hc
    exact (hhosted c hmem hlive).1 u
  · intro k c hc hlive hne
    obtain ⟨hmem, rfl⟩ := Table.find?_eq_some hc
    rw [halive _ hne]
    exact (hhosted c hmem hlive).2

theorem between_runErasure {tombstoned owners cohosts : Db} (htomb : db.tombstoneUser now id = some tombstoned)
    (howners : (tombstoned.releaseOrganizations now id).Transfers
      ((tombstoned.releaseOrganizations now id).ownerCandidate now id) owners)
    (hcohosts : owners.Transfers (owners.cohostCandidate now id) cohosts)
    (hhosted : ∀ c ∈ db.cleanups.rows, c.live now = true → db.Hosted c) : cohosts.Between now id := by
  have hgone : owners.alive id = false := by
    rw [alive_eq_of_users howners.users]
    exact (tombstoneUser_eq htomb).2.1
  have hreleased := (between_tombstoneUser htomb hhosted).releaseOrganizations
  refine (hreleased.transfers howners (fun c u hu => ownerCandidate_eq_some hu)).transfers hcohosts (fun c u hu => ?_)
  obtain ⟨horg, -, halive⟩ := cohostCandidate_eq_some hu
  refine ⟨horg, ?_, halive⟩
  -- The user is tombstoned by now, so no candidate is the user.
  rintro rfl
  rw [hgone] at halive
  cases halive

/-- After an erasure commits: no event still to come is organized by the user; when every such
event was hosted before, it is hosted now; the user is co-host, staff or coordinator nowhere;
and an event points to a deleted organization only if it did so before, to an organization
that was deleted then. -/
theorem runErasure_leaves_no_orphan {events : List TransferredEvent} {t : Instant}
    (h : db.runErasure now date id = some (db', events)) (hnow : now ≤ t) (hdate : date ≤ t) :
    (∀ c ∈ db'.cleanups.rows, c.live t = true → c.organizerUserId ≠ id) ∧
    ((∀ c ∈ db.cleanups.rows, c.live now = true → db.Hosted c) → ∀ c ∈ db'.cleanups.rows, c.live t = true →
      db'.Hosted c) ∧
    (∀ m ∈ db'.cleanupMembers.rows, m.userId = id → m.role ≠ .cohost ∧ m.role ≠ .coordinator ∧ m.role ≠ .staff) ∧
    ∀ c o, db'.pointsTo c o → db'.organizationDeleted o → db.pointsTo c o ∧ db.organizationDeleted o := by
  obtain ⟨tombstoned, owners, cohosts, htomb, howners, hcohosts, rfl⟩ := runErasure_eq h
  have hlast : ∀ c ∈ ((cohosts.demoteRemainingTeamRoles id).cancelRemainingHostedEvents date id).cleanups.rows,
      c.live t = true → cohosts.cleanups.find? c.id = some c ∧ c.organizerUserId ≠ id :=
    fun c hc hlive => live_cancelRemainingHostedEvents (Table.mem_rows_iff.mp hc) hlive hdate
  refine ⟨fun c hc hlive => (hlast c hc hlive).2, fun hhosted c hc hlive => ?_, fun m hm hid => ?_, fun c o hp hd => ?_⟩
  · obtain ⟨hfind, hne⟩ := hlast c hc hlive
    have hbetween := between_runErasure htomb howners hcohosts hhosted
    have hlive' := live_mono hlive hnow
    refine ⟨fun u => ?_, hbetween.accounts c.id c hfind hlive' hne⟩
    by_cases hu : u = id
    · subst hu
      exact ⟨fun hrole => absurd hrole (organizer_demoteRemainingTeamRoles hfind hne), fun heq => absurd heq.symm hne⟩
    · exact hbetween.demoteRemainingTeamRoles.organizers c.id c hfind hlive' u hu
  · have hrole : (cohosts.demoteRemainingTeamRoles id).roleOf m.cleanupId id = some m.role :=
      roleOf_eq_some.mpr ⟨m, hm, rfl, hid, rfl⟩
    have hteam := teamRole_demoteRemainingTeamRoles hrole
    simp only [teamRole, decide_eq_false_iff_not, not_or] at hteam
    exact ⟨hteam.1, hteam.2.2, hteam.2.1⟩
  · have horganizations : cohosts.organizations = (tombstoned.releaseOrganizations now id).organizations :=
      hcohosts.organizations.trans howners.organizations
    have hbefore := pointsTo_releaseOrganizations
      (pointsTo_of_transfers howners (pointsTo_of_transfers hcohosts (pointsTo_of_cancel hp)))
      ((organizationDeleted_congr horganizations).mp hd)
    obtain ⟨⟨users, rfl⟩, -⟩ := tombstoneUser_eq htomb
    exact hbefore

/-- Three events of one user: an organization's, one with two co-hosts, and one without. The
user owns the organization, whose admin is user 2. -/
def threeEvents : Db where
  users := ⟨[⟨1, none, some 5⟩, ⟨2, none, none⟩, ⟨3, none, none⟩, ⟨4, none, none⟩], by decide⟩
  organizations := ⟨[⟨5, none, 0⟩], by decide⟩
  organizationMembers := ⟨[⟨5, 1, .owner, 0⟩, ⟨5, 2, .admin, 1⟩], by decide⟩
  organizationInvites := .empty _
  cleanups := ⟨[⟨1, 1, "Beach", .upcoming, 20, some 5⟩, ⟨2, 1, "Park", .upcoming, 20, none⟩,
    ⟨3, 1, "Creek", .upcoming, 20, none⟩], by decide⟩
  cleanupMembers := ⟨[⟨1, 1, .organizer, some 0⟩, ⟨2, 1, .organizer, some 0⟩, ⟨3, 1, .organizer, some 0⟩,
    ⟨2, 3, .cohost, none⟩, ⟨2, 4, .cohost, some 7⟩], by decide⟩
  cleanupTeamInvites := .empty _
  auditLog := []
  ownerIndex := by
    intro k k' r r' hr hr' o ho ho'
    obtain ⟨hmem, rfl⟩ := Table.find?_eq_some hr
    obtain ⟨hmem', rfl⟩ := Table.find?_eq_some hr'
    rw [owner?_eq_some] at ho ho'
    simp only [List.mem_cons, List.mem_nil_iff, or_false] at hmem hmem'
    rcases hmem with rfl | rfl
    · rcases hmem' with rfl | rfl
      · rfl
      · simp at ho'
    · simp at ho

theorem hosted_threeEvents : ∀ c ∈ threeEvents.cleanups.rows, c.live 10 = true → threeEvents.Hosted c := by
  intro c hc _
  simp only [threeEvents, List.mem_cons, List.mem_nil_iff, or_false] at hc
  rcases hc with rfl | rfl | rfl
  all_goals
    refine ⟨fun u => ?_, rfl⟩
    rw [roleOf_eq_some]
    simp [threeEvents, eq_comm]

/-- The first event goes to the new owner of the organization, the second to the co-host with a
known date of joining, and the third is cancelled. -/
theorem runErasure_leaves_no_orphan_threeEvents :
    ∃ db' events, threeEvents.runErasure 10 11 1 = some (db', events) ∧
      events = [⟨1, 2, "Beach"⟩, ⟨2, 4, "Park"⟩] ∧
      (∀ c ∈ db'.cleanups.rows, c.live 12 = true → c.organizerUserId ≠ 1 ∧ db'.Hosted c) ∧
      ∀ c o, db'.pointsTo c o → ¬ db'.organizationDeleted o := by
  have hrun : ∃ r, threeEvents.runErasure 10 11 1 = some r ∧ r.2 = [⟨1, 2, "Beach"⟩, ⟨2, 4, "Park"⟩] := by
    refine ⟨_, rfl, ?_⟩
    decide +kernel
  obtain ⟨⟨db', events⟩, hr, hevents⟩ := hrun
  obtain ⟨hfree, hhosted, -, horgs⟩ := runErasure_leaves_no_orphan hr (by decide : 10 ≤ 12) (by decide)
  refine ⟨db', events, hr, hevents, fun c hc hlive => ⟨hfree c hc hlive, hhosted hosted_threeEvents c hc hlive⟩,
    fun c o hp hd => ?_⟩
  obtain ⟨-, x, hx, hdeleted⟩ := horgs c o hp hd
  have hmem := (Table.find?_eq_some hx).1
  simp only [threeEvents, List.mem_cons, List.mem_nil_iff, or_false] at hmem
  subst hmem
  cases hdeleted

end Db

end Civfix.Erasure
