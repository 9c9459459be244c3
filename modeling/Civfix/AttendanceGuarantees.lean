import Civfix.TicketTypeRules

/-! # What the attendance service guarantees

Every operation keeps the invariant of `Views.Inv`. Read under `Views.locked`, where other
transactions interleave, that gives the two safety properties: no ticket type is oversold,
and a banned user stays out. Read under `Views.serial` it gives the exact ledger, for runs
whose operations are `Orderly`; the two operations that can be out of order are the claim
of an offer and the sweep of expired offers. -/
namespace Civfix.Attendance

open KeyedTables LockedTransactions

namespace Views

variable {V : Views} {held : List Lock} {s : Db} (hs : V.Inv (fun _ => 0) s)
include hs

theorem createEvent_keeps {event : Event} (types : List (Id × TicketTypeColumns)) :
    V.Keeps held s (createEvent event types) := by
  induction types with
  | nil =>
    refine wlp_inserting (disciplined_of_quiet (by simp [Write.eventLock])) ?_ ?_
    · intro _ held' _ _ _ _
      exact hs.quiet ⟨rfl, fun _ => rfl⟩ (hs.books.of_eq rfl rfl rfl)
    · intro _ held' _ _ _ hc
      split at hc <;> cases hc
  | cons t types ih =>
    obtain ⟨id, columns⟩ := t
    exact wlp_bind (wlp_mono ih (fun held1 _ s1 hs1 => insertType_rule rfl hs1 (fun _ _ _ hs2 => hs2)))

theorem insertSlot_keeps {slot : Slot} : V.Keeps held s (inserting
    (fun s => if (s.slots.find? slot.id).isSome then .violated .primaryKey else .ok) (.insertSlot slot)) := by
  refine wlp_inserting (disciplined_of_quiet (by simp [Write.eventLock])) ?_ ?_
  · intro _ held' _ _ _ _
    exact hs.quiet ⟨rfl, fun _ => rfl⟩ (hs.books.of_eq rfl rfl rfl)
  · intro _ held' _ _ _ hc
    split at hc <;> cases hc

theorem cancelWaitlistEntriesIn_keeps {pick : Id → ℕ} {c : Id} {t : Option Id} {x : Subject} :
    V.Keeps held s (cancelWaitlistEntriesIn pick c t x) :=
  cancelWaitlistEntriesIn_rule hs.books (fun _ => le_refl _)
    (fun _ _ _ _ _ _ hb hg _ hbans => hs.of_bans hb (hs.bans.mono hg) hbans)

omit hs in
theorem keeps_ignoring {α : Type} {p : Stmt α} (h : V.Keeps held s p) :
    V.Keeps held s (do let _ ← p) :=
  wlp_bind (wlp_mono h (fun _ _ _ hs' => wlp_pure hs'))

end Views

namespace Contract

variable (contract : Contract)

/-- The state of the books lets the operation settle them to the seat: a claim does not
replay a registration made under its key, and a sweep takes at most one offer of a ticket
type. Every other operation settles its own account. -/
def Orderly (s : Db) : Operation → Prop
  | .claimWaitlistOffer args => ¬ Views.ClaimReplays contract.hasEventEnded args s
  | .expireWaitlistOffers _ now limit skipped => ((s.dueOffers now limit skipped).map (·.ticketTypeId)).Nodup
  | _ => True

instance (s : Db) : DecidablePred (contract.Orderly s)
  | .claimWaitlistOffer _ => inferInstanceAs (Decidable (¬ _))
  | .expireWaitlistOffers .. => inferInstanceAs (Decidable (List.Nodup _))
  | .createEvent .. | .updateEvent .. | .insertSlot .. | .insertGuest .. | .register .. | .registerWalkup ..
  | .joinCleanup .. | .claimSlot .. | .leaveCleanup .. | .releaseSlot .. | .joinWaitlist .. | .leaveWaitlist ..
  | .offerNextWaitlistEntry .. | .offerWaitlistEntry .. | .cancelRegistration .. | .removeRegistration ..
  | .transferRegistration .. | .applyBan .. | .removeMember .. | .unbanMember .. | .cancelGuest ..
  | .scrubAttendeeContributions .. | .createTicketType .. | .updateTicketType .. | .deleteTicketType .. =>
    inferInstanceAs (Decidable True)

open Views in
/-- Every operation keeps the invariant. -/
theorem program_keeps {V : Views} {s : Db} (hs : V.Inv (fun _ => 0) s) (o : Operation)
    (horderly : V.exact → contract.Orderly s o) (hkept : ∀ c u, o = .unbanMember c u → ¬ V.kept c u) :
    V.Keeps [] s (contract.program o) := by
  cases o with
  | createEvent event columns ids => exact createEvent_keeps hs _
  | updateEvent event => exact modifying_rule ⟨rfl, fun _ => rfl⟩ rfl rfl rfl hs (fun _ _ hs' => hs')
  | insertSlot slot => exact insertSlot_keeps hs
  | insertGuest g c => exact insertGuest_rule hs (fun _ _ _ hs' => hs')
  | register args h => exact keeps_ignoring (registerIn_keeps hs h)
  | registerWalkup args => exact keeps_ignoring (registerWalkupTx_keeps hs)
  | joinCleanup c u r now => exact keeps_ignoring (joinCleanupTx_keeps hs)
  | claimSlot c u slot r now => exact keeps_ignoring (claimSlot_keeps hs)
  | leaveCleanup c u now => exact keeps_ignoring (leaveCleanup_keeps hs)
  | releaseSlot c u => exact keeps_ignoring (releaseSlot_keeps hs)
  | joinWaitlist args => exact keeps_ignoring (joinWaitlistIn_keeps hs)
  | leaveWaitlist pick c t x => exact keeps_ignoring (cancelWaitlistEntriesIn_keeps hs)
  | offerNextWaitlistEntry t now dbNow window skipped => exact keeps_ignoring (offerNextWaitlistEntry_keeps hs)
  | offerWaitlistEntry c w now dbNow window => exact keeps_ignoring (offerWaitlistEntry_keeps hs)
  | claimWaitlistOffer args => exact keeps_ignoring (claimWaitlistOffer_keeps hs horderly)
  | expireWaitlistOffers pick now limit skipped => exact keeps_ignoring (expireWaitlistOffers_keeps hs horderly)
  | cancelRegistration c r actor now => exact keeps_ignoring (cancelRegistrationIn_keeps hs)
  | removeRegistration pick c r actor ban now => exact keeps_ignoring (removeRegistrationIn_keeps hs)
  | transferRegistration c r t => exact keeps_ignoring (transferRegistrationIn_keeps hs)
  | applyBan pick c u actor now => exact keeps_ignoring (applyBanIn_rule hs (fun _ _ _ _ hs' _ => hs'))
  | removeMember pick c u actor now => exact keeps_ignoring (removeMember_keeps hs)
  | unbanMember c u => exact keeps_ignoring (unbanMember_keeps hs (hkept c u rfl))
  | cancelGuest g now => exact keeps_ignoring (cancelGuest_keeps hs)
  | scrubAttendeeContributions u => exact keeps_ignoring (scrubAttendeeContributions_keeps hs)
  | createTicketType args id => exact keeps_ignoring (insertTicketTypeIn_keeps hs)
  | updateTicketType c t patch => exact keeps_ignoring (updateTicketTypeIn_keeps hs)
  | deleteTicketType c t => exact keeps_ignoring (deleteTicketType_keeps hs)

end Contract

/-! ## A sample run -/

namespace Contract

/-- Events end at `ends_at`, or `duration` after their start. -/
def byWindow (duration : ℕ) : Contract where
  hasEventEnded event now := event.endsAt.getD (event.scheduledAt + duration) ≤ now
  defaultEventDuration := duration

/-- An event with one ticket type of two seats, offered to the first two on the waitlist. -/
def twoOffers : List Operation :=
  [.createEvent ⟨1, .upcoming, .public, none, none, none, 100000, none, none⟩
      [⟨"general", some 2, none, none, .public, none, 2, 0, true⟩] [5],
    .joinWaitlist ⟨1, 5, .user 7, 1, none, 17, 17, 70⟩,
    .joinWaitlist ⟨1, 5, .user 8, 1, none, 18, 18, 80⟩,
    .offerNextWaitlistEntry 5 50 50 10 [],
    .offerNextWaitlistEntry 5 51 51 10 []]

end Contract

/-! ## The invariant in every run -/

/-- The database with the transactions in progress. -/
abbrev World := Engine.World Db Write Lock Failure Operation Unit

namespace Contract

variable (contract : Contract)

abbrev Step : World → Option Operation → World → Prop := engine.Step contract.program

/-- The worlds that interleavings reach from a fresh database. -/
abbrev Reachable : World → Prop := engine.Reachable contract.program Db.Fresh

abbrev Run (ok : Operation → Prop) : World → World → Prop := engine.Run contract.program ok

end Contract

theorem Db.Fresh.inv {s : Db} (hs : s.Fresh) : (Views.locked (fun _ _ => False)).Inv (fun _ => 0) s ∧
    Views.serial.Inv (fun _ => 0) s := by
  have hregs : ∀ {P}, s.registrations.All P := fun {P} k r hr => by
    simpa [hs.registrations] using (Table.find?_eq_some hr).1
  have hqueue : ∀ {P}, s.waitlist.All P := fun {P} k w hw => by
    simpa [hs.waitlist] using (Table.find?_eq_some hw).1
  have htypes : ∀ {P}, s.ticketTypes.All P := fun {P} k t ht => by
    simpa [hs.ticketTypes] using (Table.find?_eq_some ht).1
  have hclaims : ∀ {P}, s.slotClaims.All P := fun {P} k c hc => by
    simpa [hs.slotClaims] using (Table.find?_eq_some hc).1
  have hwell : s.WellFormed := ⟨hregs, hqueue, fun k l x y _ hx => by
    simpa [hs.waitlist] using (Table.find?_eq_some hx).1, htypes⟩
  have hheld : ∀ t, s.held t = 0 := fun t => by simp [Db.held, Table.total, hs.registrations, hs.waitlist]
  have hreserved : ∀ t, s.reserved t = 0 := fun t => by
    cases ht : s.ticketTypes.find? t with
    | none => simp [Db.reserved, ht]
    | some x => simpa [hs.ticketTypes] using (Table.find?_eq_some ht).1
  have hbooks : ∀ {ex}, s.Books ex (fun _ => 0) := fun {ex} =>
    ⟨hwell, fun t => by simp [hheld, hreserved], fun _ t => by simp [hheld, hreserved]⟩
  have hsafe : s.BanSafe := fun c u _ _ => ⟨hregs, hqueue, hclaims⟩
  exact ⟨⟨hbooks, hsafe, by simp [Views.locked]⟩, ⟨hbooks, hsafe, by simp [Views.serial]⟩⟩

namespace Contract

variable (contract : Contract)

/-- The invariant of the interleavings. -/
private def Good (s : Db) : Prop := (Views.locked (fun _ _ => False)).Inv (fun _ => 0) s

private theorem keeps_good : engine.Keeps contract.program Good :=
  fun o _ hs => contract.program_keeps hs o (fun h => h.elim) (fun _ _ _ h => h)

/-- Every ticket type with a capacity has its seats reserved, and no more than there are. -/
theorem never_oversold {w : World}
    (h : contract.Reachable w) :
    ∀ t ∈ w.db.ticketTypes.rows, ∀ n ∈ t.capacity, w.db.held t.id ≤ t.reservedSeats ∧ t.reservedSeats ≤ n := by
  have hgood : Good w.db := h.invariant (fun s hs => hs.inv.1) contract.keeps_good
  intro t ht n hn
  have hfind := Table.mem_rows_iff.mp ht
  have hcov := hgood.books.covered t.id
  simp only [Db.reserved, hfind, Option.elim_some] at hcov
  exact ⟨by omega, hgood.books.ticketTypes t.id t hfind n hn⟩

theorem reachable_run (os : List Operation) : contract.Reachable (.quiet (contract.run Db.empty os)) :=
  Engine.Reachable.serial (.init _ Db.fresh_empty) os

set_option maxRecDepth 4000 in
/-- Both seats are on offer, and both are reserved. -/
theorem never_oversold_twoOffers : ∃ w : World, (byWindow 14400000).Reachable w ∧
    w.db.ticketTypes.rows.map (fun t => (t.capacity, w.db.held t.id)) = [(some 2, 2)] ∧
    ∀ t ∈ w.db.ticketTypes.rows, ∀ n ∈ t.capacity, w.db.held t.id ≤ t.reservedSeats ∧ t.reservedSeats ≤ n :=
  ⟨_, reachable_run _ twoOffers, by decide +kernel, never_oversold _ (reachable_run _ twoOffers)⟩

/-- Whatever commits, a ban stands until it is lifted. -/
private theorem isBanned_of_step {c u : Id} {w w' : World} {o : Option Operation}
    (h : contract.Reachable w) (hs : contract.Step w o w')
    (ho : ∀ x, o = some x → x ≠ .unbanMember c u) (hb : w.db.isBanned c u) : w'.db.isBanned c u := by
  have hcommit := h.commits (fun s hs => hs.inv.1) contract.keeps_good hs
    (Q := fun _ s s' => s.isBanned c u → s'.isBanned c u) (fun x hx s hgood => ?_)
  · cases o with
    | none => rwa [hcommit]
    | some x => exact hcommit hb
  · -- Among the states with the ban, it is part of the invariant.
    by_cases hban : s.isBanned c u
    · have hinv : (Views.locked (fun a b => a = c ∧ b = u)).Inv (fun _ => 0) s := by
        refine ⟨hgood.books, hgood.bans, ?_⟩
        rintro _ _ ⟨rfl, rfl⟩
        exact hban
      have hkeeps := contract.program_keeps hinv x (fun h => h.elim) (by
        rintro a b rfl ⟨rfl, rfl⟩
        exact ho _ hx rfl)
      exact Views.wlp_mono hkeeps (fun _ _ _ hs' _ => hs'.kept c u ⟨rfl, rfl⟩)
    · exact engine.wlp_mono (fun _ _ _ _ hb' => absurd hb' hban) (contract.keeps_good x s hgood)

private theorem isBanned_of_run {c u : Id} {w w' : World}
    (h : contract.Reachable w)
    (hr : contract.Run (fun o => o ≠ .unbanMember c u) w w') (hb : w.db.isBanned c u) :
    w'.db.isBanned c u := by
  induction hr with
  | refl => exact hb
  | tail hr hs hok ih => exact contract.isBanned_of_step (h.run hr) hs hok ih

/-- From the commit of a ban to the commit of its lifting, the user has no registration, no
live waitlist entry and no slot claim at the event, whatever else runs and commits. -/
theorem noPlace_after_ban {pick : Id → ℕ} {c u actorId : Id} {now : Instant}
    {w w₁ w₂ : World}
    (h : contract.Reachable w)
    (hban : contract.Step w (some (.applyBan pick c u actorId now)) w₁)
    (hrun : contract.Run (fun o => o ≠ .unbanMember c u) w₁ w₂) : w₂.db.NoPlace c u := by
  have h₁ := h.step hban
  have hb : w₁.db.isBanned c u := by
    refine h.commits (fun s hs => hs.inv.1) contract.keeps_good hban (Q := fun _ _ s' => s'.isBanned c u) ?_
    rintro _ ⟨⟩ s hs
    exact Views.wlp_bind (Views.applyBanIn_rule hs (fun _ _ _ _ _ hb => Views.wlp_pure hb))
  have hgood : Good w₂.db := (h₁.run hrun).invariant (fun s hs => hs.inv.1) contract.keeps_good
  exact hgood.bans c u trivial (contract.isBanned_of_run h₁ hrun hb)

/-- The first of the two is banned while holding the offer, and cannot come back. -/
theorem noPlace_after_ban_twoOffers : ∃ w w₁ w₂ : World, (byWindow 14400000).Reachable w ∧
    (byWindow 14400000).Step w (some (.applyBan (fun _ => 0) 1 7 9 60)) w₁ ∧
    (byWindow 14400000).Run (fun o => o ≠ .unbanMember 1 7) w₁ w₂ ∧ w₂.db.NoPlace 1 7 := by
  have hfresh := reachable_run (byWindow 14400000) twoOffers
  obtain ⟨w, hw, hs⟩ : ∃ w, (byWindow 14400000).Run (fun _ => True)
      (.quiet ((byWindow 14400000).run Db.empty twoOffers)) w ∧
      (byWindow 14400000).Step w (some (.applyBan (fun _ => 0) 1 7 9 60)) (.quiet
        ((byWindow 14400000).run Db.empty (twoOffers.append [.applyBan (fun _ => 0) 1 7 9 60]))) :=
    Engine.Run.exists_commit rfl
  have hrun : (byWindow 14400000).Run (fun o => o ≠ .unbanMember 1 7)
      (.quiet ((byWindow 14400000).run Db.empty (twoOffers.append [.applyBan (fun _ => 0) 1 7 9 60]))) _ :=
    Engine.Run.serial _
      [.joinWaitlist ⟨1, 5, .user 7, 1, none, 62, 62, 71⟩, .joinCleanup 1 7 91 63] (by simp)
  exact ⟨w, _, _, hfresh.run hw, hs, hrun, noPlace_after_ban _ (hfresh.run hw) hs hrun⟩

/-! ## The exact ledger -/

/-- Each operation of the list is orderly where it runs. -/
def OrderlyRun : Db → List Operation → Prop
  | _, [] => True
  | s, o :: os => contract.Orderly s o ∧ OrderlyRun (contract.step s o) os

instance decidableOrderlyRun (s : Db) : (os : List Operation) → Decidable (contract.OrderlyRun s os)
  | [] => inferInstanceAs (Decidable True)
  | o :: os =>
    have := decidableOrderlyRun (contract.step s o) os
    inferInstanceAs (Decidable (_ ∧ _))

theorem step_exact {s : Db} (hs : Views.serial.Inv (fun _ => 0) s) {o : Operation} (ho : contract.Orderly s o) :
    Views.serial.Inv (fun _ => 0) (contract.step s o) := by
  unfold step Engine.exec
  split
  · next a s' hr =>
    obtain ⟨-, hs'⟩ := engine.wlp_runFrom (A := Views.serial.rel) (fun _ _ => rfl)
      (contract.program_keeps hs o (fun _ => ho) (fun _ _ _ h => h)) hr
    exact hs'
  · exact hs

theorem run_exact {s : Db} (hs : Views.serial.Inv (fun _ => 0) s) {os : List Operation}
    (ho : contract.OrderlyRun s os) : Views.serial.Inv (fun _ => 0) (contract.run s os) := by
  induction os generalizing s with
  | nil => exact hs
  | cons o os ih => exact ih (contract.step_exact hs ho.1) ho.2

theorem OrderlyRun.of_append {s : Db} {os os' : List Operation} (h : contract.OrderlyRun s (os ++ os')) :
    contract.OrderlyRun s os := by
  induction os generalizing s with
  | nil => trivial
  | cons o os ih => exact ⟨h.1, ih h.2⟩

end Contract

/-- `reserved_seats` is the seats of the registered parties and of the open offers. -/
def Db.SeatsExact (s : Db) : Prop := ∀ t ∈ s.ticketTypes.rows, t.reservedSeats = s.held t.id

instance (s : Db) : Decidable s.SeatsExact := inferInstanceAs (Decidable (∀ t ∈ _, _))

namespace Contract

variable (contract : Contract)

/-- In a run of orderly operations the ledger is exact in every state on the way. -/
theorem seatsExact_of_orderlyRun {s : Db} (hs : s.Fresh) (os : List Operation) (ho : contract.OrderlyRun s os) :
    ∀ done, done <+: os → (contract.run s done).SeatsExact := by
  rintro done ⟨rest, rfl⟩ t ht
  have hinv := contract.run_exact hs.inv.2 (OrderlyRun.of_append contract ho)
  have hexact := hinv.books.exact trivial t.id
  simp only [Db.reserved, Table.mem_rows_iff.mp ht, Option.elim_some] at hexact
  omega

/-- The second entry is offered and claimed, and the first offer expires alone. -/
def claimAndExpiry : List Operation :=
  List.append twoOffers
    [.claimWaitlistOffer ⟨1, 80, none, 1, 52, 52, 90⟩, .expireWaitlistOffers (fun _ => 0) 100 100 []]

set_option maxRecDepth 4000 in
theorem seatsExact_sampleRun : (byWindow 14400000).OrderlyRun Db.empty claimAndExpiry ∧
    ((byWindow 14400000).run Db.empty claimAndExpiry).SeatsExact := by
  have horderly : (byWindow 14400000).OrderlyRun Db.empty claimAndExpiry := by decide +kernel
  exact ⟨horderly, seatsExact_of_orderlyRun _ Db.fresh_empty _ horderly _ List.prefix_rfl⟩

set_option maxRecDepth 4000 in
/-- Two offers of one ticket type that expire in the same sweep give back one party. -/
theorem not_seatsExact_sweep : ¬ ∀ (contract : Contract) (s : Db), s.Fresh → ∀ os, (contract.run s os).SeatsExact :=
  fun h => absurd (h (byWindow 14400000) Db.empty Db.fresh_empty
    (twoOffers.append [.expireWaitlistOffers (fun _ => 0) 100 100 []])) (by decide +kernel)

end Contract

end Civfix.Attendance
