import Civfix.SlotClaims

/-! # Slots keep to their capacity

One lemma for each operation of the service, and from them what every interleaving guarantees. -/
namespace Civfix.Attendance

open KeyedTables LockedTransactions

variable {α : Type}

/-! ## Registrations -/

theorem spares_eventGateRefusal (event : Event) (args : RegisterTxArgs) : Spares (eventGateRefusal event args) := by
  unfold eventGateRefusal
  split
  · exact spares_pure _
  split
  · exact spares_pure _
  refine (spares_subjectBanned _ _).bind fun banned => ?_
  split
  · exact spares_pure _
  · exact (spares_select _).bind fun active => spares_pure _

theorem spares_reserveCapacity (args : RegisterTxArgs) (capacity : Option ℕ) (type : Option TicketType) (n : ℕ) :
    Spares (reserveCapacity args capacity type n) := by
  unfold reserveCapacity
  split
  · exact spares_pure _
  · exact spares_pure _
  · exact (spares_selectFor _ _).bind fun _ => (spares_select _).bind fun held => spares_pure _
  · refine Spares.bind (spares_statement fun v w hw => ?_) fun reserved => ?_
    · split at hw
      · cases List.mem_singleton.mp hw
        rfl
      · cases hw
    · split
      · exact spares_pure _
      · exact spares_abort _

theorem fills_claimSlotOf (args : RegisterTxArgs) : Fills (claimSlotOf args) := by
  unfold claimSlotOf
  split
  · exact fills_claimSlotIn
  · exact fills_pure _

theorem spares_linkWaitlistEntry (args : RegisterTxArgs) : Spares (linkWaitlistEntry args) := by
  unfold linkWaitlistEntry
  split
  · exact spares_pure _
  · refine spares_modifying fun v w hw => ?_
    split at hw
    · cases List.mem_singleton.mp hw
      rfl
    · cases hw

theorem fills_seatParty (args : RegisterTxArgs) (type : Option Id) : Fills (seatParty args type) := by
  refine (fills_claimSlotOf args).bind fun _ => Spares.fills ?_
  refine Spares.bind ((spares_insertMember _ _).bind fun _ => spares_inserting _ rfl) fun _ => ?_
  refine (spares_linkWaitlistEntry args).bind fun _ => ?_
  refine Spares.bind (spares_inserting _ rfl) fun _ => ?_
  refine (spares_loadRegistrationById _ _).bind fun registration => ?_
  cases registration with
  | some registration => exact spares_pure _
  | none => exact spares_abort _

theorem fills_registerIn (args : RegisterTxArgs) : Fills (registerIn args) := by
  refine Spares.fills (spares_selectFor _ _) |>.bind fun _ => ?_
  refine (spares_lockEvent _ _).fills.bind fun event => ?_
  cases event with
  | none => exact fills_pure _
  | some event =>
    dsimp only
    split
    · exact fills_pure _
    refine Spares.fills (spares_select _) |>.bind fun snapshot => ?_
    cases snapshot with
    | some r => exact ((spares_loadRegistrationById _ _).bind fun _ => spares_pure _).fills
    | none =>
      refine Fills.unlessRefused (spares_eventGateRefusal _ _) ?_
      refine Spares.fills (spares_select _) |>.bind fun picked => ?_
      cases picked with
      | error refusal => exact fills_pure _
      | ok type =>
        refine Fills.unlessRefused (spares_pure _) ?_
        exact Fills.unlessRefused (spares_reserveCapacity _ _ _ _) (fills_seatParty _ _)

theorem fills_registerWalkupTx (args : WalkupRegisterArgs) : Fills (registerWalkupTx args) := by
  refine Spares.fills (spares_inserting _ rfl) |>.bind fun _ => ?_
  refine (fills_registerIn _).bind fun outcome => Spares.fills ?_
  cases outcome with
  | registered registration => exact spares_pure _
  | _ => exact spares_abort _

theorem spares_joinCleanupTx (ended : Event → Instant → Bool) (c u r : Id) (now : Instant) :
    Spares (joinCleanupTx ended c u r now) := by
  refine (spares_lockJoinableEvent _ _ _ _).bind fun refusal => ?_
  cases refusal with
  | some refusal => exact spares_pure _
  | none => exact (spares_enrolMember _ _ _ _).bind fun _ => spares_pure _

theorem spares_leaveCleanup (c u : Id) (now : Instant) : Spares (leaveCleanup c u now) := by
  refine (spares_lockEvent _ _).bind fun event => ?_
  split
  · exact spares_pure _
  split
  · exact spares_pure _
  refine Spares.bind (spares_write rfl) fun _ => ?_
  refine Spares.bind (spares_statement fun v w hw => (quiet_cancel now (some u) _ w hw).slotLock) fun _ => ?_
  exact Spares.bind (spares_write rfl) fun _ => spares_pure _

theorem spares_releaseSlot (c u : Id) : Spares (releaseSlot c u) := by
  refine (spares_select _).bind fun event => ?_
  split
  · exact spares_pure _
  split
  · exact spares_pure _
  · exact Spares.bind (spares_write rfl) fun _ => spares_pure _

/-! ## The waitlist -/

theorem spares_cancelWaitlistEntriesIn (pick : Id → ℕ) (c : Id) (t : Option Id) (x : Subject) :
    Spares (cancelWaitlistEntriesIn pick c t x) :=
  spares_statement fun _ w hw => (quiet_append (quiet_close _ _) (quiet_joined _ _) w hw).slotLock

theorem spares_releaseWaitlistHold (c w : Id) : Spares (releaseWaitlistHold c w) :=
  spares_modifying fun _ w hw => (quiet_append (quiet_close _ _) (quiet_joined _ _) w hw).slotLock

theorem spares_classifyUnclaimable (c w : Id) (x : Subject) (now : Instant) :
    Spares (classifyUnclaimable c w x now) := by
  refine (spares_selectFor _ _).bind fun row => ?_
  cases row with
  | none => exact spares_pure _
  | some row =>
    have hpromoted : Spares (classifyUnclaimable.promotedRegistration c x row) := by
      unfold classifyUnclaimable.promotedRegistration
      split
      · split
        · exact spares_loadRegistrationById _ _
        · exact spares_pure _
      · exact spares_pure _
    refine hpromoted.bind fun registration => ?_
    split
    · exact spares_pure _
    split
    · exact spares_pure _
    split
    · exact spares_pure _
    split
    · exact (spares_releaseWaitlistHold _ _).bind fun _ => spares_pure _
    · exact spares_pure _

theorem spares_joinWaitlistGateRefusal (ended : Event → Instant → Bool) (args : JoinWaitlistArgs) :
    Spares (joinWaitlistGateRefusal ended args) := by
  refine (spares_lockEvent _ _).bind fun event => ?_
  split
  · exact spares_pure _
  split
  · exact spares_pure _
  split
  · exact spares_pure _
  refine (spares_subjectBanned _ _).bind fun banned => ?_
  split
  · exact spares_pure _
  refine (spares_select _).bind fun type => ?_
  split
  · exact spares_pure _
  · exact (spares_select _).bind fun registered => spares_pure _

theorem spares_joinWaitlistIn (ended : Event → Instant → Bool) (args : JoinWaitlistArgs) :
    Spares (joinWaitlistIn ended args) := by
  refine Spares.unlessRefused (spares_joinWaitlistGateRefusal _ _) ?_
  refine Spares.bind (spares_select _) fun existing => ?_
  cases existing with
  | some existing =>
    refine Spares.bind (spares_select _) fun entry => ?_
    cases entry with
    | none => exact spares_pure _
    | some entry => exact spares_pure _
  | none =>
    refine Spares.bind (spares_inserting _ rfl) fun _ => ?_
    refine Spares.bind (spares_select _) fun entry => ?_
    cases entry with
    | none => exact spares_abort _
    | some entry => exact spares_pure _

theorem fills_claimOfferIn (ended : Event → Instant → Bool) (args : ClaimWaitlistArgs) (x : Subject)
    (registerArgs : RegisterTxArgs) : Fills (claimOfferIn ended args x registerArgs) := by
  refine (spares_lockEvent _ _).fills.bind fun event => ?_
  refine Spares.fills (spares_statement fun v w hw => (quiet_close _ _ w hw).slotLock) |>.bind fun claimed => ?_
  cases claimed with
  | none => exact (spares_classifyUnclaimable _ _ _ _).fills
  | some row =>
    dsimp only
    split
    · exact (spares_abort _).fills
    split
    · exact ((spares_releaseWaitlistHold _ _).bind fun _ => spares_pure _).fills
    refine (fills_registerIn _).bind fun outcome => Spares.fills ?_
    split
    · exact spares_pure _
    · exact spares_pure _
    · exact (spares_releaseWaitlistHold _ _).bind fun _ => spares_pure _
    · exact (spares_releaseWaitlistHold _ _).bind fun _ => spares_pure _
    · exact spares_abort _

theorem fills_claimWaitlistOffer (ended : Event → Instant → Bool) (args : ClaimWaitlistArgs) :
    Fills (claimWaitlistOffer ended args) := by
  refine Spares.fills (spares_select _) |>.bind fun entry => ?_
  cases entry with
  | none => exact fills_pure _
  | some entry =>
    dsimp only
    split
    · exact fills_pure _
    · exact fills_claimOfferIn _ _ _ _

theorem spares_reserveAndOffer (candidate : WaitlistEntry) (scope : Option Id) (now expires : Instant) :
    Spares (reserveAndOffer candidate scope now expires) := by
  refine Spares.bind (spares_statement fun v w hw => ?_) fun reserved => ?_
  · split at hw
    · cases List.mem_singleton.mp hw
      rfl
    · cases hw
  split
  · exact spares_pure _
  · exact Spares.bind (spares_write rfl) fun _ => spares_pure _

theorem spares_offerNextWaitlistEntry (duration : ℕ) (t : Id) (now dbNow window : Instant) (skipped : List Id) :
    Spares (offerNextWaitlistEntry duration t now dbNow window skipped) := by
  refine (spares_selectFor _ _).bind fun candidate => ?_
  split
  · exact spares_pure _
  · exact spares_reserveAndOffer _ _ _ _

theorem spares_offerWaitlistEntry (duration : ℕ) (c w : Id) (now dbNow window : Instant) :
    Spares (offerWaitlistEntry duration c w now dbNow window) := by
  refine (spares_selectFor _ _).bind fun candidate => ?_
  split
  · exact spares_pure _
  · exact spares_reserveAndOffer _ _ _ _

/-! ## The roster -/

theorem spares_applyBanIn (pick : Id → ℕ) (c u actor : Id) (now : Instant) : Spares (applyBanIn pick c u actor now) := by
  refine (spares_selectFor _ _).bind fun _ => ?_
  refine Spares.bind (spares_inserting _ rfl) fun _ => ?_
  refine Spares.bind (spares_modifying fun v w hw => ?_) fun _ => ?_
  · split at hw
    · cases List.mem_singleton.mp hw
      rfl
    · cases hw
  refine (spares_cancelWaitlistEntriesIn _ _ _ _).bind fun waitlist => ?_
  refine Spares.bind (spares_statement fun v w hw =>
    (quiet_append (quiet_cancel _ _ _) (quiet_grouped _) w hw).slotLock) fun cancelled => ?_
  exact Spares.bind (spares_write rfl) fun _ => spares_pure _

theorem spares_cancelRegistrationIn (c r : Id) (actor : Option Id) (now : Instant) :
    Spares (cancelRegistrationIn c r actor now) := by
  refine Spares.bind (spares_statement fun v w hw =>
    (quiet_append (quiet_cancel _ _ _) (quiet_joined _ _) w hw).slotLock) fun cancelled => ?_
  refine (spares_loadRegistrationById _ _).bind fun existing => ?_
  split <;> exact spares_pure _

theorem spares_removeRegistrationIn (pick : Id → ℕ) (c r actor : Id) (ban : Bool) (now : Instant) :
    Spares (removeRegistrationIn pick c r actor ban now) := by
  refine (spares_select _).bind fun target => ?_
  split
  · exact spares_pure _
  split
  · exact (spares_cancelRegistrationIn _ _ _ _).bind fun _ => spares_pure _
  refine (spares_applyBanIn _ _ _ _ _).bind fun applied => ?_
  split
  · exact (spares_cancelRegistrationIn _ _ _ _).bind fun _ => spares_pure _
  refine (spares_loadRegistrationById _ _).bind fun registration => ?_
  split <;> exact spares_pure _

theorem spares_moveParty (c r t : Id) (current : Registration) :
    Spares (transferRegistrationIn.moveParty c r t current) := by
  have hrelease : Spares (transferRegistrationIn.releasePrevious c current) := by
    unfold transferRegistrationIn.releasePrevious
    split
    · exact spares_pure _
    · refine spares_modifying fun v w hw => ?_
      split at hw
      · cases List.mem_singleton.mp hw
        rfl
      · cases hw
  refine hrelease.bind fun _ => Spares.bind (spares_write rfl) fun _ => ?_
  refine (spares_loadRegistrationById _ _).bind fun registration => ?_
  split <;> exact spares_pure _

theorem spares_transferRegistrationIn (c r t : Id) : Spares (transferRegistrationIn c r t) := by
  refine (spares_lockEvent _ _).bind fun event => ?_
  split
  · exact spares_pure _
  refine (spares_selectFor _ _).bind fun current => ?_
  split
  · exact spares_pure _
  split
  · exact spares_pure _
  refine (spares_selectFor _ _).bind fun target => ?_
  split
  · exact spares_pure _
  split
  · exact spares_pure _
  refine Spares.bind (spares_statement fun v w hw => ?_) fun reserved => ?_
  · split at hw
    · cases List.mem_singleton.mp hw
      rfl
    · cases hw
  split
  · exact spares_pure _
  · exact spares_moveParty _ _ _ _

theorem spares_removeMember (pick : Id → ℕ) (c u actor : Id) (now : Instant) :
    Spares (removeMember pick c u actor now) := by
  refine (spares_lockEvent _ _).bind fun event => ?_
  split
  · exact spares_pure _
  split
  · exact spares_pure _
  refine Spares.bind (spares_statement fun v w hw => ?_) fun deleted => ?_
  · split at hw
    · cases List.mem_singleton.mp hw
      rfl
    · cases hw
  split
  · exact (spares_applyBanIn _ _ _ _ _).bind fun _ => spares_pure _
  · exact spares_pure _

theorem spares_unbanMember (c u : Id) : Spares (unbanMember c u) := by
  refine spares_statement fun v w hw => ?_
  split at hw
  · cases List.mem_singleton.mp hw
    rfl
  · cases hw

theorem spares_cancelGuest (g : Id) (now : Instant) : Spares (cancelGuest g now) := by
  refine spares_statement fun v w hw => ?_
  split at hw
  · rcases List.mem_cons.mp hw with rfl | hw
    · rfl
    · exact (quiet_append (quiet_append (quiet_cancel _ _ _) (quiet_close _ _)) (quiet_grouped _) w hw).slotLock
  · cases hw

theorem spares_scrubAttendeeContributions (u : Id) : Spares (scrubAttendeeContributions u) :=
  spares_statement fun _ w hw => (quiet_append (quiet_close _ _) (quiet_grouped _) w hw).slotLock

/-! ## Ticket types -/

theorem spares_ticketTypeCapacityFit (c : Id) (capacity next excluded : Option ℕ) :
    Spares (ticketTypeCapacityFit c capacity next excluded) := by
  unfold ticketTypeCapacityFit
  split
  · exact spares_pure _
  · exact spares_select _

theorem spares_insertTicketTypeIn (args : TicketTypeWriteArgs) (t : Id) : Spares (insertTicketTypeIn args t) := by
  refine (spares_lockEvent _ _).bind fun event => ?_
  split
  · exact spares_pure _
  refine (spares_select _).bind fun counted => ?_
  split
  · exact spares_pure _
  refine Spares.unlessRefused (spares_ticketTypeCapacityFit _ _ _ _) ?_
  refine (spares_select _).bind fun next => Spares.bind (spares_inserting _ rfl) fun _ => ?_
  refine (spares_select _).bind fun record => ?_
  split
  · exact spares_abort _
  · exact spares_pure _

theorem spares_updateTicketTypeIn (c t : Id) (patch : TicketTypePatch) : Spares (updateTicketTypeIn c t patch) := by
  refine (spares_lockEvent _ _).bind fun event => ?_
  split
  · exact spares_pure _
  refine (spares_selectFor _ _).bind fun locked => ?_
  split
  · exact spares_pure _
  have hrefusal : ∀ event current, Spares (capacityChangeRefusal c t event current patch) := by
    intro event current
    unfold capacityChangeRefusal
    split
    · exact spares_pure _
    split
    · exact spares_pure _
    · exact spares_ticketTypeCapacityFit _ _ _ _
  refine Spares.unlessRefused (hrefusal _ _) ?_
  refine Spares.bind (spares_inserting _ rfl) fun _ => (spares_select _).bind fun record => ?_
  split <;> exact spares_pure _

theorem spares_deleteTicketType (c t : Id) : Spares (deleteTicketType c t) := by
  refine (spares_selectFor _ _).bind fun locked => ?_
  split
  · exact spares_pure _
  refine (spares_select _).bind fun referenced => ?_
  split
  · exact spares_pure _
  · exact Spares.bind (spares_write rfl) fun _ => spares_pure _

theorem spares_createEvent (event : Event) (types : List (Id × TicketTypeColumns)) : Spares (createEvent event types) := by
  induction types with
  | nil => exact spares_inserting _ rfl
  | cons t types ih => exact Spares.bind ih fun _ => spares_inserting _ rfl

/-! ## The guarantee -/

namespace Contract

variable (contract : Contract)

theorem fills_program (o : Operation) : Fills (contract.program o) := by
  cases o with
  | createEvent event columns ids => exact (spares_createEvent _ _).fills
  | updateEvent event => exact Spares.fills (spares_write rfl)
  | insertSlot slot => exact Spares.fills (spares_inserting _ rfl)
  | insertGuest g c => exact Spares.fills (spares_inserting _ rfl)
  | register args h => exact (fills_registerIn _).ignoring
  | registerWalkup args => exact (fills_registerWalkupTx _).ignoring
  | joinCleanup c u r now => exact (spares_joinCleanupTx _ _ _ _ _).ignoring.fills
  | claimSlot c u slot r now => exact (fills_claimSlot _ _ _).ignoring
  | leaveCleanup c u now => exact (spares_leaveCleanup _ _ _).ignoring.fills
  | releaseSlot c u => exact (spares_releaseSlot _ _).ignoring.fills
  | joinWaitlist args => exact (spares_joinWaitlistIn _ _).ignoring.fills
  | leaveWaitlist pick c t x => exact (spares_cancelWaitlistEntriesIn _ _ _ _).ignoring.fills
  | offerNextWaitlistEntry t now dbNow window skipped =>
    exact (spares_offerNextWaitlistEntry _ _ _ _ _ _).ignoring.fills
  | offerWaitlistEntry c w now dbNow window => exact (spares_offerWaitlistEntry _ _ _ _ _ _).ignoring.fills
  | claimWaitlistOffer args => exact (fills_claimWaitlistOffer _ _).ignoring
  | expireWaitlistOffers pick now limit skipped =>
    exact Spares.fills (Spares.ignoring (spares_statement fun _ w hw =>
      (quiet_append (quiet_close _ _) (quiet_joined _ _) w hw).slotLock))
  | cancelRegistration c r actor now => exact (spares_cancelRegistrationIn _ _ _ _).ignoring.fills
  | removeRegistration pick c r actor ban now => exact (spares_removeRegistrationIn _ _ _ _ _ _).ignoring.fills
  | transferRegistration c r t => exact (spares_transferRegistrationIn _ _ _).ignoring.fills
  | applyBan pick c u actor now => exact (spares_applyBanIn _ _ _ _ _).ignoring.fills
  | removeMember pick c u actor now => exact (spares_removeMember _ _ _ _ _).ignoring.fills
  | unbanMember c u => exact (spares_unbanMember _ _).ignoring.fills
  | cancelGuest g now => exact (spares_cancelGuest _ _).ignoring.fills
  | scrubAttendeeContributions u => exact (spares_scrubAttendeeContributions _).ignoring.fills
  | createTicketType args id => exact (spares_insertTicketTypeIn _ _).ignoring.fills
  | updateTicketType c t patch => exact (spares_updateTicketTypeIn _ _ _).ignoring.fills
  | deleteTicketType c t => exact (spares_deleteTicketType _ _).ignoring.fills

/-- Every commit, whatever runs beside it. -/
theorem filled_of_step {Init : Db → Prop} {w w' : World} {o : Option Operation}
    (h : engine.Reachable contract.program Init w) (hs : contract.Step w o w') : Db.Filled w.db w'.db := by
  have hkeeps : slotEngine.Keeps contract.program (fun _ => True) := fun o s _ =>
    slotEngine.wlp_mono (fun _ _ _ _ => trivial) (contract.fills_program o [] s)
  have happly : slotEngine.apply = engine.apply := rfl
  have hconflict : ∀ x y, slotEngine.conflict x y → engine.conflict x y := fun _ _ h => h
  have hreach : slotEngine.Reachable contract.program Init w := h.transfer happly hconflict
  have hstep : slotEngine.Step contract.program w o w' := hs.transfer happly fun _ _ _ _ _ _ _ x _ y _ => hconflict x y
  have hcommit := hreach.commits (fun _ _ => trivial) hkeeps hstep (Q := fun _ s s' => Db.Filled s s')
    (fun x _ s _ => contract.fills_program x [] s)
  cases o with
  | none => exact hcommit ▸ (Db.Spared.refl w.db).filled
  | some x => exact hcommit

end Contract

/-- The claims on every slot are within its capacity, and every claim is on a slot. -/
structure Db.SlotsWithin (s : Db) : Prop where
  within : ∀ slot x, s.slots.find? slot = some x → ∀ n ∈ x.capacity, s.claimsOn slot ≤ n
  placed : ∀ k c, s.slotClaims.find? k = some c → ∃ x, s.slots.find? c.slotId = some x

namespace Db

variable {s s' : Db}

theorem claimsOn_eq_zero {slot : Id} (hs : s.SlotsWithin) (hnone : s.slots.find? slot = none) : s.claimsOn slot = 0 := by
  refine List.length_eq_zero_iff.mpr (List.filter_eq_nil_iff.mpr fun c hc hslot => ?_)
  obtain ⟨x, hx⟩ := hs.placed _ c (Table.mem_rows_iff.mp hc)
  rw [of_decide_eq_true hslot, hnone] at hx
  cases hx

theorem SlotsWithin.filled (hs : s.SlotsWithin) (h : Filled s s') : s'.SlotsWithin := by
  constructor
  · intro slot x hx n hn
    rcases h.claims slot with hnew | ⟨y, hy, hfits⟩
    · refine Nat.le_trans hnew.claimsOn_le ?_
      cases hold : s.slots.find? slot with
      | none =>
        rw [claimsOn_eq_zero hs hold]
        exact Nat.zero_le n
      | some y =>
        cases (h.stay.find? hold).symm.trans hx
        exact hs.within slot _ hold n hn
    · cases hy.symm.trans hx
      exact hfits n hn
  · intro k c hc
    rcases h.claims c.slotId with hnew | ⟨x, hx, -⟩
    · obtain ⟨c', hc', hslot⟩ := hnew k c hc (decide_eq_true rfl)
      obtain ⟨x, hx⟩ := hs.placed k c' hc'
      rw [of_decide_eq_true hslot] at hx
      exact ⟨x, h.stay.find? hx⟩
    · exact ⟨x, hx⟩

theorem Fresh.slotsWithin (h : s.Fresh) : s.SlotsWithin := by
  refine ⟨fun slot x _ n _ => ?_, fun k c hc => ?_⟩
  · simp [claimsOn, h.slotClaims]
  · have hmem := (Table.find?_eq_some hc).1
    rw [h.slotClaims] at hmem
    cases hmem

theorem claims_of_user_le_one (s : Db) (c u : Id) :
    (s.slotClaims.rows.filter fun x => decide (x.cleanupId = c ∧ x.userId = u)).length ≤ 1 := by
  rw [Table.length_filter_le_one_iff]
  intro k k' r r' hr hr' hp hp'
  have hkey : ∀ {k r}, s.slotClaims.find? k = some r → decide (r.cleanupId = c ∧ r.userId = u) = true → k = (c, u) := by
    intro k r hr hp
    rw [← Table.key_of_find? hr]
    exact Prod.ext (of_decide_eq_true hp).1 (of_decide_eq_true hp).2
  rw [hkey hr hp, hkey hr' hp']

end Db

namespace Contract

theorem slotsWithin_of_reachable (contract : Contract) {w : World} (h : contract.Reachable w) : w.db.SlotsWithin := by
  induction h with
  | init s hs => exact hs.slotsWithin
  | step h hs ih => exact ih.filled (contract.filled_of_step h hs)

/-- From whatever database, no step makes the claims on a slot exceed its capacity; from a fresh one they never do. A
user has one claim at an event at most. -/
theorem slot_capacity (contract : Contract) :
    (∀ (w w' : World) (o : Option Operation), engine.Reachable contract.program (fun _ => True) w →
      contract.Step w o w' → ∀ slot ∈ w'.db.slots.rows, ∀ n ∈ slot.capacity,
        w'.db.claimsOn slot.id ≤ max (w.db.claimsOn slot.id) n) ∧
    (∀ w : World, contract.Reachable w → ∀ slot ∈ w.db.slots.rows, ∀ n ∈ slot.capacity,
      w.db.claimsOn slot.id ≤ n) ∧
    ∀ (w : World), engine.Reachable contract.program (fun _ => True) w → ∀ c u,
      (w.db.slotClaims.rows.filter fun x => decide (x.cleanupId = c ∧ x.userId = u)).length ≤ 1 := by
  refine ⟨fun w w' o h hs slot hslot n hn => ?_, fun w h slot hslot n hn => ?_, fun w _ c u =>
    w.db.claims_of_user_le_one c u⟩
  · have hfind := Table.mem_rows_iff.mp hslot
    rcases (contract.filled_of_step h hs).claims slot.id with hnew | ⟨x, hx, hfits⟩
    · exact Nat.le_trans hnew.claimsOn_le (Nat.le_max_left _ _)
    · cases hx.symm.trans hfind
      exact Nat.le_trans (hfits n hn) (Nat.le_max_right _ _)
  · exact (contract.slotsWithin_of_reachable h).within slot.id slot (Table.mem_rows_iff.mp hslot) n hn

/-- One place: the first claim takes it, the second finds it full, and a registration gets it after a release. -/
def onePlace : List Operation :=
  [.createEvent ⟨1, .upcoming, .public, none, none, none, 100000, none, none⟩ [] [], .insertSlot ⟨3, 1, some 1⟩,
    .claimSlot 1 7 3 40 10, .claimSlot 1 8 3 41 11, .releaseSlot 1 7,
    .register ⟨1, .user 9, none, 1, none, some 3, .self, "k", none, none, 12, 42⟩ rfl]

set_option maxRecDepth 4000 in
theorem slot_capacity_onePlace : ∃ w : World, (byWindow 14400000).Reachable w ∧
    w.db.slotClaims.rows.map (fun c => (c.userId, c.slotId)) = [(9, 3)] ∧
    ∀ slot ∈ w.db.slots.rows, ∀ n ∈ slot.capacity, w.db.claimsOn slot.id ≤ n :=
  ⟨_, reachable_run _ onePlace, by decide +kernel, (slot_capacity _).2.1 _ (reachable_run _ onePlace)⟩

end Contract

end Civfix.Attendance
