import Civfix.WaitlistRules

/-! # Cancelling, banning, transferring and ticket types keep the ledger and the bans

The ban is the one operation that breaks ban safety on the way: its row goes in before the
places are taken away. Until the last of them is gone, safety is claimed for everybody else. -/
namespace Civfix.Attendance

open KeyedTables LockedTransactions

namespace Views

variable {V : Views} {held : List Lock} {s : Db} {owed : Id → ℤ}

theorem sum_held_of_registered {rs : List Registration} (hr : ∀ r ∈ rs, r.status = .registered) (y : Id) :
    (seatsFor (rs.filterMap Registration.held) y).sum = (rs.map (Registration.seatsOn y)).sum :=
  sum_seatsFor_filterMap rs _ _ y (fun r h => Registration.seatsOn_eq (hr r h) y)

/-! ## Cancelling -/

theorem cancelRegistrationIn_keeps {c id : Id} {actorId : Option Id} {now : Instant} (hs : V.Inv (fun _ => 0) s) :
    V.Keeps held s (cancelRegistrationIn c id actorId now) := by
  have hq := fun v => quiet_append (quiet_cancel now actorId (cancelRegistrationIn.target c id v).toList)
    (quiet_joined (fun _ => 0) ((cancelRegistrationIn.target c id v).toList.filterMap Registration.held))
  refine wlp_bind (wlp_statement (fun v => disciplined_of_quiet (fun w hw => (hq v w hw).1))
    (fun v held1 hv h1 _ hrow => ?_))
  have hs1 : V.Inv (fun _ => 0) (engine.applyAll s
      ((cancelRegistrationIn.target c id v).toList.map (fun r => .cancelRegistration r.id now actorId) ++
      releaseJoined (fun _ => 0) ((cancelRegistrationIn.target c id v).toList.filterMap Registration.held))) := by
    refine hs.quietAll (hq v) ?_
    have ht : ∀ r ∈ (cancelRegistrationIn.target c id v).toList, v.registrations.find? id = some r ∧
        r.status = .registered := by
      intro r hr
      simp only [cancelRegistrationIn.target, Option.mem_toList, Option.filter_eq_some_iff,
        Bool.and_eq_true, decide_eq_true_eq] at hr
      exact ⟨hr.1, hr.2.2⟩
    have hrows := registrations_batch hv (fun r hr => (Table.find?_eq_some (ht r hr).1).1) hrow
      (fun r hr => ⟨now, actorId, List.mem_append_left _ (List.mem_map_of_mem hr)⟩)
    have hone : ((cancelRegistrationIn.target c id v).toList.filterMap Registration.held).map (·.1) |>.Nodup := by
      cases cancelRegistrationIn.target c id v with
      | none => simp
      | some r => cases hh : r.held <;> simp [hh]
    have hids : ((cancelRegistrationIn.target c id v).toList.map (·.id)).Nodup := by
      cases cancelRegistrationIn.target c id v <;> simp
    have hb := hs.books.settle (cancelRegistrationIn.target c id v).toList []
      ((cancelRegistrationIn.target c id v).toList.filterMap Registration.held) hids hrows (by simp) (by simp)
      now actorId .cancelled (fun _ => le_refl _)
      (fun y => by simpa using sum_held_of_registered (fun r hr => (ht r hr).2) y)
    rw [releaseJoined_eq_grouped _ hone]
    simpa only [List.map_nil, List.append_nil] using hb
  refine wlp_bind (loadRegistrationById_rule (fun held2 r _ => ?_))
  split <;> exact wlp_pure hs1

theorem cancelGuest_keeps {g : Id} {now : Instant} (hs : V.Inv (fun _ => 0) s) :
    V.Keeps held s (cancelGuest g now) := by
  have hq : ∀ v, ∀ w ∈ (if cancelGuest.live g v then .cancelGuest g now ::
      ((cancelGuest.seated g v).map (fun r => (.cancelRegistration r.id now none : Write)) ++
        (cancelGuest.queued g v).map (fun w => (.closeWaitlist w.id .cancelled : Write)) ++
        releaseGrouped (cancelGuest.released g v)) else []), w.Quiet := by
    intro v w hw
    split at hw
    · rcases List.mem_cons.mp hw with rfl | hw
      · exact ⟨rfl, fun _ => rfl⟩
      · exact quiet_append (quiet_append (quiet_cancel now none _) (quiet_close .cancelled _)) (quiet_grouped _) w hw
    · cases hw
  refine wlp_statement (fun v => disciplined_of_quiet (fun w hw => (hq v w hw).1)) (fun v held1 hv h1 _ hrow => ?_)
  refine hs.quietAll (hq v) ?_
  split at hrow
  · next hlive =>
    have hbooks : (s.apply (.cancelGuest g now)).Books V.exact (fun _ => 0) := hs.books.of_eq rfl rfl rfl
    have hrs := registrations_batch hv (fun r hr => List.mem_of_mem_filter hr) hrow
      (fun r hr => ⟨now, none, List.mem_cons_of_mem _
        (List.mem_append_left _ (List.mem_append_left _ (List.mem_map_of_mem hr)))⟩)
    have hes := waitlist_batch hv (fun w hw => List.mem_of_mem_filter hw) hrow
      (fun w hw => ⟨.cancelled, List.mem_cons_of_mem _
        (List.mem_append_left _ (List.mem_append_right _ (List.mem_map_of_mem hw)))⟩)
    rw [if_pos hlive]
    refine hbooks.settle _ _ _ ((List.filter_sublist.map _).nodup v.registrations.nodup) hrs
      ((List.filter_sublist.map _).nodup v.waitlist.nodup) hes now none .cancelled (fun _ => le_refl _) (fun y => ?_)
    rw [cancelGuest.released, seatsFor_append, List.sum_append]
    congr 1
    · exact sum_held_of_registered (fun r hr => by simpa using (by simpa using (List.mem_filter.mp hr).2 : _ ∧ _).2) y
    · exact sum_held_of_active hs.books.toWellFormed hes
        (fun w hw => by simpa using (by simpa using (List.mem_filter.mp hw).2 : _ ∧ _).2) y
  · next hlive =>
    rw [if_neg hlive]
    exact hs.books

theorem scrubAttendeeContributions_keeps {u : Id} (hs : V.Inv (fun _ => 0) s) :
    V.Keeps held s (scrubAttendeeContributions u) := by
  have hq := fun v => quiet_append (quiet_close .cancelled (scrubAttendeeContributions.queued u v))
    (quiet_grouped ((scrubAttendeeContributions.queued u v).filterMap WaitlistEntry.held))
  refine wlp_statement (fun v => disciplined_of_quiet (fun w hw => (hq v w hw).1)) (fun v held1 hv h1 _ hrow => ?_)
  refine hs.quietAll (hq v) ?_
  have hes : ∀ w ∈ scrubAttendeeContributions.queued u v, s.waitlist.find? w.id = some w :=
    waitlist_batch hv (fun w hw => List.mem_of_mem_filter hw) hrow
      (fun w hw => ⟨.cancelled, List.mem_append_left _ (List.mem_map_of_mem hw)⟩)
  have hactive : ∀ w ∈ scrubAttendeeContributions.queued u v, w.Active := by
    intro w hw
    have := (List.mem_filter.mp hw).2
    simp only [decide_eq_true_eq] at this
    exact this.2
  exact hs.books.settle [] (scrubAttendeeContributions.queued u v) _ (by simp) (by simp)
    ((List.filter_sublist.map _).nodup v.waitlist.nodup) hes
    0 none .cancelled (fun _ => le_refl _)
    (fun y => by simpa using sum_held_of_active hs.books.toWellFormed hes hactive y)

/-! ## Banning -/

/-- In the middle of a ban: everybody but the user is safe, and the ban row is in. -/
structure Banning (V : Views) (c u : Id) (s : Db) : Prop where
  books : s.Books V.exact (fun _ => 0)
  others : s.SafeFor (fun x y => ¬ (x = c ∧ y = u))
  banned : s.isBanned c u
  kept : ∀ x y, V.kept x y → s.isBanned x y

theorem Banning.releasing {c u : Id} (h : Banning V c u s) {s' : Db} (hb : s'.Books V.exact (fun _ => 0))
    (hg : Db.NoGain s s') (hbans : s'.bans = s.bans) : Banning V c u s' :=
  ⟨hb, h.others.mono hg, by simpa only [Db.isBanned, hbans] using h.banned,
    fun x y hk => by simpa only [Db.isBanned, hbans] using h.kept x y hk⟩

theorem insertBan_rule {c u actorId : Id} (hev : ⟨.event c, .noKeyUpdate⟩ ∈ held) (hs : V.Inv (fun _ => 0) s)
    {Q : List Lock → Unit → Db → Prop} (h : ∀ held' s', held ⊆ held' → Banning V c u s' → Q held' () s') :
    V.wlp held s (inserting (fun s => if (s.events.find? c).isNone then .violated .foreignKey
      else if s.isBanned c u then .ignored else .ok) (.insertBan ⟨c, u, actorId⟩)) Q := by
  refine wlp_inserting (disciplined_of_mem hev rfl (le_refl _)) ?_ ?_
  · intro v held' _ hsub _ _
    refine h held' _ hsub ⟨hs.books.of_eq rfl rfl rfl, hs.bans.insertBan ⟨c, u, actorId⟩, ?_, fun x y hk => ?_⟩
    · simp [Db.isBanned, Db.apply, Table.find?_insert]
    · have hold := hs.kept x y hk
      simp only [Db.isBanned, Db.apply, Table.find?_insert] at hold ⊢
      split
      · rfl
      · exact hold
  · intro v held' hv hsub hrow hc
    have hbanned : v.isBanned c u = true := by
      split at hc
      · cases hc
      · split at hc
        · assumption
        · cases hc
    have hl : (⟨.ban c u, .update⟩ : Lock) ∈ held' := hrow (by simp [Write.rowLocks])
    have heq : v.bans.find? (c, u) = s.bans.find? (c, u) := (V.agree hv).2 _ hl (by simp [LockMode.rank])
    exact h held' s hsub ⟨hs.books, fun x y _ => hs.bans x y trivial,
      by simpa only [Db.isBanned, heq] using hbanned, hs.kept⟩

theorem deleteMember_rule {c u : Id} {guard : Db → Bool} {α : Type} {returning : Db → α} {P : Db → Prop} (hs : P s)
    (hP : P (s.apply (.deleteMember c u))) {Q : List Lock → α → Db → Prop}
    (h : ∀ held' r s', held ⊆ held' → P s' → Q held' r s') :
    V.wlp held s (statement (fun _ => []) (fun v => if guard v then [.deleteMember c u] else []) returning) Q :=
  wlp_guarded rfl (fun _ held' _ hsub _ _ => h held' _ _ hsub hP) (fun _ held' _ hsub _ => h held' _ s hsub hs)

/-- Under the event lock of the ban, the entries the statement closes are all there are. -/
theorem banWaitlist_rule {pick : Id → ℕ} {c u : Id} (hev : ⟨.event c, .noKeyUpdate⟩ ∈ held) (hs : Banning V c u s)
    {Q : List Lock → ℕ × List Id → Db → Prop}
    (h : ∀ held' r s', held ⊆ held' → Banning V c u s' → s'.waitlist.All (fun w => ¬ w.PlaceOf c u) → Q held' r s') :
    V.wlp held s (cancelWaitlistEntriesIn pick c none (.user u)) Q := by
  refine cancelWaitlistEntriesIn_rule hs.books (fun _ => le_refl _) (fun v held' r s' hv hsub hb hg hclosed hbans => ?_)
  refine h held' r s' hsub (hs.releasing hb hg hbans) ?_
  intro id w hw hplace
  obtain ⟨w1, hw1, hp1⟩ := (hg.places c).waitlist u id w hw hplace
  obtain ⟨w2, hw2, hp2⟩ := (noNewPlaces hv (hsub hev) (by decide)).waitlist u id w1 hw1 hp1
  have hid : w2.id = id := Table.key_of_find? hw2
  have hmem : w2 ∈ cancelWaitlistEntriesIn.leaving c none (.user u) v := by
    simp only [cancelWaitlistEntriesIn.leaving, List.mem_filter, decide_eq_true_eq]
    exact ⟨(Table.find?_eq_some hw2).1, hp2.1, hp2.2.2, by simp, hp2.2.1⟩
  have hcl := hclosed w2 hmem
  rw [hid, hw] at hcl
  cases hcl
  exact WaitlistEntry.not_active_close _ _ hplace.2.2

theorem banRegistrations_rule {c u actorId : Id} {now : Instant} (hev : ⟨.event c, .noKeyUpdate⟩ ∈ held)
    (hs : Banning V c u s) (hw : s.waitlist.All (fun w => ¬ w.PlaceOf c u))
    {Q : List Lock → List (Id × Option Id) → Db → Prop}
    (h : ∀ held' r s', held ⊆ held' → Banning V c u s' → s'.waitlist.All (fun w => ¬ w.PlaceOf c u) →
      s'.registrations.All (fun r => ¬ r.PlaceOf c u) → Q held' r s') :
    V.wlp held s (statement (fun _ => [])
      (fun s => (applyBanIn.seated c u s).map (fun r => .cancelRegistration r.id now (some actorId)) ++
        releaseGrouped ((applyBanIn.seated c u s).filterMap Registration.held))
      (fun s => (applyBanIn.seated c u s).map (fun r => (r.id, r.ticketTypeId)))) Q := by
  have hq := fun v => quiet_append (quiet_cancel now (some actorId) (applyBanIn.seated c u v))
    (quiet_grouped ((applyBanIn.seated c u v).filterMap Registration.held))
  refine wlp_statement (fun v => disciplined_of_quiet (fun w hw => (hq v w hw).1)) (fun v held' hv hsub _ hrow => ?_)
  have hn : ((applyBanIn.seated c u v).map (·.id)).Nodup := (List.filter_sublist.map _).nodup v.registrations.nodup
  have hrs : ∀ r ∈ applyBanIn.seated c u v, s.registrations.find? r.id = some r :=
    registrations_batch hv (fun r hr => List.mem_of_mem_filter hr) hrow
      (fun r hr => ⟨now, some actorId, List.mem_append_left _ (List.mem_map_of_mem hr)⟩)
  have hreg : ∀ r ∈ applyBanIn.seated c u v, r.status = .registered := by
    intro r hr
    have := (List.mem_filter.mp hr).2
    simp only [decide_eq_true_eq] at this
    exact this.2.2
  have hg := Db.noGain_quietAll s _ (fun w hw => (hq v w hw).1)
  have hb := hs.books.settle (applyBanIn.seated c u v) [] _ hn hrs (by simp) (by simp) now (some actorId) .cancelled
    (fun _ => le_refl _) (fun y => by simpa using sum_held_of_registered hreg y)
  simp only [List.map_nil, List.append_nil] at hb
  refine h held' _ _ hsub (hs.releasing hb hg (Db.bans_applyAll s _ (fun w hw => (hq v w hw).2)))
    (((hg.places c).waitlist u).all_not hw) ?_
  intro id r hr hplace
  obtain ⟨r1, hr1, hp1⟩ := (hg.places c).registrations u id r hr hplace
  obtain ⟨r2, hr2, hp2⟩ := (noNewPlaces hv (hsub hev) (by decide)).registrations u id r1 hr1 hp1
  have hid : r2.id = id := Table.key_of_find? hr2
  have hmem : r2 ∈ applyBanIn.seated c u v := by
    simp only [applyBanIn.seated, List.mem_filter, decide_eq_true_eq]
    exact ⟨(Table.find?_eq_some hr2).1, hp2⟩
  have hin : id ∈ (applyBanIn.seated c u v).map (·.id) := List.mem_map.mpr ⟨r2, hmem, hid⟩
  rw [engine.applyAll_append, releaseGrouped, Db.registrations_releaseAll, Db.registrations_cancelAll,
    Table.find?_modifyAll _ hn, if_pos hin] at hr
  obtain ⟨r3, -, rfl⟩ := Option.map_eq_some_iff.mp hr
  simp [Registration.PlaceOf, Registration.cancel] at hplace

theorem applyBanIn_rule {pick : Id → ℕ} {c u actorId : Id} {now : Instant} (hs : V.Inv (fun _ => 0) s)
    {Q : List Lock → AppliedBan → Db → Prop}
    (h : ∀ held' r s', held ⊆ held' → V.Inv (fun _ => 0) s' → s'.isBanned c u → Q held' r s') :
    V.wlp held s (applyBanIn pick c u actorId now) Q := by
  refine wlp_bind (wlp_selectFor (fun _ held1 _ h1 hl => ?_))
  have hev : ⟨.event c, .noKeyUpdate⟩ ∈ held1 := hl (by simp)
  refine wlp_bind (insertBan_rule hev hs (fun held2 s2 h2 hs2 => ?_))
  have hdel : Banning V c u (s2.apply (.deleteMember c u)) :=
    hs2.releasing (hs2.books.of_eq rfl rfl rfl) (Db.noGain_quiet s2 rfl) rfl
  refine wlp_bind (deleteMember_rule hs2 hdel (fun held3 _ s3 h3 hs3 => ?_))
  refine wlp_bind (banWaitlist_rule (h3 (h2 hev)) hs3 (fun held4 _ s4 h4 hs4 hw4 => ?_))
  refine wlp_bind (banRegistrations_rule (h4 (h3 (h2 hev))) hs4 hw4 (fun held5 _ s5 h5 hs5 hw5 hr5 => ?_))
  refine wlp_bind (wlp_modifying (fun _ => disciplined_of_quiet (by simp [Write.eventLock])) ?_)
  intro v held6 _ h6 _
  have hs6 : Banning V c u (s5.apply (.deleteSlotClaim c u)) :=
    hs5.releasing (hs5.books.of_eq rfl rfl rfl) (Db.noGain_quiet s5 rfl) rfl
  have hgone : (s5.apply (.deleteSlotClaim c u)).slotClaims.All (fun x => ¬ x.PlaceOf c u) := by
    rintro k x hx ⟨rfl, rfl⟩
    have hk := Table.key_of_find? hx
    subst hk
    simp [Db.apply, Table.find?_remove] at hx
  refine wlp_pure (h held6 _ _ ?_ ⟨hs6.books, hs6.others.complete ⟨hr5, hw5, hgone⟩, hs6.kept⟩ hs6.banned)
  exact fun x hx => h6 (h5 (h4 (h3 (h2 (h1 hx)))))

theorem removeRegistrationIn_keeps {pick : Id → ℕ} {c id actorId : Id} {ban : Bool} {now : Instant}
    (hs : V.Inv (fun _ => 0) s) : V.Keeps held s (removeRegistrationIn pick c id actorId ban now) := by
  refine wlp_bind (wlp_select (fun _ held1 _ _ => ?_))
  split
  · exact wlp_pure hs
  split
  · exact wlp_bind (wlp_mono (cancelRegistrationIn_keeps hs) (fun _ _ _ hs' => wlp_pure hs'))
  refine wlp_bind (applyBanIn_rule hs (fun held2 _ s2 _ hs2 _ => ?_))
  split
  · exact wlp_bind (wlp_mono (cancelRegistrationIn_keeps hs2) (fun _ _ _ hs' => wlp_pure hs'))
  refine wlp_bind (loadRegistrationById_rule (fun held3 r _ => ?_))
  split
  · exact wlp_pure hs2
  · exact wlp_pure hs2

theorem removeMember_keeps {pick : Id → ℕ} {c u actorId : Id} {now : Instant} (hs : V.Inv (fun _ => 0) s) :
    V.Keeps held s (removeMember pick c u actorId now) := by
  refine wlp_bind (lockEvent_rule (fun held1 e _ _ => ?_))
  split
  · exact wlp_pure hs
  split
  · exact wlp_pure hs
  have hdel : V.Inv (fun _ => 0) (s.apply (.deleteMember c u)) :=
    hs.quiet ⟨rfl, fun _ => rfl⟩ (hs.books.of_eq rfl rfl rfl)
  refine wlp_bind (deleteMember_rule hs hdel (fun held2 b s2 _ hs2 => ?_))
  split
  · exact wlp_bind (applyBanIn_rule hs2 (fun _ _ _ _ hs3 _ => wlp_pure hs3))
  · exact wlp_pure hs2

theorem unbanMember_keeps {c u : Id} (hs : V.Inv (fun _ => 0) s) (hk : ¬ V.kept c u) :
    V.Keeps held s (unbanMember c u) := by
  refine wlp_guarded rfl (fun _ _ _ _ _ _ => ?_) (fun _ _ _ _ _ => hs)
  refine ⟨hs.books.of_eq rfl rfl rfl, hs.bans.mono (Db.noGain_quiet s rfl), fun x y hxy => ?_⟩
  have hne : (x, y) ≠ (c, u) := by
    rintro ⟨⟩
    exact hk hxy
  simpa only [Db.isBanned, Db.apply, Table.find?_remove, hne, ↓reduceIte] using hs.kept x y hxy

/-! ## Transferring -/

theorem seatsOn_of_registered {r : Registration} (h : r.status = .registered) (y : Id) :
    (r.seatsOn y : ℤ) = r.ticketTypeId.elim 0 (fun t => Db.owing t r.partySize y) := by
  cases ht : r.ticketTypeId with
  | none => simp [Registration.seatsOn, ht]
  | some t =>
    by_cases hy : y = t
    · subst hy
      simp [Registration.seatsOn, ht, h]
    · have hy' : ¬ t = y := fun he => hy he.symm
      simp [Registration.seatsOn, ht, Db.owing_of_ne hy, hy']

theorem hasType_releaseSeats {c t x : Id} {n : ℕ} (h : s.HasType c t) :
    (s.apply (.releaseSeats x n)).HasType c t :=
  h.mono (.modify .refl t _ x _ (TicketType.release_id n) (fun _ => rfl))

theorem hasType_reserveSeats {c t x : Id} {n : ℕ} (h : s.HasType c t) :
    (s.apply (.reserveSeats x n)).HasType c t :=
  h.mono (.modify .refl t _ x _ (TicketType.reserve_id n) (fun _ => rfl))

/-- The old type lets go before the row moves. A release that misses its ticket type cannot
happen in exact books, and loose books forgive it. -/
theorem releasePrevious_rule {c t : Id} {id : Id} {r : Registration} (hs : V.Inv (Db.owing t r.partySize) s)
    (hr : s.registrations.find? id = some r) (hreg : r.status = .registered) (hc : r.cleanupId = c)
    (ht : s.HasType c t) {Q : List Lock → Unit → Db → Prop}
    (h : ∀ held' s', V.Inv (fun y => Db.owing t r.partySize y - r.seatsOn y) s' →
      s'.registrations = s.registrations → s'.HasType c t → Q held' () s') :
    V.wlp held s (transferRegistrationIn.releasePrevious c r) Q := by
  unfold transferRegistrationIn.releasePrevious
  split
  · next hn =>
    refine wlp_pure (h held s (hs.congr (fun y => ?_)) rfl ht)
    rw [seatsOn_of_registered hreg, hn]
    exact sub_zero _
  next o ho =>
  have hseats : ∀ y, (r.seatsOn y : ℤ) = Db.owing o r.partySize y := fun y => by
    rw [seatsOn_of_registered hreg, ho]
    rfl
  refine wlp_guarded rfl (fun v held1 _ _ _ _ => ?_) (fun v held1 hv _ hg => ?_)
  · have hle := Db.Books.seatsOn_le_held hr o
    have ho' := hseats o
    rw [Db.owing_self] at ho'
    have hpos : 0 ≤ Db.owing t r.partySize o := by
      unfold Db.owing
      split <;> omega
    have hb := hs.books.release (t := o) (n := r.partySize) (by omega)
    refine h held1 _ ((hs.quiet ⟨rfl, fun _ => rfl⟩ hb).congr (fun y => ?_)) rfl (hasType_releaseSeats ht)
    rw [hseats y]
  · refine h held1 s (hs.of_bans (hs.books.forgive (fun y => by omega) (fun hex => ?_)) hs.bans rfl) rfl ht
    obtain ⟨x, hx, hxc⟩ := hs.books.registrations id r hr o (by simp [ho])
    rw [V.strict hex hv, Option.mem_def.mp hx] at hg
    simp [hxc, hc] at hg

theorem moveParty_keeps {c id t : Id} {r : Registration} (hs : V.Inv (Db.owing t r.partySize) s)
    (hr : s.registrations.find? id = some r) (hreg : r.status = .registered) (hc : r.cleanupId = c)
    (ht : s.HasType c t) : V.Keeps held s (transferRegistrationIn.moveParty c id t r) := by
  refine wlp_bind (releasePrevious_rule hs hr hreg hc ht (fun held1 s1 hs1 hsame ht1 => ?_))
  refine wlp_bind (wlp_modifying (fun _ => disciplined_of_quiet (by simp [Write.eventLock])) ?_)
  intro v held2 _ _ _
  have hb := hs1.books.moveRegistration (hsame ▸ hr) (hc ▸ ht1)
  have hs2 : V.Inv (fun _ => 0) (s1.apply (.moveRegistration id t)) := by
    refine (hs1.quiet ⟨rfl, fun _ => rfl⟩ hb).congr (fun y => ?_)
    have hmoved : ((r.move t).seatsOn y : ℤ) = Db.owing t r.partySize y := seatsOn_of_registered (r := r.move t) hreg y
    omega
  refine wlp_bind (loadRegistrationById_rule (fun held3 _ _ => ?_))
  split
  · exact wlp_pure hs2
  · exact wlp_pure hs2

theorem transferRegistrationIn_keeps {c id t : Id} (hs : V.Inv (fun _ => 0) s) :
    V.Keeps held s (transferRegistrationIn c id t) := by
  refine wlp_bind (lockEvent_rule (fun held1 e _ _ => ?_))
  split
  · exact wlp_pure hs
  refine wlp_bind (wlp_selectFor (fun v held2 hv h2 hl => ?_))
  split
  · exact wlp_pure hs
  next r hr =>
  rw [registration_eq (m := .update) hv (hl (by simp)) (by decide), Option.filter_eq_some_iff] at hr
  simp only [Bool.and_eq_true, decide_eq_true_eq] at hr
  split
  · exact wlp_pure hs
  refine wlp_bind (wlp_selectFor (fun _ held3 _ _ _ => ?_))
  split
  · exact wlp_pure hs
  split
  · exact wlp_pure hs
  refine wlp_bind (wlp_guarded rfl (fun v4 held4 hv4 _ hrow hg => ?_) (fun _ held4 _ _ hg => ?_))
  · have hlock : ⟨.ticketType t, .noKeyUpdate⟩ ∈ held4 := hrow (by simp [Write.rowLocks])
    rw [hg]
    simp only [transferable, ticketType_eq hv4 hlock (by decide), Option.any_eq_true, Bool.and_eq_true,
      Option.all_eq_true, decide_eq_true_eq] at hg
    obtain ⟨x, hx, hxc, hcap⟩ := hg
    have hb := hs.books.reserve (n := r.partySize) hx (fun n hn => hcap n hn)
    simp only [Bool.not_true, Bool.false_eq_true, ↓reduceIte]
    exact moveParty_keeps ((hs.quiet ⟨rfl, fun _ => rfl⟩ hb).congr (fun y => (zero_add _).symm)) hr.1 hr.2.2 hr.2.1
      (hasType_reserveSeats ⟨x, hx, hxc⟩)
  · rw [hg]
    exact wlp_pure hs

end Views

end Civfix.Attendance
