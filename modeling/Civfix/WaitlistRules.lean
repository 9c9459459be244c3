import Civfix.RegistrationRules

/-! # The waitlist keeps the ledger and the bans

Leaving, offering, claiming and expiring. An active entry is unique for its ticket type and
subject, so a user who leaves releases one row per type; an expiry sweep has no such bound,
and its rule asks for it when the books are to stay exact. -/
namespace Civfix.Attendance

open KeyedTables LockedTransactions

namespace Views

variable {V : Views} {held : List Lock} {s : Db} {owed : Id → ℤ}

theorem sum_held_of_active {es : List WaitlistEntry} (hs : s.WellFormed)
    (hes : ∀ w ∈ es, s.waitlist.find? w.id = some w) (ha : ∀ w ∈ es, w.Active) (y : Id) :
    (seatsFor (es.filterMap WaitlistEntry.held) y).sum = (es.map (WaitlistEntry.seatsOn y)).sum :=
  sum_seatsFor_filterMap es _ _ y
    (fun w hw => WaitlistEntry.seatsOn_eq (ha w hw) (hs.waitlist w.id w (hes w hw)).2 y)

/-- One subject has at most one active entry per ticket type. -/
theorem nodup_types_of_subject {es : List WaitlistEntry} {x : Subject} (hs : s.WellFormed)
    (hn : (es.map (·.id)).Nodup) (hes : ∀ w ∈ es, s.waitlist.find? w.id = some w) (ha : ∀ w ∈ es, w.Active)
    (hx : ∀ w ∈ es, w.subject = x) : ((es.filterMap WaitlistEntry.held).map (·.1)).Nodup := by
  have hinj : ∀ w ∈ es, ∀ w' ∈ es, w.ticketTypeId = w'.ticketTypeId → w.id = w'.id := by
    intro w hw w' hw' ht
    refine hs.queue w.id w'.id w w' (hes w hw) (hes w' hw') (w.ticketTypeId, x) ?_ ?_
    · simp [WaitlistEntry.index, ha w hw, hx w hw]
    · simp [WaitlistEntry.index, ha w' hw', hx w' hw', ht]
  have htypes : (es.map (·.ticketTypeId)).Nodup := by
    rw [List.Nodup, List.pairwise_map] at hn ⊢
    refine List.Pairwise.imp_of_mem (fun hw hw' hne he => hne ?_) hn
    exact hinj _ hw _ hw' he
  refine List.Nodup.sublist ?_ htypes
  clear htypes hinj hn hes ha hx
  induction es with
  | nil => simp
  | cons w es ih =>
    cases hh : w.held with
    | none =>
      simp only [List.filterMap_cons, hh, List.map_cons]
      exact ih.cons _
    | some p =>
      have hp : p.1 = w.ticketTypeId := by
        unfold WaitlistEntry.held at hh
        split at hh
        · cases hh
          rfl
        · cases hh
      simp only [List.filterMap_cons, hh, List.map_cons, hp]
      exact ih.cons_cons _

/-- Entries of one subject leave the queue; those the statement saw are closed after it. -/
theorem cancelWaitlistEntriesIn_rule {pick : Id → ℕ} {c : Id} {t : Option Id} {x : Subject}
    (hs : s.Books V.exact owed) (hpos : ∀ y, 0 ≤ owed y) {Q : List Lock → ℕ × List Id → Db → Prop}
    (h : ∀ v held' r s', V.rel held' v s → held ⊆ held' → s'.Books V.exact owed → Db.NoGain s s' →
      (∀ w ∈ cancelWaitlistEntriesIn.leaving c t x v, s'.waitlist.find? w.id = some (w.close .cancelled)) →
      s'.bans = s.bans → Q held' r s') :
    V.wlp held s (cancelWaitlistEntriesIn pick c t x) Q := by
  have hq := fun v => quiet_append (quiet_close .cancelled (cancelWaitlistEntriesIn.leaving c t x v))
    (quiet_joined pick ((cancelWaitlistEntriesIn.leaving c t x v).filterMap WaitlistEntry.held))
  refine wlp_statement (fun v => disciplined_of_quiet (fun w hw => (hq v w hw).1)) (fun v held' hv hsub _ hrow => ?_)
  have hn : ((cancelWaitlistEntriesIn.leaving c t x v).map (·.id)).Nodup :=
    (List.filter_sublist.map _).nodup v.waitlist.nodup
  have hp : ∀ w ∈ cancelWaitlistEntriesIn.leaving c t x v, w.Active ∧ w.subject = x := by
    intro w hw
    have := (List.mem_filter.mp hw).2
    simp only [decide_eq_true_eq] at this
    exact ⟨this.2.1, this.2.2.2⟩
  have hes : ∀ w ∈ cancelWaitlistEntriesIn.leaving c t x v, s.waitlist.find? w.id = some w :=
    waitlist_batch hv (fun w hw => List.mem_of_mem_filter hw) hrow
      (fun w hw => ⟨.cancelled, List.mem_append_left _ (List.mem_map_of_mem hw)⟩)
  refine h v held' _ _ hv hsub ?_ (Db.noGain_quietAll s _ (fun w hw => (hq v w hw).1)) ?_
    (Db.bans_applyAll s _ (fun w hw => (hq v w hw).2))
  · refine hs.closeJoined hn hes .cancelled pick (fun y => ?_) hpos (fun _ => ?_)
    · rw [sum_held_of_active hs.toWellFormed hes (fun w hw => (hp w hw).1) y]
    · exact nodup_types_of_subject hs.toWellFormed hn hes (fun w hw => (hp w hw).1) (fun w hw => (hp w hw).2)
  · intro w hw
    rw [engine.applyAll_append, releaseJoined, Db.waitlist_releaseAll]
    rw [Db.waitlist_closeAll, Table.find?_modifyAll _ hn, if_pos (List.mem_map_of_mem hw), hes w hw]
    rfl

/-- The hold of one locked entry is given back: the seats the entry still holds, or those that
are owed because the caller has just claimed it. -/
theorem releaseWaitlistHold_rule {c id : Id} {w : WaitlistEntry} {m : LockMode} (hl : ⟨.waitlist id, m⟩ ∈ held)
    (hm : 1 ≤ m.rank) (hs : V.Inv owed s) (hw : s.waitlist.find? id = some w) (hc : w.cleanupId = c)
    (ho : w.offeredAt.isSome) (hbal : ∀ y, owed y + w.seatsOn y = Db.owing w.ticketTypeId w.partySize y)
    {Q : List Lock → Unit → Db → Prop} (h : ∀ held' s', held ⊆ held' → V.Inv (fun _ => 0) s' → Q held' () s') :
    V.wlp held s (releaseWaitlistHold c id) Q := by
  have hq := fun v => quiet_append (quiet_close .expired (releaseWaitlistHold.expired c id v))
    (quiet_joined (fun _ => 0) ((releaseWaitlistHold.expired c id v).filterMap WaitlistEntry.held))
  refine wlp_modifying (fun v => disciplined_of_quiet (fun x hx => (hq v x hx).1)) (fun v held' hv hsub _ => ?_)
  have hid : w.id = id := Table.key_of_find? hw
  have hexp : releaseWaitlistHold.expired c id v = [w] := by
    simp [releaseWaitlistHold.expired, waitlist_eq hv (hsub hl) hm, hw, hc]
  have hheld : w.held = some (w.ticketTypeId, w.partySize) := if_pos ho
  refine h held' _ hsub (hs.quietAll (hq v) ?_)
  rw [hexp]
  refine hs.books.closeJoined (by simp) (by simpa [hid] using hw) .expired _ (fun y => ?_) (fun _ => le_refl _) ?_
  · have hb := hbal y
    simp only [List.map_cons, List.map_nil, List.sum_cons, List.sum_nil, List.filterMap_cons, hheld, List.filterMap_nil,
      seatsFor_cons, seatsFor_nil, add_zero, zero_add]
    by_cases hy : w.ticketTypeId = y
    · subst hy
      simp only [Db.owing_self] at hb
      simp only [↓reduceIte, List.sum_cons, List.sum_nil, add_zero]
      omega
    · rw [Db.owing_of_ne (fun he => hy he.symm)] at hb
      simp only [hy, ↓reduceIte, List.sum_nil]
      omega
  · simp [hheld]

theorem promotedRegistration_rule {c : Id} {x : Subject} {row : WaitlistEntry}
    {Q : List Lock → Option Registration → Db → Prop} (h : ∀ held' r, held ⊆ held' → Q held' r s) :
    V.wlp held s (classifyUnclaimable.promotedRegistration c x row) Q := by
  unfold classifyUnclaimable.promotedRegistration
  split
  · split
    · exact loadRegistrationById_rule h
    · exact wlp_pure (h held none (fun _ hx => hx))
  · exact wlp_pure (h held none (fun _ hx => hx))

theorem seatsOn_of_offered {w : WaitlistEntry} (h : w.status = .offered) (y : Id) :
    (w.seatsOn y : ℤ) = Db.owing w.ticketTypeId w.partySize y := by
  by_cases hy : y = w.ticketTypeId
  · subst hy
    simp [WaitlistEntry.seatsOn, h]
  · have hy' : ¬ w.ticketTypeId = y := fun he => hy he.symm
    simp [WaitlistEntry.seatsOn, Db.owing_of_ne hy, hy']

theorem classifyUnclaimable_keeps {c id : Id} {x : Subject} {now : Instant} (hs : V.Inv (fun _ => 0) s) :
    V.Keeps held s (classifyUnclaimable c id x now) := by
  refine wlp_bind (wlp_selectFor (fun v held1 hv h1 hlock => ?_))
  split
  · exact wlp_pure hs
  next row hrow =>
  have hl : ⟨.waitlist id, .update⟩ ∈ held1 := hlock (by simp)
  rw [waitlist_eq hv hl (by decide), Option.filter_eq_some_iff] at hrow
  refine wlp_bind (promotedRegistration_rule (fun held2 r h2 => ?_))
  split
  · exact wlp_pure hs
  split
  · exact wlp_pure hs
  split
  · exact wlp_pure hs
  next hoff =>
  split
  · have hoff : row.status = .offered := not_not.mp hoff
    have hst := (hs.books.waitlist id row hrow.1).2
    refine wlp_bind (releaseWaitlistHold_rule (h2 hl) (by decide) hs hrow.1 (by simpa using hrow.2)
      (hst.2 hoff) (fun y => ?_) (fun _ _ _ hs' => wlp_pure hs'))
    rw [seatsOn_of_offered hoff, zero_add]
  · exact wlp_pure hs

/-! ## Joining -/

theorem joinWaitlistGateRefusal_rule {ended : Event → Instant → Bool} {args : JoinWaitlistArgs}
    {Q : List Lock → Option JoinWaitlistOutcome → Db → Prop}
    (h : ∀ held' r, held ⊆ held' → ⟨.event args.cleanupId, .share⟩ ∈ held' →
      (r = none → Admitted s args.cleanupId args.subject) → Q held' r s) :
    V.wlp held s (joinWaitlistGateRefusal ended args) Q := by
  refine wlp_bind (lockEvent_rule (fun held1 e h1 hev => ?_))
  split
  · exact wlp_pure (h held1 _ h1 hev (by simp))
  split
  · exact wlp_pure (h held1 _ h1 hev (by simp))
  split
  · exact wlp_pure (h held1 _ h1 hev (by simp))
  refine wlp_bind (subjectBanned_rule hev (by decide) (fun held2 b h2 hb => ?_))
  have hsub2 := List.Subset.trans h1 h2
  split
  · exact wlp_pure (h held2 _ hsub2 (h2 hev) (by simp))
  next hbf =>
  refine wlp_bind (wlp_select (fun _ held3 _ h3 => ?_))
  have hsub3 := List.Subset.trans hsub2 h3
  split
  · exact wlp_pure (h held3 _ hsub3 (h3 (h2 hev)) (by simp))
  refine wlp_bind (wlp_select (fun _ held4 _ h4 => wlp_pure ?_))
  exact h held4 _ (List.Subset.trans hsub3 h4) (h4 (h3 (h2 hev))) (fun _ => hb (by simpa using hbf))

/-- What an accepted waitlist row says about the state it is inserted into. -/
theorem checkWaitlist_ok {v : Db} {held' : List Lock} {w : WaitlistEntry} (hv : V.rel held' v s)
    (hrow : (Write.insertWaitlist w).rowLocks ⊆ held') (hc : v.checkWaitlist w = .ok) :
    s.waitlist.find? w.id = none ∧ s.HasType w.cleanupId w.ticketTypeId ∧
      s.waitlist.All (fun x => ¬ x.Indexed w.ticketTypeId w.subject) := by
  unfold Db.checkWaitlist at hc
  split at hc
  · cases hc
  next hnew =>
  split at hc
  · cases hc
  next hty =>
  split at hc
  · cases hc
  next hidx =>
  have hlock : ⟨.waitlist w.id, .update⟩ ∈ held' := hrow (by simp [Write.rowLocks])
  rw [waitlist_eq hv hlock (by decide)] at hnew
  refine ⟨by simpa using hnew, ?_, ?_⟩
  · exact hasType (m := .keyShare) hv (hrow (by simp [Write.rowLocks])) (not_not.mp hty)
  · refine (noNewIndexed (m := .update) hv (hrow (by simp [Write.rowLocks]))).all_not ?_
    intro k x hx hin
    exact hidx ⟨x, Table.mem_rows_iff.mpr (Table.key_of_find? hx ▸ hx), hin.1, hin.2.1, hin.2.2⟩

theorem joinWaitlistIn_keeps {ended : Event → Instant → Bool} {args : JoinWaitlistArgs} (hs : V.Inv (fun _ => 0) s) :
    V.Keeps held s (joinWaitlistIn ended args) := by
  refine wlp_unlessRefused (joinWaitlistGateRefusal_rule (fun held1 r h1 hev hadm => ?_))
  cases r with
  | some x => exact hs
  | none =>
  refine wlp_bind (wlp_select (fun _ held2 _ h2 => ?_))
  split
  · refine wlp_bind (wlp_select (fun _ held3 _ _ => ?_))
    split
    · exact wlp_pure hs
    · exact wlp_pure hs
  · refine wlp_bind (wlp_inserting (disciplined_of_mem (h2 hev) rfl (le_refl _)) ?_ ?_)
    · intro v held3 hv h3 hrow hc
      obtain ⟨hnew, hty, hidx⟩ := checkWaitlist_ok hv hrow hc
      have hs' : V.Inv (fun _ => 0) (s.apply (.insertWaitlist (waitlistRow args))) :=
        hs.of_bans (hs.books.insertWaitlist hnew hty rfl rfl hidx) (hs.bans.insertWaitlist (hadm rfl)) rfl
      refine wlp_bind (wlp_select (fun _ held4 _ _ => ?_))
      split
      · trivial
      · exact wlp_pure hs'
    · intro v held3 _ _ _ hc
      unfold Db.checkWaitlist at hc
      repeat' split at hc
      all_goals cases hc

/-! ## Claiming -/

/-- The state after the claiming UPDATE took an offered entry: its seats are owed. -/
structure Claimed (V : Views) (entry w : WaitlistEntry) (id : Id) (s : Db) : Prop where
  inv : V.Inv (Db.owing entry.ticketTypeId w.partySize) s
  row : s.waitlist.find? id = some (w.close .claimed)
  same : entry.SameEntry w
  offered : w.offeredAt.isSome

theorem Claimed.release {entry w : WaitlistEntry} {id c : Id} (h : Claimed V entry w id s) (hc : w.cleanupId = c)
    (hl : ⟨.waitlist id, .noKeyUpdate⟩ ∈ held) {outcome : ClaimWaitlistOutcome} :
    V.Keeps held s (do releaseWaitlistHold c id; pure outcome) := by
  refine wlp_bind (releaseWaitlistHold_rule hl (by decide) h.inv h.row hc h.offered (fun y => ?_)
    (fun _ _ _ hs' => wlp_pure hs'))
  have hz : (w.close .claimed).seatsOn y = 0 := by simp [WaitlistEntry.seatsOn, WaitlistEntry.close,
    WaitlistClose.status]
  rw [hz, ← h.same.ticketTypeId]
  exact add_zero _

theorem handedOver_claim {args : ClaimWaitlistArgs} {entry : WaitlistEntry} (y : Id) :
    handedOver (claimRegisterArgs args entry) y = Db.owing entry.ticketTypeId (min args.seats entry.partySize) y := rfl

/-- The claim meets a live offer of its subject, and a registration is already on file
under the key that the claim is going to use. -/
def ClaimReplays (ended : Event → Instant → Bool) (args : ClaimWaitlistArgs) (s : Db) : Prop :=
  ∃ w ∈ s.waitlist.find? args.waitlistId, claimable args (min args.seats w.partySize) s = some w ∧
    (∀ x ∈ args.subject, w.subject = x) ∧ (s.events.find? args.cleanupId).any (ended · args.dbNow) = false ∧
    (s.replay (claimRegisterArgs args w)).isSome

instance (ended : Event → Instant → Bool) (args : ClaimWaitlistArgs) (s : Db) :
    Decidable (ClaimReplays ended args s) := inferInstanceAs (Decidable (∃ w ∈ _, _))

theorem claimOfferIn_keeps {ended : Event → Instant → Bool} {args : ClaimWaitlistArgs} {entry e : WaitlistEntry}
    (hs : V.Inv (fun _ => 0) s) (he : s.waitlist.find? args.waitlistId = some e) (hsame : entry.SameEntry e)
    (hfresh : V.exact → entry = e ∧ (claimable args (min args.seats e.partySize) s = some e →
      (s.events.find? args.cleanupId).any (ended · args.dbNow) = false → s.replay (claimRegisterArgs args e) = none)) :
    V.Keeps held s (claimOfferIn ended args entry.subject (claimRegisterArgs args entry)) := by
  refine wlp_bind (wlp_selectFor (fun v1 held1 hv1 h1 _ => ?_))
  refine wlp_bind (wlp_statement (fun v => disciplined_of_quiet ?_) (fun v held2 hv h2 _ hrow => ?_))
  · exact fun w hw => (quiet_map _ (fun _ => ⟨rfl, fun _ => rfl⟩) _ w hw).1
  cases hcl : claimable args (claimRegisterArgs args entry).seats v with
  | none => exact classifyUnclaimable_keeps hs
  | some w =>
  have hcl' := hcl
  simp only [claimable, Option.filter_eq_some_iff, Bool.and_eq_true, decide_eq_true_eq] at hcl'
  obtain ⟨hw, ⟨⟨hc, hoff⟩, -⟩, hparty⟩ := hcl'
  have hid : w.id = args.waitlistId := Table.key_of_find? hw
  have hl : ⟨.waitlist args.waitlistId, .noKeyUpdate⟩ ∈ held2 := by
    refine hrow (.closeWaitlist w.id .claimed) ?_ (by simp [Write.rowLocks, hid])
    simp [hcl]
  -- The row the UPDATE claimed is the entry that was read before the transaction.
  rw [waitlist_eq hv hl (by decide)] at hw
  obtain rfl : e = w := Option.some.inj (he.symm.trans hw)
  have hclaimed : Claimed V entry e args.waitlistId (s.apply (.closeWaitlist e.id .claimed)) := by
    refine ⟨?_, ?_, hsame, (hs.books.waitlist _ e he).2.2 hoff⟩
    · refine (hs.quiet ⟨rfl, fun _ => rfl⟩ (hs.books.closeWaitlist (hid ▸ he) .claimed)).congr (fun y => ?_)
      rw [seatsOn_of_offered hoff, hsame.ticketTypeId, zero_add]
    · simp [Db.apply, Table.find?_modify, hid, he]
  simp only [Option.toList_some, List.map_cons, List.map_nil]
  split
  · trivial
  split
  · exact hclaimed.release hc hl
  next hended =>
  refine wlp_bind (registerIn_rule hclaimed.inv (by simp [claimRegisterArgs]) ?_ ?_ ?_)
  · intro held3 r s3 _ hs3
    refine wlp_pure (hs3.congr (fun y => ?_))
    have hp : e.partySize = min args.seats entry.partySize := hparty
    rw [handedOver_claim, hp, sub_self]
  · intro held3 r h3 hx
    cases r with
    | none => trivial
    | some r =>
      -- A replay keeps the hold without a row: only loose books allow it.
      refine wlp_pure (hclaimed.inv.of_bans
        (hclaimed.inv.books.forgive (fun y => ?_) (fun hex => ?_)) hclaimed.inv.bans rfl)
      · unfold Db.owing
        split <;> omega
      · obtain ⟨rfl, hnone⟩ := hfresh hex
        rw [V.strict hex hv] at hcl
        rw [V.strict hex hv1] at hended
        have hreplay : some r = s.replay (claimRegisterArgs args entry) := hx hex
        rw [hnone hcl (by simpa using hended)] at hreplay
        cases hreplay
  · intro held3 x h3 hx
    cases x with
    | registered r => exact hx.elim
    | replayed r => exact hx.elim
    | registrationClosed => exact hclaimed.release hc (h3 hl)
    | closed => exact hclaimed.release hc (h3 hl)
    | _ => trivial

theorem claimWaitlistOffer_keeps {ended : Event → Instant → Bool} {args : ClaimWaitlistArgs}
    (hs : V.Inv (fun _ => 0) s)
    (hfresh : V.exact → ¬ ClaimReplays ended args s) :
    V.Keeps held s (claimWaitlistOffer ended args) := by
  refine wlp_bind (wlp_select (fun v held1 hv h1 => ?_))
  split
  · exact wlp_pure hs
  next entry hentry =>
  split
  · exact wlp_pure hs
  next hsubject =>
  rw [Option.filter_eq_some_iff] at hentry
  obtain ⟨e, he, hsame⟩ := sameEntry hv hentry.1
  refine claimOfferIn_keeps hs he hsame (fun hex => ?_)
  rw [V.strict hex hv, he] at hentry
  obtain rfl : e = entry := Option.some.inj hentry.1
  refine ⟨rfl, fun hcl hended => ?_⟩
  by_contra hreplay
  refine hfresh hex ⟨e, he, hcl, ?_, hended, Option.isSome_iff_ne_none.mpr hreplay⟩
  simpa using hsubject

/-! ## Offering and expiring -/

theorem reserveAndOffer_keeps {w : WaitlistEntry} {scope : Option Id} {now e : Instant} (hs : V.Inv (fun _ => 0) s)
    (hw : s.waitlist.find? w.id = some w)
    (hwait : w.status = .waiting) : V.Keeps held s (reserveAndOffer w scope now e) := by
  refine wlp_bind (wlp_guarded rfl (fun v held1 hv h1 hrow hg => ?_) (fun v held1 _ _ hg => ?_))
  · have hlock : ⟨.ticketType w.ticketTypeId, .noKeyUpdate⟩ ∈ held1 := hrow (by simp [Write.rowLocks])
    rw [hg]
    simp only [offerable, ticketType_eq hv hlock (by decide), Option.any_eq_true, Bool.and_eq_true, Option.all_eq_true,
      decide_eq_true_eq] at hg
    obtain ⟨x, hx, -, hcap⟩ := hg
    have hs1 := hs.quiet ⟨rfl, fun _ => rfl⟩ (hs.books.reserve (n := w.partySize) hx (fun c hc => hcap c hc))
    simp only [Bool.not_true, Bool.false_eq_true, ↓reduceIte]
    refine wlp_bind (wlp_modifying (fun _ => disciplined_of_quiet (by simp [Write.eventLock])) ?_)
    intro v2 held2 hv2 h2 hrow2
    refine wlp_pure ((hs1.quiet ⟨rfl, fun _ => rfl⟩ (hs1.books.offerWaitlist hw hwait now e)).congr (fun y => ?_))
    omega
  · rw [hg]
    exact wlp_pure hs

theorem offerNextWaitlistEntry_keeps {duration : ℕ} {t : Id} {now dbNow window : Instant} {skipped : List Id}
    (hs : V.Inv (fun _ => 0) s) : V.Keeps held s (offerNextWaitlistEntry duration t now dbNow window skipped) := by
  refine wlp_bind (wlp_selectFor (fun v held1 hv h1 hlock => ?_))
  split
  · exact wlp_pure hs
  next w hw =>
  have hmem : w ∈ v.offerQueue duration t dbNow skipped := List.mem_of_head? hw
  have hl : ⟨.waitlist w.id, .update⟩ ∈ held1 := hlock (by simp [hw])
  simp only [Db.offerQueue, List.mem_insertionSort, List.mem_filter, decide_eq_true_eq] at hmem
  refine reserveAndOffer_keeps hs ?_ hmem.2.2.1
  rw [← waitlist_eq hv hl (by decide)]
  exact Table.mem_rows_iff.mp hmem.1

theorem offerWaitlistEntry_keeps {duration : ℕ} {c id : Id} {now dbNow window : Instant} (hs : V.Inv (fun _ => 0) s) :
    V.Keeps held s (offerWaitlistEntry duration c id now dbNow window) := by
  refine wlp_bind (wlp_selectFor (fun v held1 hv h1 hlock => ?_))
  split
  · exact wlp_pure hs
  next w hw =>
  simp only [Option.filter_eq_some_iff, Bool.and_eq_true, decide_eq_true_eq] at hw
  obtain ⟨hw, ⟨⟨-, hwait⟩, -⟩, -⟩ := hw
  have hid : w.id = id := Table.key_of_find? hw
  have hl : ⟨.waitlist w.id, .update⟩ ∈ held1 := hlock (by simp [hid])
  refine reserveAndOffer_keeps hs ?_ hwait
  rw [← waitlist_eq hv hl (by decide), hid]
  exact hw

/-- A sweep balances exactly when no ticket type has two of the offers it expires. -/
theorem expireWaitlistOffers_keeps {pick : Id → ℕ} {now : Instant} {limit : ℕ} {skipped : List Id}
    (hs : V.Inv (fun _ => 0) s)
    (hdistinct : V.exact → ((s.dueOffers now limit skipped).map (·.ticketTypeId)).Nodup) :
    V.Keeps held s (expireWaitlistOffers pick now limit skipped) := by
  have hq := fun v : Db => quiet_append (quiet_close .expired (v.dueOffers now limit skipped))
    (quiet_joined pick ((v.dueOffers now limit skipped).map (fun w => (w.ticketTypeId, w.partySize))))
  refine wlp_statement (fun v => disciplined_of_quiet (fun w hw => (hq v w hw).1)) (fun v held1 hv h1 hlock hrow => ?_)
  have hdue : ∀ w ∈ v.dueOffers now limit skipped, w ∈ v.waitlist.rows ∧ w.status = .offered := by
    intro w hw
    have hw' := List.mem_of_mem_take hw
    simp only [List.mem_insertionSort, List.mem_filter, decide_eq_true_eq] at hw'
    exact ⟨hw'.1, hw'.2.1⟩
  have hn : ((v.dueOffers now limit skipped).map (·.id)).Nodup := by
    refine ((List.take_sublist _ _).map _).nodup ?_
    refine (((List.perm_insertionSort _ _).map _).nodup_iff).mpr ?_
    exact (List.filter_sublist.map _).nodup v.waitlist.nodup
  have hes := waitlist_batch hv (fun w hw => (hdue w hw).1) hrow
    (fun w hw => ⟨.expired, List.mem_append_left _ (List.mem_map_of_mem hw)⟩)
  refine hs.quietAll (hq v) ?_
  refine hs.books.closeJoined hn hes .expired pick (fun y => ?_) (fun _ => le_refl _) (fun hex => ?_)
  · have hsum := sum_seatsFor_filterMap (v.dueOffers now limit skipped) (fun w => some (w.ticketTypeId, w.partySize))
      (fun y => WaitlistEntry.seatsOn y) y (fun w hw => by simp [WaitlistEntry.seatsOn, (hdue w hw).2])
    rw [List.filterMap_eq_map'] at hsum
    rw [hsum]
  · obtain rfl := V.strict hex hv
    simpa [Function.comp_def] using hdistinct hex

end Views

end Civfix.Attendance
