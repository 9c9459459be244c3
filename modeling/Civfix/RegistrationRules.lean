import Civfix.AttendanceRules

/-! # Registering keeps the ledger and the bans

One rule per function of the registration repository, in the order of the calls. A
registration is refused before its first write or it moves exactly the seats it was given:
those it reserved itself, or, for a claimed waitlist offer, those its caller already owes. -/
namespace Civfix.Attendance

open KeyedTables LockedTransactions

/-- An outcome other than the two that carry a registration. -/
def RegisterTxOutcome.IsRefusal : RegisterTxOutcome → Prop
  | .registered _ | .replayed _ => False
  | _ => True

/-- The registration on file under the key of the call, which the call then replays. -/
def Db.replay (s : Db) (args : RegisterTxArgs) : Option Registration :=
  (s.idempotencyKeys.find? (idempotencyOwnerOf args, args.idempotencyKey)).bind
    (fun k => (s.registrations.find? k.registrationId).filter (fun r => r.cleanupId = args.cleanupId))

namespace Views

variable {V : Views} {held : List Lock} {s : Db} {owed : Id → ℤ}

theorem lockEvent_rule {mode : LockMode} {c : Id} {Q : List Lock → Option Event → Db → Prop}
    (h : ∀ held' e, held ⊆ held' → ⟨.event c, mode⟩ ∈ held' → Q held' e s) :
    V.wlp held s (lockEvent mode c) Q :=
  wlp_selectFor (fun v held' _ hsub hl => h held' _ hsub (hl (by simp)))

theorem isBannedIn_rule {c u : Id} {m : LockMode} (hev : ⟨.event c, m⟩ ∈ held) (hm : 1 ≤ m.rank)
    {Q : List Lock → Bool → Db → Prop}
    (h : ∀ held' b, held ⊆ held' → (b = false → s.isBanned c u = false) → Q held' b s) :
    V.wlp held s (isBannedIn c u) Q := by
  refine wlp_select (fun v held' hv hsub => h held' _ hsub (fun hb => ?_))
  by_contra hne
  have := Db.isBanned_of_noNewBans (noNewBans hv (hsub hev) hm) (by simpa using hne)
  simp [this] at hb

/-- The subject may take a place at the event. -/
def Admitted (s : Db) (c : Id) (x : Subject) : Prop := ∀ u, x = .user u → s.isBanned c u = false

theorem subjectBanned_rule {c : Id} {x : Subject} {m : LockMode} (hev : ⟨.event c, m⟩ ∈ held) (hm : 1 ≤ m.rank)
    {Q : List Lock → Bool → Db → Prop}
    (h : ∀ held' b, held ⊆ held' → (b = false → Admitted s c x) → Q held' b s) :
    V.wlp held s (subjectBanned c x) Q := by
  cases x with
  | guest g => exact wlp_pure (h held false (fun _ hx => hx) (fun _ u hu => by cases hu))
  | user u =>
    refine isBannedIn_rule hev hm (fun held' b hsub hb => h held' b hsub (fun hf u' hu => ?_))
    cases hu
    exact hb hf

theorem loadRegistrationById_rule {c id : Id} {Q : List Lock → Option Registration → Db → Prop}
    (h : ∀ held' r, held ⊆ held' → Q held' r s) : V.wlp held s (loadRegistrationById c id) Q :=
  wlp_select (fun _ held' _ hsub => h held' _ hsub)

theorem eventGateRefusal_rule {event : Event} {args : RegisterTxArgs} {m : LockMode}
    (hev : ⟨.event args.cleanupId, m⟩ ∈ held) (hm : 1 ≤ m.rank)
    {Q : List Lock → Option RegisterTxOutcome → Db → Prop}
    (h : ∀ held' r, held ⊆ held' → (r = none → Admitted s args.cleanupId args.subject) →
      (∀ x ∈ r, x.IsRefusal) → Q held' r s) :
    V.wlp held s (eventGateRefusal event args) Q := by
  have hrefl : held ⊆ held := fun _ hx => hx
  unfold eventGateRefusal
  split
  · exact wlp_pure (h held _ hrefl (by simp) (by simp [RegisterTxOutcome.IsRefusal]))
  · split
    · exact wlp_pure (h held _ hrefl (by simp) (by simp [RegisterTxOutcome.IsRefusal]))
    · refine wlp_bind (subjectBanned_rule hev hm (fun held' b hsub hb => ?_))
      split
      · exact wlp_pure (h held' _ hsub (by simp) (by simp [RegisterTxOutcome.IsRefusal]))
      · next hbf =>
        refine wlp_bind (wlp_select (fun v held'' _ hsub' => wlp_pure ?_))
        refine h held'' _ (List.Subset.trans hsub hsub') (fun _ => hb (by simpa using hbf)) ?_
        split <;> simp [RegisterTxOutcome.IsRefusal]

theorem ticketTypeGateRefusal_isRefusal {t : TicketType} {args : RegisterTxArgs} {n : ℕ} {x : RegisterTxOutcome}
    (h : ticketTypeGateRefusal t args n = some x) : x.IsRefusal := by
  simp only [ticketTypeGateRefusal, accessCodeRefusal, Option.or_eq_some_iff] at h
  rcases h with h | ⟨-, h⟩
  · split at h
    · split at h
      · cases h
        trivial
      · split at h
        · cases h
        · cases h
          trivial
    · cases h
  · split at h
    · cases h
      trivial
    · split at h
      · cases h
        trivial
      · cases h

/-- The type that was picked is the type that was asked for. -/
theorem selectTicketType_id {types : List TicketType} {args : RegisterTxArgs} {t : Id} {x : Option TicketType}
    (ha : args.ticketTypeId = some t) (h : selectTicketType types args = .ok x) : x.map (·.id) = some t := by
  simp only [selectTicketType, ha] at h
  split at h
  · cases h
  · next y hy =>
    simp only [selectTicketType.hiddenGate] at h
    split at h
    · cases h
    · cases h
      have := List.find?_some hy
      simpa using this

theorem selectTicketType_isRefusal {types : List TicketType} {args : RegisterTxArgs} {x : RegisterTxOutcome}
    (h : selectTicketType types args = .error x) : x.IsRefusal := by
  have hg : ∀ o, selectTicketType.hiddenGate args o = .error x → x.IsRefusal := by
    intro o ho
    unfold selectTicketType.hiddenGate at ho
    split at ho
    · cases ho
    · split at ho
      · cases ho
        trivial
      · cases ho
  unfold selectTicketType at h
  split at h
  · split at h
    · cases h
      trivial
    · exact hg _ h
  · split at h
    · cases h
      trivial
    · exact hg _ h

/-- What the registration itself has to reserve. -/
def fresh (args : RegisterTxArgs) (ticketTypeId : Option Id) (y : Id) : ℤ :=
  match args.waitlistId, ticketTypeId with
  | none, some t => Db.owing t args.seats y
  | _, _ => 0

theorem reserveCapacity_rule {args : RegisterTxArgs} {capacity : Option ℕ} {type : Option TicketType}
    (hs : V.Inv owed s) {Q : List Lock → Option RegisterTxOutcome → Db → Prop}
    (hrefused : ∀ held' x, held ⊆ held' → x.IsRefusal → Q held' (some x) s)
    (hreserved : ∀ held' s', held ⊆ held' → V.Inv (fun y => owed y + fresh args (type.map (·.id)) y) s' →
      s'.bans = s.bans → Q held' none s') :
    V.wlp held s (reserveCapacity args capacity type args.seats) Q := by
  have hrefl : held ⊆ held := fun _ hx => hx
  have hnothing : ∀ held', held ⊆ held' → (∀ y, fresh args (type.map (·.id)) y = 0) → Q held' none s := by
    intro held' hsub hz
    exact hreserved held' s hsub (hs.congr (fun y => by rw [hz y, add_zero])) rfl
  unfold reserveCapacity
  split
  · next hw => exact wlp_pure (hnothing held hrefl (fun y => by simp [fresh, hw]))
  · next hw => exact wlp_pure (hnothing held hrefl (fun y => by simp [fresh, hw]))
  · next cap hw =>
    refine wlp_bind (wlp_selectFor (fun v held' _ hsub _ => wlp_bind (wlp_select (fun v' held'' _ hsub' => ?_))))
    have hsub'' := List.Subset.trans hsub hsub'
    split
    · exact wlp_pure (hrefused held'' _ hsub'' trivial)
    · exact wlp_pure (hnothing held'' hsub'' (fun y => by simp [fresh, hw]))
  · next t hw =>
    refine wlp_bind (wlp_guarded rfl (fun v held' hv hsub hrow hr => ?_) (fun v held' _ _ hr => ?_))
    · -- The guard of the UPDATE was evaluated on the row it locked.
      have hlock : ⟨.ticketType t.id, .noKeyUpdate⟩ ∈ held' := hrow (by simp [Write.rowLocks])
      have heq := ticketType_eq hv hlock (by decide)
      rw [hr]
      simp only [reservable, heq, Option.any_eq_true, Bool.and_eq_true, decide_eq_true_eq, Option.all_eq_true] at hr
      obtain ⟨x, hx, -, hcap⟩ := hr
      refine wlp_pure (hreserved held' _ hsub ?_ rfl)
      have hb := hs.books.reserve (n := args.seats) hx (fun c hc => hcap c hc)
      refine (hs.quiet ⟨rfl, fun _ => rfl⟩ hb).congr (fun y => ?_)
      simp [fresh, hw]
    · rw [hr]
      trivial

theorem lockSlot_rule {c slot : Id} {Q : List Lock → Option Slot → Db → Prop}
    (h : ∀ held' x, held ⊆ held' → Q held' x s) : V.wlp held s (claimSlotIn.lockSlot c slot) Q :=
  wlp_selectFor (fun _ held' _ hsub _ => h held' _ hsub)

theorem slotFull_rule {slot : Slot} {Q : List Lock → Bool → Db → Prop}
    (h : ∀ held' b, held ⊆ held' → Q held' b s) : V.wlp held s (claimSlotIn.slotFull slot) Q := by
  unfold claimSlotIn.slotFull
  split
  · exact wlp_pure (h held _ (fun _ hx => hx))
  · exact wlp_select (fun _ held' _ hsub => h held' _ hsub)

theorem insertSlotClaim_rule {c u slot : Id} (hev : ⟨.event c, .share⟩ ∈ held) (hs : V.Inv owed s)
    (hb : s.isBanned c u = false) {Q : List Lock → Unit → Db → Prop}
    (h : ∀ held' s', held ⊆ held' → V.Inv owed s' → s'.bans = s.bans → Q held' () s') :
    V.wlp held s (modifying (fun _ => [.claimSlot c u slot])) Q := by
  refine wlp_modifying (fun _ => disciplined_of_mem hev rfl (le_refl _)) (fun v held' hv hsub hrow => ?_)
  exact h held' _ hsub (hs.of_bans (hs.books.of_eq rfl rfl rfl) (hs.bans.claimSlot hb) rfl) rfl

theorem claimSlotIn_rule {c u slot : Id} (hev : ⟨.event c, .share⟩ ∈ held) (hs : V.Inv owed s)
    (hb : s.isBanned c u = false) {Q : List Lock → Unit → Db → Prop}
    (h : ∀ held' s', held ⊆ held' → V.Inv owed s' → s'.bans = s.bans → Q held' () s') :
    V.wlp held s (claimSlotIn c u slot) Q := by
  refine wlp_bind (lockSlot_rule (fun held' x hsub => ?_))
  split
  · trivial
  · refine wlp_bind (wlp_select (fun v held'' _ hsub' => ?_))
    have hsub2 := List.Subset.trans hsub hsub'
    split
    · exact wlp_pure (h held'' s hsub2 hs rfl)
    · refine wlp_bind (slotFull_rule (fun held3 b hsub3 => ?_))
      have hsub4 := List.Subset.trans hsub2 hsub3
      split
      · trivial
      · exact insertSlotClaim_rule (hsub4 hev) hs hb
          (fun held5 s' hsub5 hs' hbans => h held5 s' (List.Subset.trans hsub4 hsub5) hs' hbans)

theorem claimSlotOf_rule {args : RegisterTxArgs} (hev : ⟨.event args.cleanupId, .share⟩ ∈ held)
    (hs : V.Inv owed s) (hb : Admitted s args.cleanupId args.subject) {Q : List Lock → Unit → Db → Prop}
    (h : ∀ held' s', held ⊆ held' → V.Inv owed s' → s'.bans = s.bans → Q held' () s') :
    V.wlp held s (claimSlotOf args) Q := by
  unfold claimSlotOf
  split
  · next _ u _ hu => exact claimSlotIn_rule hev hs (hb u hu) h
  · exact wlp_pure (h held s (fun _ hx => hx) hs rfl)

theorem modifying_rule {w : Write} (hq : w.Quiet) (hr : (s.apply w).registrations = s.registrations)
    (hw : (s.apply w).waitlist = s.waitlist) (ht : (s.apply w).ticketTypes = s.ticketTypes) (hs : V.Inv owed s)
    {Q : List Lock → Unit → Db → Prop}
    (h : ∀ held', held ⊆ held' → V.Inv owed (s.apply w) → Q held' () (s.apply w)) :
    V.wlp held s (modifying (fun _ => [w])) Q := by
  refine wlp_modifying (fun _ => disciplined_of_quiet (by simpa using hq.1)) (fun v held' _ hsub _ => ?_)
  exact h held' hsub (hs.quiet hq (hs.books.of_eq hr hw ht))

theorem insertMember_rule {c : Id} {x : Subject} (hs : V.Inv owed s) {Q : List Lock → Unit → Db → Prop}
    (h : ∀ held' s', held ⊆ held' → V.Inv owed s' → s'.bans = s.bans → Q held' () s') :
    V.wlp held s (insertMember c x) Q := by
  cases x with
  | user u => exact modifying_rule ⟨rfl, fun _ => rfl⟩ rfl rfl rfl hs (fun held' hsub hs' => h held' _ hsub hs' rfl)
  | guest g => exact wlp_pure (h held s (fun _ hx => hx) hs rfl)

/-- What an accepted registration row says about the state it is inserted into. -/
theorem checkRegistration_ok {v : Db} {held' : List Lock} {r : Registration} (hv : V.rel held' v s)
    (hrow : (Write.insertRegistration r).rowLocks ⊆ held') (hc : v.checkRegistration r = .ok) :
    s.registrations.find? r.id = none ∧ ∀ t ∈ r.ticketTypeId, s.HasType r.cleanupId t := by
  unfold Db.checkRegistration at hc
  split at hc
  · cases hc
  · next hnew =>
    split at hc
    · cases hc
    · next hty =>
      have hlock : ⟨.registration r.id, .update⟩ ∈ held' := hrow (by simp [Write.rowLocks])
      rw [registration_eq hv hlock (by decide)] at hnew
      refine ⟨by simpa using hnew, fun t ht => ?_⟩
      refine hasType (m := .keyShare) hv (hrow ?_) (not_not.mp hty t ht)
      simp [Write.rowLocks, Option.mem_def.mp ht]

/-- The seats a new registration row holds. -/
def taken (args : RegisterTxArgs) (ticketTypeId : Option Id) (y : Id) : ℤ :=
  ticketTypeId.elim 0 (fun t => Db.owing t args.seats y)

theorem seatsOn_registrationRow (args : RegisterTxArgs) (t : Option Id) (y : Id) :
    ((registrationRow args t).seatsOn y : ℤ) = taken args t y := by
  cases t with
  | none => simp [Registration.seatsOn, registrationRow, taken]
  | some t =>
    by_cases hy : y = t
    · subst hy
      simp [Registration.seatsOn, registrationRow, taken]
    · have hy' : ¬ t = y := fun he => hy he.symm
      simp [Registration.seatsOn, registrationRow, taken, Db.owing_of_ne hy, hy']

theorem insertRegistrationRows_rule {args : RegisterTxArgs} {t : Option Id}
    (hev : ⟨.event args.cleanupId, .share⟩ ∈ held) (hs : V.Inv owed s)
    (hb : Admitted s args.cleanupId args.subject) {Q : List Lock → Unit → Db → Prop}
    (h : ∀ held' s', held ⊆ held' → V.Inv (fun y => owed y - taken args t y) s' → Q held' () s') :
    V.wlp held s (insertRegistrationRows args t) Q := by
  refine wlp_bind (insertMember_rule hs (fun held' s' hsub hs' hbans => ?_))
  have hb' : Admitted s' args.cleanupId args.subject := fun u hu => by
    simpa only [Db.isBanned, hbans] using hb u hu
  refine wlp_inserting (disciplined_of_mem (hsub hev) rfl (le_refl _)) ?_ ?_
  · intro v held'' hv hsub' hrow hc
    obtain ⟨hnew, hty⟩ := checkRegistration_ok hv hrow hc
    refine h held'' _ (List.Subset.trans hsub hsub') (hs'.of_bans ?_ (hs'.bans.insertRegistration hb') rfl)
    exact (hs'.books.insertRegistration hnew hty).congr (fun y => by rw [seatsOn_registrationRow])
  · intro v held'' hv hsub' _ hc
    unfold Db.checkRegistration at hc
    repeat' split at hc
    all_goals cases hc

theorem linkWaitlistEntry_rule {args : RegisterTxArgs} (hs : V.Inv owed s) {Q : List Lock → Unit → Db → Prop}
    (h : ∀ held' s', held ⊆ held' → V.Inv owed s' → Q held' () s') :
    V.wlp held s (linkWaitlistEntry args) Q := by
  unfold linkWaitlistEntry
  split
  · exact wlp_pure (h held s (fun _ hx => hx) hs)
  · next id hid =>
    refine wlp_guarded rfl (fun v held' hv hsub hrow hg => ?_) (fun v held' _ hsub _ => h held' s hsub hs)
    have hlock : ⟨.waitlist id, .noKeyUpdate⟩ ∈ held' := hrow (by simp [Write.rowLocks])
    rw [waitlist_eq hv hlock (by decide)] at hg
    obtain ⟨w, hw, -⟩ := (Option.any_eq_true _ _).mp hg
    exact h held' _ hsub (hs.quiet ⟨rfl, fun _ => rfl⟩ (hs.books.linkWaitlist hw _))

theorem recordRegisterIdempotency_rule {args : RegisterTxArgs} (hs : V.Inv owed s)
    {Q : List Lock → Unit → Db → Prop} (h : ∀ held' s', held ⊆ held' → V.Inv owed s' → Q held' () s') :
    V.wlp held s (recordRegisterIdempotency args) Q := by
  refine wlp_inserting (disciplined_of_quiet (by simp [Write.eventLock])) ?_ ?_
  · intro v held' _ hsub _ _
    exact h held' _ hsub (hs.quiet ⟨rfl, fun _ => rfl⟩ (hs.books.of_eq rfl rfl rfl))
  · intro v held' _ hsub _ hc
    split at hc <;> cases hc

theorem seatParty_rule {args : RegisterTxArgs} {t : Option Id} (hev : ⟨.event args.cleanupId, .share⟩ ∈ held)
    (hs : V.Inv owed s) (hb : Admitted s args.cleanupId args.subject)
    {Q : List Lock → RegisterTxOutcome → Db → Prop}
    (h : ∀ held' r s', held ⊆ held' → V.Inv (fun y => owed y - taken args t y) s' → Q held' (.registered r) s') :
    V.wlp held s (seatParty args t) Q := by
  refine wlp_bind (claimSlotOf_rule hev hs hb (fun held1 s1 hsub1 hs1 hbans => ?_))
  have hb1 : Admitted s1 args.cleanupId args.subject := fun u hu => by
    simpa only [Db.isBanned, hbans] using hb u hu
  refine wlp_bind (insertRegistrationRows_rule (hsub1 hev) hs1 hb1 (fun held2 s2 hsub2 hs2 => ?_))
  refine wlp_bind (linkWaitlistEntry_rule hs2 (fun held3 s3 hsub3 hs3 => ?_))
  refine wlp_bind (recordRegisterIdempotency_rule hs3 (fun held4 s4 hsub4 hs4 => ?_))
  refine wlp_bind (loadRegistrationById_rule (fun held5 r hsub5 => ?_))
  split
  · refine wlp_pure (h held5 _ s4 ?_ hs4)
    exact fun x hx => hsub5 (hsub4 (hsub3 (hsub2 (hsub1 hx))))
  · trivial

/-- The seats that a claimed offer hands over to the registration. -/
def handedOver (args : RegisterTxArgs) (y : Id) : ℤ :=
  match args.waitlistId with
  | none => 0
  | some _ => taken args args.ticketTypeId y

theorem registerIn_rule {args : RegisterTxArgs} (hs : V.Inv owed s)
    (hargs : args.waitlistId.isSome → args.ticketTypeId.isSome) {Q : List Lock → RegisterTxOutcome → Db → Prop}
    (hregistered : ∀ held' r s', held ⊆ held' → V.Inv (fun y => owed y - handedOver args y) s' →
      Q held' (.registered r) s')
    (hreplayed : ∀ held' r, held ⊆ held' → (V.exact → r = s.replay args) → Q held' (.replayed r) s)
    (hrefused : ∀ held' x, held ⊆ held' → x.IsRefusal → Q held' x s) :
    V.wlp held s (registerIn args) Q := by
  refine wlp_bind (wlp_selectFor (fun _ held1 _ h1 _ => ?_))
  refine wlp_bind (lockEvent_rule (fun held2 e h2 hev => ?_))
  have hsub2 := List.Subset.trans h1 h2
  split
  · exact wlp_pure (hrefused held2 _ hsub2 trivial)
  next event =>
  split
  · exact wlp_pure (hrefused held2 _ hsub2 trivial)
  refine wlp_bind (wlp_select (fun v held3 hv h3 => ?_))
  have hsub3 := List.Subset.trans hsub2 h3
  split
  · next id hid =>
    refine wlp_bind (wlp_select (fun v' held4 hv' h4 => wlp_pure ?_))
    refine hreplayed held4 _ (List.Subset.trans hsub3 h4) (fun hx => ?_)
    obtain ⟨k, hk, rfl⟩ := Option.map_eq_some_iff.mp hid
    rw [V.strict hx hv] at hk
    rw [V.strict hx hv', Db.replay, hk]
    rfl
  refine wlp_unlessRefused (eventGateRefusal_rule (h3 hev) (by decide) (fun held4 r h4 hadm hr => ?_))
  have hsub4 := List.Subset.trans hsub3 h4
  cases r with
  | some x => exact hrefused held4 x hsub4 (hr x rfl)
  | none =>
  refine wlp_bind (wlp_select (fun v' held5 _ h5 => ?_))
  have hsub5 := List.Subset.trans hsub4 h5
  split
  · next x hx => exact wlp_pure (hrefused held5 x hsub5 (selectTicketType_isRefusal hx))
  next type htype =>
  refine wlp_unlessRefused (wlp_pure ?_)
  cases hg : type.bind (ticketTypeGateRefusal · args args.seats) with
  | some x =>
    obtain ⟨t, -, ht⟩ := Option.bind_eq_some_iff.mp hg
    exact hrefused held5 x hsub5 (ticketTypeGateRefusal_isRefusal ht)
  | none =>
  refine wlp_unlessRefused (reserveCapacity_rule hs ?_ ?_)
  · intro held6 x h6 hx
    exact hrefused held6 x (List.Subset.trans hsub5 h6) hx
  · intro held6 s6 h6 hs6 hbans
    have hadm6 : Admitted s6 args.cleanupId args.subject := fun u hu => by
      simpa only [Db.isBanned, hbans] using hadm rfl u hu
    refine seatParty_rule (h6 (h5 (h4 (h3 hev)))) hs6 hadm6 (fun held7 r s7 h7 hs7 => ?_)
    refine hregistered held7 r s7 (List.Subset.trans (List.Subset.trans hsub5 h6) h7) (hs7.congr (fun y => ?_))
    cases hw : args.waitlistId with
    | none => cases type <;> simp [fresh, taken, handedOver, hw]
    | some w =>
      obtain ⟨t, ht⟩ := Option.isSome_iff_exists.mp (hargs (by simp [hw]))
      simp [fresh, handedOver, hw, ht, selectTicketType_id ht htype]

/-! ## The registration operations -/

section Operations

variable (hs : V.Inv (fun _ => 0) s)
include hs

theorem registerIn_keeps {args : RegisterTxArgs} (ha : args.waitlistId = none) : V.Keeps held s (registerIn args) := by
  refine registerIn_rule hs (by simp [ha]) ?_ (fun _ _ _ _ => hs) (fun _ _ _ _ => hs)
  intro held' r s' _ hs'
  exact hs'.congr (fun y => by simp [handedOver, ha])

theorem insertGuest_rule {g c : Id} {Q : List Lock → Unit → Db → Prop}
    (h : ∀ held' s', held ⊆ held' → V.Inv (fun _ => 0) s' → Q held' () s') :
    V.wlp held s (insertGuest g c) Q := by
  refine wlp_inserting (disciplined_of_quiet (by simp [Write.eventLock])) ?_ ?_
  · intro v held' _ hsub _ _
    exact h held' _ hsub (hs.quiet ⟨rfl, fun _ => rfl⟩ (hs.books.of_eq rfl rfl rfl))
  · intro v held' _ hsub _ hc
    split at hc <;> cases hc

theorem registerWalkupTx_keeps {args : WalkupRegisterArgs} : V.Keeps held s (registerWalkupTx args) := by
  refine wlp_bind (insertGuest_rule hs (fun held' s' _ hs' => ?_))
  refine wlp_bind (registerIn_rule hs' (by simp [walkupRegisterArgs]) ?_ ?_ ?_)
  · intro held2 r s2 _ hs2
    exact wlp_pure (hs2.congr (fun y => by simp [handedOver, walkupRegisterArgs]))
  · intro held2 r _ _
    trivial
  · intro held2 x _ hx
    cases x with
    | registered r => exact hx.elim
    | _ => trivial

omit hs in
theorem privateEventBlocksJoin_rule {event : Event} {u : Id} {Q : List Lock → Bool → Db → Prop}
    (h : ∀ held' b, held ⊆ held' → Q held' b s) : V.wlp held s (privateEventBlocksJoin event u) Q := by
  unfold privateEventBlocksJoin
  split
  · exact wlp_pure (h held _ (fun _ hx => hx))
  · exact wlp_select (fun _ held' _ hsub => h held' _ hsub)

omit hs in
theorem lockJoinableEvent_rule {ended : Event → Instant → Bool} {c u : Id} {now : Instant}
    {Q : List Lock → Option JoinRefusal → Db → Prop}
    (h : ∀ held' r, held ⊆ held' → ⟨.event c, .share⟩ ∈ held' → (r = none → s.isBanned c u = false) → Q held' r s) :
    V.wlp held s (lockJoinableEvent ended c u now) Q := by
  refine wlp_bind (lockEvent_rule (fun held1 e h1 hev => ?_))
  split
  · exact wlp_pure (h held1 _ h1 hev (by simp))
  refine wlp_bind (privateEventBlocksJoin_rule (fun held2 b h2 => ?_))
  have hsub := List.Subset.trans h1 h2
  split
  · exact wlp_pure (h held2 _ hsub (h2 hev) (by simp))
  split
  · exact wlp_pure (h held2 _ hsub (h2 hev) (by simp))
  split
  · exact wlp_pure (h held2 _ hsub (h2 hev) (by simp))
  refine wlp_bind (isBannedIn_rule (h2 hev) (by decide) (fun held3 banned h3 hb => wlp_pure ?_))
  refine h held3 _ (List.Subset.trans hsub h3) (h3 (h2 hev)) (fun hn => hb ?_)
  cases banned <;> simp_all

omit hs in
theorem ensureSignupRegistrationIn_rule {c u r : Id} {now : Instant} (hev : ⟨.event c, .share⟩ ∈ held)
    (hs : V.Inv owed s) (hb : s.isBanned c u = false) {Q : List Lock → Unit → Db → Prop}
    (h : ∀ held' s', held ⊆ held' → V.Inv owed s' → s'.bans = s.bans → Q held' () s') :
    V.wlp held s (ensureSignupRegistrationIn c u r now) Q := by
  refine wlp_bind (wlp_select (fun _ held1 _ h1 => ?_))
  split
  · exact wlp_pure (h held1 s h1 hs rfl)
  refine wlp_inserting (disciplined_of_mem (h1 hev) rfl (le_refl _)) ?_ ?_
  · intro v held2 hv h2 hrow hc
    split at hc
    · cases hc
    obtain ⟨hnew, hty⟩ := checkRegistration_ok hv hrow hc
    have hadm : ∀ x, (signupRow c u r now).subject = .user x → s.isBanned c x = false := by
      rintro x ⟨⟩
      exact hb
    refine h held2 _ (List.Subset.trans h1 h2) (hs.of_bans ?_ (hs.bans.insertRegistration hadm) rfl) rfl
    exact (hs.books.insertRegistration hnew hty).congr (fun y => by simp [signupRow, Registration.seatsOn])
  · intro v held2 _ h2 _ _
    exact h held2 s (List.Subset.trans h1 h2) hs rfl

omit hs in
theorem enrolMember_rule {c u r : Id} {now : Instant} (hev : ⟨.event c, .share⟩ ∈ held)
    (hs : V.Inv owed s) (hb : s.isBanned c u = false) {Q : List Lock → Unit → Db → Prop}
    (h : ∀ held' s', held ⊆ held' → V.Inv owed s' → s'.bans = s.bans → Q held' () s') :
    V.wlp held s (enrolMember c u r now) Q := by
  refine wlp_bind (insertMember_rule hs (fun held1 s1 h1 hs1 hbans => ?_))
  have hb1 : s1.isBanned c u = false := by simpa only [Db.isBanned, hbans] using hb
  exact ensureSignupRegistrationIn_rule (h1 hev) hs1 hb1
    (fun held2 s2 h2 hs2 hbans2 => h held2 s2 (List.Subset.trans h1 h2) hs2 (hbans2.trans hbans))

theorem joinCleanupTx_keeps {ended : Event → Instant → Bool} {c u r : Id} {now : Instant} :
    V.Keeps held s (joinCleanupTx ended c u r now) := by
  refine wlp_bind (lockJoinableEvent_rule (fun held1 x h1 hev hb => ?_))
  split
  · exact wlp_pure hs
  · exact wlp_bind (enrolMember_rule hev hs (hb rfl) (fun _ _ _ hs' _ => wlp_pure hs'))

theorem claimSlot_keeps {ended : Event → Instant → Bool} {c u slot r : Id} {now : Instant} :
    V.Keeps held s (claimSlot ended c u slot r now) := by
  refine wlp_bind (lockJoinableEvent_rule (fun held1 x h1 hev hb => ?_))
  split
  · exact wlp_pure hs
  refine wlp_bind (wlp_select (fun _ held2 _ h2 => ?_))
  refine wlp_bind (lockSlot_rule (fun held3 y h3 => ?_))
  split
  · exact wlp_pure hs
  split
  · exact wlp_pure hs
  refine wlp_bind (slotFull_rule (fun held4 b h4 => ?_))
  split
  · exact wlp_pure hs
  refine wlp_bind (enrolMember_rule (h4 (h3 (h2 hev))) hs (hb rfl) (fun held5 s5 h5 hs5 hbans => ?_))
  have hb5 : s5.isBanned c u = false := by simpa only [Db.isBanned, hbans] using hb rfl
  exact wlp_bind (insertSlotClaim_rule (h5 (h4 (h3 (h2 hev)))) hs5 hb5 (fun _ _ _ hs6 _ => wlp_pure hs6))

omit hs in
theorem cancelSignupRegistrationIn_rule {c u : Id} {actorId : Option Id} {now : Instant} (hs : V.Inv owed s)
    {Q : List Lock → Bool → Db → Prop} (h : ∀ held' b s', V.Inv owed s' → Q held' b s') :
    V.wlp held s (cancelSignupRegistrationIn c u actorId now) Q := by
  refine wlp_statement (fun v => disciplined_of_quiet (fun w hw => (quiet_cancel now actorId _ w hw).1)) ?_
  intro v held' hv _ _ hrow
  have hrows := registrations_batch hv (fun r hr => List.mem_of_mem_filter hr) hrow
    (fun r hr => ⟨now, actorId, List.mem_map_of_mem hr⟩)
  have hbooks := hs.books.cancelAll now actorId _ ((List.filter_sublist.map _).nodup v.registrations.nodup) hrows
  refine h held' _ _ ((hs.quietAll (quiet_cancel now actorId _) hbooks).congr (fun y => ?_))
  have hz : ∀ r ∈ cancelSignupRegistrationIn.signups c u v, r.seatsOn y = 0 := by
    intro r hr
    have hp := (List.mem_filter.mp hr).2
    simp only [decide_eq_true_eq] at hp
    simp [Registration.seatsOn, hp.2.2.2]
  have hsum : ((cancelSignupRegistrationIn.signups c u v).map (Registration.seatsOn y)).sum = 0 := by
    rw [List.map_congr_left hz]
    simp
  unfold cancelSignupRegistrationIn.signups at hsum
  rw [hsum]
  simp

theorem leaveCleanup_keeps {c u : Id} {now : Instant} : V.Keeps held s (leaveCleanup c u now) := by
  refine wlp_bind (lockEvent_rule (fun held1 e h1 _ => ?_))
  split
  · exact wlp_pure hs
  split
  · exact wlp_pure hs
  refine wlp_bind (modifying_rule ⟨rfl, fun _ => rfl⟩ rfl rfl rfl hs (fun held2 h2 hs2 => ?_))
  refine wlp_bind (cancelSignupRegistrationIn_rule hs2 (fun held3 b s3 hs3 => ?_))
  exact wlp_bind (modifying_rule ⟨rfl, fun _ => rfl⟩ rfl rfl rfl hs3 (fun held4 _ hs4 => wlp_pure hs4))

theorem releaseSlot_keeps {c u : Id} : V.Keeps held s (releaseSlot c u) := by
  refine wlp_bind (wlp_select (fun _ held1 _ _ => ?_))
  split
  · exact wlp_pure hs
  split
  · exact wlp_pure hs
  · exact wlp_bind (modifying_rule ⟨rfl, fun _ => rfl⟩ rfl rfl rfl hs (fun _ _ hs' => wlp_pure hs'))

end Operations

end Views

end Civfix.Attendance
