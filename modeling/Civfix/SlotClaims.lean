import Civfix.SlotLocks

/-! # Slots are not overclaimed

Every operation spares the claims of slots, but for `claimSlot` and a registration with a slot. Both count the claims
under the row of the slot, so that the count still stands when they commit. -/
namespace Civfix.Attendance

open KeyedTables LockedTransactions

/-! ## What a transaction does to the claims -/

namespace Db

/-- No claim is made, and no slot goes. -/
structure Spared (s s' : Db) : Prop where
  stay : SlotsStay s s'
  claims : ∀ slot, NoNewClaims slot s s'

/-- The claims of the slot are within its capacity. -/
def Fits (s : Db) (slot : Id) : Prop := ∃ x, s.slots.find? slot = some x ∧ ∀ n ∈ x.capacity, s.claimsOn slot ≤ n

/-- Where a claim is made, the slot has room for it. -/
structure Filled (s s' : Db) : Prop where
  stay : SlotsStay s s'
  claims : ∀ slot, NoNewClaims slot s s' ∨ s'.Fits slot

variable {a b c : Db} {slot : Id}

theorem Spared.refl (a : Db) : Spared a a := ⟨.refl a, fun _ => .refl _ _⟩

theorem Spared.trans (h : Spared a b) (h' : Spared b c) : Spared a c :=
  ⟨h.stay.trans h'.stay, fun slot => (h.claims slot).trans (h'.claims slot)⟩

theorem Spared.filled (h : Spared a b) : Filled a b := ⟨h.stay, fun slot => .inl (h.claims slot)⟩

theorem Fits.of_spared (hf : a.Fits slot) (hstay : SlotsStay a b) (h : NoNewClaims slot a b) : b.Fits slot := by
  obtain ⟨x, hx, hn⟩ := hf
  exact ⟨x, hstay.find? hx, fun n hcap => Nat.le_trans h.claimsOn_le (hn n hcap)⟩

theorem Filled.trans (h : Filled a b) (h' : Filled b c) : Filled a c := by
  refine ⟨h.stay.trans h'.stay, fun slot => ?_⟩
  rcases h'.claims slot with hnew | hfits
  · rcases h.claims slot with hold | hfits
    · exact .inl (hold.trans hnew)
    · exact .inr (hfits.of_spared h'.stay hnew)
  · exact .inr hfits

theorem spared_applyAll (s : Db) {ws : List Write} (hws : ∀ w ∈ ws, w.slotLock = []) :
    Spared s (slotEngine.applyAll s ws) := by
  induction ws generalizing s with
  | nil => exact .refl s
  | cons w ws ih =>
    have hw : Spared s (s.apply w) :=
      ⟨slotsStay_write s w, fun slot => noNewClaims_write s (by rw [hws w List.mem_cons_self]; exact List.not_mem_nil)⟩
    exact hw.trans (ih (s.apply w) fun u hu => hws u (List.mem_cons_of_mem _ hu))

/-- A claim on a slot that has room. -/
theorem filled_claimSlot {s : Db} {x : Slot} (hx : s.slots.find? slot = some x)
    (hroom : ∀ n ∈ x.capacity, s.claimsOn slot < n) (cleanupId userId : Id) :
    Filled s (s.apply (.claimSlot cleanupId userId slot)) := by
  refine ⟨slotsStay_write s _, fun slot' => ?_⟩
  by_cases hslot : slot' = slot
  · subst hslot
    exact .inr ⟨x, hx, fun n hn => Nat.le_trans (claimsOn_claimSlot s cleanupId userId slot') (hroom n hn)⟩
  · refine .inl (noNewClaims_write s fun hmem => hslot ?_)
    cases List.mem_singleton.mp hmem
    rfl

end Db

/-! ## Rules -/

variable {α β : Type} {p : Stmt α} {f : α → Stmt β} {held : List Lock} {s : Db}

/-- The transaction changes the database along `R`, whatever its statements see. -/
def Moves (R : Db → Db → Prop) (p : Stmt α) : Prop :=
  ∀ held s, slotEngine.wlp slotEngine.Agree held s p (fun _ _ s' => R s s')

abbrev Spares : Stmt α → Prop := Moves Db.Spared

abbrev Fills : Stmt α → Prop := Moves Db.Filled

theorem Spares.fills (h : Spares p) : Fills p :=
  fun held s => slotEngine.wlp_mono (fun _ _ _ hs => hs.filled) (h held s)

theorem Spares.bind (hp : Spares p) (hf : ∀ a, Spares (f a)) : Spares (p >>= f) := fun held s =>
  (slotEngine.wlp_bind held s p f _).mpr (slotEngine.wlp_mono (fun held' a s' hs =>
    slotEngine.wlp_mono (fun _ _ _ hs' => hs.trans hs') (hf a held' s')) (hp held s))

theorem Fills.bind (hp : Fills p) (hf : ∀ a, Fills (f a)) : Fills (p >>= f) := fun held s =>
  (slotEngine.wlp_bind held s p f _).mpr (slotEngine.wlp_mono (fun held' a s' hs =>
    slotEngine.wlp_mono (fun _ _ _ hs' => hs.trans hs') (hf a held' s')) (hp held s))

theorem spares_pure (a : α) : Spares (pure a : Stmt α) := fun _ s => .refl s

theorem spares_abort (e : Failure) : Spares (.abort e : Stmt α) := fun _ _ => trivial

theorem fills_pure (a : α) : Fills (pure a : Stmt α) := (spares_pure a).fills

theorem covered_of_rowLocks {held : List Lock} {ws : List Write} (hrow : ∀ w ∈ ws, w.rowLocks ⊆ held)
    (hslot : ∀ w ∈ ws, w.slotLock ⊆ held) : slotEngine.Covered held ws := by
  intro w hw n hn
  rcases List.mem_append.mp hn with hn | hn
  · exact ⟨n, hrow w hw hn, fun _ hc => hc⟩
  · exact ⟨n, hslot w hw hn, fun _ hc => hc⟩

theorem spares_statement {locks : Db → List Lock} {writes : Db → List Write} {returning : Db → α}
    (hws : ∀ v, ∀ w ∈ writes v, w.slotLock = []) : Spares (statement locks writes returning) := by
  intro held s v _
  refine ⟨covered_of_rowLocks (fun w hw n hn => ?_) (fun w hw => ?_), Db.spared_applyAll s (hws v)⟩
  · simp only [List.mem_append, List.mem_flatMap]
    exact .inr (.inr ⟨w, hw, hn⟩)
  · rw [hws v w hw]
    exact List.nil_subset _

theorem spares_select (f : Db → α) : Spares (select f) := spares_statement fun _ _ hw => absurd hw List.not_mem_nil

theorem spares_selectFor (locks : Db → List Lock) (f : Db → α) : Spares (selectFor locks f) :=
  spares_statement fun _ _ hw => absurd hw List.not_mem_nil

theorem spares_modifying {writes : Db → List Write} (hws : ∀ v, ∀ w ∈ writes v, w.slotLock = []) :
    Spares (modifying writes) := spares_statement hws

theorem spares_write {w : Write} (hw : w.slotLock = []) : Spares (modifying fun _ => [w]) :=
  spares_modifying fun _ _ hu => List.mem_singleton.mp hu ▸ hw

theorem spares_inserting (check : Db → InsertCheck) {w : Write} (hw : w.slotLock = []) :
    Spares (inserting check w) := by
  intro held s v _
  have hws : ∀ u ∈ (if check v = .ok then [w] else []), u = w := by
    intro u hu
    split at hu
    · exact List.mem_singleton.mp hu
    · cases hu
  have hspared := Db.spared_applyAll s fun u hu => hws u hu ▸ hw
  refine ⟨covered_of_rowLocks (fun u hu n hn => ?_) (fun u hu => ?_), ?_⟩
  · rw [hws u hu] at hn
    exact List.mem_append_right _ hn
  · rw [hws u hu, hw]
    exact List.nil_subset _
  · revert hspared
    clear hws
    beta_reduce
    generalize check v = c
    intro hspared
    cases c with
    | violated c => trivial
    | ok | ignored => exact hspared

theorem Spares.unlessRefused {gate : Stmt (Option α)} {k : Stmt α} (hgate : Spares gate) (hk : Spares k) :
    Spares (unlessRefused gate k) := by
  refine hgate.bind fun r => ?_
  cases r with
  | some a => exact spares_pure a
  | none => exact hk

theorem Fills.unlessRefused {gate : Stmt (Option α)} {k : Stmt α} (hgate : Spares gate) (hk : Fills k) :
    Fills (unlessRefused gate k) := by
  refine hgate.fills.bind fun r => ?_
  cases r with
  | some a => exact fills_pure a
  | none => exact hk

theorem Spares.ignoring (h : Spares p) : Spares (do let _ ← p) := h.bind fun _ => spares_pure _

theorem Fills.ignoring (h : Fills p) : Fills (do let _ ← p) := h.bind fun _ => fills_pure _

/-! ## The two ways to claim a slot -/

variable {cleanupId userId slotId : Id}

/-- The row of the slot is held, and has room. -/
structure Room (held : List Lock) (slotId : Id) (s : Db) : Prop where
  locked : ⟨.slot slotId, .update⟩ ∈ held
  room : ∃ x, s.slots.find? slotId = some x ∧ ∀ n ∈ x.capacity, s.claimsOn slotId < n

theorem Room.mono {held' : List Lock} {s' : Db} (h : Room held slotId s) (hsub : held ⊆ held') (hs : Db.Spared s s') :
    Room held' slotId s' := by
  obtain ⟨x, hx, hn⟩ := h.room
  exact ⟨hsub h.locked, x, hs.stay.find? hx, fun n hcap =>
    Nat.lt_of_le_of_lt (hs.claims slotId).claimsOn_le (hn n hcap)⟩

/-- A claim where the count has left room. -/
theorem claim_of_room (h : Room held slotId s) :
    slotEngine.wlp slotEngine.Agree held s (modifying fun _ => [.claimSlot cleanupId userId slotId])
      (fun _ _ s' => Db.Filled s s') := by
  intro v _
  obtain ⟨x, hx, hn⟩ := h.room
  refine ⟨covered_of_rowLocks (fun w hw n hmem => ?_) (fun w hw n hmem => ?_), Db.filled_claimSlot hx hn _ _⟩
  · simp only [List.mem_append, List.mem_flatMap]
    exact .inr (.inr ⟨w, hw, hmem⟩)
  · cases List.mem_singleton.mp hw
    rw [List.mem_singleton.mp hmem]
    exact List.mem_append_left _ h.locked

/-- The count is of the row that is held, and it still stands at the commit. -/
theorem slotFull_room {slot : Slot} (hid : slot.id = slotId) (hlocked : ⟨.slot slotId, .update⟩ ∈ held)
    (hslot : s.slots.find? slotId = some slot) {Q : List Lock → Bool → Db → Prop}
    (hfull : ∀ held', held ⊆ held' → Q held' true s)
    (hroom : ∀ held', held ⊆ held' → Room held' slotId s → Q held' false s) :
    slotEngine.wlp slotEngine.Agree held s (claimSlotIn.slotFull slot) Q := by
  unfold claimSlotIn.slotFull
  split
  · next hcap =>
    refine hroom held (List.Subset.refl _) ⟨hlocked, slot, hslot, fun n hn => ?_⟩
    rw [hcap] at hn
    cases hn
  · next capacity hcap =>
    intro v hv
    refine ⟨covered_of_rowLocks (fun _ hw => absurd hw List.not_mem_nil) (fun _ hw => absurd hw List.not_mem_nil), ?_⟩
    have hsub : held ⊆ held ++ ([] ++ ([] : List Write).flatMap Write.rowLocks) := List.subset_append_left _ _
    have hclaims : Db.NoNewClaims slotId v s := (hv.2 _ (hsub hlocked)).2
    change Q _ (decide (capacity ≤ (v.slotClaims.rows.filter fun c => decide (c.slotId = slot.id)).length)) s
    by_cases hfits : capacity ≤ (v.slotClaims.rows.filter fun c => decide (c.slotId = slot.id)).length
    · rw [decide_eq_true hfits]
      exact hfull _ hsub
    · rw [decide_eq_false hfits]
      refine hroom _ hsub ⟨hsub hlocked, slot, hslot, fun n hn => ?_⟩
      rw [hcap] at hn
      cases hn
      rw [hid] at hfits
      exact Nat.lt_of_le_of_lt hclaims.claimsOn_le (Nat.lt_of_not_le hfits)

theorem lockSlot_found {Q : List Lock → Option Slot → Db → Prop} (hnone : ∀ held', held ⊆ held' → Q held' none s)
    (hfound : ∀ held' slot, held ⊆ held' → ⟨.slot slotId, .update⟩ ∈ held' → slot.id = slotId →
      s.slots.find? slotId = some slot → Q held' (some slot) s) :
    slotEngine.wlp slotEngine.Agree held s (claimSlotIn.lockSlot cleanupId slotId) Q := by
  intro v hv
  refine ⟨covered_of_rowLocks (fun _ hw => absurd hw List.not_mem_nil) (fun _ hw => absurd hw List.not_mem_nil), ?_⟩
  have hsub : held ⊆ held ++ ([⟨.slot slotId, .update⟩] ++ ([] : List Write).flatMap Write.rowLocks) :=
    List.subset_append_left _ _
  have hlocked : (⟨.slot slotId, .update⟩ : Lock) ∈
      held ++ ([⟨.slot slotId, .update⟩] ++ ([] : List Write).flatMap Write.rowLocks) := by simp
  have hrow : v.slots.find? slotId = s.slots.find? slotId := (hv.2 _ hlocked).1
  change Q _ ((v.slots.find? slotId).filter fun x => decide (x.cleanupId = cleanupId)) s
  cases hfind : (v.slots.find? slotId).filter fun x => decide (x.cleanupId = cleanupId) with
  | none => exact hnone _ hsub
  | some slot =>
    have hv' : v.slots.find? slotId = some slot := (Option.filter_eq_some_iff.mp hfind).1
    exact hfound _ slot hsub hlocked (Table.key_of_find? hv') (hrow ▸ hv')

theorem spares_lockEvent (mode : LockMode) (c : Id) : Spares (lockEvent mode c) := spares_selectFor _ _

theorem spares_loadRegistrationById (c r : Id) : Spares (loadRegistrationById c r) := spares_select _

theorem spares_insertMember (c : Id) (x : Subject) : Spares (insertMember c x) := by
  cases x with
  | user u => exact spares_write rfl
  | guest g => exact spares_pure _

theorem spares_ensureSignupRegistrationIn (c u r : Id) (now : Instant) :
    Spares (ensureSignupRegistrationIn c u r now) := by
  refine (spares_select _).bind fun ticketed => ?_
  split
  · exact spares_pure _
  · exact spares_inserting _ rfl

theorem spares_enrolMember (c u r : Id) (now : Instant) : Spares (enrolMember c u r now) :=
  (spares_insertMember c _).bind fun _ => spares_ensureSignupRegistrationIn c u r now

theorem spares_subjectBanned (c : Id) (x : Subject) : Spares (subjectBanned c x) := by
  cases x with
  | user u => exact spares_select _
  | guest g => exact spares_pure _

theorem spares_lockJoinableEvent (ended : Event → Instant → Bool) (c u : Id) (now : Instant) :
    Spares (lockJoinableEvent ended c u now) := by
  refine (spares_lockEvent _ _).bind fun event => ?_
  split
  · exact spares_pure _
  have hblocked : ∀ event, Spares (privateEventBlocksJoin event u) := by
    intro event
    unfold privateEventBlocksJoin
    split
    · exact spares_pure _
    · exact spares_select _
  refine (hblocked _).bind fun blocked => ?_
  split
  · exact spares_pure _
  split
  · exact spares_pure _
  split
  · exact spares_pure _
  · exact (spares_select _).bind fun banned => spares_pure _

theorem fills_claimSlotIn : Fills (claimSlotIn cleanupId userId slotId) := by
  intro held s
  refine (slotEngine.wlp_bind held s _ _ _).mpr (lockSlot_found (fun _ _ => trivial) ?_)
  intro held1 slot _ hlocked hid hslot
  refine (slotEngine.wlp_bind _ _ _ _ _).mpr (slotEngine.wlp_select fun v _ => ?_)
  split
  · exact fills_pure _ _ _
  refine (slotEngine.wlp_bind _ _ _ _ _).mpr (slotFull_room hid hlocked hslot (fun _ _ => trivial) ?_)
  intro held2 _ hroom
  exact claim_of_room hroom

theorem fills_claimSlot (ended : Event → Instant → Bool) (registrationId : Id) (now : Instant) :
    Fills (claimSlot ended cleanupId userId slotId registrationId now) := by
  refine (spares_lockJoinableEvent _ _ _ _).fills.bind fun refusal => ?_
  split
  · exact fills_pure _
  refine (spares_select _).fills.bind fun mine held s => ?_
  refine (slotEngine.wlp_bind held s _ _ _).mpr (lockSlot_found (fun _ _ => fills_pure _ _ _) ?_)
  intro held1 slot _ hlocked hid hslot
  dsimp only
  split
  · exact fills_pure _ _ _
  refine (slotEngine.wlp_bind _ _ _ _ _).mpr (slotFull_room hid hlocked hslot (fun _ _ => fills_pure _ _ _) ?_)
  intro held2 _ hroom
  -- The enrolment spares the claims, so the room is still there.
  refine (slotEngine.wlp_bind _ _ _ _ _).mpr (slotEngine.wlp_mono ?_
    (slotEngine.wlp_held (spares_enrolMember cleanupId userId registrationId now held2 s)))
  rintro held3 _ s3 ⟨hsub, hspared⟩
  refine (slotEngine.wlp_bind _ _ _ _ _).mpr (slotEngine.wlp_mono ?_ (claim_of_room (hroom.mono hsub hspared)))
  exact fun held4 _ s4 hfilled => hspared.filled.trans hfilled

end Civfix.Attendance
