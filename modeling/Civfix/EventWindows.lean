import Civfix.EventEdits

/-! # The window of an event

An edit is validated against the event as it was read, and written onto the event as it is at the
time of the write. Where the two agree on what the patch leaves alone, every event keeps a window of
an allowed length with its timed slots inside; where they do not, two edits that are each valid can
leave a window that neither of them would have been allowed to set. -/
namespace Civfix.EventEdits

open KeyedTables InterleavedCalls

/-- A slot with a window lies within the event's. -/
def Slot.Inside (w : Window) (x : Slot) : Prop :=
  ∀ a b, x.startsAt = some a → x.endsAt = some b → w.scheduledAt ≤ a ∧ b ≤ w.endsAt

/-- The window has an allowed length. -/
structure Window.Allowed (cfg : Config) (w : Window) : Prop where
  shortest : w.scheduledAt + cfg.minDurationMs ≤ w.endsAt
  longest : w.endsAt ≤ w.scheduledAt + cfg.maxDurationMs

structure Event.Sound (cfg : Config) (e : Event) : Prop where
  window : e.window.Allowed cfg
  slots : ∀ x ∈ e.slots.rows, x.Inside e.window

/-- Every event has a window of an allowed length, with its timed slots inside. -/
def WindowsSound (cfg : Config) (s : Shared) : Prop := Table.All (Event.Sound cfg) s.events

def SlotInput.Inside (w : Window) (d : SlotInput) : Prop :=
  ∀ a b, d.startsAt = some a → d.endsAt = some b → w.scheduledAt ≤ a ∧ b ≤ w.endsAt

/-! ## What the checks establish -/

section Checks

variable {cfg : Config} {w : Window}

theorem allowed_of_assertEventWindow {opensAt closesAt : Option Instant}
    (h : assertEventWindow cfg w opensAt closesAt = .ok ()) : w.Allowed cfg := by
  unfold assertEventWindow at h
  split at h
  · cases h
  · split at h
    · cases h
    · next hmin =>
      split at h
      · cases h
      · next hmax => exact ⟨Nat.le_of_not_lt hmin, Nat.le_of_not_lt hmax⟩

theorem inside_of_assertSlotWindow {x : SlotInput} (h : assertSlotWindow cfg x w = .ok ()) : x.Inside w := by
  intro a b ha hb
  rw [assertSlotWindow, ha, hb] at h
  simp only [assertSlotInsideEvent] at h
  split at h
  · cases h
  · next hout =>
    obtain ⟨hstart, hend⟩ := not_or.mp hout
    exact ⟨Nat.le_of_not_lt hstart, Nat.le_of_not_lt hend⟩

theorem inside_of_assertEachSlot {seen : List (String × Option Instant × Option Instant)} {xs : List SlotInput}
    (h : assertEachSlot cfg w seen xs = .ok ()) : ∀ x ∈ xs, x.Inside w := by
  induction xs generalizing seen with
  | nil => simp
  | cons x xs ih =>
    unfold assertEachSlot at h
    split at h
    · cases h
    · next u hx =>
      split at h
      · cases h
      · simp only [List.forall_mem_cons]
        exact ⟨inside_of_assertSlotWindow hx, ih h⟩

theorem inside_of_toDesiredSlots {xs : List SlotInput} (h : toDesiredSlots cfg xs w = .ok ()) :
    ∀ x ∈ xs, x.Inside w := by
  unfold toDesiredSlots at h
  split at h
  · cases h
  · exact inside_of_assertEachSlot h

theorem Slot.inside_of_not_outside {x : Slot} (h : x.outside w = false) : x.Inside w := by
  intro a b ha hb
  simp only [Slot.outside, ha, hb, decide_eq_false_iff_not] at h
  obtain ⟨hstart, hend⟩ := not_or.mp h
  exact ⟨Nat.le_of_not_lt hstart, Nat.le_of_not_lt hend⟩

theorem inside_of_assertTimedSlotsFitWindow {t : Table Slot.id} (h : assertTimedSlotsFitWindow t w = .ok ()) :
    ∀ x ∈ t.rows, x.Inside w := by
  unfold assertTimedSlotsFitWindow at h
  split at h
  · cases h
  · next hany =>
    intro x hx
    refine Slot.inside_of_not_outside ?_
    cases ho : x.outside w with
    | false => rfl
    | true => exact absurd (List.any_eq_true.mpr ⟨x, hx, ho⟩) hany

end Checks

/-! ## The slots that a write leaves -/

/-- A slot of the new table is one that the write leaves alone, or it carries the written times. -/
theorem mem_writeSlot {x : Table Slot.id × SlotId} {d : SlotInput} {y : Slot} (h : y ∈ (writeSlot x d).1.rows) :
    (y ∈ x.1.rows ∧ d.id ≠ some y.id) ∨ (y.startsAt = d.startsAt ∧ y.endsAt = d.endsAt) := by
  unfold writeSlot at h
  rw [Table.mem_rows_iff] at h
  split at h
  · next id hid =>
    rw [Table.find?_modify] at h
    split at h
    · obtain ⟨z, -, rfl⟩ := Option.map_eq_some_iff.mp h
      exact .inr ⟨rfl, rfl⟩
    · next hne =>
      refine .inl ⟨Table.mem_rows_iff.mpr h, fun he => hne ?_⟩
      rw [hid, Option.some.injEq] at he
      exact he.symm
  · next hid =>
    rw [Table.find?_insert] at h
    split at h
    · cases hf : x.1.find? y.id with
      | none =>
        rw [hf, Option.getD_none, Option.some.injEq] at h
        subst h
        exact .inr ⟨rfl, rfl⟩
      | some z =>
        rw [hf, Option.getD_some, Option.some.injEq] at h
        subst h
        exact .inl ⟨Table.mem_rows_iff.mpr hf, by simp [hid]⟩
    · exact .inl ⟨Table.mem_rows_iff.mpr h, by simp [hid]⟩

theorem mem_foldl_writeSlot {x : Table Slot.id × SlotId} {ds : List SlotInput} {y : Slot}
    (h : y ∈ (ds.foldl writeSlot x).1.rows) :
    (y ∈ x.1.rows ∧ ∀ d ∈ ds, d.id ≠ some y.id) ∨ ∃ d ∈ ds, y.startsAt = d.startsAt ∧ y.endsAt = d.endsAt := by
  induction ds generalizing x with
  | nil => exact .inl ⟨h, by simp⟩
  | cons d ds ih =>
    rcases ih h with ⟨h, hrest⟩ | ⟨d', hd', he⟩
    · rcases mem_writeSlot h with ⟨h, hne⟩ | he
      · exact .inl ⟨h, List.forall_mem_cons.mpr ⟨hne, hrest⟩⟩
      · exact .inr ⟨d, by simp, he⟩
    · exact .inr ⟨d', by simp [hd'], he⟩

theorem mem_reconcileSlots {stored : Table Slot.id} {next : SlotId} {ds : List SlotInput} {y : Slot}
    (h : y ∈ (reconcileSlots stored next ds).1.rows) : ∃ d ∈ ds, y.startsAt = d.startsAt ∧ y.endsAt = d.endsAt := by
  rcases mem_foldl_writeSlot h with ⟨hkept, hnone⟩ | hd
  · rw [Table.mem_rows_iff, Table.find?_filter] at hkept
    obtain ⟨d, hd, hid⟩ := List.any_eq_true.mp (Option.filter_eq_some_iff.mp hkept).2
    exact absurd (of_decide_eq_true hid) (hnone d hd)
  · exact hd

/-! ## An edit on its way -/

/-- What the checks before the write have established about the event that was read. -/
structure Validated (cfg : Config) (p : Patch) (current : Event) (listed : Option (Table Slot.id)) : Prop where
  window : (p.window current).Allowed cfg
  desired : ∀ ds, p.slots = some ds → ∀ d ∈ ds, d.Inside (p.window current)
  listed : p.slots = none → ∀ t, listed = some t → ∀ x ∈ t.rows, x.Inside (p.window current)

/-- What is known of a call at each await. -/
def Awaits (cfg : Config) : Await → Prop
  | .reading _ => True
  | .listing r current _ => ∀ ds, r.patch.slots = some ds → ∀ d ∈ ds, d.Inside (r.patch.window current)
  | .writing r current listed _ => Validated cfg r.patch current listed

theorem awaits_afterSlots {cfg : Config} {r : Request} {current : Event} {listed : Option (Table Slot.id)}
    {ended : Option Failure} {a : Await} (h : afterSlots cfg r current listed ended = .await a)
    (hdesired : ∀ ds, r.patch.slots = some ds → ∀ d ∈ ds, d.Inside (r.patch.window current))
    (hlisted : r.patch.slots = none → ∀ t, listed = some t → ∀ x ∈ t.rows, x.Inside (r.patch.window current)) :
    Awaits cfg a := by
  unfold afterSlots at h
  split at h
  · cases h
  · next u hw =>
    cases h
    refine ⟨?_, hdesired, hlisted⟩
    unfold resolveHostWrite at hw
    cases htz : assertValidTimezone cfg r.patch.timezone with
    | error f => simp [htz, bind, Except.bind] at hw
    | ok v =>
      simp only [htz, bind, Except.bind] at hw
      exact allowed_of_assertEventWindow hw

theorem awaits_afterReading {cfg : Config} {now : Instant} {r : Request} {current : Event} {a : Await}
    (h : afterReading cfg now r current = .await a) : Awaits cfg a := by
  unfold afterReading at h
  split at h
  · cases h
  · split at h
    · cases h
    · split at h
      · next hslots =>
        split at h
        · refine awaits_afterSlots h (fun ds hds => ?_) (fun _ t ht => by cases ht)
          rw [hslots] at hds
          cases hds
        · cases h
          intro ds hds
          rw [hslots] at hds
          cases hds
      · cases h
      · next x xs hslots =>
        split at h
        · cases h
        · next u hdesired =>
          cases h
          intro ds hds
          rw [hslots, Option.some.injEq] at hds
          exact hds ▸ inside_of_toDesiredSlots hdesired

theorem awaits_afterListing {cfg : Config} {r : Request} {current : Event} {t : Table Slot.id} {ended : Option Failure}
    {a : Await} (hdesired : ∀ ds, r.patch.slots = some ds → ∀ d ∈ ds, d.Inside (r.patch.window current))
    (h : afterListing cfg r current t ended = .await a) : Awaits cfg a := by
  unfold afterListing at h
  split at h
  · cases h
  · next u hfit =>
    refine awaits_afterSlots h hdesired (fun hslots t' ht' => ?_)
    rw [hslots] at hfit
    exact Option.some.inj ht' ▸ inside_of_assertTimedSlotsFitWindow hfit

/-! ## When a write is made on what was read -/

/-- The patch sets a time of the event or its slots. -/
def Patch.Reshapes (p : Patch) : Prop := p.scheduledAt ≠ none ∨ p.endsAt.join ≠ none ∨ p.slots ≠ none

instance (p : Patch) : Decidable p.Reshapes := inferInstanceAs (Decidable (_ ∨ _ ∨ _))

/-- At the write, the event is as the edit read it where the edit relies on it: the half of the
window that the patch leaves alone is the one that was read, and a patch that moves the window and
leaves the slots alone meets only slots that it listed. -/
structure Fresh (p : Patch) (current : Event) (listed : Option (Table Slot.id)) (e : Event) : Prop where
  start : p.scheduledAt = none → e.scheduledAt = current.scheduledAt
  «end» : p.endsAt.join = none → e.endsAt = current.endsAt
  slots : p.slots = none → p.window e = e.window ∨ ∃ t ∈ listed, ∀ x ∈ e.slots.rows, x ∈ t.rows

instance (p : Patch) (current : Event) (listed : Option (Table Slot.id)) (e : Event) :
    Decidable (Fresh p current listed e) :=
  decidable_of_iff
    ((p.scheduledAt = none → e.scheduledAt = current.scheduledAt) ∧ (p.endsAt.join = none → e.endsAt = current.endsAt) ∧
      (p.slots = none → p.window e = e.window ∨ ∃ t ∈ listed, ∀ x ∈ e.slots.rows, x ∈ t.rows))
    ⟨fun h => ⟨h.1, h.2.1, h.2.2⟩, fun h => ⟨h.start, h.end, h.slots⟩⟩

theorem Fresh.window {p : Patch} {current e : Event} {listed : Option (Table Slot.id)} (h : Fresh p current listed e) :
    p.window e = p.window current := by
  have hs : p.scheduledAt.getD e.scheduledAt = p.scheduledAt.getD current.scheduledAt := by
    cases hp : p.scheduledAt with
    | none => exact h.start hp
    | some t => rfl
  have he : p.endsAt.join.getD e.endsAt = p.endsAt.join.getD current.endsAt := by
    cases hp : p.endsAt.join with
    | none => exact h.end hp
    | some t => rfl
  unfold Patch.window
  rw [hs, he]

theorem Event.Sound.apply_of_not_reshapes {cfg : Config} {p : Patch} {e : Event} (h : e.Sound cfg) (hp : ¬ p.Reshapes) :
    (p.apply e).Sound cfg ∧ p.slots = none := by
  simp only [Patch.Reshapes, not_or, ne_eq, not_not] at hp
  have hw : (p.apply e).window = e.window := by simp [Event.window, Patch.apply, hp.1, hp.2.1]
  exact ⟨⟨hw ▸ h.window, hw ▸ h.slots⟩, hp.2.2⟩

/-- A fresh write of a validated edit leaves a sound event. -/
theorem Event.Sound.apply {cfg : Config} {p : Patch} {current e : Event} {listed : Option (Table Slot.id)}
    (h : e.Sound cfg)
    (hv : Validated cfg p current listed) (hf : Fresh p current listed e) (hslots : p.slots = none) :
    (p.apply e).Sound cfg := by
  have hw : (p.apply e).window = p.window e := rfl
  refine ⟨by rw [hw, hf.window]; exact hv.window, fun x hx => ?_⟩
  rw [hw]
  rcases hf.slots hslots with hsame | ⟨t, ht, hsub⟩
  · rw [hsame]
    exact h.slots x hx
  · rw [hf.window]
    exact hv.listed hslots t ht x (hsub x hx)

theorem Event.Sound.apply_slots {cfg : Config} {p : Patch} {current e : Event} {listed : Option (Table Slot.id)}
    {ds : List SlotInput} (next : SlotId) (hv : Validated cfg p current listed) (hf : Fresh p current listed e)
    (hslots : p.slots = some ds) :
    Event.Sound cfg { p.apply e with slots := (reconcileSlots e.slots next ds).1 } := by
  have hw : ({ p.apply e with slots := (reconcileSlots e.slots next ds).1 } : Event).window = p.window current :=
    hf.window
  refine ⟨hw ▸ hv.window, fun x hx => ?_⟩
  rw [hw]
  obtain ⟨d, hd, hstart, hend⟩ := mem_reconcileSlots hx
  intro a b ha hb
  exact hv.desired ds hslots d hd a b (hstart ▸ ha) (hend ▸ hb)

/-! ## Every run -/

abbrev World := InterleavedCalls.World Shared Request Await
abbrev Move := InterleavedCalls.Move Request Change

/-- A write that reshapes its event is made on the event that the edit read. -/
def FreshAt (s : Shared) : Await → Prop
  | .writing r current listed _ => r.patch.Reshapes → ∀ e ∈ s.events.find? r.id, Fresh r.patch current listed e
  | .reading _ | .listing .. => True

instance (s : Shared) : (a : Await) → Decidable (FreshAt s a)
  | .writing .. => inferInstanceAs (Decidable (_ → ∀ e ∈ _, _))
  | .reading _ | .listing .. => inferInstanceAs (Decidable True)

/-- Every write of an edit that reshapes its event is made on the event that the edit read. -/
def FreshWrites (w : World) : Move → Prop
  | .access i _ => ∀ c ∈ w.call i, FreshAt w.shared c.await
  | .start _ | .crash _ | .environment _ => True

instance (w : World) : (m : Move) → Decidable (FreshWrites w m)
  | .access .. => inferInstanceAs (Decidable (∀ c ∈ _, _))
  | .start _ | .crash _ | .environment _ => inferInstanceAs (Decidable True)

theorem windowsSound_write {cfg : Config} {s : Shared} {r : Request} {current : Event} {listed : Option (Table Slot.id)}
    {ended : Option Failure} (hs : WindowsSound cfg s) (hv : Validated cfg r.patch current listed)
    (hf : FreshAt s (.writing r current listed ended)) :
    WindowsSound cfg (s.updateCleanupWithEdits cfg r.id r.patch ended).1 := by
  unfold Shared.updateCleanupWithEdits
  split
  · exact hs
  · next e he =>
    split
    · exact hs
    · split
      · exact hs
      · split
        · exact hs
        · split
          · next hslots =>
            refine Table.All.modify hs r.id r.patch.apply (fun _ => rfl) (fun x hx => ?_)
            by_cases hp : r.patch.Reshapes
            · exact (hs r.id x hx).apply hv (hf hp x hx) hslots
            · exact ((hs r.id x hx).apply_of_not_reshapes hp).1
          · next ds hslots =>
            split
            · exact hs
            · refine Table.All.modify hs r.id
                (fun x => { r.patch.apply x with slots := (reconcileSlots e.slots s.nextSlot ds).1 }) (fun _ => rfl)
                (fun x hx => ?_)
              obtain rfl : e = x := Option.some.inj (he.symm.trans hx)
              exact Event.Sound.apply_slots _ hv (hf (.inr (.inr (by simp [hslots]))) e hx) hslots

theorem bind_ok {α β : Type} {x : Except Failure α} {f : α → Except Failure β} {b : β} (h : (x >>= f) = .ok b) :
    ∃ a, x = .ok a ∧ f a = .ok b := by
  cases x with
  | error e => cases h
  | ok a => exact ⟨a, rfl, h⟩

theorem windowsSound_createEvent {cfg : Config} {s s' : Shared} {x : NewEvent} (hs : WindowsSound cfg s)
    (h : s.createEvent cfg x = .ok s') : WindowsSound cfg s' := by
  unfold Shared.createEvent at h
  split at h
  · cases h
  · obtain ⟨_, hslots, h⟩ := bind_ok h
    obtain ⟨_, -, h⟩ := bind_ok h
    obtain ⟨_, hwindow, h⟩ := bind_ok h
    cases h
    refine hs.insert ⟨allowed_of_assertEventWindow hwindow, fun y hy => ?_⟩
    rcases mem_foldl_writeSlot hy with ⟨hempty, -⟩ | ⟨d, hd, hstart, hend⟩
    · simp at hempty
    · intro a b ha hb
      exact inside_of_toDesiredSlots hslots d hd a b (hstart ▸ ha) (hend ▸ hb)

theorem windowsSound_environment {cfg : Config} {s s' : Shared} {e : Change} (hs : WindowsSound cfg s)
    (h : environment cfg s e = some s') : WindowsSound cfg s' := by
  cases e with
  | tick ms =>
    cases h
    exact hs
  | create x =>
    cases hx : s.createEvent cfg x with
    | error f => simp [environment, hx, Except.toOption] at h
    | ok s₁ =>
      simp only [environment, hx, Except.toOption, Option.some.injEq] at h
      exact h ▸ windowsSound_createEvent hs hx
  | cancel id =>
    cases h
    exact Table.All.modify hs id (fun e => { e with status := .cancelled }) (fun _ => rfl)
      (fun x hx => ⟨(hs id x hx).window, (hs id x hx).slots⟩)

/-- What one access of an edit does, when a write is made on what was read. -/
theorem holds_access {cfg : Config} {s s' : Shared} {a : Await} {n : Step} (hs : WindowsSound cfg s) (ha : Awaits cfg a)
    (hf : FreshAt s a) (h : (s', n) ∈ access cfg s a) : WindowsSound cfg s' ∧ ∀ p, n = .await p → Awaits cfg p := by
  cases a with
  | reading r =>
    simp only [access, List.mem_cons, Prod.mk.injEq, List.mem_nil_iff, or_false] at h
    rcases h with ⟨rfl, rfl⟩ | ⟨rfl, rfl⟩
    · refine ⟨hs, fun p hp => ?_⟩
      split at hp
      · cases hp
      · exact awaits_afterReading hp
    · exact ⟨hs, fun p hp => by cases hp⟩
  | listing r current ended =>
    simp only [access, List.mem_cons, Prod.mk.injEq, List.mem_nil_iff, or_false] at h
    rcases h with ⟨rfl, rfl⟩ | ⟨rfl, rfl⟩
    · exact ⟨hs, fun p hp => awaits_afterListing ha hp⟩
    · exact ⟨hs, fun p hp => by cases hp⟩
  | writing r current listed ended =>
    simp only [access, List.mem_cons, Prod.mk.injEq, List.mem_nil_iff, or_false] at h
    rcases h with ⟨rfl, rfl⟩ | ⟨rfl, rfl⟩
    · exact ⟨windowsSound_write hs ha hf, fun p hp => by cases hp⟩
    · exact ⟨hs, fun p hp => by cases hp⟩

/-- Where every write is made on what its edit read, every event keeps an allowed window with its
timed slots inside. -/
theorem windows_sound_of_fresh_writes (cfg : Config) {s : Shared} (hs : WindowsSound cfg s) {w : World}
    (h : (machine cfg).Run FreshWrites (.initial s) w) : WindowsSound cfg w.shared := by
  have hinv : Machine.Holds (WindowsSound cfg) (fun _ _ c => Awaits cfg c.await) w := by
    refine h.invariant ⟨hs, by simp⟩ ?_
    intro v v' m r hv hok hstep
    refine hv.step hstep ?_ ?_ ?_
    · rintro o s p - he
      cases he
      exact ⟨hv.shared, trivial, hv.calls⟩
    · rintro i k c s n hm hc hmem
      subst hm
      obtain ⟨hs', hp⟩ := holds_access hv.shared (hv.calls i c hc) (hok c hc) hmem
      exact ⟨hs', hp, fun j d _ hd => hv.calls j d hd⟩
    · rintro e s - he
      exact ⟨windowsSound_environment hv.shared he, hv.calls⟩
  exact hinv.shared

/-! ## Two edits at once -/

/-- Minutes, as milliseconds. -/
def minutes (n : ℕ) : Instant := n * MS_PER_MINUTE

def sampleConfig : Config where
  minDurationMinutes := 15
  maxDurationMinutes := 1440
  minSlotMinutes := 15
  maxSlots := 20
  defaultDurationMs := 120 * MS_PER_MINUTE
  hasEventEnded := fun _ _ ends now => decide (ends ≤ now)
  derivesDone := fun _ _ ends now => decide (ends ≤ now)
  validTimezone := fun _ => true
  titleKey := id

/-- A two hour event without timed slots. -/
def sampleEvent : Event := ⟨1, .upcoming, minutes 0, minutes 120, none, none, none,
    (Table.empty _).insert ⟨1, "Crew", none, none⟩⟩

def sampleState : Shared := ⟨0, (Table.empty _).insert sampleEvent, 2⟩

theorem windowsSound_sampleState : WindowsSound sampleConfig sampleState := by
  refine Table.All.insert (by simp [Table.All]) ⟨⟨by decide, by decide⟩, ?_⟩
  intro x hx a b ha
  simp only [sampleEvent, Table.insert, Table.empty] at hx
  simp_all

/-- One edit ends the event earlier. -/
def endEarlier : Request := ⟨1, { endsAt := some (some (minutes 110)) }⟩

/-- The other starts it later. -/
def startLater : Request := ⟨1, { scheduledAt := some (minutes 100) }⟩

def oneEdit : List Move := [.start endEarlier, .access 0 0, .access 0 0, .access 0 0]

/-- Both edits read the event before either of them writes. -/
def twoEdits : List Move :=
  [.start endEarlier, .start startLater, .access 0 0, .access 1 0, .access 0 0, .access 1 0, .access 0 0, .access 1 0]

theorem windows_sound_after_one_edit : ∃ w, (machine sampleConfig).Run FreshWrites (.initial sampleState) w ∧
    w.shared.events.find? 1 = some { sampleEvent with endsAt := minutes 110 } ∧ WindowsSound sampleConfig w.shared := by
  have hp : ∃ w, (machine sampleConfig).perform (.initial sampleState) oneEdit = some w ∧
      w.shared.events.find? 1 = some { sampleEvent with endsAt := minutes 110 } := ⟨_, rfl, rfl⟩
  obtain ⟨w, hw, he⟩ := hp
  have hrun : (machine sampleConfig).Run FreshWrites (.initial sampleState) w :=
    Machine.run_of_perform (by decide) hw
  exact ⟨w, hrun, he, windows_sound_of_fresh_writes sampleConfig windowsSound_sampleState hrun⟩

theorem two_edits_break_the_window : ¬ ∀ (cfg : Config) (s : Shared) (w : World), WindowsSound cfg s →
    (machine cfg).Run (fun _ _ => True) (.initial s) w → WindowsSound cfg w.shared := by
  intro h
  have hp : ∃ w, (machine sampleConfig).perform (.initial sampleState) twoEdits = some w ∧
      (w.shared.events.find? 1).map Event.window = some ⟨minutes 100, minutes 110⟩ := ⟨_, rfl, rfl⟩
  obtain ⟨w, hw, he⟩ := hp
  obtain ⟨e, he, hwindow⟩ := Option.map_eq_some_iff.mp he
  have hshort := (h sampleConfig sampleState w windowsSound_sampleState
    (Machine.free_of_perform hw) 1 e he).window.shortest
  rw [hwindow] at hshort
  exact absurd hshort (by decide)

end Civfix.EventEdits
