import Civfix.AttendanceOperations

/-! # The seat ledger

`reserved_seats` of a ticket type against the seats its rows hold: the parties of its
registered registrations and of its offered waitlist entries. In the middle of a
transaction the two differ by what is `owed`: seats taken but not yet given to a row are
owed positively, seats given back before their row lets go negatively. `Books` states the
balance for a given debt, and each lemma below says how one write moves it.

With `exact` false the books only say that no seat is held without being reserved, which
survives a release that gives back too little; with `exact` true they say the two agree. -/
namespace Civfix.Attendance

open KeyedTables LockedTransactions

/-- The seats a registration holds on a ticket type. -/
def Registration.seatsOn (t : Id) (r : Registration) : ℕ :=
  if r.status = .registered ∧ r.ticketTypeId = some t then r.partySize else 0

namespace WaitlistEntry

/-- The seats an entry holds on a ticket type: an offer holds its party. -/
def seatsOn (t : Id) (w : WaitlistEntry) : ℕ :=
  if w.status = .offered ∧ w.ticketTypeId = t then w.partySize else 0

/-- `offered_at` tells the two active statuses apart. -/
def Stamped (w : WaitlistEntry) : Prop :=
  (w.status = .waiting → w.offeredAt = none) ∧ (w.status = .offered → w.offeredAt.isSome)

/-- The partial unique indexes on active entries. -/
def index (w : WaitlistEntry) : Option (Id × Subject) := if w.Active then some (w.ticketTypeId, w.subject) else none

end WaitlistEntry

namespace Db

def held (s : Db) (t : Id) : ℕ :=
  s.registrations.total (Registration.seatsOn t) + s.waitlist.total (WaitlistEntry.seatsOn t)

def reserved (s : Db) (t : Id) : ℕ := (s.ticketTypes.find? t).elim 0 (·.reservedSeats)

/-- What the constraints of the schema promise about the rows that hold seats. -/
structure WellFormed (s : Db) : Prop where
  registrations : s.registrations.All (fun r => ∀ t ∈ r.ticketTypeId, s.HasType r.cleanupId t)
  waitlist : s.waitlist.All (fun w => s.HasType w.cleanupId w.ticketTypeId ∧ w.Stamped)
  queue : s.waitlist.Unique WaitlistEntry.index
  ticketTypes : s.ticketTypes.All (fun t => ∀ n ∈ t.capacity, t.reservedSeats ≤ n)

structure Books (exact : Prop) (owed : Id → ℤ) (s : Db) : Prop extends s.WellFormed where
  covered : ∀ t, (s.held t : ℤ) + owed t ≤ s.reserved t
  exact : exact → ∀ t, (s.reserved t : ℤ) = s.held t + owed t

/-- A debt of `n` seats on one ticket type. -/
def owing (t : Id) (n : ℕ) (y : Id) : ℤ := if y = t then n else 0

@[simp] theorem owing_self (t : Id) (n : ℕ) : owing t n t = n := if_pos rfl

theorem owing_of_ne {t y : Id} (h : y ≠ t) (n : ℕ) : owing t n y = 0 := if_neg h

variable {ex : Prop} {owed owed' : Id → ℤ} {s s' : Db}

theorem HasType.mono {c t : Id} (h : TypeStays t s s') (ht : s.HasType c t) : s'.HasType c t := by
  obtain ⟨x, hx, hc⟩ := ht
  obtain ⟨x', hx', he⟩ := h x hx
  exact ⟨x', hx', he.trans hc⟩

namespace Books

/-- A change of the debt that matches the change of the two totals. -/
theorem rebalance (h : Books ex owed s) (hw : s'.WellFormed)
    (he : ∀ t, (s'.reserved t : ℤ) - s'.held t - owed' t = s.reserved t - s.held t - owed t) :
    Books ex owed' s' := by
  refine ⟨hw, fun t => ?_, fun hx t => ?_⟩
  · have h1 := h.covered t
    have h2 := he t
    omega
  · have h1 := h.exact hx t
    have h2 := he t
    omega

theorem forgive (h : Books ex owed s) (hle : ∀ t, owed' t ≤ owed t) (hx : ex → ∀ t, owed' t = owed t) :
    Books ex owed' s := by
  refine ⟨h.toWellFormed, fun t => ?_, fun hex t => ?_⟩
  · have h1 := h.covered t
    have h2 := hle t
    omega
  · rw [hx hex t]
    exact h.exact hex t

theorem congr (h : Books ex owed s) (he : ∀ t, owed' t = owed t) : Books ex owed' s :=
  h.forgive (fun t => le_of_eq (he t)) (fun _ => he)

theorem of_eq (h : Books ex owed s) (hr : s'.registrations = s.registrations) (hw : s'.waitlist = s.waitlist)
    (ht : s'.ticketTypes = s.ticketTypes) : Books ex owed s' := by
  have hty : ∀ {c t}, s.HasType c t → s'.HasType c t := by
    intro c t hx
    simpa only [HasType, ht] using hx
  refine h.rebalance ⟨?_, ?_, hw ▸ h.queue, ht ▸ h.ticketTypes⟩ (fun t => ?_)
  · rw [hr]
    exact h.registrations.imp (fun r hx t ht => hty (hx t ht))
  · rw [hw]
    exact h.waitlist.imp (fun w hx => ⟨hty hx.1, hx.2⟩)
  · simp only [reserved, held, hr, hw, ht]

/-! ### Ticket types -/

/-- A rewrite of one ticket type that keeps its event moves the reserved seats only. -/
private theorem modifyType (h : Books ex owed s) (t : Id) (f : TicketType → TicketType)
    (hf : ∀ x, (f x).id = x.id) (hc : ∀ x, (f x).cleanupId = x.cleanupId)
    (hcap : ∀ x, s.ticketTypes.find? t = some x → ∀ n ∈ (f x).capacity, (f x).reservedSeats ≤ n)
    (he : ∀ x, s.ticketTypes.find? t = some x →
      ((f x).reservedSeats : ℤ) - owed' t = x.reservedSeats - owed t)
    (hne : ∀ x, x ≠ t → owed' x = owed x) (hnone : s.ticketTypes.find? t = none → owed' t = owed t) :
    Books ex owed' { s with ticketTypes := s.ticketTypes.modify t f hf } := by
  have hstay : ∀ x, TypeStays x s { s with ticketTypes := s.ticketTypes.modify t f hf } :=
    fun x => .modify .refl x _ t f hf hc
  refine h.rebalance ⟨?_, ?_, h.queue, h.ticketTypes.modify t f hf hcap⟩ (fun x => ?_)
  · exact h.registrations.imp (fun r hx t ht => (hx t ht).mono (hstay t))
  · exact h.waitlist.imp (fun w hx => ⟨hx.1.mono (hstay _), hx.2⟩)
  · simp only [reserved, held, Table.find?_modify]
    by_cases hx : x = t
    · subst hx
      cases hf' : s.ticketTypes.find? x with
      | none =>
        have := hnone hf'
        simp only [↓reduceIte, Option.map_none, Option.elim_none]
        omega
      | some y =>
        have := he y hf'
        simp only [↓reduceIte, Option.map_some, Option.elim_some]
        omega
    · simp only [hx, ↓reduceIte, hne x hx]

theorem reserve (h : Books ex owed s) {t : Id} {n : ℕ} {x : TicketType} (hx : s.ticketTypes.find? t = some x)
    (hcap : ∀ c ∈ x.capacity, x.reservedSeats + n ≤ c) :
    Books ex (fun y => owed y + owing t n y) (s.apply (.reserveSeats t n)) := by
  refine h.modifyType t _ (TicketType.reserve_id n) (fun _ => rfl) ?_ ?_ ?_ ?_
  · intro y hy c hc
    obtain rfl : x = y := Option.some.inj (hx.symm.trans hy)
    exact hcap c hc
  · intro y _
    simp only [TicketType.reserve, owing_self]
    omega
  · intro y hy
    rw [owing_of_ne hy, add_zero]
  · intro hn
    simp [hx] at hn

/-- Seats that are owed, or held by rows, are on the ticket type, so the release never stops at zero. -/
theorem release (h : Books ex owed s) {t : Id} {n : ℕ} (hn : (n : ℤ) ≤ s.held t + owed t) :
    Books ex (fun y => owed y - owing t n y) (s.apply (.releaseSeats t n)) := by
  have hcov := h.covered t
  refine h.modifyType t _ (TicketType.release_id n) (fun _ => rfl) ?_ ?_ ?_ ?_
  · intro y hy c hc
    have := h.ticketTypes t y hy c hc
    simp only [TicketType.release]
    omega
  · intro y hy
    simp only [reserved, hy, Option.elim_some] at hcov
    simp only [TicketType.release, owing_self]
    omega
  · intro y hy
    rw [owing_of_ne hy, sub_zero]
  · intro hnone
    simp only [reserved, hnone, Option.elim_none] at hcov
    rw [owing_self]
    omega

theorem setColumns (h : Books ex owed s) {t : Id} {c : TicketTypeColumns}
    (hcap : ∀ x, s.ticketTypes.find? t = some x → ∀ n ∈ c.capacity, x.reservedSeats ≤ n) :
    Books ex owed (s.apply (.setTicketType t c)) :=
  h.modifyType t _ (TicketType.setColumns_id c) (fun _ => rfl) hcap (fun _ _ => rfl) (fun _ _ => rfl) (fun _ => rfl)

/-- A ticket type without rows holds nothing. -/
private theorem held_eq_zero {t : Id} (hr : s.registrations.All (fun r => r.ticketTypeId ≠ some t))
    (hw : s.waitlist.All (fun w => w.ticketTypeId ≠ t)) : s.held t = 0 := by
  have h1 : s.registrations.total (Registration.seatsOn t) = 0 := by
    rw [Table.total, List.sum_eq_zero]
    intro n hn
    obtain ⟨r, hmem, rfl⟩ := List.mem_map.mp hn
    simp [Registration.seatsOn, hr r.id r (Table.mem_rows_iff.mp hmem)]
  have h2 : s.waitlist.total (WaitlistEntry.seatsOn t) = 0 := by
    rw [Table.total, List.sum_eq_zero]
    intro n hn
    obtain ⟨w, hmem, rfl⟩ := List.mem_map.mp hn
    simp [WaitlistEntry.seatsOn, hw w.id w (Table.mem_rows_iff.mp hmem)]
  simp only [held, h1, h2]

theorem insertType (h : Books ex owed s) {x : TicketType} (hnew : s.ticketTypes.find? x.id = none)
    (hx : x.reservedSeats = 0) : Books ex owed (s.apply (.insertTicketType x)) := by
  have hstay : ∀ t, TypeStays t s (s.apply (.insertTicketType x)) := fun t => .insert .refl t _ x
  refine h.rebalance ⟨?_, ?_, h.queue, h.ticketTypes.insert ?_⟩ (fun t => ?_)
  · exact h.registrations.imp (fun r hr t ht => (hr t ht).mono (hstay t))
  · exact h.waitlist.imp (fun w hw => ⟨hw.1.mono (hstay _), hw.2⟩)
  · intro n _
    omega
  · simp only [apply, reserved, held, Table.find?_insert]
    by_cases ht : t = x.id
    · subst ht
      simp [hnew, hx]
    · simp only [ht, ↓reduceIte]

/-- Only an unused ticket type is deleted; its leftover seats go with it. -/
theorem deleteType (h : Books ex (fun _ => 0) s) {t : Id}
    (hr : s.registrations.All (fun r => r.ticketTypeId ≠ some t))
    (hw : s.waitlist.All (fun w => w.ticketTypeId ≠ t)) :
    Books ex (fun _ => 0) (s.apply (.deleteTicketType t)) := by
  have hstay : ∀ y, y ≠ t → TypeStays y s (s.apply (.deleteTicketType t)) :=
    fun y hy => .remove_of_ne .refl hy _
  have hheld : ∀ y, (s.apply (.deleteTicketType t)).held y = s.held y := fun _ => rfl
  have hres : ∀ y, y ≠ t → (s.apply (.deleteTicketType t)).reserved y = s.reserved y := by
    intro y hy
    simp only [apply, reserved, Table.find?_remove, hy, ↓reduceIte]
  refine ⟨⟨?_, ?_, h.queue, h.ticketTypes.remove t⟩, fun y => ?_, fun hx y => ?_⟩
  · intro id r hid y hy
    refine (h.registrations id r hid y hy).mono (hstay y ?_)
    rintro rfl
    exact hr id r hid hy
  · intro id w hid
    obtain ⟨hty, hst⟩ := h.waitlist id w hid
    exact ⟨hty.mono (hstay _ (hw id w hid)), hst⟩
  · rw [hheld]
    by_cases hy : y = t
    · subst hy
      rw [held_eq_zero hr hw]
      simp
    · rw [hres y hy]
      exact h.covered y
  · rw [hheld]
    by_cases hy : y = t
    · subst hy
      rw [held_eq_zero hr hw]
      simp [apply, reserved, Table.find?_remove]
    · rw [hres y hy]
      exact h.exact hx y

/-! ### Registrations -/

theorem insertRegistration (h : Books ex owed s) {r : Registration} (hnew : s.registrations.find? r.id = none)
    (ht : ∀ t ∈ r.ticketTypeId, s.HasType r.cleanupId t) :
    Books ex (fun y => owed y - r.seatsOn y) (s.apply (.insertRegistration r)) := by
  refine h.rebalance ⟨h.registrations.insert ht, h.waitlist, h.queue, h.ticketTypes⟩ (fun t => ?_)
  have htot := Table.total_insert hnew (Registration.seatsOn t)
  simp only [apply, reserved, held, htot]
  omega

/-- A rewrite of one registration moves the debt by what it held and what it holds now. -/
private theorem modifyRegistration (h : Books ex owed s) {id : Id} {r : Registration}
    (hr : s.registrations.find? id = some r) (f : Registration → Registration) (hf : ∀ x, (f x).id = x.id)
    (ht : ∀ t ∈ (f r).ticketTypeId, s.HasType (f r).cleanupId t) :
    Books ex (fun y => owed y + r.seatsOn y - (f r).seatsOn y)
      { s with registrations := s.registrations.modify id f hf } := by
  refine h.rebalance ⟨h.registrations.modify id f hf ?_, h.waitlist, h.queue, h.ticketTypes⟩ (fun t => ?_)
  · intro x hx
    obtain rfl : r = x := Option.some.inj (hr.symm.trans hx)
    exact ht
  · have htot := Table.total_modify s.registrations id f hf (Registration.seatsOn t)
    simp only [hr, Option.elim_some] at htot
    simp only [reserved, held]
    omega

theorem cancelRegistration (h : Books ex owed s) {id : Id} {r : Registration}
    (hr : s.registrations.find? id = some r) (now : Instant) (actorId : Option Id) :
    Books ex (fun y => owed y + r.seatsOn y) (s.apply (.cancelRegistration id now actorId)) := by
  have hb := h.modifyRegistration hr (.cancel now actorId) (Registration.cancel_id now actorId)
    (h.registrations id r hr)
  have hz : ∀ y, (r.cancel now actorId).seatsOn y = 0 := fun y => by
    simp [Registration.seatsOn, Registration.cancel]
  refine Books.congr hb (fun y => ?_)
  rw [hz y]
  omega

theorem moveRegistration (h : Books ex owed s) {id t : Id} {r : Registration}
    (hr : s.registrations.find? id = some r) (ht : s.HasType r.cleanupId t) :
    Books ex (fun y => owed y + r.seatsOn y - (r.move t).seatsOn y) (s.apply (.moveRegistration id t)) := by
  refine h.modifyRegistration hr (.move t) (Registration.move_id t) ?_
  intro y hy
  obtain rfl : t = y := by simpa [Registration.move] using hy
  exact ht

theorem seatsOn_le_held {id : Id} {r : Registration} (hr : s.registrations.find? id = some r) (y : Id) :
    r.seatsOn y ≤ s.held y :=
  le_trans (Table.le_total hr (Registration.seatsOn y)) (Nat.le_add_right _ _)

/-! ### Waitlist entries -/

theorem insertWaitlist (h : Books ex owed s) {w : WaitlistEntry} (hnew : s.waitlist.find? w.id = none)
    (ht : s.HasType w.cleanupId w.ticketTypeId) (hw : w.status = .waiting) (ho : w.offeredAt = none)
    (hi : s.waitlist.All (fun x => ¬ x.Indexed w.ticketTypeId w.subject)) :
    Books ex owed (s.apply (.insertWaitlist w)) := by
  have hst : w.Stamped := ⟨fun _ => ho, by simp [hw]⟩
  refine h.rebalance ⟨h.registrations, h.waitlist.insert ⟨ht, hst⟩, h.queue.insert ?_, h.ticketTypes⟩
    (fun t => ?_)
  · intro k x b hx hb hwb
    have hact : w.Active := .inl hw
    simp only [WaitlistEntry.index, hact, ↓reduceIte, Option.some.injEq] at hwb
    subst hwb
    simp only [WaitlistEntry.index, Option.ite_none_right_eq_some, Option.some.injEq, Prod.mk.injEq] at hb
    exact hi k x hx ⟨hb.2.1, hb.2.2, hb.1⟩
  · have htot := Table.total_insert hnew (WaitlistEntry.seatsOn t)
    have hz : w.seatsOn t = 0 := by simp [WaitlistEntry.seatsOn, hw]
    simp only [apply, reserved, held, htot, hz]
    omega

private theorem modifyWaitlist (h : Books ex owed s) {id : Id} {w : WaitlistEntry}
    (hw : s.waitlist.find? id = some w) (f : WaitlistEntry → WaitlistEntry) (hf : ∀ x, (f x).id = x.id)
    (hsame : w.SameEntry (f w)) (hst : (f w).Stamped)
    (hi : ∀ x b, (f x).index = some b → x.index = some b) :
    Books ex (fun y => owed y + w.seatsOn y - (f w).seatsOn y)
      { s with waitlist := s.waitlist.modify id f hf } := by
  refine h.rebalance ⟨h.registrations, h.waitlist.modify id f hf ?_, h.queue.modify id f hf hi, h.ticketTypes⟩
    (fun t => ?_)
  · intro x hx
    obtain rfl : w = x := Option.some.inj (hw.symm.trans hx)
    refine ⟨?_, hst⟩
    have hty := (h.waitlist id w hw).1
    rw [← hsame.cleanupId, ← hsame.ticketTypeId] at hty
    exact hty
  · have htot := Table.total_modify s.waitlist id f hf (WaitlistEntry.seatsOn t)
    simp only [hw, Option.elim_some] at htot
    simp only [reserved, held]
    omega

theorem closeWaitlist (h : Books ex owed s) {id : Id} {w : WaitlistEntry}
    (hw : s.waitlist.find? id = some w) (c : WaitlistClose) :
    Books ex (fun y => owed y + w.seatsOn y) (s.apply (.closeWaitlist id c)) := by
  have hna := WaitlistEntry.not_active_close c
  have hst : (w.close c).Stamped :=
    ⟨fun hs => (hna w (.inl hs)).elim, fun hs => (hna w (.inr hs)).elim⟩
  have hb := h.modifyWaitlist hw (.close c) (WaitlistEntry.close_id c) ⟨rfl, rfl, rfl, rfl⟩ hst
    (fun x b hx => by simp [WaitlistEntry.index, hna x] at hx)
  have hz : ∀ y, (w.close c).seatsOn y = 0 := by
    intro y
    have hs : (w.close c).status ≠ .offered := fun hs => hna w (.inr hs)
    simp [WaitlistEntry.seatsOn, hs]
  refine Books.congr hb (fun y => ?_)
  rw [hz y]
  omega

theorem offerWaitlist (h : Books ex owed s) {id : Id} {w : WaitlistEntry} (hw : s.waitlist.find? id = some w)
    (hs : w.status = .waiting) (now e : Instant) :
    Books ex (fun y => owed y - owing w.ticketTypeId w.partySize y) (s.apply (.offerWaitlist id now e)) := by
  have hoff : w.offer now e = { w with status := .offered, offeredAt := some now, claimExpiresAt := some e } := by
    simp [WaitlistEntry.offer, hs]
  have hst : (w.offer now e).Stamped := by simp [hoff, WaitlistEntry.Stamped]
  have hidx : ∀ (x : WaitlistEntry) b, (x.offer now e).index = some b → x.index = some b := by
    intro x b hx
    have hsame := WaitlistEntry.sameEntry_offer now e x
    simp only [WaitlistEntry.index, Option.ite_none_right_eq_some, hsame.ticketTypeId, hsame.subject] at hx ⊢
    exact ⟨WaitlistEntry.active_offer hx.1, hx.2⟩
  have hb := h.modifyWaitlist hw (.offer now e) (WaitlistEntry.offer_id now e)
    (WaitlistEntry.sameEntry_offer now e w) hst hidx
  refine Books.congr hb (fun y => ?_)
  by_cases hy : y = w.ticketTypeId
  · subst hy
    simp [hoff, WaitlistEntry.seatsOn, hs]
  · have hy' : ¬ w.ticketTypeId = y := fun hx => hy hx.symm
    simp [hoff, WaitlistEntry.seatsOn, hs, owing_of_ne hy, hy']

theorem linkWaitlist (h : Books ex owed s) {id : Id} {w : WaitlistEntry} (hw : s.waitlist.find? id = some w)
    (r : Id) : Books ex owed (s.apply (.linkWaitlist id r)) := by
  have hb := h.modifyWaitlist hw (.link r) (WaitlistEntry.link_id r) ⟨rfl, rfl, rfl, rfl⟩
    (h.waitlist id w hw).2 (fun _ _ hx => hx)
  refine Books.congr hb (fun y => ?_)
  have hz : (w.link r).seatsOn y = w.seatsOn y := rfl
  omega

end Books

end Db

end Civfix.Attendance
