import Civfix.SeatLedger

/-! # Releasing many rows in one statement

A statement that closes waitlist entries or cancels registrations and gives their seats
back in the same UPDATE. Closing rows puts their seats into debt, and the release pays it:
in full when the sources are grouped by ticket type, and when they are joined row by row
only if no ticket type has two of them. -/
namespace Civfix.Attendance

open KeyedTables LockedTransactions

/-! ## Sources of a release -/

@[simp] theorem seatsFor_nil (y : Id) : seatsFor [] y = [] := rfl

theorem seatsFor_cons (x : Id × ℕ) (xs : List (Id × ℕ)) (y : Id) :
    seatsFor (x :: xs) y = if x.1 = y then x.2 :: seatsFor xs y else seatsFor xs y := by
  by_cases h : x.1 = y <;> simp [seatsFor, h]

theorem seatsFor_append (xs zs : List (Id × ℕ)) (y : Id) :
    seatsFor (xs ++ zs) y = seatsFor xs y ++ seatsFor zs y := by
  simp [seatsFor]

theorem seatsFor_eq_nil {xs : List (Id × ℕ)} {y : Id} (h : y ∉ xs.map (·.1)) : seatsFor xs y = [] := by
  simp only [seatsFor, List.map_eq_nil_iff, List.filter_eq_nil_iff, decide_eq_true_eq]
  intro x hx he
  exact h (List.mem_map.mpr ⟨x, hx, he⟩)

/-- What the joined UPDATE takes for one ticket type. -/
def joinedSeats (pick : Id → ℕ) (xs : List (Id × ℕ)) (y : Id) : ℕ :=
  (seatsFor xs y).getD (pick y % (seatsFor xs y).length) 0

theorem joinedSeats_le (pick : Id → ℕ) (xs : List (Id × ℕ)) (y : Id) :
    joinedSeats pick xs y ≤ (seatsFor xs y).sum := by
  unfold joinedSeats
  rw [List.getD_eq_getElem?_getD]
  cases h : (seatsFor xs y)[pick y % (seatsFor xs y).length]? with
  | none => simp
  | some n => exact List.single_le_sum (by simp) _ (List.mem_of_getElem? h)

/-- With one source row per ticket type the join takes every row. -/
theorem joinedSeats_eq (pick : Id → ℕ) {xs : List (Id × ℕ)} (h : (xs.map (·.1)).Nodup) (y : Id) :
    joinedSeats pick xs y = (seatsFor xs y).sum := by
  have hlen : seatsFor xs y = [] ∨ ∃ n, seatsFor xs y = [n] := by
    induction xs with
    | nil => exact .inl rfl
    | cons x xs ih =>
      simp only [List.map_cons, List.nodup_cons] at h
      rw [seatsFor_cons]
      split
      · next hx => exact .inr ⟨x.2, by rw [seatsFor_eq_nil (hx ▸ h.1)]⟩
      · exact ih h.2
  rcases hlen with hl | ⟨n, hl⟩
  · simp [joinedSeats, hl]
  · simp [joinedSeats, hl, Nat.mod_one]

theorem releaseJoined_eq_grouped (pick : Id → ℕ) {xs : List (Id × ℕ)} (h : (xs.map (·.1)).Nodup) :
    releaseJoined pick xs = releaseGrouped xs := by
  unfold releaseJoined releaseGrouped
  refine List.map_congr_left (fun t _ => ?_)
  rw [← joinedSeats_eq pick h t]
  rfl

/-- Sources read off rows name what the rows hold. -/
theorem sum_seatsFor_filterMap {ρ : Type} (rows : List ρ) (f : ρ → Option (Id × ℕ)) (g : Id → ρ → ℕ) (y : Id)
    (h : ∀ r ∈ rows, g y r = (f r).elim 0 (fun x => if x.1 = y then x.2 else 0)) :
    (seatsFor (rows.filterMap f) y).sum = (rows.map (g y)).sum := by
  induction rows with
  | nil => rfl
  | cons r rows ih =>
    have ih' := ih (fun x hx => h x (by simp [hx]))
    have hr := h r (by simp)
    cases hf : f r with
    | none => simpa [hf, hr] using ih'
    | some x =>
      simp only [hf, Option.elim_some] at hr
      simp only [List.filterMap_cons, hf, List.map_cons, List.sum_cons, seatsFor_cons, hr, ← ih']
      split <;> simp

theorem Registration.seatsOn_eq {r : Registration} (h : r.status = .registered) (y : Id) :
    r.seatsOn y = r.held.elim 0 (fun x => if x.1 = y then x.2 else 0) := by
  cases ht : r.ticketTypeId with
  | none => simp [Registration.seatsOn, Registration.held, ht]
  | some t => simp [Registration.seatsOn, Registration.held, ht, h]

theorem WaitlistEntry.seatsOn_eq {w : WaitlistEntry} (h : w.Active) (hs : w.Stamped) (y : Id) :
    w.seatsOn y = w.held.elim 0 (fun x => if x.1 = y then x.2 else 0) := by
  rcases h with hw | ho
  · simp [WaitlistEntry.seatsOn, WaitlistEntry.held, hw, hs.1 hw]
  · simp [WaitlistEntry.seatsOn, WaitlistEntry.held, ho, hs.2 ho]

/-! ## Batches of writes -/

namespace Db.Books

variable {ex : Prop} {owed : Id → ℤ} {s : Db}

theorem closeAll (h : Books ex owed s) (c : WaitlistClose) (ws : List WaitlistEntry)
    (hn : (ws.map (·.id)).Nodup) (hw : ∀ w ∈ ws, s.waitlist.find? w.id = some w) :
    Books ex (fun y => owed y + ((ws.map (WaitlistEntry.seatsOn y)).sum : ℕ))
      (engine.applyAll s (ws.map (fun w => .closeWaitlist w.id c))) := by
  induction ws generalizing s owed with
  | nil => simpa using h
  | cons w ws ih =>
    simp only [List.map_cons, List.nodup_cons, List.mem_map, not_exists, not_and] at hn
    have hstep := h.closeWaitlist (hw w (by simp)) c
    have hrest : ∀ x ∈ ws, (s.apply (.closeWaitlist w.id c)).waitlist.find? x.id = some x := by
      intro x hx
      simp only [apply, Table.find?_modify, hn.1 x hx, ↓reduceIte]
      exact hw x (by simp [hx])
    refine (ih hstep hn.2 hrest).congr (fun y => ?_)
    simp only [List.map_cons, List.sum_cons]
    omega

theorem cancelAll (h : Books ex owed s) (now : Instant) (actorId : Option Id) (rs : List Registration)
    (hn : (rs.map (·.id)).Nodup) (hr : ∀ r ∈ rs, s.registrations.find? r.id = some r) :
    Books ex (fun y => owed y + ((rs.map (Registration.seatsOn y)).sum : ℕ))
      (engine.applyAll s (rs.map (fun r => .cancelRegistration r.id now actorId))) := by
  induction rs generalizing s owed with
  | nil => simpa using h
  | cons r rs ih =>
    simp only [List.map_cons, List.nodup_cons, List.mem_map, not_exists, not_and] at hn
    have hstep := h.cancelRegistration (hr r (by simp)) now actorId
    have hrest : ∀ x ∈ rs, (s.apply (.cancelRegistration r.id now actorId)).registrations.find? x.id = some x := by
      intro x hx
      simp only [apply, Table.find?_modify, hn.1 x hx, ↓reduceIte]
      exact hr x (by simp [hx])
    refine (ih hstep hn.2 hrest).congr (fun y => ?_)
    simp only [List.map_cons, List.sum_cons]
    omega

/-- Each ticket type is released once, by seats that are owed. -/
theorem releaseAll (h : Books ex owed s) (n : Id → ℕ) (ts : List Id) (hts : ts.Nodup)
    (hn : ∀ t ∈ ts, (n t : ℤ) ≤ owed t) :
    Books ex (fun y => owed y - if y ∈ ts then (n y : ℤ) else 0)
      (engine.applyAll s (ts.map (fun t => .releaseSeats t (n t)))) := by
  induction ts generalizing s owed with
  | nil => simpa using h
  | cons t ts ih =>
    simp only [List.nodup_cons] at hts
    have ht := hn t (by simp)
    have hstep := h.release (t := t) (n := n t) (by omega)
    have hrest : ∀ x ∈ ts, (n x : ℤ) ≤ owed x - owing t (n t) x := by
      intro x hx
      have hne : x ≠ t := fun he => hts.1 (he ▸ hx)
      rw [owing_of_ne hne, sub_zero]
      exact hn x (by simp [hx])
    refine (ih hstep hts.2 hrest).congr (fun y => ?_)
    by_cases hy : y = t
    · subst hy
      simp [hts.1]
    · simp [hy, owing_of_ne hy]

private theorem releaseSources (h : Books ex owed s) (xs : List (Id × ℕ)) (n : Id → ℕ)
    (hz : ∀ y, y ∉ xs.map (·.1) → n y = 0) (hn : ∀ y, (n y : ℤ) ≤ owed y) :
    Books ex (fun y => owed y - n y)
      (engine.applyAll s ((xs.map (·.1)).dedup.map (fun t => .releaseSeats t (n t)))) := by
  refine (h.releaseAll n _ (List.nodup_dedup _) (fun t _ => hn t)).congr (fun y => ?_)
  by_cases hy : y ∈ xs.map (·.1)
  · rw [if_pos (List.mem_dedup.mpr hy)]
  · rw [if_neg (fun hm => hy (List.mem_dedup.mp hm)), hz y hy]
    rfl

theorem releaseGrouped (h : Books ex owed s) (xs : List (Id × ℕ))
    (hn : ∀ y, ((seatsFor xs y).sum : ℤ) ≤ owed y) :
    Books ex (fun y => owed y - (seatsFor xs y).sum) (engine.applyAll s (releaseGrouped xs)) :=
  h.releaseSources xs (fun y => (seatsFor xs y).sum) (fun y hy => by simp [seatsFor_eq_nil hy]) hn

theorem releaseJoined (h : Books ex owed s) (pick : Id → ℕ) (xs : List (Id × ℕ))
    (hn : ∀ y, ((seatsFor xs y).sum : ℤ) ≤ owed y) :
    Books ex (fun y => owed y - joinedSeats pick xs y) (engine.applyAll s (releaseJoined pick xs)) := by
  refine h.releaseSources xs (joinedSeats pick xs) (fun y hy => by simp [joinedSeats, seatsFor_eq_nil hy]) ?_
  intro y
  have := joinedSeats_le pick xs y
  have := hn y
  omega

/-- Closed entries whose seats a joined release gives back. In exact books no ticket type may
have two source rows, since the join takes one of them. -/
theorem closeJoined {owed' : Id → ℤ} (h : Books ex owed s) {es : List WaitlistEntry} (hn : (es.map (·.id)).Nodup)
    (hes : ∀ w ∈ es, s.waitlist.find? w.id = some w) (c : WaitlistClose) (pick : Id → ℕ) {xs : List (Id × ℕ)}
    (hbal : ∀ y, owed y + (es.map (WaitlistEntry.seatsOn y)).sum = owed' y + (seatsFor xs y).sum)
    (hpos : ∀ y, 0 ≤ owed' y) (hx : ex → (xs.map (·.1)).Nodup) :
    Books ex owed'
      (engine.applyAll s (es.map (fun w => .closeWaitlist w.id c) ++ Attendance.releaseJoined pick xs)) := by
  rw [engine.applyAll_append]
  have hclosed := h.closeAll c es hn hes
  have hreleased := hclosed.releaseJoined pick xs (fun y => by
    have h1 := hbal y
    have h2 := hpos y
    omega)
  refine hreleased.forgive (fun y => ?_) (fun hex y => ?_)
  · have h1 := hbal y
    have h2 := joinedSeats_le pick xs y
    omega
  · have h1 := hbal y
    have h2 := joinedSeats_eq pick (hx hex) y
    omega

end Db.Books

namespace Db

theorem waitlist_releaseAll (s : Db) (n : Id → ℕ) (ts : List Id) :
    (engine.applyAll s (ts.map (fun t => .releaseSeats t (n t)))).waitlist = s.waitlist := by
  induction ts generalizing s with
  | nil => rfl
  | cons t ts ih => exact ih (s.apply (.releaseSeats t (n t)))

theorem waitlist_closeAll (s : Db) (c : WaitlistClose) (es : List WaitlistEntry) :
    (engine.applyAll s (es.map (fun w => .closeWaitlist w.id c))).waitlist =
      s.waitlist.modifyAll (es.map (·.id)) (.close c) (WaitlistEntry.close_id c) := by
  induction es generalizing s with
  | nil => rfl
  | cons w es ih => exact ih (s.apply (.closeWaitlist w.id c))

theorem registrations_cancelAll (s : Db) (now : Instant) (actorId : Option Id) (rs : List Registration) :
    (engine.applyAll s (rs.map (fun r => .cancelRegistration r.id now actorId))).registrations =
      s.registrations.modifyAll (rs.map (·.id)) (.cancel now actorId) (Registration.cancel_id now actorId) := by
  induction rs generalizing s with
  | nil => rfl
  | cons r rs ih => exact ih (s.apply (.cancelRegistration r.id now actorId))

theorem waitlist_cancelAll (s : Db) (now : Instant) (actorId : Option Id) (rs : List Registration) :
    (engine.applyAll s (rs.map (fun r => .cancelRegistration r.id now actorId))).waitlist = s.waitlist := by
  induction rs generalizing s with
  | nil => rfl
  | cons r rs ih => exact ih (s.apply (.cancelRegistration r.id now actorId))

theorem registrations_releaseAll (s : Db) (n : Id → ℕ) (ts : List Id) :
    (engine.applyAll s (ts.map (fun t => .releaseSeats t (n t)))).registrations = s.registrations := by
  induction ts generalizing s with
  | nil => rfl
  | cons t ts ih => exact ih (s.apply (.releaseSeats t (n t)))

/-- Cancelled registrations and closed entries whose seats a grouped release gives back. -/
theorem Books.settle {ex : Prop} {owed : Id → ℤ} {s : Db} (h : Books ex owed s) (rs : List Registration)
    (es : List WaitlistEntry) (xs : List (Id × ℕ)) (hnr : (rs.map (·.id)).Nodup)
    (hrs : ∀ r ∈ rs, s.registrations.find? r.id = some r)
    (hne : (es.map (·.id)).Nodup) (hes : ∀ w ∈ es, s.waitlist.find? w.id = some w)
    (now : Instant) (actorId : Option Id) (c : WaitlistClose) (hpos : ∀ y, 0 ≤ owed y)
    (hxs : ∀ y, (seatsFor xs y).sum =
      (rs.map (Registration.seatsOn y)).sum + (es.map (WaitlistEntry.seatsOn y)).sum) :
    Books ex owed (engine.applyAll s (rs.map (fun r => (.cancelRegistration r.id now actorId : Write)) ++
      es.map (fun w => (.closeWaitlist w.id c : Write)) ++ Attendance.releaseGrouped xs)) := by
  rw [engine.applyAll_append, engine.applyAll_append]
  have hcancelled := h.cancelAll now actorId rs hnr hrs
  have hclosed := hcancelled.closeAll c es hne (by simpa only [waitlist_cancelAll] using hes)
  refine (hclosed.releaseGrouped xs (fun y => ?_)).congr (fun y => ?_)
  · have h1 := hxs y
    have h2 := hpos y
    omega
  · have h1 := hxs y
    omega

end Db

end Civfix.Attendance
