import Civfix.InterleavedCalls
import Mathlib.Data.List.Sort

/-! # Presence at the door

`checkInByToken`, `checkInSeat`, `undoCheckIn`, `markNoShows` and `sweepNoShows` write the two presence
columns of a seat, each in one UPDATE that commits by itself.

An UPDATE finds its rows in the snapshot of the statement, and then takes each row's lock and checks a part
of its conditions again on the row as it is now: all of them where they stand in its own WHERE or in the
SELECT … FOR UPDATE, and none where they stand in a sub-select. The rows that are locked do not change until
the statement ends, so that it writes them all in one access. A row that violates a check fails the
statement as a whole. -/
namespace Civfix.DoorPresence

open InterleavedCalls

abbrev SeatId := ℕ
abbrev CleanupId := ℕ
abbrev UserId := ℕ
abbrev TokenHash := ℕ
/-- Milliseconds. -/
abbrev Instant := ℕ

inductive SeatStatus | active | cancelled deriving DecidableEq
inductive CheckinMethod | scan | manual | self | walkup deriving DecidableEq
inductive CleanupStatus | upcoming | active | done | cancelled deriving DecidableEq

/-- A row of `cleanup_registration_seats`. `arrivals` are the answers `firstTime` of the check-ins since the
seat was last undone, the latest first; it is kept for the statements below. -/
structure Seat where
  id : SeatId
  cleanupId : CleanupId
  tokenHash : TokenHash
  status : SeatStatus
  checkedInAt : Option Instant
  checkedInBy : Option UserId
  checkinMethod : Option CheckinMethod
  checkinCoarsenedAt : Option Instant
  noShowAt : Option Instant
  createdAt : Instant
  arrivals : List Bool
  deriving DecidableEq

structure Cleanup where
  id : CleanupId
  status : CleanupStatus
  endsAt : Instant

structure Shared where
  seats : List Seat
  cleanups : List Cleanup

/-- The checks of the table that concern these columns. -/
inductive Check | methodPairing | presenceExclusive deriving DecidableEq

def Seat.Passes (x : Seat) : Check → Prop
  | .methodPairing => x.checkedInAt = none ↔ x.checkinMethod = none
  | .presenceExclusive => x.checkedInAt = none ∨ x.noShowAt = none

instance (x : Seat) (c : Check) : Decidable (x.Passes c) :=
  match c with
  | .methodPairing => inferInstanceAs (Decidable (_ ↔ _))
  | .presenceExclusive => inferInstanceAs (Decidable (_ ∨ _))

/-- The check that refuses the row, if one does. -/
def Seat.violation (x : Seat) : Option Check :=
  if ¬ x.Passes .methodPairing then some .methodPairing
  else if ¬ x.Passes .presenceExclusive then some .presenceExclusive
  else none

/-! ## Statements -/

inductive Request where
  | checkInByToken (cleanupId : CleanupId) (tokenHash : TokenHash) (actorId : UserId) (method : CheckinMethod)
    (now : Instant)
  | checkInSeat (cleanupId : CleanupId) (seatId : SeatId) (actorId : UserId) (method : CheckinMethod) (now : Instant)
  | undoCheckIn (cleanupId : CleanupId) (seatId : SeatId)
  /-- `seatIds` is `null` for all seats of the event. -/
  | markNoShows (cleanupId : CleanupId) (seatIds : Option (List SeatId)) (now : Instant)
  | sweepNoShows (now : Instant) (limit : ℕ)

def twoHours : ℕ := 2 * 60 * 60 * 1000

/-- `c.status <> 'cancelled' AND c.ends_at <= now - interval '2 hours'`, of the seat's event. -/
def Shared.Over (s : Shared) (now : Instant) (x : Seat) : Prop :=
  ∃ c ∈ s.cleanups, c.id = x.cleanupId ∧ c.status ≠ .cancelled ∧ c.endsAt + twoHours ≤ now

instance (s : Shared) (now : Instant) (x : Seat) : Decidable (s.Over now x) :=
  inferInstanceAs (Decidable (∃ c ∈ s.cleanups, _ ∧ _ ∧ _))

/-- Active, and neither checked in nor a no-show. -/
def Seat.Unmarked (x : Seat) : Prop := x.status = .active ∧ x.checkedInAt = none ∧ x.noShowAt = none

instance (x : Seat) : Decidable x.Unmarked := inferInstanceAs (Decidable (_ ∧ _ ∧ _))

namespace Request

/-- What the statement checks on a row that it has locked. -/
def Matches (x : Seat) : Request → Prop
  | checkInByToken cleanupId tokenHash _ _ _ =>
    x.tokenHash = tokenHash ∧ x.cleanupId = cleanupId ∧ x.status = .active ∧ x.noShowAt = none
  | checkInSeat cleanupId seatId _ _ _ => x.id = seatId ∧ x.cleanupId = cleanupId ∧ x.status = .active
  | undoCheckIn cleanupId seatId => x.id = seatId ∧ x.cleanupId = cleanupId
  | markNoShows cleanupId seatIds _ => x.cleanupId = cleanupId ∧ x.Unmarked ∧ ∀ ids ∈ seatIds, x.id ∈ ids
  | sweepNoShows _ _ => True

instance (x : Seat) (r : Request) : Decidable (r.Matches x) :=
  match r with
  | checkInByToken _ _ _ _ _ => inferInstanceAs (Decidable (_ ∧ _ ∧ _ ∧ _))
  | checkInSeat _ _ _ _ _ => inferInstanceAs (Decidable (_ ∧ _ ∧ _))
  | undoCheckIn _ _ => inferInstanceAs (Decidable (_ ∧ _))
  | markNoShows _ seatIds _ => inferInstanceAs (Decidable (_ ∧ _ ∧ ∀ ids ∈ seatIds, x.id ∈ ids))
  | sweepNoShows _ _ => isTrue trivial

/-- The rows that the statement finds in its snapshot. -/
def find (s : Shared) : Request → List SeatId
  | sweepNoShows now limit =>
    (((s.seats.filter (fun x => decide (x.Unmarked ∧ s.Over now x))).insertionSort
      (fun x y => x.createdAt ≤ y.createdAt)).take limit).map Seat.id
  | r => (s.seats.filter (fun x => decide (r.Matches x))).map Seat.id

/-- `COALESCE(s.checked_in_at, now)` and so on; the no-show mark goes where the statement clears it. -/
def checkIn (actorId : UserId) (method : CheckinMethod) (now : Instant) (noShowAt : Option Instant) (x : Seat) :
    Seat :=
  { x with
    checkedInAt := some (x.checkedInAt.getD now)
    checkedInBy := some (x.checkedInBy.getD actorId)
    checkinMethod := some (x.checkinMethod.getD method)
    noShowAt := noShowAt
    arrivals := x.checkedInAt.isNone :: x.arrivals }

/-- What the statement writes to a row. -/
def change (x : Seat) : Request → Seat
  | checkInByToken _ _ actorId method now => checkIn actorId method now x.noShowAt x
  | checkInSeat _ _ actorId method now => checkIn actorId method now none x
  | undoCheckIn _ _ =>
    { x with
      checkedInAt := none
      checkedInBy := none
      checkinMethod := none
      checkinCoarsenedAt := none
      arrivals := [] }
  | markNoShows _ _ now | sweepNoShows now _ => { x with noShowAt := some now }

end Request

/-- The rows that the statement writes, as they were. -/
def Shared.hits (s : Shared) (r : Request) (ids : List SeatId) : List Seat :=
  s.seats.filter (fun x => decide (x.id ∈ ids ∧ r.Matches x))

def Shared.update (s : Shared) (r : Request) (ids : List SeatId) : Shared :=
  { s with seats := s.seats.map (fun x => if x.id ∈ ids ∧ r.Matches x then r.change x else x) }

/-! ## Calls -/

inductive CheckinOutcome | checkedIn | already | cancelled | wrongEvent | unknownToken | noShow
  deriving DecidableEq

inductive Result where
  | checkin (outcome : CheckinOutcome) (firstTime : Bool)
  | undone (seat : Option Seat)
  | marked (n : ℕ)
  | rejected (c : Check)
  | failed
  deriving DecidableEq

inductive Await where
  | find (r : Request)
  | update (r : Request) (ids : List SeatId)
  /-- The second query of a check-in that has found no row. -/
  | probe (r : Request)

abbrev World := InterleavedCalls.World Shared Request Await
abbrev Next := InterleavedCalls.Next Await Result

/-- Registrations, cancellations of seats, and changes of the events. -/
inductive Event where
  | register (id : SeatId) (cleanupId : CleanupId) (tokenHash : TokenHash) (createdAt : Instant)
  | setSeatStatus (id : SeatId) (status : SeatStatus)
  | setCleanups (cleanups : List Cleanup)

abbrev Move := InterleavedCalls.Move Request Event

def enter (s : Shared) (r : Request) : Option (Shared × Await) := some (s, .find r)

/-- The answer to the rows that were written. -/
def answer (r : Request) (hits : List Seat) : Next :=
  match r, hits with
  | .checkInByToken _ _ _ _ _, x :: _ | .checkInSeat _ _ _ _ _, x :: _ =>
    .done (.checkin (if x.checkedInAt.isNone then .checkedIn else .already) x.checkedInAt.isNone)
  | .checkInByToken _ _ _ _ _, [] | .checkInSeat _ _ _ _ _, [] => .await (.probe r)
  | .undoCheckIn _ _, hits => .done (.undone (hits.head?.map r.change))
  | .markNoShows _ _ _, hits | .sweepNoShows _ _, hits => .done (.marked hits.length)

/-- `unscannableTokenResult`, and the query at the end of `checkInSeat`. -/
def probe (s : Shared) : Request → CheckinOutcome
  | .checkInByToken cleanupId tokenHash _ _ _ =>
    match s.seats.find? (fun x => x.tokenHash = tokenHash) with
    | none => .unknownToken
    | some x =>
      if x.cleanupId ≠ cleanupId then .wrongEvent
      else if x.status = .cancelled then .cancelled
      else if x.noShowAt ≠ none then .noShow
      else .unknownToken
  | .checkInSeat cleanupId seatId _ _ _ =>
    match s.seats.find? (fun x => x.id = seatId ∧ x.cleanupId = cleanupId) with
    | none => .unknownToken
    | some _ => .cancelled
  | _ => .unknownToken

/-- Any query may fail, and then it has written nothing. -/
def access (s : Shared) : Await → List (Shared × Next)
  | .find r => [(s, .await (.update r (r.find s))), (s, .done .failed)]
  | .update r ids =>
    [match (s.hits r ids).findSome? (fun x => (r.change x).violation) with
      | some c => (s, .done (.rejected c))
      | none => (s.update r ids, answer r (s.hits r ids)), (s, .done .failed)]
  | .probe r => [(s, .done (.checkin (probe s r) false)), (s, .done .failed)]

def environment (s : Shared) : Event → Option Shared
  | .register id cleanupId tokenHash createdAt =>
    if ∃ x ∈ s.seats, x.id = id ∨ x.tokenHash = tokenHash then none
    else some { s with seats := s.seats ++ [⟨id, cleanupId, tokenHash, .active, none, none, none, none, none,
      createdAt, []⟩] }
  | .setSeatStatus id status =>
    some { s with seats := s.seats.map (fun x => if x.id = id then { x with status := status } else x) }
  | .setCleanups cleanups => some { s with cleanups := cleanups }

def machine : Machine Shared Request Await Result Event := ⟨enter, access, environment⟩

def start : Shared := ⟨[], []⟩

/-! ## The condition on the statements -/

/-- No seat that a sweep has selected is checked in when the sweep writes it. -/
def AsFound (s : Shared) : Await → Prop
  | .update (.sweepNoShows _ _) ids => ∀ x ∈ s.seats, x.id ∈ ids → x.checkedInAt = none
  | _ => True

def Undisturbed (w : World) (m : Move) : Prop :=
  match m with
  | .access i k => k = 0 → ∀ c ∈ w.call i, AsFound w.shared c.await
  | _ => True

variable {s s' : Shared} {w w' : World}

/-! ## Seats -/

/-- A seat passes the checks, and of its check-ins since it was last undone one was the first. -/
structure Seat.Sound (x : Seat) : Prop where
  passes : ∀ c, x.Passes c
  arrived : x.arrivals = [] ↔ x.checkedInAt = none
  first : x.arrivals.count true = if x.arrivals = [] then 0 else 1

theorem violation_eq_none_iff {x : Seat} : x.violation = none ↔ ∀ c, x.Passes c := by
  unfold Seat.violation
  constructor
  · intro h c
    split at h
    · cases h
    next hpair =>
    split at h
    · cases h
    next hpresence =>
    cases c with
    | methodPairing => exact Decidable.not_not.mp hpair
    | presenceExclusive => exact Decidable.not_not.mp hpresence
  · intro h
    rw [if_neg (not_not_intro (h .methodPairing)), if_neg (not_not_intro (h .presenceExclusive))]

theorem sound_checkIn {x : Seat} (h : x.Sound) (actorId : UserId) (method : CheckinMethod) (now : Instant) :
    (Request.checkIn actorId method now none x).Sound := by
  refine ⟨fun c => ?_, ?_, ?_⟩
  · cases c with
    | methodPairing => exact iff_of_false (by rintro ⟨⟩) (by rintro ⟨⟩)
    | presenceExclusive => exact .inr rfl
  · exact iff_of_false (by rintro ⟨⟩) (by rintro ⟨⟩)
  · have hfirst := h.first
    cases hat : x.checkedInAt with
    | none =>
      rw [h.arrived.mpr hat] at hfirst
      simp [Request.checkIn, hat, h.arrived.mpr hat]
    | some t =>
      have hne : x.arrivals ≠ [] := fun hnil => by
        rw [h.arrived.mp hnil] at hat
        cases hat
      rw [if_neg hne] at hfirst
      simp [Request.checkIn, hat, hfirst]

/-- A statement keeps a seat sound, unless it is a sweep and the seat is checked in. -/
theorem sound_change {x : Seat} (h : x.Sound) {r : Request} (hm : r.Matches x)
    (hsweep : ∀ now limit, r = .sweepNoShows now limit → x.checkedInAt = none) : (r.change x).Sound := by
  have hmark : ∀ now, x.checkedInAt = none → ({ x with noShowAt := some now } : Seat).Sound := by
    intro now hat
    refine ⟨fun c => ?_, h.arrived, h.first⟩
    cases c with
    | methodPairing => exact h.passes .methodPairing
    | presenceExclusive => exact .inl hat
  cases r with
  | checkInByToken cleanupId tokenHash actorId method now =>
    have hsound := sound_checkIn h actorId method now
    rwa [← hm.2.2.2] at hsound
  | checkInSeat cleanupId seatId actorId method now => exact sound_checkIn h actorId method now
  | undoCheckIn cleanupId seatId =>
    refine ⟨fun c => ?_, iff_of_true rfl rfl, rfl⟩
    cases c with
    | methodPairing => exact iff_of_true rfl rfl
    | presenceExclusive => exact .inl rfl
  | markNoShows cleanupId seatIds now => exact hmark now hm.2.1.2.1
  | sweepNoShows now limit => exact hmark now (hsweep now limit rfl)

/-! ## Statements and calls -/

def Sound (s : Shared) : Prop := ∀ x ∈ s.seats, x.Sound

/-- A sweep fails on the seats that have been checked in since it found them, and no other statement fails. -/
theorem accepted_iff (h : Sound s) (r : Request) (ids : List SeatId) :
    (s.hits r ids).findSome? (fun x => (r.change x).violation) = none ↔ AsFound s (.update r ids) := by
  have hhit : ∀ x, x ∈ s.hits r ids ↔ x ∈ s.seats ∧ x.id ∈ ids ∧ r.Matches x := fun x => by
    simp only [Shared.hits, List.mem_filter, decide_eq_true_eq]
  rw [List.findSome?_eq_none_iff]
  constructor
  · intro hpass
    cases r with
    | sweepNoShows now limit =>
      intro x hx hid
      have hchecks := violation_eq_none_iff.mp (hpass x ((hhit x).mpr ⟨hx, hid, trivial⟩))
      exact (hchecks .presenceExclusive).resolve_right (by rintro ⟨⟩)
    | checkInByToken _ _ _ _ _ | checkInSeat _ _ _ _ _ | undoCheckIn _ _ | markNoShows _ _ _ => trivial
  · intro hf x hx
    obtain ⟨hseat, hid, hmatch⟩ := (hhit x).mp hx
    refine violation_eq_none_iff.mpr (sound_change (h x hseat) hmatch (fun now limit hr => ?_)).passes
    subst hr
    exact hf x hseat hid

/-- A statement that is not refused keeps every seat sound. -/
theorem sound_update (h : Sound s) {r : Request} {ids : List SeatId} (hf : AsFound s (.update r ids)) :
    Sound (s.update r ids) := by
  intro y hy
  obtain ⟨x, hx, rfl⟩ := List.mem_map.mp hy
  split
  · next hmatch =>
    refine sound_change (h x hx) hmatch.2 (fun now limit hr => ?_)
    subst hr
    exact hf x hx hmatch.1
  · exact h x hx

theorem sound_of_access {p : Await} {n : Next} (h : Sound s) (hmem : (s', n) ∈ access s p) : Sound s' := by
  cases p with
  | find r | probe r =>
    simp only [access, List.mem_cons, Prod.mk.injEq, List.not_mem_nil, or_false] at hmem
    rcases hmem with ⟨rfl, -⟩ | ⟨rfl, -⟩ <;> exact h
  | update r ids =>
    simp only [access, List.mem_cons, Prod.mk.injEq, List.not_mem_nil, or_false] at hmem
    rcases hmem with hmem | ⟨rfl, -⟩
    · split at hmem
      · cases hmem
        exact h
      · next hnone =>
        cases hmem
        exact sound_update h ((accepted_iff h r ids).mp hnone)
    · exact h

theorem sound_of_environment {e : Event} (h : Sound s) (he : environment s e = some s') : Sound s' := by
  cases e with
  | register id cleanupId tokenHash createdAt =>
    simp only [environment] at he
    split at he
    · cases he
    · cases he
      intro x hx
      rcases List.mem_append.mp hx with hx | hx
      · exact h x hx
      · obtain rfl := List.mem_singleton.mp hx
        refine ⟨fun c => ?_, iff_of_true rfl rfl, rfl⟩
        cases c with
        | methodPairing => exact iff_of_true rfl rfl
        | presenceExclusive => exact .inl rfl
  | setSeatStatus id status =>
    cases he
    intro y hy
    obtain ⟨x, hx, rfl⟩ := List.mem_map.mp hy
    split
    · refine ⟨fun c => ?_, (h x hx).arrived, (h x hx).first⟩
      cases c with
      | methodPairing => exact (h x hx).passes .methodPairing
      | presenceExclusive => exact (h x hx).passes .presenceExclusive
    · exact h x hx
  | setCleanups cleanups =>
    cases he
    exact h

theorem sound_of_step {m : Move} {r : Option Result} (h : Sound w.shared) (hs : machine.step w m = some (w', r)) :
    Sound w'.shared := by
  rcases Machine.shared_cases hs with ⟨o, p, -, he⟩ | ⟨i, k, c, n, -, -, hmem⟩ | ⟨i, -, he⟩ | ⟨e, -, he, -⟩
  · have hsame : w.shared = w'.shared := congrArg Prod.fst (Option.some.inj he)
    exact hsame ▸ h
  · exact sound_of_access h hmem
  · exact he ▸ h
  · exact sound_of_environment h he

/-- A statement is refused exactly when it is a sweep, and a seat that it has found is checked in. -/
theorem rejected_iff (h : Sound w.shared) {m : Move} {r : Result} (hs : machine.step w m = some (w', some r)) :
    (∃ c, r = .rejected c) ↔ ¬ Undisturbed w m := by
  obtain ⟨i, k, -, rfl, -, -⟩ := Machine.return_cases hs
  obtain ⟨c, hc, hk⟩ := Machine.outcome_of_return hs
  have hok : Undisturbed w (.access i k) ↔ (k = 0 → AsFound w.shared c.await) :=
    imp_congr_right (fun _ => ⟨fun hall => hall c hc, fun hf d hd => Option.some.inj (hc.symm.trans hd) ▸ hf⟩)
  rw [hok]
  cases k with
  | succ k =>
    refine iff_of_false ?_ (not_not_intro (fun hk => absurd hk (Nat.succ_ne_zero k)))
    rintro ⟨x, rfl⟩
    cases hp : c.await <;> rw [hp] at hk <;> cases k <;> simp [machine, access] at hk
  | zero =>
    rw [show (0 = 0 → AsFound w.shared c.await) ↔ AsFound w.shared c.await from ⟨fun hf => hf rfl, fun hf _ => hf⟩]
    cases hp : c.await with
    | find r' =>
      rw [hp] at hk
      simp [machine, access] at hk
    | probe r' =>
      rw [hp] at hk
      obtain ⟨-, rfl⟩ : w.shared = w'.shared ∧ _ := by simpa [machine, access] using hk
      refine iff_of_false (by rintro ⟨x, ⟨⟩⟩) (not_not_intro trivial)
    | update r' ids =>
      rw [hp] at hk
      rw [← accepted_iff h r' ids]
      simp only [machine, access, List.getElem?_cons_zero, Option.some.injEq] at hk
      split at hk
      · next x hx =>
        obtain rfl := Next.done.inj (congrArg Prod.snd hk)
        exact iff_of_true ⟨x, rfl⟩ (by simp [hx])
      · next hnone =>
        refine iff_of_false ?_ (not_not_intro hnone)
        rintro ⟨x, rfl⟩
        have hanswer : answer r' (w.shared.hits r' ids) = .done (.rejected x) := congrArg Prod.snd hk
        unfold answer at hanswer
        split at hanswer <;> simp at hanswer

/-- In every run no seat is both checked in and a no-show, and of the check-ins of a seat since it was last
undone exactly one, if there are any, has reported `firstTime`; and a statement is refused by a check of the
table exactly when it is a sweep that reaches a seat which has been checked in since the sweep found it. -/
theorem presence_is_exclusive (w : World) (h : Machine.Run machine (fun _ _ => True) (World.initial start) w) :
    (∀ x ∈ w.shared.seats, (x.checkedInAt = none ∨ x.noShowAt = none) ∧
      x.arrivals.count true = if x.arrivals = [] then 0 else 1) ∧
    ∀ m w' r, machine.step w m = some (w', some r) → ((∃ c, r = .rejected c) ↔ ¬ Undisturbed w m) := by
  have hsound : Sound w.shared :=
    h.invariant (P := fun w => Sound w.shared) (fun x hx => absurd hx List.not_mem_nil)
      (fun hw _ hs => sound_of_step hw hs)
  exact ⟨fun x hx => ⟨(hsound x hx).passes .presenceExclusive, (hsound x hx).first⟩,
    fun m w' r hs => rejected_iff hsound hs⟩

/-! ## A check-in while the sweep waits -/

/-- One seat of an event that is over. -/
def eventOver : List Move :=
  [.environment (.setCleanups [⟨1, .done, 1000⟩]), .environment (.register 5 1 50 10),
    .environment (.register 6 1 60 20)]

def sweep : Request := .sweepNoShows (twoHours + 2000) 10

/-- The sweep has selected both seats when one of them is checked in, and marks neither. -/
theorem checkin_meanwhile_fails_sweep :
    ¬ ∀ w, Machine.Run machine (fun _ _ => True) (World.initial start) w →
      ∀ m w' r, machine.step w m = some (w', some r) → ∀ c, r ≠ .rejected c := by
  intro hall
  have hruns : (machine.perform (World.initial start) (eventOver ++ [(.start sweep : Move), .access 0 0,
      .start (.checkInSeat 1 5 9 .manual 3000), .access 1 0, .access 1 0])).any (fun w =>
        (machine.step w (.access 0 0)).any (fun x => decide (x.2 = some (.rejected .presenceExclusive)))) = true := by
    decide +kernel
  obtain ⟨w, hw, hstep⟩ := (Option.any_eq_true _ _).mp hruns
  obtain ⟨⟨w', x⟩, hs, hx⟩ := (Option.any_eq_true _ _).mp hstep
  have hrejected : x = some (.rejected .presenceExclusive) := of_decide_eq_true hx
  subst hrejected
  exact hall w (Machine.free_of_perform hw) (.access 0 0) w' _ hs _ rfl

/-- A seat is checked in twice, undone and marked by the sweep; the other seat is checked in by its token. -/
def checkedInTwice : List Move :=
  eventOver ++ [(.start (.checkInSeat 1 5 9 .manual 3000) : Move), .access 0 0, .access 0 0,
    .start (.checkInByToken 1 60 9 .scan 3001),
    .access 1 0, .access 1 0, .start (.checkInByToken 1 60 9 .scan 3002), .access 2 0, .access 2 0,
    .start (.undoCheckIn 1 5), .access 3 0, .access 3 0, .start sweep, .access 4 0, .access 4 0]

/-- The seat that was scanned twice has been checked in once for the first time. -/
theorem scanned_twice : ∃ (w : World) (x y : Seat), w.shared.seats = [x, y] ∧ x.noShowAt ≠ none ∧ y.arrivals =
    [false, true] ∧
    (∀ x ∈ w.shared.seats, (x.checkedInAt = none ∨ x.noShowAt = none) ∧
      x.arrivals.count true = if x.arrivals = [] then 0 else 1) ∧
    ∀ m w' r, machine.step w m = some (w', some r) → ((∃ c, r = .rejected c) ↔ ¬ Undisturbed w m) := by
  have hruns : (machine.perform (World.initial start) checkedInTwice).any (fun w => match w.shared.seats with
      | [x, y] => decide (x.noShowAt ≠ none ∧ y.arrivals = [false, true])
      | _ => false) = true := by decide +kernel
  obtain ⟨w, hw, hP⟩ := (Option.any_eq_true _ _).mp hruns
  split at hP
  · next x y hseats =>
    obtain ⟨hmarked, harrivals⟩ := of_decide_eq_true hP
    exact ⟨w, x, y, hseats, hmarked, harrivals, presence_is_exclusive w (Machine.free_of_perform hw)⟩
  · cases hP

end Civfix.DoorPresence
