import Civfix.AttendanceTables
import Civfix.InterleavedCalls
import Civfix.KeyedTables

/-! # Host edits of an event

`updateCleanup` reads the event, validates the patch against what it read, lists the slots where it
needs them, and then writes the patched columns in one transaction under the row lock of the event.
Every path that creates an event or edits it checks the window; the checks are pure functions of
what was read. Times are milliseconds. An access can also end in a refusal whose reason lies outside
this model (standing, texts, links, media, a failing database). -/
namespace Civfix.EventEdits

open KeyedTables InterleavedCalls
open Attendance (EventStatus)

abbrev EventId := ℕ
abbrev SlotId := ℕ
abbrev Instant := ℕ

def MS_PER_MINUTE : ℕ := 60000
def SCHEDULE_MAX_BACKDATE_MS : ℕ := 24 * 60 * MS_PER_MINUTE
def DEFAULT_EVENT_SLOT_TITLE : String := "General volunteers"

/-- What `@civfix/contract` and the platform export to these checks. -/
structure Config where
  minDurationMinutes : ℕ
  maxDurationMinutes : ℕ
  minSlotMinutes : ℕ
  maxSlots : ℕ
  defaultDurationMs : ℕ
  /-- Of status, start, end and the current time. -/
  hasEventEnded : EventStatus → Instant → Instant → Instant → Bool
  /-- `deriveCleanupStatus` answers `done`. -/
  derivesDone : EventStatus → Instant → Instant → Instant → Bool
  validTimezone : String → Bool
  /-- `title.trim().toLowerCase()`. -/
  titleKey : String → String

namespace Config

variable (cfg : Config)

def minDurationMs : ℕ := cfg.minDurationMinutes * MS_PER_MINUTE
def maxDurationMs : ℕ := cfg.maxDurationMinutes * MS_PER_MINUTE
def minSlotMs : ℕ := cfg.minSlotMinutes * MS_PER_MINUTE

end Config

/-- A row of `cleanup_slots`. -/
structure Slot where
  id : SlotId
  title : String
  startsAt : Option Instant
  endsAt : Option Instant
  deriving DecidableEq

/-- A row of `cleanups` with its slots. -/
structure Event where
  id : EventId
  status : EventStatus
  scheduledAt : Instant
  endsAt : Instant
  timezone : Option String
  registrationOpensAt : Option Instant
  registrationClosesAt : Option Instant
  slots : Table Slot.id

/-- A slot as a request names it, and as it is to be stored. -/
structure SlotInput where
  id : Option SlotId
  title : String
  startsAt : Option Instant
  endsAt : Option Instant
  deriving DecidableEq

/-- An absent field is left as it is; `some none` is a null. `place` and `kind` say that the
coordinates or the type of the event are given. -/
structure Patch where
  title : Option String := none
  scheduledAt : Option Instant := none
  endsAt : Option (Option Instant) := none
  timezone : Option (Option String) := none
  registrationOpensAt : Option (Option Instant) := none
  registrationClosesAt : Option (Option Instant) := none
  place : Bool := false
  kind : Bool := false
  slots : Option (List SlotInput) := none

inductive Failure where
  | validation (field message : String)
  | conflict (message : String)
  | outside

structure Window where
  scheduledAt : Instant
  endsAt : Instant
  deriving DecidableEq

def Event.window (e : Event) : Window := ⟨e.scheduledAt, e.endsAt⟩

/-- `editedWindowOf`, for a patch whose end is not null. -/
def Patch.window (p : Patch) (e : Event) : Window := ⟨p.scheduledAt.getD e.scheduledAt, p.endsAt.join.getD e.endsAt⟩

/-! ## The checks -/

def refusalOnceEnded (p : Patch) (current : Event) : Option Failure :=
  if p.title.isSome || p.scheduledAt.isSome || p.place || p.kind then
    some (.conflict "An event that has ended can't change its date, title, location or type.")
  else if p.endsAt.join.any (fun t => decide (t ≠ current.endsAt)) then
    some (.conflict "An event that has ended can't change its end time.")
  else if p.slots.isSome then some (.validation "slots" "Slots can't be changed after an event has ended.")
  else none

def assertScheduledAtNotBackdated (next : Option Instant) (stored now : Instant) : Except Failure Unit :=
  match next with
  | none => .ok ()
  | some t =>
    if now ≤ t + SCHEDULE_MAX_BACKDATE_MS then .ok ()
    else if stored ≤ t then .ok ()
    else .error (.validation "scheduledAt" "must not be in the past")

/-- The end of an event is never null here; the columns are `NOT NULL`. -/
def assertEventWindow (cfg : Config) (w : Window) (opensAt closesAt : Option Instant) : Except Failure Unit :=
  if w.endsAt ≤ w.scheduledAt then .error (.validation "endsAt" "must be after the start time")
  else if w.endsAt < w.scheduledAt + cfg.minDurationMs then
    .error (.validation "endsAt" ("must be at least " ++ toString cfg.minDurationMinutes ++ " minutes after scheduledAt"))
  else if w.scheduledAt + cfg.maxDurationMs < w.endsAt then
    .error (.validation "endsAt" ("an event can run for at most " ++ toString
      (cfg.maxDurationMinutes / 60) ++ " hours"))
  else if (opensAt.bind (fun a => closesAt.map (fun b => decide (b ≤ a)))).getD false then
    .error (.validation "registrationClosesAt" "must be after registration opens")
  else .ok ()

def assertSlotInsideEvent (cfg : Config) (title : String) (startsAt endsAt : Instant) (w : Window) :
    Except Failure Unit :=
  if startsAt < w.scheduledAt ∨ w.endsAt < endsAt then
    .error (.validation "slots" ("slot \"" ++ title ++ "\" falls outside the event's start and end"))
  else if endsAt < startsAt + cfg.minSlotMs then
    .error (.validation "slots" ("slot \"" ++ title ++ "\" must last at least " ++ toString cfg.minSlotMinutes ++ " minutes"))
  else .ok ()

/-- The check of one slot that has both times. -/
def assertSlotWindow (cfg : Config) (x : SlotInput) (w : Window) : Except Failure Unit :=
  match x.startsAt, x.endsAt with
  | some a, some b => assertSlotInsideEvent cfg x.title a b w
  | _, _ => .ok ()

def slotIdentityKey (cfg : Config) (x : SlotInput) : String × Option Instant × Option Instant :=
  (cfg.titleKey x.title, x.startsAt, x.endsAt)

/-- The loop of `toDesiredSlots`; `seen` holds the keys of the slots before. -/
def assertEachSlot (cfg : Config) (w : Window) :
    List (String × Option Instant × Option Instant) → List SlotInput → Except Failure Unit
  | _, [] => .ok ()
  | seen, x :: xs =>
    match assertSlotWindow cfg x w with
    | .error f => .error f
    | .ok _ =>
      if slotIdentityKey cfg x ∈ seen then .error (.validation "slots" ("duplicate slot title: " ++ x.title))
      else assertEachSlot cfg w (slotIdentityKey cfg x :: seen) xs

def toDesiredSlots (cfg : Config) (slots : List SlotInput) (w : Window) : Except Failure Unit :=
  if cfg.maxSlots < slots.length then
    .error (.validation "slots" ("at most " ++ toString cfg.maxSlots ++ " slots may be listed"))
  else assertEachSlot cfg w [] slots

def Slot.outside (w : Window) (x : Slot) : Bool :=
  match x.startsAt, x.endsAt with
  | some a, some b => decide (a < w.scheduledAt ∨ w.endsAt < b)
  | _, _ => false

def assertTimedSlotsFitWindow (stored : Table Slot.id) (w : Window) : Except Failure Unit :=
  if stored.rows.any (Slot.outside w) then
    .error (.validation "scheduledAt"
      "timed slots would fall outside the new start and end; update the slots in the same save")
  else .ok ()

def assertKnownSlotIds (desired : List SlotInput) (stored : Table Slot.id) : Except Failure Unit :=
  match desired.findSome? (fun x => x.id.filter (fun id => (stored.find? id).isNone)) with
  | some id => .error (.validation "slots" ("unknown slot: " ++ toString id))
  | none => .ok ()

def assertValidTimezone (cfg : Config) (timezone : Option (Option String)) : Except Failure Unit :=
  if timezone.join.all cfg.validTimezone then .ok () else .error
    (.validation "timezone" "must be a valid IANA time zone")

/-- `assertEditable`: the refusal that the write checks again, once the event may have ended. -/
def assertEditable (cfg : Config) (current : Event) (p : Patch) (now : Instant) : Except Failure (Option Failure) :=
  if current.status = .cancelled then
    .error (.conflict "This event has been cancelled and can no longer be edited.")
  else
    match refusalOnceEnded p current with
    | some f =>
      if cfg.derivesDone current.status current.scheduledAt current.endsAt now then .error f
      else (assertScheduledAtNotBackdated p.scheduledAt current.scheduledAt now).map (fun _ => some f)
    | none => (assertScheduledAtNotBackdated p.scheduledAt current.scheduledAt now).map (fun _ => none)

/-- The checks of `resolveHostWrite` on the columns modelled here. -/
def resolveHostWrite (cfg : Config) (p : Patch) (current : Event) : Except Failure Unit := do
  assertValidTimezone cfg p.timezone
  assertEventWindow cfg (p.window current) (p.registrationOpensAt.getD current.registrationOpensAt)
    (p.registrationClosesAt.getD current.registrationClosesAt)

/-! ## The write -/

structure Shared where
  now : Instant
  events : Table Event.id
  nextSlot : SlotId

/-- One slot of `writeSlotsInTx`. -/
def writeSlot (x : Table Slot.id × SlotId) (d : SlotInput) : Table Slot.id × SlotId :=
  match d.id with
  | some id =>
    (x.1.modify id (fun y => { y with title := d.title, startsAt := d.startsAt, endsAt := d.endsAt })
      (fun _ => rfl), x.2)
  | none => (x.1.insert ⟨x.2, d.title, d.startsAt, d.endsAt⟩, x.2 + 1)

/-- `reconcileSlotsInTx`: slots that are not named any more go, then each named one is written. -/
def reconcileSlots (stored : Table Slot.id) (next : SlotId) (desired : List SlotInput) : Table Slot.id × SlotId :=
  desired.foldl writeSlot (stored.filter (fun y => desired.any (fun d => decide (d.id = some y.id))), next)

/-- The columns of the patch. -/
def Patch.apply (p : Patch) (e : Event) : Event :=
  { e with
    scheduledAt := p.scheduledAt.getD e.scheduledAt
    endsAt := p.endsAt.join.getD e.endsAt
    timezone := p.timezone.getD e.timezone
    registrationOpensAt := p.registrationOpensAt.getD e.registrationOpensAt
    registrationClosesAt := p.registrationClosesAt.getD e.registrationClosesAt }

inductive Result where
  | updated
  | notFound
  | refused (f : Failure)

/-- `updateCleanupWithEdits`, one transaction under the row lock. -/
def Shared.updateCleanupWithEdits (cfg : Config) (s : Shared) (id : EventId) (p : Patch) (ended : Option Failure) :
    Shared × Result :=
  match s.events.find? id with
  | none => (s, .notFound)
  | some e =>
    if e.status = .cancelled then
      (s, .refused (.conflict "This event has been cancelled and can no longer be edited."))
    else
      match ended.filter (fun _ => cfg.hasEventEnded e.status e.scheduledAt e.endsAt s.now) with
      | some f => (s, .refused f)
      | none =>
        -- cleanups_ends_after_start_chk
        if (p.window e).endsAt ≤ (p.window e).scheduledAt then (s, .refused .outside)
        else
          match p.slots with
          | none => ({ s with events := s.events.modify id p.apply (fun _ => rfl) }, .updated)
          | some desired =>
            match assertKnownSlotIds desired e.slots with
            | .error f => (s, .refused f)
            | .ok _ =>
              let written := reconcileSlots e.slots s.nextSlot desired
              ({ s with
                  events := s.events.modify id (fun x => { p.apply x with slots := written.1 }) (fun _ => rfl)
                  nextSlot := written.2 }, .updated)

/-! ## The call -/

structure Request where
  id : EventId
  patch : Patch

/-- What the call awaits, with what it has read so far. -/
inductive Await where
  | reading (r : Request)
  | listing (r : Request) (current : Event) (ended : Option Failure)
  | writing (r : Request) (current : Event) (listed : Option (Table Slot.id)) (ended : Option Failure)

abbrev Step := Next Await Result

/-- `resolveEditedScalars`, the last checks before the write. -/
def afterSlots (cfg : Config) (r : Request) (current : Event) (listed : Option (Table Slot.id))
    (ended : Option Failure) : Step :=
  match resolveHostWrite cfg r.patch current with
  | .error f => .done (.refused f)
  | .ok _ => .await (.writing r current listed ended)

/-- The checks on the event that was read, up to the list of its slots. -/
def afterReading (cfg : Config) (now : Instant) (r : Request) (current : Event) : Step :=
  match assertEditable cfg current r.patch now with
  | .error f => .done (.refused f)
  | .ok ended =>
    if r.patch.endsAt = some none then .done (.refused (.validation "endsAt" "an event must have an end time"))
    else
      match r.patch.slots with
      | none =>
        if r.patch.window current = current.window then afterSlots cfg r current none ended
        else .await (.listing r current ended)
      | some [] => .done (.refused (.validation "slots" "an event needs at least one signup slot"))
      | some (x :: xs) =>
        match toDesiredSlots cfg (x :: xs) (r.patch.window current) with
        | .error f => .done (.refused f)
        | .ok _ => .await (.listing r current ended)

/-- The checks on the slots that were listed. -/
def afterListing (cfg : Config) (r : Request) (current : Event) (listed : Table Slot.id) (ended : Option Failure) :
    Step :=
  match (match r.patch.slots with
    | none => assertTimedSlotsFitWindow listed (r.patch.window current)
    | some desired => assertKnownSlotIds desired listed) with
  | .error f => .done (.refused f)
  | .ok _ => afterSlots cfg r current (some listed) ended

def listSlots (s : Shared) (id : EventId) : Table Slot.id := ((s.events.find? id).map Event.slots).getD (.empty _)

def access (cfg : Config) (s : Shared) : Await → List (Shared × Step)
  | .reading r =>
    [(s, match s.events.find? r.id with
      | none => .done .notFound
      | some current => afterReading cfg s.now r current), (s, .done (.refused .outside))]
  | .listing r current ended =>
    [(s, afterListing cfg r current (listSlots s r.id) ended), (s, .done (.refused .outside))]
  | .writing r _ _ ended =>
    let x := s.updateCleanupWithEdits cfg r.id r.patch ended
    [(x.1, .done x.2), (s, .done (.refused .outside))]

/-- What a host creates an event from; without an end it has the default duration, without slots
the one default slot. -/
structure NewEvent where
  id : EventId
  scheduledAt : Instant
  endsAt : Option Instant
  timezone : Option String
  registrationOpensAt : Option Instant
  registrationClosesAt : Option Instant
  slots : Option (List SlotInput)

def defaultEventSlot : SlotInput := ⟨none, DEFAULT_EVENT_SLOT_TITLE, none, none⟩

/-- `createEvent`: the checks of `plannedEventWindow` and `resolveHostWrite`, and the insert. -/
def Shared.createEvent (cfg : Config) (s : Shared) (x : NewEvent) : Except Failure Shared := do
  if x.slots = some [] then throw (.validation "slots" "an event needs at least one signup slot")
  let w : Window := ⟨x.scheduledAt, x.endsAt.getD (x.scheduledAt + cfg.defaultDurationMs)⟩
  let slots := (x.slots.getD [defaultEventSlot]).map (fun d => { d with id := none })
  toDesiredSlots cfg slots w
  assertValidTimezone cfg (some x.timezone)
  assertEventWindow cfg w x.registrationOpensAt x.registrationClosesAt
  let written := slots.foldl writeSlot (.empty _, s.nextSlot)
  pure { s with
    events := s.events.insert ⟨x.id, .upcoming, w.scheduledAt, w.endsAt, x.timezone, x.registrationOpensAt,
      x.registrationClosesAt, written.1⟩
    nextSlot := written.2 }

inductive Change where
  | tick (ms : ℕ)
  | create (x : NewEvent)
  | cancel (id : EventId)

def environment (cfg : Config) (s : Shared) : Change → Option Shared
  | .tick ms => some { s with now := s.now + ms }
  | .create x => (s.createEvent cfg x).toOption
  | .cancel id => some { s with events := s.events.modify id (fun e => { e with status := .cancelled }) (fun _ => rfl) }

def machine (cfg : Config) : Machine Shared Request Await Result Change where
  enter := fun s r => some (s, .reading r)
  access := access cfg
  environment := environment cfg

end Civfix.EventEdits
