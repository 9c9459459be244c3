import Civfix.AttendanceTables
import Civfix.VolunteerHoursRepository
import Mathlib.Data.Rat.Floor

/-! # The host's request to log hours

What the service checks before a host's `logEventHours` reaches the repository: that the
event is there and visible, that the actor may manage it, that it has ended and ran long
enough, and that every entry is creditable. The bounds, the event clock and the capability
table come from the shared contract package and are parameters; hours in a request are
rational, and hours after `round2` are hundredths. -/
namespace Civfix.VolunteerHours

open SpelledIds
open Attendance (EventStatus EventVisibility MemberRole)

inductive OrganizationRole | owner | admin | member

structure HostStanding where
  eventRole : Option MemberRole
  orgRole : Option OrganizationRole

structure CleanupHoursView where
  status : EventStatus
  visibility : EventVisibility
  jurisdictionGeoid : Option Geoid
  scheduledAt : Instant
  endsAt : Instant
  completedAt : Option Instant

/-- What `@civfix/contract` exports to these checks; hours in hundredths. -/
structure Contract where
  minEventHours : ℤ
  maxEventHours : ℤ
  maxEventHoursEntries : ℕ
  minEventDurationMinutes : ℤ
  /-- `can(standing, "manage_event")`. -/
  canManageEvent : HostStanding → Bool
  /-- Of status, start, end and the current time. -/
  hasEventEnded : EventStatus → Instant → Instant → Instant → Bool
  /-- A setting of the service itself. -/
  weeklyFlagHours : Option ℤ

/-- What the service loads for one request. -/
structure HoursLookup where
  cleanup : Option CleanupHoursView
  standing : HostStanding
  memberIds : List Id
  now : Instant

structure HoursRequestEntry where
  userId : IdText
  hours : ℚ

structure HoursRequest where
  cleanupId : IdText
  actorId : Id
  entries : List HoursRequestEntry

structure EventCreditLimits where
  durationMs : ℤ
  windowCap : ℤ

def msPerHour : ℤ := 3600000
def msPerMinute : ℤ := 60000
def eventWindowGraceMs : ℤ := msPerHour

/-- `Math.round(n * 100)`: halves go up. -/
def round2 (q : ℚ) : ℤ := ⌊q * 100 + 1 / 2⌋

def hasHostStanding (standing : HostStanding) : Bool := standing.eventRole.isSome || standing.orgRole.isSome

def isEventPubliclyVisible : EventVisibility → Bool
  | .public | .unlisted => true
  | .private => false

def eventDurationMs (c : CleanupHoursView) : ℤ := (c.completedAt.getD c.endsAt : ℤ) - c.scheduledAt

def creditableHoursForEvent (k : Contract) (c : CleanupHoursView) : ℤ :=
  if eventDurationMs c ≤ 0 then 0
  else min k.maxEventHours (round2 ((eventDurationMs c + eventWindowGraceMs : ℚ) / msPerHour))

def assertEventCreditable (k : Contract) (c : CleanupHoursView) (now : Instant) : Except Failure EventCreditLimits :=
  if c.status = .cancelled then .error (.conflict "Volunteer hours can't be logged for a cancelled event.")
  else if ¬ k.hasEventEnded c.status c.scheduledAt c.endsAt now then
    .error (.conflict "Volunteer hours can be logged once the event has ended.")
  else if eventDurationMs c < k.minEventDurationMinutes * msPerMinute then
    .error (.conflict ("This event ran for less than " ++ toString k.minEventDurationMinutes ++
      " minutes, so no volunteer hours can be logged against it."))
  else .ok ⟨eventDurationMs c, creditableHoursForEvent k c⟩

def assertCreditableEventHours (k : Contract) (hours : ℚ) (limits : EventCreditLimits) (field : String) :
    Except Failure Unit :=
  if ¬ (k.minEventHours : ℚ) / 100 ≤ hours ∨ (k.maxEventHours : ℚ) / 100 < hours then
    .error (.validation field ("hours must be at least " ++ showHours k.minEventHours ++ " and at most " ++
      showHours k.maxEventHours))
  else if (limits.windowCap : ℚ) / 100 < hours then
    .error (.validation field ("this event ran for " ++ showHours (round2 (limits.durationMs / msPerHour : ℚ)) ++
      " h, so at most " ++ showHours limits.windowCap ++ " h may be credited per attendee"))
  else .ok ()

/-- `loadVisibleCleanup`: a private event the viewer has no standing on answers like an unknown id. -/
def loadVisibleCleanup (l : HoursLookup) : Except Failure CleanupHoursView :=
  match l.cleanup with
  | none => .error (.notFound "Event not found")
  | some c =>
    if ¬ hasHostStanding l.standing ∧ ¬ isEventPubliclyVisible c.visibility then .error (.notFound "Event not found")
    else .ok c

def assertHoursLoggable (k : Contract) (l : HoursLookup) (c : CleanupHoursView) : Except Failure EventCreditLimits :=
  if ¬ k.canManageEvent l.standing then .error (.forbidden "Only the event hosts can log volunteer hours.")
  else assertEventCreditable k c l.now

/-- The loop of `assertCreditableEntries`; `seen` holds the users of the entries before. -/
def assertEachCreditable (k : Contract) (actorId : Id) (limits : EventCreditLimits) :
    List IdText → List HoursRequestEntry → Except Failure Unit
  | _, [] => .ok ()
  | seen, e :: es =>
    if e.userId = printed actorId then
      .error (.forbidden "You can't log volunteer hours for yourself. Another host must credit you.")
    else
      match assertCreditableEventHours k e.hours limits "entries" with
      | .error f => .error f
      | .ok _ =>
        if e.userId ∈ seen then .error (.validation "entries" ("duplicate userId: " ++ e.userId.display))
        else assertEachCreditable k actorId limits (e.userId :: seen) es

def assertCreditableEntries (k : Contract) (entries : List HoursRequestEntry) (actorId : Id)
    (limits : EventCreditLimits) : Except Failure Unit :=
  if k.maxEventHoursEntries < entries.length then
    .error (.validation "entries" ("at most " ++ toString k.maxEventHoursEntries ++
      " attendees may be credited in one request"))
  else assertEachCreditable k actorId limits [] entries

def assertAllAttending (l : HoursLookup) (entries : List HoursRequestEntry) : Except Failure Unit :=
  match entries.filter (fun e => decide (e.userId ∉ l.memberIds.map printed)) with
  | [] => .ok ()
  | nonMembers => .error (.validation "entries"
      ("not attending this event: " ++ ", ".intercalate (nonMembers.map (·.userId.display))))

/-- The service's `logEventHours` up to its call of the repository: the refusal, or the
arguments it calls with. -/
def Service.logEventHours (k : Contract) (l : HoursLookup) (input : HoursRequest) :
    Except Failure LogEventHoursArgs := do
  let cleanup ← loadVisibleCleanup l
  let limits ← assertHoursLoggable k l cleanup
  assertCreditableEntries k input.entries input.actorId limits
  assertAllAttending l input.entries
  pure {
    actorId := input.actorId
    cleanupId := input.cleanupId
    geoid := cleanup.jurisdictionGeoid
    entries := input.entries.map (fun e => ⟨e.userId, round2 e.hours⟩)
    dailyCapHours := some dailyHoursCap
    weeklyFlagHours := some (k.weeklyFlagHours.getD weeklyHoursFlagDefault) }

theorem ne_actor_of_assertEachCreditable {k : Contract} {actorId : Id} {limits : EventCreditLimits}
    {seen : List IdText} {es : List HoursRequestEntry} (h : assertEachCreditable k actorId limits seen es = .ok ()) :
    ∀ e ∈ es, e.userId ≠ printed actorId := by
  induction es generalizing seen with
  | nil => simp
  | cons x es ih =>
    unfold assertEachCreditable at h
    split at h
    · cases h
    · next hx =>
      split at h
      · cases h
      · split at h
        · cases h
        · simp only [List.forall_mem_cons]
          exact ⟨hx, ih h⟩

/-- The members of the event are read from the database. -/
theorem isPrinted_of_assertAllAttending {l : HoursLookup} {es : List HoursRequestEntry}
    (h : assertAllAttending l es = .ok ()) : ∀ e ∈ es, e.userId.IsPrinted := by
  unfold assertAllAttending at h
  split at h
  · next hnone =>
    intro e he
    have hmem : e.userId ∈ l.memberIds.map printed := by
      by_contra hout
      have hin : e ∈ es.filter (fun e => decide (e.userId ∉ l.memberIds.map printed)) :=
        List.mem_filter.mpr ⟨he, decide_eq_true hout⟩
      rw [hnone] at hin
      cases hin
    obtain ⟨id, -, hid⟩ := List.mem_map.mp hmem
    rw [← hid]
    exact IdText.isPrinted_printed id
  · cases h

/-- A batch that passes the service credits nobody on their own behalf. -/
theorem Service.logEventHours_ne_actor {k : Contract} {l : HoursLookup} {input : HoursRequest}
    {args : LogEventHoursArgs}
    (h : Service.logEventHours k l input = .ok args) : ∀ e ∈ args.entries, e.userId.value ≠ args.actorId := by
  unfold Service.logEventHours at h
  cases hc : loadVisibleCleanup l with
  | error f => simp [hc, bind, Except.bind] at h
  | ok c =>
    cases hl : assertHoursLoggable k l c with
    | error f => simp [hc, hl, bind, Except.bind] at h
    | ok limits =>
      cases he : assertCreditableEntries k input.entries input.actorId limits with
      | error f => simp [hc, hl, he, bind, Except.bind] at h
      | ok u =>
        cases ha : assertAllAttending l input.entries with
        | error f => simp [hc, hl, he, ha, bind, Except.bind] at h
        | ok v =>
          simp only [hc, hl, he, ha, bind, Except.bind, pure, Except.pure, Except.ok.injEq] at h
          subst h
          unfold assertCreditableEntries at he
          split at he
          · cases he
          · have hne := ne_actor_of_assertEachCreditable he
            intro e hmem hactor
            obtain ⟨x, hx, rfl⟩ := List.mem_map.mp hmem
            refine hne x hx ((isPrinted_of_assertAllAttending ha x hx).eq_of_value ?_ hactor)
            exact IdText.isPrinted_printed input.actorId

end Civfix.VolunteerHours
