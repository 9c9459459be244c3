import Civfix.EventEdits
import Civfix.VolunteerHoursRules

/-! # Credits and host edits of the same events

The day of an event's credit is not stored. It is the event's local date, which the cap check of a
credit reads from the event's row as it is then. Here the four writers of the ledger and the host
edits run against the same rows. A writer's transaction takes its advisory locks one at a time, reads
what its checks need and writes; its last statement is made together with the commit, since under
the locks nothing that it reads can change in between. Every caller of the credits passes
`DAILY_HOURS_CAP`, which is also the default. -/
namespace Civfix.CreditedDays

open KeyedTables InterleavedCalls SpelledIds
open VolunteerHours (Id Day Lock Entry Surroundings EventHoursEntry EventCreditWrite LogEventHoursArgs
  OperatorEventCreditArgs OperatorManualCreditArgs OperatorVoidArgs engine dailyHoursCap)

def DEFAULT_EVENT_TIME_ZONE : String := "America/Los_Angeles"

structure Config extends EventEdits.Config where
  /-- `(instant AT TIME ZONE zone)::date`. -/
  dayIn : EventEdits.Instant → String → Day

structure Shared where
  host : EventEdits.Shared
  ledger : VolunteerHours.Db

def Config.eventDay (cfg : Config) (e : EventEdits.Event) : Day :=
  cfg.dayIn e.scheduledAt (e.timezone.getD DEFAULT_EVENT_TIME_ZONE)

def Shared.localDate (cfg : Config) (s : Shared) (cleanupId : Id) : Option Day :=
  (s.host.events.find? cleanupId).map cfg.eventDay

def Shared.surroundings (cfg : Config) (s : Shared) (newId : Id → Id) : Surroundings :=
  ⟨s.host.now, newId, s.localDate cfg⟩

/-! ## The work of a transaction -/

/-- A transaction with the ids it draws; a void knows the event of its entry before it locks. -/
inductive Work where
  | logEventHours (newId : Id → Id) (args : LogEventHoursArgs)
  | creditEventAsOperator (newId : Id → Id) (args : OperatorEventCreditArgs)
  | creditManual (newId : Id → Id) (args : OperatorManualCreditArgs)
  | voidEntry (args : OperatorVoidArgs) (cleanupId : Option Id)

namespace Work

/-- The text of the event's id: the caller's, or that of the entry's row. -/
def cleanupId : Work → Option IdText
  | logEventHours _ args => some args.cleanupId
  | creditEventAsOperator _ args => some args.cleanupId
  | creditManual _ _ => none
  | voidEntry _ c => c.map printed

/-- What the work credits, and to whom. -/
def credits : Work → List EventHoursEntry
  | logEventHours _ args => args.entries
  | creditEventAsOperator _ args => [⟨args.userId, args.hours⟩]
  | creditManual _ args => [⟨args.userId, args.hours⟩]
  | voidEntry _ _ => []

def userIds : Work → List Id
  | logEventHours _ args => args.entries.map (·.userId.value)
  | creditEventAsOperator _ args => [args.userId.value]
  | creditManual _ args => [args.userId.value]
  | voidEntry args _ => [args.userId]

/-- `lockEventCredits` or `lockUserCredits`, in the order they are taken. -/
def locks (t : Work) : List Lock :=
  List.append (t.cleanupId.toList.map .event) ((t.userIds.dedup.mergeSort (fun a b => decide (a ≤ b))).map .user)

theorem mem_locks_user {t : Work} {u : Id} : Lock.user u ∈ t.locks ↔ u ∈ t.userIds := by
  simp [locks]

theorem mem_locks_event {t : Work} {c : IdText} : Lock.event c ∈ t.locks ↔ t.cleanupId = some c := by
  simp [locks, eq_comm]

variable (cfg : Config) (s : Shared)

/-- What the cap check reads: the hours of the user on the day of the work, the event's own apart. -/
def heldByUser (u : Id) : Work → ℕ
  | logEventHours newId args => VolunteerHours.sameDayEventHours (s.surroundings cfg newId) args.cleanupId.value s.ledger u
  | creditEventAsOperator newId args =>
    VolunteerHours.sameDayEventHours (s.surroundings cfg newId) args.cleanupId.value s.ledger u
  | creditManual newId args =>
    VolunteerHours.hoursHeldOnServiceDate (s.surroundings cfg newId) args.serviceDate s.ledger u
  | voidEntry _ _ => 0

/-- The check between the locks and the cap. -/
def refusal : Work → Option VolunteerHours.Failure
  | logEventHours _ args =>
    if s.ledger.entries.rows.any (VolunteerHours.reciprocalOf args (args.entries.map (·.userId.value))) then
      some (.conflict "You can't credit hours to someone who has already credited you for this event.")
    else none
  | creditEventAsOperator _ args =>
    ((s.ledger.creditOf args.cleanupId.value args.userId.value).filter (fun e => decide e.Live)).map (fun e =>
      .conflict ("That volunteer already holds " ++ VolunteerHours.showHours e.hours ++
        " h for this event; void that entry first."))
  | creditManual newId args =>
    if s.ledger.entries.rows.any (VolunteerHours.repeatOf (s.surroundings cfg newId) args) then
      some (.conflict "That adjustment was recorded moments ago; check the ledger before adding it again.")
    else none
  | voidEntry _ _ => none

/-- `refuseUnvoidable`. -/
def unvoidable (args : OperatorVoidArgs) : VolunteerHours.Failure :=
  match s.ledger.ownEntry args with
  | none => .notFound "Hours entry not found"
  | some e =>
    if ¬ e.Live then .conflict "That hours entry is already void."
    else .conflict "Report credits are retired and can't be voided."

end Work

inductive Result where
  | written
  | refused (f : VolunteerHours.Failure)
  | failed
  | edited (r : EventEdits.Result)

/-- `writeEventCredits` and the commit; an event that is gone fails the foreign key. -/
def Shared.writeCredits (cfg : Config) (s : Shared) (newId : Id → Id) (write : EventCreditWrite) : Shared × Result :=
  match s.host.events.find? write.cleanupId with
  | none => (s, .failed)
  | some _ =>
    match write.outcome (s.surroundings cfg newId) s.ledger with
    | .error c => (s, .refused (.violation c))
    | .ok (_, writes) => ({ s with ledger := engine.applyAll s.ledger writes }, .written)

def Shared.insertManual (cfg : Config) (s : Shared) (newId : Id → Id) (args : OperatorManualCreditArgs) :
    Shared × Result :=
  match VolunteerHours.hoursCheck args.hours with
  | some c => (s, .refused (.violation c))
  | none =>
    if s.ledger.entries.find? (newId args.userId.value) = none then
      let insert := VolunteerHours.Write.insertEntry (VolunteerHours.manualEntry (s.surroundings cfg newId) args)
      ({ s with ledger := engine.applyAll s.ledger [insert] }, .written)
    else (s, .refused (.violation .primaryKey))

/-- The UPDATE of a void with its journal line and its rollup. -/
def Shared.voidEntry (cfg : Config) (s : Shared) (args : OperatorVoidArgs) : Shared × Result :=
  match s.ledger.voidable args with
  | none => (s, .refused (Work.unvoidable s args))
  | some row =>
    ({ s with ledger := engine.applyAll s.ledger (VolunteerHours.voidWrites (s.surroundings cfg id) args row) },
      .written)

def Work.commit (cfg : Config) (s : Shared) : Work → Shared × Result
  | logEventHours newId args => s.writeCredits cfg newId args.write
  | creditEventAsOperator newId args => s.writeCredits cfg newId args.write
  | creditManual newId args => s.insertManual cfg newId args
  | voidEntry args _ => s.voidEntry cfg args

/-! ## The calls -/

inductive Operation where
  | updateCleanup (r : EventEdits.Request)
  | logEventHours (newId : Id → Id) (args : LogEventHoursArgs)
  | creditEventAsOperator (newId : Id → Id) (args : OperatorEventCreditArgs)
  | creditManual (newId : Id → Id) (args : OperatorManualCreditArgs)
  | voidEntry (args : OperatorVoidArgs)

/-- `locking t n` waits for the lock number `n` of the transaction. -/
inductive Await where
  | edit (a : EventEdits.Await)
  | finding (args : OperatorVoidArgs)
  | locking (t : Work) (n : ℕ)
  | checking (t : Work)
  | capping (t : Work)
  | writing (t : Work)

abbrev Step := Next Await Result

/-- The locks that the transaction holds. -/
def Await.held : Await → List Lock
  | .edit _ | .finding _ => []
  | .locking t n => t.locks.take n
  | .checking t | .capping t | .writing t => t.locks

/-- The lock that the transaction waits for. -/
def Await.wanted : Await → Option Lock
  | .locking t n => t.locks[n]?
  | .edit _ | .finding _ | .checking _ | .capping _ | .writing _ => none

/-- A void has nothing to check before its UPDATE. -/
def afterLocks : Work → Await
  | .voidEntry args c => .writing (.voidEntry args c)
  | t => .checking t

def Operation.enter : Operation → Await
  | .updateCleanup r => .edit (.reading r)
  | .logEventHours newId args => .locking (.logEventHours newId args) 0
  | .creditEventAsOperator newId args => .locking (.creditEventAsOperator newId args) 0
  | .creditManual newId args => .locking (.creditManual newId args) 0
  | .voidEntry args => .finding args

def ofEdit : EventEdits.Step → Step
  | .await a => .await (.edit a)
  | .done r => .done (.edited r)

/-- The regular outcome of an access. -/
def outcome (cfg : Config) (s : Shared) : Await → Shared × Step
  | .edit _ => (s, .done .failed)
  | .finding args =>
    (s, match s.ledger.ownEntry args with
      | none => .done (.refused (.notFound "Hours entry not found"))
      | some e => .await (.locking (.voidEntry args e.cleanupId) 0))
  | .locking t n => (s, .await (if n < t.locks.length then .locking t (n + 1) else afterLocks t))
  | .checking t =>
    (s, match t.refusal cfg s with
      | some f => .done (.refused f)
      | none => .await (.capping t))
  | .capping t =>
    let held := VolunteerHours.heldBy (t.heldByUser cfg s)
    (s, match VolunteerHours.withinDailyHoursCap t.credits held dailyHoursCap with
      | .error f => .done (.refused f)
      | .ok _ => .await (.writing t))
  | .writing t => ((t.commit cfg s).1, .done (t.commit cfg s).2)

/-- An access of a transaction can also fail, which rolls it back. -/
def access (cfg : Config) (s : Shared) : Await → List (Shared × Step)
  | .edit a => (EventEdits.access cfg.toConfig s.host a).map (fun x => ({ s with host := x.1 }, ofEdit x.2))
  | a => [outcome cfg s a, (s, .done .failed)]

inductive Change where
  | tick (ms : ℕ)
  | cancel (id : EventEdits.EventId)

def environment (cfg : Config) (s : Shared) : Change → Option Shared
  | .tick ms => (EventEdits.environment cfg.toConfig s.host (.tick ms)).map (fun h => { s with host := h })
  | .cancel id => (EventEdits.environment cfg.toConfig s.host (.cancel id)).map (fun h => { s with host := h })

/-- A batch without entries returns at once. -/
def machine (cfg : Config) : Machine Shared Operation Await Result Change where
  enter := fun s o =>
    match o with
    | .logEventHours _ args => if args.entries = [] then none else some (s, o.enter)
    | _ => some (s, o.enter)
  access := access cfg
  environment := environment cfg

abbrev World := InterleavedCalls.World Shared Operation Await
abbrev Move := InterleavedCalls.Move Operation Change

/-- An advisory lock is granted to one transaction at a time. -/
def Granted (w : World) : Move → Prop
  | .access i _ => ∀ c ∈ w.call i, ∀ l ∈ c.await.wanted, w.Others i (fun d => l ∉ d.await.held)
  | .start _ | .crash _ | .environment _ => True

instance (w : World) : (m : Move) → Decidable (Granted w m)
  | .access .. => inferInstanceAs (Decidable (∀ c ∈ _, ∀ l ∈ _, _))
  | .start _ | .crash _ | .environment _ => inferInstanceAs (Decidable True)

end Civfix.CreditedDays
