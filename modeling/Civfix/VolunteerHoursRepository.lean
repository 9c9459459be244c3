import Civfix.VolunteerHoursTables
import Mathlib.Data.List.Dedup
import Mathlib.Data.List.Sort

/-! # Volunteer-hours transactions

The bodies of `logEventHours`, `creditEventAsOperator`, `creditManual` and `voidEntry`, with
the shared statement `writeEventCredits` and the total query. What a transaction takes from
outside the ledger is an argument: the transaction's clock, the ids `gen_random_uuid` draws
and the local date of each event. The ids of an event and of the credited users are the texts of
the request; a statement compares their values, and what is built or looked up outside a statement
goes by the text. -/
namespace Civfix.VolunteerHours

open KeyedTables LockedTransactions SpelledIds

def civfixOfficialUserId : Id := 0xc1f1
def dailyHoursCap : ℤ := 2400
def weeklyHoursFlagDefault : ℤ := 6000
def reciprocalLookbackMs : ℕ := 30 * 24 * 60 * 60 * 1000
def weeklyWindowMs : ℕ := 7 * 24 * 60 * 60 * 1000
def manualCreditRepeatWindowMs : ℕ := 60000

inductive Constraint where
  | primaryKey | hoursPositive | numericOverflow | affectedTwice

/-- What rolls a transaction back: an `AppError` or a failed statement. -/
inductive Failure where
  | conflict (message : String)
  | notFound (message : String)
  | forbidden (message : String)
  | validation (field message : String)
  | internal (message : String)
  | violation (constraint : Constraint)

abbrev Stmt := Tx Db Write Lock Failure

/-- What a transaction reads outside the ledger. -/
structure Surroundings where
  now : Instant
  /-- The id drawn for a new row of the user. -/
  newId : Id → Id
  /-- The date of an event in its own time zone; `none` for an id without a row. -/
  localDate : Id → Option Day

structure EventHoursEntry where
  userId : IdText
  hours : ℤ

/-- A row of `unnest(userIds::uuid[], hours)`. -/
structure CreditRow where
  userId : Id
  hours : ℤ

def EventHoursEntry.row (e : EventHoursEntry) : CreditRow := ⟨e.userId.value, e.hours⟩

structure LogEventHoursArgs where
  actorId : Id
  cleanupId : IdText
  geoid : Option Geoid
  entries : List EventHoursEntry
  dailyCapHours : Option ℤ
  weeklyFlagHours : Option ℤ

structure EventCreditWrite where
  cleanupId : Id
  geoid : Option Geoid
  actorId : Id
  loggedByUserId : Id
  note : Option String
  creditedByOperatorId : Option Id
  entries : List CreditRow

structure EventCreditChange where
  userId : Id
  hours : ℕ
  previousHours : Option ℕ

structure OperatorEventCreditArgs where
  operatorId : Id
  userId : IdText
  cleanupId : IdText
  geoid : Option Geoid
  hours : ℤ
  reason : String
  dailyCapHours : Option ℤ

structure OperatorManualCreditArgs where
  operatorId : Id
  userId : IdText
  hours : ℤ
  serviceDate : Day
  reason : String
  dailyCapHours : Option ℤ

structure OperatorVoidArgs where
  operatorId : Id
  userId : Id
  entryId : Id
  reason : String

structure VoidedEntry where
  id : Id
  source : Source
  cleanupId : Option Id
  hours : ℕ

inductive Anomaly where
  | weeklyHours (userId : Id) (hours : ℕ)
  | reciprocalCredit (userId counterpartUserId : Id)

structure LogEventHoursResult where
  credited : ℕ
  changed : List EventCreditChange
  anomalies : List Anomaly

/-! ## Locks and the daily cap -/

/-- One call per sorted id; the duplicates are gone before the statement runs. -/
def lockUserCredits (userIds : List Id) : Stmt Unit :=
  if userIds = [] then pure ()
  else Tx.selectFor (fun _ => (userIds.dedup.mergeSort (fun a b => decide (a ≤ b))).map Lock.user) (fun _ => ())

/-- The lock of the event is taken on the text of its id. -/
def lockEventCredits (cleanupId : IdText) (userIds : List Id) : Stmt Unit := do
  Tx.selectFor (fun _ => [Lock.event cleanupId]) (fun _ => ())
  lockUserCredits userIds

/-- A live credit dated to the day: an event entry by its event's local date, a manual one by
its service date. -/
def creditedOnDay (env : Surroundings) (day : Day) (excludeCleanupId : Option Id) (userId : Id) (e : Entry) : Bool :=
  e.userId = userId ∧ e.Live ∧
    ((e.source = .event ∧ e.cleanupId.bind env.localDate = some day ∧ e.cleanupId ≠ excludeCleanupId) ∨
      (e.source = .manual ∧ e.serviceDate = some day))

def creditedHoursOnDay (env : Surroundings) (day : Option Day) (excludeCleanupId : Option Id) (s : Db)
    (userId : Id) : ℕ :=
  match day with
  | none => 0
  | some d => ((s.entries.rows.filter (creditedOnDay env d excludeCleanupId userId)).map Entry.hours).sum

def sameDayEventHours (env : Surroundings) (cleanupId : Id) (s : Db) (userId : Id) : ℕ :=
  creditedHoursOnDay env (env.localDate cleanupId) (some cleanupId) s userId

def hoursHeldOnServiceDate (env : Surroundings) (serviceDate : Day) (s : Db) (userId : Id) : ℕ :=
  creditedHoursOnDay env (some serviceDate) none s userId

/-- Hundredths as JavaScript prints the number. -/
def showHours (n : ℤ) : String :=
  let a := n.natAbs
  let sign := if n < 0 then "-" else ""
  let tail := if a % 100 = 0 then "" else if a % 10 = 0 then "." ++ toString (a % 100 / 10)
    else if a % 100 < 10 then ".0" ++ toString (a % 100) else "." ++ toString (a % 100)
  sign ++ toString (a / 100) ++ tail

/-- `heldByUser.get(userId) ?? 0`: the map is keyed by the ids as the database prints them. -/
def heldBy (held : Id → ℕ) (userId : IdText) : ℕ := if userId.IsPrinted then held userId.value else 0

/-- The first entry over the cap is the one reported. -/
def withinDailyHoursCap (entries : List EventHoursEntry) (held : IdText → ℕ) (cap : ℤ) : Except Failure Unit :=
  match entries.find? (fun e => decide (cap < (held e.userId : ℤ) + e.hours)) with
  | some e => .error (.conflict ("That volunteer already holds " ++ showHours (held e.userId) ++
      " h on this date; the daily limit is " ++ showHours cap ++ " h."))
  | none => .ok ()

/-- A check on what a statement read; it throws inside the transaction. -/
def orThrow : Except Failure Unit → Stmt Unit
  | .ok _ => pure ()
  | .error e => .abort e

/-! ## `writeEventCredits` -/

namespace Entry

/-- `CASE WHEN voided_at IS NULL THEN hours ELSE 0 END`. -/
def heldHours (e : Entry) : ℕ := if e.Live then e.hours else 0

/-- `CASE WHEN voided_at IS NULL THEN jurisdiction_geoid END`. -/
def heldGeoid (e : Entry) : Option Geoid := if e.Live then e.jurisdictionGeoid else none

/-- The row that `DO UPDATE ... WHERE` leaves alone. -/
def Unchanged (e : Entry) (hours : ℕ) (geoid : Option Geoid) : Prop :=
  e.Live ∧ e.hours = hours ∧ e.jurisdictionGeoid = geoid

instance (e : Entry) (h : ℕ) (g : Option Geoid) : Decidable (e.Unchanged h g) :=
  inferInstanceAs (Decidable (_ ∧ _ ∧ _))

end Entry

namespace Db

/-- The one row the event index holds for the user. -/
def creditOf (s : Db) (cleanupId userId : Id) : Option Entry :=
  s.entries.rows.find? (fun e => decide (e.IsCredit cleanupId userId))

end Db

namespace EventCreditWrite

variable (write : EventCreditWrite) (env : Surroundings) (s : Db)

def credit (e : CreditRow) : Credit :=
  ⟨e.hours.toNat, write.geoid, write.loggedByUserId, write.note, write.creditedByOperatorId⟩

/-- The row of an INSERT that meets no conflict. -/
def newEntry (e : CreditRow) : Entry where
  id := env.newId e.userId
  userId := e.userId
  hours := e.hours.toNat
  source := .event
  cleanupId := some write.cleanupId
  jurisdictionGeoid := write.geoid
  loggedByUserId := some write.loggedByUserId
  note := write.note
  voidedAt := none
  createdAt := env.now
  serviceDate := none
  creditedByOperatorId := write.creditedByOperatorId
  voidedByOperatorId := none
  voidReason := none

/-- The upsert inserts or updates a row for the entry. -/
def Takes (e : CreditRow) : Prop :=
  ∀ p ∈ s.creditOf write.cleanupId e.userId, ¬ p.Unchanged e.hours.toNat write.geoid

instance (e : CreditRow) : Decidable (write.Takes s e) := inferInstanceAs (Decidable (∀ p ∈ _, _))

/-- The entries the upsert takes. One command may not affect a row a second time, so an
entry after one that was taken for the same user fails the statement. -/
def taken : List CreditRow → Except Constraint (List CreditRow)
  | [] => .ok []
  | e :: es =>
    if write.Takes s e then
      if es.any (fun x => x.userId = e.userId) then .error .affectedTwice
      else (taken es).map (e :: ·)
    else taken es

def auditRow (e : CreditRow) : Audit :=
  ⟨write.cleanupId, e.userId, write.actorId, (s.creditOf write.cleanupId e.userId).map Entry.heldHours, e.hours.toNat⟩

/-- The delta of the event's current jurisdiction. -/
def delta (e : CreditRow) (geoid : Geoid) : ℤ :=
  e.hours.toNat - (s.creditOf write.cleanupId e.userId).elim 0
    (fun p => if p.heldGeoid = some geoid then (p.heldHours : ℤ) else 0)

def rowWrite (e : CreditRow) : Write :=
  match s.creditOf write.cleanupId e.userId with
  | none => .insertEntry (write.newEntry env e)
  | some p => .recredit p.id e.userId write.cleanupId (write.credit e) env.now

/-- `deltas`: the current jurisdiction, and the one that the event has left since the last credit. -/
def deltas (e : CreditRow) : List (Geoid × ℤ) :=
  List.append (write.geoid.toList.map (fun g => (g, write.delta s e g)))
    (((s.creditOf write.cleanupId e.userId).toList.filter (fun p => decide (p.heldGeoid ≠ write.geoid))).flatMap
      (fun p => p.heldGeoid.toList.map (fun g => (g, -(p.heldHours : ℤ)))))

/-- The row, its journal line and the rollup. -/
def creditWrites (e : CreditRow) : List Write :=
  write.rowWrite env s e :: .insertAudit (write.auditRow s e) ::
    (write.deltas s e).map (fun d => .addHours e.userId d.1 d.2)

end EventCreditWrite

/-- `numeric(6, 2) CHECK (hours > 0)`, on every row the INSERT proposes. -/
def hoursCheck (hours : ℤ) : Option Constraint :=
  if 1000000 ≤ hours.natAbs then some .numericOverflow
  else if hours ≤ 0 then some .hoursPositive
  else none

/-- A new total must fit `numeric(8, 2)`. -/
def Db.overflows (s : Db) : Write → Bool
  | .addHours u g d => decide (100000000 ≤ (s.hoursIn u g + d).natAbs)
  | _ => false

def Write.newIds : Write → List Id
  | .insertEntry e => [e.id]
  | _ => []

/-- The outcome of the statement on the view it reads: the entries it takes and its row
writes, or what fails it. -/
def EventCreditWrite.outcome (write : EventCreditWrite) (env : Surroundings) (s : Db) :
    Except Constraint (List CreditRow × List Write) :=
  match write.entries.findSome? (fun e => hoursCheck e.hours) with
  | some c => .error c
  | none =>
    match write.taken s write.entries with
    | .error c => .error c
    | .ok es =>
      let writes := es.flatMap (write.creditWrites env s)
      let ids := writes.flatMap Write.newIds
      if ¬ (ids.Nodup ∧ ∀ id ∈ ids, s.entries.find? id = none) then .error .primaryKey
      else if writes.any s.overflows then .error .numericOverflow
      else .ok (es, writes)

def writeEventCredits (env : Surroundings) (write : EventCreditWrite) : Stmt (List EventCreditChange) :=
  .stmt
    (fun s => match write.outcome env s with
      | .ok (_, writes) => (writes.flatMap Write.newIds).map Lock.entryId
      | .error _ => [])
    (fun s => match write.outcome env s with
      | .ok (_, writes) => writes
      | .error _ => [])
    (fun s => match write.outcome env s with
      | .ok (es, _) => .commit (es.map (fun e => ⟨e.userId, (write.auditRow s e).newHours,
        (write.auditRow s e).previousHours⟩))
      | .error c => .abort (.violation c))

/-! ## `logEventHours` -/

/-- A live entry of the actor at the event that one of the users credited. -/
def reciprocalOf (args : LogEventHoursArgs) (userIds : List Id) (e : Entry) : Bool :=
  e.IsCredit args.cleanupId.value args.actorId ∧ e.Live ∧
    ∃ x ∈ e.loggedByUserId, x ≠ args.actorId ∧ x ∈ userIds

def assertNoReciprocalCredit (args : LogEventHoursArgs) (userIds : List Id) : Stmt Unit := do
  let reciprocal ← Tx.select (fun s => s.entries.rows.any (reciprocalOf args userIds))
  if reciprocal then
    .abort (.conflict "You can't credit hours to someone who has already credited you for this event.")

def weeklyHours (env : Surroundings) (s : Db) (userId : Id) : ℕ :=
  ((s.entries.rows.filter (fun e => decide (e.userId = userId ∧ e.source ≠ .report ∧ e.Live ∧
    env.now ≤ e.createdAt + weeklyWindowMs))).map Entry.hours).sum

/-- A user of the batch who credited the actor at another event within the lookback. -/
def swapsWith (env : Surroundings) (args : LogEventHoursArgs) (userIds : List Id) (e : Entry) : Option Id :=
  if e.userId = args.actorId ∧ e.source = .event ∧ e.Live ∧ (∃ c ∈ e.cleanupId, c ≠ args.cleanupId.value) ∧
      env.now ≤ e.createdAt + reciprocalLookbackMs then
    e.loggedByUserId.filter (fun x => decide (x ∈ userIds))
  else none

def detectHoursAnomalies (env : Surroundings) (args : LogEventHoursArgs) (userIds : List Id) : Stmt (List Anomaly) := do
  let cap := args.weeklyFlagHours.getD weeklyHoursFlagDefault
  let weekly ← Tx.select (fun s => (userIds.dedup.filter (fun u => decide (cap < (weeklyHours env s u : ℤ)))).map
    (fun u => Anomaly.weeklyHours u (weeklyHours env s u)))
  let swaps ← Tx.select (fun s => ((s.entries.rows.filterMap (swapsWith env args userIds)).dedup).map
    (fun u => Anomaly.reciprocalCredit u args.actorId))
  pure (List.append weekly swaps)

def LogEventHoursArgs.write (args : LogEventHoursArgs) : EventCreditWrite :=
  ⟨args.cleanupId.value, args.geoid, args.actorId, args.actorId, none, none, args.entries.map EventHoursEntry.row⟩

def logEventHours (env : Surroundings) (args : LogEventHoursArgs) : Stmt LogEventHoursResult :=
  if args.entries = [] then pure ⟨0, [], []⟩
  else do
    let userIds := args.entries.map (·.userId.value)
    lockEventCredits args.cleanupId userIds
    assertNoReciprocalCredit args userIds
    let held ← Tx.select (fun s => sameDayEventHours env args.cleanupId.value s)
    orThrow (withinDailyHoursCap args.entries (heldBy held) (args.dailyCapHours.getD dailyHoursCap))
    let changed ← writeEventCredits env args.write
    let anomalies ← detectHoursAnomalies env args userIds
    pure ⟨args.entries.length, changed, anomalies⟩

/-! ## Operator credits and voids -/

def OperatorEventCreditArgs.write (args : OperatorEventCreditArgs) : EventCreditWrite :=
  ⟨args.cleanupId.value, args.geoid, args.operatorId, civfixOfficialUserId, some args.reason, some args.operatorId,
    [⟨args.userId.value, args.hours⟩]⟩

def creditEventAsOperator (env : Surroundings) (args : OperatorEventCreditArgs) : Stmt Id := do
  lockEventCredits args.cleanupId [args.userId.value]
  let live ← Tx.select (fun s => (s.creditOf args.cleanupId.value args.userId.value).filter (fun e => decide e.Live))
  match live with
  | some e => .abort (.conflict ("That volunteer already holds " ++ showHours e.hours ++
      " h for this event; void that entry first."))
  | none =>
    let entries : List EventHoursEntry := [⟨args.userId, args.hours⟩]
    let held ← Tx.select (fun s => sameDayEventHours env args.cleanupId.value s)
    orThrow (withinDailyHoursCap entries (heldBy held) (args.dailyCapHours.getD dailyHoursCap))
    let _ ← writeEventCredits env args.write
    let entryId ← Tx.select (fun s => (s.creditOf args.cleanupId.value args.userId.value).map Entry.id)
    match entryId with
    | some id => pure id
    | none => .abort (.internal "creditEventAsOperator: the upserted event row is missing")

/-- The same adjustment by the same operator, recorded moments ago. -/
def repeatOf (env : Surroundings) (args : OperatorManualCreditArgs) (e : Entry) : Bool :=
  e.userId = args.userId.value ∧ e.source = .manual ∧ e.Live ∧ (e.hours : ℤ) = args.hours ∧
    e.serviceDate = some args.serviceDate ∧ e.creditedByOperatorId = some args.operatorId ∧
    env.now < e.createdAt + manualCreditRepeatWindowMs

def manualEntry (env : Surroundings) (args : OperatorManualCreditArgs) : Entry where
  id := env.newId args.userId.value
  userId := args.userId.value
  hours := args.hours.toNat
  source := .manual
  cleanupId := none
  jurisdictionGeoid := none
  loggedByUserId := some civfixOfficialUserId
  note := some args.reason
  voidedAt := none
  createdAt := env.now
  serviceDate := some args.serviceDate
  creditedByOperatorId := some args.operatorId
  voidedByOperatorId := none
  voidReason := none

def insertManual (e : Entry) (hours : ℤ) : Stmt Unit :=
  .stmt (fun _ => [.entryId e.id])
    (fun s => if hoursCheck hours = none ∧ s.entries.find? e.id = none then [.insertEntry e] else [])
    (fun s => match hoursCheck hours with
      | some c => .abort (.violation c)
      | none => if s.entries.find? e.id = none then .commit () else .abort (.violation .primaryKey))

def creditManual (env : Surroundings) (args : OperatorManualCreditArgs) : Stmt Id := do
  lockUserCredits [args.userId.value]
  let repeated ← Tx.select (fun s => s.entries.rows.any (repeatOf env args))
  if repeated then
    .abort (.conflict "That adjustment was recorded moments ago; check the ledger before adding it again.")
  let held ← Tx.select (fun s => hoursHeldOnServiceDate env args.serviceDate s)
  orThrow (withinDailyHoursCap [⟨args.userId, args.hours⟩] (heldBy held) (args.dailyCapHours.getD dailyHoursCap))
  insertManual (manualEntry env args) args.hours
  pure (env.newId args.userId.value)

/-- `WHERE id = entryId AND user_id = userId`. -/
def Db.ownEntry (s : Db) (args : OperatorVoidArgs) : Option Entry :=
  (s.entries.find? args.entryId).filter (fun e => decide (e.userId = args.userId))

def refuseUnvoidable (args : OperatorVoidArgs) : Stmt VoidedEntry := do
  let row ← Tx.select (fun s => s.ownEntry args)
  match row with
  | none => .abort (.notFound "Hours entry not found")
  | some e =>
    if ¬ e.Live then .abort (.conflict "That hours entry is already void.")
    else .abort (.conflict "Report credits are retired and can't be voided.")

/-- The entry that the UPDATE of a void reaches. -/
def Db.voidable (s : Db) (args : OperatorVoidArgs) : Option Entry :=
  (s.ownEntry args).filter (fun e => decide (e.Live ∧ e.source ≠ .report))

/-- The event entry a void journals. -/
def Entry.journaled (e : Entry) : Option Id := if e.source = .event then e.cleanupId else none

/-- The locks of a void: the event's first, when the entry has one. -/
def lockVoid (cleanupId : Option Id) (userId : Id) : Stmt Unit :=
  match cleanupId with
  | some c => lockEventCredits (printed c) [userId]
  | none => lockUserCredits [userId]

/-- The UPDATE, the journal line and the rollup, once the locks are held. -/
def voidUnderLocks (env : Surroundings) (args : OperatorVoidArgs) : Stmt VoidedEntry := do
  let voided ← Tx.stmt (fun _ => [])
    (fun s => (s.voidable args).toList.map
      (fun e => .voidEntry e.id e.userId e.cleanupId args.operatorId args.reason env.now))
    (fun s => .commit (s.voidable args))
  match voided with
  | none => refuseUnvoidable args
  | some row =>
    Tx.stmt (fun _ => [])
      (fun _ => row.journaled.toList.map (fun c => .insertAudit ⟨c, row.userId, args.operatorId, some row.hours, 0⟩))
      (fun _ => .commit ())
    Tx.stmt (fun _ => [])
      (fun _ => row.jurisdictionGeoid.toList.map (fun g => .subtractHours row.userId g row.hours))
      (fun _ => .commit ())
    pure ⟨args.entryId, row.source, row.cleanupId, row.hours⟩

def voidEntry (env : Surroundings) (args : OperatorVoidArgs) : Stmt VoidedEntry := do
  let owner ← Tx.select (fun s => s.ownEntry args)
  match owner with
  | none => .abort (.notFound "Hours entry not found")
  | some found => do
    lockVoid found.cleanupId args.userId
    voidUnderLocks env args

/-! ## Totals -/

/-- `totalHoursQuery`: the positive rows of the rollup, and the live entries outside it. -/
def Db.totalHoursQuery (s : Db) (userId : Id) : ℤ :=
  ((s.jurisdictionHours.rows.filter (fun r => decide (r.userId = userId ∧ 0 < r.totalHours))).map
      JurisdictionHours.totalHours).sum +
  (((s.entries.rows.filter (fun e => decide (e.userId = userId ∧ e.Live ∧ e.source ≠ .report ∧
      e.jurisdictionGeoid = none))).map Entry.hours).sum : ℕ)

/-! ## Operations -/

inductive Operation where
  | logEventHours (env : Surroundings) (args : LogEventHoursArgs)
  | creditEventAsOperator (env : Surroundings) (args : OperatorEventCreditArgs)
  | creditManual (env : Surroundings) (args : OperatorManualCreditArgs)
  | voidEntry (env : Surroundings) (args : OperatorVoidArgs)

def program : Operation → Stmt Unit
  | .logEventHours env args => do let _ ← VolunteerHours.logEventHours env args
  | .creditEventAsOperator env args => do let _ ← VolunteerHours.creditEventAsOperator env args
  | .creditManual env args => do let _ ← VolunteerHours.creditManual env args
  | .voidEntry env args => do let _ ← VolunteerHours.voidEntry env args

end Civfix.VolunteerHours
