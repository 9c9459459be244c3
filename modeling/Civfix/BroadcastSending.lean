import Civfix.BroadcastRepository
import Civfix.InterleavedCalls
import Civfix.SpelledIds

/-! # Sending a broadcast

`sendBroadcast` moves the row to `sending`, charges two rate counters and enqueues the plan.
Each of the four is a call to another system that may fail, and what came before has to be
taken back. Every access lists its regular outcome first and then its failures: the call of
the other system throws before it took effect, or after.

The keys of the counters hold the text of the event's id as the caller spells it; the rows are
found by its value. -/
namespace Civfix.Broadcasts.Sending

open KeyedTables InterleavedCalls SpelledIds

inductive CounterKey where
  | cooldown (actorId : UserId) (cleanupId : IdText)
  | event (cleanupId : IdText) (day : ℕ)
  | host (actorId : UserId) (day : ℕ)
  deriving DecidableEq

structure Counter where
  key : CounterKey
  count : ℕ
  expiresAt : Instant

structure HostMessagingState where
  suspended : Bool
  emailVerified : Bool
  accountCreatedAt : Instant

structure EventContext where
  organizationSuspended : Bool
  replyTo : Option String
  replyToVerified : Bool

def verifiedReplyTo (event : EventContext) : Option String := if event.replyToVerified then event.replyTo else none

/-- The tables, the counters, the plan jobs in the queue, and what is read of hosts and events. -/
structure State extends Store where
  counters : Table Counter.key
  plans : List BroadcastId
  killSwitch : Bool
  host : UserId → Option HostMessagingState
  event : CleanupId → Option EventContext

/-- `contentRefusal` stands for `assertContent`: the field it refuses and why. -/
structure Config where
  perEventPerDay : ℕ
  cooldownSec : ℕ
  minAccountAgeHours : ℕ
  contentRefusal : String → String → Option String → Option (String × String)

def SECONDS_PER_DAY : ℕ := 24 * 60 * 60

def MS_PER_HOUR : ℕ := 60 * 60 * 1000

def COOLDOWN_SENDS : ℕ := 1

/-- `utcDayKey`, as a number of days. -/
def utcDay (now : Instant) : ℕ := now / (SECONDS_PER_DAY * 1000)

inductive CapKind
  | killSwitch | suspended | unverifiedEmail | accountTooNew | cooldown | perEventPerDay | counterUnavailable
  deriving DecidableEq

def CAP_COPY : CapKind → String
  | .killSwitch => "Messaging attendees is temporarily paused. Try again later."
  | .suspended => "Messaging attendees is disabled on this account. Contact support."
  | .unverifiedEmail => "Verify your email address before messaging attendees."
  | .accountTooNew => "New accounts can message attendees 24 hours after signing up."
  | .cooldown => "You just sent a message for this event. Give it a few minutes."
  | .perEventPerDay => "This event has reached its daily message limit."
  | .counterUnavailable => "Messaging is temporarily unavailable. Try again in a moment."

/-- `threw` is the error of a dependency, passed on. -/
inductive SendError where
  | cap (kind : CapKind) (message : String)
  | notFound (message : String)
  | conflict (message : String)
  | validation (field reason : String)
  | forbidden (message : String)
  | threw
  deriving DecidableEq

def SendError.capped (kind : CapKind) : SendError := .cap kind (CAP_COPY kind)

def notFound : SendError := .notFound "Message not found"

structure Args where
  cleanupId : IdText
  actorId : UserId
  broadcastId : BroadcastId
  skipEventSendCounters : Bool

inductive Result where
  | sent (moved : Broadcast)
  | refused (error : SendError)
  deriving DecidableEq

/-- `previous` is the status to go back to, `error` what the host is told in the end. -/
inductive Await where
  | killSwitch (args : Args)
  | hostState (args : Args)
  | findDraft (args : Args)
  | eventContext (args : Args) (record : Broadcast)
  | moveToSending (args : Args) (previous : BroadcastStatus) (replyTo : Option String)
  | chargeCooldown (args : Args) (previous : BroadcastStatus) (moved : Broadcast)
  | chargeEvent (args : Args) (previous : BroadcastStatus) (moved : Broadcast)
  | giveBackEvent (args : Args) (previous : BroadcastStatus) (day : ℕ) (error : SendError)
  | giveBackCooldown (args : Args) (previous : BroadcastStatus) (error : SendError)
  | rollBack (args : Args) (previous : BroadcastStatus) (error : SendError)
  | enqueuePlan (args : Args) (previous : BroadcastStatus) (moved : Broadcast)
  | releaseUnplannedSend (args : Args) (previous : BroadcastStatus) (error : SendError)

def Args.cooldownKey (args : Args) : CounterKey := .cooldown args.actorId args.cleanupId

def Args.eventKey (args : Args) (day : ℕ) : CounterKey := .event args.cleanupId day

namespace State

variable (s : State)

/-- The counter under the key, while the key is alive. -/
def live (key : CounterKey) : Option Counter := (s.counters.find? key).filter (fun c => s.now < c.expiresAt)

def value (key : CounterKey) : ℕ := (s.live key).elim 0 (·.count)

/-- `INCRBY` with a window: only a key without an expiry gets one. -/
def incrBy (key : CounterKey) (amount ttlSeconds : ℕ) : State :=
  let expiresAt := (s.live key).elim (s.now + max 1 ttlSeconds * 1000) (·.expiresAt)
  { s with counters := s.counters.put ⟨key, s.value key + amount, expiresAt⟩ }

def incr (key : CounterKey) (ttlSeconds : ℕ) : State := s.incrBy key 1 ttlSeconds

/-- `DECRBY` with a floor: a missing key stays missing, a present one keeps its expiry. -/
def decrBy (key : CounterKey) (amount : ℕ) : State :=
  match s.live key with
  | none => s
  | some c => { s with counters := s.counters.put { c with count := c.count - amount } }

def decr (key : CounterKey) : State := s.decrBy key 1

def statusOf (b : BroadcastId) : Option BroadcastStatus := (s.findById b).map (·.status)

def replyToOf (b : BroadcastId) : Option (Option String) := (s.findById b).map (·.replyTo)

def transition (b : BroadcastId) (prior : List BroadcastStatus) (status : BroadcastStatus)
    (fields : TransitionFields) : State := { s with toStore := s.toStore.transition b prior status fields }

def enqueue (b : BroadcastId) : State := { s with plans := s.plans.insert b }

end State

namespace Config

variable (cfg : Config)

/-- `guardHost` after the kill switch. -/
def hostRefusal (now : Instant) : Option HostMessagingState → Option CapKind
  | none => some .suspended
  | some state =>
    if state.suspended then some .suspended
    else if !state.emailVerified then some .unverifiedEmail
    else if now < state.accountCreatedAt + cfg.minAccountAgeHours * MS_PER_HOUR then some .accountTooNew
    else none

/-- What `sendBroadcast` says about the record it found. -/
def recordRefusal (record : Broadcast) : Option SendError :=
  match record.subject, record.bodyMd with
  | some subject, some bodyMd => (cfg.contentRefusal subject bodyMd record.ctaUrl).map (fun x => .validation x.1 x.2)
  | _, _ => some (.conflict "That message has no content to send.")

def access (s : State) : Await → List (State × Next Await Result)
  | .killSwitch args =>
      [(s, if s.killSwitch then .done (.refused (.capped .killSwitch)) else .await (.hostState args)),
        (s, .done (.refused .threw))]
  | .hostState args =>
      [(s, match cfg.hostRefusal s.now (s.host args.actorId) with
        | some kind => .done (.refused (.capped kind))
        | none => .await (.findDraft args)),
        (s, .done (.refused (.capped .counterUnavailable)))]
  | .findDraft args =>
      [(s, match (s.findById args.broadcastId).filter (fun r => r.cleanupId = args.cleanupId.value) with
        | none => .done (.refused notFound)
        | some record =>
          match cfg.recordRefusal record with
          | some error => .done (.refused error)
          | none => .await (.eventContext args record)),
        (s, .done (.refused .threw))]
  | .eventContext args record =>
      [(s, match s.event args.cleanupId.value with
        | none => .done (.refused notFound)
        | some event =>
          if event.organizationSuspended then
            .done (.refused (.forbidden
              "This organization has been suspended, so it can't message attendees right now."))
          else .await (.moveToSending args record.status (verifiedReplyTo event))),
        (s, .done (.refused .threw))]
  | .moveToSending args previous replyTo =>
      let s' := s.transition args.broadcastId [.draft, .scheduled] .sending
        { startedAt := some (some s.now), replyTo := some replyTo }
      [(s', match s'.findById args.broadcastId with
        | some moved =>
          if s.mayMove args.broadcastId [.draft, .scheduled] then
            if args.skipEventSendCounters then .await (.enqueuePlan args previous moved)
            else .await (.chargeCooldown args previous moved)
          else .done (.refused (.conflict "That message is already sending."))
        | none => .done (.refused (.conflict "That message is already sending."))),
        (s, .done (.refused .threw)), (s', .done (.refused .threw))]
  | .chargeCooldown args previous moved =>
      let s' := s.incr args.cooldownKey cfg.cooldownSec
      [(s', if COOLDOWN_SENDS < s'.value args.cooldownKey then
          .await (.giveBackCooldown args previous (.capped .cooldown))
        else .await (.chargeEvent args previous moved)),
        (s, .await (.rollBack args previous (.capped .counterUnavailable))),
        (s', .await (.rollBack args previous (.capped .counterUnavailable)))]
  | .chargeEvent args previous moved =>
      let day := utcDay s.now
      let s' := s.incr (args.eventKey day) SECONDS_PER_DAY
      [(s', if cfg.perEventPerDay < s'.value (args.eventKey day) then
          .await (.giveBackEvent args previous day (.capped .perEventPerDay))
        else .await (.enqueuePlan args previous moved)),
        (s, .await (.giveBackCooldown args previous (.capped .counterUnavailable))),
        (s', .await (.giveBackCooldown args previous (.capped .counterUnavailable)))]
  | .giveBackEvent args previous day error =>
      let next : Next Await Result := .await (.giveBackCooldown args previous error)
      [(s.decr (args.eventKey day), next), (s, next), (s.decr (args.eventKey day), next)]
  | .giveBackCooldown args previous error =>
      let next : Next Await Result := .await (.rollBack args previous error)
      [(s.decr args.cooldownKey, next), (s, next), (s.decr args.cooldownKey, next)]
  | .rollBack args previous error =>
      let s' := s.transition args.broadcastId [.sending] previous { startedAt := some none }
      [(s', .done (.refused error)), (s, .done (.refused .threw)), (s', .done (.refused .threw))]
  | .enqueuePlan args previous moved =>
      [(s.enqueue args.broadcastId, .done (.sent moved)),
        (s, .await (.releaseUnplannedSend args previous .threw)),
        (s.enqueue args.broadcastId, .await (.releaseUnplannedSend args previous .threw))]
  | .releaseUnplannedSend args previous error =>
      let s' := s.transition args.broadcastId [.sending] previous { startedAt := some none }
      [(s', .done (.refused error)), (s, .done (.refused error)), (s', .done (.refused error))]

/-- Time passes between two accesses. -/
def environment (s : State) (now : Instant) : Option State :=
  if s.now ≤ now then some { s with now := now } else none

def machine : Machine State Args Await Result Instant where
  enter s args := some (s, .killSwitch args)
  access := cfg.access
  environment := environment

end Config

/-! ## The counters and the row under the operations -/

namespace State

variable {s : State} {key key' : CounterKey} {b : BroadcastId}

theorem live_eq_some {c : Counter} : s.live key = some c ↔ s.counters.find? key = some c ∧ s.now < c.expiresAt := by
  simp [live, Option.filter_eq_some_iff]

theorem value_put {c : Counter} (hlive : s.now < c.expiresAt) :
    ({ s with counters := s.counters.put c } : State).value key = if key = c.key then c.count else s.value key := by
  simp only [value, live, Table.find?_put]
  split
  · rw [Option.filter_some, if_pos (decide_eq_true hlive)]
    rfl
  · rfl

theorem live_of_expiry (ttl : ℕ) : s.now < (s.live key').elim (s.now + max 1 ttl * 1000) (·.expiresAt) := by
  cases hc : s.live key' with
  | none => exact Nat.lt_add_of_pos_right (by omega)
  | some c => exact (live_eq_some.mp hc).2

theorem value_incrBy (n ttl : ℕ) : (s.incrBy key' n ttl).value key = s.value key + if key = key' then n else 0 := by
  unfold incrBy
  rw [value_put (live_of_expiry ttl)]
  split
  · next h => rw [h]
  · rfl

theorem value_decrBy (n : ℕ) : (s.decrBy key' n).value key = s.value key - if key = key' then n else 0 := by
  unfold decrBy
  split
  · next hnone =>
    split
    · next h => simp [h, value, hnone]
    · rfl
  · next c hc =>
    obtain ⟨hfind, hlive⟩ := live_eq_some.mp hc
    have hkey : c.key = key' := Table.key_of_find? hfind
    rw [value_put (c := { c with count := c.count - n }) hlive]
    split
    · next h => simp [h.trans hkey, value, hc]
    · next h =>
      have hne : key ≠ key' := fun h' => h (h'.trans hkey.symm)
      rw [if_neg hne, Nat.sub_zero]

@[simp] theorem toStore_incr (ttl : ℕ) : (s.incr key ttl).toStore = s.toStore := rfl

@[simp] theorem toStore_decr : (s.decr key).toStore = s.toStore := by
  unfold decr decrBy
  split <;> rfl

@[simp] theorem value_transition (c : BroadcastId) (prior : List BroadcastStatus) (status : BroadcastStatus)
    (fields : TransitionFields) : (s.transition c prior status fields).value key = s.value key := by
  have hnow : (s.toStore.transition c prior status fields).now = s.now := by
    unfold Store.transition
    split <;> rfl
  simp only [value, live, transition, hnow]

theorem now_transition (c : BroadcastId) (prior : List BroadcastStatus) (status : BroadcastStatus)
    (fields : TransitionFields) : (s.transition c prior status fields).now = s.now := by
  simp only [transition, Store.transition]
  split <;> rfl

theorem findById_transition {prior : List BroadcastStatus} (status : BroadcastStatus) (fields : TransitionFields)
    (hmay : s.mayMove b prior) :
    (s.transition b prior status fields).findById b = (s.findById b).map (s.moved status fields) := by
  simp only [transition, Store.transition, hmay, ↓reduceIte, Store.findById, Store.modifyBroadcast]
  rw [Table.find?_modify, if_pos rfl]

theorem statusOf_transition {prior : List BroadcastStatus} {status previous : BroadcastStatus}
    (fields : TransitionFields)
    (h : s.statusOf b = some previous) (hp : previous ∈ prior) :
    (s.transition b prior status fields).statusOf b = some status := by
  obtain ⟨row, hrow, rfl⟩ := Option.map_eq_some_iff.mp h
  have hmay : s.mayMove b prior := by simp [Store.mayMove, hrow, hp]
  rw [statusOf, findById_transition status fields hmay, hrow]
  rfl

theorem replyToOf_transition {prior : List BroadcastStatus} {status : BroadcastStatus} (fields : TransitionFields)
    (hf : fields.replyTo = none) : (s.transition b prior status fields).replyToOf b = s.replyToOf b := by
  by_cases hmay : s.mayMove b prior
  · rw [replyToOf, findById_transition status fields hmay, replyToOf]
    cases s.findById b with
    | none => rfl
    | some row => simp [Store.moved, hf]
  · rw [transition, Store.transition, if_neg hmay]

theorem replyToOf_transition_some {prior : List BroadcastStatus} {status : BroadcastStatus} {fields : TransitionFields}
    {replyTo : Option String} (hmay : s.mayMove b prior) (hf : fields.replyTo = some replyTo) :
    (s.transition b prior status fields).replyToOf b = some replyTo := by
  obtain ⟨row, hrow, -⟩ : ∃ row, s.findById b = some row ∧ row.status ∈ prior := by
    simpa [Store.mayMove, Option.any_eq_true] using hmay
  rw [replyToOf, findById_transition status fields hmay, hrow]
  simp [Store.moved, hf]

end State

/-! ## What one access does to the counters -/

/-- An await that neither moves the row to `sending` nor touches a counter. -/
def Await.Aside : Await → Prop
  | .moveToSending .. | .chargeCooldown .. | .chargeEvent .. | .giveBackEvent .. | .giveBackCooldown .. => False
  | .killSwitch _ | .hostState _ | .findDraft _ | .eventContext .. | .rollBack .. | .enqueuePlan ..
  | .releaseUnplannedSend .. => True

theorem counters_transition (t : State) (b : BroadcastId) (prior : List BroadcastStatus) (status : BroadcastStatus)
    (fields : TransitionFields) : (t.transition b prior status fields).counters = t.counters := rfl

/-- Such an access leaves the clock and the counters as they are, and the call comes to no counter next. -/
theorem access_aside {cfg : Config} {s t : State} {p : Await} {n : Next Await Result} (hp : p.Aside)
    (h : (t, n) ∈ cfg.access s p) : t.now = s.now ∧ t.counters = s.counters ∧
      ∀ q, n = .await q → q.Aside ∨ ∃ args previous replyTo, q = .moveToSending args previous replyTo := by
  cases p with
  | moveToSending | chargeCooldown | chargeEvent | giveBackEvent | giveBackCooldown => exact hp.elim
  | killSwitch args | hostState args =>
    simp only [Config.access, List.mem_cons, Prod.mk.injEq, List.mem_nil_iff, or_false] at h
    rcases h with ⟨rfl, rfl⟩ | ⟨rfl, rfl⟩
    · refine ⟨rfl, rfl, fun q hq => .inl ?_⟩
      split at hq
      · cases hq
      · cases hq
        trivial
    · exact ⟨rfl, rfl, fun q hq => by cases hq⟩
  | findDraft args =>
    simp only [Config.access, List.mem_cons, Prod.mk.injEq, List.mem_nil_iff, or_false] at h
    rcases h with ⟨rfl, rfl⟩ | ⟨rfl, rfl⟩
    · refine ⟨rfl, rfl, fun q hq => .inl ?_⟩
      split at hq
      · cases hq
      · split at hq
        · cases hq
        · cases hq
          trivial
    · exact ⟨rfl, rfl, fun q hq => by cases hq⟩
  | eventContext args record =>
    simp only [Config.access, List.mem_cons, Prod.mk.injEq, List.mem_nil_iff, or_false] at h
    rcases h with ⟨rfl, rfl⟩ | ⟨rfl, rfl⟩
    · refine ⟨rfl, rfl, fun q hq => .inr ?_⟩
      split at hq
      · cases hq
      · split at hq
        · cases hq
        · cases hq
          exact ⟨_, _, _, rfl⟩
    · exact ⟨rfl, rfl, fun q hq => by cases hq⟩
  | rollBack args previous error | releaseUnplannedSend args previous error =>
    simp only [Config.access, List.mem_cons, Prod.mk.injEq, List.mem_nil_iff, or_false] at h
    rcases h with ⟨rfl, rfl⟩ | ⟨rfl, rfl⟩ | ⟨rfl, rfl⟩
    · exact ⟨State.now_transition .., counters_transition .., fun q hq => by cases hq⟩
    · exact ⟨rfl, rfl, fun q hq => by cases hq⟩
    · exact ⟨State.now_transition .., counters_transition .., fun q hq => by cases hq⟩
  | enqueuePlan args previous moved =>
    simp only [Config.access, List.mem_cons, Prod.mk.injEq, List.mem_nil_iff, or_false] at h
    rcases h with ⟨rfl, rfl⟩ | ⟨rfl, rfl⟩ | ⟨rfl, rfl⟩
    · exact ⟨rfl, rfl, fun q hq => by cases hq⟩
    · exact ⟨rfl, rfl, fun q hq => by cases hq; exact .inl trivial⟩
    · exact ⟨rfl, rfl, fun q hq => by cases hq; exact .inl trivial⟩

/-! ## All or nothing -/

/-- The counter that may stay charged if the call at the await fails: a charge may have been
counted, and a give-back may not have been. -/
def Await.keeps (now : Instant) : Await → Option CounterKey
  | .chargeCooldown args _ _ | .giveBackCooldown args _ _ => some args.cooldownKey
  | .chargeEvent args _ _ => some (args.eventKey (utcDay now))
  | .giveBackEvent args _ day _ => some (args.eventKey day)
  | _ => none

/-- The row may not have been moved back, or may have been moved although the call failed. -/
def Await.strands : Await → Bool
  | .moveToSending .. | .rollBack .. | .releaseUnplannedSend .. => true
  | _ => false

/-- The plan could not be enqueued, and what the send has charged is not taken back. -/
def Await.forgets : Await → Bool
  | .enqueuePlan .. => true
  | _ => false

/-- The counters that a send charges. -/
def Args.charges (args : Args) (now : Instant) : List CounterKey :=
  if args.skipEventSendCounters then [] else [args.eventKey (utcDay now), args.cooldownKey]

/-- From `s`, the send either went through: the row is `sending`, each of its counters is
charged once and a plan is in the queue. Or it was refused. Then the row has its status back
unless a transition failed, and each counter its value unless the enqueueing failed, except at
most one more for a charge or a give-back that failed; the reply address may already be that of
the event. -/
def AllOrNothing (args : Args) (s : State) (failed : List Await) (s' : State) : Result → Prop
  | .sent _ => s'.statusOf args.broadcastId = some .sending ∧
      (∀ key, s'.value key = s.value key + (args.charges s.now).count key) ∧ args.broadcastId ∈ s'.plans
  | .refused _ =>
      ((∀ p ∈ failed, p.strands = false) → s'.statusOf args.broadcastId = s.statusOf args.broadcastId) ∧
      (s'.replyToOf args.broadcastId = s.replyToOf args.broadcastId ∨
        s'.replyToOf args.broadcastId = (s.event args.cleanupId.value).map verifiedReplyTo) ∧
      ((∀ p ∈ failed, p.forgets = false) → ∀ key, s.value key ≤ s'.value key ∧
        s'.value key ≤ s.value key + failed.countP (fun p => p.keeps s.now = some key))

/-- The counters of `t` are those of `s` with the given charges on top, and with at most one
more for each failure that may keep a charge. -/
def Owes (s t : State) (failed : List Await) (charges : List CounterKey) : Prop :=
  ∀ key, s.value key + charges.count key ≤ t.value key ∧
    t.value key ≤ s.value key + charges.count key + failed.countP (fun p => p.keeps s.now = some key)

section Ends

variable {cfg : Config} {args : Args} {s t : State} {failed : List Await} {previous : BroadcastStatus}
  {error : SendError} {moved : Broadcast}

theorem Owes.incr {keys : List CounterKey} (h : Owes s t failed keys) (key : CounterKey) (ttl : ℕ) :
    Owes s (t.incr key ttl) failed (key :: keys) := by
  intro k
  have hk := h k
  rw [State.incr, State.value_incrBy]
  rcases eq_or_ne k key with rfl | hne
  · rw [List.count_cons_self, if_pos rfl]
    omega
  · rwa [List.count_cons_of_ne hne.symm, if_neg hne]

theorem Owes.decr {keys : List CounterKey} {key : CounterKey} (h : Owes s t failed (key :: keys)) :
    Owes s (t.decr key) failed keys := by
  intro k
  have hk := h k
  rw [State.decr, State.value_decrBy]
  rcases eq_or_ne k key with rfl | hne
  · rw [List.count_cons_self] at hk
    rw [if_pos rfl]
    omega
  · rw [List.count_cons_of_ne hne.symm] at hk
    rwa [if_neg hne]

/-- Where a charge or a give-back fails, the charge may stay. -/
theorem Owes.keep {keys : List CounterKey} {key : CounterKey} {p : Await} (h : Owes s t failed (key :: keys))
    (hp : p.keeps s.now = some key) : Owes s t (failed ++ [p]) keys := by
  intro k
  have hk := h k
  rw [List.countP_append]
  rcases eq_or_ne k key with rfl | hne
  · rw [List.count_cons_self] at hk
    rw [List.countP_singleton, if_pos (decide_eq_true hp)]
    omega
  · rw [List.count_cons_of_ne hne.symm] at hk
    omega

theorem Owes.fail {keys : List CounterKey} (h : Owes s t failed keys) (p : Await) : Owes s t (failed ++ [p]) keys := by
  intro k
  have hk := h k
  rw [List.countP_append]
  exact ⟨hk.1, hk.2.trans (Nat.add_le_add_left (Nat.le_add_right _ _) _)⟩

/-- In `t` the row has been moved to `sending`; in `s` it was in `previous`. -/
structure UnderWay (args : Args) (s t : State) (previous : BroadcastStatus) : Prop where
  sending : t.statusOf args.broadcastId = some .sending
  replyTo : t.replyToOf args.broadcastId = (s.event args.cleanupId.value).map verifiedReplyTo
  previous : s.statusOf args.broadcastId = some previous

theorem UnderWay.of_toStore {t' : State} (h : UnderWay args s t previous) (ht : t'.toStore = t.toStore) :
    UnderWay args s t' previous := by
  obtain ⟨hs, hr, hp⟩ := h
  exact ⟨by rw [← hs, State.statusOf, State.statusOf, ht], by rw [← hr, State.replyToOf, State.replyToOf, ht], hp⟩

theorem UnderWay.status_back (h : UnderWay args s t previous) :
    (t.transition args.broadcastId [.sending] previous { startedAt := some none }).statusOf args.broadcastId =
      s.statusOf args.broadcastId := by
  rw [h.previous]
  exact State.statusOf_transition _ h.sending (by simp)

theorem UnderWay.replyTo_back (h : UnderWay args s t previous) :
    (t.transition args.broadcastId [.sending] previous { startedAt := some none }).replyToOf args.broadcastId =
      (s.event args.cleanupId.value).map verifiedReplyTo := by
  rw [← h.replyTo]
  exact State.replyToOf_transition _ rfl

theorem ends_rollBack (howes : Owes s t failed []) (hway : UnderWay args s t previous) :
    Machine.Ends cfg.machine (AllOrNothing args s) failed t (.rollBack args previous error) := by
  have hfail := howes.fail (.rollBack args previous error)
  refine .of_outcomes rfl ?_ ?_
  · refine ⟨fun _ => hway.status_back, .inr hway.replyTo_back, fun _ key => ?_⟩
    rw [State.value_transition]
    exact howes key
  · simp only [List.mem_cons, List.not_mem_nil, or_false, forall_eq_or_imp, forall_eq]
    refine ⟨⟨fun hnone => ?_, .inr hway.replyTo, fun _ => hfail⟩, fun _ => hway.status_back, .inr hway.replyTo_back,
      fun _ key => ?_⟩
    · cases hnone (.rollBack args previous error) (by simp)
    · rw [State.value_transition]
      exact hfail key

theorem ends_giveBackCooldown (howes : Owes s t failed [args.cooldownKey]) (hway : UnderWay args s t previous) :
    Machine.Ends cfg.machine (AllOrNothing args s) failed t (.giveBackCooldown args previous error) := by
  have hback : UnderWay args s (t.decr args.cooldownKey) previous := hway.of_toStore State.toStore_decr
  refine .of_outcomes rfl (ends_rollBack howes.decr hback) ?_
  simp only [List.mem_cons, List.not_mem_nil, or_false, forall_eq_or_imp, forall_eq]
  exact ⟨ends_rollBack (howes.keep rfl) hway, ends_rollBack (howes.decr.fail _) hback⟩

theorem ends_giveBackEvent {day : ℕ} (howes : Owes s t failed [args.eventKey day, args.cooldownKey])
    (hway : UnderWay args s t previous) :
    Machine.Ends cfg.machine (AllOrNothing args s) failed t (.giveBackEvent args previous day error) := by
  have hback : UnderWay args s (t.decr (args.eventKey day)) previous := hway.of_toStore State.toStore_decr
  refine .of_outcomes rfl (ends_giveBackCooldown howes.decr hback) ?_
  simp only [List.mem_cons, List.not_mem_nil, or_false, forall_eq_or_imp, forall_eq]
  exact ⟨ends_giveBackCooldown (howes.keep rfl) hway, ends_giveBackCooldown (howes.decr.fail _) hback⟩

/-- The plan could not be enqueued: only the row is moved back. -/
theorem ends_releaseUnplannedSend {p : Await} (hp : p ∈ failed) (hforgets : p.forgets)
    (hway : UnderWay args s t previous) :
    Machine.Ends cfg.machine (AllOrNothing args s) failed t (.releaseUnplannedSend args previous error) := by
  have hlost : ∀ {l : List Await}, failed ⊆ l → ¬ ∀ q ∈ l, q.forgets = false := by
    intro l hl hnone
    rw [hnone p (hl hp)] at hforgets
    cases hforgets
  have hlost' := hlost (List.subset_append_left failed [.releaseUnplannedSend args previous error])
  refine .of_outcomes rfl ?_ ?_
  · exact ⟨fun _ => hway.status_back, .inr hway.replyTo_back, fun hnone => absurd hnone (hlost (List.Subset.refl _))⟩
  · simp only [List.mem_cons, List.not_mem_nil, or_false, forall_eq_or_imp, forall_eq]
    refine ⟨⟨fun hnone => ?_, .inr hway.replyTo, fun hnone => absurd hnone hlost'⟩,
      fun _ => hway.status_back, .inr hway.replyTo_back, fun hnone => absurd hnone hlost'⟩
    cases hnone (.releaseUnplannedSend args previous error) (by simp)

theorem ends_enqueuePlan (howes : Owes s t [] (args.charges s.now)) (hway : UnderWay args s t previous) :
    Machine.Ends cfg.machine (AllOrNothing args s) [] t (.enqueuePlan args previous moved) := by
  refine .of_outcomes rfl ?_ ?_
  · exact ⟨hway.sending, fun key => Nat.le_antisymm (howes key).2 (howes key).1, by simp [State.enqueue]⟩
  · simp only [List.mem_cons, List.not_mem_nil, or_false, forall_eq_or_imp, forall_eq]
    constructor
    · exact ends_releaseUnplannedSend (p := .enqueuePlan args previous moved) (by simp) rfl hway
    · exact ends_releaseUnplannedSend (p := .enqueuePlan args previous moved) (by simp) rfl (hway.of_toStore rfl)

theorem ends_chargeEvent (hskip : args.skipEventSendCounters = false) (howes : Owes s t [] [args.cooldownKey])
    (hnow : t.now = s.now) (hway : UnderWay args s t previous) :
    Machine.Ends cfg.machine (AllOrNothing args s) [] t (.chargeEvent args previous moved) := by
  have hcharged := howes.incr (args.eventKey (utcDay t.now)) SECONDS_PER_DAY
  have hway' : UnderWay args s (t.incr (args.eventKey (utcDay t.now)) SECONDS_PER_DAY) previous := hway.of_toStore rfl
  refine .of_outcomes rfl ?_ ?_
  · dsimp only
    split
    · exact ends_giveBackEvent hcharged hway'
    · refine ends_enqueuePlan ?_ hway'
      simpa [Args.charges, hskip, hnow] using hcharged
  · simp only [List.mem_cons, List.not_mem_nil, or_false, forall_eq_or_imp, forall_eq]
    refine ⟨ends_giveBackCooldown (howes.fail _) hway, ends_giveBackCooldown (hcharged.keep ?_) hway'⟩
    rw [hnow]
    rfl

theorem ends_chargeCooldown (hskip : args.skipEventSendCounters = false) (howes : Owes s t [] []) (hnow : t.now = s.now)
    (hway : UnderWay args s t previous) :
    Machine.Ends cfg.machine (AllOrNothing args s) [] t (.chargeCooldown args previous moved) := by
  have hcharged := howes.incr args.cooldownKey cfg.cooldownSec
  have hway' : UnderWay args s (t.incr args.cooldownKey cfg.cooldownSec) previous := hway.of_toStore rfl
  refine .of_outcomes rfl ?_ ?_
  · dsimp only
    split
    · exact ends_giveBackCooldown hcharged hway'
    · exact ends_chargeEvent hskip hcharged hnow hway'
  · simp only [List.mem_cons, List.not_mem_nil, or_false, forall_eq_or_imp, forall_eq]
    exact ⟨ends_rollBack (howes.fail _) hway, ends_rollBack (hcharged.keep rfl) hway'⟩

theorem refused_untouched :
    Machine.EndsNext cfg.machine (AllOrNothing args s) failed s (.done (.refused error)) :=
  ⟨fun _ => rfl, .inl rfl, fun _ _ => ⟨le_rfl, Nat.le_add_right _ _⟩⟩

theorem ends_moveToSending {replyTo : Option String} (hprev : s.statusOf args.broadcastId = some previous)
    (hreply : (s.event args.cleanupId.value).map verifiedReplyTo = some replyTo) :
    Machine.Ends cfg.machine (AllOrNothing args s) [] s (.moveToSending args previous replyTo) := by
  obtain ⟨row, hrow, hstatus⟩ := Option.map_eq_some_iff.mp hprev
  set t := s.transition args.broadcastId [.draft, .scheduled] .sending
    { startedAt := some (some s.now), replyTo := some replyTo } with ht
  have hsame : ¬ s.mayMove args.broadcastId [.draft, .scheduled] → t = s := by
    intro hmay
    rw [ht, State.transition, Store.transition, if_neg hmay]
  have hmoved : s.mayMove args.broadcastId [.draft, .scheduled] → UnderWay args s t previous := by
    intro hmay
    obtain ⟨r, hr, hmem⟩ : ∃ r, s.findById args.broadcastId = some r ∧ r.status ∈ [BroadcastStatus.draft, .scheduled] := by
      simpa [Store.mayMove, Option.any_eq_true] using hmay
    obtain rfl := Option.some.inj (hrow.symm.trans hr)
    exact ⟨State.statusOf_transition _ hprev (hstatus ▸ hmem),
      by rw [hreply]; exact State.replyToOf_transition_some hmay rfl, hprev⟩
  have howes : Owes s t [] [] := fun key => by simp [ht]
  refine .of_outcomes rfl ?_ ?_
  · dsimp only
    rw [← ht]
    by_cases hmay : s.mayMove args.broadcastId [.draft, .scheduled]
    · have hway := hmoved hmay
      obtain ⟨m, hm, -⟩ := Option.map_eq_some_iff.mp hway.sending
      have hnow : t.now = s.now := State.now_transition ..
      rw [hm]
      simp only [hmay, ↓reduceIte]
      split
      · next hskip => exact ends_enqueuePlan (by simpa [Args.charges, hskip] using howes) hway
      · next hskip => exact ends_chargeCooldown (by simpa using hskip) howes hnow hway
    · rw [hsame hmay, hrow]
      simp only [hmay, Bool.false_eq_true, ↓reduceIte]
      exact refused_untouched
  · simp only [List.mem_cons, List.not_mem_nil, or_false, forall_eq_or_imp, forall_eq]
    refine ⟨refused_untouched, fun hnone => ?_, ?_, fun _ => howes.fail _⟩
    · cases hnone (.moveToSending args previous replyTo) (by simp)
    · by_cases hmay : s.mayMove args.broadcastId [.draft, .scheduled]
      · exact .inr (hmoved hmay).replyTo
      · rw [← ht, hsame hmay]
        exact .inl rfl

/-- Whatever fails, `sendBroadcast` ends, and all or nothing of the send has happened. -/
theorem sendBroadcast_allOrNothing (cfg : Config) (s : State) (args : Args) :
    Machine.Ends cfg.machine (AllOrNothing args s) [] s (.killSwitch args) := by
  refine .of_outcomes rfl ?_ ?_
  swap
  · simp only [List.mem_singleton, forall_eq]
    exact refused_untouched
  dsimp only
  split
  · exact refused_untouched
  refine .of_outcomes rfl ?_ ?_
  swap
  · simp only [List.mem_singleton, forall_eq]
    exact refused_untouched
  dsimp only
  split
  · exact refused_untouched
  refine .of_outcomes rfl ?_ ?_
  swap
  · simp only [List.mem_singleton, forall_eq]
    exact refused_untouched
  dsimp only
  split
  · exact refused_untouched
  · next record hrecord =>
    have hprev : s.statusOf args.broadcastId = some record.status := by
      rw [Option.filter_eq_some_iff] at hrecord
      rw [State.statusOf, hrecord.1]
      rfl
    split
    · exact refused_untouched
    refine .of_outcomes rfl ?_ ?_
    swap
    · simp only [List.mem_singleton, forall_eq]
      exact refused_untouched
    dsimp only
    split
    · exact refused_untouched
    · next event hevent =>
      split
      · exact refused_untouched
      · exact ends_moveToSending hprev (by rw [hevent]; rfl)

end Ends

def sampleConfig : Config where
  perEventPerDay := 3
  cooldownSec := 600
  minAccountAgeHours := 24
  contentRefusal _ _ _ := none

def sampleDraft : Broadcast where
  id := 1
  cleanupId := 7
  createdBy := some 4
  kind := .hostBroadcast
  status := .draft
  subject := some "Bring gloves"
  bodyMd := some "See you at the meeting point."
  ctaUrl := none
  channels := [.email]
  replyTo := none
  scheduledAt := none
  plannedAt := none
  startedAt := none
  finishedAt := none
  chunkSize := 50
  chunkCount := 0
  recipientCount := 0
  sentCount := 0
  failedCount := 0
  suppressedCount := 0
  updatedAt := 0

def sampleArgs : Args := ⟨7, 4, 1, false⟩

/-- The host has sent a message for the event a minute ago. -/
def sampleState : State where
  now := 100 * MS_PER_HOUR
  broadcasts := (Table.empty _).insert sampleDraft
  deliveries := .empty _
  counters := (Table.empty _).put ⟨sampleArgs.cooldownKey, 1, 100 * MS_PER_HOUR + 540000⟩
  plans := []
  killSwitch := false
  host _ := some ⟨false, true, 0⟩
  event _ := some ⟨false, none, false⟩

/-- The cooldown refuses the send, and its give-back is the one call that fails: the counter
stays at two. -/
theorem not_sendBroadcast_allOrNothing :
    ¬ ∀ (cfg : Config) (s : State) (args : Args), Machine.Ends cfg.machine (fun failed s' r => failed.length ≤ 1 →
        match r with
        | .sent _ => s'.statusOf args.broadcastId = some .sending ∧
            (∀ key, s'.value key = s.value key + (args.charges s.now).count key) ∧ args.broadcastId ∈ s'.plans
        | .refused _ => s'.statusOf args.broadcastId = s.statusOf args.broadcastId ∧
            s'.replyToOf args.broadcastId = s.replyToOf args.broadcastId ∧ ∀ key, s'.value key = s.value key)
      [] s (.killSwitch args) := by
  intro h
  have hrun : ∃ x ∈ sampleConfig.machine.follow [] sampleState (.killSwitch sampleArgs) [0, 0, 0, 0, 0, 0, 1, 0],
      x.1.length ≤ 1 ∧ x.2.2 = .refused (.capped .cooldown) ∧
        x.2.1.value sampleArgs.cooldownKey ≠ sampleState.value sampleArgs.cooldownKey := by
    decide +kernel
  obtain ⟨⟨failed, s', r⟩, hx, hone, hr, hvalue⟩ := hrun
  obtain rfl : r = .refused (.capped .cooldown) := hr
  exact hvalue (((h sampleConfig sampleState sampleArgs).follow hx hone).2.2 _)

end Civfix.Broadcasts.Sending
