import Civfix.BroadcastSending

/-! # The budgets of a host

An event has a number of messages a day and a host a number of recipients a day. Each is a
counter under a key that names the UTC day, charged before it is compared with the limit and
given back if it is over. `sendBroadcast`, `reserveSendSlot` (the release of a scheduled
message) and `reserveRecipientBudget` charge these counters in any interleaving; an increment
that throws may have counted. Announcements have a cap of their own and charge no counter. An
event has a counter under each spelling of its id that a caller uses.

`admitted` is a record of the past that no call reads. -/
namespace Civfix.Broadcasts.Budgets

open KeyedTables InterleavedCalls Sending SpelledIds

structure Config extends Sending.Config where
  recipientsPerDay : ℕ

/-- What was let through, with the day it was let through on. -/
inductive Admission where
  | send (cleanupId : IdText) (day : ℕ) (announcement : Bool)
  | recipients (actorId : UserId) (day count : ℕ)
  deriving DecidableEq

structure Shared where
  state : State
  admitted : List Admission

inductive Request where
  | sendBroadcast (args : Args)
  | reserveSendSlot (cleanupId : IdText) (actorId : UserId)
  | reserveRecipientBudget (actorId : UserId) (recipients : ℕ)

inductive Result where
  | send (result : Sending.Result)
  | reserved
  | refused (error : SendError)
  | budget (granted : Bool)

inductive Await where
  | send (p : Sending.Await)
  | slotKillSwitch (cleanupId : IdText) (actorId : UserId)
  | slotHostState (cleanupId : IdText) (actorId : UserId)
  | slotCooldown (cleanupId : IdText) (actorId : UserId)
  | slotEvent (cleanupId : IdText) (actorId : UserId)
  | slotGiveBackEvent (cleanupId : IdText) (actorId : UserId) (day : ℕ) (error : SendError)
  | slotGiveBackCooldown (cleanupId : IdText) (actorId : UserId) (error : SendError)
  | granted
  | chargeRecipients (actorId : UserId) (recipients : ℕ)
  | giveBackRecipients (actorId : UserId) (day recipients : ℕ)

abbrev Outcome := Shared × Next Await Result

/-- A call of a dependency that may throw, before or after it took effect. -/
def fallible (s : Shared) (done : State) (next failure : Next Await Result) : List Outcome :=
  [({ s with state := done }, next), (s, failure), ({ s with state := done }, failure)]

/-- The admission that a send makes in an access, if it makes one. -/
def admission (s : State) : Sending.Await → Next Sending.Await Sending.Result → List Admission
  | .moveToSending args _ _, .await (.enqueuePlan ..) => [.send args.cleanupId (utcDay s.now) true]
  | .chargeEvent args _ _, .await (.enqueuePlan ..) => [.send args.cleanupId (utcDay s.now) false]
  | _, _ => []

def sendNext : Next Sending.Await Sending.Result → Next Await Result
  | .await p => .await (.send p)
  | .done r => .done (.send r)

namespace Config

variable (cfg : Config)

def access (s : Shared) : Await → List Outcome
  | .send p => (cfg.toConfig.access s.state p).map fun x =>
      (⟨x.1, List.append (admission s.state p x.2) s.admitted⟩, sendNext x.2)
  | .slotKillSwitch c a => fallible s s.state
      (if s.state.killSwitch then .done (.refused (.capped .killSwitch)) else .await (.slotHostState c a))
      (.done (.refused .threw))
  | .slotHostState c a => fallible s s.state
      (match cfg.hostRefusal s.state.now (s.state.host a) with
        | some kind => .done (.refused (.capped kind))
        | none => .await (.slotCooldown c a))
      (.done (.refused (.capped .counterUnavailable)))
  | .slotCooldown c a =>
      let s' := s.state.incr (.cooldown a c) cfg.cooldownSec
      fallible s s' (if COOLDOWN_SENDS < s'.value (.cooldown a c) then
          .await (.slotGiveBackCooldown c a (.capped .cooldown))
        else .await (.slotEvent c a)) (.done (.refused (.capped .counterUnavailable)))
  | .slotEvent c a =>
      let day := utcDay s.state.now
      let s' := s.state.incr (.event c day) SECONDS_PER_DAY
      let failure : Next Await Result := .await (.slotGiveBackCooldown c a (.capped .counterUnavailable))
      if cfg.perEventPerDay < s'.value (.event c day) then
        fallible s s' (.await (.slotGiveBackEvent c a day (.capped .perEventPerDay))) failure
      else [(⟨s', .send c day false :: s.admitted⟩, .done .reserved), (s, failure), ({ s with state := s' }, failure)]
  | .slotGiveBackEvent c a day error => fallible s (s.state.decr (.event c day))
      (.await (.slotGiveBackCooldown c a error)) (.await (.slotGiveBackCooldown c a error))
  | .slotGiveBackCooldown c a error => fallible s (s.state.decr (.cooldown a c)) (.done (.refused error))
      (.done (.refused error))
  | .granted => [(s, .done (.budget true))]
  | .chargeRecipients a n =>
      let day := utcDay s.state.now
      let s' := s.state.incrBy (.host a day) n SECONDS_PER_DAY
      if s'.value (.host a day) ≤ cfg.recipientsPerDay then
        [(⟨s', .recipients a day n :: s.admitted⟩, .done (.budget true)), (s, .done (.budget false)),
          ({ s with state := s' }, .done (.budget false))]
      else fallible s s' (.await (.giveBackRecipients a day n)) (.done (.budget false))
  | .giveBackRecipients a day n => fallible s (s.state.decrBy (.host a day) n) (.done (.budget false))
      (.done (.budget false))

def enter (s : Shared) : Request → Option (Shared × Await)
  | .sendBroadcast args => some (s, .send (.killSwitch args))
  | .reserveSendSlot c a => some (s, .slotKillSwitch c a)
  | .reserveRecipientBudget a n => some (s, if n = 0 then .granted else .chargeRecipients a n)

def environment (s : Shared) (now : Instant) : Option Shared :=
  (Sending.Config.environment s.state now).map (fun t => { s with state := t })

def machine : Machine Shared Request Await Result Instant where
  enter := enter
  access := cfg.access
  environment := environment

end Config

abbrev World := InterleavedCalls.World Shared Request Await

abbrev Move := InterleavedCalls.Move Request Instant

/-! ## What is admitted, charged and held -/

/-- The charge of an admission on a counter; an announcement is charged to none. -/
def Admission.charge (key : CounterKey) : Admission → ℕ
  | .send c day announcement => if !announcement && decide (key = .event c day) then 1 else 0
  | .recipients a day n => if key = .host a day then n else 0

namespace Shared

variable (s : Shared)

/-- How many sends were let through for an event on a day, under one spelling of its id. -/
def sends (c : IdText) (day : ℕ) (announcement : Bool) : ℕ := s.admitted.count (.send c day announcement)

/-- How many recipients were let through for a host on a day. -/
def recipients (a : UserId) (day : ℕ) : ℕ :=
  (s.admitted.map fun
    | .recipients a' day' n => if a' = a ∧ day' = day then n else 0
    | .send .. => 0).sum

/-- What was let through on a counter. -/
def charged (key : CounterKey) : ℕ := (s.admitted.map (Admission.charge key)).sum

theorem charged_event (c : IdText) (day : ℕ) : s.charged (.event c day) = s.sends c day false := by
  unfold charged sends
  induction s.admitted with
  | nil => rfl
  | cons x l ih =>
    rw [List.map_cons, List.sum_cons, ih, List.count_cons, Nat.add_comm]
    cases x with
    | send c' day' announcement =>
      by_cases h : c' = c ∧ day' = day
      · obtain ⟨rfl, rfl⟩ := h
        cases announcement <;> simp [Admission.charge]
      · have hkey : ¬ (CounterKey.event c day = .event c' day') := by
          rintro heq
          cases heq
          exact h ⟨rfl, rfl⟩
        have hne : ¬ (Admission.send c' day' announcement = .send c day false) := by
          rintro heq
          cases heq
          exact h ⟨rfl, rfl⟩
        simp [Admission.charge, hkey, hne]
    | recipients a day' n => simp [Admission.charge]

theorem charged_host (a : UserId) (day : ℕ) : s.charged (.host a day) = s.recipients a day := by
  unfold charged recipients
  congr 1
  refine List.map_congr_left fun x _ => ?_
  cases x with
  | send c day' announcement => simp [Admission.charge]
  | recipients a' day' n => simp [Admission.charge, eq_comm]

end Shared

/-- The day of a counter that counts by the day. -/
def dayOf : CounterKey → Option ℕ
  | .event _ day | .host _ day => some day
  | .cooldown _ _ => none

def Config.limit (cfg : Config) : CounterKey → ℕ
  | .event _ _ => cfg.perEventPerDay
  | .host _ _ => cfg.recipientsPerDay
  | .cooldown _ _ => COOLDOWN_SENDS

/-- The charge that a call is about to give back. -/
def Await.owes (key : CounterKey) : Await → ℕ
  | .send (.giveBackEvent args _ day _) => if key = args.eventKey day then 1 else 0
  | .slotGiveBackEvent c _ day _ => if key = .event c day then 1 else 0
  | .giveBackRecipients a day n => if key = .host a day then n else 0
  | _ => 0

def owed (key : CounterKey) (c : Call Request Await) : ℕ := c.await.owes key

/-- No counter of a day expires within its day. -/
def Windowed (s : State) : Prop :=
  ∀ key c day, s.counters.find? key = some c → dayOf key = some day → (day + 1) * (SECONDS_PER_DAY * 1000) ≤ c.expiresAt

section Counters

variable {s : State} {key key' : CounterKey}

theorem lt_utcDay_succ (now : ℕ) : now < (utcDay now + 1) * (SECONDS_PER_DAY * 1000) := by
  rw [Nat.mul_comm]
  exact Nat.lt_mul_div_succ now (by decide)

theorem utcDay_mul_le (now : ℕ) : utcDay now * (SECONDS_PER_DAY * 1000) ≤ now := Nat.div_mul_le_self ..

theorem day_end_le (now : ℕ) : (utcDay now + 1) * (SECONDS_PER_DAY * 1000) ≤ now + max 1 SECONDS_PER_DAY * 1000 := by
  have hle := utcDay_mul_le now
  have hmax : max 1 SECONDS_PER_DAY = SECONDS_PER_DAY := by decide
  rw [Nat.add_mul, Nat.one_mul, hmax]
  exact Nat.add_le_add_right hle _

theorem Windowed.incrBy (h : Windowed s) (n ttl : ℕ) (hkey : ∀ day, dayOf key = some day →
    (day + 1) * (SECONDS_PER_DAY * 1000) ≤ s.now + max 1 ttl * 1000) : Windowed (s.incrBy key n ttl) := by
  intro k c day hc hday
  simp only [State.incrBy, Table.find?_put] at hc
  split at hc
  · next hk =>
    subst hk
    cases hc
    dsimp only
    cases hl : s.live k with
    | none => exact hkey day hday
    | some c => exact h k c day (State.live_eq_some.mp hl).1 hday
  · exact h k c day hc hday

theorem Windowed.decrBy (h : Windowed s) (n : ℕ) : Windowed (s.decrBy key n) := by
  intro k c day hc hday
  unfold State.decrBy at hc
  split at hc
  · exact h k c day hc hday
  · next x hx =>
    simp only [Table.find?_put] at hc
    split at hc
    · next hk =>
      cases hc
      obtain ⟨hfind, -⟩ := State.live_eq_some.mp hx
      rw [← Table.key_of_find? hfind] at hfind
      exact h k x day (hk ▸ hfind) hday
    · exact h k c day hc hday

end Counters

/-! ## What one access does to a counter -/

/-- An access by a call that owes `debt` before it and `debt'` after it: what it lets through and
what it comes to owe is charged, what it no longer owes is given back at most, and it lets
something through only under the limit. -/
structure Moves (cfg : Config) (key : CounterKey) (s s' : Shared) (debt debt' : ℕ) : Prop where
  now : s'.state.now = s.state.now
  windowed : Windowed s.state → Windowed s'.state
  charged : debt ≤ s.state.value key →
    s.state.value key + debt' + s'.charged key ≤ s'.state.value key + debt + s.charged key
  bounded : s'.charged key = s.charged key ∨
    (dayOf key = some (utcDay s.state.now) ∧ s'.state.value key ≤ cfg.limit key)

variable {cfg : Config} {s s' : Shared} {key key' : CounterKey} {debt debt' : ℕ}

theorem Moves.idle (hnow : s'.state.now = s.state.now) (hcounters : s'.state.counters = s.state.counters)
    (hcharged : s'.charged key = s.charged key) (hdebt : debt' ≤ debt) : Moves cfg key s s' debt debt' := by
  have hvalue : s'.state.value key = s.state.value key := by
    rw [State.value, State.value, State.live, State.live, hnow, hcounters]
  refine ⟨hnow, fun h k c day hc => h k c day (hcounters ▸ hc), fun _ => ?_, .inl hcharged⟩
  rw [hvalue, hcharged]
  omega

theorem Moves.incr {n ttl : ℕ} (hs : s'.state = s.state.incrBy key' n ttl)
    (hkey : ∀ day, dayOf key' = some day → (day + 1) * (SECONDS_PER_DAY * 1000) ≤ s.state.now + max 1 ttl * 1000)
    (hdebt : s'.charged key + debt' ≤ s.charged key + debt + if key = key' then n else 0)
    (hbounded : s'.charged key = s.charged key ∨
      (dayOf key = some (utcDay s.state.now) ∧ s'.state.value key ≤ cfg.limit key)) :
        Moves cfg key s s' debt debt' := by
  refine ⟨by rw [hs]; rfl, fun h => hs ▸ h.incrBy n ttl hkey, fun _ => ?_, hbounded⟩
  rw [hs, State.value_incrBy]
  omega

theorem now_decrBy (t : State) (n : ℕ) : (t.decrBy key' n).now = t.now := by
  unfold State.decrBy
  split <;> rfl

theorem Moves.decr {n : ℕ} (hs : s'.state = s.state.decrBy key' n) (hcharged : s'.charged key = s.charged key)
    (hdebt : debt' + (if key = key' then n else 0) ≤ debt) : Moves cfg key s s' debt debt' := by
  refine ⟨by rw [hs, now_decrBy], fun h => hs ▸ h.decrBy n, fun hle => ?_, .inl hcharged⟩
  rw [hs, State.value_decrBy, hcharged]
  omega

/-- A call of a dependency that may throw and lets nothing through. -/
theorem moves_of_fallible {t : State} {next failure n : Next Await Result} {f : Next Await Result → ℕ}
    (hn : (s', n) ∈ fallible s t next failure) (hfailure : f failure = 0)
    (hdone : ∀ d ≤ f next, Moves cfg key s ⟨t, s.admitted⟩ debt d) : Moves cfg key s s' debt (f n) := by
  simp only [fallible, List.mem_cons, Prod.mk.injEq, List.mem_nil_iff, or_false] at hn
  rcases hn with ⟨hs, hn⟩ | ⟨hs, hn⟩ | ⟨hs, hn⟩
  · rw [hs, hn]
    exact hdone _ le_rfl
  · rw [hs, hn, hfailure]
    exact .idle rfl rfl rfl (Nat.zero_le _)
  · rw [hs, hn, hfailure]
    exact hdone 0 (Nat.zero_le _)

theorem charged_cons (s : Shared) (key : CounterKey) (x : Admission) (t : State) :
    (⟨t, x :: s.admitted⟩ : Shared).charged key = x.charge key + s.charged key := by
  simp [Shared.charged]

theorem charge_send (key : CounterKey) (c : IdText) (day : ℕ) :
    (Admission.send c day false).charge key = if key = .event c day then 1 else 0 := by
  simp [Admission.charge]

theorem moves_count {n : ℕ} (hday : dayOf key' = some (utcDay s.state.now))
    (hdebt : debt ≤ if key = key' then n else 0) :
    Moves cfg key s ⟨s.state.incrBy key' n SECONDS_PER_DAY, s.admitted⟩ 0 debt := by
  refine .incr rfl (fun day hd => ?_) (Nat.add_le_add_left hdebt _) (.inl rfl)
  cases hday.symm.trans hd
  exact day_end_le _

/-- The same when the charge is under the limit and is let through. -/
theorem moves_admit {n : ℕ} {x : Admission} (hday : dayOf key' = some (utcDay s.state.now))
    (hx : ∀ k, x.charge k = if k = key' then n else 0)
    (hle : (s.state.incrBy key' n SECONDS_PER_DAY).value key' ≤ cfg.limit key') :
    Moves cfg key s ⟨s.state.incrBy key' n SECONDS_PER_DAY, x :: s.admitted⟩ 0 0 := by
  have hcharged : ∀ t, (⟨t, x :: s.admitted⟩ : Shared).charged key = s.charged key + if key = key' then n else 0 := by
    intro t
    rw [charged_cons, hx, Nat.add_comm]
  refine .incr rfl (fun day hd => ?_) (hcharged s.state).le ?_
  · cases hday.symm.trans hd
    exact day_end_le _
  · by_cases hk : key = key'
    · subst hk
      exact .inr ⟨hday, hle⟩
    · refine .inl ?_
      rw [hcharged, if_neg hk, Nat.add_zero]

theorem ne_cooldown (hday : (dayOf key).isSome) (a : UserId) (c : IdText) : key ≠ .cooldown a c := by
  rintro rfl
  cases hday

/-- A charge or a give-back of a cooldown. -/
theorem moves_cooldown {a : UserId} {c : IdText} (hday : (dayOf key).isSome) (ttl : ℕ) :
    Moves cfg key s ⟨s.state.incr (.cooldown a c) ttl, s.admitted⟩ 0 0 ∧
      Moves cfg key s ⟨s.state.decr (.cooldown a c), s.admitted⟩ 0 0 := by
  have hne := ne_cooldown hday a c
  constructor
  · refine .incr rfl (fun day hd => by cases hd) ?_ (.inl rfl)
    rw [if_neg hne]
    exact le_rfl
  · refine .decr rfl rfl ?_
    rw [if_neg hne]

theorem moves_of_aside {p : Sending.Await} {t : State} {n : Next Sending.Await Sending.Result} (hp : p.Aside)
    (hn : (t, n) ∈ cfg.toConfig.access s.state p) (o : Request) :
    Moves cfg key s ⟨t, List.append (admission s.state p n) s.admitted⟩ ((Await.send p).owes key)
      (Next.held (owed key) o (sendNext n)) := by
  obtain ⟨hnow, hcounters, hnext⟩ := access_aside hp hn
  have hadmission : admission s.state p n = [] := by
    cases p <;> first | rfl | exact hp.elim
  have howes : Next.held (owed key) o (sendNext n) = 0 := by
    cases n with
    | done r => rfl
    | await q =>
      rcases hnext q rfl with hq | ⟨args, previous, replyTo, rfl⟩
      · cases q <;> first | rfl | exact hq.elim
      · rfl
  rw [hadmission, howes]
  exact .idle hnow hcounters rfl (Nat.zero_le _)

/-- The outcomes of an access of `sendBroadcast`. -/
theorem moves_of_sendAccess (hday : (dayOf key).isSome) {p : Sending.Await} {t : State}
    {n : Next Sending.Await Sending.Result} (hn : (t, n) ∈ cfg.toConfig.access s.state p) (o : Request) :
    Moves cfg key s ⟨t, List.append (admission s.state p n) s.admitted⟩ ((Await.send p).owes key)
      (Next.held (owed key) o (sendNext n)) := by
  cases p with
  | moveToSending args previous replyTo =>
    simp only [Sending.Config.access, List.mem_cons, Prod.mk.injEq, List.mem_nil_iff, or_false] at hn
    have hnow := State.now_transition (s := s.state) args.broadcastId [.draft, .scheduled] .sending
      { startedAt := some (some s.state.now), replyTo := some replyTo }
    rcases hn with ⟨rfl, rfl⟩ | ⟨rfl, rfl⟩ | ⟨rfl, rfl⟩
    · split
      · split
        · split
          · exact .idle hnow rfl ((charged_cons s key _ _).trans (Nat.zero_add _)) le_rfl
          · exact .idle hnow rfl rfl le_rfl
        · exact .idle hnow rfl rfl le_rfl
      · exact .idle hnow rfl rfl le_rfl
    · exact .idle rfl rfl rfl le_rfl
    · exact .idle hnow rfl rfl le_rfl
  | chargeCooldown args previous moved =>
    simp only [Sending.Config.access, List.mem_cons, Prod.mk.injEq, List.mem_nil_iff, or_false] at hn
    have hmoves : Moves cfg key s ⟨s.state.incr args.cooldownKey cfg.cooldownSec, s.admitted⟩ 0 0 :=
      (moves_cooldown hday cfg.cooldownSec).1
    rcases hn with ⟨rfl, rfl⟩ | ⟨rfl, rfl⟩ | ⟨rfl, rfl⟩
    · split
      · exact hmoves
      · exact hmoves
    · exact .idle rfl rfl rfl le_rfl
    · exact hmoves
  | chargeEvent args previous moved =>
    simp only [Sending.Config.access, List.mem_cons, Prod.mk.injEq, List.mem_nil_iff, or_false] at hn
    rcases hn with ⟨rfl, rfl⟩ | ⟨rfl, rfl⟩ | ⟨rfl, rfl⟩
    · split
      · exact moves_count rfl le_rfl
      · next hle => exact moves_admit rfl (fun k => charge_send k _ _) (not_lt.mp hle)
    · exact .idle rfl rfl rfl le_rfl
    · exact moves_count rfl (Nat.zero_le _)
  | giveBackEvent args previous day error =>
    simp only [Sending.Config.access, List.mem_cons, Prod.mk.injEq, List.mem_nil_iff, or_false] at hn
    rcases hn with ⟨rfl, rfl⟩ | ⟨rfl, rfl⟩ | ⟨rfl, rfl⟩
    · exact .decr rfl rfl (Nat.zero_add _).le
    · exact .idle rfl rfl rfl (Nat.zero_le _)
    · exact .decr rfl rfl (Nat.zero_add _).le
  | giveBackCooldown args previous error =>
    simp only [Sending.Config.access, List.mem_cons, Prod.mk.injEq, List.mem_nil_iff, or_false] at hn
    rcases hn with ⟨rfl, rfl⟩ | ⟨rfl, rfl⟩ | ⟨rfl, rfl⟩
    · exact (moves_cooldown hday 0).2
    · exact .idle rfl rfl rfl le_rfl
    · exact (moves_cooldown hday 0).2
  | killSwitch | hostState | findDraft | eventContext | rollBack | enqueuePlan | releaseUnplannedSend =>
    exact moves_of_aside (by trivial) hn o

theorem charge_recipients (key : CounterKey) (a : UserId) (day n : ℕ) :
    (Admission.recipients a day n).charge key = if key = .host a day then n else 0 := rfl

theorem moves_of_access (key : CounterKey) (hday : (dayOf key).isSome) {p : Await} {n : Next Await Result}
    (hn : (s', n) ∈ cfg.access s p) (o : Request) :
    Moves cfg key s s' (p.owes key) (Next.held (owed key) o n) := by
  cases p with
  | send p =>
    obtain ⟨⟨t, x⟩, hx, heq⟩ := List.mem_map.mp hn
    cases heq
    exact moves_of_sendAccess hday hx o
  | slotKillSwitch c a =>
    refine moves_of_fallible hn rfl fun d hd => ?_
    refine .idle rfl rfl rfl (hd.trans ?_)
    split <;> exact le_rfl
  | slotHostState c a =>
    refine moves_of_fallible hn rfl fun d hd => ?_
    refine .idle rfl rfl rfl (hd.trans ?_)
    split <;> exact le_rfl
  | slotCooldown c a =>
    refine moves_of_fallible hn rfl fun d hd => ?_
    obtain rfl : d = 0 := by
      split at hd <;> exact Nat.le_zero.mp hd
    exact (moves_cooldown hday cfg.cooldownSec).1
  | slotEvent c a =>
    simp only [Config.access] at hn
    split at hn
    · exact moves_of_fallible hn rfl fun d hd => moves_count rfl hd
    · next hle =>
      simp only [List.mem_cons, Prod.mk.injEq, List.mem_nil_iff, or_false] at hn
      rcases hn with ⟨rfl, rfl⟩ | ⟨rfl, rfl⟩ | ⟨rfl, rfl⟩
      · exact moves_admit rfl (fun k => charge_send k _ _) (not_lt.mp hle)
      · exact .idle rfl rfl rfl le_rfl
      · exact moves_count rfl (Nat.zero_le _)
  | slotGiveBackEvent c a day error =>
    refine moves_of_fallible hn rfl fun d hd => ?_
    obtain rfl : d = 0 := Nat.le_zero.mp hd
    exact .decr rfl rfl (Nat.zero_add _).le
  | slotGiveBackCooldown c a error =>
    refine moves_of_fallible hn rfl fun d hd => ?_
    obtain rfl : d = 0 := Nat.le_zero.mp hd
    exact (moves_cooldown hday 0).2
  | granted =>
    simp only [Config.access, List.mem_singleton, Prod.mk.injEq] at hn
    obtain ⟨rfl, rfl⟩ := hn
    exact .idle rfl rfl rfl le_rfl
  | chargeRecipients a m =>
    simp only [Config.access] at hn
    split at hn
    · next hle =>
      simp only [List.mem_cons, Prod.mk.injEq, List.mem_nil_iff, or_false] at hn
      rcases hn with ⟨rfl, rfl⟩ | ⟨rfl, rfl⟩ | ⟨rfl, rfl⟩
      · exact moves_admit rfl (fun k => charge_recipients k _ _ _) hle
      · exact .idle rfl rfl rfl le_rfl
      · exact moves_count rfl (Nat.zero_le _)
    · exact moves_of_fallible hn rfl fun d hd => moves_count rfl hd
  | giveBackRecipients a day m =>
    refine moves_of_fallible hn rfl fun d hd => ?_
    obtain rfl : d = 0 := Nat.le_zero.mp hd
    exact .decr rfl rfl (Nat.zero_add _).le

/-! ## Whole runs -/

/-- The invariant of a run. What was let through on a counter of today or of a later day, and
what is about to be given back to it, is charged to it. -/
structure Kept (cfg : Config) (w : World) : Prop where
  windowed : Windowed w.shared.state
  charged : ∀ key day, dayOf key = some day → utcDay w.shared.state.now ≤ day →
    w.shared.charged key + w.total (owed key) ≤ w.shared.state.value key
  bounded : ∀ key day, dayOf key = some day → w.shared.charged key ≤ cfg.limit key

theorem owed_of_enter (key : CounterKey) {o : Request} {p : Await} (he : Config.enter s o = some (s', p)) :
    s' = s ∧ owed key ⟨o, p⟩ = 0 := by
  cases o with
  | sendBroadcast args | reserveSendSlot c a =>
    cases he
    exact ⟨rfl, rfl⟩
  | reserveRecipientBudget a n =>
    cases he
    refine ⟨rfl, ?_⟩
    split <;> rfl

theorem environment_eq_some {now : Instant} (he : Config.environment s now = some s') :
    s.state.now ≤ now ∧ s' = { s with state := { s.state with now := now } } := by
  simp only [Config.environment, Sending.Config.environment, Option.map_eq_some_iff, Option.ite_none_right_eq_some,
    Option.some.injEq] at he
  obtain ⟨t, ⟨hle, rfl⟩, rfl⟩ := he
  exact ⟨hle, rfl⟩

/-- A counter keeps its value until its day is over. -/
theorem value_tick {t : State} (h : Windowed t) {day : ℕ} (hday : dayOf key = some day) {now : Instant}
    (hle : t.now ≤ now) (hlive : utcDay now ≤ day) : ({ t with now := now } : State).value key = t.value key := by
  have hend : now < (day + 1) * (SECONDS_PER_DAY * 1000) :=
    (lt_utcDay_succ now).trans_le (Nat.mul_le_mul_right _ (Nat.succ_le_succ hlive))
  simp only [State.value, State.live]
  cases hc : t.counters.find? key with
  | none => rfl
  | some c =>
    have hexp := hend.trans_le (h key c day hc hday)
    rw [Option.filter_some, Option.filter_some, if_pos (decide_eq_true hexp),
      if_pos (decide_eq_true (hle.trans_lt hexp))]

theorem utcDay_mono {now now' : ℕ} (h : now ≤ now') : utcDay now ≤ utcDay now' := Nat.div_le_div_right h

theorem windowed_of_step {w w' : World} {m : Move} {r : Option Result} (hw : Windowed w.shared.state)
    (hs : cfg.machine.step w m = some (w', r)) : Windowed w'.shared.state := by
  rcases Machine.shared_cases hs with ⟨o, p, -, he⟩ | ⟨i, k, c, n, -, -, hn⟩ | ⟨i, -, heq⟩ | ⟨e, -, he, -⟩
  · rw [(owed_of_enter (.event 0 0) he).1]
    exact hw
  · exact (moves_of_access (.event 0 0) rfl hn c.origin).windowed hw
  · rw [heq]
    exact hw
  · rw [(environment_eq_some he).2]
    exact hw

theorem Kept.step {w w' : World} {m : Move} {r : Option Result} (hw : Kept cfg w)
    (hs : cfg.machine.step w m = some (w', r)) : Kept cfg w' := by
  have hcases := Machine.total_cases hs
  have hcharged : ∀ key day, dayOf key = some day → utcDay w'.shared.state.now ≤ day →
      w'.shared.charged key + w'.total (owed key) ≤ w'.shared.state.value key := by
    intro key day hday hle
    rcases hcases with ⟨o, p, he, htotal⟩ | ⟨i, k, c, n, -, hc, hn, htotal⟩ | ⟨heq, htotal⟩ | ⟨e, he, htotal⟩
    · obtain ⟨hshared, hnothing⟩ := owed_of_enter key he
      rw [hshared] at hle ⊢
      rw [htotal, hnothing, Nat.add_zero]
      exact hw.charged key day hday hle
    · have hmoves := moves_of_access key (hday ▸ rfl) hn c.origin
      rw [hmoves.now] at hle
      have hbefore := hw.charged key day hday hle
      have hdebt : c.await.owes key ≤ w.total (owed key) := World.le_total (owed key) hc
      have hmoved := hmoves.charged (hdebt.trans ((Nat.le_add_left _ _).trans hbefore))
      have hown : owed key c = c.await.owes key := rfl
      have hsum := htotal (owed key)
      omega
    · rw [heq] at hle ⊢
      exact (Nat.add_le_add_left (htotal _) _).trans (hw.charged key day hday hle)
    · obtain ⟨htick, hs'⟩ := environment_eq_some he
      rw [hs'] at hle ⊢
      rw [htotal]
      have hvalue := value_tick hw.windowed hday htick hle
      exact (hw.charged key day hday ((utcDay_mono htick).trans hle)).trans hvalue.ge
  refine ⟨windowed_of_step hw.windowed hs, hcharged, fun key day hday => ?_⟩
  have hbounded := hw.bounded key day hday
  rcases hcases with ⟨o, p, he, -⟩ | ⟨i, k, c, n, -, hc, hn, -⟩ | ⟨heq, -⟩ | ⟨e, he, -⟩
  · rw [(owed_of_enter key he).1]
    exact hbounded
  · have hmoves := moves_of_access key (hday ▸ rfl) hn c.origin
    rcases hmoves.bounded with heq | ⟨htoday, hlimit⟩
    · rw [heq]
      exact hbounded
    · -- What is let through today is charged, and the counter was found under the limit.
      have hcharge := hcharged key _ htoday (by rw [hmoves.now])
      exact ((Nat.le_add_right _ _).trans hcharge).trans hlimit
  · rw [heq]
    exact hbounded
  · rw [(environment_eq_some he).2]
    exact hbounded

/-- In every interleaving, the sends that are let through for an event on a day under one
spelling of its id, announcements apart, are at most its limit, the recipients that are let
through for a host on a day are at most the limit, and what was let through today is charged. -/
theorem budgets_kept {t : State} {w : World} (ht : Windowed t)
    (h : Machine.Run cfg.machine (fun _ _ => True) (.initial ⟨t, []⟩) w) :
    (∀ c day, w.shared.sends c day false ≤ cfg.perEventPerDay) ∧
      (∀ a day, w.shared.recipients a day ≤ cfg.recipientsPerDay) ∧
      (∀ c, w.shared.sends c (utcDay w.shared.state.now) false ≤
        w.shared.state.value (.event c (utcDay w.shared.state.now))) ∧
      ∀ a, w.shared.recipients a (utcDay w.shared.state.now) ≤
        w.shared.state.value (.host a (utcDay w.shared.state.now)) := by
  have hinitial : Kept cfg (.initial ⟨t, []⟩) := ⟨ht, fun _ _ _ _ => Nat.zero_le _, fun _ _ _ => Nat.zero_le _⟩
  have hkept : Kept cfg w := h.invariant hinitial (fun hv _ hs => hv.step hs)
  have htoday : ∀ key, dayOf key = some (utcDay w.shared.state.now) → w.shared.charged key ≤ w.shared.state.value key :=
    fun key hday => (Nat.le_add_right _ _).trans (hkept.charged key _ hday le_rfl)
  refine ⟨fun c day => ?_, fun a day => ?_, fun c => ?_, fun a => ?_⟩
  · exact w.shared.charged_event c day ▸ hkept.bounded (.event c day) day rfl
  · exact w.shared.charged_host a day ▸ hkept.bounded (.host a day) day rfl
  · exact w.shared.charged_event c _ ▸ htoday (.event c _) rfl
  · exact w.shared.charged_host a _ ▸ htoday (.host a _) rfl

/-- One message an event a day, and fifteen recipients a host a day. -/
def tightConfig : Config := { sampleConfig with perEventPerDay := 1, recipientsPerDay := 15 }

/-- Two drafts of one event, and no counter yet. -/
def twoDrafts : State :=
  { sampleState with
    broadcasts := ((Table.empty _).insert sampleDraft).insert { sampleDraft with id := 2 }
    counters := .empty _ }

theorem windowed_twoDrafts : Windowed twoDrafts := fun _ _ _ hc => (nomatch hc)

/-- Two hosts send at once (calls 0 and 1): the second is over the limit and gives back. Then ten
recipients are let through and ten more are not (calls 2 and 3). -/
def contended : List (Move) :=
  [.start (.sendBroadcast ⟨7, 4, 1, false⟩), .start (.sendBroadcast ⟨7, 5, 2, false⟩), .access 0 0, .access 1 0,
    .access 0 0, .access 1 0, .access 0 0, .access 1 0, .access 0 0, .access 1 0, .access 0 0, .access 1 0, .access 0 0,
    .access 1 0, .access 0 0, .access 1 0, .access 1 0, .access 0 0, .access 1 0, .access 1 0,
    .start (.reserveRecipientBudget 4 10), .access 2 0, .start (.reserveRecipientBudget 4 10), .access 3 0, .access 3 0]

theorem budgets_kept_contended :
    ∃ w : World, Machine.Run tightConfig.machine (fun _ _ => True) (.initial ⟨twoDrafts, []⟩) w ∧
      w.shared.admitted = [.recipients 4 4 10, .send 7 4 false] ∧ w.shared.sends 7 4 false ≤ 1 ∧
      w.shared.recipients 4 4 ≤ 15 := by
  have hrun : ∃ w ∈ tightConfig.machine.perform (.initial ⟨twoDrafts, []⟩) contended,
      w.shared.admitted = [.recipients 4 4 10, .send 7 4 false] := by
    decide +kernel
  obtain ⟨w, hw, hadmitted⟩ := hrun
  have hreach := Machine.free_of_perform hw
  obtain ⟨hsends, hrecipients, -⟩ := budgets_kept windowed_twoDrafts hreach
  exact ⟨w, hreach, hadmitted, hsends 7 4, hrecipients 4 4⟩

/-- Two announcements of one event on one day, with a limit of one message. -/
theorem not_budgets_kept :
    ¬ ∀ (cfg : Config) (t : State) (w : World), Windowed t →
      Machine.Run cfg.machine (fun _ _ => True) (.initial ⟨t, []⟩) w →
      ∀ c day, w.shared.sends c day false + w.shared.sends c day true ≤ cfg.perEventPerDay := by
  intro hclaim
  have hrun : ∃ w ∈ tightConfig.machine.perform (.initial ⟨twoDrafts, []⟩)
      [.start (.sendBroadcast ⟨7, 4, 1, true⟩), .access 0 0, .access 0 0, .access 0 0, .access 0 0, .access 0 0,
        .access 0 0,
        .start (.sendBroadcast ⟨7, 4, 2, true⟩), .access 1 0, .access 1 0, .access 1 0, .access 1 0, .access 1 0,
          .access 1 0],
      w.shared.sends 7 4 true = 2 ∧ w.shared.state.plans = [2, 1] := by
    decide +kernel
  obtain ⟨w, hw, htwo, -⟩ := hrun
  have hle := hclaim tightConfig twoDrafts w windowed_twoDrafts (Machine.free_of_perform hw) 7 4
  rw [htwo] at hle
  exact absurd ((Nat.le_add_left _ _).trans hle) (by decide)

end Civfix.Broadcasts.Budgets
