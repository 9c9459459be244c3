import Civfix.BroadcastBudgets

/-! # The cooldown of a host

`bcast:cool:<actor>:<event>` lets one send through while it lives. A send that is refused
later gives its charge back, and the give-back decrements the key that is there when it
lands. The calls are those of the budgets; beside them runs a record that no call reads:
how often each key was created, to which lifetime of the key a call was charged, and to
which lifetime the sends that were let through belong. -/
namespace Civfix.Broadcasts.Cooldowns

open KeyedTables InterleavedCalls Sending Budgets SpelledIds

structure Shared extends Budgets.Shared where
  opened : CounterKey → ℕ
  sends : List (CounterKey × ℕ)

structure Await where
  await : Budgets.Await
  lifetime : ℕ

/-- How far a call is with the cooldown: it is about to charge it, it has passed it, its send
was refused by the daily limit, or it is about to give the charge back. -/
inductive Stage | charging | passing | refused | returning deriving DecidableEq

def stage : Budgets.Await → Option (Stage × CounterKey)
  | .send (.chargeCooldown args _ _) => some (.charging, args.cooldownKey)
  | .send (.chargeEvent args _ _) => some (.passing, args.cooldownKey)
  | .send (.giveBackEvent args _ _ _) => some (.refused, args.cooldownKey)
  | .send (.giveBackCooldown args _ _) => some (.returning, args.cooldownKey)
  | .slotCooldown c a => some (.charging, .cooldown a c)
  | .slotEvent c a => some (.passing, .cooldown a c)
  | .slotGiveBackEvent c a _ _ => some (.refused, .cooldown a c)
  | .slotGiveBackCooldown c a _ => some (.returning, .cooldown a c)
  | _ => none

/-- The cooldown under which an access lets a send through, if it does. -/
def admits : Budgets.Await → Next Budgets.Await Budgets.Result → Option CounterKey
  | .send (.chargeEvent args _ _), .await (.send (.enqueuePlan ..)) => some args.cooldownKey
  | .slotEvent c a, .done .reserved => some (.cooldown a c)
  | _, _ => none

/-- A key that comes alive is created. -/
def reopened (opened : CounterKey → ℕ) (s s' : State) (key : CounterKey) : ℕ :=
  if (s.live key).isNone ∧ (s'.live key).isSome then opened key + 1 else opened key

/-- The lifetime that a call is charged to after an access. -/
def lifetimeAfter (opened : CounterKey → ℕ) (p : Await) : ℕ :=
  match stage p.await with
  | some (.charging, key) => opened key
  | _ => p.lifetime

def nextAwait (lifetime : ℕ) : Next Budgets.Await Budgets.Result → Next Await Budgets.Result
  | .await p => .await ⟨p, lifetime⟩
  | .done r => .done r

def record (s : Shared) (p : Await) (x : Budgets.Outcome) : Shared × Next Await Budgets.Result :=
  let opened := reopened s.opened s.state x.1.state
  (⟨x.1, opened, (admits p.await x.2).elim s.sends (fun key => (key, p.lifetime) :: s.sends)⟩,
    nextAwait (lifetimeAfter opened p) x.2)

def machine (cfg : Budgets.Config) : Machine Shared Budgets.Request Await Budgets.Result Instant where
  enter s o := (Budgets.Config.enter s.toShared o).map (fun x => (⟨x.1, s.opened, s.sends⟩, ⟨x.2, 0⟩))
  access s p := (cfg.access s.toShared p.await).map (record s p)
  environment s now := (Budgets.Config.environment s.toShared now).map (fun x => ⟨x, s.opened, s.sends⟩)

abbrev World := InterleavedCalls.World Shared Budgets.Request Await

abbrev Move := InterleavedCalls.Move Budgets.Request Instant

/-- No send has been let through yet; the counters are whatever they are. -/
def initial (t : State) : World := .initial ⟨⟨t, []⟩, fun _ => 0, []⟩

/-- A give-back lands in the lifetime that was charged, or where the key is gone. -/
def ReturnsInTime (w : World) : Move → Prop
  | .access i _ => ∀ c ∈ w.call i, ∀ x ∈ stage c.await.await, x.1 = .returning →
      (w.shared.state.live x.2).isSome → c.await.lifetime = w.shared.opened x.2
  | _ => True

instance (w : World) : (m : Move) → Decidable (ReturnsInTime w m)
  | .access _ _ => inferInstanceAs (Decidable (∀ c ∈ _, ∀ x ∈ _, _))
  | .start _ | .crash _ | .environment _ => inferInstanceAs (Decidable True)

/-! ## What a call holds -/

/-- The charge on the key that a call in this await has made and not given back. -/
def charge (key : CounterKey) (p : Budgets.Await) : ℕ :=
  match stage p with
  | none | some (.charging, _) => 0
  | some (_, k) => if k = key then 1 else 0

/-- One if the call has passed the key and its send may still be let through. -/
def pass (key : CounterKey) (p : Budgets.Await) : ℕ := if stage p = some (.passing, key) then 1 else 0

def after (f : Budgets.Await → ℕ) : Next Budgets.Await Budgets.Result → ℕ
  | .await p => f p
  | .done _ => 0

def admission (key : CounterKey) (p : Budgets.Await) (n : Next Budgets.Await Budgets.Result) : ℕ :=
  if admits p n = some key then 1 else 0

/-- What an access does to a cooldown and to what the call holds of it. -/
inductive Cools (key : CounterKey) (s s' : State) (p : Budgets.Await) (n : Next Budgets.Await Budgets.Result) :
  Prop where
  | idle (hlive : s'.live key = s.live key) (hcharge : admission key p n + after (charge key) n ≤ charge key p)
      (hpass : admission key p n + after (pass key) n ≤ pass key p)
  | charged (hstage : stage p = some (.charging, key)) (hlive : ∃ e, s'.live key = some ⟨key, s.value key + 1, e⟩)
      (hcharge : after (charge key) n ≤ 1) (hpass : after (pass key) n ≤ 1)
      (hfirst : s.value key ≠ 0 → after (pass key) n = 0) (hadmission : admission key p n = 0)
  | returned (hstage : stage p = some (.returning, key)) (hlive : s'.live key = (s.decr key).live key)
      (hcharge : after (charge key) n = 0) (hpass : after (pass key) n = 0) (hadmission : admission key p n = 0)

/-! ## What one access does to a cooldown -/

section Counters

variable {s : State} {key key' : CounterKey}

theorem live_incrBy_of_ne (h : key ≠ key') (n ttl : ℕ) : (s.incrBy key' n ttl).live key = s.live key := by
  unfold State.live State.incrBy
  rw [Table.find?_put, if_neg h]

theorem live_incr_self (ttl : ℕ) : ∃ e, (s.incr key ttl).live key = some ⟨key, s.value key + 1, e⟩ := by
  have hexpiry : s.now < (s.live key).elim (s.now + max 1 ttl * 1000) (·.expiresAt) := State.live_of_expiry ttl
  refine ⟨(s.live key).elim (s.now + max 1 ttl * 1000) (·.expiresAt), State.live_eq_some.mpr ⟨?_, hexpiry⟩⟩
  unfold State.incr State.incrBy
  rw [Table.find?_put, if_pos rfl]

theorem live_decrBy_of_ne (h : key ≠ key') (n : ℕ) : (s.decrBy key' n).live key = s.live key := by
  unfold State.decrBy
  split
  · rfl
  · next c hc =>
    obtain ⟨hfind, -⟩ := State.live_eq_some.mp hc
    have hkey : key ≠ c.key := fun he => h (he.trans (Table.key_of_find? hfind))
    simp only [State.live, Table.find?_put, if_neg hkey]

theorem live_transition (b : BroadcastId) (prior : List BroadcastStatus) (status : BroadcastStatus)
    (fields : TransitionFields) : (s.transition b prior status fields).live key = s.live key := by
  simp only [State.live, State.now_transition, counters_transition]

/-- As time passes a key lives on or is gone. -/
theorem live_tick {now : Instant} (h : s.now ≤ now) (key : CounterKey) :
    ({ s with now := now } : State).live key = s.live key ∨ ({ s with now := now } : State).live key = none := by
  unfold State.live
  cases s.counters.find? key with
  | none => exact .inl rfl
  | some x =>
    by_cases hx : now < x.expiresAt
    · refine .inl ?_
      rw [Option.filter_some, Option.filter_some, if_pos (decide_eq_true hx),
        if_pos (decide_eq_true (lt_of_le_of_lt h hx))]
    · refine .inr ?_
      rw [Option.filter_some, if_neg (by simpa using hx)]

end Counters

section Access

variable {cfg : Budgets.Config} {s s' : Budgets.Shared} {a : UserId} {c : IdText}

theorem pass_le_charge (key : CounterKey) (p : Budgets.Await) : pass key p ≤ charge key p := by
  unfold pass charge
  split
  · next h => simp [h]
  · exact Nat.zero_le _

theorem admission_le_pass (key : CounterKey) (p : Budgets.Await) (n : Next Budgets.Await Budgets.Result) :
    admission key p n ≤ pass key p := by
  unfold admission
  split
  · next h =>
    unfold admits at h
    split at h
    · cases h
      simp [pass, stage]
    · cases h
      simp [pass, stage]
    · cases h
  · exact Nat.zero_le _

theorem after_pass_le (key : CounterKey) (n : Next Budgets.Await Budgets.Result) :
    after (pass key) n ≤ after (charge key) n := by
  cases n with
  | await p => exact pass_le_charge key p
  | done r => exact le_rfl

theorem Cools.apart {key : CounterKey} {t t' : State} {p : Budgets.Await} {n : Next Budgets.Await Budgets.Result}
    (hlive : t'.live key = t.live key) (hp : charge key p = 0) (hn : after (charge key) n = 0) :
    Cools key t t' p n := by
  have hadmission : admission key p n = 0 := by
    have hpass := admission_le_pass key p n
    have hcharge := pass_le_charge key p
    omega
  have hpass := after_pass_le key n
  exact .idle hlive (by omega) (by omega)

/-- The charge of a cooldown: the call goes on only with the first charge of the key. -/
theorem cools_incr {key k : CounterKey} {t : State} {ttl : ℕ} {p : Budgets.Await}
    {n : Next Budgets.Await Budgets.Result}
    (hp : stage p = some (.charging, k)) (hn : ∀ q, n = .await q → stage q = none ∨ stage q = some (.returning, k) ∨
      (stage q = some (.passing, k) ∧ (t.incr k ttl).value k ≤ COOLDOWN_SENDS)) : Cools key t (t.incr k ttl) p n := by
  have hadmission : admission key p n = 0 := by
    have hpass := admission_le_pass key p n
    simpa [pass, hp] using hpass
  by_cases hk : key = k
  · subst hk
    have hvalue : (t.incr key ttl).value key = t.value key + 1 := by simp [State.incr, State.value_incrBy]
    have hcharge : after (charge key) n ≤ 1 := by
      cases n with
      | done r => exact Nat.zero_le _
      | await q => rcases hn q rfl with h | h | ⟨h, -⟩ <;> simp [after, charge, h]
    refine .charged hp (live_incr_self ttl) hcharge ((after_pass_le key n).trans hcharge) (fun hne => ?_) hadmission
    cases n with
    | done r => rfl
    | await q =>
      rcases hn q rfl with h | h | ⟨-, hle⟩
      · simp [after, pass, h]
      · simp [after, pass, h]
      · rw [hvalue] at hle
        exact absurd (Nat.le_zero.mp (Nat.le_of_succ_le_succ hle)) hne
  · have hne : ¬ k = key := fun he => hk he.symm
    refine .apart (live_incrBy_of_ne hk 1 ttl) (by simp [charge, hp]) ?_
    cases n with
    | done r => rfl
    | await q => rcases hn q rfl with h | h | ⟨h, -⟩ <;> simp [after, charge, h, hne]

theorem cools_refused {key k : CounterKey} {t t' : State} {p q : Budgets.Await} (hlive : t'.live key = t.live key)
    (hp : stage p = some (.passing, k) ∨ stage p = some (.refused, k))
    (hq : stage q = some (.refused, k) ∨ stage q = some (.returning, k)) (hadmits : admits p (.await q) = none) :
    Cools key t t' p (.await q) := by
  refine .idle hlive ?_ ?_
  · rcases hp with hp | hp <;> rcases hq with hq | hq <;> simp [admission, hadmits, after, charge, hp, hq]
  · rcases hp with hp | hp <;> rcases hq with hq | hq <;> simp [admission, hadmits, after, pass, hp, hq]

theorem cools_admitted {key k : CounterKey} {t t' : State} {p : Budgets.Await} {n : Next Budgets.Await Budgets.Result}
    (hlive : t'.live key = t.live key) (hp : stage p = some (.passing, k)) (hadmits : admits p n = some k)
    (hn : after (charge key) n = 0) : Cools key t t' p n := by
  have hpass := after_pass_le key n
  refine .idle hlive ?_ ?_
  · simp [admission, hadmits, hn, charge, hp]
  · have hz : after (pass key) n = 0 := by omega
    simp [admission, hadmits, hz, pass, hp]

theorem cools_decr {key k : CounterKey} {t : State} {p : Budgets.Await} {n : Next Budgets.Await Budgets.Result}
    (hp : stage p = some (.returning, k)) (hn : after (charge key) n = 0) : Cools key t (t.decr k) p n := by
  have hpass := after_pass_le key n
  have hadmission : admission key p n = 0 := by
    have hle := admission_le_pass key p n
    simpa [pass, hp] using hle
  by_cases hk : key = k
  · subst hk
    exact .returned hp rfl hn (by omega) hadmission
  · exact .idle (live_decrBy_of_ne hk 1) (by omega) (by omega)

theorem cools_lost {key : CounterKey} {t : State} {p : Budgets.Await} {n : Next Budgets.Await Budgets.Result}
    (hadmits : admits p n = none) (hn : after (charge key) n = 0) : Cools key t t p n := by
  have hpass := after_pass_le key n
  have hadmission : admission key p n = 0 := by simp [admission, hadmits]
  exact .idle rfl (by omega) (by omega)

theorem cools_of_aside {p : Sending.Await} {t : State} {n : Next Sending.Await Sending.Result} (hp : p.Aside)
    (hn : (t, n) ∈ cfg.toConfig.access s.state p) : Cools (.cooldown a c) s.state t (.send p) (sendNext n) := by
  obtain ⟨hnow, hcounters, hnext⟩ := access_aside hp hn
  have hcharge : ∀ q : Sending.Await, q.Aside → charge (.cooldown a c) (.send q) = 0 := by
    intro q hq
    cases q <;> first | rfl | exact hq.elim
  refine .apart (by rw [State.live, State.live, hnow, hcounters]) (hcharge p hp) ?_
  cases n with
  | done r => rfl
  | await q =>
    rcases hnext q rfl with hq | ⟨args, previous, replyTo, rfl⟩
    · exact hcharge q hq
    · rfl

/-- The outcomes of an access of `sendBroadcast`. -/
theorem cools_of_sendAccess {p : Sending.Await} {t : State} {n : Next Sending.Await Sending.Result}
    (hn : (t, n) ∈ cfg.toConfig.access s.state p) : Cools (.cooldown a c) s.state t (.send p) (sendNext n) := by
  cases p with
  | moveToSending args previous replyTo =>
    simp only [Sending.Config.access, List.mem_cons, Prod.mk.injEq, List.mem_nil_iff, or_false] at hn
    rcases hn with ⟨rfl, rfl⟩ | ⟨rfl, rfl⟩ | ⟨rfl, rfl⟩
    · refine .apart (live_transition ..) rfl ?_
      split
      · split
        · split <;> rfl
        · rfl
      · rfl
    · exact .apart rfl rfl rfl
    · exact .apart (live_transition ..) rfl rfl
  | chargeCooldown args previous moved =>
    simp only [Sending.Config.access, List.mem_cons, Prod.mk.injEq, List.mem_nil_iff, or_false] at hn
    rcases hn with ⟨rfl, rfl⟩ | ⟨rfl, rfl⟩ | ⟨rfl, rfl⟩
    · refine cools_incr rfl fun q hq => ?_
      split at hq
      · cases hq
        exact .inr (.inl rfl)
      · next hle =>
        cases hq
        exact .inr (.inr ⟨rfl, not_lt.mp hle⟩)
    · exact .apart rfl rfl rfl
    · refine cools_incr rfl fun q hq => ?_
      cases hq
      exact .inl rfl
  | chargeEvent args previous moved =>
    simp only [Sending.Config.access, List.mem_cons, Prod.mk.injEq, List.mem_nil_iff, or_false] at hn
    have hlive : (s.state.incr (args.eventKey (utcDay s.state.now)) SECONDS_PER_DAY).live (.cooldown a c) =
        s.state.live (.cooldown a c) := live_incrBy_of_ne (by simp [Args.eventKey]) 1 SECONDS_PER_DAY
    rcases hn with ⟨rfl, rfl⟩ | ⟨rfl, rfl⟩ | ⟨rfl, rfl⟩
    · split
      · exact cools_refused hlive (.inl rfl) (.inl rfl) rfl
      · exact cools_admitted hlive rfl rfl rfl
    · exact cools_refused rfl (.inl rfl) (.inr rfl) rfl
    · exact cools_refused hlive (.inl rfl) (.inr rfl) rfl
  | giveBackEvent args previous day error =>
    simp only [Sending.Config.access, List.mem_cons, Prod.mk.injEq, List.mem_nil_iff, or_false] at hn
    have hlive : (s.state.decr (args.eventKey day)).live (.cooldown a c) = s.state.live (.cooldown a c) :=
      live_decrBy_of_ne (by simp [Args.eventKey]) 1
    rcases hn with ⟨rfl, rfl⟩ | ⟨rfl, rfl⟩ | ⟨rfl, rfl⟩
    · exact cools_refused hlive (.inr rfl) (.inr rfl) rfl
    · exact cools_refused rfl (.inr rfl) (.inr rfl) rfl
    · exact cools_refused hlive (.inr rfl) (.inr rfl) rfl
  | giveBackCooldown args previous error =>
    simp only [Sending.Config.access, List.mem_cons, Prod.mk.injEq, List.mem_nil_iff, or_false] at hn
    rcases hn with ⟨rfl, rfl⟩ | ⟨rfl, rfl⟩ | ⟨rfl, rfl⟩
    · exact cools_decr rfl rfl
    · exact cools_lost rfl rfl
    · exact cools_decr rfl rfl
  | killSwitch | hostState | findDraft | eventContext | rollBack | enqueuePlan | releaseUnplannedSend =>
    exact cools_of_aside (by trivial) hn

/-- A call of a dependency that may throw, before or after it took effect. -/
theorem cools_of_fallible {key : CounterKey} {p : Budgets.Await} {t : State}
    {next failure n : Next Budgets.Await Budgets.Result}
    (hn : (s', n) ∈ fallible s t next failure) (hnext : Cools key s.state t p next)
    (hfailure : Cools key s.state s.state p failure) (hlate : Cools key s.state t p failure) :
    Cools key s.state s'.state p n := by
  simp only [fallible, List.mem_cons, Prod.mk.injEq, List.mem_nil_iff, or_false] at hn
  rcases hn with ⟨rfl, rfl⟩ | ⟨rfl, rfl⟩ | ⟨rfl, rfl⟩
  · exact hnext
  · exact hfailure
  · exact hlate

theorem cools_of_access {p : Budgets.Await} {n : Next Budgets.Await Budgets.Result} (hn : (s', n) ∈ cfg.access s p) :
    Cools (.cooldown a c) s.state s'.state p n := by
  cases p with
  | send p =>
    obtain ⟨⟨t, x⟩, hx, heq⟩ := List.mem_map.mp hn
    cases heq
    exact cools_of_sendAccess hx
  | slotKillSwitch c' a' =>
    refine cools_of_fallible hn (.apart rfl rfl ?_) (.apart rfl rfl rfl) (.apart rfl rfl rfl)
    split <;> rfl
  | slotHostState c' a' =>
    refine cools_of_fallible hn (.apart rfl rfl ?_) (.apart rfl rfl rfl) (.apart rfl rfl rfl)
    split <;> rfl
  | slotCooldown c' a' =>
    refine cools_of_fallible hn (cools_incr rfl fun q hq => ?_) (.apart rfl rfl rfl) (cools_incr rfl fun q hq => ?_)
    · split at hq
      · cases hq
        exact .inr (.inl rfl)
      · next hle =>
        cases hq
        exact .inr (.inr ⟨rfl, not_lt.mp hle⟩)
    · cases hq
  | slotEvent c' a' =>
    have hlive : (s.state.incr (.event c' (utcDay s.state.now)) SECONDS_PER_DAY).live (.cooldown a c) =
        s.state.live (.cooldown a c) := live_incrBy_of_ne (by simp) 1 SECONDS_PER_DAY
    simp only [Budgets.Config.access] at hn
    split at hn
    · exact cools_of_fallible hn (cools_refused hlive (.inl rfl) (.inl rfl) rfl)
        (cools_refused rfl (.inl rfl) (.inr rfl) rfl) (cools_refused hlive (.inl rfl) (.inr rfl) rfl)
    · simp only [List.mem_cons, Prod.mk.injEq, List.mem_nil_iff, or_false] at hn
      rcases hn with ⟨rfl, rfl⟩ | ⟨rfl, rfl⟩ | ⟨rfl, rfl⟩
      · exact cools_admitted hlive rfl rfl rfl
      · exact cools_refused rfl (.inl rfl) (.inr rfl) rfl
      · exact cools_refused hlive (.inl rfl) (.inr rfl) rfl
  | slotGiveBackEvent c' a' day error =>
    have hlive : (s.state.decr (.event c' day)).live (.cooldown a c) = s.state.live (.cooldown a c) :=
      live_decrBy_of_ne (by simp) 1
    exact cools_of_fallible hn (cools_refused hlive (.inr rfl) (.inr rfl) rfl)
      (cools_refused rfl (.inr rfl) (.inr rfl) rfl) (cools_refused hlive (.inr rfl) (.inr rfl) rfl)
  | slotGiveBackCooldown c' a' error =>
    exact cools_of_fallible hn (cools_decr rfl rfl) (cools_lost rfl rfl) (cools_decr rfl rfl)
  | granted =>
    simp only [Budgets.Config.access, List.mem_singleton, Prod.mk.injEq] at hn
    obtain ⟨rfl, rfl⟩ := hn
    exact .apart rfl rfl rfl
  | chargeRecipients a' m =>
    have hlive : (s.state.incrBy (.host a' (utcDay s.state.now)) m SECONDS_PER_DAY).live (.cooldown a c) =
        s.state.live (.cooldown a c) := live_incrBy_of_ne (by simp) m SECONDS_PER_DAY
    simp only [Budgets.Config.access] at hn
    split at hn
    · simp only [List.mem_cons, Prod.mk.injEq, List.mem_nil_iff, or_false] at hn
      rcases hn with ⟨rfl, rfl⟩ | ⟨rfl, rfl⟩ | ⟨rfl, rfl⟩
      · exact .apart hlive rfl rfl
      · exact .apart rfl rfl rfl
      · exact .apart hlive rfl rfl
    · exact cools_of_fallible hn (.apart hlive rfl rfl) (.apart rfl rfl rfl) (.apart hlive rfl rfl)
  | giveBackRecipients a' day m =>
    have hlive : (s.state.decrBy (.host a' day) m).live (.cooldown a c) = s.state.live (.cooldown a c) :=
      live_decrBy_of_ne (by simp) m
    exact cools_of_fallible hn (.apart hlive rfl rfl) (.apart rfl rfl rfl) (.apart hlive rfl rfl)

end Access

/-! ## Whole runs -/

/-- One if the call holds a charge of that lifetime of the key. -/
def holds (key : CounterKey) (n : ℕ) (c : Call Budgets.Request Await) : ℕ :=
  if c.await.lifetime = n then charge key c.await.await else 0

def passes (key : CounterKey) (n : ℕ) (c : Call Budgets.Request Await) : ℕ :=
  if c.await.lifetime = n then pass key c.await.await else 0

/-- The sends that were let through under a lifetime of the key, and the charges on it still held. -/
def taken (key : CounterKey) (n : ℕ) (w : World) : ℕ := w.shared.sends.count (key, n) + w.total (holds key n)

/-- The sends that were let through under a lifetime of the key, or may still be. -/
def chances (key : CounterKey) (n : ℕ) (w : World) : ℕ := w.shared.sends.count (key, n) + w.total (passes key n)

theorem chances_le_taken (key : CounterKey) (n : ℕ) (w : World) : chances key n w ≤ taken key n w := by
  refine Nat.add_le_add_left (World.total_le_total fun c => ?_) _
  unfold passes holds
  split
  · exact pass_le_charge key c.await.await
  · exact le_rfl

/-- The invariant of a run. Nothing belongs to a lifetime that has not begun; while the key
lives, what its lifetime took is counted; and no lifetime has two chances. -/
structure Kept (key : CounterKey) (w : World) : Prop where
  unopened : ∀ n, w.shared.opened key < n → taken key n w = 0
  counted : ∀ x ∈ w.shared.state.live key, taken key (w.shared.opened key) w ≤ x.count
  single : ∀ n, chances key n w ≤ 1

/-- A move that takes nothing of the key. -/
theorem Kept.mono {key : CounterKey} {w w' : World} (hw : Kept key w)
    (hopened : w'.shared.opened key = w.shared.opened key)
    (hlive : w'.shared.state.live key = w.shared.state.live key ∨ w'.shared.state.live key = none)
    (htaken : ∀ n, taken key n w' ≤ taken key n w) (hchances : ∀ n, chances key n w' ≤ chances key n w) :
    Kept key w' := by
  refine ⟨fun n hn => ?_, fun x hx => ?_, fun n => (hchances n).trans (hw.single n)⟩
  · have hzero := hw.unopened n (hopened ▸ hn)
    have hle := htaken n
    omega
  · rw [hopened]
    rcases hlive with h | h
    · exact (htaken _).trans (hw.counted x (h ▸ hx))
    · rw [h] at hx
      cases hx

section Record

variable {cfg : Budgets.Config} {key : CounterKey} {s : Shared} {p : Await} {b : Budgets.Shared}
  {n : Next Budgets.Await Budgets.Result}

theorem count_record (key : CounterKey) (m : ℕ) :
    (record s p (b, n)).1.sends.count (key, m) =
      s.sends.count (key, m) + if p.lifetime = m then admission key p.await n else 0 := by
  simp only [record, admission]
  cases hadmits : admits p.await n with
  | none => simp
  | some k =>
    by_cases hk : k = key
    · subst hk
      simp [List.count_cons]
    · simp [hk]

theorem held_nextAwait (f : CounterKey → Budgets.Await → ℕ) (key : CounterKey) (m lifetime : ℕ) (o : Budgets.Request) :
    Next.held (fun c : Call Budgets.Request Await => if c.await.lifetime = m then f key c.await.await else 0) o
      (nextAwait lifetime n) = if lifetime = m then after (f key) n else 0 := by
  cases n with
  | await q => rfl
  | done r => simp [nextAwait, Next.held, after]

theorem charge_of_charging {k : CounterKey} (h : stage p.await = some (.charging, k)) : charge key p.await = 0 := by
  simp only [charge, h]

theorem lifetimeAfter_of_charge (opened : CounterKey → ℕ) (h : charge key p.await ≠ 0) :
    lifetimeAfter opened p = p.lifetime := by
  unfold lifetimeAfter
  split
  · next k hk => exact absurd (charge_of_charging hk) h
  · rfl

theorem reopened_of_live {t t' : State} (opened : CounterKey → ℕ) (h : t'.live key = t.live key) :
    reopened opened t t' key = opened key := by
  unfold reopened
  rw [h, if_neg]
  rintro ⟨hnone, hsome⟩
  cases hl : t.live key <;> simp [hl] at hnone hsome

theorem live_decr_self {t : State} : (t.decr key).live key =
    (t.live key).map (fun x => { x with count := x.count - 1 }) := by
  unfold State.decr State.decrBy
  split
  · next h => simp [h]
  · next x hx =>
    obtain ⟨hfind, hlive⟩ := State.live_eq_some.mp hx
    rw [hx, Option.map_some, State.live_eq_some]
    refine ⟨?_, hlive⟩
    simp [Table.find?_put, Table.key_of_find? hfind]

end Record

section Step

variable {cfg : Budgets.Config} {w w' : World} {key : CounterKey} {c : Call Budgets.Request Await} {b : Budgets.Shared}
  {n : Next Budgets.Await Budgets.Result}

/-- What an access takes of a lifetime and what the call held of it, before and after. -/
structure Shifts (key : CounterKey) (c : Call Budgets.Request Await) (w w' : World) (b : Budgets.Shared)
    (n : Next Budgets.Await Budgets.Result) : Prop where
  shared : w'.shared = (record w.shared c.await (b, n)).1
  total : ∀ f, w'.total f + f c = w.total f + Next.held f c.origin
    (nextAwait (lifetimeAfter (reopened w.shared.opened w.shared.state b.state) c.await) n)

namespace Shifts

variable (h : Shifts key c w w' b n)
include h

theorem taken (m : ℕ) : taken key m w' + (if c.await.lifetime = m then charge key c.await.await else 0) =
    taken key m w + (if c.await.lifetime = m then admission key c.await.await n else 0) +
      if lifetimeAfter (reopened w.shared.opened w.shared.state b.state) c.await = m then after
        (charge key) n else 0 := by
  have hcount := count_record (s := w.shared) (p := c.await) (b := b) (n := n) key m
  have hsum : w'.total (holds key m) + holds key m c = _ :=
    (h.total (holds key m)).trans (congrArg _ (held_nextAwait charge key m _ c.origin))
  rw [← h.shared] at hcount
  unfold Cooldowns.taken
  simp only [holds] at hsum ⊢
  omega

theorem chances (m : ℕ) : chances key m w' + (if c.await.lifetime = m then pass key c.await.await else 0) =
    chances key m w + (if c.await.lifetime = m then admission key c.await.await n else 0) +
      if lifetimeAfter (reopened w.shared.opened w.shared.state b.state) c.await = m then after
        (pass key) n else 0 := by
  have hcount := count_record (s := w.shared) (p := c.await) (b := b) (n := n) key m
  have hsum : w'.total (passes key m) + passes key m c = _ :=
    (h.total (passes key m)).trans (congrArg _ (held_nextAwait pass key m _ c.origin))
  rw [← h.shared] at hcount
  unfold Cooldowns.chances
  simp only [passes] at hsum ⊢
  omega

theorem opened : w'.shared.opened key = reopened w.shared.opened w.shared.state b.state key := by
  rw [h.shared]
  rfl

theorem state : w'.shared.state = b.state := by
  rw [h.shared]
  rfl

end Shifts

/-- An access that only hands on what the call already holds. -/
theorem Kept.idle (hw : Kept key w) (h : Shifts key c w w' b n) (hlive : b.state.live key = w.shared.state.live key)
    (hcharge : admission key c.await.await n + after (charge key) n ≤ charge key c.await.await)
    (hpass : admission key c.await.await n + after (pass key) n ≤ pass key c.await.await) : Kept key w' := by
  have hopened : w'.shared.opened key = w.shared.opened key := h.opened.trans (reopened_of_live _ hlive)
  refine hw.mono hopened (.inl (by rw [h.state, hlive])) (fun m => ?_) (fun m => ?_)
  · have hsum := h.taken m
    by_cases hheld : charge key c.await.await = 0
    · simp only [show admission key c.await.await n = 0 by omega, show after (charge key) n = 0 by omega, hheld,
        ite_self] at hsum
      omega
    · rw [lifetimeAfter_of_charge _ hheld] at hsum
      split at hsum <;> omega
  · have hsum := h.chances m
    by_cases hheld : charge key c.await.await = 0
    · have hzero := pass_le_charge key c.await.await
      simp only [show admission key c.await.await n = 0 by omega, show after (pass key) n = 0 by omega,
        show pass key c.await.await = 0 by omega, ite_self] at hsum
      omega
    · rw [lifetimeAfter_of_charge _ hheld] at hsum
      split at hsum <;> omega

/-- The charge of the key: it belongs to the lifetime that the key is in afterwards. -/
theorem Kept.charged (hw : Kept key w) (h : Shifts key c w w' b n)
    (hstage : stage c.await.await = some (.charging, key))
    (hlive : ∃ e, b.state.live key = some ⟨key, w.shared.state.value key + 1, e⟩) (hcharge : after (charge key) n ≤ 1)
    (hpass : after (pass key) n ≤ 1) (hfirst : w.shared.state.value key ≠ 0 → after (pass key) n = 0)
    (hadmission : admission key c.await.await n = 0) : Kept key w' := by
  obtain ⟨e, hlive⟩ := hlive
  have hcall : charge key c.await.await = 0 := charge_of_charging hstage
  have hnone : pass key c.await.await = 0 := Nat.le_zero.mp (hcall ▸ pass_le_charge key c.await.await)
  have hlifetime : lifetimeAfter (reopened w.shared.opened w.shared.state b.state) c.await = w'.shared.opened key := by
    rw [h.opened]
    simp only [lifetimeAfter, hstage]
  have htaken : ∀ m, taken key m w' = taken key m w + if w'.shared.opened key = m then after (charge key) n else 0 := by
    intro m
    have hsum := h.taken m
    simp only [hcall, hadmission, hlifetime, ite_self, Nat.add_zero] at hsum
    exact hsum
  have hchances : ∀ m, chances key m w' = chances key m w +
    if w'.shared.opened key = m then after (pass key) n else 0 := by
    intro m
    have hsum := h.chances m
    simp only [hnone, hadmission, hlifetime, ite_self, Nat.add_zero] at hsum
    exact hsum
  -- What the lifetime of the charge took before is what the counter showed.
  have hbefore : w.shared.opened key ≤ w'.shared.opened key ∧
      taken key (w'.shared.opened key) w ≤ w.shared.state.value key := by
    rw [h.opened, reopened]
    cases hl : w.shared.state.live key with
    | none =>
      rw [if_pos ⟨rfl, by rw [hlive]; rfl⟩]
      exact ⟨Nat.le_succ _, by rw [hw.unopened _ (Nat.lt_succ_self _)]; exact Nat.zero_le _⟩
    | some x =>
      rw [if_neg (by simp)]
      exact ⟨le_rfl, by simpa [State.value, hl] using hw.counted x hl⟩
  obtain ⟨hle, hbefore⟩ := hbefore
  refine ⟨fun m hm => ?_, fun x hx => ?_, fun m => ?_⟩
  · rw [htaken, if_neg (by omega), Nat.add_zero]
    exact hw.unopened m (by omega)
  · rw [h.state, hlive] at hx
    cases hx
    rw [htaken, if_pos rfl]
    exact Nat.add_le_add hbefore hcharge
  · rw [hchances]
    split
    · next hm =>
      subst hm
      by_cases hvalue : w.shared.state.value key = 0
      · have hzero := chances_le_taken key (w'.shared.opened key) w
        omega
      · rw [hfirst hvalue]
        exact hw.single _
    · exact hw.single m

/-- The give-back: in time, it takes from the lifetime what the call held of it. -/
theorem Kept.returned (hw : Kept key w) (h : Shifts key c w w' b n)
    (hstage : stage c.await.await = some (.returning, key))
    (hlive : b.state.live key = (w.shared.state.decr key).live key) (hcharge : after (charge key) n = 0)
    (hpass : after (pass key) n = 0) (hadmission : admission key c.await.await n = 0)
    (hintime : (w.shared.state.live key).isSome → c.await.lifetime = w.shared.opened key) : Kept key w' := by
  rw [live_decr_self] at hlive
  have hopened : w'.shared.opened key = w.shared.opened key := by
    rw [h.opened, reopened, if_neg]
    rw [hlive]
    cases w.shared.state.live key <;> simp
  have htaken : ∀ m, taken key m w' + (if c.await.lifetime = m then 1 else 0) = taken key m w := by
    intro m
    have hsum := h.taken m
    simp only [hcharge, hadmission, charge, hstage, ite_self, Nat.add_zero, ↓reduceIte] at hsum
    exact hsum
  have hchances : ∀ m, chances key m w' ≤ chances key m w := by
    intro m
    have hsum := h.chances m
    simp only [hpass, hadmission, ite_self, Nat.add_zero] at hsum
    omega
  cases hl : w.shared.state.live key with
  | none =>
    refine hw.mono hopened (.inr ?_) (fun m => Nat.le.intro (htaken m)) hchances
    rw [h.state, hlive, hl]
    rfl
  | some x =>
    refine ⟨fun m hm => ?_, fun y hy => ?_, fun m => (hchances m).trans (hw.single m)⟩
    · have hzero := hw.unopened m (hopened ▸ hm)
      have hsum := htaken m
      omega
    · rw [h.state, hlive, hl] at hy
      cases hy
      have hsum := htaken (w.shared.opened key)
      have hcount := hw.counted x hl
      rw [if_pos (hintime (by rw [hl]; rfl))] at hsum
      rw [hopened]
      exact Nat.le_sub_of_add_le (hsum.trans_le hcount)

theorem Kept.access {a : UserId} {e : IdText} (hw : Kept (.cooldown a e) w) (h : Shifts (.cooldown a e) c w w' b n)
    (hmem : (b, n) ∈ cfg.access w.shared.toShared c.await.await)
    (hintime : stage c.await.await = some (.returning, .cooldown a e) →
      (w.shared.state.live (.cooldown a e)).isSome → c.await.lifetime = w.shared.opened (.cooldown a e)) :
    Kept (.cooldown a e) w' := by
  cases cools_of_access (a := a) (c := e) hmem with
  | idle hlive hcharge hpass => exact hw.idle h hlive hcharge hpass
  | charged hstage hlive hcharge hpass hfirst hadmission =>
    exact hw.charged h hstage hlive hcharge hpass hfirst hadmission
  | returned hstage hlive hcharge hpass hadmission =>
    exact hw.returned h hstage hlive hcharge hpass hadmission (hintime hstage)

theorem Kept.step {a : UserId} {e : IdText} {m : Move} {r : Option Budgets.Result} (hw : Kept (.cooldown a e) w)
    (hok : ReturnsInTime w m) (hs : (machine cfg).step w m = some (w', r)) : Kept (.cooldown a e) w' := by
  rcases Machine.total_cases hs with ⟨o, p, he, htotal⟩ | ⟨i, k, c, n, rfl, hc, hn, htotal⟩ | ⟨heq, htotal⟩ | ⟨t,
    he, htotal⟩
  · obtain ⟨⟨b, q⟩, hb, heq⟩ := Option.map_eq_some_iff.mp he
    simp only [Prod.mk.injEq] at heq
    obtain ⟨hshared, rfl⟩ := heq
    obtain ⟨rfl, -⟩ := owed_of_enter (.cooldown a e) hb
    have hzero : charge (.cooldown a e) q = 0 := by
      cases o with
      | sendBroadcast args | reserveSendSlot c' a' =>
        cases hb
        rfl
      | reserveRecipientBudget a' n =>
        cases hb
        split <;> rfl
    have hpass := pass_le_charge (.cooldown a e) q
    have hsame : w'.shared = w.shared := hshared.symm
    refine hw.mono (by rw [hsame]) (.inl (by rw [hsame])) (fun m => ?_) (fun m => ?_)
    · rw [taken, taken, hsame, htotal, holds, hzero, ite_self, Nat.add_zero]
    · rw [chances, chances, hsame, htotal, passes, show pass (.cooldown a e) q = 0 by omega, ite_self, Nat.add_zero]
  · obtain ⟨⟨b, x⟩, hx, heq⟩ := List.mem_map.mp hn
    obtain ⟨hshared, rfl⟩ := Prod.mk.inj heq
    exact hw.access ⟨hshared.symm, htotal⟩ hx (fun hstage => hok c hc _ hstage rfl)
  · refine hw.mono (by rw [heq]) (.inl (by rw [heq])) (fun m => ?_) (fun m => ?_)
    · rw [taken, taken, heq]
      exact Nat.add_le_add_left (htotal _) _
    · rw [chances, chances, heq]
      exact Nat.add_le_add_left (htotal _) _
  · obtain ⟨b, hb, heq⟩ := Option.map_eq_some_iff.mp he
    obtain ⟨hle, rfl⟩ := environment_eq_some hb
    refine hw.mono (by rw [← heq]) ?_ (fun m => ?_) (fun m => ?_)
    · rw [← heq]
      exact live_tick hle _
    · rw [taken, taken, htotal, ← heq]
    · rw [chances, chances, htotal, ← heq]

end Step

/-- In every interleaving whose give-backs land in time, at most one send is let through under
any one lifetime of a cooldown key. -/
theorem one_send_per_lifetime {cfg : Budgets.Config} {t : State} {w : World}
    (h : Machine.Run (machine cfg) ReturnsInTime (initial t) w) (a : UserId) (e : IdText) (n : ℕ) :
    w.shared.sends.count (.cooldown a e, n) ≤ 1 := by
  have hinitial : Kept (.cooldown a e) (initial t) :=
    ⟨fun _ _ => rfl, fun _ _ => Nat.zero_le _, fun _ => Nat.zero_le _⟩
  have hkept : Kept (.cooldown a e) w := h.invariant hinitial (fun hv hok hs => hv.step hok hs)
  exact (Nat.le_add_right _ _).trans (hkept.single n)

/-- A third draft, and room for the three on one day. -/
def threeDrafts : State :=
  { twoDrafts with broadcasts := twoDrafts.broadcasts.insert { sampleDraft with id := 3 } }

def roomyConfig : Budgets.Config := { sampleConfig with perEventPerDay := 5, recipientsPerDay := 15 }

def promptGiveBack : List Move :=
  [.start (.sendBroadcast ⟨7, 4, 1, false⟩), .access 0 0, .access 0 0, .access 0 0, .access 0 0, .access 0 0,
    .access 0 0,
    .access 0 1, .access 0 0,
    .start (.sendBroadcast ⟨7, 4, 2, false⟩), .access 1 0, .access 1 0, .access 1 0, .access 1 0, .access 1 0,
      .access 1 0,
    .access 1 0, .access 1 0]

/-- Call 0 passes the cooldown and has its daily charge fail. The key expires, and call 1 charges a
new one and is let through; then the give-back of call 0 lands, and call 2 charges the key. -/
def lateGiveBack : List Move :=
  [.start (.sendBroadcast ⟨7, 4, 1, false⟩), .access 0 0, .access 0 0, .access 0 0, .access 0 0, .access 0 0,
    .access 0 0,
    .access 0 1, .environment (threeDrafts.now + roomyConfig.cooldownSec * 1000),
    .start (.sendBroadcast ⟨7, 4, 2, false⟩), .access 1 0, .access 1 0, .access 1 0, .access 1 0, .access 1 0,
      .access 1 0,
    .access 1 0, .access 1 0, .access 0 0,
    .start (.sendBroadcast ⟨7, 4, 3, false⟩), .access 2 0, .access 2 0, .access 2 0, .access 2 0, .access 2 0,
      .access 2 0,
    .access 2 0, .access 2 0]

/-- Call 0 gives its charge back while the key lives, and call 1 is let through in its place. -/
theorem one_send_per_lifetime_givenBack :
    ∃ w : World, Machine.Run (machine roomyConfig) ReturnsInTime (initial threeDrafts) w ∧
      w.shared.sends = [(.cooldown 4 7, 1)] ∧ w.shared.sends.count (.cooldown 4 7, 1) ≤ 1 := by
  have hallowed : Machine.Allowed (machine roomyConfig) ReturnsInTime (initial threeDrafts) promptGiveBack := by
    decide +kernel
  have hrun : ∃ w ∈ (machine roomyConfig).perform (initial threeDrafts) promptGiveBack,
      w.shared.sends = [(.cooldown 4 7, 1)] := by
    decide +kernel
  obtain ⟨w, hw, hsends⟩ := hrun
  have hreach := Machine.run_of_perform hallowed hw
  exact ⟨w, hreach, hsends, one_send_per_lifetime hreach 4 7 1⟩

/-- Calls 1 and 2 are both let through under the second lifetime of the key. -/
theorem not_one_send_per_lifetime :
    ¬ ∀ (cfg : Budgets.Config) (t : State) (w : World),
      Machine.Run (machine cfg) (fun _ _ => True) (initial t) w →
      ∀ a e n, w.shared.sends.count (.cooldown a e, n) ≤ 1 := by
  intro hclaim
  have hrun : ∃ w ∈ (machine roomyConfig).perform (initial threeDrafts) lateGiveBack,
      w.shared.sends.count (.cooldown 4 7, 2) = 2 ∧ w.shared.state.plans = [3, 2] := by
    decide +kernel
  obtain ⟨w, hw, htwo, -⟩ := hrun
  have hle := hclaim roomyConfig threeDrafts w (Machine.free_of_perform hw) 4 7 2
  rw [htwo] at hle
  exact absurd hle (by decide)

end Civfix.Broadcasts.Cooldowns
