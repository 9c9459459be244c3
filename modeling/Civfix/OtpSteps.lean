import Civfix.OtpService

/-! # What one access of an OTP call can do

`Effect` says what an access does to the codes and to the two logs; the lemmas after it say
from which await, and with which values, a call gets to the awaits that matter. Everything
later is derived from these. -/
namespace Civfix.Otps

open KeyedTables InterleavedCalls

/-- A later version of a code: counted attempts and consumption are never taken back. -/
structure Otp.Grows (o o' : Otp) : Prop where
  email : o'.email = o.email
  expiresAt : o'.expiresAt = o.expiresAt
  attempts : o.attempts ≤ o'.attempts
  consumed : ¬ o.Active → ¬ o'.Active

theorem Otp.Grows.refl (o : Otp) : o.Grows o := ⟨rfl, rfl, le_rfl, fun h => h⟩

theorem Otp.grows_consume (t : Instant) (o : Otp) : o.Grows (o.consume t) :=
  ⟨rfl, rfl, le_rfl, fun _ h => by cases h⟩

theorem Otp.grows_attempt (o : Otp) : o.Grows o.attempt := ⟨rfl, rfl, Nat.le_succ _, fun h => h⟩

/-- A code of the email that can still be claimed. -/
def Otp.ActiveFor (email : Email) (o : Otp) : Prop := o.email = email ∧ o.Active

namespace Await

/-- The code that a verification is about, with the clock it started at. -/
def code : Await → Option (Instant × Otp)
  | .codeThrottle _ now row | .consumeThrottled now row | .increment _ now row | .consumeSpent _ now row _
  | .compare _ now row _ | .claim _ now row => some (now, row)
  | _ => none

/-- A comparison that is about to be made: the code and the number of the attempt. -/
def guess : Await → Option (OtpId × ℕ)
  | .compare _ _ row n => some (row.id, n)
  | _ => none

/-- The email whose old codes are gone and whose new code is not there yet. -/
def inserts : Await → Option Email
  | .insert i => some i.email
  | _ => none

end Await

/-- What an access does to the codes and the logs. -/
inductive Effect (s s' : Shared) : Await → Prop where
  | none (p : Await) (hnow : s'.now = s.now) (hotps : s'.otps = s.otps) (hcompared : s'.compared = s.compared)
      (hsucceeded : s'.succeeded = s.succeeded) : Effect s s' p
  | invalidate (i : Issue) (hs : s' = s.invalidateActiveForEmail i.email) : Effect s s' (.invalidate i)
  | insert (i : Issue) (hid : s.otps.find? i.otpId = .none) (hs : s' = s.insertOtp i.otpId i.email i.codeHash) :
      Effect s s' (.insert i)
  | increment (v : Verify) (now : Instant) (row : Otp) (hs : s' = s.incrementAttempts row.id) :
      Effect s s' (.increment v now row)
  | consume (p : Await) (id : OtpId) (now : Instant) (hs : s' = s.markConsumed id now) : Effect s s' p
  | compare (v : Verify) (now : Instant) (row : Otp) (n : ℕ)
      (hs : s' = { s with compared := (row.id, n) :: s.compared }) : Effect s s' (.compare v now row n)
  | claim (v : Verify) (now : Instant) (row o : Otp) (ho : s.claimable row.id = some o)
      (hs : s' = { s.markConsumed row.id now with succeeded := ⟨o, now, s.now⟩ :: s.succeeded }) :
      Effect s s' (.claim v now row)

theorem mem_fallible {s s' x : Shared} {next failure n : Next Await Result} (h : (x, n) ∈ fallible s s' next failure) :
    (x = s' ∧ n = next) ∨ (n = failure ∧ (x = s ∨ x = s')) := by
  simp only [fallible, List.mem_cons, Prod.mk.injEq, List.mem_nil_iff, or_false] at h
  tauto

variable {cfg : Config} {s s' : Shared} {p : Await} {n : Next Await Result}

theorem Effect.of_fallible {s₁ : Shared} {next failure : Next Await Result} (h : (s', n) ∈ fallible s s₁ next failure)
    (hs₁ : Effect s s₁ p) : Effect s s' p := by
  rcases mem_fallible h with ⟨rfl, -⟩ | ⟨-, rfl | rfl⟩
  · exact hs₁
  · exact .none p rfl rfl rfl rfl
  · exact hs₁

theorem access_effect (h : (s', n) ∈ cfg.access s p) : Effect s s' p := by
  cases p with
  | answer r =>
    simp only [Config.access, List.mem_singleton, Prod.mk.injEq] at h
    exact .none _ (by rw [h.1]) (by rw [h.1]) (by rw [h.1]) (by rw [h.1])
  | issueIp i ip => exact Effect.of_fallible h (.none _ rfl rfl rfl rfl)
  | issueEmail i => exact Effect.of_fallible h (.none _ rfl rfl rfl rfl)
  | invalidate i => exact Effect.of_fallible h (.invalidate i rfl)
  | insert i =>
    simp only [Config.access] at h
    split at h
    · simp only [List.mem_singleton, Prod.mk.injEq] at h
      exact .none _ (by rw [h.1]) (by rw [h.1]) (by rw [h.1]) (by rw [h.1])
    · next hid => exact Effect.of_fallible h (.insert i (by simpa using hid) rfl)
  | account i => exact Effect.of_fallible h (.none _ rfl rfl rfl rfl)
  | mail i => exact Effect.of_fallible h (.none _ rfl rfl rfl rfl)
  | releaseIssue i => exact Effect.of_fallible h (.none _ rfl rfl rfl rfl)
  | ipThrottle v now ip => exact Effect.of_fallible h (.none _ rfl rfl rfl rfl)
  | testAccount v =>
    simp only [Config.access, List.append_eq, List.mem_append, List.mem_singleton, Prod.mk.injEq] at h
    rcases h with h | h
    · exact Effect.of_fallible h (.none _ rfl rfl rfl rfl)
    · exact .none _ (by rw [h.1]) (by rw [h.1]) (by rw [h.1]) (by rw [h.1])
  | findLatest v now =>
    simp only [Config.access] at h
    split at h
    · exact Effect.of_fallible h (.none _ rfl rfl rfl rfl)
    · simp only [List.append_eq, List.mem_append, List.mem_map, List.mem_singleton, Prod.mk.injEq] at h
      rcases h with ⟨row, -, h, -⟩ | h
      · exact .none _ (by rw [h]) (by rw [h]) (by rw [h]) (by rw [h])
      · exact .none _ (by rw [h.1]) (by rw [h.1]) (by rw [h.1]) (by rw [h.1])
  | codeThrottle v now row => exact Effect.of_fallible h (.none _ rfl rfl rfl rfl)
  | consumeThrottled now row => exact Effect.of_fallible h (.consume _ row.id now rfl)
  | increment v now row => exact Effect.of_fallible h (.increment v now row rfl)
  | consumeSpent v now row message => exact Effect.of_fallible h (.consume _ row.id now rfl)
  | compare v now row k =>
    simp only [Config.access, List.mem_singleton, Prod.mk.injEq] at h
    exact .compare v now row k h.1
  | bumpCode v id message => exact Effect.of_fallible h (.none _ rfl rfl rfl rfl)
  | bumpIp ip message => exact Effect.of_fallible h (.none _ rfl rfl rfl rfl)
  | claim v now row =>
    simp only [Config.access] at h
    split at h
    · exact Effect.of_fallible h (.none _ rfl rfl rfl rfl)
    · next o ho =>
      simp only [List.mem_cons, Prod.mk.injEq, List.mem_nil_iff, or_false] at h
      rcases h with ⟨hs, -⟩ | ⟨rfl, -⟩ | ⟨hs, -⟩
      · exact .claim v now row o ho hs
      · exact .none _ rfl rfl rfl rfl
      · exact .consume _ row.id now hs
  | releaseCooldown v => exact Effect.of_fallible h (.none _ rfl rfl rfl rfl)

theorem Effect.grows (h : Effect s s' p) (id : OtpId) : Table.PersistAt Otp.Grows id s.otps s'.otps := by
  have hconsume : ∀ f t, Table.PersistAt Otp.Grows id s.otps (s.otps.update f (Otp.consume t) (fun _ => rfl)) :=
    fun f t => .update .refl id s.otps f (Otp.consume t) (fun _ => rfl) (fun o _ => o.grows_consume t)
  cases h with
  | none _ _ hotps _ _ => exact hotps ▸ .refl .refl id _
  | invalidate i hs => exact hs ▸ hconsume _ _
  | insert i _ hs => exact hs ▸ .insert .refl id _ _
  | increment v now row hs => exact hs ▸ .modify .refl id _ row.id Otp.attempt (fun _ => rfl) Otp.grows_attempt
  | consume _ id' now hs => exact hs ▸ hconsume _ _
  | compare v now row n hs => exact hs ▸ .refl .refl id _
  | claim v now row o _ hs => exact hs ▸ hconsume _ _

theorem Effect.now_eq (h : Effect s s' p) : s'.now = s.now := by
  cases h with
  | none _ hnow _ _ _ => exact hnow
  | invalidate _ hs | insert _ _ hs | increment _ _ _ hs | consume _ _ _ hs | compare _ _ _ _ hs
  | claim _ _ _ _ _ hs =>
    subst hs
    rfl

/-- Only the insertion of a code gives an email a new one. -/
theorem Effect.noNew_or_insert (h : Effect s s' p) (email : Email) :
    Table.NoNew (Otp.ActiveFor email) s.otps s'.otps ∨
      (p.inserts = some email ∧ ∃ o, s'.otps = s.otps.insert o) := by
  have hconsume : ∀ f t, Table.NoNew (Otp.ActiveFor email) s.otps (s.otps.update f (Otp.consume t) (fun _ => rfl)) :=
    fun f t => .update s.otps f (Otp.consume t) (fun _ => rfl) (fun o _ ho => by cases ho.2)
  cases h with
  | none _ _ hotps _ _ => exact .inl (hotps ▸ .refl _ _)
  | invalidate i hs => exact .inl (hs ▸ hconsume _ _)
  | insert i _ hs =>
    by_cases hi : i.email = email
    · exact .inr ⟨by rw [Await.inserts, hi], _, congrArg Shared.otps hs⟩
    · exact .inl (hs ▸ .insert _ _ (fun ho => hi ho.1))
  | increment v now row hs => exact .inl (hs ▸ .modify _ row.id Otp.attempt (fun _ => rfl) (fun o _ ho => ho))
  | consume _ id' now hs => exact .inl (hs ▸ hconsume _ _)
  | compare v now row n hs => exact .inl (hs ▸ .refl _ _)
  | claim v now row o _ hs => exact .inl (hs ▸ hconsume _ _)

/-! ## Where a call comes from -/

/-- A call that awaits something unrelated to the codes. -/
def Await.Idle (q : Await) : Prop := q.code = none ∧ q.guess = none ∧ q.inserts = none

/-- Such a call, or one that has ended. -/
def idle : Next Await Result → Prop
  | .await q => q.Idle
  | .done _ => True

theorem idle_bumpIpThen (ip : Option IpBucket) (message : String) : idle (Config.bumpIpThen ip message) := by
  cases ip with
  | none => trivial
  | some ip => exact ⟨rfl, rfl, rfl⟩

theorem idle_afterThrottle (v : Verify) (now : Instant) : idle (cfg.afterThrottle v now) := by
  unfold Config.afterThrottle
  split
  · split
    · trivial
    · exact idle_bumpIpThen v.ip _
  · split
    · split
      · exact ⟨rfl, rfl, rfl⟩
      · exact idle_bumpIpThen v.ip _
    · exact ⟨rfl, rfl, rfl⟩

theorem idle_failing : idle failing := trivial

theorem idle_of_fallible {s₁ : Shared} {next failure : Next Await Result} (h : (s', n) ∈ fallible s s₁ next failure)
    (hnext : idle next) (hfailure : idle failure) : idle n := by
  rcases mem_fallible h with ⟨-, rfl⟩ | ⟨rfl, -⟩
  · exact hnext
  · exact hfailure

/-- How a call gets to an await that is about a code. -/
inductive Leads (cfg : Config) (s s' : Shared) : Await → Await → Prop where
  | idle (p q : Await) (hq : q.Idle) : Leads cfg s s' p q
  | found (v : Verify) (now : Instant) (row : Otp) (hrow : row ∈ s.findLatestActive v.email now) :
      Leads cfg s s' (.findLatest v now) (.codeThrottle v now row)
  | kept (p q : Await) (now : Instant) (row : Otp) (hp : p.code = some (now, row)) (hq : q.code = some (now, row))
      (hguess : q.guess = none) (hinserts : q.inserts = none) : Leads cfg s s' p q
  | guess (v : Verify) (now : Instant) (row : Otp) (hle : s.attemptsAfter row.id ≤ OTP_MAX_ATTEMPTS)
      (hs : s' = s.incrementAttempts row.id) :
      Leads cfg s s' (.increment v now row) (.compare v now row (s.attemptsAfter row.id))
  | insert (i : Issue) (hs : s' = s.invalidateActiveForEmail i.email) : Leads cfg s s' (.invalidate i) (.insert i)

theorem leads_of_idle {q : Await} (h : idle n) (hn : n = .await q) : Leads cfg s s' p q := by
  subst hn
  exact .idle p q h

theorem access_leads {q : Await} (h : (s', .await q) ∈ cfg.access s p) : Leads cfg s s' p q := by
  generalize hn : (Next.await q : Next Await Result) = n at h
  have hof : ∀ {s₁ : Shared} {next failure : Next Await Result}, (s', n) ∈ fallible s s₁ next failure → idle next →
      idle failure → Leads cfg s s' p q := fun hmem h₁ h₂ => leads_of_idle (idle_of_fallible hmem h₁ h₂) hn.symm
  cases p with
  | answer r =>
    simp only [Config.access, List.mem_singleton, Prod.mk.injEq] at h
    rw [h.2] at hn
    cases hn
  | issueIp i ip =>
    refine hof h ?_ idle_failing
    split
    · trivial
    · exact ⟨rfl, rfl, rfl⟩
  | issueEmail i =>
    refine hof h ?_ idle_failing
    split
    · trivial
    · exact ⟨rfl, rfl, rfl⟩
  | invalidate i =>
    rcases mem_fallible h with ⟨hs, rfl⟩ | ⟨rfl, -⟩
    · cases hn
      exact .insert i hs
    · cases hn
      exact .idle _ _ ⟨rfl, rfl, rfl⟩
  | insert i =>
    simp only [Config.access] at h
    split at h
    · simp only [List.mem_singleton, Prod.mk.injEq] at h
      refine leads_of_idle (n := n) ?_ hn.symm
      rw [h.2]
      exact ⟨rfl, rfl, rfl⟩
    · exact hof h ⟨rfl, rfl, rfl⟩ ⟨rfl, rfl, rfl⟩
  | account i => exact hof h ⟨rfl, rfl, rfl⟩ ⟨rfl, rfl, rfl⟩
  | mail i => exact hof h trivial ⟨rfl, rfl, rfl⟩
  | releaseIssue i => exact hof h trivial trivial
  | ipThrottle v now ip =>
    refine hof h ?_ idle_failing
    split
    · trivial
    · exact idle_afterThrottle v now
  | testAccount v =>
    simp only [Config.access, List.append_eq, List.mem_append, List.mem_singleton, Prod.mk.injEq] at h
    rcases h with h | h
    · exact hof h trivial trivial
    · exact leads_of_idle (h.2 ▸ idle_bumpIpThen v.ip _) hn.symm
  | findLatest v now =>
    simp only [Config.access] at h
    split at h
    · exact hof h (idle_bumpIpThen v.ip _) idle_failing
    · simp only [List.append_eq, List.mem_append, List.mem_map, List.mem_singleton, Prod.mk.injEq] at h
      rcases h with ⟨row, hrow, -, rfl⟩ | h
      · cases hn
        exact .found v now row hrow
      · rw [h.2] at hn
        cases hn
  | codeThrottle v now row =>
    rcases mem_fallible h with ⟨-, rfl⟩ | ⟨rfl, -⟩
    · split at hn <;> cases hn <;> exact .kept _ _ now row rfl rfl rfl rfl
    · cases hn
  | consumeThrottled now row => exact hof h trivial trivial
  | increment v now row =>
    rcases mem_fallible h with ⟨hs, rfl⟩ | ⟨rfl, -⟩
    · split at hn
      · cases hn
        exact .kept _ _ now row rfl rfl rfl rfl
      · next hle =>
        cases hn
        exact .guess v now row (not_lt.mp hle) hs
    · cases hn
  | consumeSpent v now row message => exact hof h ⟨rfl, rfl, rfl⟩ trivial
  | compare v now row k =>
    simp only [Config.access, List.mem_singleton, Prod.mk.injEq] at h
    rw [h.2] at hn
    split at hn
    · cases hn
      exact .kept _ _ now row rfl rfl rfl rfl
    · split at hn
      · cases hn
        exact .kept _ _ now row rfl rfl rfl rfl
      · cases hn
        exact .idle _ _ ⟨rfl, rfl, rfl⟩
  | bumpCode v id message => exact hof h (idle_bumpIpThen v.ip _) idle_failing
  | bumpIp ip message => exact hof h trivial trivial
  | claim v now row =>
    simp only [Config.access] at h
    split at h
    · exact hof h trivial trivial
    · simp only [List.mem_cons, Prod.mk.injEq, List.mem_nil_iff, or_false] at h
      rcases h with ⟨-, rfl⟩ | ⟨-, rfl⟩ | ⟨-, rfl⟩
      · cases hn
        exact .idle _ _ ⟨rfl, rfl, rfl⟩
      · cases hn
      · cases hn
  | releaseCooldown v => exact hof h trivial trivial

/-- A call starts with nothing in hand. -/
theorem enter_idle {o : Request} (h : cfg.enter s o = some (s', p)) : s' = s ∧ p.Idle := by
  cases o with
  | issueOtp i =>
    simp only [Config.enter] at h
    split at h
    · cases h
      exact ⟨rfl, rfl, rfl, rfl⟩
    · split at h <;> cases h <;> exact ⟨rfl, rfl, rfl, rfl⟩
  | proveInbox v =>
    simp only [Config.enter] at h
    split at h
    · cases h
      exact ⟨rfl, rfl, rfl, rfl⟩
    · have hidle : idle (cfg.afterThrottle v s.now) := idle_afterThrottle v s.now
      split at h
      · next q hq =>
        cases h
        rw [hq] at hidle
        exact ⟨rfl, hidle⟩
      · cases h
        exact ⟨rfl, rfl, rfl, rfl⟩

theorem environment_eq_some {t : Instant} (h : Config.environment s t = some s') :
    s.now ≤ t ∧ s' = { s with now := t } := by
  unfold Config.environment at h
  split at h
  · next hle => exact ⟨hle, (Option.some.inj h).symm⟩
  · cases h

end Civfix.Otps
