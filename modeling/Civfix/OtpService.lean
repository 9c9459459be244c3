import Civfix.KeyedTables
import Civfix.InterleavedCalls

/-! # One-time codes

The methods `issueOtp` and `proveInbox` of `OtpService`, cut at their awaits. The codes are
rows of `email_otps`; the cooldown of an email and the failure counts live in a shared cache,
whose keys expire. Emails are normalised and an IP is its bucket. A store or cache operation
that throws may have taken effect or not. `verifies` is the password hash's own check.

The two logs of the shared state are a record that no call reads: every comparison of a
guess, and every verification that ended in a sign-in. -/
namespace Civfix.Otps

open KeyedTables InterleavedCalls

abbrev OtpId := ℕ
abbrev Instant := ℕ
abbrev Email := String
abbrev IpBucket := String

def OTP_TTL_SECONDS : ℕ := 5 * 60
def OTP_MAX_ATTEMPTS : ℕ := 3
def OTP_EMAIL_WINDOW_SECONDS : ℕ := 60
def OTP_IP_WINDOW_SECONDS : ℕ := 60 * 60
def OTP_IP_MAX_PER_WINDOW : ℕ := 10
def OTP_VERIFY_FAIL_WINDOW_SECONDS : ℕ := 15 * 60
def OTP_VERIFY_CODE_FAIL_MAX : ℕ := 5
def OTP_VERIFY_IP_FAIL_MAX : ℕ := 30

def INVALID_CODE_MESSAGE : String := "Invalid or expired code."
def TOO_MANY_INCORRECT_MESSAGE : String := "Too many incorrect attempts. Request a new code."
def TOO_MANY_ATTEMPTS_MESSAGE : String := "Too many attempts. Try again later."
def NETWORK_LIMIT_MESSAGE : String := "Too many code requests from this network."
def EMAIL_LIMIT_MESSAGE : String := "Please wait before requesting another code."

/-- A row of `email_otps`. -/
structure Otp where
  id : OtpId
  email : Email
  codeHash : String
  expiresAt : Instant
  attempts : ℕ
  consumedAt : Option Instant
  createdAt : Instant
  deriving DecidableEq

inductive CacheKey where
  | issueIp (ip : IpBucket)
  | emailCooldown (email : Email)
  | codeFail (id : OtpId)
  | ipFail (ip : IpBucket)
  deriving DecidableEq

structure Counter where
  key : CacheKey
  value : ℕ
  expiresAt : Instant

/-- A code that signed somebody in: its row before it was claimed, the clock the call had
read at its start, and the time of the claim. -/
structure Success where
  row : Otp
  calledAt : Instant
  claimedAt : Instant

structure Shared where
  now : Instant
  otps : Table Otp.id
  counters : Table Counter.key
  compared : List (OtpId × ℕ)
  succeeded : List Success

structure Config where
  reviewer : Option (Email × String)
  testAccounts : Option (List Email × String)
  /-- `verifyOtpCode`. -/
  verifies : String → String → Bool

def Config.isReviewerEmail (cfg : Config) (email : Email) : Bool := cfg.reviewer.any (fun r => r.1 = email)

def Config.isTestAccountEmail (cfg : Config) (email : Email) : Bool := cfg.testAccounts.any (fun t => email ∈ t.1)

namespace Otp

/-- `consumed_at IS NULL`. -/
def Active (o : Otp) : Prop := o.consumedAt = none

instance (o : Otp) : Decidable o.Active := inferInstanceAs (Decidable (_ = _))

def consume (t : Instant) (o : Otp) : Otp := { o with consumedAt := some t }

def attempt (o : Otp) : Otp := { o with attempts := o.attempts + 1 }

theorem consume_id (t : Instant) (o : Otp) : (o.consume t).id = o.id := rfl

theorem attempt_id (o : Otp) : o.attempt.id = o.id := rfl

end Otp

namespace Shared

variable (s : Shared)

/-! ## The store -/

def invalidateActiveForEmail (email : Email) : Shared :=
  { s with otps := s.otps.update (fun o => decide (o.email = email ∧ o.Active)) (Otp.consume s.now) (Otp.consume_id s.now) }

def insertOtp (id : OtpId) (email : Email) (codeHash : String) : Shared :=
  { s with otps := s.otps.insert ⟨id, email, codeHash, s.now + OTP_TTL_SECONDS * 1000, 0, none, s.now⟩ }

/-- `consumed_at IS NULL AND expires_at > now`. -/
def activeOtps (email : Email) (now : Instant) : List Otp :=
  s.otps.rows.filter (fun o => decide (o.email = email ∧ o.Active ∧ now < o.expiresAt))

/-- The newest of them; rows of one instant come in any order. -/
def findLatestActive (email : Email) (now : Instant) : List Otp :=
  (s.activeOtps email now).filter (fun o => (s.activeOtps email now).all (fun x => decide (x.createdAt ≤ o.createdAt)))

def incrementAttempts (id : OtpId) : Shared := { s with otps := s.otps.modify id Otp.attempt Otp.attempt_id }

/-- The attempts that the UPDATE returns; a row that is gone counts as none. -/
def attemptsAfter (id : OtpId) : ℕ := (s.otps.find? id).elim 0 (·.attempts + 1)

def markConsumed (id : OtpId) (t : Instant) : Shared :=
  { s with otps := s.otps.update (fun o => decide (o.id = id ∧ o.Active)) (Otp.consume t) (Otp.consume_id t) }

/-- The row that `markConsumed` would claim. -/
def claimable (id : OtpId) : Option Otp := (s.otps.find? id).filter (fun o => decide o.Active)

theorem find?_markConsumed (id : OtpId) (t : Instant) (k : OtpId) : (s.markConsumed id t).otps.find? k =
    (s.otps.find? k).map (fun o => if decide (o.id = id ∧ o.Active) then o.consume t else o) :=
  s.otps.find?_update _ _ (Otp.consume_id t) k

theorem find?_incrementAttempts (id k : OtpId) : (s.incrementAttempts id).otps.find? k =
    if k = id then (s.otps.find? k).map Otp.attempt else s.otps.find? k :=
  s.otps.find?_modify id k Otp.attempt Otp.attempt_id

theorem find?_invalidate (email : Email) (k : OtpId) : (s.invalidateActiveForEmail email).otps.find? k =
    (s.otps.find? k).map (fun o => if decide (o.email = email ∧ o.Active) then o.consume s.now else o) :=
  s.otps.find?_update _ _ (Otp.consume_id s.now) k

/-! ## The cache -/

def counter (key : CacheKey) : Option Counter := (s.counters.find? key).filter (fun c => decide (s.now < c.expiresAt))

def readCounter (key : CacheKey) : ℕ := (s.counter key).elim 0 (·.value)

/-- A missing key counts from zero, and only a key without an expiry gets one. -/
def incremented (key : CacheKey) (ttlSeconds : ℕ) : Counter :=
  ⟨key, s.readCounter key + 1, (s.counter key).elim (s.now + ttlSeconds * 1000) (·.expiresAt)⟩

def incr (key : CacheKey) (ttlSeconds : ℕ) : Shared :=
  { s with counters := s.counters.put (s.incremented key ttlSeconds) }

def del (key : CacheKey) : Shared := { s with counters := s.counters.remove key }

end Shared

/-! ## Calls and their awaits -/

/-- The id and the hash are those of the code that the call will draw. -/
structure Issue where
  email : Email
  ip : Option IpBucket
  otpId : OtpId
  codeHash : String
  deriving DecidableEq

structure Verify where
  email : Email
  code : String
  ip : Option IpBucket
  deriving DecidableEq

inductive Request where
  | issueOtp (issue : Issue)
  | proveInbox (verify : Verify)

inductive InboxProof | reviewer | testAccount | code deriving DecidableEq

inductive Result where
  | issued (resendAfterSec : ℕ)
  | rateLimited (message : String)
  | proof (proof : InboxProof)
  | unauthorized (message : String)
  | failed
  deriving DecidableEq

/-- Every await of a verification carries the clock read at its start. -/
inductive Await where
  | answer (result : Result)
  | issueIp (issue : Issue) (ip : IpBucket)
  | issueEmail (issue : Issue)
  | invalidate (issue : Issue)
  | insert (issue : Issue)
  | account (issue : Issue)
  | mail (issue : Issue)
  | releaseIssue (issue : Issue)
  | ipThrottle (verify : Verify) (now : Instant) (ip : IpBucket)
  | testAccount (verify : Verify)
  | findLatest (verify : Verify) (now : Instant)
  | codeThrottle (verify : Verify) (now : Instant) (row : Otp)
  | consumeThrottled (now : Instant) (row : Otp)
  | increment (verify : Verify) (now : Instant) (row : Otp)
  | consumeSpent (verify : Verify) (now : Instant) (row : Otp) (message : String)
  | compare (verify : Verify) (now : Instant) (row : Otp) (attempts : ℕ)
  | bumpCode (verify : Verify) (id : OtpId) (message : String)
  | bumpIp (ip : IpBucket) (message : String)
  | claim (verify : Verify) (now : Instant) (row : Otp)
  | releaseCooldown (verify : Verify)
  deriving DecidableEq

abbrev Outcome := Shared × Next Await Result

/-- An operation that may throw, before or after it took effect. -/
def fallible (s s' : Shared) (next failure : Next Await Result) : List Outcome :=
  [(s', next), (s, failure), (s', failure)]

def failing : Next Await Result := .done .failed

namespace Config

variable (cfg : Config)

/-- The end of `bumpVerifyFailure` and the error after it. -/
def bumpIpThen (ip : Option IpBucket) (message : String) : Next Await Result :=
  match ip with
  | some ip => .await (.bumpIp ip message)
  | none => .done (.unauthorized message)

/-- `proveInbox` after the throttle of the network. -/
def afterThrottle (v : Verify) (now : Instant) : Next Await Result :=
  if cfg.isReviewerEmail v.email then
    if cfg.reviewer.any (fun r => r.2 = v.code) then .done (.proof .reviewer)
    else bumpIpThen v.ip INVALID_CODE_MESSAGE
  else if cfg.isTestAccountEmail v.email then
    if cfg.testAccounts.any (fun t => t.2 = v.code) then .await (.testAccount v)
    else bumpIpThen v.ip INVALID_CODE_MESSAGE
  else .await (.findLatest v now)

def access (s : Shared) : Await → List Outcome
  | .answer r => [(s, .done r)]
  | .issueIp i ip => fallible s (s.incr (.issueIp ip) OTP_IP_WINDOW_SECONDS)
      (if OTP_IP_MAX_PER_WINDOW < s.readCounter (.issueIp ip) + 1 then .done (.rateLimited NETWORK_LIMIT_MESSAGE)
        else .await (.issueEmail i)) failing
  | .issueEmail i => fallible s (s.incr (.emailCooldown i.email) OTP_EMAIL_WINDOW_SECONDS)
      (if 1 < s.readCounter (.emailCooldown i.email) + 1 then .done (.rateLimited EMAIL_LIMIT_MESSAGE)
        else .await (.invalidate i)) failing
  | .invalidate i => fallible s (s.invalidateActiveForEmail i.email) (.await (.insert i)) (.await (.releaseIssue i))
  | .insert i =>
      if (s.otps.find? i.otpId).isSome then [(s, .await (.releaseIssue i))]
      else fallible s (s.insertOtp i.otpId i.email i.codeHash) (.await (.account i)) (.await (.releaseIssue i))
  | .account i => fallible s s (.await (.mail i)) (.await (.releaseIssue i))
  | .mail i => fallible s s (.done (.issued OTP_EMAIL_WINDOW_SECONDS)) (.await (.releaseIssue i))
  | .releaseIssue i => fallible s (s.del (.emailCooldown i.email)) failing failing
  | .ipThrottle v now ip => fallible s s
      (if OTP_VERIFY_IP_FAIL_MAX ≤ s.readCounter (.ipFail ip) then .done (.unauthorized TOO_MANY_ATTEMPTS_MESSAGE)
        else cfg.afterThrottle v now) failing
  | .testAccount v =>
      -- The account may hold another role by now, and then its test code no longer signs in.
      List.append (fallible s s (.done (.proof .testAccount)) failing) [(s, bumpIpThen v.ip INVALID_CODE_MESSAGE)]
  | .findLatest v now =>
      match s.findLatestActive v.email now with
      | [] => fallible s s (bumpIpThen v.ip INVALID_CODE_MESSAGE) failing
      | rows => List.append (rows.map (fun row => (s, .await (.codeThrottle v now row)))) [(s, failing)]
  | .codeThrottle v now row => fallible s s
      (if OTP_VERIFY_CODE_FAIL_MAX ≤ s.readCounter (.codeFail row.id) then .await (.consumeThrottled now row)
        else .await (.increment v now row)) failing
  | .consumeThrottled now row =>
      fallible s (s.markConsumed row.id now) (.done (.unauthorized TOO_MANY_INCORRECT_MESSAGE)) failing
  | .increment v now row => fallible s (s.incrementAttempts row.id)
      (if OTP_MAX_ATTEMPTS < s.attemptsAfter row.id then .await (.consumeSpent v now row TOO_MANY_INCORRECT_MESSAGE)
        else .await (.compare v now row (s.attemptsAfter row.id))) failing
  | .consumeSpent v now row message =>
      fallible s (s.markConsumed row.id now) (.await (.bumpCode v row.id message)) failing
  | .compare v now row n => [({ s with compared := (row.id, n) :: s.compared },
      if cfg.verifies row.codeHash v.code then .await (.claim v now row)
      else if OTP_MAX_ATTEMPTS ≤ n then .await (.consumeSpent v now row INVALID_CODE_MESSAGE)
      else .await (.bumpCode v row.id INVALID_CODE_MESSAGE))]
  | .bumpCode v id message =>
      fallible s (s.incr (.codeFail id) OTP_VERIFY_FAIL_WINDOW_SECONDS) (bumpIpThen v.ip message) failing
  | .bumpIp ip message =>
      fallible s (s.incr (.ipFail ip) OTP_VERIFY_FAIL_WINDOW_SECONDS) (.done (.unauthorized message)) failing
  | .claim v now row =>
      match s.claimable row.id with
      | none => fallible s s (.done (.unauthorized INVALID_CODE_MESSAGE)) failing
      | some o =>
        [({ s.markConsumed row.id now with succeeded := ⟨o, now, s.now⟩ :: s.succeeded }, .await (.releaseCooldown v)),
          (s, failing), (s.markConsumed row.id now, failing)]
  | .releaseCooldown v => fallible s (s.del (.emailCooldown v.email)) (.done (.proof .code)) (.done (.proof .code))

def enter (s : Shared) : Request → Option (Shared × Await)
  | .issueOtp i =>
      if cfg.isReviewerEmail i.email || cfg.isTestAccountEmail i.email then
        some (s, .answer (.issued OTP_EMAIL_WINDOW_SECONDS))
      else
        match i.ip with
        | some ip => some (s, .issueIp i ip)
        | none => some (s, .issueEmail i)
  | .proveInbox v =>
      match v.ip with
      | some ip => some (s, .ipThrottle v s.now ip)
      | none =>
        match cfg.afterThrottle v s.now with
        | .await p => some (s, p)
        | .done r => some (s, .answer r)

/-- The clock moves on. -/
def environment (s : Shared) (now : Instant) : Option Shared :=
  if s.now ≤ now then some { s with now := now } else none

def machine : Machine Shared Request Await Result Instant where
  enter := cfg.enter
  access := cfg.access
  environment := environment

end Config

def Shared.empty : Shared := ⟨0, .empty _, .empty _, [], []⟩

abbrev World := InterleavedCalls.World Shared Request Await

end Civfix.Otps
