import Civfix.KeyedTables
import Civfix.InterleavedCalls
import Civfix.SpelledIds

/-! # The session service

Sessions live twice: as rows of `sessions`, and as projections in a shared cache that carry
the epoch of their user. Ending all sessions of a user moves the epoch, so that no projection
has to be found to be refused. The tables compare the ids of users as values; the keys of the
epoch and of the ban marker are built from the text that a call was given. The methods of
`SessionService` are cut at their awaits: `Await` lists the awaits with the variables that are
alive there, and `access` says what the answer does. The clock is part of the shared state, and a
cache key is read only until its expiry. -/
namespace Civfix.Sessions

open KeyedTables InterleavedCalls SpelledIds

abbrev Hash := ℕ
abbrev Uuid := ℕ
abbrev UserId := IdText
abbrev Instant := ℕ

inductive AccountStatus | active | suspended | review | banned deriving DecidableEq

inductive Role | citizen | operator | other (code : ℕ) deriving DecidableEq

structure User where
  id : Uuid
  role : Role
  accountStatus : AccountStatus
  deleted : Bool

/-- A row of `sessions`. -/
structure SessionRow where
  id : Hash
  userId : Uuid
  createdAt : Instant
  expiresAt : Instant
  lastSeenAt : Instant

/-- A row of `sessions` joined with its user. -/
structure SessionRecord where
  id : Hash
  userId : UserId
  roles : List Role
  accountStatus : AccountStatus
  createdAt : Instant
  expiresAt : Instant
  deriving DecidableEq

structure CachedSession where
  userId : UserId
  roles : List Role
  expiresAtMs : Instant
  createdAtMs : Instant
  epoch : ℕ
  accountStatus : AccountStatus
  deriving DecidableEq

/-- A projection under its key. `bumpsBefore` is not stored: it counts the epoch bumps of
the user that came before the write. -/
structure CacheEntry where
  hash : Hash
  value : CachedSession
  expiresAt : Instant
  bumpsBefore : ℕ
  deriving DecidableEq

structure EpochKey where
  userId : UserId
  value : ℕ
  expiresAt : Instant

structure BannedMarker where
  userId : UserId
  expiresAt : Instant

/-- The store, the cache and the clock. The last four fields are a record of the past that
no call reads: how often each epoch was bumped, which hashes were drawn for a new session
and for whom, which of them were handed out, and which were presented with a token. -/
structure Shared where
  now : Instant
  users : Table User.id
  rows : Table SessionRow.id
  cache : Table CacheEntry.hash
  epochs : Table EpochKey.userId
  banned : Table BannedMarker.userId
  bumps : UserId → ℕ
  drawn : List (Hash × UserId)
  issued : List (Hash × UserId)
  presented : List Hash

structure Config where
  ttlSeconds : ℕ
  absoluteMaxSeconds : ℕ
  slideGranularityMs : ℕ
  isOfficialAccount : UserId → Bool

def DEFAULT_SESSION_TTL_SECONDS : ℕ := 30 * 24 * 60 * 60

def ABSOLUTE_SESSION_MAX_SECONDS : ℕ := 90 * 24 * 60 * 60

def DEFAULT_SLIDE_GRANULARITY_MS : ℕ := 60 * 60 * 1000

def BANNED_MARKER_GRACE_SECONDS : ℕ := 60

/-- The defaults of the constructor, with user 0 for the official account. -/
def Config.default : Config where
  ttlSeconds := DEFAULT_SESSION_TTL_SECONDS
  absoluteMaxSeconds := ABSOLUTE_SESSION_MAX_SECONDS
  slideGranularityMs := DEFAULT_SLIDE_GRANULARITY_MS
  isOfficialAccount u := u.value = 0

def MINT_REFUSED_MESSAGE : String := "This account cannot start a new session."

def isMintRefused (status : AccountStatus) : Bool := status = .banned || status = .suspended

/-- `REVOKED_STATUSES.has`. -/
def isRevokedStatus (status : AccountStatus) : Bool := status = .banned

namespace Shared

variable (s : Shared)

/-! ## The store -/

def accountStatus (u : UserId) : AccountStatus := (s.users.find? u.value).elim .active (·.accountStatus)

def findById (hash : Hash) : Option SessionRecord :=
  (s.rows.find? hash).bind fun row =>
    ((s.users.find? row.userId).filter (fun user => !user.deleted)).map fun user =>
      ⟨row.id, printed row.userId, [user.role], user.accountStatus, row.createdAt, row.expiresAt⟩

def insertRow (row : SessionRow) : Shared := { s with rows := s.rows.insert row }

def deleteById (hash : Hash) : Shared := { s with rows := s.rows.remove hash }

def sessionsOf (u : UserId) : List Hash := (s.rows.rows.filter (fun r => r.userId = u.value)).map (·.id)

def deleteAllForUser (u : UserId) : Shared := { s with rows := s.rows.filter (fun r => r.userId ≠ u.value) }

def updateExpiry (hash : Hash) (expiresAt lastSeen : Instant) : Shared :=
  { s with rows := s.rows.modify hash (fun r => { r with expiresAt := expiresAt, lastSeenAt := lastSeen }) (fun _ => rfl) }

/-! ## The cache -/

/-- The projection under the key of the session, while the key is alive. -/
def cached (hash : Hash) : Option CacheEntry := (s.cache.find? hash).filter (fun e => s.now < e.expiresAt)

def liveEpoch (u : UserId) : Option EpochKey := (s.epochs.find? u).filter (fun k => s.now < k.expiresAt)

/-- `currentEpoch`: a missing or expired key reads as zero. -/
def currentEpoch (u : UserId) : ℕ := (s.liveEpoch u).elim 0 (·.value)

def isMarked (u : UserId) : Bool := ((s.banned.find? u).filter (fun m => s.now < m.expiresAt)).isSome

def setCached (hash : Hash) (value : CachedSession) (ttlSeconds : ℕ) : Shared :=
  { s with cache := s.cache.put ⟨hash, value, s.now + ttlSeconds * 1000, s.bumps value.userId⟩ }

def delCached (hash : Hash) : Shared := { s with cache := s.cache.remove hash }

/-- `INCR`: a missing key counts from zero, and only a key without an expiry gets one. -/
def incrEpoch (u : UserId) (ttlSeconds : ℕ) : Shared :=
  { s with
    epochs := s.epochs.put
      ⟨u, s.currentEpoch u + 1, (s.liveEpoch u).elim (s.now + ttlSeconds * 1000) (·.expiresAt)⟩
    bumps := Function.update s.bumps u (s.bumps u + 1) }

def setMarker (u : UserId) (ttlSeconds : ℕ) : Shared :=
  { s with banned := s.banned.put ⟨u, s.now + ttlSeconds * 1000⟩ }

def delMarker (u : UserId) : Shared := { s with banned := s.banned.remove u }

end Shared

/-! ## Calls and their awaits -/

inductive SessionSource | cache | store deriving DecidableEq

structure ResolveResult where
  userId : UserId
  roles : List Role
  accountStatus : AccountStatus
  source : SessionSource
  expiresAtMs : Instant
  deriving DecidableEq

/-- `epochFirst` says in which order the two concurrent reads of a sign-in are answered. -/
inductive Request where
  | createSession (hash : Hash) (userId : UserId) (roles : List Role) (epochFirst : Bool)
  | resolveSession (hash : Hash)
  | revokeSession (hash : Hash)
  | revokeAllForUser (userId : UserId)
  | banUser (userId : UserId)
  | applyAccountStatus (userId : UserId) (status : AccountStatus)
  deriving DecidableEq

inductive Result where
  | token (hash : Hash)
  | resolved (result : Option ResolveResult)
  | revoked
  | count (sessions : ℕ)
  | forbidden (message : String)
  deriving DecidableEq

/-- The arguments of a sign-in, with the clock it started at. -/
structure Mint where
  hash : Hash
  userId : UserId
  roles : List Role
  now : Instant
  deriving DecidableEq

inductive Await where
  | cacheGet (hash : Hash) (now : Instant)
  | gateCached (hash : Hash) (now : Instant) (entry : CacheEntry)
  | evictRejected (hash : Hash) (now : Instant)
  | findRow (hash : Hash) (now : Instant)
  | gateRow (hash : Hash) (now : Instant) (row : SessionRecord)
  | cacheRow (hash : Hash) (now : Instant) (row : SessionRecord) (epoch : ℕ)
  | slideExpiry (hash : Hash) (now expiresAt : Instant) (result : ResolveResult)
  | slideGet (hash : Hash) (now expiresAt : Instant) (result : ResolveResult)
  | slideSet (hash : Hash) (now expiresAt : Instant) (value : CachedSession) (result : ResolveResult)
  | markRevoked (hash : Hash) (userId : UserId)
  | expireRow (hash : Hash)
  | expireEvict (hash : Hash)
  | mintEpochFirst (mint : Mint)
  | mintStatusSecond (mint : Mint) (epoch : ℕ)
  | mintStatusFirst (mint : Mint)
  | mintEpochSecond (mint : Mint) (status : AccountStatus)
  | mintInsert (mint : Mint) (epoch : ℕ) (status : AccountStatus)
  | settleEpoch (mint : Mint) (epoch : ℕ) (status : AccountStatus)
  | settleStatus (mint : Mint) (epoch : ℕ)
  | settleDelete (mint : Mint)
  | mintCache (mint : Mint) (epoch : ℕ) (status : AccountStatus)
  | revokeEvict (hash : Hash)
  | revokeRow (hash : Hash)
  | targetRole (userId : UserId) (status : AccountStatus)
  | markBanned (userId : UserId)
  | clearBan (userId : UserId) (status : AccountStatus)
  | bumpEpoch (userId : UserId)
  | bumpOnly (userId : UserId)
  | deleteAll (userId : UserId)
  | evictAll (count : ℕ) (hashes : List Hash)
  deriving DecidableEq

structure UserGate where
  active : Bool
  epoch : ℕ

namespace Config

variable (cfg : Config)

def userGate (s : Shared) (u : UserId) : UserGate :=
  if cfg.isOfficialAccount u then ⟨false, 0⟩ else ⟨!s.isMarked u, s.currentEpoch u⟩

def absolutelyExpired (createdAtMs nowMs : Instant) : Bool := createdAtMs + cfg.absoluteMaxSeconds * 1000 ≤ nowMs

/-- `writeCache`: the lifetime is rounded up to whole seconds. -/
def writeCache (s : Shared) (hash : Hash) (value : CachedSession) (nowMs : Instant) : Shared :=
  s.setCached hash value (max 1 ((value.expiresAtMs - nowMs + 999) / 1000))

/-- The expiry that `maybeSlide` writes, if it writes one. -/
def slideTarget (currentExpiryMs createdAtMs nowMs : Instant) : Option Instant :=
  if 2 * nowMs + cfg.ttlSeconds * 1000 ≤ 2 * currentExpiryMs then none
  else
    let extendedMs := min (nowMs + cfg.ttlSeconds * 1000) (createdAtMs + cfg.absoluteMaxSeconds * 1000)
    if extendedMs < currentExpiryMs + cfg.slideGranularityMs then none else some extendedMs

def maybeSlide (hash : Hash) (currentExpiryMs createdAtMs nowMs : Instant) (result : ResolveResult) :
    Next Await Result :=
  match cfg.slideTarget currentExpiryMs createdAtMs nowMs with
  | none => .done (.resolved (some result))
  | some expiresAt => .await (.slideExpiry hash nowMs expiresAt result)

def bumpTtl : ℕ := cfg.ttlSeconds + BANNED_MARKER_GRACE_SECONDS

/-- The end of the two reads at the start of a sign-in. -/
def mintGate (mint : Mint) (epoch : ℕ) (status : AccountStatus) : Next Await Result :=
  if isMintRefused status then .done (.forbidden MINT_REFUSED_MESSAGE) else .await (.mintInsert mint epoch status)

def mintRow (s : Shared) (mint : Mint) : SessionRow :=
  ⟨mint.hash, mint.userId.value, s.now, mint.now + cfg.ttlSeconds * 1000, mint.now⟩

def mintProjection (mint : Mint) (epoch : ℕ) (status : AccountStatus) : CachedSession :=
  ⟨mint.userId, mint.roles, mint.now + cfg.ttlSeconds * 1000, mint.now, epoch, status⟩

def rowProjection (row : SessionRecord) (epoch : ℕ) : CachedSession :=
  ⟨row.userId, row.roles, row.expiresAt, row.createdAt, epoch, row.accountStatus⟩

/-- The await after the role of a suspension's target was found acceptable. -/
def statusAwait (u : UserId) (status : AccountStatus) : Await :=
  if status = .banned then .markBanned u else .clearBan u status

def operatorMessage (status : AccountStatus) : String :=
  "You cannot " ++ (if status = .banned then "ban" else "suspend") ++ " an operator account from the console."

/-- A deletion that fails is logged and the call goes on. -/
def failOpen (s : Shared) (done : Shared) (next : Next Await Result) : List (Shared × Next Await Result) :=
  [(done, next), (s, next)]

/-- The deletions of `evictSessionCaches` are answered in any order. -/
def evictNext (count : ℕ) (hashes : List Hash) : Next Await Result :=
  match hashes with
  | [] => .done (.count count)
  | h :: hs => .await (.evictAll count (h :: hs))

def access (s : Shared) : Await → List (Shared × Next Await Result)
  | .cacheGet hash now => [(s, match s.cached hash with
      | none => .await (.findRow hash now)
      | some entry =>
        if now < entry.value.expiresAtMs && !isRevokedStatus entry.value.accountStatus then
          if cfg.absolutelyExpired entry.value.createdAtMs now then .await (.expireRow hash)
          else .await (.gateCached hash now entry)
        else .await (.evictRejected hash now))]
  | .gateCached hash now entry => [(s,
      let gate := cfg.userGate s entry.value.userId
      if !gate.active then .done (.resolved none)
      else if entry.value.epoch = gate.epoch then
        cfg.maybeSlide hash entry.value.expiresAtMs entry.value.createdAtMs now
          ⟨entry.value.userId, entry.value.roles, entry.value.accountStatus, .cache, entry.value.expiresAtMs⟩
      else .await (.evictRejected hash now))]
  | .evictRejected hash now => failOpen s (s.delCached hash) (.await (.findRow hash now))
  | .findRow hash now => [(s, match s.findById hash with
      | none => .done (.resolved none)
      | some row =>
        if row.expiresAt ≤ now || cfg.absolutelyExpired row.createdAt now then .await (.expireRow hash)
        else .await (.gateRow hash now row))]
  | .gateRow hash now row => [(s,
      let gate := cfg.userGate s row.userId
      if !gate.active then .done (.resolved none)
      else if isRevokedStatus row.accountStatus then .await (.markRevoked hash row.userId)
      else .await (.cacheRow hash now row gate.epoch))]
  | .cacheRow hash now row epoch => [(writeCache s hash (rowProjection row epoch) now,
      cfg.maybeSlide hash row.expiresAt row.createdAt now
        ⟨row.userId, row.roles, row.accountStatus, .store, row.expiresAt⟩)]
  | .slideExpiry hash now expiresAt result =>
      [(s.updateExpiry hash expiresAt now, .await (.slideGet hash now expiresAt result))]
  | .slideGet hash now expiresAt result => [(s, match s.cached hash with
      | none => .done (.resolved (some result))
      | some entry => .await (.slideSet hash now expiresAt entry.value result))]
  | .slideSet hash now expiresAt value result =>
      [(writeCache s hash { value with expiresAtMs := expiresAt } now, .done (.resolved (some result)))]
  | .markRevoked hash u => failOpen s (s.setMarker u cfg.bumpTtl) (.await (.expireRow hash))
  | .expireRow hash => [(s.deleteById hash, .await (.expireEvict hash))]
  | .expireEvict hash => failOpen s (s.delCached hash) (.done (.resolved none))
  | .mintEpochFirst mint => [(s, .await (.mintStatusSecond mint (s.currentEpoch mint.userId)))]
  | .mintStatusSecond mint epoch => [(s, mintGate mint epoch (s.accountStatus mint.userId))]
  | .mintStatusFirst mint => [(s, .await (.mintEpochSecond mint (s.accountStatus mint.userId)))]
  | .mintEpochSecond mint status => [(s, mintGate mint (s.currentEpoch mint.userId) status)]
  | .mintInsert mint epoch status =>
      [(s.insertRow (cfg.mintRow s mint), .await (.settleEpoch mint epoch status))]
  | .settleEpoch mint epoch status => [(s,
      if s.currentEpoch mint.userId = epoch then .await (.mintCache mint epoch status)
      else .await (.settleStatus mint (s.currentEpoch mint.userId)))]
  | .settleStatus mint epoch => [(s,
      if isMintRefused (s.accountStatus mint.userId) then .await (.settleDelete mint)
      else .await (.mintCache mint epoch (s.accountStatus mint.userId)))]
  | .settleDelete mint => [(s.deleteById mint.hash, .done (.forbidden MINT_REFUSED_MESSAGE))]
  | .mintCache mint epoch status =>
      [({ writeCache s mint.hash (cfg.mintProjection mint epoch status) mint.now with
          issued := (mint.hash, mint.userId) :: s.issued }, .done (.token mint.hash))]
  | .revokeEvict hash => [(s.delCached hash, .await (.revokeRow hash))]
  | .revokeRow hash => [(s.deleteById hash, .done .revoked)]
  | .targetRole u status => [(s,
      if (s.users.find? u.value).any (fun user => user.role = .operator) then .done (.forbidden (operatorMessage status))
      else .await (statusAwait u status))]
  | .markBanned u => [(s.setMarker u cfg.bumpTtl, .await (.bumpEpoch u))]
  | .clearBan u status =>
      [(s.delMarker u, if status = .suspended then .await (.bumpEpoch u) else .await (.bumpOnly u))]
  | .bumpEpoch u => [(s.incrEpoch u cfg.bumpTtl, .await (.deleteAll u))]
  | .bumpOnly u => [(s.incrEpoch u cfg.bumpTtl, .done (.count 0))]
  | .deleteAll u => [(s.deleteAllForUser u, evictNext (s.sessionsOf u).length (s.sessionsOf u))]
  | .evictAll count hashes => hashes.flatMap fun hash =>
      failOpen s (s.delCached hash) (evictNext count (hashes.erase hash))

/-- A new token is one nobody has seen; a token that is presented was handed out before, or
is not the token of any session. A sign-in has the id from the row of its user. -/
def enter (s : Shared) : Request → Option (Shared × Await)
  | .createSession hash u roles epochFirst =>
      if cfg.isOfficialAccount u ∨ ¬ u.IsPrinted ∨ hash ∈ s.drawn.map (·.1) ∨ hash ∈ s.presented then none
      else some ({ s with drawn := (hash, u) :: s.drawn },
        let mint : Mint := ⟨hash, u, roles, s.now⟩
        if epochFirst then .mintEpochFirst mint else .mintStatusFirst mint)
  | .resolveSession hash =>
      if hash ∈ s.drawn.map (·.1) ∧ hash ∉ s.issued.map (·.1) then none
      else some ({ s with presented := hash :: s.presented }, .cacheGet hash s.now)
  | .revokeSession hash =>
      if hash ∈ s.drawn.map (·.1) ∧ hash ∉ s.issued.map (·.1) then none
      else some ({ s with presented := hash :: s.presented }, .revokeEvict hash)
  | .revokeAllForUser u => some (s, .bumpEpoch u)
  | .banUser u => some (s, .markBanned u)
  | .applyAccountStatus u status =>
      some (s, if isMintRefused status then .targetRole u status else .clearBan u status)

/-- Time passes, and an administrator writes the row of a user. -/
inductive Change where
  | tick (now : Instant)
  | setUser (user : User)

def environment (s : Shared) : Change → Option Shared
  | .tick now => if s.now ≤ now then some { s with now := now } else none
  | .setUser user => some { s with users := s.users.put user }

def machine : Machine Shared Request Await Result Change where
  enter := cfg.enter
  access := cfg.access
  environment := environment

end Config

def Shared.empty : Shared where
  now := 0
  users := .empty _
  rows := .empty _
  cache := .empty _
  epochs := .empty _
  banned := .empty _
  bumps _ := 0
  drawn := []
  issued := []
  presented := []

abbrev World := InterleavedCalls.World Shared Request Await

abbrev Move := InterleavedCalls.Move Request Config.Change

end Civfix.Sessions
