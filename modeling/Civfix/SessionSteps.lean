import Civfix.SessionService

/-! # What one access of a session call can do

Each lemma answers one question about an access: which hash the call goes on with, which
rows and projections appear, whether the epoch moves, and where the epoch that a call carries
to its next await comes from. Everything later is derived from these, so a change of
`Config.access` is met here. -/
namespace Civfix.Sessions

open KeyedTables InterleavedCalls SpelledIds

/-- An epoch that a call has read and goes on to compare or to write. The status is that of
the projection to be written, once it is known. -/
structure Held where
  hash : Hash
  userId : UserId
  epoch : ℕ
  status : Option AccountStatus

def CacheEntry.held (e : CacheEntry) : Held := ⟨e.hash, e.value.userId, e.value.epoch, some e.value.accountStatus⟩

namespace Await

/-- The hash of a call that presents a token. -/
def token : Await → Option Hash
  | .cacheGet hash _ | .gateCached hash _ _ | .evictRejected hash _ | .findRow hash _ | .gateRow hash _ _
  | .cacheRow hash _ _ _ | .slideExpiry hash _ _ _ | .slideGet hash _ _ _ | .slideSet hash _ _ _ _
  | .markRevoked hash _ | .expireRow hash | .expireEvict hash | .revokeEvict hash | .revokeRow hash => some hash
  | _ => none

/-- The sign-in of the call, until its token is handed out. -/
def mint : Await → Option Mint
  | .mintEpochFirst m | .mintStatusSecond m _ | .mintStatusFirst m | .mintEpochSecond m _ | .mintInsert m _ _
  | .settleEpoch m _ _ | .settleStatus m _ | .settleDelete m | .mintCache m _ _ => some m
  | _ => none

def held : Await → Option Held
  | .gateCached hash _ e => some ⟨hash, e.value.userId, e.value.epoch, some e.value.accountStatus⟩
  | .cacheRow hash _ row epoch => some ⟨hash, row.userId, epoch, some row.accountStatus⟩
  | .slideSet hash _ _ value _ => some ⟨hash, value.userId, value.epoch, some value.accountStatus⟩
  | .mintStatusSecond m epoch | .settleStatus m epoch => some ⟨m.hash, m.userId, epoch, none⟩
  | .mintInsert m epoch status | .settleEpoch m epoch status | .mintCache m epoch status =>
    some ⟨m.hash, m.userId, epoch, some status⟩
  | _ => none

/-- The hash whose projection a resolver is about to write. -/
def rewrites : Await → Option Hash
  | .cacheRow hash _ _ _ | .slideSet hash _ _ _ _ => some hash
  | _ => none

/-- The call is about to read the epoch it will write: of which session, and under which
status, if that is already fixed. -/
def reads : Await → Option (Hash × UserId × Option AccountStatus)
  | .gateRow hash _ row => some (hash, row.userId, some row.accountStatus)
  | .mintEpochFirst m => some (m.hash, m.userId, none)
  | .mintEpochSecond m status => some (m.hash, m.userId, some status)
  | .settleEpoch m _ _ => some (m.hash, m.userId, none)
  | _ => none

/-- The projection that the call compares with the epoch next. -/
def entry : Await → Option CacheEntry
  | .gateCached _ _ e => some e
  | _ => none

/-- The user whose epoch the call is about to bump. -/
def bumps : Await → Option UserId
  | .bumpEpoch u | .bumpOnly u => some u
  | _ => none

end Await

/-- The awaits that a call passes through, for the calls that end sessions. -/
def Request.Admits : Request → Await → Prop
  | .revokeSession h, p => p = .revokeEvict h ∨ p = .revokeRow h
  | .revokeAllForUser u, p => p = .bumpEpoch u ∨ p = .deleteAll u ∨ ∃ n hs, p = .evictAll n hs
  | .applyAccountStatus u st, p => isMintRefused st → p = .targetRole u st ∨ p = .markBanned u ∨
      p = .clearBan u .suspended ∨ p = .bumpEpoch u ∨ p = .deleteAll u ∨ ∃ n hs, p = .evictAll n hs
  | _, _ => True

namespace Shared

variable {s : Shared} {h h' : Hash} {u v : UserId}

theorem cached_eq_some {e : CacheEntry} : s.cached h = some e ↔ s.cache.find? h = some e ∧ s.now < e.expiresAt := by
  simp [cached, Option.filter_eq_some_iff]

theorem hash_of_cached {e : CacheEntry} (he : s.cached h = some e) : e.hash = h :=
  Table.key_of_find? (cached_eq_some.mp he).1

theorem cached_delCached {e : CacheEntry} (he : (s.delCached h').cached h = some e) : h ≠ h' ∧ s.cached h = some e := by
  simp only [cached_eq_some, delCached, Table.find?_remove] at he ⊢
  split at he
  · simp at he
  · next hne => exact ⟨hne, he⟩

theorem cached_setCached {value : CachedSession} {ttl : ℕ} {e : CacheEntry}
    (he : (s.setCached h' value ttl).cached h = some e) :
    (h = h' ∧ e.value = value ∧ e.bumpsBefore = s.bumps value.userId) ∨ s.cached h = some e := by
  simp only [cached_eq_some, setCached, Table.find?_put] at he ⊢
  split at he
  · next heq =>
    obtain ⟨he, -⟩ := he
    cases he
    exact .inl ⟨heq, rfl, rfl⟩
  · exact .inr he

theorem liveEpoch_eq_some {k : EpochKey} :
    s.liveEpoch u = some k ↔ s.epochs.find? u = some k ∧ s.now < k.expiresAt := by
  simp [liveEpoch, Option.filter_eq_some_iff]

theorem currentEpoch_incrEpoch_of_ne (h : v ≠ u) (ttl : ℕ) : (s.incrEpoch u ttl).currentEpoch v = s.currentEpoch v := by
  simp only [currentEpoch, liveEpoch, incrEpoch, Table.find?_put, h, ↓reduceIte]
  rfl

theorem currentEpoch_incrEpoch_self {ttl : ℕ} (h : 0 < ttl) :
    (s.incrEpoch u ttl).currentEpoch u = s.currentEpoch u + 1 := by
  have hlive : s.now < (s.liveEpoch u).elim (s.now + ttl * 1000) (·.expiresAt) := by
    cases hk : s.liveEpoch u with
    | none => exact Nat.lt_add_of_pos_right (by omega)
    | some k => exact (liveEpoch_eq_some.mp hk).2
  have hkey : (s.incrEpoch u ttl).liveEpoch u =
      some ⟨u, s.currentEpoch u + 1, (s.liveEpoch u).elim (s.now + ttl * 1000) (·.expiresAt)⟩ := by
    rw [liveEpoch_eq_some]
    exact ⟨by simp [incrEpoch, Table.find?_put], hlive⟩
  simp [currentEpoch, hkey]

theorem findById_eq_some {row : SessionRecord} (hr : s.findById h = some row) :
    ∃ r, s.rows.find? h = some r ∧ printed r.userId = row.userId ∧ row.accountStatus = s.accountStatus row.userId := by
  simp only [findById, Option.bind_eq_some_iff, Option.map_eq_some_iff, Option.filter_eq_some_iff] at hr
  obtain ⟨r, hr, user, ⟨huser, -⟩, rfl⟩ := hr
  exact ⟨r, hr, rfl, by simp [accountStatus, huser]⟩

end Shared

namespace Config

variable {cfg : Config} {s s' : Shared} {p q : Await} {n : Next Await Result} {h : Hash} {u : UserId}

/-- What an access does to the store and the cache. -/
inductive Effect (cfg : Config) (s : Shared) : Await → Shared → Prop where
  | read (p : Await) : Effect cfg s p s
  | evict (p : Await) (hash : Hash) : Effect cfg s p (s.delCached hash)
  | deleteRow (p : Await) (hash : Hash) : Effect cfg s p (s.deleteById hash)
  | deleteAll (u : UserId) : Effect cfg s (.deleteAll u) (s.deleteAllForUser u)
  | slide (p : Await) (hash : Hash) (expiresAt now : Instant) : Effect cfg s p (s.updateExpiry hash expiresAt now)
  | insert (m : Mint) (epoch : ℕ) (status : AccountStatus) :
      Effect cfg s (.mintInsert m epoch status) (s.insertRow (cfg.mintRow s m))
  | rewrite (p : Await) (hash : Hash) (value : CachedSession) (now : Instant) (hp : p.rewrites = some hash)
      (hh : p.held = some ⟨hash, value.userId, value.epoch, some value.accountStatus⟩) :
      Effect cfg s p (writeCache s hash value now)
  | issue (m : Mint) (epoch : ℕ) (status : AccountStatus) :
      Effect cfg s (.mintCache m epoch status)
        { writeCache s m.hash (cfg.mintProjection m epoch status) m.now with issued := (m.hash, m.userId) :: s.issued }
  | bump (p : Await) (u : UserId) (hp : p.bumps = some u) : Effect cfg s p (s.incrEpoch u cfg.bumpTtl)
  | mark (p : Await) (u : UserId) (ttl : ℕ) : Effect cfg s p (s.setMarker u ttl)
  | unmark (p : Await) (u : UserId) : Effect cfg s p (s.delMarker u)

theorem failOpen_cases {done : Shared} {next : Next Await Result} (hn : (s', n) ∈ failOpen s done next) :
    (s' = done ∨ s' = s) ∧ n = next := by
  simp only [failOpen, List.mem_cons, List.not_mem_nil, or_false, Prod.mk.injEq] at hn
  tauto

theorem effect_of_access (hn : (s', n) ∈ cfg.access s p) : Effect cfg s p s' := by
  cases p with
  | evictRejected hash now | expireEvict hash =>
    obtain ⟨rfl | rfl, -⟩ := failOpen_cases hn
    · exact .evict _ hash
    · exact .read _
  | markRevoked hash u =>
    obtain ⟨rfl | rfl, -⟩ := failOpen_cases hn
    · exact .mark _ u _
    · exact .read _
  | evictAll count hashes =>
    obtain ⟨hash, -, hn⟩ := List.mem_flatMap.mp hn
    obtain ⟨rfl | rfl, -⟩ := failOpen_cases hn
    · exact .evict _ hash
    · exact .read _
  | _ =>
    simp only [access, List.mem_singleton, Prod.mk.injEq] at hn
    obtain ⟨rfl, -⟩ := hn
    constructor <;> rfl

/-- The await a call goes on to, with what it read on the way. -/
inductive Goes (cfg : Config) (s : Shared) : Await → Await → Prop where
  | uncached (hash : Hash) (now : Instant) : Goes cfg s (.cacheGet hash now) (.findRow hash now)
  | cached {hash : Hash} {entry : CacheEntry} (now : Instant) (hc : s.cached hash = some entry) :
      Goes cfg s (.cacheGet hash now) (.gateCached hash now entry)
  | stale (hash : Hash) (now : Instant) : Goes cfg s (.cacheGet hash now) (.evictRejected hash now)
  | cachedTooLong (hash : Hash) (now : Instant) : Goes cfg s (.cacheGet hash now) (.expireRow hash)
  | slideCached (hash : Hash) (now : Instant) (entry : CacheEntry) (expiresAt : Instant) (result : ResolveResult) :
      Goes cfg s (.gateCached hash now entry) (.slideExpiry hash now expiresAt result)
  | bumped (hash : Hash) (now : Instant) (entry : CacheEntry) :
      Goes cfg s (.gateCached hash now entry) (.evictRejected hash now)
  | evicted (hash : Hash) (now : Instant) : Goes cfg s (.evictRejected hash now) (.findRow hash now)
  | expired (hash : Hash) (now : Instant) : Goes cfg s (.findRow hash now) (.expireRow hash)
  | found {hash : Hash} {row : SessionRecord} (now : Instant) (hf : s.findById hash = some row) :
      Goes cfg s (.findRow hash now) (.gateRow hash now row)
  | barred (hash : Hash) (now : Instant) (row : SessionRecord) :
      Goes cfg s (.gateRow hash now row) (.markRevoked hash row.userId)
  | gated (hash : Hash) (now : Instant) (row : SessionRecord) :
      Goes cfg s (.gateRow hash now row) (.cacheRow hash now row (s.currentEpoch row.userId))
  | slideRow (hash : Hash) (now : Instant) (row : SessionRecord) (epoch : ℕ) (expiresAt : Instant)
      (result : ResolveResult) : Goes cfg s (.cacheRow hash now row epoch) (.slideExpiry hash now expiresAt result)
  | slid (hash : Hash) (now expiresAt : Instant) (result : ResolveResult) :
      Goes cfg s (.slideExpiry hash now expiresAt result) (.slideGet hash now expiresAt result)
  | refresh {hash : Hash} {entry : CacheEntry} (now expiresAt : Instant) (result : ResolveResult)
      (hc : s.cached hash = some entry) :
      Goes cfg s (.slideGet hash now expiresAt result) (.slideSet hash now expiresAt entry.value result)
  | marked (hash : Hash) (userId : UserId) : Goes cfg s (.markRevoked hash userId) (.expireRow hash)
  | expire (hash : Hash) : Goes cfg s (.expireRow hash) (.expireEvict hash)
  | epochFirst (mint : Mint) : Goes cfg s (.mintEpochFirst mint) (.mintStatusSecond mint (s.currentEpoch mint.userId))
  | statusSecond (mint : Mint) (epoch : ℕ) :
      Goes cfg s (.mintStatusSecond mint epoch) (.mintInsert mint epoch (s.accountStatus mint.userId))
  | statusFirst (mint : Mint) :
      Goes cfg s (.mintStatusFirst mint) (.mintEpochSecond mint (s.accountStatus mint.userId))
  | epochSecond (mint : Mint) (status : AccountStatus) :
      Goes cfg s (.mintEpochSecond mint status) (.mintInsert mint (s.currentEpoch mint.userId) status)
  | inserted (mint : Mint) (epoch : ℕ) (status : AccountStatus) :
      Goes cfg s (.mintInsert mint epoch status) (.settleEpoch mint epoch status)
  | settled {mint : Mint} {epoch : ℕ} (status : AccountStatus) (he : s.currentEpoch mint.userId = epoch) :
      Goes cfg s (.settleEpoch mint epoch status) (.mintCache mint epoch status)
  | unsettled (mint : Mint) (epoch : ℕ) (status : AccountStatus) :
      Goes cfg s (.settleEpoch mint epoch status) (.settleStatus mint (s.currentEpoch mint.userId))
  | refused (mint : Mint) (epoch : ℕ) : Goes cfg s (.settleStatus mint epoch) (.settleDelete mint)
  | resettled (mint : Mint) (epoch : ℕ) :
      Goes cfg s (.settleStatus mint epoch) (.mintCache mint epoch (s.accountStatus mint.userId))
  | revoked (hash : Hash) : Goes cfg s (.revokeEvict hash) (.revokeRow hash)
  | targeted (userId : UserId) (status : AccountStatus) :
      Goes cfg s (.targetRole userId status) (statusAwait userId status)
  | banned (userId : UserId) : Goes cfg s (.markBanned userId) (.bumpEpoch userId)
  | suspended (userId : UserId) : Goes cfg s (.clearBan userId .suspended) (.bumpEpoch userId)
  | cleared {userId : UserId} {status : AccountStatus} (hs : status ≠ .suspended) :
      Goes cfg s (.clearBan userId status) (.bumpOnly userId)
  | bumpedAll (userId : UserId) : Goes cfg s (.bumpEpoch userId) (.deleteAll userId)
  | deletedAll (userId : UserId) (count : ℕ) (hashes : List Hash) :
      Goes cfg s (.deleteAll userId) (.evictAll count hashes)
  | evictedOne (count : ℕ) (hashes left : List Hash) : Goes cfg s (.evictAll count hashes) (.evictAll count left)

theorem evictNext_eq_await {count : ℕ} {hashes : List Hash} (hq : evictNext count hashes = .await q) :
    q = .evictAll count hashes := by
  cases hashes with
  | nil => cases hq
  | cons h hs => exact (Next.await.inj hq).symm

theorem maybeSlide_eq_await {a b c : Instant} {result : ResolveResult}
    (hq : cfg.maybeSlide h a b c result = .await q) : ∃ expiresAt, q = .slideExpiry h c expiresAt result := by
  unfold maybeSlide at hq
  split at hq
  · cases hq
  · exact ⟨_, (Next.await.inj hq).symm⟩

theorem mintGate_eq_await {m : Mint} {epoch : ℕ} {status : AccountStatus} (hq : mintGate m epoch status = .await q) :
    q = .mintInsert m epoch status := by
  unfold mintGate at hq
  split at hq
  · cases hq
  · exact (Next.await.inj hq).symm

theorem userGate_epoch (ha : (cfg.userGate s u).active = true) : (cfg.userGate s u).epoch = s.currentEpoch u := by
  unfold userGate at ha ⊢
  split
  · next ho => simp [ho] at ha
  · rfl

theorem goes_of_access (hq : (s', .await q) ∈ cfg.access s p) : Goes cfg s p q := by
  cases p with
  | cacheGet hash now =>
    obtain ⟨-, hq⟩ := Prod.mk.inj (List.mem_singleton.mp hq)
    split at hq
    · cases hq
      exact .uncached hash now
    · next entry hc =>
      split at hq
      · split at hq <;> cases hq
        · exact .cachedTooLong hash now
        · exact .cached now hc
      · cases hq
        exact .stale hash now
  | gateCached hash now entry =>
    obtain ⟨-, hq⟩ := Prod.mk.inj (List.mem_singleton.mp hq)
    dsimp only at hq
    split at hq
    · cases hq
    · split at hq
      · obtain ⟨expiresAt, rfl⟩ := maybeSlide_eq_await hq.symm
        exact .slideCached hash now entry expiresAt _
      · cases hq
        exact .bumped hash now entry
  | evictRejected hash now =>
    cases (failOpen_cases hq).2
    exact .evicted hash now
  | findRow hash now =>
    obtain ⟨-, hq⟩ := Prod.mk.inj (List.mem_singleton.mp hq)
    split at hq
    · cases hq
    · next row hf =>
      split at hq <;> cases hq
      · exact .expired hash now
      · exact .found now hf
  | gateRow hash now row =>
    obtain ⟨-, hq⟩ := Prod.mk.inj (List.mem_singleton.mp hq)
    dsimp only at hq
    split at hq
    · cases hq
    · next ha =>
      split at hq <;> cases hq
      · exact .barred hash now row
      · rw [userGate_epoch (by simpa using ha)]
        exact .gated hash now row
  | cacheRow hash now row epoch =>
    obtain ⟨-, hq⟩ := Prod.mk.inj (List.mem_singleton.mp hq)
    obtain ⟨expiresAt, rfl⟩ := maybeSlide_eq_await hq.symm
    exact .slideRow hash now row epoch expiresAt _
  | slideGet hash now expiresAt result =>
    obtain ⟨-, hq⟩ := Prod.mk.inj (List.mem_singleton.mp hq)
    split at hq
    · cases hq
    · next entry hc =>
      cases hq
      exact .refresh now expiresAt result hc
  | markRevoked hash u =>
    cases (failOpen_cases hq).2
    exact .marked hash u
  | expireEvict hash => cases (failOpen_cases hq).2
  | mintStatusSecond m epoch =>
    obtain ⟨-, hq⟩ := Prod.mk.inj (List.mem_singleton.mp hq)
    rw [mintGate_eq_await hq.symm]
    exact .statusSecond m epoch
  | mintEpochSecond m status =>
    obtain ⟨-, hq⟩ := Prod.mk.inj (List.mem_singleton.mp hq)
    rw [mintGate_eq_await hq.symm]
    exact .epochSecond m status
  | settleEpoch m epoch status =>
    obtain ⟨-, hq⟩ := Prod.mk.inj (List.mem_singleton.mp hq)
    split at hq
    · next he =>
      cases hq
      exact .settled status he
    · cases hq
      exact .unsettled m epoch status
  | settleStatus m epoch =>
    obtain ⟨-, hq⟩ := Prod.mk.inj (List.mem_singleton.mp hq)
    split at hq <;> cases hq
    · exact .refused m epoch
    · exact .resettled m epoch
  | targetRole u status =>
    obtain ⟨-, hq⟩ := Prod.mk.inj (List.mem_singleton.mp hq)
    split at hq <;> cases hq
    exact .targeted u status
  | clearBan u status =>
    obtain ⟨-, hq⟩ := Prod.mk.inj (List.mem_singleton.mp hq)
    split at hq
    · next hs =>
      cases hq
      exact hs ▸ .suspended u
    · next hs =>
      cases hq
      exact .cleared hs
  | deleteAll u =>
    obtain ⟨-, hq⟩ := Prod.mk.inj (List.mem_singleton.mp hq)
    rw [evictNext_eq_await hq.symm]
    exact .deletedAll u _ _
  | evictAll count hashes =>
    obtain ⟨hash, -, hq⟩ := List.mem_flatMap.mp hq
    rw [evictNext_eq_await (failOpen_cases hq).2.symm]
    exact .evictedOne count hashes _
  | slideSet hash now expiresAt value result | settleDelete m | mintCache m epoch status | revokeRow hash
  | bumpOnly u =>
    cases (Prod.mk.inj (List.mem_singleton.mp hq)).2
  | slideExpiry hash now expiresAt result | expireRow hash | mintEpochFirst m | mintStatusFirst m
  | mintInsert m epoch status | revokeEvict hash | markBanned u | bumpEpoch u =>
    cases (Prod.mk.inj (List.mem_singleton.mp hq)).2
    constructor

theorem statusAwait_cases (u : UserId) (status : AccountStatus) :
    statusAwait u status = .markBanned u ∨ statusAwait u status = .clearBan u status := by
  unfold statusAwait
  split
  · exact .inl rfl
  · exact .inr rfl

theorem token_of_access (hq : (s', .await q) ∈ cfg.access s p) : q.token = p.token ∧ q.mint = p.mint := by
  cases goes_of_access hq with
  | targeted u status => rcases statusAwait_cases u status with h | h <;> rw [h] <;> exact ⟨rfl, rfl⟩
  | _ => exact ⟨rfl, rfl⟩

namespace Effect

theorem users_eq (he : Effect cfg s p s') : s'.users = s.users := by cases he <;> rfl

theorem drawn_eq (he : Effect cfg s p s') : s'.drawn = s.drawn := by cases he <;> rfl

theorem presented_eq (he : Effect cfg s p s') : s'.presented = s.presented := by cases he <;> rfl

theorem issued_cases (he : Effect cfg s p s') :
    s'.issued = s.issued ∨ ∃ m epoch status, p = .mintCache m epoch status ∧
      s'.issued = (m.hash, m.userId) :: s.issued := by
  cases he with
  | issue m epoch status => exact .inr ⟨m, epoch, status, rfl, rfl⟩
  | _ => exact .inl rfl

/-- Only a sign-in inserts a row. -/
theorem rows_cases (he : Effect cfg s p s') {r : SessionRow} (hr : s'.rows.find? h = some r) :
    (∃ r₀, s.rows.find? h = some r₀ ∧ r₀.userId = r.userId) ∨
      ∃ m epoch status, p = .mintInsert m epoch status ∧ m.hash = h ∧ m.userId.value = r.userId := by
  cases he with
  | deleteRow p hash =>
    simp only [Shared.deleteById, Table.find?_remove] at hr
    split at hr
    · cases hr
    · exact .inl ⟨r, hr, rfl⟩
  | deleteAll u =>
    simp only [Shared.deleteAllForUser, Table.find?_filter, Option.filter_eq_some_iff] at hr
    exact .inl ⟨r, hr.1, rfl⟩
  | slide p hash expiresAt now =>
    simp only [Shared.updateExpiry, Table.find?_modify] at hr
    split at hr
    · obtain ⟨r₀, hr₀, rfl⟩ := Option.map_eq_some_iff.mp hr
      exact .inl ⟨r₀, hr₀, rfl⟩
    · exact .inl ⟨r, hr, rfl⟩
  | insert m epoch status =>
    simp only [Shared.insertRow, Table.find?_insert] at hr
    split at hr
    · next hm =>
      cases hf : s.rows.find? h with
      | some r₀ => exact .inl ⟨r₀, rfl, by simp_all⟩
      | none =>
        simp only [hf, Option.getD_none, Option.some.injEq] at hr
        exact .inr ⟨m, epoch, status, rfl, hm.symm, by rw [← hr]; rfl⟩
    · exact .inl ⟨r, hr, rfl⟩
  | _ => exact .inl ⟨r, hr, rfl⟩

/-- A new projection carries the epoch that its writer held. -/
theorem cached_cases (he : Effect cfg s p s') {e : CacheEntry} (hc : s'.cached h = some e) :
    s.cached h = some e ∨ (p.held = some e.held ∧ e.bumpsBefore = s'.bumps e.value.userId ∧
      (p.rewrites = some h ∨ ∃ m, p.mint = some m ∧ m.hash = h)) := by
  have hhash := Shared.hash_of_cached hc
  cases he with
  | evict p hash => exact .inl (Shared.cached_delCached hc).2
  | rewrite p hash value now hp hh =>
    rcases Shared.cached_setCached hc with ⟨rfl, rfl, hb⟩ | hc
    · exact .inr ⟨by rw [hh, CacheEntry.held, hhash], hb, .inl hp⟩
    · exact .inl hc
  | issue m epoch status =>
    rcases Shared.cached_setCached hc with ⟨rfl, hv, hb⟩ | hc
    · refine .inr ⟨?_, hv ▸ hb, .inr ⟨m, rfl, rfl⟩⟩
      simp [Await.held, CacheEntry.held, hv, hhash, mintProjection]
    · exact .inl hc
  | _ => exact .inl hc

theorem currentEpoch_eq (he : Effect cfg s p s') (hu : p.bumps ≠ some u) : s'.currentEpoch u = s.currentEpoch u := by
  cases he with
  | bump p v hp =>
    refine Shared.currentEpoch_incrEpoch_of_ne (fun huv => hu ?_) _
    rw [huv]
    exact hp
  | _ => rfl

theorem bumps_eq (he : Effect cfg s p s') (hu : p.bumps ≠ some u) : s'.bumps u = s.bumps u := by
  cases he with
  | bump p v hp =>
    refine Function.update_of_ne (fun huv => hu ?_) _ _
    rw [huv]
    exact hp
  | _ => rfl

end Effect

/-- Where the epoch that a call carries on comes from: it had it, or it found it in the
cache, or its status was looked up, or it was just read. -/
theorem held_of_access (hq : (s', .await q) ∈ cfg.access s p) {x : Held} (hx : q.held = some x) :
    p.held = some x ∨ (∃ e, s.cached x.hash = some e ∧ e.held = x) ∨
      (p.held = some { x with status := none } ∧ x.status = some (s.accountStatus x.userId)) ∨
      (x.epoch = s.currentEpoch x.userId ∧ p.reads = some (x.hash, x.userId, x.status)) := by
  cases goes_of_access hq with
  | cached now hc =>
    cases hx
    exact .inr (.inl ⟨_, hc, by rw [CacheEntry.held, Shared.hash_of_cached hc]⟩)
  | refresh now expiresAt result hc =>
    cases hx
    exact .inr (.inl ⟨_, hc, by rw [CacheEntry.held, Shared.hash_of_cached hc]⟩)
  | statusSecond m epoch | resettled m epoch =>
    cases hx
    exact .inr (.inr (.inl ⟨rfl, rfl⟩))
  | gated hash now row | epochFirst m | epochSecond m status | unsettled m epoch status =>
    cases hx
    exact .inr (.inr (.inr ⟨rfl, rfl⟩))
  | inserted m epoch status | settled status he => exact .inl hx
  | targeted u status => rcases statusAwait_cases u status with h | h <;> rw [h] at hx <;> cases hx
  | _ => cases hx

/-- A call comes to read an epoch through its sign-in, or with the row it has just found. -/
theorem reads_of_access (hq : (s', .await q) ∈ cfg.access s p) {st : Option AccountStatus}
    (hx : q.reads = some (h, u, st)) :
    (∃ x, q.mint = some x ∧ x.hash = h ∧ x.userId = u) ∨
      ∃ now row, p = .findRow h now ∧ q = .gateRow h now row ∧ s.findById h = some row ∧ row.userId = u := by
  cases goes_of_access hq with
  | found now hf =>
    cases hx
    exact .inr ⟨now, _, rfl, rfl, hf, rfl⟩
  | statusFirst m | inserted m epoch status =>
    cases hx
    exact .inl ⟨m, rfl, rfl, rfl⟩
  | targeted v status => rcases statusAwait_cases v status with h | h <;> rw [h] at hx <;> cases hx
  | _ => cases hx

theorem access_of_bumps (hn : (s', n) ∈ cfg.access s p) (hu : p.bumps = some u) :
    s'.currentEpoch u = s.currentEpoch u + 1 ∧ p.held = none ∧ p.reads = none := by
  cases p with
  | bumpEpoch v | bumpOnly v =>
    simp only [access, List.mem_singleton, Prod.mk.injEq] at hn
    cases hu
    rw [hn.1]
    exact ⟨Shared.currentEpoch_incrEpoch_self (Nat.add_pos_right _ (by decide)), rfl, rfl⟩
  | _ => cases hu

theorem bumps_of_access (hn : (s', n) ∈ cfg.access s p) (hu : p.bumps = some u) : s'.bumps u = s.bumps u + 1 := by
  cases p with
  | bumpEpoch v | bumpOnly v =>
    simp only [access, List.mem_singleton, Prod.mk.injEq] at hn
    cases hu
    rw [hn.1]
    exact Function.update_self ..
  | _ => cases hu

theorem entry_of_access (hq : (s', .await q) ∈ cfg.access s p) {e : CacheEntry} (he : q.entry = some e) :
    s.cached e.hash = some e := by
  cases goes_of_access hq with
  | cached now hc =>
    cases he
    rw [Shared.hash_of_cached hc, hc]
  | targeted u status => rcases statusAwait_cases u status with h | h <;> rw [h] at he <;> cases he
  | _ => cases he

theorem revokeRow_of_access (hq : (s', .await (.revokeRow h)) ∈ cfg.access s p) :
    p = .revokeEvict h ∧ s' = s.delCached h := by
  have hp : p = .revokeEvict h := by
    generalize hr : Await.revokeRow h = q at hq
    cases goes_of_access hq with
    | revoked hash =>
      cases hr
      rfl
    | targeted u status => rcases statusAwait_cases u status with h | h <;> rw [h] at hr <;> cases hr
    | _ => cases hr
  subst hp
  exact ⟨rfl, (Prod.mk.inj (List.mem_singleton.mp hq)).1⟩

theorem done_of_mintCache {x : Mint} {epoch : ℕ} {status : AccountStatus}
    (hn : (s', n) ∈ cfg.access s (.mintCache x epoch status)) : n = .done (.token x.hash) := by
  simp only [access, List.mem_singleton, Prod.mk.injEq] at hn
  exact hn.2

/-! ## Starting a call, and the environment -/

/-- The first await of a call, by what it is for. -/
theorem await_of_enter {o : Request} (he : cfg.enter s o = some (s', p)) :
    (∃ m, p = .mintEpochFirst m ∨ p = .mintStatusFirst m) ∨ (∃ hash now, p = .cacheGet hash now) ∨
      (∃ hash, p = .revokeEvict hash) ∨ p.token = none ∧ p.mint = none ∧ p.reads = none ∧ p.held = none ∧
        p.rewrites = none := by
  cases o with
  | createSession hash u roles epochFirst =>
    obtain ⟨-, he⟩ := Option.ite_none_left_eq_some.mp he
    cases he
    cases epochFirst with
    | true => exact .inl ⟨_, .inl rfl⟩
    | false => exact .inl ⟨_, .inr rfl⟩
  | resolveSession hash =>
    obtain ⟨-, he⟩ := Option.ite_none_left_eq_some.mp he
    cases he
    exact .inr (.inl ⟨_, _, rfl⟩)
  | revokeSession hash =>
    obtain ⟨-, he⟩ := Option.ite_none_left_eq_some.mp he
    cases he
    exact .inr (.inr (.inl ⟨_, rfl⟩))
  | revokeAllForUser u | banUser u =>
    cases he
    exact .inr (.inr (.inr ⟨rfl, rfl, rfl, rfl, rfl⟩))
  | applyAccountStatus u status =>
    cases he
    split <;> exact .inr (.inr (.inr ⟨rfl, rfl, rfl, rfl, rfl⟩))

theorem reads_of_enter {o : Request} (he : cfg.enter s o = some (s', p)) {st : Option AccountStatus}
    (hx : p.reads = some (h, u, st)) : ∃ x, p.mint = some x ∧ x.hash = h ∧ x.userId = u := by
  rcases await_of_enter he with ⟨x, rfl | rfl⟩ | ⟨hash, now, rfl⟩ | ⟨hash, rfl⟩ | ⟨-, -, hr, -⟩
  · simp only [Await.reads, Option.some.injEq, Prod.mk.injEq] at hx
    exact ⟨x, rfl, hx.1, hx.2.1⟩
  all_goals simp_all [Await.reads]

theorem held_of_enter {o : Request} (he : cfg.enter s o = some (s', p)) : p.held = none ∧ p.rewrites = none := by
  rcases await_of_enter he with ⟨x, rfl | rfl⟩ | ⟨hash, now, rfl⟩ | ⟨hash, rfl⟩ | ⟨-, -, -, hh, hr⟩
  · exact ⟨rfl, rfl⟩
  · exact ⟨rfl, rfl⟩
  · exact ⟨rfl, rfl⟩
  · exact ⟨rfl, rfl⟩
  · exact ⟨hh, hr⟩

theorem admits_of_enter {o : Request} (he : cfg.enter s o = some (s', p)) : o.Admits p := by
  cases o with
  | revokeSession hash =>
    simp only [enter, Option.ite_none_left_eq_some, Option.some.injEq, Prod.mk.injEq] at he
    exact .inl he.2.2.symm
  | revokeAllForUser u =>
    cases he
    exact .inl rfl
  | applyAccountStatus u st =>
    cases he
    intro hst
    simp [hst]
  | _ => trivial

theorem admits_of_access {o : Request} (ho : o.Admits p) (hq : (s', .await q) ∈ cfg.access s p) : o.Admits q := by
  have hgoes := goes_of_access hq
  cases o with
  | revokeSession hash =>
    rcases ho with rfl | rfl
    · cases hgoes
      exact .inr rfl
    · cases hgoes
  | revokeAllForUser u =>
    rcases ho with rfl | rfl | ⟨n, hs, rfl⟩
    · cases hgoes
      exact .inr (.inl rfl)
    · cases hgoes
      exact .inr (.inr ⟨_, _, rfl⟩)
    · cases hgoes
      exact .inr (.inr ⟨_, _, rfl⟩)
  | applyAccountStatus u st =>
    intro hst
    rcases ho hst with rfl | rfl | rfl | rfl | rfl | ⟨n, hs, rfl⟩
    · cases hgoes
      -- A refused status is a ban or a suspension.
      cases st with
      | banned => exact .inr (.inl rfl)
      | suspended => exact .inr (.inr (.inl rfl))
      | _ => cases hst
    · cases hgoes
      exact .inr (.inr (.inr (.inl rfl)))
    · cases hgoes with
      | suspended => exact .inr (.inr (.inr (.inl rfl)))
      | cleared hne => exact absurd rfl hne
    · cases hgoes
      exact .inr (.inr (.inr (.inr (.inl rfl))))
    · cases hgoes
      exact .inr (.inr (.inr (.inr (.inr ⟨_, _, rfl⟩))))
    · cases hgoes
      exact .inr (.inr (.inr (.inr (.inr ⟨_, _, rfl⟩))))
  | _ => trivial

/-- A new call writes its name into the records and leaves the rest alone. -/
theorem enter_cases {o : Request} (he : cfg.enter s o = some (s', p)) :
    (∃ hash u, u.IsPrinted ∧ hash ∉ s.drawn.map (·.1) ∧ hash ∉ s.presented ∧ s' = { s with drawn := (hash, u) :: s.drawn } ∧
      ∃ m, p.mint = some m ∧ m.hash = hash ∧ m.userId = u ∧ p.token = none) ∨
    (∃ hash, (hash ∈ s.drawn.map (·.1) → hash ∈ s.issued.map (·.1)) ∧
      s' = { s with presented := hash :: s.presented } ∧ p.token = some hash ∧ p.mint = none) ∨
    (s' = s ∧ p.token = none ∧ p.mint = none) := by
  cases o with
  | createSession hash u roles epochFirst =>
    simp only [enter, Option.ite_none_left_eq_some, Option.some.injEq, Prod.mk.injEq, not_or, not_not] at he
    obtain ⟨⟨-, hu, hd, hp⟩, rfl, rfl⟩ := he
    refine .inl ⟨hash, u, hu, hd, hp, rfl, ⟨hash, u, roles, s.now⟩, ?_, rfl, rfl, ?_⟩ <;> split <;> rfl
  | resolveSession hash | revokeSession hash =>
    simp only [enter, Option.ite_none_left_eq_some, Option.some.injEq, Prod.mk.injEq, not_and, not_not] at he
    obtain ⟨hd, rfl, rfl⟩ := he
    exact .inr (.inl ⟨hash, hd, rfl, rfl, rfl⟩)
  | revokeAllForUser u | banUser u =>
    cases he
    exact .inr (.inr ⟨rfl, rfl, rfl⟩)
  | applyAccountStatus u status =>
    cases he
    refine .inr (.inr ⟨rfl, ?_, ?_⟩) <;> split <;> rfl

/-- Two states that differ in the records only. -/
structure Same (s s' : Shared) : Prop where
  cached : ∀ h, s'.cached h = s.cached h
  currentEpoch : ∀ u, s'.currentEpoch u = s.currentEpoch u
  rows : s'.rows = s.rows
  users : s'.users = s.users
  bumps : s'.bumps = s.bumps
  presented : s.presented ⊆ s'.presented

theorem same_of_enter {o : Request} (he : cfg.enter s o = some (s', p)) : Same s s' := by
  rcases enter_cases he with ⟨hash, u, -, -, -, rfl, -⟩ | ⟨hash, -, rfl, -⟩ | ⟨rfl, -⟩
  · exact ⟨fun _ => rfl, fun _ => rfl, rfl, rfl, rfl, List.Subset.refl _⟩
  · exact ⟨fun _ => rfl, fun _ => rfl, rfl, rfl, rfl, List.subset_cons_self _ _⟩
  · exact ⟨fun _ => rfl, fun _ => rfl, rfl, rfl, rfl, List.Subset.refl _⟩

theorem environment_cases {e : Change} (he : environment s e = some s') :
    (∃ now, e = .tick now ∧ s.now ≤ now ∧ s' = { s with now := now }) ∨
      ∃ user, e = .setUser user ∧ s' = { s with users := s.users.put user } := by
  cases e with
  | tick now =>
    simp only [environment, Option.ite_none_right_eq_some, Option.some.injEq] at he
    exact .inl ⟨now, rfl, he.1, he.2.symm⟩
  | setUser user =>
    cases he
    exact .inr ⟨user, rfl, rfl⟩

/-- An epoch moves with the clock only when its key expires, and then to zero. -/
theorem currentEpoch_tick {now : Instant} (hle : s.now ≤ now) (u : UserId) :
    ({ s with now := now } : Shared).currentEpoch u = s.currentEpoch u ∨
      (({ s with now := now } : Shared).currentEpoch u = 0 ∧
        ∃ k, s.epochs.find? u = some k ∧ s.now < k.expiresAt ∧ k.expiresAt ≤ now) := by
  simp only [Shared.currentEpoch, Shared.liveEpoch]
  cases hk : s.epochs.find? u with
  | none => exact .inl rfl
  | some k =>
    by_cases h₁ : s.now < k.expiresAt
    · by_cases h₂ : now < k.expiresAt
      · simp [h₁, h₂, Option.filter]
      · exact .inr ⟨by simp [h₂, Option.filter], k, rfl, h₁, not_lt.mp h₂⟩
    · have h₂ : ¬ now < k.expiresAt := fun hlt => h₁ (lt_of_le_of_lt hle hlt)
      simp [h₁, h₂, Option.filter]

theorem cached_tick {now : Instant} (hle : s.now ≤ now) {e : CacheEntry}
    (hc : ({ s with now := now } : Shared).cached h = some e) : s.cached h = some e := by
  simp only [Shared.cached_eq_some] at hc ⊢
  exact ⟨hc.1, lt_of_le_of_lt hle hc.2⟩

end Config

end Civfix.Sessions
