import Civfix.SessionInvariants

/-! # How long a session lives

A renewal writes the new expiry into the row and then into the cache, each time bounded by
the ceiling `createdAt + absoluteMax`. While the resolutions of a session do not overlap, the
cached expiry stays at or below the stored one and both stay at or below the ceiling, so a
resolution that starts at or after either returns nothing. Everything else may interleave:
the calls of other sessions, revocations, sign-outs, bans, crashes and the clock. -/
namespace Civfix.Sessions

open KeyedTables InterleavedCalls

namespace Await

/-- The session that a call resolves. -/
def resolver : Await → Option Hash
  | .cacheGet hash _ | .gateCached hash _ _ | .evictRejected hash _ | .findRow hash _ | .gateRow hash _ _
  | .cacheRow hash _ _ _ | .slideExpiry hash _ _ _ | .slideGet hash _ _ _ | .slideSet hash _ _ _ _
  | .markRevoked hash _ | .expireRow hash | .expireEvict hash => some hash
  | _ => none

/-- The session of a sign-in that has not inserted its row yet. -/
def unsaved : Await → Option Hash
  | .mintEpochFirst m | .mintStatusSecond m _ | .mintStatusFirst m | .mintEpochSecond m _ | .mintInsert m _ _ =>
    some m.hash
  | _ => none

/-- The session whose row and projection a call may write. -/
def subject (p : Await) : Option Hash := p.resolver.or (p.mint.map (·.hash))

end Await

variable {cfg : Config} {s s' : Shared} {p q : Await} {n : Next Await Result} {h : Hash}

theorem resolver_of_access (hq : (s', .await q) ∈ cfg.access s p) : q.resolver = p.resolver := by
  cases Config.goes_of_access hq with
  | targeted u status => rcases Config.statusAwait_cases u status with h | h <;> rw [h] <;> rfl
  | _ => rfl

theorem unsaved_of_access (hq : (s', .await q) ∈ cfg.access s p) (hu : q.unsaved = some h) : p.unsaved = some h := by
  cases Config.goes_of_access hq with
  | targeted u status => rcases Config.statusAwait_cases u status with h | h <;> rw [h] at hu <;> cases hu
  | epochFirst m | statusSecond m epoch | statusFirst m | epochSecond m status => exact hu
  | _ => cases hu

theorem subject_of_access (hq : (s', .await q) ∈ cfg.access s p) : q.subject = p.subject := by
  rw [Await.subject, Await.subject, resolver_of_access hq, (Config.token_of_access hq).2]

theorem token_of_resolver (hp : p.resolver = some h) : p.token = some h := by
  cases p <;> simp_all [Await.resolver, Await.token]

/-! ## What the other calls do to a session -/

/-- The row and the projection of the session are as they were, or gone. -/
structure Shrinks (h : Hash) (s s' : Shared) : Prop where
  now : s.now ≤ s'.now
  rows : ∀ r, s'.rows.find? h = some r → s.rows.find? h = some r
  cached : ∀ e, s'.cached h = some e → s.cached h = some e

theorem Shrinks.refl (h : Hash) (s : Shared) : Shrinks h s s := ⟨le_rfl, fun _ hr => hr, fun _ he => he⟩

theorem shrinks_delCached (h x : Hash) (s : Shared) : Shrinks h s (s.delCached x) :=
  ⟨le_rfl, fun _ hr => hr, fun _ he => (Shared.cached_delCached he).2⟩

theorem shrinks_deleteById (h x : Hash) (s : Shared) : Shrinks h s (s.deleteById x) := by
  refine ⟨le_rfl, fun r hr => ?_, fun _ he => he⟩
  simp only [Shared.deleteById, Table.find?_remove] at hr
  split at hr
  · cases hr
  · exact hr

theorem shrinks_deleteAllForUser (h : Hash) (u : UserId) (s : Shared) : Shrinks h s (s.deleteAllForUser u) := by
  refine ⟨le_rfl, fun r hr => ?_, fun _ he => he⟩
  simp only [Shared.deleteAllForUser, Table.find?_filter, Option.filter_eq_some_iff] at hr
  exact hr.1

theorem shrinks_writeCache {x : Hash} (hx : x ≠ h) (value : CachedSession) (now : Instant) (s : Shared) :
    Shrinks h s (Config.writeCache s x value now) := by
  refine ⟨le_rfl, fun _ hr => hr, fun e he => ?_⟩
  rcases Shared.cached_setCached he with ⟨hh, -⟩ | he
  · exact absurd hh.symm hx
  · exact he

theorem shrinks_updateExpiry {x : Hash} (hx : x ≠ h) (expiresAt now : Instant) (s : Shared) :
    Shrinks h s (s.updateExpiry x expiresAt now) := by
  refine ⟨le_rfl, fun r hr => ?_, fun _ he => he⟩
  rwa [Shared.updateExpiry, Table.find?_modify, if_neg (Ne.symm hx)] at hr

theorem shrinks_insertRow (row : SessionRow) (hx : row.id ≠ h) (s : Shared) : Shrinks h s (s.insertRow row) := by
  refine ⟨le_rfl, fun r hr => ?_, fun _ he => he⟩
  rwa [Shared.insertRow, Table.find?_insert, if_neg (Ne.symm hx)] at hr

theorem shrinks_of_same (hsame : Config.Same s s') (hnow : s'.now = s.now) (h : Hash) : Shrinks h s s' :=
  ⟨hnow.ge, fun _ hr => hsame.rows ▸ hr, fun _ he => hsame.cached h ▸ he⟩

theorem shrinks_failOpen {done : Shared} {next : Next Await Result} (hn : (s', n) ∈ Config.failOpen s done next)
    (hdone : Shrinks h s done) : Shrinks h s s' := by
  obtain ⟨rfl | rfl, -⟩ := Config.failOpen_cases hn
  · exact hdone
  · exact .refl h _

theorem shrinks_of_eq {t : Shared} {next : Next Await Result} (hn : (s', n) ∈ [(t, next)]) (ht : Shrinks h s t) :
    Shrinks h s s' := by
  simp only [List.mem_singleton, Prod.mk.injEq] at hn
  exact hn.1 ▸ ht

/-- An access of a call that is not about the session. -/
theorem shrinks_of_access (hn : (s', n) ∈ cfg.access s p) (hp : p.subject ≠ some h) : Shrinks h s s' := by
  have hne : ∀ x, p.subject = some x → x ≠ h := fun x hx hxh => hp (hxh ▸ hx)
  cases p with
  | evictRejected hash now | expireEvict hash => exact shrinks_failOpen hn (shrinks_delCached h hash s)
  | markRevoked hash u => exact shrinks_failOpen hn ⟨le_rfl, fun _ hr => hr, fun _ he => he⟩
  | evictAll count hashes =>
    obtain ⟨hash, -, hn⟩ := List.mem_flatMap.mp hn
    exact shrinks_failOpen hn (shrinks_delCached h hash s)
  | cacheRow hash now row epoch => exact shrinks_of_eq hn (shrinks_writeCache (hne hash rfl) _ now s)
  | slideSet hash now expiresAt value result => exact shrinks_of_eq hn (shrinks_writeCache (hne hash rfl) _ now s)
  | slideExpiry hash now expiresAt result =>
    exact shrinks_of_eq hn (shrinks_updateExpiry (hne hash rfl) expiresAt now s)
  | mintInsert m epoch status => exact shrinks_of_eq hn (shrinks_insertRow (cfg.mintRow s m) (hne m.hash rfl) s)
  | mintCache m epoch status =>
    have hw := shrinks_writeCache (hne m.hash rfl) (cfg.mintProjection m epoch status) m.now s
    exact shrinks_of_eq hn ⟨hw.now, hw.rows, hw.cached⟩
  | expireRow hash | revokeRow hash => exact shrinks_of_eq hn (shrinks_deleteById h hash s)
  | settleDelete m => exact shrinks_of_eq hn (shrinks_deleteById h m.hash s)
  | revokeEvict hash => exact shrinks_of_eq hn (shrinks_delCached h hash s)
  | deleteAll u => exact shrinks_of_eq hn (shrinks_deleteAllForUser h u s)
  | _ => exact shrinks_of_eq hn ⟨le_rfl, fun _ hr => hr, fun _ he => he⟩

/-! ## The ceiling -/

/-- The session was created at `created`: its expiries keep to the ceiling, and the cached one
to the stored one. -/
structure Ceiling (cfg : Config) (h : Hash) (created : Instant) (s : Shared) : Prop where
  row : ∀ r, s.rows.find? h = some r → r.createdAt = created ∧ r.expiresAt ≤ created + cfg.absoluteMaxSeconds * 1000
  entry : ∀ e, s.cached h = some e →
    e.value.createdAtMs ≤ created ∧ e.value.expiresAtMs ≤ created + cfg.absoluteMaxSeconds * 1000
  le : ∀ r e, s.rows.find? h = some r → s.cached h = some e → e.value.expiresAtMs ≤ r.expiresAt

/-- What a call about the session knows at each await. -/
def Await.Lives (cfg : Config) (h : Hash) (created : Instant) (s : Shared) : Await → Prop
  | .gateCached hash _ e => hash = h → e.value.createdAtMs ≤ created ∧
      ∀ e', s.cached h = some e' → e'.value.expiresAtMs ≤ e.value.expiresAtMs
  | .gateRow hash _ row | .cacheRow hash _ row _ => hash = h → row.createdAt ≤ created ∧
      row.expiresAt ≤ created + cfg.absoluteMaxSeconds * 1000 ∧
      ∀ r, s.rows.find? h = some r → row.expiresAt ≤ r.expiresAt
  | .slideExpiry hash _ expiresAt _ => hash = h → expiresAt ≤ created + cfg.absoluteMaxSeconds * 1000 ∧
      ∀ e, s.cached h = some e → e.value.expiresAtMs ≤ expiresAt
  | .slideGet hash _ expiresAt _ => hash = h → expiresAt ≤ created + cfg.absoluteMaxSeconds * 1000 ∧
      ∀ r, s.rows.find? h = some r → expiresAt ≤ r.expiresAt
  | .slideSet hash _ expiresAt value _ => hash = h → value.createdAtMs ≤ created ∧
      expiresAt ≤ created + cfg.absoluteMaxSeconds * 1000 ∧ ∀ r, s.rows.find? h = some r → expiresAt ≤ r.expiresAt
  | .mintEpochFirst m | .mintStatusSecond m _ | .mintStatusFirst m | .mintEpochSecond m _ | .mintInsert m _ _ =>
      m.hash = h → m.now ≤ s.now ∧ (∀ r, s.rows.find? h ≠ some r) ∧ ∀ e, s.cached h ≠ some e
  | .settleEpoch m _ _ | .settleStatus m _ | .mintCache m _ _ => m.hash = h → m.now ≤ created ∧
      ∀ r, s.rows.find? h = some r → m.now + cfg.ttlSeconds * 1000 ≤ r.expiresAt
  | _ => True

variable {created : Instant}

theorem Ceiling.mono (hc : Ceiling cfg h created s) (hs : Shrinks h s s') : Ceiling cfg h created s' where
  row r hr := hc.row r (hs.rows r hr)
  entry e he := hc.entry e (hs.cached e he)
  le r e hr he := hc.le r e (hs.rows r hr) (hs.cached e he)

theorem Await.Lives.mono (hp : p.Lives cfg h created s) (hs : Shrinks h s s') : p.Lives cfg h created s' := by
  cases p with
  | gateCached hash now e =>
    intro hh
    exact ⟨(hp hh).1, fun e' he' => (hp hh).2 e' (hs.cached e' he')⟩
  | gateRow hash now row | cacheRow hash now row epoch =>
    intro hh
    exact ⟨(hp hh).1, (hp hh).2.1, fun r hr => (hp hh).2.2 r (hs.rows r hr)⟩
  | slideExpiry hash now expiresAt result =>
    intro hh
    exact ⟨(hp hh).1, fun e he => (hp hh).2 e (hs.cached e he)⟩
  | slideGet hash now expiresAt result =>
    intro hh
    exact ⟨(hp hh).1, fun r hr => (hp hh).2 r (hs.rows r hr)⟩
  | slideSet hash now expiresAt value result =>
    intro hh
    exact ⟨(hp hh).1, (hp hh).2.1, fun r hr => (hp hh).2.2 r (hs.rows r hr)⟩
  | mintEpochFirst m | mintStatusSecond m epoch | mintStatusFirst m | mintEpochSecond m status
  | mintInsert m epoch status =>
    intro hh
    obtain ⟨hnow, hrow, hentry⟩ := hp hh
    exact ⟨hnow.trans hs.now, fun r hr => hrow r (hs.rows r hr), fun e he => hentry e (hs.cached e he)⟩
  | settleEpoch m epoch status | settleStatus m epoch | mintCache m epoch status =>
    intro hh
    exact ⟨(hp hh).1, fun r hr => (hp hh).2 r (hs.rows r hr)⟩
  | _ => trivial

theorem Await.lives_of_ne (hp : p.subject ≠ some h) : p.Lives cfg h created s := by
  have hne : ∀ x, p.subject = some x → x ≠ h := fun x hx hxh => hp (hxh ▸ hx)
  cases p with
  | gateCached hash | gateRow hash | cacheRow hash | slideExpiry hash | slideGet hash | slideSet hash =>
    exact fun hh => absurd hh (hne hash rfl)
  | mintEpochFirst m | mintStatusSecond m | mintStatusFirst m | mintEpochSecond m | mintInsert m | settleEpoch m
  | settleStatus m | mintCache m => exact fun hh => absurd hh (hne m.hash rfl)
  | _ => trivial

/-- A renewal moves the expiry on and keeps it under the ceiling. -/
theorem slideTarget_bounds {current createdAt now expiresAt : Instant}
    (ht : cfg.slideTarget current createdAt now = some expiresAt) :
    current ≤ expiresAt ∧ expiresAt ≤ createdAt + cfg.absoluteMaxSeconds * 1000 := by
  unfold Config.slideTarget at ht
  split at ht
  · cases ht
  · dsimp only at ht
    split at ht
    · cases ht
    · next hgain =>
      cases ht
      exact ⟨(Nat.le_add_right _ _).trans (not_lt.mp hgain), min_le_right _ _⟩

theorem maybeSlide_await {hash : Hash} {current createdAt now : Instant} {result : ResolveResult}
    (hq : cfg.maybeSlide hash current createdAt now result = .await q) :
    ∃ expiresAt, cfg.slideTarget current createdAt now = some expiresAt ∧
      q = .slideExpiry hash now expiresAt result := by
  unfold Config.maybeSlide at hq
  split at hq
  · cases hq
  · next expiresAt ht => exact ⟨expiresAt, ht, by cases hq; rfl⟩

theorem findById_times {row : SessionRecord} (hr : s.findById h = some row) :
    ∃ r, s.rows.find? h = some r ∧ row.createdAt = r.createdAt ∧ row.expiresAt = r.expiresAt := by
  simp only [Shared.findById, Option.bind_eq_some_iff, Option.map_eq_some_iff] at hr
  obtain ⟨r, hr, user, -, rfl⟩ := hr
  exact ⟨r, hr, rfl, rfl⟩

theorem value_of_cached_writeCache {value : CachedSession} {now : Instant} {e : CacheEntry}
    (he : (Config.writeCache s h value now).cached h = some e) : e.value = value := by
  simp only [Config.writeCache, Shared.setCached, Shared.cached_eq_some, Table.find?_put, if_pos] at he
  rw [← Option.some.inj he.1]

theorem find?_updateExpiry {expiresAt now : Instant} {r : SessionRow}
    (hr : (s.updateExpiry h expiresAt now).rows.find? h = some r) :
    r.expiresAt = expiresAt ∧ ∃ r₀, s.rows.find? h = some r₀ ∧ r.createdAt = r₀.createdAt := by
  simp only [Shared.updateExpiry, Table.find?_modify, if_pos] at hr
  obtain ⟨r₀, hr₀, rfl⟩ := Option.map_eq_some_iff.mp hr
  exact ⟨rfl, r₀, hr₀, rfl⟩

theorem find?_insertRow_of_none {row : SessionRow} (hrow : ∀ r, s.rows.find? row.id ≠ some r) :
    (s.insertRow row).rows.find? row.id = some row := by
  have hnone : s.rows.find? row.id = none := Option.eq_none_iff_forall_ne_some.mpr hrow
  simp [Shared.insertRow, Table.find?_insert, hnone]

theorem Ceiling.writeCache (hc : Ceiling cfg h created s) (value : CachedSession)
    (hcreated : value.createdAtMs ≤ created)
    (hle : value.expiresAtMs ≤ created + cfg.absoluteMaxSeconds * 1000)
    (hrow : ∀ r, s.rows.find? h = some r → value.expiresAtMs ≤ r.expiresAt) (now : Instant) :
    Ceiling cfg h created (Config.writeCache s h value now) where
  row := hc.row
  entry e he := by
    rw [value_of_cached_writeCache he]
    exact ⟨hcreated, hle⟩
  le r e hr he := by
    rw [value_of_cached_writeCache he]
    exact hrow r hr

theorem Ceiling.updateExpiry (hc : Ceiling cfg h created s) {expiresAt : Instant}
    (hle : expiresAt ≤ created + cfg.absoluteMaxSeconds * 1000)
    (hentry : ∀ e, s.cached h = some e → e.value.expiresAtMs ≤ expiresAt) (now : Instant) :
    Ceiling cfg h created (s.updateExpiry h expiresAt now) where
  row r hr := by
    obtain ⟨hexp, r₀, hr₀, hcreated⟩ := find?_updateExpiry hr
    rw [hexp, hcreated]
    exact ⟨(hc.row r₀ hr₀).1, hle⟩
  entry := hc.entry
  le r e hr he := by
    rw [(find?_updateExpiry hr).1]
    exact hentry e he

theorem Ceiling.insertRow {row : SessionRow} (hid : row.id = h) (hcreated : row.createdAt = created)
    (hle : row.expiresAt ≤ created + cfg.absoluteMaxSeconds * 1000) (hrow : ∀ r, s.rows.find? h ≠ some r)
    (hentry : ∀ e, s.cached h ≠ some e) : Ceiling cfg h created (s.insertRow row) where
  row r hr := by
    subst hid
    rw [← Option.some.inj ((find?_insertRow_of_none hrow).symm.trans hr)]
    exact ⟨hcreated, hle⟩
  entry e he := absurd he (hentry e)
  le _ e _ he := absurd he (hentry e)

/-- A sign-in that inserts its row fixes when the session was created. -/
def CreatesAt (h : Hash) (created : Instant) (s : Shared) (p : Await) : Prop :=
  ∀ m epoch status, p = .mintInsert m epoch status → m.hash = h → created = s.now

/-- An access of a call about the session. -/
theorem Ceiling.access_subject (hcfg : cfg.ttlSeconds ≤ cfg.absoluteMaxSeconds) (hc : Ceiling cfg h created s)
    (hp : p.Lives cfg h created s) (hcreate : CreatesAt h created s p) (hsubject : p.subject = some h)
    (hn : (s', n) ∈ cfg.access s p) :
    Ceiling cfg h created s' ∧ ∀ q, n = .await q → q.Lives cfg h created s' := by
  -- A refresh of the lifetime by at most the ceiling, as a sign-in writes it.
  have hmint : ∀ t, t ≤ created → t + cfg.ttlSeconds * 1000 ≤ created + cfg.absoluteMaxSeconds * 1000 :=
    fun t ht => Nat.add_le_add ht (Nat.mul_le_mul_right _ hcfg)
  have hslide : ∀ {s₁ : Shared} {hash : Hash} {current createdAt now : Instant} {result : ResolveResult},
      createdAt ≤ created → (∀ e, s₁.cached h = some e → e.value.expiresAtMs ≤ current) →
      ∀ q, cfg.maybeSlide hash current createdAt now result = .await q → q.Lives cfg h created s₁ := by
    intro s₁ hash current createdAt now result hcreated hentry q hq
    obtain ⟨expiresAt, ht, rfl⟩ := maybeSlide_await hq
    obtain ⟨hge, hle⟩ := slideTarget_bounds ht
    exact fun _ => ⟨hle.trans (Nat.add_le_add_right hcreated _), fun e he => (hentry e he).trans hge⟩
  cases p with
  | cacheGet hash now =>
    cases hsubject
    simp only [Config.access, List.mem_singleton, Prod.mk.injEq] at hn
    obtain ⟨rfl, rfl⟩ := hn
    refine ⟨hc, fun q hq => ?_⟩
    split at hq
    · cases hq
      trivial
    · next e he =>
      split at hq
      · split at hq <;> cases hq
        · trivial
        · exact fun _ => ⟨(hc.entry e he).1, fun e' he' => (Option.some.inj (he.symm.trans he')) ▸ le_rfl⟩
      · cases hq
        trivial
  | gateCached hash now e =>
    cases hsubject
    simp only [Config.access, List.mem_singleton, Prod.mk.injEq] at hn
    obtain ⟨rfl, rfl⟩ := hn
    refine ⟨hc, fun q hq => ?_⟩
    split at hq
    · cases hq
    · split at hq
      · exact hslide (hp rfl).1 (hp rfl).2 q hq
      · cases hq
        trivial
  | findRow hash now =>
    cases hsubject
    simp only [Config.access, List.mem_singleton, Prod.mk.injEq] at hn
    obtain ⟨rfl, rfl⟩ := hn
    refine ⟨hc, fun q hq => ?_⟩
    split at hq
    · cases hq
    · next row hrow =>
      split at hq <;> cases hq
      · trivial
      · obtain ⟨r, hr, hcreated, hexp⟩ := findById_times hrow
        intro _
        refine ⟨hcreated ▸ (hc.row r hr).1.le, hexp ▸ (hc.row r hr).2, fun r' hr' => ?_⟩
        rw [hexp, Option.some.inj (hr.symm.trans hr')]
  | gateRow hash now row =>
    cases hsubject
    simp only [Config.access, List.mem_singleton, Prod.mk.injEq] at hn
    obtain ⟨rfl, rfl⟩ := hn
    refine ⟨hc, fun q hq => ?_⟩
    split at hq
    · cases hq
    · split at hq <;> cases hq
      · trivial
      · exact hp
  | cacheRow hash now row epoch =>
    cases hsubject
    simp only [Config.access, List.mem_singleton, Prod.mk.injEq] at hn
    obtain ⟨rfl, rfl⟩ := hn
    obtain ⟨hcreated, hle, hrow⟩ := hp rfl
    refine ⟨hc.writeCache (Config.rowProjection row epoch) hcreated hle hrow now, hslide hcreated fun e he => ?_⟩
    rw [value_of_cached_writeCache he]
    exact le_rfl
  | slideExpiry hash now expiresAt result =>
    cases hsubject
    simp only [Config.access, List.mem_singleton, Prod.mk.injEq] at hn
    obtain ⟨rfl, rfl⟩ := hn
    refine ⟨hc.updateExpiry (hp rfl).1 (hp rfl).2 now, fun q hq => ?_⟩
    cases hq
    exact fun _ => ⟨(hp rfl).1, fun r hr => (find?_updateExpiry hr).1.ge⟩
  | slideGet hash now expiresAt result =>
    cases hsubject
    simp only [Config.access, List.mem_singleton, Prod.mk.injEq] at hn
    obtain ⟨rfl, rfl⟩ := hn
    refine ⟨hc, fun q hq => ?_⟩
    split at hq <;> cases hq
    next e he => exact fun _ => ⟨(hc.entry e he).1, (hp rfl).1, (hp rfl).2⟩
  | slideSet hash now expiresAt value result =>
    cases hsubject
    simp only [Config.access, List.mem_singleton, Prod.mk.injEq] at hn
    obtain ⟨rfl, rfl⟩ := hn
    obtain ⟨hcreated, hle, hrow⟩ := hp rfl
    exact ⟨hc.writeCache { value with expiresAtMs := expiresAt } hcreated hle hrow now, fun q hq => by cases hq⟩
  | evictRejected hash now =>
    have hsh := shrinks_failOpen hn (shrinks_delCached h hash s)
    obtain ⟨-, rfl⟩ := Config.failOpen_cases hn
    refine ⟨hc.mono hsh, fun q hq => ?_⟩
    cases hq
    trivial
  | expireEvict hash =>
    have hsh := shrinks_failOpen hn (shrinks_delCached h hash s)
    obtain ⟨-, rfl⟩ := Config.failOpen_cases hn
    exact ⟨hc.mono hsh, fun q hq => by cases hq⟩
  | markRevoked hash u =>
    have hsh : Shrinks h s s' := shrinks_failOpen hn ⟨le_rfl, fun _ hr => hr, fun _ he => he⟩
    obtain ⟨-, rfl⟩ := Config.failOpen_cases hn
    refine ⟨hc.mono hsh, fun q hq => ?_⟩
    cases hq
    trivial
  | expireRow hash =>
    simp only [Config.access, List.mem_singleton, Prod.mk.injEq] at hn
    obtain ⟨rfl, rfl⟩ := hn
    refine ⟨hc.mono (shrinks_deleteById h hash s), fun q hq => ?_⟩
    cases hq
    trivial
  | settleDelete m =>
    simp only [Config.access, List.mem_singleton, Prod.mk.injEq] at hn
    obtain ⟨rfl, rfl⟩ := hn
    exact ⟨hc.mono (shrinks_deleteById h m.hash s), fun q hq => by cases hq⟩
  | mintEpochFirst m | mintStatusFirst m =>
    simp only [Config.access, List.mem_singleton, Prod.mk.injEq] at hn
    obtain ⟨rfl, rfl⟩ := hn
    refine ⟨hc, fun q hq => ?_⟩
    cases hq
    exact hp
  | mintStatusSecond m epoch | mintEpochSecond m status =>
    simp only [Config.access, Config.mintGate, List.mem_singleton, Prod.mk.injEq] at hn
    obtain ⟨rfl, rfl⟩ := hn
    refine ⟨hc, fun q hq => ?_⟩
    split at hq <;> cases hq
    exact hp
  | mintInsert m epoch status =>
    cases hsubject
    simp only [Config.access, List.mem_singleton, Prod.mk.injEq] at hn
    obtain ⟨rfl, rfl⟩ := hn
    obtain ⟨hnow, hrow, hentry⟩ := hp rfl
    have hcreated : created = s.now := hcreate m epoch status rfl rfl
    have hle := hmint m.now (hcreated ▸ hnow)
    have hceil : Ceiling cfg m.hash created (s.insertRow (cfg.mintRow s m)) :=
      .insertRow rfl hcreated.symm hle hrow hentry
    refine ⟨hceil, fun q hq => ?_⟩
    cases hq
    refine fun _ => ⟨hcreated ▸ hnow, fun r hr => ?_⟩
    rw [← Option.some.inj ((find?_insertRow_of_none hrow).symm.trans hr)]
    exact le_rfl
  | settleEpoch m epoch status =>
    simp only [Config.access, List.mem_singleton, Prod.mk.injEq] at hn
    obtain ⟨rfl, rfl⟩ := hn
    refine ⟨hc, fun q hq => ?_⟩
    split at hq <;> cases hq <;> exact hp
  | settleStatus m epoch =>
    simp only [Config.access, List.mem_singleton, Prod.mk.injEq] at hn
    obtain ⟨rfl, rfl⟩ := hn
    refine ⟨hc, fun q hq => ?_⟩
    split at hq <;> cases hq
    · trivial
    · exact hp
  | mintCache m epoch status =>
    cases hsubject
    simp only [Config.access, List.mem_singleton, Prod.mk.injEq] at hn
    obtain ⟨rfl, rfl⟩ := hn
    obtain ⟨hnow, hrow⟩ := hp rfl
    have hceil := hc.writeCache (cfg.mintProjection m epoch status) hnow (hmint m.now hnow) hrow m.now
    exact ⟨⟨hceil.row, hceil.entry, hceil.le⟩, fun q hq => by cases hq⟩
  | _ => cases hsubject

/-- An access of any call keeps the ceiling, and leaves the call with what it has to know at its
next await. -/
theorem Ceiling.access (hcfg : cfg.ttlSeconds ≤ cfg.absoluteMaxSeconds) (hc : Ceiling cfg h created s)
    (hp : p.Lives cfg h created s) (hcreate : CreatesAt h created s p) (hn : (s', n) ∈ cfg.access s p) :
    Ceiling cfg h created s' ∧ ∀ q, n = .await q → q.Lives cfg h created s' := by
  by_cases hsubject : p.subject = some h
  · exact hc.access_subject hcfg hp hcreate hsubject hn
  · refine ⟨hc.mono (shrinks_of_access hn hsubject), fun q hq => ?_⟩
    subst hq
    rw [← subject_of_access hn] at hsubject
    exact Await.lives_of_ne hsubject

/-! ## Runs in which the resolutions of the session do not overlap -/

/-- The session is resolved only while no other resolution of it is in progress. -/
def Sequential (h : Hash) (w : World) : Move → Prop
  | .start o => o = .resolveSession h → ∀ x ∈ w.calls, ∀ c ∈ x, c.origin ≠ .resolveSession h
  | _ => True

instance (h : Hash) (w : World) : DecidablePred (Sequential h w)
  | .start o => inferInstanceAs (Decidable (o = _ → ∀ x ∈ w.calls, ∀ c ∈ x, c.origin ≠ .resolveSession h))
  | .access _ _ => inferInstanceAs (Decidable True)
  | .crash _ => inferInstanceAs (Decidable True)
  | .environment _ => inferInstanceAs (Decidable True)

def resolving (h : Hash) (c : Call Request Await) : Option Unit :=
  if c.origin = .resolveSession h then some () else none

/-- The invariant of such a run. -/
structure Living (cfg : Config) (h : Hash) (created : Instant) (w : World) : Prop where
  holds : Machine.Holds (Ceiling cfg h created) (fun s _ (c : Call Request Await) => c.await.Lives cfg h created s ∧
    ∀ x, c.await.resolver = some x → c.origin = .resolveSession x) w
  exclusive : Machine.Exclusive (resolving h) w

variable {w w' : World} {m : Move} {r : Option Result}

theorem Await.Lives.of_unsaved (hp : p.Lives cfg h created s) (hu : p.unsaved = some h) :
    (∀ r, s.rows.find? h ≠ some r) ∧ ∀ e, s.cached h ≠ some e := by
  cases p with
  | mintEpochFirst m | mintStatusSecond m epoch | mintStatusFirst m | mintEpochSecond m status
  | mintInsert m epoch status =>
    cases hu
    exact (hp rfl).2
  | _ => cases hu

theorem subject_eq_some (hp : p.subject = some h) : p.resolver = some h ∨ ∃ x, p.mint = some x ∧ x.hash = h := by
  rcases Option.or_eq_some_iff.mp hp with hr | ⟨-, hm⟩
  · exact .inl hr
  · obtain ⟨x, hx, hxh⟩ := Option.map_eq_some_iff.mp hm
    exact .inr ⟨x, hx, hxh⟩

theorem subject_of_unsaved (hp : p.unsaved = some h) : p.subject = some h := by
  cases p with
  | mintEpochFirst m | mintStatusSecond m epoch | mintStatusFirst m | mintEpochSecond m status
  | mintInsert m epoch status => exact hp
  | _ => cases hp

theorem Shared.Recorded.not_both (hs : s.Recorded) (hp : p.Recorded s) (hq : q.Recorded s) (hr : p.resolver = some h)
    {x : Mint} (hx : q.mint = some x) : x.hash ≠ h := by
  rintro rfl
  obtain ⟨hdrawn, hissued⟩ := hq.mint x hx
  exact hissued (hs.presented _ (hp.token _ (token_of_resolver hr)) (List.mem_map_of_mem hdrawn))

/-- At most one call is about the session. -/
theorem Living.subject_ne (hw : Living cfg h created w) (hsound : Sound w) {i j : ℕ} {c d : Call Request Await}
    (hc : w.call i = some c) (hd : w.call j = some d) (hij : j ≠ i) (hsubject : c.await.subject = some h) :
    d.await.subject ≠ some h := by
  intro hsubject'
  have hrec := hsound.recorded
  have hcrec := hrec.calls i c hc
  have hdrec := hrec.calls j d hd
  rcases subject_eq_some hsubject with hr | ⟨x, hx, hxh⟩ <;> rcases subject_eq_some hsubject' with hr' | ⟨y, hy, hyh⟩
  · have hco := (hw.holds.calls i c hc).2 h hr
    have hdo := (hw.holds.calls j d hd).2 h hr'
    exact hij (hw.exclusive j i d c () hd hc (if_pos hdo) (if_pos hco))
  · exact hrec.shared.not_both hcrec hdrec hr hy hyh
  · exact hrec.shared.not_both hdrec hcrec hr' hx hxh
  · exact hij (hsound.unique j i d c h hd hc (by simp [hy, hyh]) (by simp [hx, hxh]))

theorem now_of_enter {o : Request} (he : cfg.enter s o = some (s', p)) : s'.now = s.now := by
  rcases Config.enter_cases he with ⟨hash, u, -, -, -, rfl, -⟩ | ⟨hash, -, rfl, -⟩ | ⟨rfl, -⟩ <;> rfl

theorem lives_of_enter {o : Request} (hrec : s.Recorded) (he : cfg.enter s o = some (s', p)) :
    p.Lives cfg h created s' ∧ ∀ x, p.resolver = some x → o = .resolveSession x := by
  cases o with
  | createSession hash u roles epochFirst =>
    simp only [Config.enter, Option.ite_none_left_eq_some, Option.some.injEq, Prod.mk.injEq, not_or] at he
    obtain ⟨⟨-, -, hnew, -⟩, rfl, rfl⟩ := he
    have hfresh : hash = h → (∀ r, s.rows.find? h ≠ some r) ∧ ∀ e, s.cached h ≠ some e := by
      rintro rfl
      exact ⟨fun r hr => hnew (List.mem_map_of_mem (hrec.rows _ r hr)),
        fun e he => hnew (List.mem_map_of_mem (hrec.cached _ e he))⟩
    cases epochFirst
    · exact ⟨fun hh => ⟨le_rfl, hfresh hh⟩, fun x hx => by cases hx⟩
    · exact ⟨fun hh => ⟨le_rfl, hfresh hh⟩, fun x hx => by cases hx⟩
  | resolveSession hash =>
    simp only [Config.enter, Option.ite_none_left_eq_some, Option.some.injEq, Prod.mk.injEq] at he
    obtain ⟨-, -, rfl⟩ := he
    refine ⟨trivial, fun x hx => ?_⟩
    cases hx
    rfl
  | revokeSession hash =>
    simp only [Config.enter, Option.ite_none_left_eq_some, Option.some.injEq, Prod.mk.injEq] at he
    obtain ⟨-, -, rfl⟩ := he
    exact ⟨trivial, fun x hx => by cases hx⟩
  | revokeAllForUser u | banUser u =>
    cases he
    exact ⟨trivial, fun x hx => by cases hx⟩
  | applyAccountStatus u status =>
    cases he
    split
    · exact ⟨trivial, fun x hx => by cases hx⟩
    · exact ⟨trivial, fun x hx => by cases hx⟩

theorem shrinks_of_environment {e : Config.Change} (he : Config.environment s e = some s') (h : Hash) :
    Shrinks h s s' := by
  rcases Config.environment_cases he with ⟨now, -, hle, rfl⟩ | ⟨user, -, rfl⟩
  · exact ⟨hle, fun _ hr => hr, fun _ hc => Config.cached_tick hle hc⟩
  · exact ⟨le_rfl, fun _ hr => hr, fun _ hc => hc⟩

theorem Living.step (hcfg : cfg.ttlSeconds ≤ cfg.absoluteMaxSeconds) (hw : Living cfg h created w) (hsound : Sound w)
    (hok : Sequential h w m) (hs : cfg.machine.step w m = some (w', r))
    (hcreate : ∀ i k c, m = .access i k → w.call i = some c → CreatesAt h created w.shared c.await) :
    Living cfg h created w' := by
  constructor
  · refine hw.holds.step hs ?_ ?_ ?_
    · intro o s p _ he
      have hsh := shrinks_of_same (Config.same_of_enter he) (now_of_enter he) h
      refine ⟨hw.holds.shared.mono hsh, lives_of_enter hsound.recorded.shared he, fun i c hc => ?_⟩
      obtain ⟨hlives, horigin⟩ := hw.holds.calls i c hc
      exact ⟨hlives.mono hsh, horigin⟩
    · intro i k c s n hm hc hn
      obtain ⟨hlives, horigin⟩ := hw.holds.calls i c hc
      obtain ⟨hceiling, hnext⟩ := hw.holds.shared.access hcfg hlives (hcreate i k c hm hc) hn
      refine ⟨hceiling, fun q hq => ⟨hnext q hq, fun x hx => ?_⟩, fun j d hj hd => ?_⟩
      · subst hq
        exact horigin x (resolver_of_access hn ▸ hx)
      · obtain ⟨hlives', horigin'⟩ := hw.holds.calls j d hd
        refine ⟨?_, horigin'⟩
        by_cases hsubject : c.await.subject = some h
        · exact Await.lives_of_ne (hw.subject_ne hsound hc hd hj hsubject)
        · exact hlives'.mono (shrinks_of_access hn hsubject)
    · intro e s _ he
      have hsh := shrinks_of_environment he h
      refine ⟨hw.holds.shared.mono hsh, fun i c hc => ?_⟩
      obtain ⟨hlives, horigin⟩ := hw.holds.calls i c hc
      exact ⟨hlives.mono hsh, horigin⟩
  · refine hw.exclusive.step_taking hs ?_ ?_
    · intro o s p hm _ k hk i c hc hck
      simp only [resolving, ite_eq_left_iff, reduceCtorEq, imp_false, not_not] at hk hck
      subst hm
      exact hok hk _ (World.mem_calls hc) c rfl hck
    · intro i k c s q _ _ _
      exact .inl rfl

/-- Before the session has a row, it may be taken to be created at any time. -/
theorem Living.rebase (hw : Living cfg h created w) (hsound : Sound w) {i : ℕ} {c : Call Request Await}
    (hc : w.call i = some c) (hu : c.await.unsaved = some h) (created' : Instant) : Living cfg h created' w := by
  obtain ⟨hrow, hentry⟩ := (hw.holds.calls i c hc).1.of_unsaved hu
  refine ⟨⟨⟨fun r hr => absurd hr (hrow r), fun e he => absurd he (hentry e), fun r _ hr => absurd hr (hrow r)⟩, ?_⟩,
    hw.exclusive⟩
  intro j d hd
  obtain ⟨hlives, horigin⟩ := hw.holds.calls j d hd
  refine ⟨?_, horigin⟩
  by_cases hj : j = i
  · subst hj
    obtain rfl : c = d := Option.some.inj (hc.symm.trans hd)
    -- What a sign-in knows before it inserts does not mention the time.
    generalize c.await = p at hu hlives ⊢
    cases p with
    | mintEpochFirst m | mintStatusSecond m epoch | mintStatusFirst m | mintEpochSecond m status
    | mintInsert m epoch status => exact hlives
    | _ => cases hu
  · exact Await.lives_of_ne (hw.subject_ne hsound hc hd hj (subject_of_unsaved hu))

theorem living_initial (created : Instant) : Living cfg h created (.initial .empty) :=
  ⟨⟨⟨fun _ hr => (nomatch hr), fun _ he => (nomatch he), fun _ _ hr => (nomatch hr)⟩, fun _ _ hc => (nomatch hc)⟩,
    fun _ _ _ _ _ hc => (nomatch hc)⟩

theorem living_of_run (hcfg : cfg.ttlSeconds ≤ cfg.absoluteMaxSeconds)
    (hrun : Machine.Run cfg.machine (Sequential h) (.initial .empty) w) : Sound w ∧
    ∃ created, Living cfg h created w := by
  refine ⟨sound_of_run hrun sound_initial, ?_⟩
  induction hrun with
  | refl => exact ⟨0, living_initial 0⟩
  | @tail v _ _ hrun m hok hs ih =>
    obtain ⟨created, hv⟩ := ih
    have hsound : Sound v := sound_of_run hrun sound_initial
    by_cases hins : ∃ i k c, m = .access i k ∧ v.call i = some c ∧ c.await.unsaved = some h
    · obtain ⟨i, k, c, -, hc, hu⟩ := hins
      refine ⟨v.shared.now, (hv.rebase hsound hc hu v.shared.now).step hcfg hsound hok hs ?_⟩
      exact fun _ _ _ _ _ _ _ _ _ _ => rfl
    · refine ⟨created, hv.step hcfg hsound hok hs fun i k c hm hc x epoch status hp hx => ?_⟩
      exact absurd ⟨i, k, c, hm, hc, by rw [hp, ← hx]; rfl⟩ hins

/-- The session is past the insertion of its row. -/
structure Saved (h : Hash) (w : World) : Prop where
  drawn : h ∈ w.shared.drawn.map (·.1)
  calls : ∀ i c, w.call i = some c → c.await.unsaved ≠ some h

theorem drawn_of_step (hs : cfg.machine.step w m = some (w', r)) (hd : h ∈ w.shared.drawn.map (·.1)) :
    h ∈ w'.shared.drawn.map (·.1) := by
  rcases Machine.shared_cases hs with ⟨o, p, -, he⟩ | ⟨i, k, c, n, -, -, hn⟩ | ⟨i, -, heq⟩ | ⟨e, -, he, -⟩
  · rcases Config.enter_cases he with ⟨hash, u, -, -, -, heq, -⟩ | ⟨hash, -, heq, -⟩ | ⟨heq, -⟩
    · rw [heq]
      exact List.mem_cons_of_mem _ hd
    · rwa [heq]
    · rwa [heq]
  · rwa [(Config.effect_of_access hn).drawn_eq]
  · rwa [heq]
  · rcases Config.environment_cases he with ⟨now, -, -, heq⟩ | ⟨user, -, heq⟩ <;> rwa [heq]

theorem unsaved_of_enter {o : Request} (he : cfg.enter s o = some (s', p)) (hu : p.unsaved = some h) :
    h ∉ s.drawn.map (·.1) := by
  rcases Config.enter_cases he with ⟨hash, u, -, hd, -, -, x, hx, rfl, -⟩ | ⟨hash, -, -, -, hm⟩ | ⟨-, -, hm⟩
  · rcases subject_eq_some (subject_of_unsaved hu) with hr | ⟨y, hy, rfl⟩
    · cases p <;> cases hr <;> cases hu
    · rw [Option.some.inj (hy.symm.trans hx)]
      exact hd
  · cases p <;> cases hm <;> cases hu
  · cases p <;> cases hm <;> cases hu

theorem Saved.step (hw : Saved h w) (hs : cfg.machine.step w m = some (w', r)) : Saved h w' := by
  refine ⟨drawn_of_step hs hw.drawn, fun i c hc hu => ?_⟩
  rcases Machine.call_cases hs hc with ⟨o, p, -, -, rfl, he⟩ | ⟨k, d, p, -, hd, rfl, hmem⟩ | ⟨hc, -⟩
  · exact unsaved_of_enter he hu hw.drawn
  · exact hw.calls i d hd (unsaved_of_access hmem hu)
  · exact hw.calls i c hc hu

theorem Living.saved (hw : Living cfg h created w) (hsound : Sound w) {row : SessionRow}
    (hrow : w.shared.rows.find? h = some row) : Saved h w := by
  refine ⟨List.mem_map_of_mem (hsound.recorded.shared.rows h row hrow), fun i c hc hu => ?_⟩
  exact ((hw.holds.calls i c hc).1.of_unsaved hu).1 row hrow

/-- From its first row on, the session keeps the time it was created at. -/
structure Kept (cfg : Config) (h : Hash) (created : Instant) (w : World) : Prop where
  sound : Sound w
  living : Living cfg h created w
  saved : Saved h w

theorem Kept.step (hcfg : cfg.ttlSeconds ≤ cfg.absoluteMaxSeconds) (hw : Kept cfg h created w) (hok : Sequential h w m)
    (hs : cfg.machine.step w m = some (w', r)) : Kept cfg h created w' := by
  refine ⟨hw.sound.step hs, hw.living.step hcfg hw.sound hok hs ?_, hw.saved.step hs⟩
  intro i k c _ hc x epoch status hp hx
  exact absurd (by rw [hp, ← hx]; rfl) (hw.saved.calls i c hc)

theorem kept_of_run (hcfg : cfg.ttlSeconds ≤ cfg.absoluteMaxSeconds) {v : World} {row : SessionRow}
    (hbefore : Machine.Run cfg.machine (Sequential h) (.initial .empty) v) (hrow : v.shared.rows.find? h = some row) :
    Kept cfg h row.createdAt v := by
  obtain ⟨hsound, created, hliving⟩ := living_of_run hcfg hbefore
  obtain ⟨hcreated, -⟩ := hliving.holds.shared.row row hrow
  exact ⟨hsound, hcreated ▸ hliving, hliving.saved hsound hrow⟩

/-! ## What a resolution answers -/

/-- The expiries of the session are at most `limit`. -/
structure Upto (h : Hash) (limit : Instant) (s : Shared) : Prop where
  row : ∀ r, s.rows.find? h = some r → r.expiresAt ≤ limit
  entry : ∀ e, s.cached h = some e → e.value.expiresAtMs ≤ limit

theorem Upto.mono {limit : Instant} (hu : Upto h limit s) (hs : Shrinks h s s') : Upto h limit s' :=
  ⟨fun r hr => hu.row r (hs.rows r hr), fun e he => hu.entry e (hs.cached e he)⟩

/-- An expiry that a resolution may answer with. -/
def Timely (cfg : Config) (created t limit : Instant) (expiresAt : Instant) : Prop :=
  t < expiresAt ∧ expiresAt ≤ limit ∧ t < created + cfg.absoluteMaxSeconds * 1000

/-- What a resolution that started at `t`, with the expiries at most `limit`, knows at each
await. -/
def Await.Within (cfg : Config) (h : Hash) (created t limit : Instant) (s : Shared) : Await → Prop
  | .cacheGet hash now | .evictRejected hash now | .findRow hash now => hash = h ∧ now = t ∧ Upto h limit s
  | .gateCached hash now e =>
      hash = h ∧ now = t ∧ Upto h limit s ∧ Timely cfg created t limit e.value.expiresAtMs
  | .gateRow hash now row | .cacheRow hash now row _ => hash = h ∧ now = t ∧ Timely cfg created t limit row.expiresAt
  | .slideExpiry hash _ _ result | .slideGet hash _ _ result | .slideSet hash _ _ _ result =>
      hash = h ∧ Timely cfg created t limit result.expiresAtMs
  | .markRevoked hash _ | .expireRow hash | .expireEvict hash => hash = h
  | _ => False

variable {t limit : Instant}

theorem Await.Within.resolver (hp : p.Within cfg h created t limit s) : p.resolver = some h := by
  cases p with
  | cacheGet | evictRejected | findRow | gateCached | gateRow | cacheRow | slideExpiry | slideGet | slideSet =>
    exact congrArg some hp.1
  | markRevoked | expireRow | expireEvict => exact congrArg some hp
  | _ => cases hp

theorem Await.Within.mono (hp : p.Within cfg h created t limit s) (hs : Shrinks h s s') :
    p.Within cfg h created t limit s' := by
  cases p with
  | cacheGet | evictRejected | findRow => exact ⟨hp.1, hp.2.1, hp.2.2.mono hs⟩
  | gateCached => exact ⟨hp.1, hp.2.1, hp.2.2.1.mono hs, hp.2.2.2⟩
  | _ => exact hp

theorem not_absolutelyExpired {createdAt now : Instant} (hn : ¬ cfg.absolutelyExpired createdAt now = true)
    (hle : createdAt ≤ created) : now < created + cfg.absoluteMaxSeconds * 1000 := by
  simp only [Config.absolutelyExpired, decide_eq_true_eq, not_le] at hn
  exact hn.trans_le (Nat.add_le_add_right hle _)

/-- The same after an access, where the call may also return. -/
def WithinNext (cfg : Config) (h : Hash) (created t limit : Instant) (s : Shared) : Next Await Result → Prop
  | .await q => q.Within cfg h created t limit s
  | .done (.resolved (some x)) => Timely cfg created t limit x.expiresAtMs
  | .done _ => True

theorem withinNext_maybeSlide {current createdAt now : Instant} {result : ResolveResult}
    (ht : Timely cfg created t limit result.expiresAtMs) :
    WithinNext cfg h created t limit s (cfg.maybeSlide h current createdAt now result) := by
  unfold Config.maybeSlide
  split
  · exact ht
  · exact ⟨rfl, ht⟩

theorem Await.Within.access (hc : Ceiling cfg h created s) (hp : p.Within cfg h created t limit s)
    (hn : (s', n) ∈ cfg.access s p) : WithinNext cfg h created t limit s' n := by
  cases p with
  | cacheGet hash now =>
    obtain ⟨rfl, rfl, hu⟩ := hp
    simp only [Config.access, List.mem_singleton, Prod.mk.injEq] at hn
    obtain ⟨rfl, rfl⟩ := hn
    split
    · exact ⟨rfl, rfl, hu⟩
    · next e he =>
      split
      · next hlive =>
        split
        · exact rfl
        · next habs =>
          simp only [Bool.and_eq_true, decide_eq_true_eq] at hlive
          exact ⟨rfl, rfl, hu, hlive.1, hu.entry e he, not_absolutelyExpired habs (hc.entry e he).1⟩
      · exact ⟨rfl, rfl, hu⟩
  | gateCached hash now e =>
    obtain ⟨rfl, rfl, hu, ht⟩ := hp
    simp only [Config.access, List.mem_singleton, Prod.mk.injEq] at hn
    obtain ⟨rfl, rfl⟩ := hn
    split
    · trivial
    · split
      · exact withinNext_maybeSlide ht
      · exact ⟨rfl, rfl, hu⟩
  | evictRejected hash now =>
    obtain ⟨hhash, hnow, hu⟩ := hp
    have hsh : Shrinks h s s' := shrinks_failOpen hn (shrinks_delCached h hash s)
    obtain ⟨-, rfl⟩ := Config.failOpen_cases hn
    exact ⟨hhash, hnow, hu.mono hsh⟩
  | findRow hash now =>
    obtain ⟨rfl, rfl, hu⟩ := hp
    simp only [Config.access, List.mem_singleton, Prod.mk.injEq] at hn
    obtain ⟨rfl, rfl⟩ := hn
    split
    · trivial
    · next row hrow =>
      split
      · exact rfl
      · next hlive =>
        simp only [Bool.or_eq_true, decide_eq_true_eq, not_or, not_le] at hlive
        obtain ⟨r, hr, hcreated, hexp⟩ := findById_times hrow
        have hle : row.createdAt ≤ created := hcreated ▸ (hc.row r hr).1.le
        exact ⟨rfl, rfl, hlive.1, hexp ▸ hu.row r hr, not_absolutelyExpired hlive.2 hle⟩
  | gateRow hash now row =>
    simp only [Config.access, List.mem_singleton, Prod.mk.injEq] at hn
    obtain ⟨rfl, rfl⟩ := hn
    split
    · trivial
    · split
      · exact hp.1
      · exact hp
  | cacheRow hash now row epoch =>
    obtain ⟨rfl, -, ht⟩ := hp
    simp only [Config.access, List.mem_singleton, Prod.mk.injEq] at hn
    obtain ⟨-, rfl⟩ := hn
    exact withinNext_maybeSlide ht
  | slideGet hash now expiresAt result =>
    simp only [Config.access, List.mem_singleton, Prod.mk.injEq] at hn
    obtain ⟨-, rfl⟩ := hn
    split
    · exact hp.2
    · exact hp
  | slideSet hash now expiresAt value result =>
    simp only [Config.access, List.mem_singleton, Prod.mk.injEq] at hn
    obtain ⟨-, rfl⟩ := hn
    exact hp.2
  | slideExpiry hash now expiresAt result | expireRow hash =>
    simp only [Config.access, List.mem_singleton, Prod.mk.injEq] at hn
    obtain ⟨-, rfl⟩ := hn
    exact hp
  | markRevoked hash u =>
    obtain ⟨-, rfl⟩ := Config.failOpen_cases hn
    exact hp
  | expireEvict hash =>
    obtain ⟨-, rfl⟩ := Config.failOpen_cases hn
    trivial
  | _ => cases hp

/-- The call numbered `i` is a resolution that started at `t`, or has ended. -/
structure Resolving (cfg : Config) (h : Hash) (created t limit : Instant) (i : ℕ) (w : World) : Prop where
  kept : Kept cfg h created w
  started : i < w.calls.length
  within : ∀ c, w.call i = some c → c.await.Within cfg h created t limit w.shared

theorem Resolving.step (hcfg : cfg.ttlSeconds ≤ cfg.absoluteMaxSeconds) {i : ℕ}
    (hw : Resolving cfg h created t limit i w) (hok : Sequential h w m) (hs : cfg.machine.step w m = some (w', r)) :
    Resolving cfg h created t limit i w' := by
  refine ⟨hw.kept.step hcfg hok hs, hw.started.trans_le (Machine.length_le_of_step hs), fun c hc => ?_⟩
  rcases Machine.call_cases hs hc with ⟨o, p, -, hi, -⟩ | ⟨k, d, p, -, hd, rfl, hmem⟩ | ⟨hc, hne⟩
  · exact absurd hw.started (by rw [hi]; exact lt_irrefl _)
  · exact (hw.within d hd).access hw.kept.living.holds.shared hmem
  · have hwithin := hw.within c hc
    refine hwithin.mono ?_
    rcases Machine.shared_cases hs with ⟨o, p, -, he⟩ | ⟨j, k, d, n, rfl, hd, hn⟩ | ⟨j, -, heq⟩ | ⟨e, -, he, -⟩
    · exact shrinks_of_same (Config.same_of_enter he) (now_of_enter he) h
    · have hji : j ≠ i := by
        rintro rfl
        exact hne k rfl
      have hsubject : c.await.subject = some h := by rw [Await.subject, hwithin.resolver]; rfl
      exact shrinks_of_access hn (hw.kept.living.subject_ne hw.kept.sound hc hd hji hsubject)
    · rw [heq]
      exact .refl h _
    · exact shrinks_of_environment he h

theorem resolving_of_start {o : Option Result} (hw : Kept cfg h created w)
    (hcfg : cfg.ttlSeconds ≤ cfg.absoluteMaxSeconds)
    (hok : Sequential h w (.start (.resolveSession h)))
    (hs : cfg.machine.step w (.start (.resolveSession h)) = some (w', o)) (hu : Upto h limit w.shared) :
    Resolving cfg h created w.shared.now limit w.calls.length w' := by
  have hkept := hw.step hcfg hok hs
  simp only [Machine.step, Config.machine, Option.map_eq_some_iff, Prod.mk.injEq] at hs
  obtain ⟨⟨s, p⟩, he, rfl, -⟩ := hs
  refine ⟨hkept, by simp [World.push], fun c hc => ?_⟩
  rw [World.call_push, if_pos rfl] at hc
  cases hc
  simp only [Config.enter, Option.ite_none_left_eq_some, Option.some.injEq, Prod.mk.injEq] at he
  obtain ⟨-, rfl, rfl⟩ := he
  exact ⟨rfl, rfl, hu.row, hu.entry⟩

/-- A resolution that answers with the session started before its ceiling and before the expiry
it answers with, which is at most the one stored when it started. -/
theorem timely_of_resolved (hcfg : cfg.ttlSeconds ≤ cfg.absoluteMaxSeconds) (hw : Kept cfg h created w)
    {w₁ w₂ w₃ : World}
    {o : Option Result} {k : ℕ} {x : ResolveResult} (hok : Sequential h w (.start (.resolveSession h)))
    (hs : cfg.machine.step w (.start (.resolveSession h)) = some (w₁, o)) (hu : Upto h limit w.shared)
    (hrun : Machine.Run cfg.machine (Sequential h) w₁ w₂)
    (hreturn : cfg.machine.step w₂ (.access w.calls.length k) = some (w₃, some (.resolved (some x)))) :
    Timely cfg created w.shared.now limit x.expiresAtMs := by
  have hresolving : Resolving cfg h created w.shared.now limit w.calls.length w₂ :=
    hrun.invariant (resolving_of_start hw hcfg hok hs hu) (fun hv hokv hsv => hv.step hcfg hokv hsv)
  obtain ⟨i, l, c, hm, hc, hmem⟩ := Machine.return_cases hreturn
  cases hm
  exact (hresolving.within c hc).access hresolving.kept.living.holds.shared hmem

/-- From the first row of a session on, its stored and cached expiries stay at or below
`createdAt + absoluteMax`, and a resolution that answers with it started before that ceiling,
before the expiry in its answer and before the stored expiry of that moment. -/
theorem session_lifetime (hcfg : cfg.ttlSeconds ≤ cfg.absoluteMaxSeconds) {v : World} {row : SessionRow}
    (hbefore : Machine.Run cfg.machine (Sequential h) (.initial .empty) v) (hrow : v.shared.rows.find? h = some row)
    (hafter : Machine.Run cfg.machine (Sequential h) v w) :
    (∀ r, w.shared.rows.find? h = some r →
      r.createdAt = row.createdAt ∧ r.expiresAt ≤ row.createdAt + cfg.absoluteMaxSeconds * 1000) ∧
    (∀ e, w.shared.cached h = some e → e.value.expiresAtMs ≤ row.createdAt + cfg.absoluteMaxSeconds * 1000) ∧
    ∀ w₁ w₂ w₃ o k x, Sequential h w (.start (.resolveSession h)) →
      cfg.machine.step w (.start (.resolveSession h)) = some (w₁, o) →
      Machine.Run cfg.machine (Sequential h) w₁ w₂ →
      cfg.machine.step w₂ (.access w.calls.length k) = some (w₃, some (.resolved (some x))) →
      w.shared.now < row.createdAt + cfg.absoluteMaxSeconds * 1000 ∧ w.shared.now < x.expiresAtMs ∧
        ∀ r, w.shared.rows.find? h = some r → w.shared.now < r.expiresAt := by
  have hkept : Kept cfg h row.createdAt w :=
    hafter.invariant (kept_of_run hcfg hbefore hrow) (fun hv hok hs => hv.step hcfg hok hs)
  have hceiling := hkept.living.holds.shared
  refine ⟨hceiling.row, fun e he => (hceiling.entry e he).2, fun w₁ w₂ w₃ o k x hok hs hrun hreturn => ?_⟩
  have hupto : Upto h (row.createdAt + cfg.absoluteMaxSeconds * 1000) w.shared :=
    ⟨fun r hr => (hceiling.row r hr).2, fun e he => (hceiling.entry e he).2⟩
  obtain ⟨hexp, -, hceil⟩ := timely_of_resolved hcfg hkept hok hs hupto hrun hreturn
  refine ⟨hceil, hexp, fun r hr => ?_⟩
  have huptoRow : Upto h r.expiresAt w.shared := by
    refine ⟨fun r' hr' => ?_, fun e he => hceiling.le r e hr he⟩
    rw [Option.some.inj (hr.symm.trans hr')]
  obtain ⟨hlt, hle, -⟩ := timely_of_resolved hcfg hkept hok hs huptoRow hrun hreturn
  exact hlt.trans_le hle

/-- A sign-in (call 0) that has inserted its row and has not written the cache yet. -/
def firstRow : List Move :=
  [.environment (.setUser ⟨1, .citizen, .active, false⟩), .start (.createSession 10 1 [.citizen] true), .access 0 0,
    .access 0 0, .access 0 0]

/-- The sign-in ends, and twenty days pass. -/
def waiting : List Move := [.access 0 0, .access 0 0, .environment (.tick 1728000000)]

/-- The accesses of a resolution (call 1) up to the last. -/
def renewing : List Move := [.access 1 0, .access 1 0, .access 1 0, .access 1 0]

/-- Twenty days later the session is resolved from the cache and renewed. -/
theorem session_lifetime_renewed :
    ∃ v w w₁ w₂ w₃ row o x, Machine.Run Config.default.machine (Sequential 10) (.initial .empty) v ∧
      v.shared.rows.find? 10 = some row ∧ Machine.Run Config.default.machine (Sequential 10) v w ∧
      Config.default.machine.step w (.start (.resolveSession 10)) = some (w₁, o) ∧
      Machine.Run Config.default.machine (Sequential 10) w₁ w₂ ∧
      Config.default.machine.step w₂ (.access w.calls.length 0) = some (w₃, some (.resolved (some x))) ∧
      w.shared.now < row.createdAt + ABSOLUTE_SESSION_MAX_SECONDS * 1000 ∧ w.shared.now < x.expiresAtMs ∧
      (w₃.shared.rows.find? 10).map (·.expiresAt) = some 4320000000 := by
  have hsignIn : Machine.Allowed Config.default.machine (Sequential 10) (.initial .empty) firstRow ∧
      ∃ v ∈ Config.default.machine.perform (.initial .empty) firstRow, ∃ row ∈ v.shared.rows.find? 10,
      Machine.Allowed Config.default.machine (Sequential 10) v waiting ∧
      ∃ w ∈ Config.default.machine.perform v waiting, w.calls.length = 1 := by
    decide +kernel
  have hrenew : ∀ v ∈ Config.default.machine.perform (.initial .empty) firstRow,
      ∀ w ∈ Config.default.machine.perform v waiting,
      Machine.Allowed Config.default.machine (Sequential 10) w (.start (.resolveSession 10) :: renewing) ∧
      ∃ w₁ ∈ Config.default.machine.step w (.start (.resolveSession 10)),
      ∃ w₂ ∈ Config.default.machine.perform w₁.1 renewing,
      ∃ w₃ ∈ Config.default.machine.step w₂ (.access w.calls.length 0),
        w₃.2 = some (.resolved (some ⟨1, [.citizen], .active, .cache, 2592000000⟩)) ∧
        (w₃.1.shared.rows.find? 10).map (·.expiresAt) = some 4320000000 := by
    decide +kernel
  obtain ⟨hokv, v, hv, row, hrow, hokw, w, hw, -⟩ := hsignIn
  obtain ⟨⟨hok, hok₂⟩, ⟨w₁, o⟩, hs, w₂, hw₂, ⟨w₃, _⟩, hreturn, rfl, hexp⟩ := hrenew v hv w hw
  have hbefore := Machine.run_of_perform hokv hv
  have hafter := Machine.run_of_perform hokw hw
  have hduring := Machine.run_of_perform (hok₂ _ hs) hw₂
  obtain ⟨-, -, hanswer⟩ := session_lifetime (by decide) hbefore hrow hafter
  obtain ⟨hceil, hlt, -⟩ := hanswer w₁ w₂ w₃ o 0 _ hok hs hduring hreturn
  exact ⟨v, w, w₁, w₂, w₃, row, o, _, hbefore, hrow, hafter, hs, hduring, hreturn, hceil, hlt, hexp⟩

end Civfix.Sessions
