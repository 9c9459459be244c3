import Civfix.AnonymousReports

/-! # What the operations on reports do

Lookups after each write, and for each operation that reads before it writes one lemma that says what it
leaves at its commit point: every other operation makes only writes that need no guard, and `Plainly`
lists them. -/
namespace Civfix.AnonymousReports

open KeyedTables LockedTransactions RelationalStores
open Filings (ReportStatus ReportId UserId Instant)

/-! ## What the bodies write -/

theorem plainly_insertOr {φ : Write → Prop} {w : Write} (h : φ w) (hg : guardsOf w.name w.key = []) (e : Refusal) :
    Schema.Plainly φ (insertOr w e) :=
  (Schema.plainly_insertRow h hg).bind (fun _ => Schema.plainly_ite (Schema.plainly_pure _) (Schema.plainly_abort _))

theorem plainly_attachReportMedia {φ : Write → Prop} (h : ∀ u r, φ (attach u r)) (cfg : Config)
    (a : CreateAnonReportTxArgs) :
    Schema.Plainly φ (attachReportMedia cfg a) := by
  refine Schema.plainly_ite (Schema.plainly_pure _) (Schema.Plainly.bind (Schema.plainly_selectFor _ _) (fun _ => ?_))
  refine Schema.Plainly.bind (Schema.plainly_dml (fun d w hw => ?_) _) (fun _ => ?_)
  · obtain ⟨u, -, rfl⟩ := List.mem_map.mp hw
    exact ⟨h u a.reportId, rfl⟩
  · exact Schema.plainly_ite (Schema.plainly_abort _) (Schema.plainly_pure _)

theorem plainly_lockFirstPending {φ : Write → Prop} (token : TokenId) (rs : List ReportId) :
    Schema.Plainly φ (lockFirstPending token rs) := by
  induction rs with
  | nil => exact Schema.plainly_pure _
  | cons r rs ih =>
    exact Schema.Plainly.bind (Schema.plainly_selectFor _ _) (fun _ => Schema.plainly_ite (Schema.plainly_pure _) ih)

theorem plainly_rotateIfPending {φ : Write → Prop} (cfg : Config) (h : ∀ r code, φ (rotate cfg r code)) (r : ReportId)
    (token : Option TokenId) (code : Code) : Schema.Plainly φ (rotateIfPending cfg r token code) := by
  refine Schema.Plainly.bind (Schema.plainly_updateFound (fun x => ⟨h x.id code, rfl⟩)) (fun found => ?_)
  match found with
  | none => exact Schema.plainly_pure _
  | some (_, true) => exact Schema.plainly_pure _
  | some (_, false) => exact Schema.plainly_abort _

theorem plainly_replaySnapshot {φ : Write → Prop} (cfg : Config) (h : ∀ r code, φ (rotate cfg r code)) (key : KeyId)
    (userOrAnon : Option TokenId) (newCode : Code) : Schema.Plainly φ (replaySnapshot cfg key userOrAnon newCode) := by
  refine Schema.Plainly.bind (Schema.plainly_select _) (fun stored => ?_)
  match stored with
  | none => exact Schema.plainly_pure _
  | some k =>
    refine Schema.Plainly.bind (plainly_rotateIfPending cfg h _ _ _) (fun rotated => ?_)
    match rotated with
    | none => exact Schema.plainly_abort _
    | some _ => exact Schema.plainly_pure _

theorem plainly_rotatePendingClaimCode {φ : Write → Prop} (cfg : Config) (h : ∀ r code, φ (rotate cfg r code))
    (token : TokenId) (code : Code) : Schema.Plainly φ (rotatePendingClaimCode cfg token code) := by
  refine Schema.Plainly.bind (Schema.plainly_select _)
    (fun rs => Schema.Plainly.bind (plainly_lockFirstPending _ _) (fun found => ?_))
  match found with
  | none => exact Schema.plainly_pure _
  | some r =>
    refine Schema.Plainly.bind (plainly_rotateIfPending cfg h _ _ _) (fun rotated => ?_)
    match rotated with
    | none => exact Schema.plainly_pure _
    | some _ => exact Schema.plainly_pure _

/-! ## Lookups -/

/-- The kind of an account's vote on a report. -/
def findVote (s : Db) (r : ReportId) (user : UserId) : Option ReportVote :=
  ((s TableName.confirmations).find? (r, user)).map Confirmation.kind

theorem findVote_writeVote (s : Db) (r : ReportId) (user : UserId) (after : Option ReportVote) (k : ReportId)
    (u : UserId) :
    ((s.apply (writeVote r user after) TableName.confirmations).find? (k, u)) =
      if (k, u) = (r, user) then after.map (fun kind => ⟨r, user, kind⟩) else (s TableName.confirmations).find? (k,
        u) := by
  cases after with
  | none => exact s.find?_apply (deleteVote r user) (k, u)
  | some kind => exact s.find?_apply (putVote r user kind) (k, u)

theorem reports_writeVote (s : Db) (r : ReportId) (user : UserId) (after : Option ReportVote) :
    s.apply (writeVote r user after) TableName.reports = s TableName.reports := by
  refine s.apply_of_ne _ ?_
  cases after <;> rintro ⟨⟩

theorem reports_addCounts (s : Db) (r : ReportId) (seen fixed : ℤ) (k : ReportId) :
    (s.apply (addCounts r seen fixed) TableName.reports).find? k =
      if k = r then ((s TableName.reports).find? r).map (fun x =>
        { x with confirmCount := addFloored x.confirmCount seen, fixedCount := addFloored x.fixedCount fixed })
      else (s TableName.reports).find? k := s.find?_apply (addCounts r seen fixed) k

theorem confirmations_addCounts (s : Db) (r : ReportId) (seen fixed : ℤ) :
    s.apply (addCounts r seen fixed) TableName.confirmations = s TableName.confirmations :=
  s.apply_of_ne (addCounts r seen fixed) (by rintro ⟨⟩)

theorem reports_link (s : Db) (r : ReportId) (user : UserId) (k : ReportId) :
    (s.apply (link r user) TableName.reports).find? k =
      if k = r then ((s TableName.reports).find? r).map (fun x =>
        { x with reporterUserId := some user, claimCodeHash := none, claimants := user :: x.claimants })
      else (s TableName.reports).find? k := s.find?_apply (link r user) k

theorem confirmations_link (s : Db) (r : ReportId) (user : UserId) :
    s.apply (link r user) TableName.confirmations = s TableName.confirmations :=
      s.apply_of_ne (link r user) (by rintro ⟨⟩)

theorem reports_rotate (cfg : Config) (s : Db) (r : ReportId) (code : Code) (k : ReportId) :
    (s.apply (rotate cfg r code) TableName.reports).find? k =
      if k = r then ((s TableName.reports).find? r).map (fun x =>
        { x with claimCodeHash := some (cfg.sha256Hex code), handedOut := some code })
      else (s TableName.reports).find? k := s.find?_apply (rotate cfg r code) k

theorem reports_insertReport (s : Db) (x : Report) (k : ReportId) :
    (s.apply (insertReport x) TableName.reports).find? k =
      if k = x.id then some (((s TableName.reports).find? x.id).getD x) else (s TableName.reports).find? k :=
  s.find?_apply (insertReport x) k

/-! ## Votes -/

theorem vote_of_held {held : List schema.Lock} {v s : Db} (h : schema.engine.Agree held v s) {r : ReportId}
    (hr : lockRow .reports r ∈ held) (user : UserId) :
    (s TableName.confirmations).find? (r, user) = (v TableName.confirmations).find? (r, user) :=
  Schema.same_of_held h hr (.inr (List.mem_singleton_self _))

theorem guards_writeVote (r : ReportId) (user : UserId) (after : Option ReportVote) :
    guardsOf (writeVote r user after).name (writeVote r user after).key = [⟨.reports, r⟩] := by
  cases after <;> rfl

/-- The database after a vote that was `before` is `after`, and the counts have followed. -/
def movedVote (s : Db) (r : ReportId) (user : UserId) (before after : Option ReportVote) : Db :=
  (s.apply (writeVote r user after)).apply (addCounts r (delta before after .seen) (delta before after .fixed))

section Statements

variable {held : List schema.Lock} {s : Db} {r : ReportId}

theorem wlp_addCounts (seen fixed : ℤ) {Q : List schema.Lock → Unit → Db → Prop}
    (h : ∀ held', Q held' () (s.apply (addCounts r seen fixed))) :
    schema.engine.wlp schema.engine.Agree held s
      (Schema.dml (fun _ => [addCounts r seen fixed]) (fun _ => ()) : Transaction Unit) Q := by
  refine Schema.wlp_dml (fun v _ => ⟨fun w hw g hg => ?_, h _⟩)
  obtain rfl := List.mem_singleton.mp hw
  exact absurd hg List.not_mem_nil

theorem guards_of_held (hr : lockRow .reports r ∈ held) (user : UserId) (after : Option ReportVote)
    (ls : List schema.Lock) :
    ∀ w ∈ [writeVote r user after], ∀ g ∈ guardsOf w.name w.key, Schema.Lock.row g ∈ held ++ ls := by
  intro w hw g hg
  obtain rfl := List.mem_singleton.mp hw
  have hg' : g ∈ [(⟨.reports, r⟩ : (t : TableName) × KeyOf t)] := guards_writeVote r user after ▸ hg
  obtain rfl := List.mem_singleton.mp hg'
  exact List.mem_append_left _ hr

/-- `dropVote` under the report's lock. -/
theorem wlp_dropVote (hr : lockRow .reports r ∈ held) (user : UserId) {Q : List schema.Lock → Unit → Db → Prop}
    (hnone : ∀ held', findVote s r user = none → Q held' () s)
    (hsome : ∀ held' kind, findVote s r user = some kind → Q held' () (movedVote s r user (some kind) none)) :
    schema.engine.wlp schema.engine.Agree held s (dropVote r user) Q := by
  unfold dropVote
  rw [Engine.wlp_bind]
  refine Schema.wlp_dml (fun v hv => ?_)
  have hvote := vote_of_held hv (List.mem_append_left _ hr) user
  cases hc : (v TableName.confirmations).find? (r, user) with
  | none => exact ⟨fun w hw => absurd hw List.not_mem_nil, hnone _ (congrArg _ (hvote.trans hc))⟩
  | some c =>
    have hfound : findVote s r user = some c.kind := congrArg _ (hvote.trans hc)
    refine ⟨guards_of_held hr user none _, ?_⟩
    cases hk : c.kind with
    | seen =>
      simp only [Option.map_some, hk]
      exact wlp_addCounts (-1) 0 (fun held' => hsome held' .seen (hk ▸ hfound))
    | fixed =>
      simp only [Option.map_some, hk]
      exact wlp_addCounts 0 (-1) (fun held' => hsome held' .fixed (hk ▸ hfound))

end Statements

/-- A vote is allowed on a report of someone else. -/
theorem reporter_of_allowed {cfg : Config} {x : Report} {user : UserId} {c : VoteChange}
    (h : confirmationVerdict cfg x user c = .allowed) : x.reporterUserId ≠ some user := by
  intro hr
  unfold confirmationVerdict at h
  rw [hr] at h
  split at h
  · cases h
  · split at h
    · cases h
    · rw [if_pos rfl] at h
      cases h

theorem claimable_spec {s : Db} {h : Digest} {x : Report} (hx : claimable s h = some x) :
    (s TableName.reports).find? x.id = some x ∧ x.claimCodeHash = some h ∧ x.reporterUserId = none ∧
      x.deletedAt = none := by
  refine ⟨Table.mem_rows_iff.mp (List.mem_of_find?_eq_some hx), ?_⟩
  simpa using List.find?_some hx

/-- `setConfirmation` refuses, finds the vote as it should be, or moves it on a report of someone else. -/
theorem wlp_setConfirmation (cfg : Config) (r : ReportId) (user : UserId) (vote : ReportVote) (c : VoteChange) {s : Db}
    {Q : List schema.Lock → Outcome → Db → Prop} (hkept : ∀ held v, Q held (.vote v) s)
    (hmoved : ∀ held x n m after, (s TableName.reports).find? r = some x → x.reporterUserId ≠ some user →
      Q held (.vote (.applied n m after)) (movedVote s r user (findVote s r user) after)) :
    schema.engine.wlp schema.engine.Agree [] s (setConfirmation cfg r user vote c) Q := by
  unfold setConfirmation
  rw [Engine.wlp_bind]
  refine Engine.wlp_selectFor _ (fun v hv => ?_)
  have hrow : (s TableName.reports).find? r = (v TableName.reports).find? r :=
    Schema.row_of_held hv (List.mem_singleton_self _)
  rw [← hrow]
  cases hx : (s TableName.reports).find? r with
  | none => exact hkept _ _
  | some x =>
    cases hverdict : confirmationVerdict cfg x user c with
    | notFound =>
      simp only [hverdict]
      exact hkept _ _
    | forbidden =>
      simp only [hverdict]
      exact hkept _ _
    | closed =>
      simp only [hverdict]
      exact hkept _ _
    | allowed =>
      simp only [hverdict]
      rw [Engine.wlp_bind]
      refine Engine.wlp_select _ (fun v' hv' => ?_)
      -- the vote that is read stays the account's vote until the commit
      have hvote : findVote s r user = ((v' TableName.confirmations).find? (r, user)).map Confirmation.kind :=
        congrArg (Option.map Confirmation.kind) (vote_of_held hv' (List.mem_singleton_self _) user)
      simp only [← hvote]
      split
      · exact hkept _ _
      · rw [Engine.wlp_bind]
        refine Schema.wlp_dml (fun v'' _ => ⟨guards_of_held (List.mem_singleton_self _) user _ _, ?_⟩)
        rw [Engine.wlp_bind]
        exact wlp_addCounts _ _ (fun held' => hmoved held' x _ _ _ hx (reporter_of_allowed hverdict))

/-! ## Claim codes -/

section Statements

variable {held : List schema.Lock} {s : Db}

theorem wlp_insertOr {w : Write} {e : Refusal} {Q : List schema.Lock → Unit → Db → Prop}
    (hg : guardsOf w.name w.key = [])
    (h : (s w.name).find? w.key = none → s.FreeFor w.name w.key w.moves → ∀ held', Q held' () (s.apply w)) :
    schema.engine.wlp schema.engine.Agree held s (insertOr w e) Q := by
  unfold insertOr
  rw [Engine.wlp_bind]
  refine Schema.wlp_insertRow (fun g hgw => ?_) trivial (fun hnone hfree => h hnone hfree _)
  have hgw' : g ∈ guardsOf w.name w.key := hgw
  rw [hg] at hgw'
  exact absurd hgw' List.not_mem_nil

/-- `claimByCode` finds no row, or links the one that the code opens and drops the claimant's vote. -/
theorem wlp_claimByCode (cfg : Config) (code : Code) (user : UserId) {Q : List schema.Lock → Outcome → Db → Prop}
    (hnone : Q [] .unknownCode s)
    (hclaim : ∀ held x s', (s TableName.reports).find? x.id = some x → x.reporterUserId = none →
      (findVote s x.id user = none ∧ s' = s.apply (link x.id user) ∨
        ∃ kind, findVote s x.id user = some kind ∧ s' =
          movedVote (s.apply (link x.id user)) x.id user (some kind) none) →
      Q held (.claimed x.id) s') :
    schema.engine.wlp schema.engine.Agree [] s (claimByCode cfg code user) Q := by
  unfold claimByCode
  rw [Engine.wlp_bind]
  refine Schema.wlp_updateFound (fun _ _ _ => hnone)
    (fun v x hv hx => ⟨fun g hg => absurd hg List.not_mem_nil, ?_, fun _ => ?_⟩)
  · exact fun hclash => absurd (Schema.Db.freeFor_nil v _ _) hclash
  · have hlock : lockRow .reports x.id ∈ [] ++ (link x.id user).locks := List.mem_cons_self ..
    obtain ⟨hxv, -, hrep, -⟩ := claimable_spec hx
    have hrow : (s TableName.reports).find? x.id = some x := (Schema.row_of_held hv hlock).trans hxv
    have hvote : findVote (s.apply (link x.id user)) x.id user = findVote s x.id user := by
      rw [findVote, confirmations_link, findVote]
    rw [Engine.wlp_bind]
    refine wlp_dropVote hlock user (fun held' hv => ?_) (fun held' kind hv => ?_)
    · exact hclaim held' x _ hrow hrep (.inl ⟨hvote ▸ hv, rfl⟩)
    · exact hclaim held' x _ hrow hrep (.inr ⟨kind, hvote ▸ hv, rfl⟩)

/-- The code is put on a report that is pending for the session, or nothing is written. -/
theorem wlp_rotateIfPending (cfg : Config) (r : ReportId) (token : Option TokenId) (code : Code)
    {Q : List schema.Lock → Option ReportId → Db → Prop} (hnone : ∀ held', Q held' none s)
    (hsome : ∀ held' x, (s TableName.reports).find? r = some x → x.reporterUserId = none →
      s.FreeFor TableName.reports r [.claimCodeHash (cfg.sha256Hex code)] →
        Q held' (some r) (s.apply (rotate cfg r code))) :
    schema.engine.wlp schema.engine.Agree held s (rotateIfPending cfg r token code) Q := by
  unfold rotateIfPending
  rw [Engine.wlp_bind]
  refine Schema.wlp_updateFound (fun _ _ _ => hnone _) (fun v x hv hx => ?_)
  obtain ⟨hfind, hpending⟩ := Option.filter_eq_some_iff.mp hx
  obtain rfl : x.id = r := Table.key_of_find? hfind
  obtain ⟨t, -, -, hrep, -⟩ := of_decide_eq_true hpending
  have hrow : (s TableName.reports).find? x.id = some x :=
    (Schema.row_of_held hv (List.mem_append_right _ (List.mem_cons_self ..))).trans hfind
  exact ⟨fun g hg => absurd hg List.not_mem_nil, fun _ => trivial, fun hfree => hsome _ x hrow hrep hfree⟩

/-- Locking writes nothing. -/
theorem wlp_lockFirstPending (token : TokenId) (rs : List ReportId) {Q : List schema.Lock → Option ReportId → Db → Prop}
    (h : ∀ held' a, Q held' a s) : schema.engine.wlp schema.engine.Agree held s (lockFirstPending token rs) Q := by
  induction rs generalizing held with
  | nil => exact h _ _
  | cons r rs ih =>
    unfold lockFirstPending
    rw [Engine.wlp_bind]
    refine Engine.wlp_selectFor _ (fun v _ => ?_)
    split
    · exact h _ _
    · exact ih

theorem wlp_plainly_then {α β : Type} {φ : Write → Prop} {P : Db → Prop} (hφ : ∀ d w, φ w → P d → P (d.apply w))
    {p : Transaction α} (hp : Schema.Plainly φ p) {f : α → Transaction β} {Q : List schema.Lock → β → Db → Prop}
    (hs : P s)
    (hf : ∀ held' a s', P s' → schema.engine.wlp schema.engine.Agree held' s' (f a) Q) :
    schema.engine.wlp schema.engine.Agree held s (p >>= f) Q := by
  rw [Engine.wlp_bind]
  exact Engine.wlp_mono _ hf (Schema.wlp_plainly hφ hp hs)

/-- `createAnonReportTx` bumps a token below the cap, inserts the report, and writes beside it. -/
theorem wlp_createAnonReportTx (cfg : Config) (a : CreateAnonReportTxArgs) {P : Db → Prop}
    (hside : ∀ (d : Db) (w : Write), w.name ≠ TableName.reports ∧ w.name ≠ TableName.tokens ∧
    w.name ≠ TableName.confirmations →
      P d → P (d.apply w))
    (hinsert : ∀ t d, (s TableName.tokens).find? a.anonSessionId = some t → t.reportCount < cfg.reportCap →
      d = s.apply (bumpToken a.anonSessionId) → (d TableName.reports).find? a.reportId = none →
      d.FreeFor TableName.reports a.reportId (entriesOf .reports (a.report cfg)) →
        P (d.apply (insertReport (a.report cfg)))) :
    schema.engine.wlp schema.engine.Agree [] s (createAnonReportTx cfg a)
      (fun _ o s' => o = .created a.reportId a.claimCode ∧ P s') := by
  have hrow : ∀ {w : Write} {e : Refusal}, w.name ≠ TableName.reports ∧ w.name ≠ TableName.tokens ∧
    w.name ≠ TableName.confirmations →
      guardsOf w.name w.key = [] → Schema.Plainly (fun w => w.name ≠ TableName.reports ∧ w.name ≠ TableName.tokens ∧
        w.name ≠ TableName.confirmations) (insertOr w e) := fun h hg => plainly_insertOr h hg _
  unfold createAnonReportTx consumeTokenQuota
  rw [Engine.wlp_bind, Engine.wlp_bind]
  refine Schema.wlp_updateFound (fun _ _ _ => trivial) (fun v t hv ht => ?_)
  obtain ⟨hfind, hcap⟩ := Option.filter_eq_some_iff.mp ht
  have hid : t.id = a.anonSessionId := Table.key_of_find? hfind
  have htoken : (s TableName.tokens).find? a.anonSessionId = some t := by
    rw [← hid]
    exact (Schema.row_of_held hv (List.mem_append_right _ (List.mem_cons_self ..))).trans (hid ▸ hfind)
  refine ⟨fun g hg => absurd hg List.not_mem_nil, fun hclash => absurd (Schema.Db.freeFor_nil v _ _) hclash,
    fun _ => ?_⟩
  rw [hid]
  simp only [Option.isSome_some, if_true]
  show schema.engine.wlp _ _ _ (insertHeldReport cfg a >>= _) _
  rw [Engine.wlp_bind]
  refine wlp_insertOr rfl (fun hnone hfree held' => ?_)
  have hP := hinsert t _ htoken (of_decide_eq_true hcap) rfl hnone hfree
  refine wlp_plainly_then hside (plainly_attachReportMedia
    (fun u r => ⟨by rintro ⟨⟩, by rintro ⟨⟩, by rintro ⟨⟩⟩) cfg a) hP
    (fun _ _ s1 h1 => ?_)
  refine wlp_plainly_then hside (Schema.Plainly.bind (hrow ⟨by rintro ⟨⟩, by rintro ⟨⟩, by rintro ⟨⟩⟩ rfl)
    (fun _ => hrow ⟨by rintro ⟨⟩, by rintro ⟨⟩, by rintro ⟨⟩⟩ rfl)) h1 (fun _ _ s2 h2 => ?_)
  refine wlp_plainly_then hside (hrow ⟨by rintro ⟨⟩, by rintro ⟨⟩, by rintro ⟨⟩⟩ rfl) h2 (fun _ _ s3 h3 => ?_)
  refine wlp_plainly_then hside (hrow ⟨by rintro ⟨⟩, by rintro ⟨⟩, by rintro ⟨⟩⟩ rfl) h3 (fun _ _ s4 h4 => ?_)
  exact ⟨rfl, h4⟩

end Statements

end Civfix.AnonymousReports
