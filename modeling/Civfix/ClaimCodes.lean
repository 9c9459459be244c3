import Civfix.ReportOperations

/-! # The claim codes of anonymous reports

An anonymous report that is not claimed carries the digest of exactly one code, the last one that a
committed call handed out for it; a claim clears the digest for good. The creation of a report bumps its
token's count first, so a token never files more reports than its count says.

Each invariant is kept by every write but a few: a code is put on a pending report, a report is linked, a
report is inserted. -/
namespace Civfix.AnonymousReports

open KeyedTables LockedTransactions RelationalStores
open Filings (ReportStatus ReportId UserId Instant)

/-- What a row says about its code. -/
structure Report.CodeOk (cfg : Config) (x : Report) : Prop where
  unclaimed : x.reporterUserId = none → ∃ c ∈ x.handedOut, x.claimCodeHash = some (cfg.sha256Hex c)
  claimed : x.reporterUserId ≠ none → x.claimCodeHash = none
  claimant : ∀ u ∈ x.claimants, x.claimants = [u] ∧ x.reporterUserId = some u

structure CodesExact (cfg : Config) (s : Db) : Prop where
  row : ∀ r, ∀ x ∈ (s TableName.reports).find? r, x.CodeOk cfg
  unique : Schema.Db.UniqueAt (S := schema) TableName.reports s

/-- The last code that a committed call handed out for the report. -/
def lastCode (s : Db) (r : ReportId) : Option Code := ((s TableName.reports).find? r).bind Report.handedOut

namespace Outcome

/-- The report and the code that the answer carries. -/
def handsOut : Outcome → Option (ReportId × Code)
  | .created r c | .replayed r _ c | .nudged r c => some (r, c)
  | .done | .noSnapshot | .noPending | .claimed _ | .unknownCode | .vote _ => none

/-- The call did nothing: it found no snapshot, no report or no code, or the vote was refused. -/
def failed : Outcome → Bool
  | .noSnapshot | .noPending | .unknownCode | .vote .notFound | .vote .forbidden | .vote .closed => true
  | .done | .created _ _ | .replayed _ _ _ | .nudged _ _ | .claimed _ | .vote (.applied _ _ _) => false

/-- A report's last code after the call is answered. -/
def codeAfter (a : Outcome) (r : ReportId) (before : Option Code) : Option Code :=
  match a.handsOut with
  | some (k, c) => if r = k then some c else before
  | none => before

end Outcome

/-- What an answer says of the two databases around the commit. -/
structure Answers (a : Outcome) (s s' : Db) : Prop where
  last : ∀ r, lastCode s' r = a.codeAfter r (lastCode s r)
  failed : a.failed = true → s' = s

/-! ## Writes that leave the codes -/

/-- The write keeps the invariant and hands nothing out. -/
structure Quiet (cfg : Config) (w : Write) : Prop where
  keeps : ∀ d, CodesExact cfg d → CodesExact cfg (d.apply w)
  last : ∀ d r, lastCode (d.apply w) r = lastCode d r

theorem quiet_of_table {cfg : Config} {w : Write} (hw : w.name ≠ TableName.reports) : Quiet cfg w := by
  have hsame : ∀ d : Db, d.apply w TableName.reports = d TableName.reports := fun d => d.apply_of_ne w hw.symm
  refine ⟨fun d h => ⟨fun r x hx => h.row r x (hsame d ▸ hx), h.unique.of_same (hsame d)⟩, fun d r => ?_⟩
  rw [lastCode, hsame, lastCode]

/-- A rewrite of one row, by what it does to the row. -/
theorem CodesExact.update {cfg : Config} {s s' : Db} (h : CodesExact cfg s) {r : ReportId} {f : Report → Report}
    (hs' : ∀ k, (s' TableName.reports).find? k =
      if k = r then ((s TableName.reports).find? r).map f else (s TableName.reports).find? k)
    (hf : ∀ x ∈ (s TableName.reports).find? r, x.CodeOk cfg → (f x).CodeOk cfg)
    (hu : Schema.Db.UniqueAt (S := schema) TableName.reports s') : CodesExact cfg s' := by
  refine ⟨fun k x hx => ?_, hu⟩
  rw [hs'] at hx
  split at hx
  · obtain ⟨y, hy, rfl⟩ := Option.map_eq_some_iff.mp hx
    exact hf y hy (h.row r y hy)
  · exact h.row k x hx

theorem lastCode_update {s s' : Db} {r : ReportId} {f : Report → Report}
    (hs' : ∀ k, (s' TableName.reports).find? k =
      if k = r then ((s TableName.reports).find? r).map f else (s TableName.reports).find? k)
    (hf : ∀ x, (f x).handedOut = x.handedOut) (k : ReportId) : lastCode s' k = lastCode s k := by
  unfold lastCode
  rw [hs']
  split
  · next hk =>
    subst hk
    cases (s TableName.reports).find? k with
    | none => rfl
    | some x => exact hf x
  · rfl

theorem quiet_updateReport {cfg : Config} {r : ReportId} {f : Report → Report} {hid hkey hhash}
    (hf : ∀ x, (f x).reporterUserId = x.reporterUserId ∧ (f x).handedOut = x.handedOut ∧ (f x).claimants = x.claimants ∧
      (f x).claimCodeHash = x.claimCodeHash) : Quiet cfg (updateReport r f hid hkey hhash) := by
  have hrow : ∀ (d : Db) k, (d.apply (updateReport r f hid hkey hhash) TableName.reports).find? k =
      if k = r then ((d TableName.reports).find? r).map f else (d TableName.reports).find? k :=
    fun d k => d.find?_apply (updateReport r f hid hkey hhash) k
  refine ⟨fun d h => h.update (hrow d) (fun x _ hx => ?_)
    (Schema.Db.unique_apply (updateReport r f hid hkey hhash) h.unique (Schema.Db.freeFor_nil d _ _)),
    fun d k => lastCode_update (hrow d) (fun x => (hf x).2.1) k⟩
  obtain ⟨h1, h2, h3, h4⟩ := hf x
  exact ⟨h1 ▸ h2 ▸ h4 ▸ hx.unclaimed, h1 ▸ h4 ▸ hx.claimed, h1 ▸ h3 ▸ hx.claimant⟩

theorem quiet_change (cfg : Config) (r : ReportId) (c : ReportChange) : Quiet cfg (change r c) :=
  quiet_updateReport (fun x => by cases c <;> exact ⟨rfl, rfl, rfl, rfl⟩)

theorem quiet_addCounts (cfg : Config) (r : ReportId) (seen fixed : ℤ) : Quiet cfg (addCounts r seen fixed) :=
  quiet_updateReport (fun _ => ⟨rfl, rfl, rfl, rfl⟩)

theorem quiet_writeVote (cfg : Config) (r : ReportId) (user : UserId) (after : Option ReportVote) :
    Quiet cfg (writeVote r user after) := by
  refine quiet_of_table ?_
  cases after <;> rintro ⟨⟩

theorem CodesExact.movedVote {cfg : Config} {s : Db} (h : CodesExact cfg s) (r : ReportId) (user : UserId)
    (before after : Option ReportVote) : CodesExact cfg (movedVote s r user before after) :=
  (quiet_addCounts cfg r _ _).keeps _ ((quiet_writeVote cfg r user after).keeps s h)

theorem lastCode_movedVote (cfg : Config) (s : Db) (r : ReportId) (user : UserId) (before after : Option ReportVote)
    (k : ReportId) : lastCode (movedVote s r user before after) k = lastCode s k :=
  ((quiet_addCounts cfg r _ _).last _ k).trans ((quiet_writeVote cfg r user after).last s k)

/-! ## Writes that change a code -/

theorem CodesExact.rotate {cfg : Config} {s : Db} (h : CodesExact cfg s) {r : ReportId} {code : Code} {x : Report}
    (hx : (s TableName.reports).find? r = some x) (hrep : x.reporterUserId = none)
    (hfree : s.FreeFor TableName.reports r [.claimCodeHash (cfg.sha256Hex code)]) :
    CodesExact cfg (s.apply (rotate cfg r code)) := by
  refine h.update (reports_rotate cfg s r code) (fun y hy hok => ?_)
    (Schema.Db.unique_apply (AnonymousReports.rotate cfg r code) h.unique hfree)
  obtain rfl := Option.some.inj (hx.symm.trans hy)
  exact ⟨fun _ => ⟨code, rfl, rfl⟩, fun hne => absurd hrep hne, hok.claimant⟩

theorem lastCode_rotate {cfg : Config} {s : Db} {r : ReportId} {code : Code} {x : Report}
    (hx : (s TableName.reports).find? r = some x) (k : ReportId) :
    lastCode (s.apply (rotate cfg r code)) k = if k = r then some code else lastCode s k := by
  unfold lastCode
  rw [reports_rotate]
  split
  · rw [hx]
    rfl
  · rfl

/-- The first claim of a report is its only one. -/
theorem CodesExact.link {cfg : Config} {s : Db} (h : CodesExact cfg s) {r : ReportId} {user : UserId} {x : Report}
    (hx : (s TableName.reports).find? r = some x) (hrep : x.reporterUserId = none) :
    CodesExact cfg (s.apply (link r user)) := by
  refine h.update (reports_link s r user) (fun y hy hok => ?_)
    (Schema.Db.unique_apply (AnonymousReports.link r user) h.unique (Schema.Db.freeFor_nil s _ _))
  obtain rfl := Option.some.inj (hx.symm.trans hy)
  have hnone : x.claimants = [] := by
    refine List.eq_nil_iff_forall_not_mem.mpr (fun u hu => ?_)
    have hsome := (hok.claimant u hu).2
    rw [hrep] at hsome
    cases hsome
  refine ⟨fun hr => absurd hr (Option.some_ne_none _), fun _ => rfl, fun u hu => ?_⟩
  rw [hnone] at hu ⊢
  obtain rfl := List.mem_singleton.mp hu
  exact ⟨rfl, rfl⟩

theorem lastCode_link (s : Db) (r : ReportId) (user : UserId) (k : ReportId) :
    lastCode (s.apply (link r user)) k = lastCode s k :=
  lastCode_update (reports_link s r user) (fun _ => rfl) k

theorem CodesExact.insertReport {cfg : Config} {s : Db} (h : CodesExact cfg s) {x : Report} (hx : x.CodeOk cfg)
    (hnone : (s TableName.reports).find? x.id = none)
    (hfree : s.FreeFor TableName.reports x.id (entriesOf .reports x)) :
    CodesExact cfg (s.apply (insertReport x)) := by
  refine ⟨fun k y hy => ?_, Schema.Db.unique_apply (AnonymousReports.insertReport x) h.unique hfree⟩
  rw [reports_insertReport, hnone] at hy
  split at hy
  · obtain rfl := Option.some.inj hy
    exact hx
  · exact h.row k y hy

theorem lastCode_insertReport {s : Db} {x : Report} (hnone : (s TableName.reports).find? x.id = none) (k : ReportId) :
    lastCode (s.apply (insertReport x)) k = if k = x.id then x.handedOut else lastCode s k := by
  unfold lastCode
  rw [reports_insertReport, hnone]
  split
  · rfl
  · rfl

/-! ## The operations and the codes -/

/-- What an operation leaves at its commit point. -/
def Settles (cfg : Config) (s : Db) (a : Outcome) (s' : Db) : Prop := CodesExact cfg s' ∧ Answers a s s'

section Operations

variable {cfg : Config} {held : List schema.Lock} {s : Db}

theorem CodesExact.settles_unchanged (h : CodesExact cfg s) {a : Outcome} (ha : a.handsOut = none) :
    Settles cfg s a s :=
  ⟨h, ⟨fun r => by rw [Outcome.codeAfter, ha], fun _ => rfl⟩⟩

theorem CodesExact.settles {s' : Db} (h : CodesExact cfg s') (hlast : ∀ r, lastCode s' r = lastCode s r) {a : Outcome}
    (ha : a.handsOut = none) (hok : a.failed = false) : Settles cfg s a s' :=
  ⟨h, ⟨fun r => by rw [Outcome.codeAfter, ha, hlast], fun hf => absurd hf (by simp [hok])⟩⟩

theorem wlp_quiet {p : Transaction Unit} (hp : Schema.Plainly (Quiet cfg) p) (h : CodesExact cfg s) :
    schema.engine.wlp schema.engine.Agree [] s (do p; pure .done) (fun _ a s' => Settles cfg s a s') := by
  refine wlp_plainly_then (P := fun d => CodesExact cfg d ∧ ∀ r, lastCode d r = lastCode s r) ?_ hp ⟨h, fun _ => rfl⟩ ?_
  · exact fun d w hw hd => ⟨hw.keeps d hd.1, fun r => (hw.last d r).trans (hd.2 r)⟩
  · exact fun _ _ s' hs' => hs'.1.settles hs'.2 rfl rfl

theorem wlp_createReport (id : ReportId) (reporter : UserId) (key : KeyId) (status : ReportStatus) (now : Instant)
    (h : CodesExact cfg s) :
    schema.engine.wlp schema.engine.Agree [] s (program cfg (.createReport id reporter key status now))
      (fun _ a s' => Settles cfg s a s') := by
  have hok : (signedInReport id reporter key status now).CodeOk cfg :=
    ⟨fun hr => absurd hr (Option.some_ne_none _), fun _ => rfl, fun _ hu => absurd hu List.not_mem_nil⟩
  unfold program
  rw [Engine.wlp_bind]
  refine wlp_insertOr rfl (fun hnone hfree held' => ?_)
  refine (h.insertReport hok hnone hfree).settles (fun r => ?_) rfl rfl
  rw [lastCode_insertReport hnone]
  split
  · next hr =>
    have hnone' : (s TableName.reports).find? r = none := hr ▸ hnone
    rw [lastCode, hnone']
    rfl
  · rfl

theorem wlp_createAnonReportTx_codes (a : CreateAnonReportTxArgs) (h : CodesExact cfg s) :
    schema.engine.wlp schema.engine.Agree [] s (createAnonReportTx cfg a) (fun _ o s' => Settles cfg s o s') := by
  have hok : (a.report cfg).CodeOk cfg :=
    ⟨fun _ => ⟨a.claimCode, rfl, rfl⟩, fun hr => absurd rfl hr, fun _ hu => absurd hu List.not_mem_nil⟩
  have hspec := wlp_createAnonReportTx cfg a (s := s)
    (P := fun d => CodesExact cfg d ∧ ∀ r, lastCode d r =
      if r = a.reportId then some a.claimCode else lastCode s r) ?_ ?_
  · refine Engine.wlp_mono _ ?_ hspec
    rintro _ _ s' ⟨rfl, hs', hlast⟩
    exact ⟨hs', ⟨hlast, fun hf => absurd hf (by simp [Outcome.failed])⟩⟩
  · intro d w hw hd
    have hq : Quiet cfg w := quiet_of_table hw.1
    exact ⟨hq.keeps d hd.1, fun r => (hq.last d r).trans (hd.2 r)⟩
  · rintro t _ - - rfl hnone hfree
    have hq : Quiet cfg (bumpToken a.anonSessionId) := quiet_of_table (by rintro ⟨⟩)
    refine ⟨(hq.keeps s h).insertReport hok hnone hfree, fun r => ?_⟩
    rw [lastCode_insertReport hnone, hq.last]
    rfl

theorem CodesExact.settles_rotate (h : CodesExact cfg s) {r : ReportId} {code : Code} {x : Report}
    (hx : (s TableName.reports).find? r = some x) (hrep : x.reporterUserId = none)
    (hfree : s.FreeFor TableName.reports r [.claimCodeHash (cfg.sha256Hex code)]) {a : Outcome}
    (ha : a.handsOut = some (r, code)) (hok : a.failed = false) :
    Settles cfg s a (s.apply (AnonymousReports.rotate cfg r code)) := by
  refine ⟨h.rotate hx hrep hfree, ⟨fun k => ?_, fun hf => absurd hf (by simp [hok])⟩⟩
  rw [lastCode_rotate hx, Outcome.codeAfter, ha]

theorem wlp_replaySnapshot (key : KeyId) (userOrAnon : Option TokenId) (newCode : Code) (h : CodesExact cfg s) :
    schema.engine.wlp schema.engine.Agree [] s (replaySnapshot cfg key userOrAnon newCode)
      (fun _ a s' => Settles cfg s a s') := by
  unfold replaySnapshot
  rw [Engine.wlp_bind]
  refine Engine.wlp_select _ (fun v _ => ?_)
  cases hstored : (v TableName.snapshots).find? (key, userOrAnon) with
  | none => exact h.settles_unchanged rfl
  | some stored =>
    simp only
    rw [Engine.wlp_bind]
    exact wlp_rotateIfPending cfg _ _ _ (fun _ => trivial)
      (fun _ x hx hrep hfree => h.settles_rotate hx hrep hfree rfl rfl)

theorem wlp_rotatePendingClaimCode (token : TokenId) (code : Code) (h : CodesExact cfg s) :
    schema.engine.wlp schema.engine.Agree [] s (rotatePendingClaimCode cfg token code)
      (fun _ a s' => Settles cfg s a s') := by
  unfold rotatePendingClaimCode
  rw [Engine.wlp_bind]
  refine Engine.wlp_select _ (fun v _ => ?_)
  rw [Engine.wlp_bind]
  refine wlp_lockFirstPending _ _ (fun _ found => ?_)
  cases found with
  | none => exact h.settles_unchanged rfl
  | some r =>
    simp only
    rw [Engine.wlp_bind]
    exact wlp_rotateIfPending cfg _ _ _ (fun _ => h.settles_unchanged rfl)
      (fun _ x hx hrep hfree => h.settles_rotate hx hrep hfree rfl rfl)

theorem wlp_claimByCode_codes (code : Code) (user : UserId) (h : CodesExact cfg s) :
    schema.engine.wlp schema.engine.Agree [] s (claimByCode cfg code user) (fun _ a s' => Settles cfg s a s') := by
  refine wlp_claimByCode cfg code user (h.settles_unchanged rfl) (fun _ x s' hx hrep hs' => ?_)
  have hlink : CodesExact cfg (s.apply (link x.id user)) := h.link hx hrep
  rcases hs' with ⟨-, rfl⟩ | ⟨kind, -, rfl⟩
  · exact hlink.settles (lastCode_link s x.id user) rfl rfl
  · refine (hlink.movedVote _ _ _ _).settles (fun r => ?_) rfl rfl
    rw [lastCode_movedVote cfg, lastCode_link]

theorem wlp_setConfirmation_codes (r : ReportId) (user : UserId) (vote : ReportVote) (c : VoteChange)
    (h : CodesExact cfg s) :
    schema.engine.wlp schema.engine.Agree [] s (setConfirmation cfg r user vote c) (fun _ a s' => Settles cfg s a s') :=
  wlp_setConfirmation cfg r user vote c (fun _ _ => h.settles_unchanged rfl)
    (fun _ _ _ _ _ _ _ => (h.movedVote _ _ _ _).settles (fun k => lastCode_movedVote cfg s _ _ _ _ k) rfl rfl)

end Operations

/-- Every operation leaves each report with the code that it was last handed out. -/
theorem program_settles (cfg : Config) (o : Operation) {s : Db} (h : CodesExact cfg s) :
    schema.engine.wlp schema.engine.Agree [] s (program cfg o) (fun _ a s' => Settles cfg s a s') := by
  cases o with
  | issueToken id => exact wlp_quiet (plainly_insertOr (quiet_of_table (by rintro ⟨⟩)) rfl _) h
  | recordUpload m => exact wlp_quiet (plainly_insertOr (quiet_of_table (by rintro ⟨⟩)) rfl _) h
  | createReport id reporter key status now => exact wlp_createReport id reporter key status now h
  | changeReport id c =>
    refine wlp_quiet (Schema.plainly_dml (fun d w hw => ?_) _) h
    obtain rfl := List.mem_singleton.mp hw
    exact ⟨quiet_change cfg id c, rfl⟩
  | createAnonReportTx a => exact wlp_createAnonReportTx_codes a h
  | findIdempotentSnapshot key userOrAnon newCode => exact wlp_replaySnapshot key userOrAnon newCode h
  | rotatePendingClaimCode token newCode => exact wlp_rotatePendingClaimCode token newCode h
  | claimByCode code user => exact wlp_claimByCode_codes code user h
  | setConfirmation id user vote c => exact wlp_setConfirmation_codes id user vote c h

/-! ## The quota of a token -/

/-- The number of reports that were filed with the token. -/
def reportsOf (s : Db) (t : TokenId) : ℕ :=
  (s TableName.reports).total (fun x => if x.anonSessionId = some t then 1 else 0)

/-- What the token's row says; a token that is not there has none. -/
def reportCount (s : Db) (t : TokenId) : ℕ := ((s TableName.tokens).find? t).elim 0 Token.reportCount

structure Quota (cfg : Config) (s : Db) : Prop where
  counted : ∀ t, reportsOf s t ≤ reportCount s t
  capped : ∀ t, reportCount s t ≤ cfg.reportCap

/-- The write files no report and bumps no token. -/
structure Frugal (w : Write) : Prop where
  reports : ∀ d t, reportsOf (d.apply w) t = reportsOf d t
  tokens : ∀ d t, reportCount (d.apply w) t = reportCount d t

theorem Quota.frugal {cfg : Config} {d : Db} {w : Write} (h : Quota cfg d) (hw : Frugal w) : Quota cfg (d.apply w) :=
  ⟨fun t => by rw [hw.reports, hw.tokens]; exact h.counted t, fun t => by rw [hw.tokens]; exact h.capped t⟩

theorem reportsOf_of_table {w : Write} (h : w.name ≠ TableName.reports) (d : Db) (t : TokenId) :
    reportsOf (d.apply w) t = reportsOf d t := by
  rw [reportsOf, d.apply_of_ne w h.symm, reportsOf]

theorem reportCount_of_table {w : Write} (h : w.name ≠ TableName.tokens) (d : Db) (t : TokenId) :
    reportCount (d.apply w) t = reportCount d t := by
  rw [reportCount, d.apply_of_ne w h.symm, reportCount]

theorem frugal_of_table {w : Write} (hr : w.name ≠ TableName.reports) (ht : w.name ≠ TableName.tokens) : Frugal w :=
  ⟨reportsOf_of_table hr, reportCount_of_table ht⟩

/-- A row that keeps its session counts as before. -/
theorem reportsOf_eq {w : Write} {f : Report → Report} {r : ReportId} (d : Db)
    (htotal : ∀ g : Report → ℕ, (d.apply w TableName.reports).total g + ((d TableName.reports).find? r).elim 0 g =
      (d TableName.reports).total g + (((d TableName.reports).find? r).map f).elim 0 g)
    (hf : ∀ x, (f x).anonSessionId = x.anonSessionId) (t : TokenId) : reportsOf (d.apply w) t = reportsOf d t := by
  have h := htotal (fun x => if x.anonSessionId = some t then 1 else 0)
  have hsame : (((d TableName.reports).find? r).map f).elim 0 (fun x => if x.anonSessionId = some t then 1 else 0) =
      ((d TableName.reports).find? r).elim 0 (fun x => if x.anonSessionId = some t then 1 else 0) := by
    cases (d TableName.reports).find? r with
    | none => rfl
    | some x => simp [hf]
  rw [hsame] at h
  exact Nat.add_right_cancel h

theorem frugal_rotate (cfg : Config) (r : ReportId) (code : Code) : Frugal (rotate cfg r code) :=
  ⟨fun d => reportsOf_eq d (fun g => d.total_apply (rotate cfg r code) g) (fun _ => rfl),
    reportCount_of_table (by rintro ⟨⟩)⟩

theorem frugal_link (r : ReportId) (user : UserId) : Frugal (link r user) :=
  ⟨fun d => reportsOf_eq d (fun g => d.total_apply (link r user) g) (fun _ => rfl), reportCount_of_table (by rintro ⟨⟩)⟩

theorem frugal_addCounts (r : ReportId) (seen fixed : ℤ) : Frugal (addCounts r seen fixed) :=
  ⟨fun d => reportsOf_eq d (fun g => d.total_apply (addCounts r seen fixed) g) (fun _ => rfl),
    reportCount_of_table (by rintro ⟨⟩)⟩

theorem frugal_change (r : ReportId) (c : ReportChange) : Frugal (change r c) :=
  ⟨fun d => reportsOf_eq d (fun g => d.total_apply (change r c) g) (fun _ => by cases c <;> rfl),
    reportCount_of_table (by rintro ⟨⟩)⟩

theorem frugal_writeVote (r : ReportId) (user : UserId) (after : Option ReportVote) :
    Frugal (writeVote r user after) := by
  refine frugal_of_table ?_ ?_
  · cases after <;> rintro ⟨⟩
  · cases after <;> rintro ⟨⟩

theorem reportsOf_insertReport {d : Db} {x : Report} (hnone : (d TableName.reports).find? x.id = none) (t : TokenId) :
    reportsOf (d.apply (insertReport x)) t = reportsOf d t + if x.anonSessionId = some t then 1 else 0 := by
  have h := d.total_apply (insertReport x) (fun x => if x.anonSessionId = some t then 1 else 0)
  have hfind : (d (insertReport x).name).find? (insertReport x).key = none := hnone
  rw [hfind] at h
  exact h

theorem frugal_signedIn {x : Report} (hx : x.anonSessionId = none) : Frugal (insertReport x) := by
  refine ⟨fun d t => ?_, reportCount_of_table (by rintro ⟨⟩)⟩
  cases hfind : (d TableName.reports).find? x.id with
  | none =>
    rw [reportsOf_insertReport hfind, hx]
    rfl
  | some y =>
    have h := d.total_apply (insertReport x) (fun x => if x.anonSessionId = some t then 1 else 0)
    have hfind' : (d (insertReport x).name).find? (insertReport x).key = some y := hfind
    rw [hfind'] at h
    exact Nat.add_right_cancel h

theorem reportCount_bumpToken {d : Db} {id : TokenId} {x : Token} (hx : (d TableName.tokens).find? id = some x)
    (t : TokenId) :
    reportCount (d.apply (bumpToken id)) t = reportCount d t + if t = id then 1 else 0 := by
  have h : (d.apply (bumpToken id) TableName.tokens).find? t = if t = id then ((d TableName.tokens).find? id).map
      (fun t : Token => { t with reportCount := t.reportCount + 1 }) else (d TableName.tokens).find? t :=
        d.find?_apply (bumpToken id) t
  rw [reportCount, h]
  split
  · next ht =>
    subst ht
    rw [reportCount, hx]
    rfl
  · rfl

theorem frugal_insertToken (id : TokenId) : Frugal (insertToken id) := by
  refine ⟨reportsOf_of_table (by rintro ⟨⟩), fun d t => ?_⟩
  have h : (d.apply (insertToken id) TableName.tokens).find? t =
      if t = id then some (((d TableName.tokens).find? id).getD ⟨id, 0⟩) else (d TableName.tokens).find? t :=
    d.find?_apply (insertToken id) t
  rw [reportCount, h]
  split
  · next ht =>
    subst ht
    rw [reportCount]
    cases (d TableName.tokens).find? t with
    | none => rfl
    | some x => rfl
  · rfl

theorem quota_createAnonReportTx {cfg : Config} {s : Db} (a : CreateAnonReportTxArgs) (h : Quota cfg s) :
    schema.engine.wlp schema.engine.Agree [] s (createAnonReportTx cfg a) (fun _ _ s' => Quota cfg s') := by
  refine Engine.wlp_mono _ (fun _ _ _ hs => hs.2) (wlp_createAnonReportTx cfg a (P := Quota cfg) ?_ ?_)
  · exact fun d w hw hd => hd.frugal (frugal_of_table hw.1 hw.2.1)
  · rintro x _ hx hcap rfl hnone -
    have hreports : ∀ t, reportsOf (s.apply (bumpToken a.anonSessionId)) t = reportsOf s t :=
      reportsOf_of_table (by rintro ⟨⟩) s
    have hcount : ∀ t, reportCount ((s.apply (bumpToken a.anonSessionId)).apply (insertReport (a.report cfg))) t =
        reportCount s t + if t = a.anonSessionId then 1 else 0 :=
      fun t => (reportCount_of_table (by rintro ⟨⟩) _ t).trans (reportCount_bumpToken hx t)
    have hbelow : reportCount s a.anonSessionId < cfg.reportCap := by
      rw [reportCount, hx]
      exact hcap
    refine ⟨fun t => ?_, fun t => ?_⟩
    · rw [reportsOf_insertReport hnone, hreports, hcount]
      refine Nat.add_le_add (h.counted t) (Nat.le_of_eq ?_)
      simp only [CreateAnonReportTxArgs.report, Option.some.injEq, eq_comm]
    · rw [hcount]
      split
      · next ht =>
        subst ht
        exact hbelow
      · exact h.capped t

theorem program_keeps_quota (cfg : Config) : schema.engine.Keeps (program cfg) (Quota cfg) := by
  have hfrugal : ∀ {s : Db} {p : Transaction Outcome}, Schema.Plainly Frugal p → Quota cfg s →
      schema.engine.wlp schema.engine.Agree [] s p (fun _ _ s' => Quota cfg s') :=
    fun hp hs => Schema.wlp_plainly (fun _ _ hw hd => hd.frugal hw) hp hs
  have hmoved : ∀ {s : Db} (r : ReportId) (user : UserId) (before after : Option ReportVote), Quota cfg s →
      Quota cfg (movedVote s r user before after) :=
    fun r user _ after hs => (hs.frugal (frugal_writeVote r user after)).frugal (frugal_addCounts r _ _)
  intro o s hs
  cases o with
  | issueToken id =>
    exact hfrugal ((plainly_insertOr (frugal_insertToken id) rfl _).bind (fun _ => Schema.plainly_pure _)) hs
  | recordUpload m =>
    exact hfrugal ((plainly_insertOr (frugal_of_table (by rintro ⟨⟩) (by rintro ⟨⟩)) rfl _).bind
      (fun _ => Schema.plainly_pure _)) hs
  | createReport id reporter key status now =>
    exact hfrugal ((plainly_insertOr (frugal_signedIn rfl) rfl _).bind (fun _ => Schema.plainly_pure _)) hs
  | changeReport id c =>
    refine hfrugal (Schema.Plainly.bind (Schema.plainly_dml (fun d w hw => ?_) _) (fun _ => Schema.plainly_pure _)) hs
    obtain rfl := List.mem_singleton.mp hw
    exact ⟨frugal_change id c, rfl⟩
  | createAnonReportTx a => exact quota_createAnonReportTx a hs
  | findIdempotentSnapshot key userOrAnon newCode =>
    exact hfrugal (plainly_replaySnapshot cfg (frugal_rotate cfg) key userOrAnon newCode) hs
  | rotatePendingClaimCode token newCode =>
    exact hfrugal (plainly_rotatePendingClaimCode cfg (frugal_rotate cfg) token newCode) hs
  | claimByCode code user =>
    refine wlp_claimByCode cfg code user hs (fun _ x s' _ _ hs' => ?_)
    have hlink := hs.frugal (frugal_link x.id user)
    rcases hs' with ⟨-, rfl⟩ | ⟨kind, -, rfl⟩
    · exact hlink
    · exact hmoved _ _ _ _ hlink
  | setConfirmation id user vote c =>
    exact wlp_setConfirmation cfg id user vote c (fun _ _ => hs) (fun _ _ _ _ _ _ _ => hmoved _ _ _ _ hs)

/-! ## Every interleaving -/

/-- A claim with the code links the report. -/
def Opens (cfg : Config) (s : Db) (c : Code) (r : ReportId) : Prop :=
    (claimable s (cfg.sha256Hex c)).map Report.id = some r

instance (cfg : Config) (s : Db) (c : Code) (r : ReportId) : Decidable (Opens cfg s c r) :=
    inferInstanceAs (Decidable (_ = _))

/-- Two rows never carry one digest, so the row that the lookup finds is the one. -/
theorem CodesExact.opens_iff {cfg : Config} {s : Db} (h : CodesExact cfg s) {r : ReportId} {x : Report}
    (hx : (s TableName.reports).find? r = some x) (c : Code) :
    Opens cfg s c r ↔ x.claimCodeHash = some (cfg.sha256Hex c) ∧ x.reporterUserId = none ∧ x.deletedAt = none := by
  constructor
  · intro hopens
    obtain ⟨y, hy, rfl⟩ := Option.map_eq_some_iff.mp hopens
    obtain ⟨hfind, hrest⟩ := claimable_spec hy
    obtain rfl := Option.some.inj (hx.symm.trans hfind)
    exact hrest
  · intro hrest
    have hmem : x ∈ (s TableName.reports).rows := Table.mem_rows_iff.mpr ((Table.key_of_find? hx).symm ▸ hx)
    cases hy : claimable s (cfg.sha256Hex c) with
    | none => exact absurd (decide_eq_true hrest) (List.find?_eq_none.mp hy x hmem)
    | some y =>
      obtain ⟨hfind, hhash, -⟩ := claimable_spec hy
      have hentry : ∀ z : Report, z.claimCodeHash = some (cfg.sha256Hex c) →
          IndexEntry.claimCodeHash (cfg.sha256Hex c) ∈ entriesOf .reports z := by
        intro z hz
        simp [entriesOf, hz]
      rw [Opens, hy]
      exact congrArg some (h.unique y.id r y hfind x hx _ (hentry y hhash) (hentry x hrest.1))

theorem codesExact_noRows (cfg : Config) : CodesExact cfg noRows :=
  ⟨fun _ _ hx => (by cases hx), fun _ _ _ hx => (by cases hx)⟩

theorem quota_noRows (cfg : Config) : Quota cfg noRows := ⟨fun _ => Nat.zero_le _, fun _ => Nat.zero_le _⟩

/-- In every interleaving from the empty database: a live report that nobody has claimed is opened by
exactly one code, the last that a committed call handed out for it; a report has at most one claimant, and
then no code opens it; no token has filed more reports than the cap; what a call's commit does is what it
answers, so that a call that failed changes nothing; and neither does a step that commits nothing. -/
theorem claim_codes_are_exact (cfg : Config) (hsha : Function.Injective cfg.sha256Hex) {w : World}
    (h : Reachable cfg w) :
    (∀ r x, (w.db TableName.reports).find? r = some x → x.reporterUserId = none → x.deletedAt = none →
      ∃ c, lastCode w.db r = some c ∧ ∀ c', Opens cfg w.db c' r ↔ c' = c) ∧
    (∀ r x, (w.db TableName.reports).find? r = some x →
      x.claimants.length ≤ 1 ∧ (x.claimants ≠ [] → ∀ c, ¬ Opens cfg w.db c r)) ∧
    (∀ t, reportsOf w.db t ≤ cfg.reportCap) ∧
    (∀ i o a ws held, w.sessions i = some ⟨o, .commit a, ws, held⟩ → Answers a w.db (schema.engine.applyAll w.db ws)) ∧
    ∀ w', Engine.Step schema.engine (program cfg) w none w' → w'.db = w.db := by
  have hcodes : ∀ s, s = noRows → CodesExact cfg s := fun s hs => hs ▸ codesExact_noRows cfg
  have hkeeps : schema.engine.Keeps (program cfg) (CodesExact cfg) :=
    fun o s hs => Engine.wlp_mono _ (fun _ _ _ hsettles => hsettles.1) (program_settles cfg o hs)
  have hinv : CodesExact cfg w.db := Engine.Reachable.invariant hcodes hkeeps h
  have hquota : Quota cfg w.db :=
    Engine.Reachable.invariant (fun s hs => hs ▸ quota_noRows cfg) (program_keeps_quota cfg) h
  refine ⟨fun r x hx hrep hdel => ?_, fun r x hx => ⟨?_, fun hne c hopens => ?_⟩, fun t => ?_, ?_, fun w' hs => ?_⟩
  · obtain ⟨c, hc, hhash⟩ := (hinv.row r x hx).unclaimed hrep
    refine ⟨c, by rw [lastCode, hx]; exact hc, fun c' => ?_⟩
    rw [hinv.opens_iff hx, hhash]
    constructor
    · exact fun ⟨he, _⟩ => (hsha (Option.some.inj he)).symm
    · rintro rfl
      exact ⟨rfl, hrep, hdel⟩
  · cases hl : x.claimants with
    | nil => exact Nat.zero_le _
    | cons u us =>
      have hone := ((hinv.row r x hx).claimant u (hl ▸ List.mem_cons_self ..)).1
      rw [← hl, hone]
      exact le_rfl
  · obtain ⟨u, hu⟩ := List.exists_mem_of_ne_nil _ hne
    have hrep := ((hinv.row r x hx).claimant u hu).2
    rw [((hinv.opens_iff hx c).mp hopens).2.1] at hrep
    cases hrep
  · exact le_trans (hquota.counted t) (hquota.capped t)
  · intro i o a ws held hi
    exact Engine.Reachable.finished hcodes hkeeps h hi (Q := Answers)
      (fun s hs => Engine.wlp_mono _ (fun _ _ _ hsettles => hsettles.2) (program_settles cfg o hs))
  · cases hs with
    | start i o hi => rfl
    | stmt i o l wr k ws held hi hfree => rfl
    | rollback i => rfl

/-- A report is filed, and a nudge hands out another code for it. -/
theorem nudge_supersedes :
    ∃ w : World, Reachable .sample w ∧ ¬ Opens .sample w.db firstCode 1 ∧ lastCode w.db 1 = some secondCode ∧
      (∃ c, lastCode w.db 1 = some c ∧ ∀ c', Opens .sample w.db c' 1 ↔ c' = c) ∧ reportsOf w.db 4 ≤ 5 := by
  have hrun : ((afterAll .sample (filed ++ [(.rotatePendingClaimCode 4 secondCode :
    Operation)]) TableName.reports).find? 1).any
      (fun x => decide (x.reporterUserId = none ∧ x.deletedAt = none)) = true ∧
      ¬ Opens .sample (afterAll .sample (filed ++ [(.rotatePendingClaimCode 4 secondCode : Operation)])) firstCode 1 ∧
      lastCode (afterAll .sample (filed ++ [(.rotatePendingClaimCode 4 secondCode : Operation)])) 1 =
        some secondCode := by decide +kernel
  have hw := reachable_afterAll .sample (filed ++ [(.rotatePendingClaimCode 4 secondCode : Operation)])
  generalize afterAll .sample (filed ++ [(.rotatePendingClaimCode 4 secondCode : Operation)]) = d at hrun hw
  obtain ⟨hrow, hfirst, hlast⟩ := hrun
  obtain ⟨x, hx, hP⟩ := Option.any_eq_true _ _ |>.mp hrow
  obtain ⟨hrep, hdel⟩ := of_decide_eq_true hP
  have hexact := claim_codes_are_exact .sample twoDigests.injective hw
  exact ⟨.quiet d, hw, hfirst, hlast, hexact.1 1 x hx hrep hdel, hexact.2.2.1 4⟩

end Civfix.AnonymousReports
