import Civfix.ReportOperations

/-! # The counts of a report's votes

A report keeps the number of its votes of either kind. `setConfirmation` moves them by what it does to
the voter's row, under the report's lock, and `claimByCode` takes the new owner's vote away, under the
same lock. So at every commit the counts are the numbers of rows, and no report holds a vote of its own
reporter. -/
namespace Civfix.AnonymousReports

open KeyedTables LockedTransactions RelationalStores
open Filings (ReportStatus ReportId UserId Instant)

def Report.count (x : Report) : ReportVote → ℕ
  | .seen => x.confirmCount
  | .fixed => x.fixedCount

/-- The number of a report's votes of one kind. -/
def countVotes (s : Db) (r : ReportId) (kind : ReportVote) : ℕ :=
  (s TableName.confirmations).total (fun c => if c.reportId = r ∧ c.kind = kind then 1 else 0)

/-- The counts are the numbers of rows, and there is no row without its report. -/
structure Counted (s : Db) : Prop where
  count : ∀ r, ∀ x ∈ (s TableName.reports).find? r, ∀ kind, x.count kind = countVotes s r kind
  report : ∀ r u, (s TableName.reports).find? r = none → (s TableName.confirmations).find? (r, u) = none

/-- No vote of a report is its reporter's. -/
def NoneOwn (s : Db) : Prop :=
  ∀ r, ∀ x ∈ (s TableName.reports).find? r, ∀ u ∈ x.reporterUserId, (s TableName.confirmations).find? (r, u) = none

structure VotesExact (s : Db) : Prop where
  counted : Counted s
  noneOwn : NoneOwn s

theorem votesExact_noRows : VotesExact noRows :=
  ⟨⟨fun _ _ hx _ => (by cases hx), fun _ _ _ => rfl⟩, fun _ _ _ _ _ => rfl⟩

theorem countVotes_zero {s : Db} {r : ReportId} (h : ∀ u, (s TableName.confirmations).find? (r, u) = none)
    (kind : ReportVote) : countVotes s r kind = 0 := by
  refine List.sum_eq_zero (fun n hn => ?_)
  obtain ⟨c, hc, rfl⟩ := List.mem_map.mp hn
  refine if_neg (fun hr => ?_)
  have hfound : (s TableName.confirmations).find? (c.reportId, c.userId) = some c := Table.mem_rows_iff.mp hc
  rw [hr.1, h c.userId] at hfound
  cases hfound

/-! ## Writes that move no vote -/

/-- Every report is there as before with its counts and its reporter, or is new and without votes. -/
structure Voteless (w : Write) : Prop where
  votes : w.name ≠ TableName.confirmations
  old : ∀ s : Db, ∀ r, ∀ x' ∈ (s.apply w TableName.reports).find? r,
    (∃ x ∈ (s TableName.reports).find? r, x'.count = x.count ∧ x'.reporterUserId = x.reporterUserId) ∨
      (s TableName.reports).find? r = none ∧ x'.count = fun _ => 0
  stays : ∀ s : Db, ∀ r, (s.apply w TableName.reports).find? r = none → (s TableName.reports).find? r = none

theorem VotesExact.voteless {s : Db} {w : Write} (hw : Voteless w) (h : VotesExact s) : VotesExact (s.apply w) := by
  have hvotes : s.apply w TableName.confirmations = s TableName.confirmations := s.apply_of_ne w hw.votes.symm
  refine ⟨⟨fun r x' hx' kind => ?_, fun r u hr => ?_⟩, fun r x' hx' u hu => ?_⟩
  · have hcount : countVotes (s.apply w) r kind = countVotes s r kind := by rw [countVotes, hvotes, countVotes]
    rw [hcount]
    rcases hw.old s r x' hx' with ⟨x, hx, hc, -⟩ | ⟨hnone, hc⟩
    · rw [hc]
      exact h.counted.count r x hx kind
    · rw [hc, countVotes_zero (fun u => h.counted.report r u hnone)]
  · rw [hvotes]
    exact h.counted.report r u (hw.stays s r hr)
  · rw [hvotes]
    rcases hw.old s r x' hx' with ⟨x, hx, -, hrep⟩ | ⟨hnone, -⟩
    · exact h.noneOwn r x hx u (hrep ▸ hu)
    · exact h.counted.report r u hnone

theorem voteless_of_table {w : Write} (hv : w.name ≠ TableName.confirmations) (hr : w.name ≠ TableName.reports) :
    Voteless w := by
  refine ⟨hv, fun s r x hx => ?_, fun s r hn => ?_⟩
  · rw [s.apply_of_ne w hr.symm] at hx
    exact .inl ⟨x, hx, rfl, rfl⟩
  · rwa [s.apply_of_ne w hr.symm] at hn

/-- An update of one report that touches neither its counts nor its reporter. -/
theorem voteless_of_update {w : Write} {r : ReportId} {f : Report → Report} (hn : w.name ≠ TableName.confirmations)
    (hw : ∀ (s : Db) k, (s.apply w TableName.reports).find? k =
      if k = r then ((s TableName.reports).find? r).map f else (s TableName.reports).find? k)
    (hc : ∀ x, (f x).count = x.count) (hrep : ∀ x, (f x).reporterUserId = x.reporterUserId) : Voteless w := by
  refine ⟨hn, fun s k x' hx' => ?_, fun s k hk => ?_⟩
  · rw [hw] at hx'
    split at hx'
    · next hkr =>
      obtain ⟨x, hx, rfl⟩ := Option.map_eq_some_iff.mp hx'
      exact .inl ⟨x, hkr ▸ hx, hc x, hrep x⟩
    · exact .inl ⟨x', hx', rfl, rfl⟩
  · rw [hw] at hk
    split at hk
    · next hkr => exact hkr ▸ Option.map_eq_none_iff.mp hk
    · exact hk

theorem voteless_rotate (cfg : Config) (r : ReportId) (code : Code) : Voteless (rotate cfg r code) :=
  voteless_of_update (by rintro ⟨⟩) (fun s k => reports_rotate cfg s r code k) (fun _ => rfl) (fun _ => rfl)

theorem voteless_change (r : ReportId) (c : ReportChange) : Voteless (change r c) := by
  refine voteless_of_update (by rintro ⟨⟩) (fun s k => s.find?_apply (change r c) k) (fun x => ?_) (fun x => ?_)
  · cases c <;> rfl
  · cases c <;> rfl

theorem voteless_insertReport {x : Report} (hx : x.count = fun _ => 0) : Voteless (insertReport x) := by
  refine ⟨by rintro ⟨⟩, fun s k x' hx' => ?_, fun s k hk => ?_⟩
  · rw [reports_insertReport] at hx'
    split at hx'
    · next hkx =>
      cases hold : (s TableName.reports).find? x.id with
      | none =>
        rw [hold] at hx'
        obtain rfl := Option.some.inj hx'
        exact .inr ⟨hkx ▸ hold, hx⟩
      | some y =>
        rw [hold] at hx'
        obtain rfl := Option.some.inj hx'
        exact .inl ⟨y, hkx ▸ hold, rfl, rfl⟩
    · exact .inl ⟨x', hx', rfl, rfl⟩
  · rw [reports_insertReport] at hk
    split at hk
    · cases hk
    · exact hk

/-- The counts move by what the one row was and is. -/
theorem countVotes_writeVote (s : Db) (r : ReportId) (user : UserId) (after : Option ReportVote) (k : ReportId)
    (kind : ReportVote) :
    countVotes (s.apply (writeVote r user after)) k kind + (if k = r ∧ findVote s r user = some kind then 1 else 0) =
      countVotes s k kind + (if k = r ∧ after = some kind then 1 else 0) := by
  have htotal : countVotes (s.apply (writeVote r user after)) k kind +
      ((s TableName.confirmations).find? (r, user)).elim 0 (fun c => if c.reportId = k ∧ c.kind = kind then 1 else 0) =
        countVotes s k kind + (after.map (fun x => (⟨r, user, x⟩ : Confirmation))).elim 0
          (fun c => if c.reportId = k ∧ c.kind = kind then 1 else 0) := by
    cases after with
    | none => exact s.total_apply (deleteVote r user) _
    | some x => exact s.total_apply (putVote r user x) _
  have hold : ((s TableName.confirmations).find? (r, user)).elim 0 (fun c =>
    if c.reportId = k ∧ c.kind = kind then 1 else 0) =
      if k = r ∧ findVote s r user = some kind then 1 else 0 := by
    unfold findVote
    cases hc : (s TableName.confirmations).find? (r, user) with
    | none => simp
    | some c =>
      have hr : c.reportId = r := congrArg Prod.fst (Table.key_of_find? hc)
      simp [hr, eq_comm]
  have hnew : (after.map (fun x => (⟨r, user, x⟩ : Confirmation))).elim 0
      (fun c => if c.reportId = k ∧ c.kind = kind then 1 else 0) = if k = r ∧ after = some kind then 1 else 0 := by
    cases after with
    | none => simp
    | some x => simp [eq_comm]
  rw [hold, hnew] at htotal
  exact htotal

theorem addFloored_delta {n m : ℕ} {before after : Option ReportVote} {kind : ReportVote}
    (h : m + (if before = some kind then 1 else 0) = n + (if after = some kind then 1 else 0)) :
    addFloored n (delta before after kind) = m := by
  unfold addFloored delta
  split at h <;> split at h <;> simp [*] <;> omega

/-- `setConfirmation`'s two writes, and `claimByCode`'s, leave counted what was counted. -/
theorem Counted.moveVote {s : Db} (h : Counted s) {r : ReportId} {user : UserId} {before : Option ReportVote}
    (hb : findVote s r user = before) (hr : (s TableName.reports).find? r ≠ none) (after : Option ReportVote) :
    Counted (movedVote s r user before after) := by
  unfold movedVote
  refine ⟨fun k x hx kind => ?_, fun k u hk => ?_⟩
  · have hmoved := countVotes_writeVote s r user after k kind
    rw [hb] at hmoved
    rw [countVotes, confirmations_addCounts, ← countVotes]
    rw [reports_addCounts, reports_writeVote] at hx
    split at hx
    · next hkr =>
      subst hkr
      obtain ⟨y, hy, rfl⟩ := Option.map_eq_some_iff.mp hx
      simp only [true_and] at hmoved
      rw [← h.count k y hy kind] at hmoved
      cases kind with
      | seen => exact addFloored_delta hmoved
      | fixed => exact addFloored_delta hmoved
    · next hkr =>
      simp only [hkr, false_and, if_false, Nat.add_zero] at hmoved
      rw [hmoved]
      exact h.count k x hx kind
  · rw [reports_addCounts, reports_writeVote] at hk
    rw [confirmations_addCounts, findVote_writeVote]
    split at hk
    · exact absurd (Option.map_eq_none_iff.mp hk) hr
    · next hkr =>
      rw [if_neg (fun he => hkr (congrArg Prod.fst he))]
      exact h.report k u hk

/-- The vote may be put where the reporter is someone else. -/
theorem NoneOwn.moveVote {s : Db} {r : ReportId} {user : UserId} {before after : Option ReportVote}
    (h : ∀ k, ∀ x ∈ (s TableName.reports).find? k, ∀ u ∈ x.reporterUserId, (k, u) ≠ (r, user) →
      (s TableName.confirmations).find? (k, u) = none)
    (hu : after = none ∨ ∀ x ∈ (s TableName.reports).find? r, x.reporterUserId ≠ some user) :
    NoneOwn (movedVote s r user before after) := by
  intro k x hx u hux
  unfold movedVote at hx ⊢
  obtain ⟨y, hy, hyu⟩ : ∃ y ∈ (s TableName.reports).find? k, u ∈ y.reporterUserId := by
    rw [reports_addCounts, reports_writeVote] at hx
    split at hx
    · next hkr =>
      obtain ⟨y, hy, rfl⟩ := Option.map_eq_some_iff.mp hx
      exact ⟨y, hkr ▸ hy, hux⟩
    · exact ⟨x, hx, hux⟩
  rw [confirmations_addCounts, findVote_writeVote]
  split
  · next hk =>
    obtain ⟨rfl, rfl⟩ := Prod.mk.inj hk
    rcases hu with rfl | hne
    · rfl
    · exact absurd hyu (hne y hy)
  · next hk => exact h k y hy u hyu hk

/-! ## Operations -/

theorem Counted.link {s : Db} (h : Counted s) (r : ReportId) (user : UserId) : Counted (s.apply (link r user)) := by
  refine ⟨fun k x hx kind => ?_, fun k u hk => ?_⟩
  · rw [countVotes, confirmations_link, ← countVotes]
    rw [reports_link] at hx
    split at hx
    · next hkr =>
      obtain ⟨y, hy, rfl⟩ := Option.map_eq_some_iff.mp hx
      rw [hkr, ← h.count r y hy kind]
      cases kind <;> rfl
    · exact h.count k x hx kind
  · rw [confirmations_link]
    rw [reports_link] at hk
    split at hk
    · next hkr => exact hkr ▸ h.report r u (Option.map_eq_none_iff.mp hk)
    · exact h.report k u hk

/-- After the link the only vote that may be its reporter's is the claimant's. -/
theorem NoneOwn.link {s : Db} (h : NoneOwn s) (r : ReportId) (user : UserId) (k : ReportId) (x : Report)
    (hx : x ∈ (s.apply (link r user) TableName.reports).find? k) (u : UserId) (hu : u ∈ x.reporterUserId)
    (hne : (k, u) ≠ (r, user)) : (s.apply (link r user) TableName.confirmations).find? (k, u) = none := by
  rw [confirmations_link]
  rw [reports_link] at hx
  split at hx
  · next hkr =>
    obtain ⟨y, -, rfl⟩ := Option.map_eq_some_iff.mp hx
    obtain rfl := Option.some.inj hu
    exact absurd (hkr ▸ rfl) hne
  · exact h k x hx u hu

theorem setConfirmation_keeps (cfg : Config) (r : ReportId) (user : UserId) (vote : ReportVote) (c : VoteChange)
    {s : Db}
    (h : VotesExact s) :
    schema.engine.wlp schema.engine.Agree [] s (setConfirmation cfg r user vote c) (fun _ _ s' => VotesExact s') := by
  refine wlp_setConfirmation cfg r user vote c (fun _ _ => h) (fun _ x _ _ after hx hrep => ?_)
  refine ⟨h.counted.moveVote rfl (by simp [hx]) after, .moveVote (fun k y hy u hu _ => h.noneOwn k y hy u hu) (.inr ?_)⟩
  intro y hy
  obtain rfl := Option.some.inj (hx.symm.trans hy)
  exact hrep

theorem claimByCode_keeps (cfg : Config) (code : Code) (user : UserId) {s : Db} (h : VotesExact s) :
    schema.engine.wlp schema.engine.Agree [] s (claimByCode cfg code user) (fun _ _ s' => VotesExact s') := by
  refine wlp_claimByCode cfg code user h (fun _ x s' hx _ hs' => ?_)
  have hcounted := h.counted.link x.id user
  rcases hs' with ⟨hnone, rfl⟩ | ⟨kind, hkind, rfl⟩
  · refine ⟨hcounted, fun k y hy u hu => ?_⟩
    by_cases hku : (k, u) = (x.id, user)
    · rw [hku, confirmations_link]
      exact Option.map_eq_none_iff.mp hnone
    · exact h.noneOwn.link x.id user k y hy u hu hku
  · have hsome : (s.apply (link x.id user) TableName.reports).find? x.id ≠ none := by
      rw [reports_link, if_pos rfl, hx]
      exact Option.some_ne_none _
    have hvote : findVote (s.apply (link x.id user)) x.id user = some kind := by
      rw [findVote, confirmations_link]
      exact hkind
    exact ⟨hcounted.moveVote hvote hsome none, .moveVote (h.noneOwn.link x.id user) (.inl rfl)⟩

/-- Every operation keeps the counts at its commit point. -/
theorem program_keeps_votes (cfg : Config) : schema.engine.Keeps (program cfg) VotesExact := by
  have hquiet : ∀ {s : Db} {p : Transaction Outcome}, Schema.Plainly Voteless p → VotesExact s →
      schema.engine.wlp schema.engine.Agree [] s p (fun _ _ s' => VotesExact s') :=
    fun hp hs => Schema.wlp_plainly (fun _ _ hw hd => hd.voteless hw) hp hs
  intro o s hs
  cases o with
  | issueToken id =>
    exact hquiet ((plainly_insertOr (voteless_of_table (by rintro ⟨⟩) (by rintro ⟨⟩)) rfl _).bind
      (fun _ => Schema.plainly_pure _)) hs
  | recordUpload m =>
    exact hquiet ((plainly_insertOr (voteless_of_table (by rintro ⟨⟩) (by rintro ⟨⟩)) rfl _).bind
      (fun _ => Schema.plainly_pure _)) hs
  | createReport id reporter key status now =>
    have hzero : (signedInReport id reporter key status now).count = fun _ => 0 :=
      funext fun kind => by cases kind <;> rfl
    exact hquiet ((plainly_insertOr (voteless_insertReport hzero) rfl _).bind (fun _ => Schema.plainly_pure _)) hs
  | changeReport id c =>
    refine hquiet (Schema.Plainly.bind (Schema.plainly_dml (fun d w hw => ?_) _) (fun _ => Schema.plainly_pure _)) hs
    obtain rfl := List.mem_singleton.mp hw
    exact ⟨voteless_change id c, rfl⟩
  | createAnonReportTx a =>
    have hzero : (a.report cfg).count = fun _ => 0 := funext fun kind => by cases kind <;> rfl
    refine Engine.wlp_mono _ (fun _ _ _ h => h.2) (wlp_createAnonReportTx cfg a (P := VotesExact) ?_ ?_)
    · exact fun d w hw hd => hd.voteless (voteless_of_table hw.2.2 hw.1)
    · rintro t _ - - rfl - -
      have hbump : Voteless (bumpToken a.anonSessionId) := voteless_of_table (by rintro ⟨⟩) (by rintro ⟨⟩)
      exact (hs.voteless hbump).voteless (voteless_insertReport hzero)
  | findIdempotentSnapshot key userOrAnon newCode =>
    exact hquiet (plainly_replaySnapshot cfg (voteless_rotate cfg) key userOrAnon newCode) hs
  | rotatePendingClaimCode token newCode =>
    exact hquiet (plainly_rotatePendingClaimCode cfg (voteless_rotate cfg) token newCode) hs
  | claimByCode code user => exact claimByCode_keeps cfg code user hs
  | setConfirmation id user vote c => exact setConfirmation_keeps cfg id user vote c hs

/-- In every interleaving from the empty database, a report's counts are the numbers of its votes, no
account has two votes on it, and its reporter has none. -/
theorem votes_are_exact (cfg : Config) {w : World} (h : Reachable cfg w) (r : ReportId) (x : Report)
    (hx : (w.db TableName.reports).find? r = some x) :
    x.confirmCount = countVotes w.db r .seen ∧ x.fixedCount = countVotes w.db r .fixed ∧
      (∀ u, ((w.db TableName.confirmations).rows.filter (fun c => decide (c.reportId = r ∧ c.userId = u))).length ≤ 1) ∧
      ∀ c ∈ (w.db TableName.confirmations).rows, c.reportId = r → x.reporterUserId ≠ some c.userId := by
  have hexact : VotesExact w.db :=
    Engine.Reachable.invariant (fun s hs => hs ▸ votesExact_noRows) (program_keeps_votes cfg) h
  refine ⟨hexact.counted.count r x hx .seen, hexact.counted.count r x hx .fixed, fun u => ?_, fun c hc hr hown => ?_⟩
  · refine (Table.length_filter_le_one_iff _ _).mpr ?_
    intro k k' c c' hk hk' hp hp'
    obtain ⟨hr, hu⟩ := of_decide_eq_true hp
    obtain ⟨hr', hu'⟩ := of_decide_eq_true hp'
    rw [← Table.key_of_find? hk, ← Table.key_of_find? hk']
    exact Prod.ext (hr.trans hr'.symm) (hu.trans hu'.symm)
  · have hfound : (w.db TableName.confirmations).find? (c.reportId, c.userId) = some c := Table.mem_rows_iff.mp hc
    rw [hr, hexact.noneOwn r x hx c.userId hown] at hfound
    cases hfound

/-- Two accounts vote on a published report, and one of them then claims it. -/
def votedAndClaimed : List Operation :=
  filed ++ [(.changeReport 1 (.status .published) : Operation), .setConfirmation 1 7 .seen .add,
    .setConfirmation 1 8 .seen .add,
    .setConfirmation 1 8 .fixed .add, .claimByCode firstCode 7]

/-- The claimant's vote is gone, and the moved one is counted as what it is. -/
theorem claimant_has_no_vote :
    ∃ (w : World) (x : Report), (w.db TableName.reports).find? 1 = some x ∧ x.reporterUserId = some 7 ∧
      x.confirmCount = 0 ∧
      x.fixedCount = 1 ∧ x.confirmCount = countVotes w.db 1 .seen ∧ x.fixedCount = countVotes w.db 1 .fixed ∧
      (∀ u, ((w.db TableName.confirmations).rows.filter (fun c => decide (c.reportId = 1 ∧ c.userId = u))).length ≤ 1) ∧
      ∀ c ∈ (w.db TableName.confirmations).rows, c.reportId = 1 → x.reporterUserId ≠ some c.userId := by
  have hrun : ((afterAll .sample votedAndClaimed TableName.reports).find? 1).any
      (fun x => decide (x.reporterUserId = some 7 ∧ x.confirmCount = 0 ∧ x.fixedCount = 1)) = true := by decide +kernel
  have hw := reachable_afterAll .sample votedAndClaimed
  generalize afterAll .sample votedAndClaimed = d at hrun hw
  obtain ⟨x, hx, hP⟩ := Option.any_eq_true _ _ |>.mp hrun
  obtain ⟨hr, hc, hf⟩ := of_decide_eq_true hP
  exact ⟨.quiet d, x, hx, hr, hc, hf, votes_are_exact .sample hw 1 x hx⟩

end Civfix.AnonymousReports
