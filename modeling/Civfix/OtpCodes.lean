import Civfix.OtpSteps

/-! # One-time codes over whole runs

An attempt is counted before its guess is compared, so every comparison has a number of its
own, and the numbers stop at the limit. A code is claimed by one UPDATE that a consumed row
refuses. Both hold in every interleaving of issues, verifications, failures and clock moves.

That an email has at most one live code depends on how the issues of the email interleave:
the old codes are consumed in one statement and the new one is inserted in another. -/
namespace Civfix.Otps

open KeyedTables InterleavedCalls

namespace Shared

/-- How often the code was compared with a guess. -/
def comparisons (s : Shared) (id : OtpId) : ℕ := (s.compared.filter (fun g => decide (g.1 = id))).length

/-- The verifications that the code signed in. -/
def successes (s : Shared) (id : OtpId) : List Success := s.succeeded.filter (fun x => decide (x.row.id = id))

/-- What the logs say of the codes. -/
structure Sound (s : Shared) : Prop where
  compared_nodup : s.compared.Nodup
  compared : ∀ g ∈ s.compared, 1 ≤ g.2 ∧ g.2 ≤ OTP_MAX_ATTEMPTS ∧ ∃ o, s.otps.find? g.1 = some o ∧ g.2 ≤ o.attempts
  succeeded_nodup : (s.succeeded.map (·.row.id)).Nodup
  succeeded : ∀ x ∈ s.succeeded, x.row.Active ∧ x.calledAt < x.row.expiresAt ∧
    ∃ o, s.otps.find? x.row.id = some o ∧ ¬ o.Active

end Shared

/-- What a call in progress knows of the code it is about, and that the guess it is about to
compare has a number that was not used. -/
structure Await.Sound (s : Shared) (q : Await) : Prop where
  code : ∀ now row, q.code = some (now, row) → now < row.expiresAt ∧
    ∃ o, s.otps.find? row.id = some o ∧ o.expiresAt = row.expiresAt
  guess : ∀ g, q.guess = some g → g ∉ s.compared ∧ 1 ≤ g.2 ∧ g.2 ≤ OTP_MAX_ATTEMPTS ∧
    ∃ o, s.otps.find? g.1 = some o ∧ g.2 ≤ o.attempts

theorem Await.Idle.sound {s : Shared} {q : Await} (h : q.Idle) : q.Sound s := by
  refine ⟨fun now row hc => ?_, fun g hg => ?_⟩
  · rw [h.1] at hc
    cases hc
  · rw [h.2.1] at hg
    cases hg

variable {cfg : Config} {s s' : Shared} {p q : Await}

theorem claimable_eq_some {id : OtpId} {o : Otp} (h : s.claimable id = some o) : s.otps.find? id = some o ∧
    o.Active := by
  simpa [Shared.claimable, Option.filter_eq_some_iff] using h

theorem Effect.compared_eq (h : Effect s s' p) : s'.compared = s.compared ∨
    ∃ g, p.guess = some g ∧ s'.compared = g :: s.compared := by
  cases h with
  | none _ _ _ hc _ => exact .inl hc
  | compare v now row n hs => exact .inr ⟨(row.id, n), rfl, by rw [hs]⟩
  | invalidate _ hs | insert _ _ hs | increment _ _ _ hs | consume _ _ _ hs | claim _ _ _ _ _ hs =>
    subst hs
    exact .inl rfl

theorem Effect.succeeded_eq (h : Effect s s' p) : s'.succeeded = s.succeeded ∨
    ∃ now row o, p.code = some (now, row) ∧ s.claimable row.id = some o ∧
      s'.succeeded = ⟨o, now, s.now⟩ :: s.succeeded ∧ s'.otps = (s.markConsumed row.id now).otps := by
  cases h with
  | none _ _ _ _ hsc => exact .inl hsc
  | claim v now row o ho hs => exact .inr ⟨now, row, o, rfl, ho, by rw [hs], by rw [hs]⟩
  | invalidate _ hs | insert _ _ hs | increment _ _ _ hs | consume _ _ _ hs | compare _ _ _ _ hs =>
    subst hs
    exact .inl rfl

/-- A move of one call keeps what the logs say. -/
theorem Effect.sound (h : Effect s s' p) (hs : s.Sound) (hp : p.Sound s) : s'.Sound := by
  have hrow : ∀ id o, s.otps.find? id = some o → ∃ o', s'.otps.find? id = some o' ∧ o.Grows o' :=
    fun id o ho => h.grows id o ho
  have hattempts : ∀ g : OtpId × ℕ, (∃ o, s.otps.find? g.1 = some o ∧ g.2 ≤ o.attempts) →
      ∃ o, s'.otps.find? g.1 = some o ∧ g.2 ≤ o.attempts := by
    rintro g ⟨o, ho, hle⟩
    obtain ⟨o', ho', hg⟩ := hrow g.1 o ho
    exact ⟨o', ho', hle.trans hg.attempts⟩
  have hold : ∀ x ∈ s.succeeded, x.row.Active ∧ x.calledAt < x.row.expiresAt ∧
      ∃ o, s'.otps.find? x.row.id = some o ∧ ¬ o.Active := by
    intro x hx
    obtain ⟨ha, hlt, o, ho, hc⟩ := hs.succeeded x hx
    obtain ⟨o', ho', hg⟩ := hrow _ o ho
    exact ⟨ha, hlt, o', ho', hg.consumed hc⟩
  have hcompared : s'.compared.Nodup ∧ ∀ g ∈ s'.compared, 1 ≤ g.2 ∧ g.2 ≤ OTP_MAX_ATTEMPTS ∧
      ∃ o, s'.otps.find? g.1 = some o ∧ g.2 ≤ o.attempts := by
    rcases h.compared_eq with hc | ⟨g, hg, hc⟩
    · rw [hc]
      refine ⟨hs.compared_nodup, fun x hx => ?_⟩
      obtain ⟨h1, h3, ho⟩ := hs.compared x hx
      exact ⟨h1, h3, hattempts x ho⟩
    · obtain ⟨hnew, h1, h3, ho⟩ := hp.guess g hg
      rw [hc]
      refine ⟨List.nodup_cons.mpr ⟨hnew, hs.compared_nodup⟩, List.forall_mem_cons.mpr ⟨⟨h1, h3, hattempts g ho⟩, ?_⟩⟩
      intro x hx
      obtain ⟨h1, h3, ho⟩ := hs.compared x hx
      exact ⟨h1, h3, hattempts x ho⟩
  refine ⟨hcompared.1, hcompared.2, ?_, ?_⟩
  · rcases h.succeeded_eq with hsc | ⟨now, row, o, -, ho, hsc, -⟩
    · rw [hsc]
      exact hs.succeeded_nodup
    · rw [hsc, List.map_cons, List.nodup_cons]
      refine ⟨fun hmem => ?_, hs.succeeded_nodup⟩
      obtain ⟨hfind, hactive⟩ := claimable_eq_some ho
      obtain ⟨x, hx, hid⟩ := List.mem_map.mp hmem
      obtain ⟨-, -, o', ho', hc⟩ := hs.succeeded x hx
      -- An earlier success left the row consumed, and a consumed row is not claimed.
      have hid' : x.row.id = row.id := hid.trans (Table.key_of_find? hfind)
      rw [hid', hfind] at ho'
      exact hc (Option.some.inj ho' ▸ hactive)
  · rcases h.succeeded_eq with hsc | ⟨now, row, o, hcode, ho, hsc, hotps⟩
    · rw [hsc]
      exact hold
    · rw [hsc]
      refine List.forall_mem_cons.mpr ⟨?_, hold⟩
      obtain ⟨hfind, hactive⟩ := claimable_eq_some ho
      obtain ⟨hlt, o', ho', hexp⟩ := hp.code now row hcode
      rw [hfind] at ho'
      obtain rfl := Option.some.inj ho'
      have hid : o.id = row.id := Table.key_of_find? hfind
      refine ⟨hactive, by rw [hexp]; exact hlt, o.consume now, ?_, by simp [Otp.Active, Otp.consume]⟩
      rw [hotps, Shared.find?_markConsumed, hid, hfind, Option.map_some, if_pos (by simp [hid, hactive])]

/-- The other calls keep what they know, if none of them holds the guess that is compared. -/
theorem Effect.others (h : Effect s s' p) (hq : q.Sound s) (hne : ∀ g, p.guess = some g → q.guess ≠ some g) :
    q.Sound s' := by
  refine ⟨fun now row hc => ?_, fun g hg => ?_⟩
  · obtain ⟨hlt, o, ho, hexp⟩ := hq.code now row hc
    obtain ⟨o', ho', hgrow⟩ := h.grows _ o ho
    exact ⟨hlt, o', ho', hgrow.expiresAt.trans hexp⟩
  · obtain ⟨hnew, h1, h3, o, ho, hle⟩ := hq.guess g hg
    obtain ⟨o', ho', hgrow⟩ := h.grows _ o ho
    refine ⟨?_, h1, h3, o', ho', hle.trans hgrow.attempts⟩
    rcases h.compared_eq with hc | ⟨g', hg', hc⟩
    · rwa [hc]
    · rw [hc, List.mem_cons, not_or]
      exact ⟨fun he => hne g' hg' (by rw [hg, he]), hnew⟩

theorem attemptsAfter_eq {id : OtpId} {o : Otp} (h : s.otps.find? id = some o) :
    s.attemptsAfter id = o.attempts + 1 := by
  simp [Shared.attemptsAfter, h]

/-- The moving call knows what it has to at its next await. -/
theorem Leads.sound (h : Leads cfg s s' p q) (heff : Effect s s' p) (hs : s.Sound) (hp : p.Sound s) : q.Sound s' := by
  cases h with
  | idle _ _ hq => exact hq.sound
  | found v now row hrow =>
    refine ⟨fun now' row' hc => ?_, fun g hg => by cases hg⟩
    cases hc
    simp only [Shared.findLatestActive, Shared.activeOtps, List.mem_filter, decide_eq_true_eq] at hrow
    obtain ⟨⟨hmem, -, -, hlt⟩, -⟩ := hrow
    obtain ⟨o', ho', hgrow⟩ := heff.grows _ row (Table.mem_rows_iff.mp hmem)
    exact ⟨hlt, o', ho', hgrow.expiresAt⟩
  | kept _ _ now row hpc hqc hguess _ =>
    refine ⟨fun now' row' hc => ?_, fun g hg => by rw [hguess] at hg; cases hg⟩
    rw [hqc] at hc
    cases hc
    obtain ⟨hlt, o, ho, hexp⟩ := hp.code now row hpc
    obtain ⟨o', ho', hgrow⟩ := heff.grows _ o ho
    exact ⟨hlt, o', ho', hgrow.expiresAt.trans hexp⟩
  | guess v now row hle hinc =>
    obtain ⟨hlt, o, ho, hexp⟩ := hp.code now row rfl
    obtain ⟨o', ho', hgrow⟩ := heff.grows _ o ho
    refine ⟨fun now' row' hc => ?_, fun g hg => ?_⟩
    · cases hc
      exact ⟨hlt, o', ho', hgrow.expiresAt.trans hexp⟩
    · cases hg
      rw [attemptsAfter_eq ho] at hle ⊢
      have hfind : s'.otps.find? row.id = some o.attempt := by
        rw [hinc, Shared.find?_incrementAttempts, if_pos rfl, ho, Option.map_some]
      refine ⟨fun hmem => ?_, Nat.succ_pos _, hle, o.attempt, hfind, le_rfl⟩
      rw [hinc] at hmem
      obtain ⟨-, -, x, hx, hxle⟩ := hs.compared _ hmem
      rw [ho] at hx
      cases hx
      exact absurd hxle (by simp)
  | insert i _ => exact ⟨fun now row hc => by (cases hc), fun g hg => by (cases hg)⟩

/-- The invariant of a run. -/
structure Counted (w : World) : Prop where
  holds : Machine.Holds Shared.Sound (fun s _ c => c.await.Sound s) w
  exclusive : Machine.Exclusive (fun c => c.await.guess) w

theorem Counted.step {w w' : World} {m : Move Request Instant} {r : Option Result} (hw : Counted w)
    (hs : cfg.machine.step w m = some (w', r)) : Counted w' := by
  constructor
  · refine hw.holds.step hs ?_ ?_ ?_
    · intro o s p _ he
      obtain ⟨rfl, hidle⟩ := enter_idle he
      exact ⟨hw.holds.shared, hidle.sound, hw.holds.calls⟩
    · intro i k c s n _ hc hmem
      have heff := access_effect hmem
      have hsound := hw.holds.calls i c hc
      refine ⟨heff.sound hw.holds.shared hsound, fun p hp => ?_, fun j d hj hd => ?_⟩
      · subst hp
        exact (access_leads hmem).sound heff hw.holds.shared hsound
      · refine heff.others (hw.holds.calls j d hd) fun g hg hg' => ?_
        exact hj (hw.exclusive j i d c g hd hc hg' hg)
    · intro t s _ he
      obtain ⟨-, rfl⟩ := environment_eq_some he
      exact ⟨⟨hw.holds.shared.1, hw.holds.shared.2, hw.holds.shared.3, hw.holds.shared.4⟩,
        fun i c hc => ⟨(hw.holds.calls i c hc).1, (hw.holds.calls i c hc).2⟩⟩
  · refine hw.exclusive.step_taking hs ?_ ?_
    · intro o s p _ he k hk
      rw [(enter_idle he).2.2.1] at hk
      cases hk
    · intro i n c s q _ hc hmem
      refine .inr fun g hg j d _ hd hdg => ?_
      have hlead := access_leads hmem
      generalize hpc : c.await = p at hlead
      have hsound := hw.holds.calls i c hc
      rw [hpc] at hsound
      cases hlead with
      | idle _ _ hq => rw [hq.2.1] at hg; cases hg
      | found v now row _ => cases hg
      | kept _ _ now row _ _ hguess _ => rw [hguess] at hg; cases hg
      | guess v now row _ _ =>
        obtain ⟨-, o, ho, -⟩ := hsound.code now row rfl
        obtain ⟨-, -, -, x, hx, hxle⟩ := (hw.holds.calls j d hd).guess g hdg
        cases hg
        rw [ho] at hx
        cases hx
        rw [attemptsAfter_eq ho] at hxle
        exact absurd hxle (by simp)
      | insert i _ => cases hg

/-- Nothing has been compared and nobody has signed in yet. -/
structure Shared.Unused (s : Shared) : Prop where
  compared : s.compared = []
  succeeded : s.succeeded = []

theorem Shared.Unused.counted (h : s.Unused) : Counted (.initial s) := by
  have hsound : s.Sound := by
    constructor
    · rw [h.compared]
      exact List.nodup_nil
    · simp [h.compared]
    · simp [h.succeeded]
    · simp [h.succeeded]
  exact ⟨⟨hsound, by simp⟩, fun i j c d k hc => by simp at hc⟩

/-- Distinct numbers up to the limit are at most as many as the limit. -/
theorem Shared.Sound.comparisons_le (h : s.Sound) (id : OtpId) : s.comparisons id ≤ OTP_MAX_ATTEMPTS := by
  have hnodup : ((s.compared.filter (fun g => decide (g.1 = id))).map Prod.snd).Nodup := by
    refine List.Nodup.map_on (fun x hx y hy hxy => ?_) (h.compared_nodup.filter _)
    simp only [List.mem_filter, decide_eq_true_eq] at hx hy
    exact Prod.ext (hx.2.trans hy.2.symm) hxy
  have hsub : (s.compared.filter (fun g => decide (g.1 = id))).map Prod.snd ⊆ List.range' 1 OTP_MAX_ATTEMPTS := by
    intro n hn
    obtain ⟨g, hg, rfl⟩ := List.mem_map.mp hn
    obtain ⟨h1, h3, -⟩ := h.compared g (List.mem_filter.mp hg).1
    rw [List.mem_range'_1]
    omega
  have hlen := (List.subperm_of_subset hnodup hsub).length_le
  simpa [Shared.comparisons] using hlen

theorem Shared.Sound.successes_le (h : s.Sound) (id : OtpId) : (s.successes id).length ≤ 1 := by
  have hnodup : ((s.successes id).map (·.row.id)).Nodup :=
    (List.filter_sublist.map _).nodup h.succeeded_nodup
  have hsub : (s.successes id).map (·.row.id) ⊆ [id] := by
    intro n hn
    obtain ⟨x, hx, rfl⟩ := List.mem_map.mp hn
    simpa [Shared.successes] using (List.mem_filter.mp hx).2
  have hlen := (List.subperm_of_subset hnodup hsub).length_le
  simpa using hlen

/-- A code that is consumed, by a verification or by the next issue, stays consumed and signs
nobody in from then on. -/
theorem consumed_step {w w' : World} {m : Move Request Instant} {r : Option Result} {id : OtpId}
    (hs : cfg.machine.step w m = some (w', r)) (h : ∃ o, w.shared.otps.find? id = some o ∧ ¬ o.Active) :
    (∃ o, w'.shared.otps.find? id = some o ∧ ¬ o.Active) ∧ w'.shared.successes id = w.shared.successes id := by
  rcases Machine.shared_cases hs with ⟨o, p, -, he⟩ | ⟨i, k, c, n, -, -, hmem⟩ | ⟨i, -, he⟩ | ⟨t, -, he, -⟩
  · rw [(enter_idle he).1]
    exact ⟨h, rfl⟩
  · obtain ⟨o, ho, hc⟩ := h
    have heff := access_effect hmem
    obtain ⟨o', ho', hgrow⟩ := heff.grows id o ho
    refine ⟨⟨o', ho', hgrow.consumed hc⟩, ?_⟩
    rcases heff.succeeded_eq with hsc | ⟨now, row, x, -, hx, hsc, -⟩
    · rw [Shared.successes, Shared.successes, hsc]
    · obtain ⟨hfind, hactive⟩ := claimable_eq_some hx
      have hne : ¬ x.id = id := by
        intro hid
        rw [← Table.key_of_find? hfind, hid, ho] at hfind
        exact hc (Option.some.inj hfind ▸ hactive)
      rw [Shared.successes, Shared.successes, hsc]
      simp [hne]
  · rw [he]
    exact ⟨h, rfl⟩
  · obtain ⟨-, hsh⟩ := environment_eq_some he
    rw [hsh]
    exact ⟨h, rfl⟩

theorem consumed_run {w w' : World} {id : OtpId} (hrun : Machine.Run cfg.machine (fun _ _ => True) w w')
    (h : ∃ o, w.shared.otps.find? id = some o ∧ ¬ o.Active) :
    (∃ o, w'.shared.otps.find? id = some o ∧ ¬ o.Active) ∧ w'.shared.successes id = w.shared.successes id := by
  induction hrun with
  | refl => exact ⟨h, rfl⟩
  | tail _ m _ hs ih =>
    obtain ⟨hc, heq⟩ := consumed_step hs ih.1
    exact ⟨hc, heq.trans ih.2⟩

/-- In every interleaving a code is compared with at most `OTP_MAX_ATTEMPTS` guesses and signs
at most one verification in; that one had read the clock before the code expired; and once the
code is consumed or superseded it signs nobody in. -/
theorem otp_bounded_single_use {w : World} (hs : s.Unused)
    (h : Machine.Run cfg.machine (fun _ _ => True) (.initial s) w) (id : OtpId) :
    w.shared.comparisons id ≤ OTP_MAX_ATTEMPTS ∧ (w.shared.successes id).length ≤ 1 ∧
      (∀ x ∈ w.shared.successes id, x.row.Active ∧ x.calledAt < x.row.expiresAt) ∧
      ∀ w', Machine.Run cfg.machine (fun _ _ => True) w w' →
        (∃ o, w.shared.otps.find? id = some o ∧ ¬ o.Active) → w'.shared.successes id = w.shared.successes id := by
  have hcounted : Counted w := h.invariant hs.counted (fun hv _ hstep => hv.step hstep)
  have hsound := hcounted.holds.shared
  refine ⟨hsound.comparisons_le id, hsound.successes_le id, fun x hx => ?_, fun w' hrun hc => ?_⟩
  · obtain ⟨hactive, hlt, -⟩ := hsound.succeeded x (List.mem_filter.mp hx).1
    exact ⟨hactive, hlt⟩
  · exact (consumed_run hrun hc).2

/-- No special accounts, and a hash that is the code itself. -/
def Config.plain : Config := ⟨none, none, fun hash code => decide (hash = code)⟩

/-- An issue (call 0) and a verification (call 1) whose guess is right and which has not claimed
the code yet. -/
def aboutToClaim : List (Move Request Instant) :=
  [.start (.issueOtp ⟨"a", none, 1, "1"⟩), .access 0 0, .access 0 0, .access 0 0, .access 0 0, .access 0 0,
    .environment 299999, .start (.proveInbox ⟨"a", "1", none⟩), .access 1 0, .access 1 0, .access 1 0, .access 1 0]

theorem otp_bounded_single_use_aboutToClaim :
    ∃ w, Machine.Run Config.plain.machine (fun _ _ => True) (.initial .empty) w ∧
      w.shared.succeeded.map (·.row.id) = [1] ∧ w.shared.comparisons 1 ≤ OTP_MAX_ATTEMPTS ∧
      (w.shared.successes 1).length ≤ 1 := by
  have hrun : ∃ w ∈ Config.plain.machine.perform (.initial .empty) (List.append aboutToClaim [.access 1 0]),
      w.shared.succeeded.map (·.row.id) = [1] := by
    decide +kernel
  obtain ⟨w, hw, hsucceeded⟩ := hrun
  have hreach := Machine.free_of_perform hw
  obtain ⟨hle, hone, -⟩ := otp_bounded_single_use ⟨rfl, rfl⟩ hreach 1
  exact ⟨w, hreach, hsucceeded, hle, hone⟩

/-- The clock is read once, at the start: the code expires before it is claimed. -/
theorem not_succeeds_before_expiry :
    ¬ ∀ (cfg : Config) (w : World), Machine.Run cfg.machine (fun _ _ => True) (.initial .empty) w →
      ∀ x ∈ w.shared.succeeded, x.claimedAt < x.row.expiresAt := by
  intro hclaim
  have hrun : ∃ w ∈ Config.plain.machine.perform (.initial .empty)
      (List.append aboutToClaim [.environment 300000, .access 1 0]),
      ∃ x ∈ w.shared.succeeded, ¬ x.claimedAt < x.row.expiresAt := by
    decide +kernel
  obtain ⟨w, hw, x, hx, hlate⟩ := hrun
  exact hlate (hclaim _ w (Machine.free_of_perform hw) x hx)

end Civfix.Otps
