import Civfix.OtpCodes

/-! # How many codes of an email are live

An issue consumes the old codes of its email in one statement and inserts the new one in
another; the cooldown key is what keeps two issues apart. A verification deletes that key
after it has claimed a code, whoever set the key, so two issues can be between their two
statements at once. While they are not, an email has at most one live code. -/
namespace Civfix.Otps

open KeyedTables InterleavedCalls

def Request.issues : Request → Option Email
  | .issueOtp i => some i.email
  | .proveInbox _ => none

/-- An issue that is about to consume the old codes of an email. -/
def Await.invalidates : Await → Option Email
  | .invalidate i => some i.email
  | _ => none

/-- While no issue of an email is in progress, at most one of its codes is unconsumed and
unexpired. -/
def AtMostOneLive (w : World) : Prop :=
  ∀ email, (∀ i c, w.call i = some c → c.origin.issues ≠ some email) →
    (w.shared.activeOtps email w.shared.now).length ≤ 1

/-- An issue consumes the old codes only while no other issue of the email is between that and
its insertion. -/
def IssuesApart (w : World) : Move Request Instant → Prop
  | .access i _ => ∀ c ∈ w.call i, ∀ email ∈ c.await.invalidates,
      ∀ j ∈ List.range w.calls.length, j ≠ i → ∀ d ∈ w.call j, d.await.inserts ≠ some email
  | _ => True

instance (w : World) : DecidablePred (IssuesApart w)
  | .access _ _ => inferInstanceAs (Decidable (∀ c ∈ _, _))
  | .start _ => inferInstanceAs (Decidable True)
  | .crash _ => inferInstanceAs (Decidable True)
  | .environment _ => inferInstanceAs (Decidable True)

/-- A code that `findLatestActive` can return. -/
def Otp.LiveFor (email : Email) (now : Instant) (o : Otp) : Prop := o.email = email ∧ o.Active ∧ now < o.expiresAt

variable {cfg : Config} {s s' : Shared} {p q : Await} {email : Email}

theorem length_activeOtps_le_one_iff {now : Instant} :
    (s.activeOtps email now).length ≤ 1 ↔ s.otps.AtMostOne (Otp.LiveFor email now) := by
  unfold Shared.activeOtps
  rw [Table.length_filter_le_one_iff]
  simp only [decide_eq_true_eq]
  exact Iff.rfl

theorem Effect.noNew_live (h : Effect s s' p) (hn : Table.NoNew (Otp.ActiveFor email) s.otps s'.otps) (now : Instant) :
    Table.NoNew (Otp.LiveFor email now) s.otps s'.otps := by
  intro k o' ho' hlive
  obtain ⟨o, ho, hactive⟩ := hn k o' ho' ⟨hlive.1, hlive.2.1⟩
  obtain ⟨x, hx, hgrow⟩ := h.grows k o ho
  rw [ho'] at hx
  cases hx
  exact ⟨o, ho, hactive.1, hactive.2, hgrow.expiresAt ▸ hlive.2.2⟩

theorem all_not_activeFor_invalidate : (s.invalidateActiveForEmail email).otps.All (fun o => ¬ o.ActiveFor email) := by
  intro k o ho hactive
  rw [Shared.find?_invalidate] at ho
  obtain ⟨x, -, rfl⟩ := Option.map_eq_some_iff.mp ho
  split at hactive
  · cases hactive.2
  · next hx => exact hx (decide_eq_true hactive)

/-- The email of a call that is between its two statements. -/
def between (c : Call Request Await) : Option Email := c.await.inserts

/-- The invariant of such a run: while an issue is between its two statements its email has no
code left, and no other issue of the email is there. -/
structure Single (w : World) : Prop where
  holds : Machine.Holds (fun s => ∀ email, s.otps.AtMostOne (Otp.LiveFor email s.now))
    (fun s _ c => ∀ email, between c = some email → s.otps.All (fun o => ¬ o.ActiveFor email)) w
  exclusive : Machine.Exclusive between w

theorem Effect.atMostOne (h : Effect s s' p) (hs : s.otps.AtMostOne (Otp.LiveFor email s.now))
    (hp : p.inserts = some email → s.otps.All (fun o => ¬ o.ActiveFor email)) :
    s'.otps.AtMostOne (Otp.LiveFor email s.now) := by
  rcases h.noNew_or_insert email with hn | ⟨hi, o, ho⟩
  · exact hs.of_noNew (h.noNew_live hn s.now)
  · rw [ho]
    exact .insert_of_none ((hp hi).imp fun r hr hlive => hr ⟨hlive.1, hlive.2.1⟩) o

theorem Leads.inserts_eq (h : Leads cfg s s' p q) (hq : q.inserts = some email) :
    p.invalidates = some email ∧ s' = s.invalidateActiveForEmail email := by
  cases h with
  | idle _ _ hidle =>
    rw [hidle.2.2] at hq
    cases hq
  | found | guess => cases hq
  | kept _ _ _ _ _ _ _ hinserts =>
    rw [hinserts] at hq
    cases hq
  | insert i hs =>
    cases hq
    exact ⟨rfl, hs⟩

theorem Single.step {w w' : World} {m : Move Request Instant} {r : Option Result} (hw : Single w)
    (hok : IssuesApart w m)
    (hs : cfg.machine.step w m = some (w', r)) : Single w' := by
  constructor
  · refine hw.holds.step hs ?_ ?_ ?_
    · intro o s p _ he
      obtain ⟨rfl, hidle⟩ := enter_idle he
      refine ⟨hw.holds.shared, fun email hb => ?_, hw.holds.calls⟩
      rw [between, hidle.2.2] at hb
      cases hb
    · intro i k c s n _ hc hmem
      have heff := access_effect hmem
      refine ⟨fun email => ?_, fun q hq email hb => ?_, fun j d hj hd email hb => ?_⟩
      · rw [heff.now_eq]
        exact heff.atMostOne (hw.holds.shared email) (hw.holds.calls i c hc email)
      · subst hq
        obtain ⟨-, rfl⟩ := (access_leads hmem).inserts_eq hb
        exact all_not_activeFor_invalidate
      · have hall := hw.holds.calls j d hd email hb
        rcases heff.noNew_or_insert email with hn | ⟨hi, -⟩
        · exact hn.all_not hall
        · exact absurd (hw.exclusive j i d c email hd hc hb hi) hj
    · intro t s _ he
      obtain ⟨hle, rfl⟩ := environment_eq_some he
      refine ⟨fun email => ?_, hw.holds.calls⟩
      exact (hw.holds.shared email).imp fun o ho => ⟨ho.1, ho.2.1, hle.trans_lt ho.2.2⟩
  · refine hw.exclusive.step_taking hs ?_ ?_
    · intro o s p _ he email hb
      rw [between, (enter_idle he).2.2.2] at hb
      cases hb
    · intro i n c s q hm hc hmem
      refine .inr fun email hb j d hj hd => ?_
      obtain ⟨hinv, -⟩ := (access_leads hmem).inserts_eq hb
      subst hm
      exact hok c hc email hinv j (List.mem_range.mpr (World.lt_of_call hd)) hj d hd

/-- In every run in which an issue consumes the old codes only while no other issue of the
email is between its two statements, no email ever has two live codes. -/
theorem at_most_one_live_of_issuesApart {w : World} (hs : ∀ email, (s.activeOtps email s.now).length ≤ 1)
    (h : Machine.Run cfg.machine IssuesApart (.initial s) w) : AtMostOneLive w := by
  have hinitial : Single (.initial s) := by
    refine ⟨⟨fun email => length_activeOtps_le_one_iff.mp (hs email), by simp⟩, ?_⟩
    intro i j c d k hc
    simp at hc
  have hsingle : Single w := h.invariant hinitial (fun hv hok hstep => hv.step hok hstep)
  exact fun email _ => length_activeOtps_le_one_iff.mpr (hsingle.holds.shared email)

/-- An issue (call 0) and, just before its cooldown ends, a verification (call 1) that claims its
code and is about to delete the cooldown key. -/
def claimedAtCooldownEnd : List (Move Request Instant) :=
  [.start (.issueOtp ⟨"a", none, 1, "1"⟩), .access 0 0, .access 0 0, .access 0 0, .access 0 0, .access 0 0,
    .environment 59999, .start (.proveInbox ⟨"a", "1", none⟩), .access 1 0, .access 1 0, .access 1 0, .access 1 0,
    .access 1 0]

/-- The next issue (call 2) consumes the old codes; the verification deletes the key of that
issue's cooldown. -/
def cooldownDeleted : List (Move Request Instant) :=
  List.append claimedAtCooldownEnd [.environment 60000, .start (.issueOtp ⟨"a", none, 2, "2"⟩), .access 2 0,
    .access 2 0,
    .access 1 0]

/-- A third issue (call 3) follows only after the second has ended. -/
theorem at_most_one_live_cooldownDeleted :
    ∃ w, Machine.Run Config.plain.machine IssuesApart (.initial .empty) w ∧ AtMostOneLive w ∧
      (w.shared.activeOtps "a" w.shared.now).map (·.id) = [3] := by
  have hrun : Machine.Allowed Config.plain.machine IssuesApart (.initial .empty)
        (List.append cooldownDeleted [.access 2 0, .access 2 0, .access 2 0, .start (.issueOtp ⟨"a", none, 3, "3"⟩),
          .access 3 0, .access 3 0, .access 3 0, .access 3 0, .access 3 0]) ∧
      ∃ w ∈ Config.plain.machine.perform (.initial .empty)
        (List.append cooldownDeleted [.access 2 0, .access 2 0, .access 2 0, .start (.issueOtp ⟨"a", none, 3, "3"⟩),
          .access 3 0, .access 3 0, .access 3 0, .access 3 0, .access 3 0]),
      (w.shared.activeOtps "a" w.shared.now).map (·.id) = [3] := by
    decide +kernel
  obtain ⟨hok, w, hw, hlive⟩ := hrun
  have hreach := Machine.run_of_perform hok hw
  exact ⟨w, hreach, at_most_one_live_of_issuesApart
    (by simp [Shared.activeOtps, Shared.empty, Table.empty]) hreach, hlive⟩

/-- A third issue consumes the old codes before the second has inserted its own; both are
inserted, and no issue is in progress any more. -/
theorem not_at_most_one_live :
    ¬ ∀ (cfg : Config) (w : World), Machine.Run cfg.machine (fun _ _ => True) (.initial .empty) w →
      AtMostOneLive w := by
  intro hclaim
  have hrun : ∃ w ∈ Config.plain.machine.perform (.initial .empty)
      (List.append cooldownDeleted [.start (.issueOtp ⟨"a", none, 3, "3"⟩), .access 3 0, .access 3 0, .access 2 0,
        .access 2 0, .access 2 0, .access 3 0, .access 3 0, .access 3 0]),
      (∀ x ∈ w.calls, x = none) ∧ (w.shared.activeOtps "a" w.shared.now).map (·.id) = [2, 3] := by
    decide +kernel
  obtain ⟨w, hw, hidle, hlive⟩ := hrun
  have hle := hclaim _ w (Machine.free_of_perform hw) "a" fun i c hc => by
    cases hidle _ (List.mem_of_getElem? (World.call_eq_some.mp hc))
  rw [← List.length_map, hlive] at hle
  exact absurd hle (by decide)

end Civfix.Otps
