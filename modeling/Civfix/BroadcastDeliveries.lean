import Civfix.BroadcastSteps

/-! # Deliveries along a run

Two guarantees about every interleaving of the pipeline's calls. A delivery that was sent
stays sent, as long as no two running workers hold the same delivery: `applyDeliveryOutcomes`
looks at no status, so a second holder writes over what the first one recorded. A finished
broadcast has nothing left to deliver once all calls are over, as long as no rows are added
behind the back of the call that finishes it. -/
namespace Civfix.Broadcasts

open KeyedTables InterleavedCalls

variable {cfg : Config} {w w' : World} {m : Move} {r : Option Result} {b : BroadcastId} {k : DeliveryId}

/-- The tables change by an effect of the moving call, or by the environment. -/
theorem store_cases (hs : cfg.machine.step w m = some (w', r)) :
    w'.shared = w.shared ∨
      (∃ i j c n, m = .access i j ∧ w.call i = some c ∧ (w'.shared, n) ∈ cfg.access w.shared c.await ∧
        Config.Effect w.shared c.await w'.shared) ∨
      ∃ e, m = .environment e ∧ Config.environment w.shared e = some w'.shared ∧ w'.calls = w.calls := by
  rcases Machine.shared_cases hs with ⟨o, p, -, he⟩ | ⟨i, j, c, n, rfl, hc, hn⟩ | ⟨_, -, heq⟩ | ⟨e, rfl, he, hcalls⟩
  · simp only [Config.machine, Option.some.injEq, Prod.mk.injEq] at he
    exact .inl he.1.symm
  · exact .inr (.inl ⟨i, j, c, n, rfl, hc, hn, Config.effect_of_access hn⟩)
  · exact .inl heq
  · exact .inr (.inr ⟨e, rfl, he, hcalls⟩)

/-- The environment touches no delivery, and finishes no broadcast. -/
theorem environment_cases {s s' : Shared} {e : Config.Change} (he : Config.environment s e = some s') :
    s'.deliveries = s.deliveries ∧ (s'.Finished b ↔ s.Finished b) := by
  cases e with
  | tick now =>
    simp only [Config.environment, Option.ite_none_right_eq_some, Option.some.injEq] at he
    rw [← he.2]
    exact ⟨rfl, Iff.rfl⟩
  | create broadcast =>
    simp only [Config.environment, Option.ite_none_left_eq_some, Option.some.injEq] at he
    obtain ⟨hf, rfl⟩ := he
    refine ⟨rfl, ?_⟩
    simp only [Store.Finished, Store.findById, Shared.withStore, Table.find?_insert]
    split
    · next hid =>
      cases hfind : s.broadcasts.find? b with
      | none => simpa using hf
      | some r => simp
    · exact Iff.rfl
  | setStatus c status =>
    simp only [Config.environment, Option.ite_none_left_eq_some, Option.some.injEq] at he
    obtain ⟨hf, rfl⟩ := he
    refine ⟨?_, fun h => ?_, fun h => h.transition (by simp [unfinished, BroadcastStatus.finished]) status {}⟩
    · simp only [Shared.transition, Shared.withStore, Store.transition]
      split <;> rfl
    · rcases Store.finished_transition h with h | ⟨-, -, hfin⟩
      · exact h
      · exact absurd hfin hf
  | setKillSwitch on | setHost host suspended | setEvent cleanupId suspended | setAudience c audience =>
    cases he
    exact ⟨rfl, Iff.rfl⟩

def Config.sample : Config := ⟨1000⟩

/-- Broadcast 1 is being sent to member 5 by email. -/
def sampleBroadcast : Broadcast where
  id := 1
  cleanupId := 7
  createdBy := none
  kind := .hostBroadcast
  status := .sending
  subject := some "Bring gloves"
  bodyMd := some "See you at the meeting point."
  ctaUrl := none
  channels := [.email]
  replyTo := none
  scheduledAt := none
  plannedAt := none
  startedAt := some 0
  finishedAt := none
  chunkSize := 200
  chunkCount := 0
  recipientCount := 0
  sentCount := 0
  failedCount := 0
  suppressedCount := 0
  updatedAt := 0

/-- The broadcast is created, and call 0 plans it as far as the given accesses go; after the
fifth the delivery is on file, after the seventh the plan is made. -/
def planning (accesses : ℕ) : List Move :=
  .environment (.create sampleBroadcast) :: .environment (.setEvent 7 (some false)) ::
    .environment (.setAudience 1 ⟨[5], []⟩) :: .start (.plan 1) :: List.replicate accesses (.access 0 0)

/-- Call `i` is a worker on the chunk, up to its claim. -/
def claiming (i : ℕ) : List Move := .start (.runChunk 1 0 0) :: List.replicate 4 (.access i 0)

/-! ## A sent delivery -/

/-- A worker claims only what no running worker holds. -/
def ClaimSound (w : World) : Move → Prop
  | .access i _ => ∀ c ∈ w.call i, ∀ x ∈ c.await.claims w.shared, ∀ o ∈ w.calls, ∀ d ∈ o, x ∉ d.await.holds
  | _ => True

instance (w : World) : DecidablePred (ClaimSound w)
  | .access .. => inferInstanceAs (Decidable (∀ c ∈ _, ∀ x ∈ _, ∀ o ∈ _, ∀ d ∈ o, _))
  | .start .. | .crash .. | .environment .. => inferInstanceAs (Decidable True)

/-- Every delivery has one holder at most, and is not sent while it is held. -/
structure Holding (w : World) : Prop where
  unique : ∀ i j c d x, w.call i = some c → w.call j = some d → x ∈ c.await.holds → x ∈ d.await.holds → i = j
  unsent : ∀ i c x, w.call i = some c → x ∈ c.await.holds → ¬ w.shared.Sent x

theorem applies_holds {p : Await} (hk : k ∈ p.applies.map (·.id)) : k ∈ p.holds := by
  cases p with
  | applyOutcomes b outcomes ending authRetry => exact hk
  | _ => cases hk

/-- Where the deliveries that a call holds after a move come from. -/
theorem holds_cases (hs : cfg.machine.step w m = some (w', r)) {i : ℕ} {c : Call Request Await}
    (hc : w'.call i = some c) (hk : k ∈ c.await.holds) :
    (∃ d, w.call i = some d ∧ k ∈ d.await.holds) ∨
      ∃ j d, m = .access i j ∧ w.call i = some d ∧ k ∈ d.await.claims w.shared := by
  rcases Machine.call_cases hs hc with ⟨o, p, -, -, rfl, he⟩ | ⟨j, d, p, hm, hd, rfl, hmem⟩ | ⟨hc, -⟩
  · simp only [Config.machine, Option.some.injEq, Prod.mk.injEq] at he
    simp only [← he.2, (Config.enter_idle o).1] at hk
    cases hk
  · rcases Config.holds_of_access hmem hk with hk | hk
    · exact .inl ⟨d, hd, hk⟩
    · exact .inr ⟨j, d, hm, hd, hk⟩
  · exact .inl ⟨c, hc, hk⟩

theorem Holding.step (hw : Holding w) (hok : ClaimSound w m) (hs : cfg.machine.step w m = some (w', r)) :
    Holding w' := by
  constructor
  · intro i j c d x hc hd hx hx'
    rcases holds_cases hs hc hx with ⟨c₀, hc₀, hx⟩ | ⟨l, c₀, hm, hc₀, hx⟩ <;>
      rcases holds_cases hs hd hx' with ⟨d₀, hd₀, hx'⟩ | ⟨l', d₀, hm', hd₀, hx'⟩
    · exact hw.unique i j c₀ d₀ x hc₀ hd₀ hx hx'
    · subst hm'
      exact absurd hx (hok d₀ hd₀ x hx' _ (World.mem_calls hc₀) c₀ rfl)
    · subst hm
      exact absurd hx' (hok c₀ hc₀ x hx _ (World.mem_calls hd₀) d₀ rfl)
    · rw [hm] at hm'
      cases hm'
      rfl
  · intro i c x hc hx hsent
    -- The delivery was not sent before: its holder was the same call, or it was open to a claim.
    have hunsent : ¬ w.shared.Sent x := by
      rcases holds_cases hs hc hx with ⟨c₀, hc₀, hx₀⟩ | ⟨l, c₀, -, hc₀, hx₀⟩
      · exact hw.unsent i c₀ x hc₀ hx₀
      · rintro ⟨d, hd, hst⟩
        have hopen := Config.isOpen_of_claims hd hx₀
        rw [hst] at hopen
        cases hopen
    rcases store_cases hs with heq | ⟨j, l, e, n, rfl, he, hn, heffect⟩ | ⟨e, -, he, -⟩
    · exact hunsent (heq ▸ hsent)
    · rcases heffect.of_sent hsent with hsent | happ
      · exact hunsent hsent
      · -- The writer of the outcome held the delivery, so it is this call; and it holds nothing any more.
        have hhold := applies_holds happ
        rcases Machine.call_cases hs hc with ⟨_, _, hm, -⟩ | ⟨_, d, p, hm, hd, rfl, hmem⟩ | ⟨hc₀, hne⟩
        · cases hm
        · cases hm
          obtain rfl := Option.some.inj (he.symm.trans hd)
          cases hp : e.await with
          | applyOutcomes c outcomes ending authRetry =>
            rw [hp] at hmem
            simp only [Config.machine, Config.access, List.mem_singleton, Prod.mk.injEq, Next.await.injEq] at hmem
            simp only [hmem.2] at hx
            cases hx
          | _ =>
            rw [hp] at happ
            cases happ
        · exact hne l (by rw [hw.unique i j c e x hc₀ he hx hhold])
    · obtain ⟨d, hd, hst⟩ := hsent
      rw [(environment_cases (b := 0) he).1] at hd
      exact hunsent ⟨d, hd, hst⟩

theorem holding_of_run (hr : Machine.Run cfg.machine ClaimSound (.initial .empty) w) : Holding w :=
  hr.invariant ⟨fun _ _ _ _ _ hc => (nomatch hc), fun _ _ _ hc => (nomatch hc)⟩ (fun hv hok hs => hv.step hok hs)

/-- No step of a run takes a delivery out of `sent` when no two running workers hold the
same delivery. -/
theorem sent_stays_sent (hrun : Machine.Run cfg.machine ClaimSound (.initial .empty) w)
    (hstep : cfg.machine.step w m = some (w', r)) {d : Delivery} (hd : w.shared.deliveries.find? k = some d)
    (hsent : d.status = .sent) : ∃ d', w'.shared.deliveries.find? k = some d' ∧ d'.status = .sent := by
  have hw := holding_of_run hrun
  rcases store_cases hstep with heq | ⟨i, j, c, n, rfl, hc, hn, heffect⟩ | ⟨e, -, he, -⟩
  · exact ⟨d, heq ▸ hd, hsent⟩
  · rcases heffect.sent ⟨d, hd, hsent⟩ with h | happ
    · exact h
    · exact absurd ⟨d, hd, hsent⟩ (hw.unsent i c k hc (applies_holds happ))
  · exact ⟨d, (environment_cases (b := 0) he).1 ▸ hd, hsent⟩

/-- The worker sends, and a cancellation comes up to its suppression. -/
def sentThenCancel : List Move :=
  List.flatten [planning 7, claiming 1, [.access 1 0, .access 1 0, .start (.cancel 7 1), .access 2 0, .access 2 0]]

/-- A cancellation comes after the worker and spares what it sent. -/
theorem sent_stays_sent_sample :
    ∃ (w w' : World) (r : Option Result) (d : Delivery),
      Machine.Run Config.sample.machine ClaimSound (.initial .empty) w ∧
      Config.sample.machine.step w (.access 2 0) = some (w', r) ∧ w.shared.deliveries.find? 1 = some d ∧
      d.status = .sent ∧ ∃ d', w'.shared.deliveries.find? 1 = some d' ∧ d'.status = .sent := by
  have hrun : Machine.Allowed Config.sample.machine ClaimSound (.initial .empty) sentThenCancel ∧
      ∃ w ∈ Config.sample.machine.perform (.initial .empty) sentThenCancel,
      (Config.sample.machine.step w (.access 2 0)).isSome ∧
      ∃ d ∈ w.shared.deliveries.find? 1, d.status = .sent := by
    decide +kernel
  obtain ⟨hok, w, hw, hsome, d, hd, hsent⟩ := hrun
  obtain ⟨⟨w', r⟩, hs⟩ := Option.isSome_iff_exists.mp hsome
  have hreach := Machine.run_of_perform hok hw
  exact ⟨w, w', r, d, hreach, hs, hd, hsent, sent_stays_sent hreach hs hd hsent⟩

/-- Worker 1 loses its claim to worker 2, which sends, and then fails to send itself. -/
def lateFailure : List Move :=
  List.flatten [planning 7, claiming 1, [.environment (.tick 600001)], claiming 2,
    [.access 2 0, .access 2 0, .access 1 7]]

/-- A worker that hangs for ten minutes loses its claim to another, which sends the mail; then
the first one writes down its own transient failure. -/
theorem not_sent_stays_sent :
    ¬ ∀ (cfg : Config) (w w' : World) (m : Move) (r : Option Result) (k : DeliveryId) (d : Delivery),
      Machine.Run cfg.machine (fun _ _ => True) (.initial .empty) w → cfg.machine.step w m = some (w', r) →
      w.shared.deliveries.find? k = some d → d.status = .sent →
      ∃ d', w'.shared.deliveries.find? k = some d' ∧ d'.status = .sent := by
  intro hclaim
  have hrun : ∃ w ∈ Config.sample.machine.perform (.initial .empty) lateFailure,
      ∃ d ∈ w.shared.deliveries.find? 1, d.status = .sent ∧
      ∃ x ∈ Config.sample.machine.step w (.access 1 0),
        ∃ d' ∈ x.1.shared.deliveries.find? 1, d'.status = .pending := by
    decide +kernel
  obtain ⟨w, hw, d, hd, hsent, ⟨w', r⟩, hs, d', hd', hpending⟩ := hrun
  obtain ⟨d'', hd'', hsent'⟩ := hclaim _ w w' _ r 1 d (Machine.free_of_perform hw) hs hd hsent
  obtain rfl := Option.some.inj (hd'.symm.trans hd'')
  rw [hpending] at hsent'
  cases hsent'

/-! ## A finished broadcast -/

/-- Deliveries may be added to the broadcast: it is not finished and no call is past its look
at the deliveries and about to finish it, or a call that finished it has yet to sweep up. -/
def Addable (w : World) (b : BroadcastId) : Prop :=
  (¬ w.shared.Finished b ∧ ∀ o ∈ w.calls, ∀ c ∈ o, c.await.clears ≠ some b) ∨
    (w.shared.Finished b ∧ ∃ o ∈ w.calls, ∃ c ∈ o, c.await.sweepsUp = some b)

instance (w : World) (b : BroadcastId) : Decidable (Addable w b) := inferInstanceAs (Decidable (_ ∨ _))

/-- New rows and pending outcomes for closed rows come only where deliveries may be added, a
plan finds its audience empty or too large only when nothing is open, and a call that has
finished a broadcast does not die before it swept up. -/
def FinishSound (w : World) : Move → Prop
  | .access i _ => ∀ c ∈ w.call i,
      (∀ row ∈ c.await.inserts, w.shared.conflicts row = false → Addable w row.broadcastId) ∧
      (∀ o ∈ c.await.applies, o.status.isOpen → ∀ d ∈ w.shared.deliveries.find? o.id, d.status.isOpen = false →
        Addable w d.broadcastId) ∧
      ∀ b ∈ c.await.finishesBlind, w.shared.mayMove b [.sending] → w.shared.countWhere b (·.isOpen) = 0
  | .crash i => ∀ c ∈ w.call i, c.await.sweepsUp = none
  | _ => True

instance (w : World) : DecidablePred (FinishSound w)
  | .access .. => inferInstanceAs (Decidable (∀ c ∈ _, _))
  | .crash .. => inferInstanceAs (Decidable (∀ c ∈ _, _))
  | .start .. | .environment .. => inferInstanceAs (Decidable True)

structure Tidy (w : World) : Prop where
  swept : ∀ b k, w.shared.Finished b → w.shared.Open b k → ∃ i c, w.call i = some c ∧ c.await.sweepsUp = some b
  cleared : ∀ i c b k, w.call i = some c → c.await.clears = some b → w.shared.Finished b ∨ ¬ w.shared.Open b k

theorem call_of_mem {o : Option (Call Request Await)} {c : Call Request Await} (ho : o ∈ w.calls) (hc : c ∈ o) :
    ∃ i, w.call i = some c := by
  obtain ⟨i, hi⟩ := List.getElem?_of_mem ho
  exact ⟨i, World.call_eq_some.mpr (by rw [hi, Option.mem_def.mp hc])⟩

theorem FinishSound.addable {i j : ℕ} {c : Call Request Await} (hok : FinishSound w (.access i j))
    (hc : w.call i = some c) (he : Config.Effect w.shared c.await w'.shared) (ho : w'.shared.Open b k)
    (hclosed : ¬ w.shared.Open b k) : Addable w b := by
  obtain ⟨hinsert, happly, -⟩ := hok c hc
  rcases he.open_cases ho with hopen | ⟨row, hrow, hconf, rfl⟩ | ⟨o, hmem, hst, d, hd, hdst, rfl⟩
  · exact absurd hopen hclosed
  · exact hinsert row hrow hconf
  · exact happly o hmem hst d hd hdst

/-- A call other than the moving one stays where it is. -/
theorem call_of_ne {i j l : ℕ} {d : Call Request Await} (hs : cfg.machine.step w (.access i l) = some (w', r))
    (hj : j ≠ i) (hd : w.call j = some d) : w'.call j = some d := by
  rcases Machine.step_cases hs with ⟨_, _, _, hm, -⟩ | ⟨_, _, c, s, p, hm, hc, hmem, rfl, -⟩ |
    ⟨_, _, c, s, a, hm, hc, hmem, rfl, -⟩ | ⟨_, hm, -⟩ | ⟨_, _, hm, -⟩
  · cases hm
  · cases hm
    rwa [World.call_put_of_ne s hj]
  · cases hm
    rwa [World.call_put_of_ne s hj]
  · cases hm
  · cases hm

/-- An access with a next await leaves the call there. -/
theorem call_of_access {i l : ℕ} {c : Call Request Await} (hs : cfg.machine.step w (.access i l) = some (w', r))
    (hc : w.call i = some c) :
    ∃ n, (w'.shared, n) ∈ cfg.access w.shared c.await ∧ ∀ q, n = .await q → w'.call i = some ⟨c.origin, q⟩ := by
  rcases Machine.step_cases hs with ⟨_, _, _, hm, -⟩ | ⟨_, _, d, s, p, hm, hd, hmem, rfl, -⟩ |
    ⟨_, _, d, s, a, hm, hd, hmem, rfl, -⟩ | ⟨_, hm, -⟩ | ⟨_, _, hm, -⟩
  · cases hm
  · cases hm
    obtain rfl := Option.some.inj (hc.symm.trans hd)
    refine ⟨_, hmem, fun q hq => ?_⟩
    cases hq
    exact World.call_put_self s hc _
  · cases hm
    obtain rfl := Option.some.inj (hc.symm.trans hd)
    exact ⟨_, hmem, fun q hq => by cases hq⟩
  · cases hm
  · cases hm

theorem Tidy.swept_access {i j : ℕ} (hw : Tidy w) (hok : FinishSound w (.access i j))
    (hs : cfg.machine.step w (.access i j) = some (w', r)) (hf : w'.shared.Finished b) (ho : w'.shared.Open b k) :
    ∃ l c, w'.call l = some c ∧ c.await.sweepsUp = some b := by
  obtain ⟨_, _, c, _, hm, hc, -⟩ : ∃ i' j' c n, Move.access i j = .access i' j' ∧ w.call i' = some c ∧
      (w'.shared, n) ∈ cfg.access w.shared c.await := by
    rcases Machine.shared_cases hs with ⟨_, _, hm, -⟩ | h | ⟨_, hm, -⟩ | ⟨_, hm, -⟩
    · cases hm
    · exact h
    · cases hm
    · cases hm
  cases hm
  obtain ⟨n, hn, hnext⟩ := call_of_access hs hc
  have he := Config.effect_of_access hn
  rcases he.finished_cases hf with hfin | ⟨prior, status, hp, hmay, hstatus⟩
  · -- The broadcast was finished before; somebody has yet to sweep up, and it is not this call.
    obtain ⟨l, d, hd, hsweep⟩ : ∃ l d, w.call l = some d ∧ d.await.sweepsUp = some b := by
      by_cases hopen : w.shared.Open b k
      · exact hw.swept b k hfin hopen
      · rcases hok.addable hc he ho hopen with ⟨hnot, -⟩ | ⟨-, o, hmem, d, hd, hsweep⟩
        · exact absurd hfin hnot
        · obtain ⟨l, hl⟩ := call_of_mem hmem hd
          exact ⟨l, d, hl, hsweep⟩
    refine ⟨l, d, call_of_ne hs (fun hl => ?_) hd, hsweep⟩
    subst hl
    obtain rfl := Option.some.inj (hc.symm.trans hd)
    exact Config.not_open_of_suppresses hn (Config.suppresses_of_sweepsUp hsweep) ho
  · -- This call finishes it.
    have hopen : w.shared.Open b k := by
      obtain ⟨hinsert, happly⟩ := Await.adds_nothing_of_moves hp
      rcases he.open_cases ho with hopen | ⟨row, hrow, -⟩ | ⟨o, ho, -⟩
      · exact hopen
      · rw [hinsert] at hrow
        cases hrow
      · rw [happly] at ho
        cases ho
    have hnot : ¬ w.shared.Finished b := by
      intro hfin
      rw [hfin.not_mayMove (Await.prior_of_moves hp)] at hmay
      cases hmay
    rcases Config.finish_cases hn hp hmay hstatus with hclear | hblind | ⟨q, hq, hsweep⟩
    · rcases hw.cleared i c b k hc hclear with hfin | hclosed
      · exact absurd hfin hnot
      · exact absurd hopen hclosed
    · rw [Await.prior_of_finishesBlind hblind hp] at hmay
      exact absurd hopen (Store.open_of_countWhere ((hok c hc).2.2 b hblind hmay))
    · exact ⟨i, _, hnext q hq, hsweep⟩

theorem Tidy.step (hw : Tidy w) (hok : FinishSound w m) (hs : cfg.machine.step w m = some (w', r)) : Tidy w' := by
  constructor
  · intro b k hf ho
    rcases Machine.step_cases hs with ⟨o, s, p, rfl, he, rfl, -⟩ | ⟨i, j, c, s, p, rfl, -⟩ | ⟨i, j, c, s, a, rfl, -⟩ |
      ⟨i, rfl, rfl, -⟩ | ⟨e, s, rfl, he, rfl, -⟩
    · simp only [Config.machine, Option.some.injEq, Prod.mk.injEq] at he
      obtain ⟨rfl, rfl⟩ := he
      obtain ⟨i, c, hc, hsweep⟩ := hw.swept b k hf ho
      refine ⟨i, c, ?_, hsweep⟩
      rwa [World.call_push, if_neg (Nat.ne_of_lt (World.lt_of_call hc))]
    · exact hw.swept_access hok hs hf ho
    · exact hw.swept_access hok hs hf ho
    · obtain ⟨l, c, hc, hsweep⟩ := hw.swept b k hf ho
      refine ⟨l, c, ?_, hsweep⟩
      rw [World.call_put_of_ne _ (fun hl => ?_)]
      · exact hc
      · subst hl
        cases (hok c hc).symm.trans hsweep
    · obtain ⟨hdel, hfin⟩ := environment_cases (b := b) he
      obtain ⟨d, hd, hdb, hdo⟩ := ho
      exact hw.swept b k (hfin.mp hf) ⟨d, hdel ▸ hd, hdb, hdo⟩
  · intro i c b k hc hb
    rcases Machine.call_cases hs hc with ⟨o, p, -, -, rfl, he⟩ | ⟨j, d, p, rfl, hd, rfl, hmem⟩ | ⟨hc₀, -⟩
    · simp only [Config.machine, Option.some.injEq, Prod.mk.injEq] at he
      simp only [← he.2, (Config.enter_idle o).2] at hb
      cases hb
    · rcases Config.clears_of_access hmem hb with hsup | ⟨heq, hcount⟩
      · exact .inr (Config.not_open_of_suppresses hmem hsup)
      · refine .inr ?_
        rw [heq]
        exact Store.open_of_countWhere hcount
    · rcases store_cases hs with heq | ⟨j, l, d, n, rfl, hd, hn, he⟩ | ⟨e, -, he, -⟩
      · rw [heq]
        exact hw.cleared i c b k hc₀ hb
      · rcases hw.cleared i c b k hc₀ hb with hfin | hclosed
        · exact .inl (he.finished hfin)
        · by_cases ho : w'.shared.Open b k
          · rcases hok.addable hd he ho hclosed with ⟨-, hnone⟩ | ⟨hfin, -⟩
            · exact absurd hb (hnone _ (World.mem_calls hc₀) c rfl)
            · exact .inl (he.finished hfin)
          · exact .inr ho
      · obtain ⟨hdel, hfin⟩ := environment_cases (b := b) he
        rcases hw.cleared i c b k hc₀ hb with h | h
        · exact .inl (hfin.mpr h)
        · refine .inr ?_
          rintro ⟨d, hd, hdb, hdo⟩
          exact h ⟨d, hdel ▸ hd, hdb, hdo⟩

/-- When no call is in progress any more, a finished broadcast has no open delivery. -/
theorem quiescent_of_finished (hrun : Machine.Run cfg.machine FinishSound (.initial .empty) w)
    (hsettled : ∀ i, w.call i = none) {record : Broadcast} (hb : w.shared.findById b = some record)
    (hfinished : record.status.finished) {d : Delivery} (hd : w.shared.deliveries.find? k = some d)
    (hdb : d.broadcastId = b) : d.status ≠ .pending ∧ d.status ≠ .inFlight := by
  have hw : Tidy w := hrun.invariant
    ⟨fun _ _ ⟨_, hr, _⟩ => (nomatch hr), fun _ _ _ _ hc => (nomatch hc)⟩ (fun hv hok hs => hv.step hok hs)
  have hclosed : ¬ d.status.isOpen := by
    intro hopen
    obtain ⟨i, c, hc, -⟩ := hw.swept b k ⟨record, hb, hfinished⟩ ⟨d, hd, hdb, hopen⟩
    cases (hsettled i).symm.trans hc
  refine ⟨?_, ?_⟩ <;> intro hst <;> exact hclosed (by rw [hst]; rfl)

theorem settled_of_calls {n : ℕ} (h : w.calls = List.replicate n none) (i : ℕ) : w.call i = none := by
  unfold World.call
  rw [h, List.getElem?_replicate]
  split <;> rfl

def cancelBeforeChunk : List Move :=
  List.append (planning 7) [.start (.cancel 7 1), .access 1 0, .access 1 0, .access 1 0, .access 1 0,
    .start (.runChunk 1 0 0), .access 2 0]

/-- A cancellation between the plan and the worker. -/
theorem quiescent_of_finished_sample :
    ∃ (w : World) (record : Broadcast) (d : Delivery),
      Machine.Run Config.sample.machine FinishSound (.initial .empty) w ∧ (∀ i, w.call i = none) ∧
      w.shared.findById 1 = some record ∧ record.status.finished ∧ w.shared.deliveries.find? 1 = some d ∧
      d.broadcastId = 1 ∧ d.status ≠ .pending ∧ d.status ≠ .inFlight := by
  have hrun : Machine.Allowed Config.sample.machine FinishSound (.initial .empty) cancelBeforeChunk ∧
      ∃ w ∈ Config.sample.machine.perform (.initial .empty) cancelBeforeChunk,
      w.calls = List.replicate 3 none ∧ ∃ record ∈ w.shared.findById 1, record.status.finished ∧
      ∃ d ∈ w.shared.deliveries.find? 1, d.broadcastId = 1 := by
    decide +kernel
  obtain ⟨hok, w, hw, hcalls, record, hb, hfin, d, hd, hdb⟩ := hrun
  have hsettled := settled_of_calls hcalls
  have hreach := Machine.run_of_perform hok hw
  exact ⟨w, record, d, hreach, hsettled, hb, hfin, hd, hdb,
    quiescent_of_finished hreach hsettled hb hfin hd hdb⟩

def cancelDuringPlan : List Move :=
  List.append (planning 4) [.start (.cancel 7 1), .access 1 0, .access 1 0, .access 1 0, .access 1 0, .access 0 0,
    .access 0 0, .access 0 0, .start (.runChunk 1 0 0), .access 2 0]

/-- A plan that read its audience before the cancellation inserts its rows after it. -/
theorem not_quiescent_of_finished :
    ¬ ∀ (cfg : Config) (w : World) (b : BroadcastId) (k : DeliveryId) (record : Broadcast) (d : Delivery),
      Machine.Run cfg.machine (fun _ _ => True) (.initial .empty) w → (∀ i, w.call i = none) →
      w.shared.findById b = some record → record.status.finished → w.shared.deliveries.find? k = some d →
      d.broadcastId = b → d.status ≠ .pending ∧ d.status ≠ .inFlight := by
  intro hclaim
  have hrun : ∃ w ∈ Config.sample.machine.perform (.initial .empty) cancelDuringPlan,
      w.calls = List.replicate 3 none ∧ ∃ record ∈ w.shared.findById 1, record.status.finished ∧
      ∃ d ∈ w.shared.deliveries.find? 1, d.broadcastId = 1 ∧ d.status = .pending := by
    decide +kernel
  obtain ⟨w, hw, hcalls, record, hb, hfin, d, hd, hdb, hpending⟩ := hrun
  exact (hclaim _ w 1 1 record d (Machine.free_of_perform hw) (settled_of_calls hcalls) hb hfin hd hdb).1 hpending

end Civfix.Broadcasts
