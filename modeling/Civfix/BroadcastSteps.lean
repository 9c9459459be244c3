import Civfix.BroadcastPipeline

/-! # What one access of a pipeline call can do

An access makes at most one statement. `Effect` lists the statements with the await that
makes each, and the lemmas about it say how a row of either table can have changed. -/
namespace Civfix.Broadcasts

open KeyedTables InterleavedCalls

namespace Store

variable {s : Store} {k : DeliveryId} {d : Delivery} {b : BroadcastId}

theorem find?_updateDeliveries (p : Delivery → Bool) (f : Delivery → Delivery) (hf : ∀ d, (f d).id = d.id) :
    (s.updateDeliveries p f hf).deliveries.find? k = (s.deliveries.find? k).map (fun d => if p d then f d else d) :=
  Table.find?_update s.deliveries p f hf k

theorem findById_modifyBroadcast {c : BroadcastId} (f : Broadcast → Broadcast) (hf : ∀ r, (f r).id = r.id) :
    (s.modifyBroadcast c f hf).findById b = if b = c then (s.findById b).map f else s.findById b :=
  Table.find?_modify s.broadcasts c b f hf

theorem conflicts_mono {s' : Store} (h : ∀ d ∈ s.deliveries.rows, d ∈ s'.deliveries.rows) {row : DeliveryRowInput}
    (hc : s.conflicts row) : s'.conflicts row := by
  simp only [conflicts, Bool.and_eq_true, List.any_eq_true] at hc ⊢
  obtain ⟨hid, d, hd, heq⟩ := hc
  exact ⟨hid, d, h d hd, heq⟩

theorem find?_insertDelivery_of_some (row : DeliveryRowInput) (hd : s.deliveries.find? k = some d) :
    (s.insertDelivery row).deliveries.find? k = some d := by
  unfold insertDelivery
  split
  · exact hd
  · rw [Table.find?_insert]
    split
    · simp [hd]
    · exact hd

theorem insertDelivery_cases {row : DeliveryRowInput} (hd : (s.insertDelivery row).deliveries.find? k = some d) :
    s.deliveries.find? k = some d ∨
      (s.conflicts row = false ∧ d.status = .pending ∧ d.broadcastId = row.broadcastId) := by
  unfold insertDelivery at hd
  split at hd
  · exact .inl hd
  · next hc =>
    rw [Table.find?_insert] at hd
    split at hd
    · cases hfind : s.deliveries.find? k with
      | some d₀ =>
        rw [hfind] at hd
        exact .inl hd
      | none =>
        simp only [hfind, Option.getD_none, Option.some.injEq] at hd
        subst hd
        exact .inr ⟨by simpa using hc, rfl, rfl⟩
    · exact .inl hd

theorem find?_insertDeliveries_of_some (rows : List DeliveryRowInput) (hd : s.deliveries.find? k = some d) :
    (s.insertDeliveries rows).deliveries.find? k = some d := by
  induction rows generalizing s with
  | nil => exact hd
  | cons row rows ih => exact ih (find?_insertDelivery_of_some row hd)

/-- A row after the insertion was there before, or is one of the new rows, which conflicts with nothing. -/
theorem insertDeliveries_cases {rows : List DeliveryRowInput}
    (hd : (s.insertDeliveries rows).deliveries.find? k = some d) :
    s.deliveries.find? k = some d ∨
      ∃ row ∈ rows, s.conflicts row = false ∧ d.status = .pending ∧ d.broadcastId = row.broadcastId := by
  induction rows generalizing s with
  | nil => exact .inl hd
  | cons row rows ih =>
    rcases ih hd with hd | ⟨row', hmem, hc, hst, hb⟩
    · rcases insertDelivery_cases hd with hd | hnew
      · exact .inl hd
      · exact .inr ⟨row, List.mem_cons_self, hnew⟩
    · refine .inr ⟨row', List.mem_cons_of_mem _ hmem, ?_, hst, hb⟩
      -- A conflict with an old row would still be one after the insertion of `row`.
      cases hc' : s.conflicts row' with
      | false => rfl
      | true =>
        have hrows : ∀ x ∈ s.deliveries.rows, x ∈ (s.insertDelivery row).deliveries.rows := fun x hx =>
          Table.mem_rows_iff.mpr (find?_insertDelivery_of_some row (Table.mem_rows_iff.mp hx))
        rw [conflicts_mono hrows hc'] at hc
        cases hc

/-- The open deliveries of a broadcast. -/
def Open (s : Store) (b : BroadcastId) (k : DeliveryId) : Prop :=
  ∃ d, s.deliveries.find? k = some d ∧ d.broadcastId = b ∧ d.status.isOpen

/-- The broadcast is finished. -/
def Finished (s : Store) (b : BroadcastId) : Prop := ∃ r, s.findById b = some r ∧ r.status.finished

instance (s : Store) (b : BroadcastId) : Decidable (s.Finished b) :=
  decidable_of_iff (∃ r ∈ s.findById b, r.status.finished) (by simp [Finished, Option.mem_def])

/-- A statement that opens no delivery. -/
theorem Open.of_updateDeliveries {p : Delivery → Bool} {f : Delivery → Delivery} {hf : ∀ d, (f d).id = d.id}
    (h : (s.updateDeliveries p f hf).Open b k) (hb : ∀ d, (f d).broadcastId = d.broadcastId)
    (ho : ∀ d, s.deliveries.find? k = some d → p d → (f d).status.isOpen → d.status.isOpen) : s.Open b k := by
  obtain ⟨d, hd, hdb, hdo⟩ := h
  rw [find?_updateDeliveries, Option.map_eq_some_iff] at hd
  obtain ⟨d₀, hd₀, rfl⟩ := hd
  split at hdb <;> rename_i hp
  · rw [if_pos hp] at hdo
    exact ⟨d₀, hd₀, hb d₀ ▸ hdb, ho d₀ hd₀ hp hdo⟩
  · rw [if_neg hp] at hdo
    exact ⟨d₀, hd₀, hdb, hdo⟩

/-- The delivery is on file as sent. -/
def Sent (s : Store) (k : DeliveryId) : Prop := ∃ d, s.deliveries.find? k = some d ∧ d.status = .sent

theorem Sent.updateDeliveries {p : Delivery → Bool} {f : Delivery → Delivery} {hf : ∀ d, (f d).id = d.id}
    (h : s.Sent k) (hp : ∀ d, s.deliveries.find? k = some d → d.status = .sent → p d = false) :
    (s.updateDeliveries p f hf).Sent k := by
  obtain ⟨d, hd, hst⟩ := h
  refine ⟨d, ?_, hst⟩
  simp [find?_updateDeliveries, hd, hp d hd hst]

theorem Sent.of_updateDeliveries {p : Delivery → Bool} {f : Delivery → Delivery} {hf : ∀ d, (f d).id = d.id}
    (h : (s.updateDeliveries p f hf).Sent k) (hp : ∀ d, p d → (f d).status ≠ .sent) : s.Sent k := by
  obtain ⟨d, hd, hst⟩ := h
  rw [find?_updateDeliveries, Option.map_eq_some_iff] at hd
  obtain ⟨d₀, hd₀, rfl⟩ := hd
  split at hst
  · next hpd => exact absurd hst (hp d₀ hpd)
  · exact ⟨d₀, hd₀, hst⟩

theorem isOpen_of_claimable {chunkNo limit : ℕ} {staleBefore : Instant} (hd : s.deliveries.find? k = some d)
    (hk : k ∈ (s.claimable b chunkNo staleBefore limit).map (·.id)) : d.status.isOpen := by
  obtain ⟨d', hmem, hid⟩ := List.mem_map.mp hk
  have hrow := List.mem_of_mem_take hmem
  simp only [List.mem_insertionSort, List.mem_filter, Bool.and_eq_true, Bool.or_eq_true, decide_eq_true_eq] at hrow
  obtain ⟨hrow, -, hst⟩ := hrow
  rw [Table.mem_rows_iff, hid, hd] at hrow
  obtain rfl := Option.some.inj hrow
  rcases hst with hst | ⟨hst, -⟩ <;> rw [hst] <;> rfl

theorem not_open_suppressRemaining (reason : SuppressionReason) : ¬ (s.suppressRemaining b reason).Open b k := by
  rintro ⟨d, hd, hb, ho⟩
  rw [suppressRemaining, find?_updateDeliveries, Option.map_eq_some_iff] at hd
  obtain ⟨d₀, -, rfl⟩ := hd
  split at ho
  · cases ho
  · next hc =>
    rw [if_neg hc] at hb
    simp [hb, ho] at hc

theorem open_of_countWhere (h : s.countWhere b (·.isOpen) = 0) : ¬ s.Open b k := by
  rintro ⟨d, hd, hb, ho⟩
  simp only [countWhere, List.countP_eq_zero, ofBroadcast, List.mem_filter, decide_eq_true_eq] at h
  exact h d ⟨(Table.find?_eq_some hd).1, hb⟩ ho

theorem Finished.modifyBroadcast {c : BroadcastId} {f : Broadcast → Broadcast} {hf : ∀ r, (f r).id = r.id}
    (h : s.Finished b) (hst : ∀ r, (f r).status = r.status) : (s.modifyBroadcast c f hf).Finished b := by
  obtain ⟨r, hr, hfin⟩ := h
  unfold Finished
  rw [findById_modifyBroadcast, hr]
  split
  · exact ⟨f r, rfl, by rw [hst]; exact hfin⟩
  · exact ⟨r, rfl, hfin⟩

theorem Finished.of_modifyBroadcast {c : BroadcastId} {f : Broadcast → Broadcast} {hf : ∀ r, (f r).id = r.id}
    (h : (s.modifyBroadcast c f hf).Finished b) (hst : ∀ r, (f r).status = r.status) : s.Finished b := by
  obtain ⟨r, hr, hfin⟩ := h
  rw [findById_modifyBroadcast] at hr
  split at hr
  · obtain ⟨r₀, hr₀, rfl⟩ := Option.map_eq_some_iff.mp hr
    exact ⟨r₀, hr₀, hst r₀ ▸ hfin⟩
  · exact ⟨r, hr, hfin⟩

theorem finished_insertDeliveries (rows : List DeliveryRowInput) :
    (s.insertDeliveries rows).Finished b ↔ s.Finished b := by
  induction rows generalizing s with
  | nil => exact Iff.rfl
  | cons row rows ih =>
    refine ih.trans ?_
    unfold insertDelivery
    split <;> exact Iff.rfl

theorem mayMove_eq_true {prior : List BroadcastStatus} (h : s.mayMove b prior) :
    ∃ r, s.findById b = some r ∧ r.status ∈ prior := by
  simpa [mayMove, Option.any_eq_true] using h

/-- A transition into a finished status is the only way to finish a broadcast. -/
theorem finished_transition {c : BroadcastId} {prior : List BroadcastStatus} {status : BroadcastStatus}
    {fields : TransitionFields} (h : (s.transition c prior status fields).Finished b) :
    s.Finished b ∨ (b = c ∧ s.mayMove b prior ∧ status.finished) := by
  obtain ⟨r, hr, hf⟩ := h
  unfold transition at hr
  split at hr
  · next hm =>
    rw [findById_modifyBroadcast] at hr
    split at hr
    · next hbc =>
      subst hbc
      obtain ⟨r₀, -, rfl⟩ := Option.map_eq_some_iff.mp hr
      exact .inr ⟨rfl, hm, hf⟩
    · exact .inl ⟨r, hr, hf⟩
  · exact .inl ⟨r, hr, hf⟩

theorem Finished.not_mayMove {prior : List BroadcastStatus} (h : s.Finished b)
    (hp : ∀ t ∈ prior, t.finished = false) : s.mayMove b prior = false := by
  obtain ⟨r, hr, hf⟩ := h
  cases hm : s.mayMove b prior with
  | false => rfl
  | true =>
    obtain ⟨r', hr', hmem⟩ := mayMove_eq_true hm
    obtain rfl := Option.some.inj (hr.symm.trans hr')
    rw [hp _ hmem] at hf
    cases hf

/-- A finished broadcast stays finished. -/
theorem Finished.transition {c : BroadcastId} {prior : List BroadcastStatus} (h : s.Finished b)
    (hp : ∀ t ∈ prior, t.finished = false) (status : BroadcastStatus) (fields : TransitionFields) :
    (s.transition c prior status fields).Finished b := by
  unfold Store.transition
  split
  · next hm =>
    obtain ⟨r, hr, hf⟩ := h
    refine ⟨r, ?_, hf⟩
    rw [findById_modifyBroadcast]
    split
    · next hbc =>
      subst hbc
      rw [Finished.not_mayMove ⟨r, hr, hf⟩ hp] at hm
      cases hm
    · exact hr
  · exact h

end Store

/-! ## Awaits by what they are about to do -/

namespace Await

/-- The deliveries that the call has claimed and has not written an outcome for. -/
def holds : Await → List DeliveryId
  | .runSenders _ claims _ => claims.map (·.id)
  | .applyOutcomes _ outcomes _ _ => outcomes.map (·.id)
  | _ => []

/-- The deliveries that the call is about to claim. -/
def claims (s : Shared) : Await → List DeliveryId
  | .claimChunk record chunkNo _ => (s.claimable record.id chunkNo (s.now - CHUNK_STALE_MS)
      (max 1 record.chunkSize * MAX_CHANNELS_PER_RECIPIENT)).map (·.id)
  | _ => []

def inserts : Await → List DeliveryRowInput
  | .insertBatch _ rows _ => rows.take DELIVERY_INSERT_BATCH
  | _ => []

def applies : Await → List DeliveryOutcome
  | .applyOutcomes _ outcomes _ _ => outcomes
  | _ => []

/-- The broadcast that the call is about to clear of open deliveries. -/
def suppresses : Await → Option BroadcastId
  | .killSuppress b _ | .budgetSuppress b _ | .refuseSuppress b | .orgSuppress b _ | .cancelSuppress b => some b
  | _ => none

/-- The transition that the call is about to make: of which broadcast, from which statuses, into which. -/
def moves : Await → Option (BroadcastId × List BroadcastStatus × BroadcastStatus)
  | .failTooMany b _ | .budgetTransition b _ | .refuseTransition b => some (b, [.sending], .failed)
  | .emptyTransition b => some (b, [.sending], .sent)
  | .finalTransition b allFailed => some (b, [.sending], if allFailed then .failed else .sent)
  | .killTransition b _ | .cancelTransition b => some (b, unfinished, .cancelled)
  | .orgTransition b prior _ _ => some (b, [prior.status], .failed)
  | .releaseTransition b => some (b, [.scheduled], .sending)
  | .deferTransition b => some (b, [.sending], .scheduled)
  | _ => none

/-- The call has suppressed the open deliveries of the broadcast, or found none, and finishes it next. -/
def clears : Await → Option BroadcastId
  | .killTransition b _ | .budgetTransition b _ | .refuseTransition b | .finalTransition b _ => some b
  | _ => none

/-- The call finishes the broadcast without a look at its deliveries. -/
def finishesBlind : Await → Option BroadcastId
  | .failTooMany b _ | .emptyTransition b => some b
  | _ => none

/-- The call has finished the broadcast and suppresses its open deliveries next. -/
def sweepsUp : Await → Option BroadcastId
  | .orgSuppress b _ | .cancelSuppress b => some b
  | _ => none

theorem prior_of_moves {p : Await} {b : BroadcastId} {prior : List BroadcastStatus} {status : BroadcastStatus}
    (hp : p.moves = some (b, prior, status)) : ∀ t ∈ prior, t.finished = false := by
  cases p with
  | orgTransition c prior' refused stayed =>
    simp only [moves, Option.some.injEq, Prod.mk.injEq] at hp
    rw [← hp.2.1]
    cases prior' <;> simp [SuspendableStatus.status, BroadcastStatus.finished]
  | failTooMany c n | budgetTransition c n | refuseTransition c | emptyTransition c | finalTransition c allFailed
  | killTransition c result | cancelTransition c | releaseTransition c | deferTransition c =>
    cases hp
    decide
  | _ => cases hp

theorem adds_nothing_of_moves {p : Await} {x : BroadcastId × List BroadcastStatus × BroadcastStatus}
    (hp : p.moves = some x) : p.inserts = [] ∧ p.applies = [] := by
  cases p <;> first | exact ⟨rfl, rfl⟩ | cases hp

theorem prior_of_finishesBlind {p : Await} {b c : BroadcastId} {prior : List BroadcastStatus} {status : BroadcastStatus}
    (hb : p.finishesBlind = some b) (hp : p.moves = some (c, prior, status)) : prior = [.sending] := by
  cases p <;> cases hb <;> cases hp <;> rfl

end Await

namespace Config

variable {cfg : Config} {s s' : Shared} {p q : Await} {n : Next Await Result} {b : BroadcastId} {k : DeliveryId}

/-- What an access does to the tables. -/
inductive Effect (s : Shared) : Await → Shared → Prop where
  | read (p : Await) : Effect s p s
  | transition (p : Await) (b : BroadcastId) (prior : List BroadcastStatus) (status : BroadcastStatus)
      (fields : TransitionFields) (hp : p.moves = some (b, prior, status)) :
      Effect s p (s.transition b prior status fields)
  | planned (p : Await) (b : BroadcastId) (recipientCount : ℕ) (now : Instant) :
      Effect s p (s.withStore (s.markPlanned b recipientCount now))
  | refresh (p : Await) (b : BroadcastId) : Effect s p (s.withStore (s.refreshCounts b))
  | insert (p : Await) : Effect s p (s.withStore (s.insertDeliveries p.inserts))
  | claim (p : Await) : Effect s p (s.withStore (s.claimRows (p.claims s)))
  | apply (p : Await) : Effect s p (s.withStore (s.applyDeliveryOutcomes p.applies))
  | release (p : Await) (ids : List DeliveryId) : Effect s p (s.withStore (s.releaseClaims ids))
  | exhaust (p : Await) (b : BroadcastId) : Effect s p (s.withStore (s.failExhausted b))
  | suppress (p : Await) (b : BroadcastId) (reason : SuppressionReason) (hp : p.suppresses = some b) :
      Effect s p (s.withStore (s.suppressRemaining b reason))

theorem effect_of_access (hn : (s', n) ∈ cfg.access s p) : Effect s p s' := by
  cases p with
  | planKilled record | chunkKilled record chunkNo authRetry | runSenders b claims authRetry =>
    obtain ⟨_, -, heq⟩ := List.mem_map.mp hn
    cases heq
    exact .read _
  | reserveBudget b recipientCount | reserveSlot b =>
    simp only [access, List.mem_cons, List.not_mem_nil, or_false, Prod.mk.injEq] at hn
    obtain rfl : s' = s := by tauto
    exact .read _
  | insertBatch record rows recipientCount =>
    simp only [access, List.mem_singleton, Prod.mk.injEq] at hn
    rw [hn.1]
    exact .insert _
  | claimChunk record chunkNo authRetry =>
    simp only [access, List.mem_singleton, Prod.mk.injEq] at hn
    rw [hn.1]
    exact .claim (.claimChunk record chunkNo authRetry)
  | applyOutcomes b outcomes ending authRetry =>
    simp only [access, List.mem_singleton, Prod.mk.injEq] at hn
    rw [hn.1]
    exact .apply (.applyOutcomes b outcomes ending authRetry)
  | failTooMany b n | budgetTransition b n | refuseTransition b | emptyTransition b | finalTransition b allFailed
  | killTransition b result | cancelTransition b | orgTransition b prior refused stayed | releaseTransition b
  | deferTransition b =>
    rw [(Prod.mk.inj (List.mem_singleton.mp hn)).1]
    exact .transition _ _ _ _ _ rfl
  | markEmpty b | markPlanned record n =>
    rw [(Prod.mk.inj (List.mem_singleton.mp hn)).1]
    exact .planned _ _ _ _
  | chunkRefresh b ending authRetry | exhaustedRefresh b | refreshCounts b result =>
    rw [(Prod.mk.inj (List.mem_singleton.mp hn)).1]
    exact .refresh _ _
  | killSuppress b result | budgetSuppress b n | refuseSuppress b | orgSuppress b result | cancelSuppress b =>
    rw [(Prod.mk.inj (List.mem_singleton.mp hn)).1]
    exact .suppress _ _ _ rfl
  | releaseClaims ids authRetry =>
    rw [(Prod.mk.inj (List.mem_singleton.mp hn)).1]
    exact .release _ _
  | failExhausted b =>
    rw [(Prod.mk.inj (List.mem_singleton.mp hn)).1]
    exact .exhaust _ _
  | _ =>
    rw [(Prod.mk.inj (List.mem_singleton.mp hn)).1]
    exact .read _

/-- The await a call goes on to, with what it read on the way. -/
inductive Goes (s : Shared) : Await → Await → Prop where
  | planFound {b : BroadcastId} {record : Broadcast} (hr : s.findById b = some record) :
      Goes s (.planFind b) (.planKilled record)
  | planStopped (record : Broadcast) : Goes s (.planKilled record) (.killSuppress record.id (.plan .killed))
  | planOn (record : Broadcast) : Goes s (.planKilled record) (.planOrg record)
  | planOrgStopped (record : Broadcast) :
      Goes s (.planOrg record) (.orgTransition record.id .sending (.plan .orgSuspended) (.plan .skipped))
  | planOrgOn (record : Broadcast) : Goes s (.planOrg record) (.planAudience record)
  | tooMany (record : Broadcast) (n : ℕ) : Goes s (.planAudience record) (.failTooMany record.id n)
  | nobody (record : Broadcast) : Goes s (.planAudience record) (.markEmpty record.id)
  | noRows (record : Broadcast) (n : ℕ) : Goes s (.planAudience record) (.markPlanned record n)
  | firstBatch (record : Broadcast) (n : ℕ) :
      Goes s (.planAudience record) (.insertBatch record (deliveryRowsFor record (s.audience record.id)) n)
  | emptied (b : BroadcastId) : Goes s (.markEmpty b) (.emptyTransition b)
  | lastBatch (record : Broadcast) (rows : List DeliveryRowInput) (n : ℕ) :
      Goes s (.insertBatch record rows n) (.markPlanned record n)
  | nextBatch (record : Broadcast) (rows : List DeliveryRowInput) (n : ℕ) :
      Goes s (.insertBatch record rows n) (.insertBatch record (rows.drop DELIVERY_INSERT_BATCH) n)
  | budgeted (record : Broadcast) (n : ℕ) : Goes s (.markPlanned record n) (.reserveBudget record.id n)
  | unbudgeted (record : Broadcast) (n : ℕ) : Goes s (.markPlanned record n) (.listChunks record.id (some n))
  | reserved (b : BroadcastId) (n : ℕ) : Goes s (.reserveBudget b n) (.listChunks b (some n))
  | overBudget (b : BroadcastId) (n : ℕ) : Goes s (.reserveBudget b n) (.budgetSuppress b n)
  | budgetSuppressed (b : BroadcastId) (n : ℕ) : Goes s (.budgetSuppress b n) (.budgetTransition b n)
  | killSuppressed (b : BroadcastId) (result : Result) : Goes s (.killSuppress b result) (.killTransition b result)
  | killed (b : BroadcastId) (result : Result) : Goes s (.killTransition b result) (.refreshCounts b result)
  | orgMoved (b : BroadcastId) (prior : SuspendableStatus) (refused stayed : Result) :
      Goes s (.orgTransition b prior refused stayed) (.orgSuppress b refused)
  | orgSuppressed (b : BroadcastId) (refused : Result) : Goes s (.orgSuppress b refused) (.refreshCounts b refused)
  | chunkFound {b : BroadcastId} {record : Broadcast} (chunkNo authRetry : ℕ) (hr : s.findById b = some record) :
      Goes s (.chunkFind b chunkNo authRetry) (.chunkKilled record chunkNo authRetry)
  | chunkStopped (record : Broadcast) (chunkNo authRetry : ℕ) :
      Goes s (.chunkKilled record chunkNo authRetry) (.killSuppress record.id .returned)
  | chunkOn (record : Broadcast) (chunkNo authRetry : ℕ) :
      Goes s (.chunkKilled record chunkNo authRetry) (.chunkEvent record chunkNo authRetry)
  | chunkOrgStopped (record : Broadcast) (chunkNo authRetry : ℕ) :
      Goes s (.chunkEvent record chunkNo authRetry) (.orgTransition record.id .sending .returned .returned)
  | chunkOrgOn (record : Broadcast) (chunkNo authRetry : ℕ) :
      Goes s (.chunkEvent record chunkNo authRetry) (.claimChunk record chunkNo authRetry)
  | nothingClaimed (record : Broadcast) (chunkNo authRetry : ℕ) :
      Goes s (.claimChunk record chunkNo authRetry) (.failExhausted record.id)
  | claimed (record : Broadcast) (chunkNo authRetry : ℕ) :
      Goes s (.claimChunk record chunkNo authRetry)
        (.runSenders record.id ((s.claimable record.id chunkNo (s.now - CHUNK_STALE_MS)
          (max 1 record.chunkSize * MAX_CHANNELS_PER_RECIPIENT)).map Store.claimOf) authRetry)
  | sent (b : BroadcastId) (claims : List DeliveryClaim) (authRetry : ℕ) (as : List Answer) :
      Goes s (.runSenders b claims authRetry)
        (.applyOutcomes b (chunkOutcomes s.now claims as) (chunkEnding claims as) authRetry)
  | applied (b : BroadcastId) (outcomes : List DeliveryOutcome) (ending : Ending) (authRetry : ℕ) :
      Goes s (.applyOutcomes b outcomes ending authRetry) (.chunkRefresh b ending authRetry)
  | chunkDone (b : BroadcastId) (authRetry : ℕ) : Goes s (.chunkRefresh b .finished authRetry) (.failExhausted b)
  | chunkAborted (b : BroadcastId) (ids : List DeliveryId) (authRetry : ℕ) :
      Goes s (.chunkRefresh b (.aborted ids) authRetry) (.releaseClaims ids authRetry)
  | exhausted (b : BroadcastId) : Goes s (.failExhausted b) (.exhaustedRefresh b)
  | notExhausted (b : BroadcastId) : Goes s (.failExhausted b) (.finalCounts b)
  | exhaustedRefreshed (b : BroadcastId) : Goes s (.exhaustedRefresh b) (.finalCounts b)
  | counted {b : BroadcastId} (allFailed : Bool) (hc : (s.deliveryCounts b).pending = 0) :
      Goes s (.finalCounts b) (.finalTransition b allFailed)
  | finalized (b : BroadcastId) (allFailed : Bool) : Goes s (.finalTransition b allFailed) (.refreshCounts b .returned)
  | releaseFound (b : BroadcastId) (record : Broadcast) : Goes s (.releaseFind b) (.releaseOrg record)
  | releaseStopped (record : Broadcast) :
      Goes s (.releaseOrg record) (.orgTransition record.id .scheduled .returned .returned)
  | releaseOn (record : Broadcast) : Goes s (.releaseOrg record) (.releaseTransition record.id)
  | releaseHost (b : BroadcastId) : Goes s (.releaseTransition b) (.reserveSlot b)
  | releasePlan (b : BroadcastId) : Goes s (.releaseTransition b) (.planFind b)
  | slotReserved (b : BroadcastId) : Goes s (.reserveSlot b) (.planFind b)
  | slotDeferred (b : BroadcastId) : Goes s (.reserveSlot b) (.deferTransition b)
  | slotRefused (b : BroadcastId) : Goes s (.reserveSlot b) (.refuseSuppress b)
  | refuseSuppressed (b : BroadcastId) : Goes s (.refuseSuppress b) (.refuseTransition b)
  | refused (b : BroadcastId) : Goes s (.refuseTransition b) (.refreshCounts b .returned)
  | resumeUnplanned (b : BroadcastId) : Goes s (.resumeFind b) (.planFind b)
  | resumePlanned (b : BroadcastId) : Goes s (.resumeFind b) (.resumeCounts b)
  | resumeDrained (b : BroadcastId) : Goes s (.resumeCounts b) (.failExhausted b)
  | resumePending (b : BroadcastId) : Goes s (.resumeCounts b) (.listChunks b none)
  | cancelFound (cleanupId : CleanupId) (b : BroadcastId) : Goes s (.cancelFind cleanupId b) (.cancelTransition b)
  | cancelled (b : BroadcastId) : Goes s (.cancelTransition b) (.cancelSuppress b)
  | cancelSuppressed (b : BroadcastId) : Goes s (.cancelSuppress b) (.refreshCounts b .returned)

theorem goes_of_access (hq : (s', .await q) ∈ cfg.access s p) : Goes s p q := by
  cases p with
  | planFind b | chunkFind b chunkNo authRetry =>
    obtain ⟨-, hq⟩ := Prod.mk.inj (List.mem_singleton.mp hq)
    split at hq
    · cases hq
    · next record hr =>
      split at hq <;> cases hq
      constructor
      exact hr
  | planKilled record | chunkKilled record chunkNo authRetry =>
    obtain ⟨killed, -, heq⟩ := List.mem_map.mp hq
    have hnext := (Prod.mk.inj heq).2
    split at hnext <;> cases hnext <;> constructor
  | planAudience record =>
    obtain ⟨-, hq⟩ := Prod.mk.inj (List.mem_singleton.mp hq)
    simp only [insertNext] at hq
    split at hq
    · cases hq
      exact .tooMany record _
    · split at hq
      · cases hq
        exact .nobody record
      · split at hq <;> cases hq
        · exact .noRows record _
        · exact .firstBatch record _
  | insertBatch record rows recipientCount =>
    obtain ⟨-, hq⟩ := Prod.mk.inj (List.mem_singleton.mp hq)
    unfold insertNext at hq
    split at hq <;> cases hq
    · exact .lastBatch record rows _
    · exact .nextBatch record rows _
  | reserveBudget b recipientCount =>
    rcases List.mem_pair.mp hq with heq | heq <;> cases heq <;> constructor
  | chunkEvent record chunkNo authRetry =>
    obtain ⟨-, hq⟩ := Prod.mk.inj (List.mem_singleton.mp hq)
    split at hq
    · cases hq
    · split at hq <;> cases hq <;> constructor
  | claimChunk record chunkNo authRetry =>
    obtain ⟨-, hq⟩ := Prod.mk.inj (List.mem_singleton.mp hq)
    split at hq <;> cases hq <;> constructor
  | runSenders b claims authRetry =>
    obtain ⟨as, -, heq⟩ := List.mem_map.mp hq
    cases heq
    exact .sent b claims authRetry as
  | chunkRefresh b ending authRetry =>
    obtain ⟨-, hq⟩ := Prod.mk.inj (List.mem_singleton.mp hq)
    cases ending <;> cases hq <;> constructor
  | finalCounts b =>
    obtain ⟨-, hq⟩ := Prod.mk.inj (List.mem_singleton.mp hq)
    dsimp only at hq
    split at hq
    · cases hq
    · next hc =>
      cases hq
      exact .counted _ (Nat.eq_zero_of_not_pos hc)
  | releaseFind b =>
    obtain ⟨-, hq⟩ := Prod.mk.inj (List.mem_singleton.mp hq)
    split at hq
    · cases hq
    · split at hq <;> cases hq
      constructor
  | releaseTransition b =>
    obtain ⟨-, hq⟩ := Prod.mk.inj (List.mem_singleton.mp hq)
    split at hq
    · cases hq
    · split at hq
      · cases hq
      · split at hq <;> cases hq <;> constructor
  | reserveSlot b =>
    simp only [access, List.mem_cons, List.not_mem_nil, or_false] at hq
    rcases hq with heq | heq | heq <;> cases heq <;> constructor
  | resumeFind b =>
    obtain ⟨-, hq⟩ := Prod.mk.inj (List.mem_singleton.mp hq)
    split at hq
    · cases hq
    · split at hq <;> cases hq <;> constructor
  | cancelFind cleanupId b =>
    obtain ⟨-, hq⟩ := Prod.mk.inj (List.mem_singleton.mp hq)
    split at hq
    · cases hq
    · split at hq <;> cases hq
      constructor
  | planOrg record | markPlanned record recipientCount | orgTransition b prior refused stayed | failExhausted b
  | releaseOrg record | resumeCounts b | cancelTransition b =>
    obtain ⟨-, hq⟩ := Prod.mk.inj (List.mem_singleton.mp hq)
    split at hq <;> cases hq <;> constructor
  | failTooMany b recipientCount | emptyTransition b | budgetTransition b recipientCount | listChunks b recipientCount
  | releaseClaims ids authRetry | deferTransition b | refreshCounts b result =>
    cases (Prod.mk.inj (List.mem_singleton.mp hq)).2
  | _ =>
    cases (Prod.mk.inj (List.mem_singleton.mp hq)).2
    constructor

theorem isOpen_of_claims {d : Delivery} (hd : s.deliveries.find? k = some d) (hk : k ∈ p.claims s) :
    d.status.isOpen := by
  cases p with
  | claimChunk record chunkNo authRetry => exact Store.isOpen_of_claimable hd hk
  | _ => cases hk

namespace Effect

/-- A delivery that is open after an access was open before, or was inserted, or was
closed and got a pending outcome. -/
theorem open_cases (he : Effect s p s') (ho : s'.Open b k) :
    s.Open b k ∨ (∃ row ∈ p.inserts, s.conflicts row = false ∧ row.broadcastId = b) ∨
      ∃ o ∈ p.applies, o.status.isOpen ∧
        ∃ d, s.deliveries.find? o.id = some d ∧ d.status.isOpen = false ∧ d.broadcastId = b := by
  cases he with
  | read => exact .inl ho
  | transition c prior status fields hp =>
    simp only [Shared.transition, Shared.withStore, Store.transition] at ho
    split at ho <;> exact .inl ho
  | planned c recipientCount now =>
    simp only [Shared.withStore, Store.markPlanned] at ho
    split at ho <;> exact .inl ho
  | refresh c => exact .inl ho
  | insert =>
    obtain ⟨d, hd, hb, hst⟩ := ho
    rcases Store.insertDeliveries_cases hd with hd | ⟨row, hrow, hc, -, hrb⟩
    · exact .inl ⟨d, hd, hb, hst⟩
    · exact .inr (.inl ⟨row, hrow, hc, hrb ▸ hb⟩)
  | claim =>
    refine .inl (ho.of_updateDeliveries (fun _ => rfl) (fun d hd hk _ => ?_))
    have hkey : d.id = k := Table.key_of_find? hd
    exact isOpen_of_claims hd (hkey ▸ of_decide_eq_true hk)
  | apply =>
    obtain ⟨d, hd, hb, hst⟩ := ho
    rw [Shared.withStore, Store.applyDeliveryOutcomes, Store.find?_updateDeliveries, Option.map_eq_some_iff] at hd
    obtain ⟨d₀, hd₀, rfl⟩ := hd
    have hkey : d₀.id = k := Table.key_of_find? hd₀
    split at hst
    · next hany =>
      cases hfind : p.applies.find? (fun o => decide (o.id = d₀.id)) with
      | none =>
        simp only [hany, ↓reduceIte, hfind, Option.elim_none] at hb hst
        exact .inl ⟨d₀, hd₀, hb, hst⟩
      | some o =>
        simp only [hany, ↓reduceIte, hfind, Option.elim_some] at hb hst
        have hid : o.id = d₀.id := by simpa using List.find?_some hfind
        cases hopen : d₀.status.isOpen with
        | true => exact .inl ⟨d₀, hd₀, hb, hopen⟩
        | false =>
          exact .inr (.inr ⟨o, List.mem_of_find?_eq_some hfind, hst, d₀, by rw [hid, hkey, hd₀], hopen, hb⟩)
    · next hany =>
      rw [if_neg hany] at hb
      exact .inl ⟨d₀, hd₀, hb, hst⟩
  | release ids =>
    refine .inl (ho.of_updateDeliveries (fun _ => rfl) (fun d _ hp _ => ?_))
    exact (Bool.and_eq_true_iff.mp hp).2
  | exhaust c =>
    refine .inl (ho.of_updateDeliveries (fun _ => rfl) (fun d _ _ hopen => ?_))
    cases hopen
  | suppress c reason hp =>
    refine .inl (ho.of_updateDeliveries (fun _ => rfl) (fun d _ _ hopen => ?_))
    cases hopen

/-- A sent delivery stays sent unless an outcome is written over it. -/
theorem sent (he : Effect s p s') (h : s.Sent k) : s'.Sent k ∨ k ∈ p.applies.map (·.id) := by
  cases he with
  | read => exact .inl h
  | transition c prior status fields hp =>
    refine .inl ?_
    simp only [Shared.transition, Shared.withStore, Store.transition]
    split <;> exact h
  | planned c recipientCount now =>
    refine .inl ?_
    simp only [Shared.withStore, Store.markPlanned]
    split <;> exact h
  | refresh c => exact .inl h
  | insert =>
    obtain ⟨d, hd, hst⟩ := h
    exact .inl ⟨d, Store.find?_insertDeliveries_of_some _ hd, hst⟩
  | claim =>
    refine .inl (h.updateDeliveries (fun d hd hst => ?_))
    have hkey : d.id = k := Table.key_of_find? hd
    refine decide_eq_false (fun hk => ?_)
    have hopen := isOpen_of_claims hd (hkey ▸ hk)
    rw [hst] at hopen
    cases hopen
  | apply =>
    by_cases hk : k ∈ p.applies.map (·.id)
    · exact .inr hk
    · refine .inl (h.updateDeliveries (fun d hd _ => ?_))
      have hkey : d.id = k := Table.key_of_find? hd
      rw [List.any_eq_false]
      intro o ho hid
      exact hk (List.mem_map.mpr ⟨o, ho, (of_decide_eq_true hid).trans hkey⟩)
  | release ids => exact .inl (h.updateDeliveries (fun d _ hst => by simp [hst, DeliveryStatus.isOpen]))
  | exhaust c => exact .inl (h.updateDeliveries (fun d _ hst => by simp [Store.exhausted, hst, DeliveryStatus.isOpen]))
  | suppress c reason hp => exact .inl (h.updateDeliveries (fun d _ hst => by simp [hst, DeliveryStatus.isOpen]))

/-- Only an outcome makes a delivery sent. -/
theorem of_sent (he : Effect s p s') (h : s'.Sent k) : s.Sent k ∨ k ∈ p.applies.map (·.id) := by
  cases he with
  | read => exact .inl h
  | transition c prior status fields hp =>
    simp only [Shared.transition, Shared.withStore, Store.transition] at h
    split at h <;> exact .inl h
  | planned c recipientCount now =>
    simp only [Shared.withStore, Store.markPlanned] at h
    split at h <;> exact .inl h
  | refresh c => exact .inl h
  | insert =>
    obtain ⟨d, hd, hst⟩ := h
    rcases Store.insertDeliveries_cases hd with hd | ⟨_, -, -, hpend, -⟩
    · exact .inl ⟨d, hd, hst⟩
    · rw [hpend] at hst
      cases hst
  | claim => exact .inl (h.of_updateDeliveries (fun _ _ => by simp))
  | apply =>
    obtain ⟨d, hd, hst⟩ := h
    rw [Shared.withStore, Store.applyDeliveryOutcomes, Store.find?_updateDeliveries, Option.map_eq_some_iff] at hd
    obtain ⟨d₀, hd₀, rfl⟩ := hd
    have hkey : d₀.id = k := Table.key_of_find? hd₀
    split at hst
    · next hany =>
      obtain ⟨o, ho, hid⟩ := List.any_eq_true.mp hany
      exact .inr (List.mem_map.mpr ⟨o, ho, (of_decide_eq_true hid).trans hkey⟩)
    · exact .inl ⟨d₀, hd₀, hst⟩
  | release ids => exact .inl (h.of_updateDeliveries (fun _ _ => by simp))
  | exhaust c => exact .inl (h.of_updateDeliveries (fun _ _ => by simp))
  | suppress c reason hp => exact .inl (h.of_updateDeliveries (fun _ _ => by simp))

/-- A broadcast is finished by a transition, and stays finished. -/
theorem finished_cases (he : Effect s p s') (h : s'.Finished b) :
    s.Finished b ∨ ∃ prior status, p.moves = some (b, prior, status) ∧ s.mayMove b prior ∧ status.finished := by
  cases he with
  | transition c prior status fields hp =>
    rcases Store.finished_transition h with h | ⟨rfl, hm, hf⟩
    · exact .inl h
    · exact .inr ⟨prior, status, hp, hm, hf⟩
  | planned c recipientCount now =>
    refine .inl ?_
    simp only [Shared.withStore, Store.markPlanned] at h
    split at h
    · exact h.of_modifyBroadcast (fun _ => rfl)
    · exact h
  | refresh c => exact .inl (h.of_modifyBroadcast (fun _ => rfl))
  | insert => exact .inl (by rwa [Shared.withStore, Store.finished_insertDeliveries] at h)
  | _ => exact .inl h

theorem finished (he : Effect s p s') (h : s.Finished b) : s'.Finished b := by
  cases he with
  | transition c prior status fields hp => exact h.transition (Await.prior_of_moves hp) status fields
  | planned c recipientCount now =>
    simp only [Shared.withStore, Store.markPlanned]
    split
    · exact h.modifyBroadcast (fun _ => rfl)
    · exact h
  | refresh c => exact h.modifyBroadcast (fun _ => rfl)
  | insert => rwa [Shared.withStore, Store.finished_insertDeliveries]
  | _ => exact h

end Effect

/-! ## From await to await -/

theorem not_open_of_suppresses (hn : (s', n) ∈ cfg.access s p) (hp : p.suppresses = some b) : ¬ s'.Open b k := by
  cases p with
  | killSuppress c result | budgetSuppress c m | refuseSuppress c | orgSuppress c result | cancelSuppress c =>
    simp only [access, List.mem_singleton, Prod.mk.injEq] at hn
    cases hp
    rw [hn.1]
    exact Store.not_open_suppressRemaining _
  | _ => cases hp

theorem id_of_outcome {claim : DeliveryClaim} {now : Instant} {answer : Answer} {o : DeliveryOutcome}
    (ho : claim.outcome now answer = some o) : o.id = claim.id := by
  unfold DeliveryClaim.outcome DeliveryClaim.inAppOutcome DeliveryClaim.emailOutcome at ho
  grind [DeliveryClaim.suppressed, DeliveryClaim.sent, DeliveryClaim.failed, DeliveryClaim.pending]

theorem mem_claims_of_chunkOutcomes {now : Instant} {claims : List DeliveryClaim} {as : List Answer}
    (hk : k ∈ (chunkOutcomes now claims as).map (·.id)) : k ∈ claims.map (·.id) := by
  obtain ⟨o, ho, rfl⟩ := List.mem_map.mp hk
  obtain ⟨x, hx, hxo⟩ := List.mem_filterMap.mp ho
  exact List.mem_map.mpr ⟨x.1, (List.of_mem_zip hx).1, (id_of_outcome hxo).symm⟩

theorem holds_of_access (hq : (s', .await q) ∈ cfg.access s p) (hk : k ∈ q.holds) : k ∈ p.holds ∨ k ∈ p.claims s := by
  cases goes_of_access hq with
  | sent b claims authRetry as => exact .inl (mem_claims_of_chunkOutcomes hk)
  | claimed record chunkNo authRetry =>
    simp only [Await.holds, List.map_map] at hk
    exact .inr hk
  | _ => cases hk

theorem clears_of_access (hq : (s', .await q) ∈ cfg.access s p) (hb : q.clears = some b) :
    p.suppresses = some b ∨ (s' = s ∧ s.countWhere b (·.isOpen) = 0) := by
  cases goes_of_access hq with
  | budgetSuppressed c n | killSuppressed c result | refuseSuppressed c => exact .inl hb
  | counted allFailed hc =>
    cases hb
    exact .inr ⟨(Prod.mk.inj (List.mem_singleton.mp hq)).1, hc⟩
  | _ => cases hb

/-- How a call finishes a broadcast: with nothing open, or without a look, or with the open
deliveries suppressed next. -/
theorem finish_cases (hn : (s', n) ∈ cfg.access s p) {prior : List BroadcastStatus} {status : BroadcastStatus}
    (hp : p.moves = some (b, prior, status)) (hm : s.mayMove b prior) (hf : status.finished) :
    p.clears = some b ∨ p.finishesBlind = some b ∨ ∃ q, n = .await q ∧ q.sweepsUp = some b := by
  cases p with
  | orgTransition c prior' refused stayed | cancelTransition c =>
    simp only [access, List.mem_singleton, Prod.mk.injEq] at hn
    simp only [Await.moves, Option.some.injEq, Prod.mk.injEq] at hp
    obtain ⟨rfl, rfl, -⟩ := hp
    rw [if_pos hm] at hn
    exact .inr (.inr ⟨_, hn.2, rfl⟩)
  | failTooMany c n | emptyTransition c =>
    cases hp
    exact .inr (.inl rfl)
  | budgetTransition c n | refuseTransition c | finalTransition c allFailed | killTransition c result =>
    cases hp
    exact .inl rfl
  | releaseTransition c | deferTransition c =>
    cases hp
    cases hf
  | _ => cases hp

theorem suppresses_of_sweepsUp (hp : p.sweepsUp = some b) : p.suppresses = some b := by
  cases p <;> first | exact hp | cases hp

theorem enter_idle (o : Request) : (enter o).holds = [] ∧ (enter o).clears = none := by
  cases o <;> exact ⟨rfl, rfl⟩

end Config

end Civfix.Broadcasts
