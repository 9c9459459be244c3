import Civfix.BroadcastDeliveries
import Civfix.BroadcastPlanning

/-! # Planned deliveries along a run

A plan may be started any number of times, by any number of workers, and stop anywhere. As long as the audience of the
broadcast stays the same, the table holds at most the rows of one plan. -/
namespace Civfix.Broadcasts

open KeyedTables InterleavedCalls

/-! ## One access -/

variable {record : Broadcast} {row : DeliveryRowInput}

namespace Await

/-- The row of `broadcasts` that the call has read. -/
def plans : Await → Option Broadcast
  | .planKilled record | .planOrg record | .planAudience record | .insertBatch record _ _
  | .chunkKilled record _ _ | .chunkEvent record _ _ | .claimChunk record _ _ => some record
  | _ => none

/-- The rows that the call has still to insert. -/
def planned : Await → List DeliveryRowInput
  | .insertBatch _ rows _ => rows
  | _ => []

theorem inserts_subset (p : Await) : p.inserts ⊆ p.planned := by
  cases p with
  | insertBatch record rows recipientCount => exact List.take_subset _ _
  | _ => exact List.nil_subset _

end Await

/-- What a plan reads of a broadcast is never written. -/
def Keeps (s s' : Store) : Prop :=
  ∀ b r, s.findById b = some r → ∃ r', s'.findById b = some r' ∧ r'.channels = r.channels ∧ r'.chunkSize = r.chunkSize

/-- The record of a call is that of the table, as far as a plan reads it. -/
def Agrees (s : Store) (record : Broadcast) : Prop :=
  ∃ r, s.findById record.id = some r ∧ r.channels = record.channels ∧ r.chunkSize = record.chunkSize

theorem Keeps.refl (s : Store) : Keeps s s := fun _ r hr => ⟨r, hr, rfl, rfl⟩

theorem Keeps.agrees {s s' : Store} (h : Keeps s s') (ha : Agrees s record) : Agrees s' record := by
  obtain ⟨r, hr, hchannels, hsize⟩ := ha
  obtain ⟨r', hr', hchannels', hsize'⟩ := h record.id r hr
  exact ⟨r', hr', hchannels'.trans hchannels, hsize'.trans hsize⟩

theorem keeps_modifyBroadcast (s : Store) (c : BroadcastId) (f : Broadcast → Broadcast) (hf : ∀ r, (f r).id = r.id)
    (hsame : ∀ r, (f r).channels = r.channels ∧ (f r).chunkSize = r.chunkSize) : Keeps s (s.modifyBroadcast c f hf) := by
  intro b r hr
  rw [Store.findById_modifyBroadcast]
  split
  · exact ⟨f r, by rw [hr]; rfl, hsame r⟩
  · exact ⟨r, hr, rfl, rfl⟩

theorem keeps_transition (s : Store) (b : BroadcastId) (prior : List BroadcastStatus) (status : BroadcastStatus)
    (fields : TransitionFields) : Keeps s (s.transition b prior status fields) := by
  unfold Store.transition
  split
  · exact keeps_modifyBroadcast s b _ _ fun _ => ⟨rfl, rfl⟩
  · exact .refl s

theorem broadcasts_insertDeliveries (s : Store) (rows : List DeliveryRowInput) :
    (s.insertDeliveries rows).broadcasts = s.broadcasts := by
  induction rows generalizing s with
  | nil => rfl
  | cons row rows ih =>
    refine (ih (s.insertDelivery row)).trans ?_
    unfold Store.insertDelivery
    split <;> rfl

namespace Config

variable {cfg : Config} {s s' : Shared} {p q : Await} {b : BroadcastId}

namespace Effect

theorem keeps (he : Effect s p s') : Keeps s.toStore s'.toStore := by
  cases he with
  | transition b prior status fields => exact keeps_transition s.toStore b prior status fields
  | planned b recipientCount now =>
    simp only [Shared.withStore, Store.markPlanned]
    split
    · exact keeps_modifyBroadcast s.toStore b _ _ fun _ => ⟨rfl, rfl⟩
    · exact .refl _
  | refresh b => exact keeps_modifyBroadcast s.toStore b _ _ fun _ => ⟨rfl, rfl⟩
  | insert =>
    intro b r hr
    refine ⟨r, ?_, rfl, rfl⟩
    simp only [Shared.withStore, Store.findById, broadcasts_insertDeliveries]
    exact hr
  | read | claim | apply | release ids | exhaust b | suppress b reason => exact .refl _

theorem same_audience (he : Effect s p s') : s'.audience = s.audience := by
  cases he <;> rfl

/-- Deliveries are inserted, and what was inserted is not written. -/
theorem inputs_cases (he : Effect s p s') (b : BroadcastId) :
    s'.inputs b = s.inputs b ∨ s'.toStore = s.insertDeliveries p.inserts := by
  cases he with
  | insert => exact .inr rfl
  | transition c prior status fields =>
    refine .inl ?_
    simp only [Shared.transition, Shared.withStore, Store.transition]
    split <;> rfl
  | planned c recipientCount now =>
    refine .inl ?_
    simp only [Shared.withStore, Store.markPlanned]
    split <;> rfl
  | read | refresh c => exact .inl rfl
  | claim | release ids | exhaust c | suppress c reason =>
    exact .inl (Store.inputs_updateDeliveries _ _ _ fun _ => rfl)
  | apply =>
    refine .inl (Store.inputs_updateDeliveries _ _ _ fun d => ?_)
    cases p.applies.find? (fun o => decide (o.id = d.id)) <;> rfl

end Effect

/-- A record is read from the table, and handed on as it is. -/
theorem record_of_access (hq : (s', .await q) ∈ cfg.access s p) (hrecord : q.plans = some record) :
    p.plans = some record ∨ s.findById record.id = some record := by
  cases goes_of_access hq with
  | planFound hr | chunkFound chunkNo authRetry hr =>
    cases hrecord
    have hid := Table.key_of_find? hr
    exact .inr (by rwa [← hid] at hr)
  | planOn r | planOrgOn r | firstBatch r n | nextBatch r rows n | chunkOn r chunkNo authRetry
  | chunkOrgOn r chunkNo authRetry => exact .inl hrecord
  | _ => cases hrecord

theorem planned_of_access (hq : (s', .await q) ∈ cfg.access s p) (hrow : row ∈ q.planned) :
    (row ∈ p.planned ∧ q.plans = p.plans) ∨
      ∃ record, p = .planAudience record ∧ q.plans = some record ∧
        row ∈ deliveryRowsFor record (s.audience record.id) := by
  cases goes_of_access hq with
  | firstBatch record n => exact .inr ⟨record, rfl, rfl, hrow⟩
  | nextBatch record rows n => exact .inl ⟨List.mem_of_mem_drop hrow, rfl⟩
  | _ => cases hrow

theorem environment_keeps {e : Change} (he : environment s e = some s') : Keeps s.toStore s'.toStore := by
  cases e with
  | tick now =>
    simp only [environment, Option.ite_none_right_eq_some, Option.some.injEq] at he
    rw [← he.2]
    exact .refl _
  | create broadcast =>
    simp only [environment, Option.ite_none_left_eq_some, Option.some.injEq] at he
    obtain ⟨-, rfl⟩ := he
    intro b r hr
    refine ⟨r, ?_, rfl, rfl⟩
    have hfind : s.broadcasts.find? b = some r := hr
    simp only [Shared.withStore, Store.findById, Table.find?_insert]
    split
    · rw [hfind]
      rfl
    · exact hfind
  | setStatus c status =>
    simp only [environment, Option.ite_none_left_eq_some, Option.some.injEq] at he
    obtain ⟨-, rfl⟩ := he
    exact keeps_transition s.toStore c unfinished status {}
  | setKillSwitch on | setHost host suspended | setEvent cleanupId suspended | setAudience c audience =>
    cases he
    exact .refl _

theorem enter_reads_nothing (o : Request) : (enter o).plans = none ∧ (enter o).planned = [] := by
  cases o <;> exact ⟨rfl, rfl⟩

end Config

/-! ## Along a run -/

/-- The audience of the broadcast is not given another value. -/
def SameAudience (b : BroadcastId) (audience : Audience) (_ : World) : Move → Prop
  | .environment (.setAudience c audience') => c = b → audience' = audience
  | _ => True

instance (b : BroadcastId) (audience : Audience) (w : World) : DecidablePred (SameAudience b audience w)
  | .environment (.setAudience c audience') => inferInstanceAs (Decidable (c = b → audience' = audience))
  | .environment (.tick _) | .environment (.create _) | .environment (.setStatus ..) | .environment (.setKillSwitch _)
  | .environment (.setHost ..) | .environment (.setEvent ..) | .start .. | .access .. | .crash .. =>
    inferInstanceAs (Decidable True)

/-- The row is one of the plan, if it belongs to the broadcast at all. -/
def Fits (record : Broadcast) (audience : Audience) (row : DeliveryRowInput) : Prop :=
  row.recipientId.isSome = true ∧ (row.broadcastId = record.id → row ∈ deliveryRowsFor record audience)

/-- What is on file, and what the calls are about to insert, comes from the record and the audience. -/
structure Planned (record : Broadcast) (audience : Audience) (w : World) : Prop where
  same : w.shared.audience record.id = audience
  agrees : Agrees w.shared.toStore record
  reads : ∀ i c r, w.call i = some c → c.await.plans = some r → r.id = record.id →
    r.channels = record.channels ∧ r.chunkSize = record.chunkSize
  fits : ∀ i c, w.call i = some c → ∀ row ∈ c.await.planned, Fits record audience row
  nodup : (w.shared.inputs record.id).Nodup
  stored : ∀ row ∈ w.shared.inputs record.id, row ∈ deliveryRowsFor record audience

variable {cfg : Config} {record : Broadcast} {audience : Audience} {row : DeliveryRowInput} {w w' : World} {m : Move}
  {o : Option Result}

/-- The broadcast is on file, with that audience, and has no deliveries. -/
structure Unplanned (record : Broadcast) (audience : Audience) (s : Shared) : Prop where
  same : s.audience record.id = audience
  found : s.findById record.id = some record
  empty : s.inputs record.id = []

theorem Unplanned.planned {s : Shared} (h : Unplanned record audience s) : Planned record audience (.initial s) where
  same := h.same
  agrees := ⟨record, h.found, rfl, rfl⟩
  reads i c r hc _ _ := by cases hc
  fits i c hc := by cases hc
  nodup := by
    change (s.inputs record.id).Nodup
    rw [h.empty]
    exact List.nodup_nil
  stored row hrow := by
    change row ∈ s.inputs record.id at hrow
    rw [h.empty] at hrow
    cases hrow

namespace Planned

theorem same_step (h : Planned record audience w) (hok : SameAudience record.id audience w m)
    (hs : cfg.machine.step w m = some (w', o)) : w'.shared.audience record.id = audience := by
  rcases store_cases hs with heq | ⟨i, j, c, n, -, -, -, he⟩ | ⟨e, rfl, he, -⟩
  · rw [heq]
    exact h.same
  · rw [he.same_audience]
    exact h.same
  · cases e with
    | setAudience c audience' =>
      simp only [Config.environment, Option.some.injEq] at he
      rw [← he]
      change Function.update w.shared.audience c audience' record.id = audience
      by_cases hc : c = record.id
      · rw [hc, Function.update_self]
        exact hok hc
      · rw [Function.update_of_ne (Ne.symm hc)]
        exact h.same
    | _ =>
      simp only [Config.environment, Option.ite_none_right_eq_some, Option.ite_none_left_eq_some,
        Option.some.injEq] at he
      first
        | rw [← he]; exact h.same
        | rw [← he.2]; exact h.same

theorem keeps_step (hs : cfg.machine.step w m = some (w', o)) : Keeps w.shared.toStore w'.shared.toStore := by
  rcases store_cases hs with heq | ⟨i, j, c, n, -, -, -, he⟩ | ⟨e, -, he, -⟩
  · rw [heq]
    exact .refl _
  · exact he.keeps
  · exact Config.environment_keeps he

theorem reads_step (h : Planned record audience w) (hs : cfg.machine.step w m = some (w', o)) {i : ℕ}
    {c : Call Request Await} {r : Broadcast} (hc : w'.call i = some c) (hr : c.await.plans = some r)
    (hid : r.id = record.id) : r.channels = record.channels ∧ r.chunkSize = record.chunkSize := by
  rcases Machine.call_cases hs hc with ⟨q, p, -, -, rfl, he⟩ | ⟨j, d, p, -, hd, rfl, hmem⟩ | ⟨hc, -⟩
  · simp only [Config.machine, Option.some.injEq, Prod.mk.injEq] at he
    simp only [← he.2, (Config.enter_reads_nothing q).1] at hr
    cases hr
  · rcases Config.record_of_access hmem hr with hr | hr
    · exact h.reads i d r hd hr hid
    · obtain ⟨r', hr', hchannels, hsize⟩ := h.agrees
      rw [hid, hr', Option.some.injEq] at hr
      exact hr ▸ ⟨hchannels, hsize⟩
  · exact h.reads i c r hc hr hid

theorem fits_of_plan (h : Planned record audience w) {i : ℕ} {c : Call Request Await} {r : Broadcast}
    (hc : w.call i = some c) (hr : c.await.plans = some r)
    (hrow : row ∈ deliveryRowsFor r (w.shared.audience r.id)) : Fits record audience row := by
  obtain ⟨hb, hid⟩ := identified_of_mem hrow
  refine ⟨hid, fun hsame => ?_⟩
  have heq : r.id = record.id := hb.symm.trans hsame
  obtain ⟨hchannels, hsize⟩ := h.reads i c r hc hr heq
  rw [deliveryRowsFor_congr heq hchannels hsize, heq, h.same] at hrow
  exact hrow

theorem fits_step (h : Planned record audience w) (hs : cfg.machine.step w m = some (w', o)) {i : ℕ}
    {c : Call Request Await} (hc : w'.call i = some c) (hrow : row ∈ c.await.planned) : Fits record audience row := by
  rcases Machine.call_cases hs hc with ⟨q, p, -, -, rfl, he⟩ | ⟨j, d, p, -, hd, rfl, hmem⟩ | ⟨hc, -⟩
  · simp only [Config.machine, Option.some.injEq, Prod.mk.injEq] at he
    simp only [← he.2, (Config.enter_reads_nothing q).2] at hrow
    cases hrow
  · rcases Config.planned_of_access hmem hrow with ⟨hrow, -⟩ | ⟨r, heq, -, hrow⟩
    · exact h.fits i d hd row hrow
    · exact h.fits_of_plan hd (by rw [heq]; rfl) hrow
  · exact h.fits i c hc row hrow

/-- Deliveries are only added, and only rows of the plan. -/
theorem inputs_step (h : Planned record audience w) (hs : cfg.machine.step w m = some (w', o)) :
    w.shared.inputs record.id <+: w'.shared.inputs record.id ∧ (w'.shared.inputs record.id).Nodup ∧
      ∀ row ∈ w'.shared.inputs record.id, row ∈ deliveryRowsFor record audience := by
  have hkeep : ∀ s' : Shared, s'.inputs record.id = w.shared.inputs record.id →
      w.shared.inputs record.id <+: s'.inputs record.id ∧ (s'.inputs record.id).Nodup ∧
        ∀ row ∈ s'.inputs record.id, row ∈ deliveryRowsFor record audience := by
    intro s' heq
    rw [heq]
    exact ⟨List.prefix_rfl, h.nodup, h.stored⟩
  rcases store_cases hs with heq | ⟨i, j, c, n, -, hc, -, he⟩ | ⟨e, -, he, -⟩
  · exact hkeep _ (by rw [heq])
  · rcases he.inputs_cases record.id with heq | heq
    · exact hkeep _ heq
    · have hfits : ∀ row ∈ c.await.inserts, Fits record audience row := fun row hrow =>
        h.fits i c hc row (Await.inserts_subset c.await hrow)
      obtain ⟨hnodup, hmem⟩ := Store.inputs_insertDeliveries (fun row hrow => (hfits row hrow).1) h.nodup
      rw [heq]
      refine ⟨Store.inputs_prefix_insertDeliveries _, hnodup, fun row hrow => ?_⟩
      rcases hmem row hrow with hrow | ⟨hrow, hb⟩
      · exact h.stored row hrow
      · exact (hfits row hrow).2 hb
  · have hsame := (environment_cases (b := record.id) he).1
    exact hkeep _ (by rw [Store.inputs, Store.inputs, Store.ofBroadcast, Store.ofBroadcast, hsame])

theorem step (h : Planned record audience w) (hok : SameAudience record.id audience w m)
    (hs : cfg.machine.step w m = some (w', o)) : Planned record audience w' where
  same := h.same_step hok hs
  agrees := (keeps_step hs).agrees h.agrees
  reads _ _ _ hc hr hid := h.reads_step hs hc hr hid
  fits _ _ hc _ hrow := h.fits_step hs hc hrow
  nodup := (h.inputs_step hs).2.1
  stored := (h.inputs_step hs).2.2

theorem of_run (h : Planned record audience w)
    (hrun : Machine.Run cfg.machine (SameAudience record.id audience) w w') : Planned record audience w' :=
  hrun.invariant h fun h hok hs => h.step hok hs

theorem inputs_of_run (h : Planned record audience w)
    (hrun : Machine.Run cfg.machine (SameAudience record.id audience) w w') :
    w.shared.inputs record.id <+: w'.shared.inputs record.id := by
  induction hrun with
  | refl => exact List.prefix_rfl
  | tail hrun m hok hs ih => exact ih.trans ((h.of_run hrun).inputs_step hs).1

/-- Once the plan is on file, planning again adds nothing. -/
theorem inputs_eq_of_run (h : Planned record audience w)
    (hrun : Machine.Run cfg.machine (SameAudience record.id audience) w w')
    (hplan : ∀ row ∈ deliveryRowsFor record audience, row ∈ w.shared.inputs record.id) :
    w'.shared.inputs record.id = w.shared.inputs record.id := by
  have hw' := h.of_run hrun
  obtain ⟨added, hadded⟩ := h.inputs_of_run hrun
  cases added with
  | nil => rw [← hadded, List.append_nil]
  | cons row added =>
    have hrow : row ∈ w'.shared.inputs record.id := hadded ▸ List.mem_append_right _ List.mem_cons_self
    have hnodup := hw'.nodup
    rw [← hadded] at hnodup
    exact absurd rfl ((List.nodup_append.mp hnodup).2.2 row (hplan row (hw'.stored row hrow)) row List.mem_cons_self)

theorem nodup_pairs (h : Planned record audience w) (hd : audience.Distinct) :
    ((w.shared.inputs record.id).map (·.pair)).Nodup :=
  List.Nodup.map_on (fun r hr r' hr' heq => eq_of_pair hd (h.stored r hr) (h.stored r' hr') heq) h.nodup

/-- The limit of a claim cuts nothing off. -/
theorem claimable_subset (h : Planned record audience w) (n : ℕ) (staleBefore : Instant) (limit : ℕ) :
    w.shared.claimable record.id n staleBefore limit ⊆
      w.shared.claimable record.id n staleBefore record.claimLimit := by
  have hrows : ((w.shared.inputs record.id).filter fun r => decide (r.chunkNo = n)).length ≤ record.claimLimit :=
    length_le_claimLimit (h.nodup.filter _) fun r hr =>
      ⟨h.stored r (List.mem_filter.mp hr).1, of_decide_eq_true (List.mem_filter.mp hr).2⟩
  intro d hd
  rw [Store.claimable, List.take_of_length_le]
  · exact List.mem_of_mem_take hd
  rw [List.length_insertionSort]
  refine Nat.le_trans ?_ hrows
  simp only [Store.inputs, Store.ofBroadcast, List.filter_map, List.length_map, List.filter_filter, Function.comp_def,
    ← List.countP_eq_length_filter]
  refine List.countP_mono_left fun d _ hd => ?_
  simp only [Bool.and_eq_true, decide_eq_true_eq] at hd ⊢
  exact ⟨hd.1.1.2, hd.1.1.1⟩

end Planned

/-! ## The guarantee -/

/-- A plan has a row for each recipient and each channel open to it, as often as the channel is listed, in chunks that a
worker claims as a whole; and planning again, with the same audience, adds nothing. -/
theorem planning_partitions (cfg : Config) (record : Broadcast) (audience : Audience) (hd : audience.Distinct) :
    (∀ kind id channel, ((deliveryRowsFor record audience).map (·.pair)).count (kind, some id, channel) =
      if (kind, id) ∈ audience.recipients ∧ eligible kind channel = true then record.channels.count channel else 0) ∧
    (∀ row ∈ deliveryRowsFor record audience, row.broadcastId = record.id ∧ row.recipientId.isSome = true) ∧
    (∀ n, (((deliveryRowsFor record audience).filter (fun r => decide (r.chunkNo = n))).map
      (fun r => (r.recipientKind, r.recipientId))).dedup.length ≤ max 1 record.chunkSize) ∧
    (∀ r ∈ deliveryRowsFor record audience, ∀ r' ∈ deliveryRowsFor record audience,
      r.recipientKind = r'.recipientKind → r.recipientId = r'.recipientId → r.chunkNo = r'.chunkNo) ∧
    (∀ (s : Store) (k : ℕ), (s.insertDeliveries ((deliveryRowsFor record audience).take k)).insertDeliveries
      (deliveryRowsFor record audience) = s.insertDeliveries (deliveryRowsFor record audience)) ∧
    ∀ (s : Shared) (w : World), Unplanned record audience s →
      Machine.Run cfg.machine (SameAudience record.id audience) (.initial s) w →
      ((w.shared.inputs record.id).map (·.pair)).Nodup ∧
      (∀ row ∈ w.shared.inputs record.id, row ∈ deliveryRowsFor record audience) ∧
      (∀ n staleBefore limit, w.shared.claimable record.id n staleBefore limit ⊆
        w.shared.claimable record.id n staleBefore record.claimLimit) ∧
      ∀ w', Machine.Run cfg.machine (SameAudience record.id audience) w w' →
        (∀ row ∈ deliveryRowsFor record audience, row ∈ w.shared.inputs record.id) →
        w'.shared.inputs record.id = w.shared.inputs record.id := by
  refine ⟨count_pair hd, fun row hrow => identified_of_mem hrow, distinct_recipients_le record audience,
    fun r hr r' hr' hkind hid => chunkNo_eq hd hr hr' hkind hid,
    fun s k => Store.insertDeliveries_again (fun r hr => (identified_of_mem hr).2) k, fun s w hstart hrun => ?_⟩
  have h := hstart.planned.of_run hrun
  exact ⟨h.nodup_pairs hd, h.stored, h.claimable_subset, fun w' hrun' hplan => h.inputs_eq_of_run hrun' hplan⟩

/-- The broadcast is on file for one member and one guest. -/
def sampleAudience : Shared :=
  { Shared.empty with
    broadcasts := Shared.empty.broadcasts.insert sampleBroadcast
    event := fun _ => some false
    audience := fun _ => ⟨[5], [9]⟩ }

/-- A plan crashes before it is marked, and another is made. -/
def planTwice : List Move :=
  List.flatten [[.start (.plan 1)], List.replicate 5 (.access 0 0), [.crash 0, .start (.plan 1)],
    List.replicate 6 (.access 1 0)]

theorem planning_partitions_twice : ∃ w, Machine.Run Config.sample.machine (SameAudience 1 ⟨[5], [9]⟩)
    (.initial sampleAudience) w ∧ (w.shared.inputs 1).length = 2 ∧ ((w.shared.inputs 1).map (·.pair)).Nodup := by
  have hrun : Machine.Allowed Config.sample.machine (SameAudience 1 ⟨[5], [9]⟩) (.initial sampleAudience) planTwice ∧
      ∃ w ∈ Config.sample.machine.perform (.initial sampleAudience) planTwice, (w.shared.inputs 1).length = 2 := by
    decide +kernel
  obtain ⟨hok, w, hw, hlength⟩ := hrun
  have hreach := Machine.run_of_perform hok hw
  have hstart : Unplanned sampleBroadcast ⟨[5], [9]⟩ sampleAudience := ⟨rfl, by decide, rfl⟩
  exact ⟨w, hreach, hlength,
    ((planning_partitions Config.sample sampleBroadcast ⟨[5], [9]⟩ (by decide)).2.2.2.2.2 _ w hstart hreach).1⟩

/-- A channel that is listed twice has two rows. -/
theorem not_each_pair_once : ¬ ∀ (record : Broadcast) (audience : Audience) (kind : RecipientKind) (id : ℕ)
    (channel : Channel), (kind, id) ∈ audience.recipients → channel ∈ record.channels → eligible kind channel = true →
      ((deliveryRowsFor record audience).map (·.pair)).count (kind, some id, channel) = 1 := by
  intro h
  exact absurd (h { sampleBroadcast with channels := [.email, .email] } ⟨[5], []⟩ .member 5 .email (by decide)
    (by decide) (by decide)) (by decide)

end Civfix.Broadcasts
