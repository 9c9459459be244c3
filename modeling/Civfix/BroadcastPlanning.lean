import Civfix.BroadcastSteps
import Mathlib.Data.List.Count
import Mathlib.Data.List.Dedup
import Mathlib.Data.List.Perm.Subperm

/-! # Planning of deliveries

What a plan makes of an audience, and what it leaves in the table, however often it is started again. Two rows for one
recipient and channel differ only where the list of channels repeats one; the table then keeps the first. -/
namespace Civfix.Broadcasts

open KeyedTables InterleavedCalls

/-! ## The rows of a plan -/

namespace Audience

variable (audience : Audience)

/-- The recipients in the order of the plan. -/
def recipients : List (RecipientKind × ℕ) :=
  audience.memberIds.map (RecipientKind.member, ·) ++ audience.guestIds.map (RecipientKind.guest, ·)

/-- Nobody is listed twice. -/
def Distinct : Prop := audience.memberIds.Nodup ∧ audience.guestIds.Nodup

instance : Decidable audience.Distinct := inferInstanceAs (Decidable (_ ∧ _))

end Audience

/-- The row of the recipient with the index. -/
def rowFor (record : Broadcast) (x : (RecipientKind × ℕ) × ℕ) (channel : Channel) : DeliveryRowInput where
  broadcastId := record.id
  chunkNo := x.2 / max 1 record.chunkSize
  recipientKind := x.1.1
  userId := if x.1.1 = .member then some x.1.2 else none
  guestId := if x.1.1 = .guest then some x.1.2 else none
  channel := channel

/-- The key of a row in the index of recipients. -/
def DeliveryRowInput.pair (r : DeliveryRowInput) : RecipientKind × Option ℕ × Channel :=
  (r.recipientKind, r.recipientId, r.channel)

/-- The rows of one chunk that a worker claims at once. -/
def Broadcast.claimLimit (record : Broadcast) : ℕ := max 1 record.chunkSize * MAX_CHANNELS_PER_RECIPIENT

variable {record record' : Broadcast} {audience : Audience} {row : DeliveryRowInput} {x : (RecipientKind × ℕ) × ℕ}
  {channel : Channel} {n : ℕ}

theorem deliveryRowsFor_eq (record : Broadcast) (audience : Audience) : deliveryRowsFor record audience =
    audience.recipients.zipIdx.flatMap fun x => (record.channels.filter (eligible x.1.1)).map (rowFor record x) := rfl

theorem recipientId_rowFor (record : Broadcast) (x : (RecipientKind × ℕ) × ℕ) (channel : Channel) :
    (rowFor record x channel).recipientId = some x.1.2 := by
  obtain ⟨⟨kind, id⟩, index⟩ := x
  cases kind <;> rfl

theorem mem_deliveryRowsFor : row ∈ deliveryRowsFor record audience ↔
    ∃ x ∈ audience.recipients.zipIdx, ∃ channel ∈ record.channels, eligible x.1.1 channel = true ∧
      row = rowFor record x channel := by
  rw [deliveryRowsFor_eq, List.mem_flatMap]
  constructor
  · rintro ⟨x, hx, hrow⟩
    obtain ⟨channel, hchannel, rfl⟩ := List.mem_map.mp hrow
    exact ⟨x, hx, channel, (List.mem_filter.mp hchannel).1, (List.mem_filter.mp hchannel).2, rfl⟩
  · rintro ⟨x, hx, channel, hchannel, heligible, rfl⟩
    exact ⟨x, hx, List.mem_map.mpr ⟨channel, List.mem_filter.mpr ⟨hchannel, heligible⟩, rfl⟩⟩

theorem deliveryRowsFor_congr (hid : record'.id = record.id) (hchannels : record'.channels = record.channels)
    (hsize : record'.chunkSize = record.chunkSize) :
    deliveryRowsFor record' audience = deliveryRowsFor record audience := by
  have hrow : ∀ x, rowFor record' x = rowFor record x := by
    intro x
    funext channel
    simp only [rowFor, hid, hsize]
  rw [deliveryRowsFor_eq, deliveryRowsFor_eq, hchannels]
  simp only [hrow]

theorem identified_of_mem (hrow : row ∈ deliveryRowsFor record audience) :
    row.broadcastId = record.id ∧ row.recipientId.isSome = true := by
  obtain ⟨x, -, channel, -, -, rfl⟩ := mem_deliveryRowsFor.mp hrow
  exact ⟨rfl, by rw [recipientId_rowFor]; rfl⟩

/-! ## Pairs -/

theorem nodup_recipients (h : audience.Distinct) : audience.recipients.Nodup := by
  have hmembers : (audience.memberIds.map (RecipientKind.member, ·)).Nodup := h.1.map fun _ _ heq => (Prod.mk.inj heq).2
  have hguests : (audience.guestIds.map (RecipientKind.guest, ·)).Nodup := h.2.map fun _ _ heq => (Prod.mk.inj heq).2
  refine List.nodup_append.mpr ⟨hmembers, hguests, fun a ha b hb => ?_⟩
  rintro rfl
  obtain ⟨i, -, rfl⟩ := List.mem_map.mp ha
  obtain ⟨j, -, heq⟩ := List.mem_map.mp hb
  cases heq

/-- The pairs of a plan: every recipient in order, with the channels open to it. -/
theorem pairs_eq (record : Broadcast) (audience : Audience) : (deliveryRowsFor record audience).map (·.pair) =
    audience.recipients.flatMap fun x => (record.channels.filter (eligible x.1)).map fun c => (x.1, some x.2, c) := by
  have hpair : ∀ x channel, (rowFor record x channel).pair = (x.1.1, some x.1.2, channel) := by
    intro x channel
    rw [DeliveryRowInput.pair, recipientId_rowFor]
    rfl
  have hrows : (deliveryRowsFor record audience).map (·.pair) = audience.recipients.zipIdx.flatMap fun x =>
      (record.channels.filter (eligible x.1.1)).map fun c => (x.1.1, some x.1.2, c) := by
    simp only [deliveryRowsFor_eq, List.map_flatMap, List.map_map, Function.comp_def, hpair]
  rw [hrows]
  conv_rhs => rw [← List.zipIdx_map_fst 0 audience.recipients, List.flatMap_map]

theorem count_of_recipient (kind : RecipientKind) (id : ℕ) (channel : Channel) (x : RecipientKind × ℕ) :
    (((record.channels.filter (eligible x.1)).map fun c => (x.1, some x.2, c)).count (kind, some id, channel)) =
      if x = (kind, id) ∧ eligible kind channel = true then record.channels.count channel else 0 := by
  split
  · next h =>
    obtain ⟨rfl, heligible⟩ := h
    have hinj : Function.Injective fun c : Channel => (kind, some id, c) := fun a b hab =>
      (Prod.mk.inj (Prod.mk.inj hab).2).2
    exact (List.count_map_of_injective _ _ hinj channel).trans (List.count_filter heligible)
  · next h =>
    refine List.count_eq_zero_of_not_mem fun hmem => h ?_
    obtain ⟨c, hc, heq⟩ := List.mem_map.mp hmem
    simp only [Prod.mk.injEq, Option.some.injEq] at heq
    obtain ⟨hkind, hid, rfl⟩ := heq
    exact ⟨Prod.ext hkind hid, hkind ▸ (List.mem_filter.mp hc).2⟩

/-- A recipient has one row for each time that a channel open to it is listed. -/
theorem count_pair (h : audience.Distinct) (kind : RecipientKind) (id : ℕ) (channel : Channel) :
    ((deliveryRowsFor record audience).map (·.pair)).count (kind, some id, channel) =
      if (kind, id) ∈ audience.recipients ∧ eligible kind channel = true then record.channels.count channel else 0 := by
  rw [pairs_eq, List.count_flatMap]
  have hnodup := nodup_recipients h
  simp only [Function.comp_def, count_of_recipient]
  generalize audience.recipients = l at hnodup ⊢
  induction l with
  | nil => simp
  | cons x l ih =>
    obtain ⟨hx, hl⟩ := List.nodup_cons.mp hnodup
    rw [List.map_cons, List.sum_cons, ih hl]
    by_cases heq : x = (kind, id)
    · subst heq
      simp [hx]
    · have hne : ¬ (kind, id) = x := fun hsame => heq hsame.symm
      simp [heq, hne]

/-! ## Chunks -/

/-- The recipients of a chunk with their indices. -/
def chunkOf (record : Broadcast) (audience : Audience) (n : ℕ) : List ((RecipientKind × ℕ) × ℕ) :=
  audience.recipients.zipIdx.filter fun x => decide (x.2 / max 1 record.chunkSize = n)

theorem length_chunkOf_le (record : Broadcast) (audience : Audience) (n : ℕ) :
    (chunkOf record audience n).length ≤ max 1 record.chunkSize := by
  have hpos : 0 < max 1 record.chunkSize := Nat.lt_of_lt_of_le Nat.one_pos (Nat.le_max_left 1 _)
  have hnodup : ((chunkOf record audience n).map Prod.snd).Nodup := by
    have hall : (audience.recipients.zipIdx.map Prod.snd).Nodup := by
      rw [List.zipIdx_map_snd]
      exact List.nodup_range'
    exact hall.sublist (List.filter_sublist.map Prod.snd)
  have hrange : (chunkOf record audience n).map Prod.snd ⊆
      List.range' (n * max 1 record.chunkSize) (max 1 record.chunkSize) := by
    intro i hi
    obtain ⟨x, hx, rfl⟩ := List.mem_map.mp hi
    have hdiv : x.2 / max 1 record.chunkSize = n := of_decide_eq_true (List.mem_filter.mp hx).2
    obtain ⟨hle, hlt⟩ := (Nat.div_eq_iff hpos).mp hdiv
    rw [List.mem_range'_1]
    omega
  have hle := (List.Nodup.subperm hnodup hrange).length_le
  rwa [List.length_map, List.length_range'] at hle

theorem mem_chunkOf (hrow : row ∈ deliveryRowsFor record audience) :
    ∃ x ∈ chunkOf record audience row.chunkNo, ∃ channel, row = rowFor record x channel := by
  obtain ⟨x, hx, channel, -, -, rfl⟩ := mem_deliveryRowsFor.mp hrow
  exact ⟨x, List.mem_filter.mpr ⟨hx, decide_eq_true rfl⟩, channel, rfl⟩

theorem distinct_recipients_le (record : Broadcast) (audience : Audience) (n : ℕ) :
    ((((deliveryRowsFor record audience).filter (fun r => decide (r.chunkNo = n))).map
      (fun r => (r.recipientKind, r.recipientId))).dedup).length ≤ max 1 record.chunkSize := by
  have hsubset : (((deliveryRowsFor record audience).filter (fun r => decide (r.chunkNo = n))).map
      (fun r => (r.recipientKind, r.recipientId))).dedup ⊆
        (chunkOf record audience n).map (fun x => (x.1.1, some x.1.2)) := by
    intro y hy
    obtain ⟨r, hr, rfl⟩ := List.mem_map.mp (List.mem_dedup.mp hy)
    obtain ⟨hr, hn⟩ := List.mem_filter.mp hr
    obtain ⟨x, hx, channel, rfl⟩ := mem_chunkOf hr
    rw [of_decide_eq_true hn] at hx
    exact List.mem_map.mpr ⟨x, hx, by rw [recipientId_rowFor]; rfl⟩
  have hle := (List.Nodup.subperm (List.nodup_dedup _) hsubset).length_le
  rw [List.length_map] at hle
  exact Nat.le_trans hle (length_chunkOf_le record audience n)

/-- Different rows of one chunk are no more than a worker claims. -/
theorem length_le_claimLimit {rows : List DeliveryRowInput} (hnodup : rows.Nodup)
    (hrows : ∀ r ∈ rows, r ∈ deliveryRowsFor record audience ∧ r.chunkNo = n) : rows.length ≤ record.claimLimit := by
  have hsubset : rows ⊆ (chunkOf record audience n).flatMap
      (fun x => [Channel.inapp, .push, .email, .sms].map (rowFor record x)) := by
    intro r hr
    obtain ⟨hmem, hn⟩ := hrows r hr
    obtain ⟨x, hx, channel, rfl⟩ := mem_chunkOf hmem
    rw [hn] at hx
    exact List.mem_flatMap.mpr ⟨x, hx, List.mem_map.mpr ⟨channel, by cases channel <;> decide, rfl⟩⟩
  have hle := (List.Nodup.subperm hnodup hsubset).length_le
  have hlength : ((chunkOf record audience n).flatMap
      (fun x => [Channel.inapp, .push, .email, .sms].map (rowFor record x))).length =
        (chunkOf record audience n).length * MAX_CHANNELS_PER_RECIPIENT := by
    simp [List.length_flatMap, MAX_CHANNELS_PER_RECIPIENT]
  rw [hlength] at hle
  exact Nat.le_trans hle (Nat.mul_le_mul_right _ (length_chunkOf_le record audience n))

theorem chunkNo_eq (h : audience.Distinct) {r r' : DeliveryRowInput} (hr : r ∈ deliveryRowsFor record audience)
    (hr' : r' ∈ deliveryRowsFor record audience) (hkind : r.recipientKind = r'.recipientKind)
    (hid : r.recipientId = r'.recipientId) : r.chunkNo = r'.chunkNo := by
  obtain ⟨x, hx, channel, -, -, rfl⟩ := mem_deliveryRowsFor.mp hr
  obtain ⟨y, hy, channel', -, -, rfl⟩ := mem_deliveryRowsFor.mp hr'
  rw [recipientId_rowFor, recipientId_rowFor, Option.some_inj] at hid
  have hsame : x.1 = y.1 := Prod.ext hkind hid
  have hindex : x.2 = y.2 := by
    have hget := List.mem_zipIdx_iff_getElem?.mp hx
    have hget' := List.mem_zipIdx_iff_getElem?.mp hy
    rw [← hsame] at hget'
    obtain ⟨hlt, -⟩ := List.getElem?_eq_some_iff.mp hget
    exact (List.getElem?_inj hlt (nodup_recipients h)).mp (hget.trans hget'.symm)
  change x.2 / _ = y.2 / _
  rw [hindex]

/-- Rows with the same key are the same. -/
theorem eq_of_pair (h : audience.Distinct) {r r' : DeliveryRowInput} (hr : r ∈ deliveryRowsFor record audience)
    (hr' : r' ∈ deliveryRowsFor record audience) (hpair : r.pair = r'.pair) : r = r' := by
  simp only [DeliveryRowInput.pair, Prod.mk.injEq] at hpair
  obtain ⟨hkind, hid, hchannel⟩ := hpair
  have hchunk := chunkNo_eq h hr hr' hkind hid
  obtain ⟨x, -, channel, -, -, rfl⟩ := mem_deliveryRowsFor.mp hr
  obtain ⟨y, -, channel', -, -, rfl⟩ := mem_deliveryRowsFor.mp hr'
  rw [recipientId_rowFor, recipientId_rowFor, Option.some_inj] at hid
  have hsame : x.1 = y.1 := Prod.ext hkind hid
  have hsame' : channel = channel' := hchannel
  simp only [rowFor] at hchunk ⊢
  rw [hchunk, hsame, hsame']

/-! ## The table -/

namespace Store

variable {s : Store} {b : BroadcastId} {rows : List DeliveryRowInput}

/-- The deliveries of the broadcast as they were inserted. -/
def inputs (s : Store) (b : BroadcastId) : List DeliveryRowInput :=
  (s.ofBroadcast b).map Delivery.toDeliveryRowInput

theorem rows_insert_new (s : Store) (row : DeliveryRowInput) :
    (s.deliveries.insert (s.newDelivery row)).rows = s.deliveries.rows ++ [s.newDelivery row] :=
  Table.insert_of_find?_none s.deliveries.find?_succ_max

theorem inputs_insertDelivery (row : DeliveryRowInput) : (s.insertDelivery row).inputs b =
    if s.conflicts row = false ∧ row.broadcastId = b then s.inputs b ++ [row] else s.inputs b := by
  unfold insertDelivery
  cases hc : s.conflicts row with
  | true => rw [if_pos rfl, if_neg (by simp)]
  | false =>
    rw [if_neg Bool.false_ne_true]
    simp only [inputs, ofBroadcast, rows_insert_new, List.filter_append, List.map_append, true_and]
    by_cases hb : row.broadcastId = b
    · have hnew : (s.newDelivery row).broadcastId = b := hb
      simp only [if_pos hb, List.filter_cons, hnew, decide_true, if_true]
      rfl
    · have hnew : ¬ (s.newDelivery row).broadcastId = b := hb
      simp [if_neg hb, hnew]

theorem conflicts_of_mem (hrow : row ∈ s.inputs b) (hid : row.recipientId.isSome = true) : s.conflicts row = true := by
  obtain ⟨d, hd, rfl⟩ := List.mem_map.mp hrow
  simp only [conflicts, Bool.and_eq_true, List.any_eq_true, decide_eq_true_eq]
  exact ⟨hid, d, (List.mem_filter.mp hd).1, ⟨⟨rfl, rfl⟩, rfl⟩, rfl⟩

/-- After its insertion a row is on file, or another with its key is. -/
theorem conflicts_insertDelivery (hid : row.recipientId.isSome = true) :
    (s.insertDelivery row).conflicts row = true := by
  cases hc : s.conflicts row with
  | true =>
    rw [insertDelivery, if_pos hc]
    exact hc
  | false =>
    refine conflicts_of_mem (b := row.broadcastId) ?_ hid
    rw [inputs_insertDelivery, if_pos ⟨hc, rfl⟩]
    exact List.mem_append_right _ (List.mem_singleton_self _)

theorem conflicts_of_insertDelivery {r : DeliveryRowInput} (hc : s.conflicts r = true) :
    (s.insertDelivery row).conflicts r = true :=
  conflicts_mono (fun _ hx => Table.mem_rows_iff.mpr (find?_insertDelivery_of_some row (Table.mem_rows_iff.mp hx))) hc

theorem conflicts_insertDeliveries {r : DeliveryRowInput} (hc : s.conflicts r = true) :
    (s.insertDeliveries rows).conflicts r = true := by
  induction rows generalizing s with
  | nil => exact hc
  | cons row rows ih => exact ih (conflicts_of_insertDelivery hc)

theorem conflicts_of_planned (hids : ∀ r ∈ rows, r.recipientId.isSome = true) :
    ∀ r ∈ rows, (s.insertDeliveries rows).conflicts r = true := by
  induction rows generalizing s with
  | nil => exact fun r hr => absurd hr List.not_mem_nil
  | cons row rows ih =>
    intro r hr
    rcases List.mem_cons.mp hr with rfl | hr
    · exact conflicts_insertDeliveries (s := s.insertDelivery r) (conflicts_insertDelivery (hids r List.mem_cons_self))
    · exact ih (fun r hr => hids r (List.mem_cons_of_mem _ hr)) r hr

theorem insertDeliveries_of_conflicts (h : ∀ r ∈ rows, s.conflicts r = true) : s.insertDeliveries rows = s := by
  induction rows with
  | nil => rfl
  | cons row rows ih =>
    have hrow : s.insertDelivery row = s := if_pos (h row List.mem_cons_self)
    change (s.insertDelivery row).insertDeliveries rows = s
    rw [hrow]
    exact ih fun r hr => h r (List.mem_cons_of_mem _ hr)

theorem insertDeliveries_append (rows rows' : List DeliveryRowInput) :
    s.insertDeliveries (rows ++ rows') = (s.insertDeliveries rows).insertDeliveries rows' := List.foldl_append

theorem insertDeliveries_again (hids : ∀ r ∈ rows, r.recipientId.isSome = true) (k : ℕ) :
    (s.insertDeliveries (rows.take k)).insertDeliveries rows = s.insertDeliveries rows := by
  have hagain : (s.insertDeliveries (rows.take k)).insertDeliveries (rows.take k) = s.insertDeliveries (rows.take k) :=
    insertDeliveries_of_conflicts (conflicts_of_planned fun r hr => hids r (List.mem_of_mem_take hr))
  have hsplit : ∀ t : Store, t.insertDeliveries rows =
      (t.insertDeliveries (rows.take k)).insertDeliveries (rows.drop k) := by
    intro t
    rw [← insertDeliveries_append, List.take_append_drop]
  rw [hsplit (s.insertDeliveries (rows.take k)), hagain, ← hsplit]

/-- An insertion adds at most rows that were not on file. -/
theorem inputs_insertDeliveries (hids : ∀ r ∈ rows, r.recipientId.isSome = true) (hnodup : (s.inputs b).Nodup) :
    ((s.insertDeliveries rows).inputs b).Nodup ∧
      ∀ r ∈ (s.insertDeliveries rows).inputs b, r ∈ s.inputs b ∨ (r ∈ rows ∧ r.broadcastId = b) := by
  induction rows generalizing s with
  | nil => exact ⟨hnodup, fun r hr => .inl hr⟩
  | cons row rows ih =>
    have hrest : ∀ r ∈ rows, r.recipientId.isSome = true := fun r hr => hids r (List.mem_cons_of_mem _ hr)
    have hstep : ((s.insertDelivery row).inputs b).Nodup ∧
        ∀ r ∈ (s.insertDelivery row).inputs b, r ∈ s.inputs b ∨ (r = row ∧ r.broadcastId = b) := by
      rw [inputs_insertDelivery]
      split
      · next h =>
        refine ⟨List.nodup_append.mpr ⟨hnodup, List.nodup_singleton _, fun a ha c hc => ?_⟩, fun r hr => ?_⟩
        · rintro rfl
          rw [List.mem_singleton.mp hc] at ha
          have hc' := conflicts_of_mem ha (hids row List.mem_cons_self)
          exact absurd (h.1.symm.trans hc') Bool.false_ne_true
        · rcases List.mem_append.mp hr with hr | hr
          · exact .inl hr
          · rw [List.mem_singleton.mp hr]
            exact .inr ⟨rfl, h.2⟩
      · exact ⟨hnodup, fun r hr => .inl hr⟩
    obtain ⟨hnodup', hmem⟩ := ih hrest hstep.1
    refine ⟨hnodup', fun r hr => ?_⟩
    rcases hmem r hr with hr | ⟨hr, hb⟩
    · rcases hstep.2 r hr with hr | ⟨rfl, hb⟩
      · exact .inl hr
      · exact .inr ⟨List.mem_cons_self, hb⟩
    · exact .inr ⟨List.mem_cons_of_mem _ hr, hb⟩

/-- Deliveries are added behind the others. -/
theorem inputs_prefix_insertDeliveries (rows : List DeliveryRowInput) :
    s.inputs b <+: (s.insertDeliveries rows).inputs b := by
  induction rows generalizing s with
  | nil => exact List.prefix_rfl
  | cons row rows ih =>
    have hrow : s.inputs b <+: (s.insertDelivery row).inputs b := by
      rw [inputs_insertDelivery]
      split
      · exact List.prefix_append _ _
      · exact List.prefix_rfl
    exact hrow.trans ih

/-- An update that keeps what was inserted. -/
theorem inputs_updateDeliveries (p : Delivery → Bool) (f : Delivery → Delivery) (hf : ∀ d, (f d).id = d.id)
    (hinput : ∀ d, (f d).toDeliveryRowInput = d.toDeliveryRowInput) :
    (s.updateDeliveries p f hf).inputs b = s.inputs b := by
  have hsame : ∀ d : Delivery, (if p d then f d else d).toDeliveryRowInput = d.toDeliveryRowInput := by
    intro d
    split
    · exact hinput d
    · rfl
  simp only [inputs, ofBroadcast, updateDeliveries, Table.update, List.filter_map, List.map_map, Function.comp_def,
    hsame]

end Store

end Civfix.Broadcasts
