import Civfix.MediaChecks

/-! # Ready media is backed by checked bytes

The served object and the thumbnail are deleted only once the row is rejected or gone, which it stays; and
they are put only from bytes with the recorded ETag. A run that is about to publish has put them, so that
they are there for as long as its update can still find the row. -/
namespace Civfix.MediaChecks

open InterleavedCalls

variable {s s' : Shared} {w w' : World}

/-! ## What the calls rely on -/

/-- An object that nothing but the cleanup of a dead row deletes. -/
def Deletable (s : Shared) (k : Key) : Prop := k = .raw ∨ s.Dead

/-- While the row is validating, an object that a run has put is there. -/
def Stored (s : Shared) (k : Key) : Prop := s.Validating → s.objects k = some s.uploadEtag

/-- What holds when a call is at an await. -/
def Checked (s : Shared) : Await → Prop
  | .uploadDriftBeforePublish x => x.etag = s.uploadEtag
  | .put x pending =>
    x.etag = s.uploadEtag ∧ (∀ k ∈ pending, k ∈ x.keys) ∧ ∀ k ∈ x.keys, k ∉ pending → Stored s k
  | .latePut k e => e = s.uploadEtag ∧ k ≠ .raw
  | .insertAbuseFlag x | .publish x => x.etag = s.uploadEtag ∧ ∀ k ∈ x.keys, Stored s k
  | .reference k keys => ∀ l ∈ k :: keys, Deletable s l
  | .delete k keys leaked => (∀ l ∈ k :: keys, Deletable s l) ∧ ∀ l ∈ leaked, Deletable s l
  | .record leaked => ∀ l ∈ leaked, Deletable s l
  | .referenceOfOrphan => s.Dead
  | .deleteObjects _ _ => s.Dead
  | .retryDelete k | .retryClear k | .retryRecord k => Deletable s k
  | _ => True

/-- A published row has its objects, and no object of a row that is not dead is a leaked one but the upload. -/
structure Backed (s : Shared) : Prop where
  published : ∀ a ∈ s.row, a.status = .ready ∨ a.status = .held → a.servedKey = some .served ∧
    s.objects .served = some s.uploadEtag ∧ ∀ t ∈ a.thumbKey, t = .thumb ∧ s.objects t = some s.uploadEtag
  unpublished : ∀ a ∈ s.row, a.status = .validating ∨ a.status = .rejected → a.servedKey = none ∧ a.thumbKey = none
  leaked : ∀ k, s.tombstones k ≠ none → Deletable s k
  left : s.left = if s.Validating then 0 else 1

/-! ## What an access does -/

/-- The writes that the calls make. -/
inductive Effect (s s' : Shared) : Prop where
  | none (h : s' = s)
  | put (k : Key) (hk : k ≠ .raw) (h : s' = s.put k s.uploadEtag)
  | overwrite (e : Etag) (h : s' = s.put .raw e)
  | delete (k : Key) (hk : Deletable s k) (h : s' = s.delete k)
  | publish (x : Publication) (hx : ∀ k ∈ x.keys, Stored s k) (h : s.applyResult x.patch = some s')
  | reject (h : s.applyResult (fun a => { a with status := .rejected }) = some s')
  | deleteRow (h : s' = s.deleteRow)
  | record (keys : List Key) (hk : ∀ k ∈ keys, Deletable s k) (h : s' = s.recordLeakedObjects keys)
  | clear (k : Key) (h : s' = s.clearLeakedObject k)
  | bind (b : Bool) (h : s' = { s with orphaned := b })

/-- What the other calls see of a write. -/
structure Follows (s s' : Shared) : Prop where
  etag : s'.uploadEtag = s.uploadEtag
  dead : s.Dead → s'.Dead
  stored : ∀ k, k ≠ .raw → Stored s k → Stored s' k

theorem not_dead_of_validating (h : s.Validating) : ¬ s.Dead := by
  obtain ⟨a, ha, hv⟩ := h
  intro hd
  have hr := hd a ha
  rw [hv] at hr
  cases hr

theorem applyResult_eq_some {f : Asset → Asset} (h : s.applyResult f = some s') :
    ∃ a, s.row = some a ∧ a.status = .validating ∧ s' = { s with row := some (f a), left := s.left + 1 } := by
  unfold Shared.applyResult at h
  split at h
  · cases h
  next a ha =>
  split at h
  · next hv => exact ⟨a, ha, hv, (Option.some.inj h).symm⟩
  · cases h

theorem objects_put (s : Shared) (k : Key) (e : Etag) (l : Key) :
    (s.put k e).objects l = if l = k then some e else s.objects l := by
  simp only [Shared.put, Function.update_apply]

theorem objects_delete (s : Shared) (k l : Key) : (s.delete k).objects l = if l = k then none else s.objects l := by
  simp only [Shared.delete, Function.update_apply]

theorem Follows.of_row (hrow : s'.row = s.row) (hetag : s'.uploadEtag = s.uploadEtag)
    (hobj : ∀ k, k ≠ .raw → s.Validating → s.objects k = some s.uploadEtag → s'.objects k = some s.uploadEtag) :
    Follows s s' := by
  refine ⟨hetag, fun hd => ?_, fun k hk hs hv => ?_⟩
  · rw [Shared.Dead, hrow]
    exact hd
  · rw [Shared.Validating, hrow] at hv
    rw [hetag]
    exact hobj k hk hv (hs hv)

theorem follows_applyResult {f : Asset → Asset} (hf : ∀ a, (f a).status ≠ .validating)
    (h : s.applyResult f = some s') :
    Follows s s' := by
  obtain ⟨a, ha, hv, rfl⟩ := applyResult_eq_some h
  refine ⟨rfl, fun hd => absurd hd (not_dead_of_validating ⟨a, ha, hv⟩), fun k _ _ hvalid => ?_⟩
  obtain ⟨b, hb, hbv⟩ := hvalid
  obtain rfl := Option.some.inj hb
  exact absurd hbv (hf a)

theorem patch_status (x : Publication) (a : Asset) : (x.patch a).status ≠ .validating := by
  unfold Publication.patch
  split <;> rintro ⟨⟩

theorem Effect.follows (h : Effect s s') : Follows s s' := by
  cases h with
  | none h => exact h ▸ .of_row rfl rfl (fun _ _ _ ho => ho)
  | put l hl h =>
    subst h
    refine .of_row rfl rfl (fun k _ _ ho => ?_)
    rw [objects_put]
    split
    · rfl
    · exact ho
  | overwrite e h =>
    subst h
    refine .of_row rfl rfl (fun k hk _ ho => ?_)
    rw [objects_put, if_neg hk]
    exact ho
  | delete l hl h =>
    subst h
    refine .of_row rfl rfl (fun k hk hv ho => ?_)
    rw [objects_delete, if_neg]
    · exact ho
    · rintro rfl
      exact not_dead_of_validating hv (hl.resolve_left hk)
  | publish x hx h => exact follows_applyResult (patch_status x) h
  | reject h => exact follows_applyResult (fun _ => by rintro ⟨⟩) h
  | deleteRow h =>
    subst h
    exact ⟨rfl, fun _ a ha => absurd ha (Option.not_mem_none a),
      fun k _ _ ⟨a, ha, _⟩ => absurd ha (Option.not_mem_none a)⟩
  | record keys hk h => exact h ▸ .of_row rfl rfl (fun _ _ _ ho => ho)
  | clear k h => exact h ▸ .of_row rfl rfl (fun _ _ _ ho => ho)
  | bind b h => exact h ▸ .of_row rfl rfl (fun _ _ _ ho => ho)

theorem Deletable.follows (hs : Follows s s') {k : Key} (h : Deletable s k) : Deletable s' k := h.imp_right hs.dead

/-- A write that leaves the row, the tombstones and the objects of a published row. -/
theorem Backed.of_row (h : Backed s) (hrow : s'.row = s.row) (hetag : s'.uploadEtag = s.uploadEtag)
    (hleft : s'.left = s.left)
    (hobj : ∀ k, k ≠ .raw → ¬ s.Dead → s.objects k = some s.uploadEtag → s'.objects k = some s.uploadEtag)
    (hleaked : ∀ k, s'.tombstones k ≠ none → Deletable s k) : Backed s' := by
  refine ⟨fun a ha hstatus => ?_, fun a ha => h.unpublished a (hrow ▸ ha), fun k hk => ?_, ?_⟩
  · have ha' : a ∈ s.row := hrow ▸ ha
    have hlive : ¬ s.Dead := by
      intro hd
      have hr := hd a ha'
      rw [hr] at hstatus
      rcases hstatus with hstatus | hstatus <;> cases hstatus
    obtain ⟨hserved, hobject, hthumb⟩ := h.published a ha' hstatus
    refine ⟨hserved, hetag ▸ hobj .served (by rintro ⟨⟩) hlive hobject, fun t ht => ?_⟩
    obtain ⟨rfl, hthumb⟩ := hthumb t ht
    exact ⟨rfl, hetag ▸ hobj .thumb (by rintro ⟨⟩) hlive hthumb⟩
  · rw [Deletable, Shared.Dead, hrow]
    exact hleaked k hk
  · have hv : s'.Validating ↔ s.Validating := by
      unfold Shared.Validating
      rw [hrow]
    rw [hleft, h.left]
    simp only [hv]

/-- The row that an update of the status leaves is counted once. -/
theorem Backed.of_applyResult (h : Backed s) {f : Asset → Asset} (hf : ∀ a, (f a).status ≠ .validating)
    (hs : s.applyResult f = some s')
    (hpublished : ∀ a ∈ s.row, a.status = .validating → (f a).status = .ready ∨ (f a).status = .held →
      (f a).servedKey = some .served ∧ s.objects .served = some s.uploadEtag ∧
        ∀ t ∈ (f a).thumbKey, t = .thumb ∧ s.objects t = some s.uploadEtag)
    (hrejected : ∀ a ∈ s.row, a.status = .validating → (f a).status = .rejected →
    (f a).servedKey = none ∧ (f a).thumbKey = none) :
    Backed s' := by
  have hfollows := follows_applyResult hf hs
  obtain ⟨a, ha, hv, rfl⟩ := applyResult_eq_some hs
  have hvalid : s.Validating := ⟨a, ha, hv⟩
  refine ⟨fun b hb hstatus => ?_, fun b hb hstatus => ?_, fun k hk => (h.leaked k hk).follows hfollows, ?_⟩
  · obtain rfl := Option.some.inj hb
    exact hpublished a ha hv hstatus
  · obtain rfl := Option.some.inj hb
    exact hrejected a ha hv (hstatus.resolve_left (hf a))
  · have hleft : ¬ ∃ b ∈ some (f a), b.status = .validating := by
      rintro ⟨b, hb, hbv⟩
      obtain rfl := Option.some.inj hb
      exact hf a hbv
    show s.left + 1 = if ∃ b ∈ some (f a), b.status = .validating then 0 else 1
    rw [if_neg hleft, h.left, if_pos hvalid]

theorem Effect.backed (h : Effect s s') (hb : Backed s) : Backed s' := by
  cases h with
  | none h => exact h ▸ hb
  | put l hl h =>
    subst h
    refine hb.of_row rfl rfl rfl (fun k _ _ ho => ?_) hb.leaked
    rw [objects_put]
    split
    · rfl
    · exact ho
  | overwrite e h =>
    subst h
    refine hb.of_row rfl rfl rfl (fun k hk _ ho => ?_) hb.leaked
    rw [objects_put, if_neg hk]
    exact ho
  | delete l hl h =>
    subst h
    refine hb.of_row rfl rfl rfl (fun k hk hlive ho => ?_) hb.leaked
    rw [objects_delete, if_neg]
    · exact ho
    · rintro rfl
      exact hlive (hl.resolve_left hk)
  | publish x hx h =>
    refine hb.of_applyResult (patch_status x) h (fun a ha hv _ => ?_) (fun a ha hv hstatus => ?_)
    · have hvalid : s.Validating := ⟨a, ha, hv⟩
      refine ⟨rfl, hx .served (List.mem_cons_self ..) hvalid, fun t ht => ?_⟩
      cases hthumb : x.thumb with
      | true =>
        have hkey : t = .thumb := by simpa [Publication.patch, hthumb] using ht.symm
        subst hkey
        exact ⟨rfl, hx .thumb (by simp [Publication.keys, hthumb]) hvalid⟩
      | false =>
        have hkey : a.thumbKey = some t := by simpa [Publication.patch, hthumb] using ht
        rw [(hb.unpublished a ha (.inl hv)).2] at hkey
        cases hkey
    · unfold Publication.patch at hstatus
      split at hstatus <;> cases hstatus
  | reject h =>
    refine hb.of_applyResult (fun _ => by rintro ⟨⟩) h (fun a ha hv hstatus => ?_) (fun a ha hv _ => ?_)
    · rcases hstatus with hstatus | hstatus <;> cases hstatus
    · exact hb.unpublished a ha (.inl hv)
  | deleteRow h =>
    subst h
    refine ⟨fun a ha => absurd ha (Option.not_mem_none a), fun a ha => absurd ha (Option.not_mem_none a),
      fun k hk => ?_, ?_⟩
    · exact .inr (fun a ha => absurd ha (Option.not_mem_none a))
    · have hgone : ¬ s.deleteRow.Validating := fun ⟨a, ha, _⟩ => absurd ha (Option.not_mem_none a)
      have hleft := hb.left
      rw [if_neg hgone]
      simp only [Shared.deleteRow]
      split
      · next hv => rw [hleft, if_pos hv]
      · next hv => rw [hleft, if_neg hv]
  | record keys hk h =>
    subst h
    refine hb.of_row rfl rfl rfl (fun _ _ _ ho => ho) (fun k hk' => ?_)
    by_cases hmem : k ∈ keys
    · exact hk k hmem
    · simp only [Shared.recordLeakedObjects, hmem, if_false] at hk'
      exact hb.leaked k hk'
  | clear l h =>
    subst h
    refine hb.of_row rfl rfl rfl (fun _ _ _ ho => ho) (fun k hk' => hb.leaked k (fun hnone => hk' ?_))
    simp only [Shared.clearLeakedObject, Function.update_apply, hnone, ite_self]
  | bind b h => exact h ▸ hb.of_row rfl rfl rfl (fun _ _ _ ho => ho) hb.leaked

theorem ne_raw_of_mem_keys {x : Publication} {k : Key} (h : k ∈ x.keys) : k ≠ .raw := by
  unfold Publication.keys at h
  split at h <;> rintro rfl <;> simp at h

/-- What a call has established stays true while the others write. -/
theorem Checked.follows (hs : Follows s s') {p : Await} (h : Checked s p) : Checked s' p := by
  cases p with
  | uploadDriftBeforePublish x => exact h.trans hs.etag.symm
  | put x pending =>
    exact ⟨h.1.trans hs.etag.symm, h.2.1, fun k hk hp => hs.stored k (ne_raw_of_mem_keys hk) (h.2.2 k hk hp)⟩
  | latePut k e => exact ⟨h.1.trans hs.etag.symm, h.2⟩
  | insertAbuseFlag x | publish x => exact ⟨h.1.trans hs.etag.symm,
    fun k hk => hs.stored k (ne_raw_of_mem_keys hk) (h.2 k hk)⟩
  | reference k keys => exact fun l hl => (h l hl).follows hs
  | delete k keys leaked => exact ⟨fun l hl => (h.1 l hl).follows hs, fun l hl => (h.2 l hl).follows hs⟩
  | record leaked => exact fun l hl => (h l hl).follows hs
  | referenceOfOrphan | deleteObjects _ _ => exact hs.dead h
  | retryDelete k | retryClear k | retryRecord k => exact Deletable.follows hs h
  | load _ | download _ | reject | reread _ | terminalizeStuck | loadForReap | deleteOrphan | adopt => trivial

/-- What holds after an access, if the call goes on. -/
def CheckedNext (s : Shared) (n : Next) : Prop := ∀ q, n = .await q → Checked s q

theorem checked_done (r : Result) : CheckedNext s (.done r) := by rintro q ⟨⟩

theorem checked_await (p : Await) (h : Checked s p) : CheckedNext s (.await p) := fun _ hq => Next.await.inj hq ▸ h

theorem checked_afterDelete {leaked keys : List Key} (hk : ∀ l ∈ keys, Deletable s l)
    (hl : ∀ l ∈ leaked, Deletable s l) :
    CheckedNext s (afterDelete leaked keys) := by
  cases keys with
  | nil =>
    simp only [afterDelete]
    split
    · exact checked_done _
    · exact checked_await (.record leaked) hl
  | cons k ks => exact checked_await (.delete k ks leaked) ⟨hk, hl⟩

theorem checked_afterDeleteObjects {leaked keys : List Key} (hd : s.Dead) :
    CheckedNext s (afterDeleteObjects leaked keys) := by
  cases keys with
  | nil =>
    simp only [afterDeleteObjects]
    split
    · exact checked_done _
    · exact checked_await (.record leaked) (fun _ _ => .inr hd)
  | cons k ks => exact checked_await (.deleteObjects (k :: ks) leaked) hd

/-- A call that has put all its objects publishes them. -/
theorem checked_afterPut {x : Publication} {pending : List Key} (he : x.etag = s.uploadEtag)
    (hp : ∀ k ∈ pending, k ∈ x.keys)
    (hs : ∀ k ∈ x.keys, k ∉ pending → Stored s k) : CheckedNext s (afterPut x pending) := by
  cases pending with
  | nil =>
    simp only [afterPut]
    split
    · exact checked_await (.insertAbuseFlag x) ⟨he, fun k hk => hs k hk List.not_mem_nil⟩
    · exact checked_await (.publish x) ⟨he, fun k hk => hs k hk List.not_mem_nil⟩
  | cons k ks => exact checked_await (.put x (k :: ks)) ⟨he, hp, hs⟩

theorem checked_deleteRejectedObjects (hd : s.Dead) : CheckedNext s deleteRejectedObjects :=
  checked_await (.reference .raw [.served, .thumb]) (fun _ _ => .inr hd)

theorem checked_deleteSupersededUpload : CheckedNext s deleteSupersededUpload :=
  checked_await (.reference .raw []) (fun _ hl => .inl (List.mem_singleton.mp hl))

/-- The write of an access, and what holds after it. -/
def Steps (s s' : Shared) (n : Next) : Prop := Effect s s' ∧ CheckedNext s' n

theorem steps_read {ok failed n : Next} (hok : CheckedNext s ok) (hfailed : CheckedNext s failed)
    (hmem : (s', n) ∈ read s ok failed) : Steps s s' n := by
  simp only [read, List.mem_cons, Prod.mk.injEq, List.not_mem_nil, or_false] at hmem
  rcases hmem with ⟨rfl, rfl⟩ | ⟨rfl, rfl⟩
  · exact ⟨.none rfl, hok⟩
  · exact ⟨.none rfl, hfailed⟩

theorem steps_write {t : Shared} {ok failed n : Next} (ht : Effect s t) (hok : CheckedNext t ok)
    (hfailed : CheckedNext s failed)
    (hmem : (s', n) ∈ write s t ok failed) : Steps s s' n := by
  simp only [write, List.mem_cons, Prod.mk.injEq, List.not_mem_nil, or_false] at hmem
  rcases hmem with ⟨rfl, rfl⟩ | ⟨rfl, rfl⟩ | ⟨rfl, rfl⟩
  · exact ⟨ht, hok⟩
  · exact ⟨.none rfl, hfailed⟩
  · exact ⟨ht, fun q hq => (hfailed q hq).follows ht.follows⟩

theorem dead_of_reject (h : s.applyResult (fun a => { a with status := .rejected }) = some s') : s'.Dead := by
  obtain ⟨a, -, -, rfl⟩ := applyResult_eq_some h
  intro b hb
  obtain rfl := Option.some.inj hb
  rfl

theorem stored_put (s : Shared) (k : Key) : Stored (s.put k s.uploadEtag) k := by
  intro _
  rw [objects_put, if_pos rfl]
  rfl

theorem checked_afterDownload (s : Shared) (e : Etag) (v : Verdict) :
    CheckedNext s (afterDownload s.uploadEtag e v) := by
  cases v with
  | tooLarge | rejected => exact checked_await .reject trivial
  | interrupted =>
    simp only [afterDownload]
    split
    · exact checked_done _
    · exact checked_await .reject trivial
  | publishes held thumb =>
    simp only [afterDownload]
    split
    · next heq => exact checked_await (.uploadDriftBeforePublish ⟨held, thumb, e⟩) heq
    · exact checked_await .reject trivial

/-- Every access is one of the writes, and establishes what the next await relies on. -/
theorem steps_of_access {p : Await} {n : Next} (hb : Backed s) (hp : Checked s p) (hmem : (s', n) ∈ access s p) :
    Steps s s' n := by
  cases p with
  | load v =>
    refine steps_read ?_ (checked_done _) hmem
    split
    · exact checked_await (.download v) trivial
    · exact checked_done _
  | download v =>
    simp only [access] at hmem
    split at hmem
    · cases List.mem_singleton.mp hmem
      exact ⟨.none rfl, checked_done _⟩
    next e _ =>
    exact steps_read (checked_afterDownload s e v) (checked_done _) hmem
  | uploadDriftBeforePublish x =>
    refine steps_read ?_ (checked_done _) hmem
    split
    · exact checked_await (.put x x.keys) ⟨hp, fun _ hk => hk, fun k hk hn => absurd hk hn⟩
    · exact checked_await .reject trivial
  | put x pending =>
    obtain ⟨k, hk, hmem⟩ := List.mem_flatMap.mp hmem
    obtain ⟨he, hpending, hstored⟩ := hp
    have heffect : Effect s (s.put k x.etag) := .put k (ne_raw_of_mem_keys (hpending k hk)) (he ▸ rfl)
    have hleft : ∀ l ∈ pending.erase k, l ∈ x.keys := fun l hl => hpending l (List.mem_of_mem_erase hl)
    refine steps_write heffect (checked_afterPut he hleft (fun l hl hn => ?_)) ?_ hmem
    · -- The object has just been put, or it was there before.
      by_cases hlk : l = k
      · subst hlk
        rw [he]
        exact stored_put s l
      · refine heffect.follows.stored l (ne_raw_of_mem_keys hl) (hstored l hl (fun hin => hn ?_))
        exact (List.mem_erase_of_ne hlk).mpr hin
    · cases hrest : pending.erase k with
      | nil => exact checked_done _
      | cons l ls =>
        have hl : l ∈ x.keys := hleft l (hrest ▸ List.mem_cons_self ..)
        exact checked_await (.latePut l x.etag) ⟨he, ne_raw_of_mem_keys hl⟩
  | latePut k e =>
    obtain ⟨rfl, hk⟩ := hp
    exact steps_write (.put k hk rfl) (checked_done _) (checked_done _) hmem
  | insertAbuseFlag x => exact steps_read (checked_await (.publish x) hp) (checked_done _) hmem
  | publish x =>
    simp only [access] at hmem
    split at hmem
    · next t ht => exact steps_write (.publish x hp.2 ht) checked_deleteSupersededUpload (checked_done _) hmem
    · exact steps_read (checked_await (.reread true) trivial) (checked_done _) hmem
  | reject =>
    simp only [access] at hmem
    split at hmem
    · next t ht =>
      exact steps_write (.reject ht) (checked_deleteRejectedObjects (dead_of_reject ht)) (checked_done _) hmem
    · exact steps_read (checked_await (.reread false) trivial) (checked_done _) hmem
  | reread uploaded =>
    refine steps_read ?_ (checked_done _) hmem
    split
    · next hd => exact checked_deleteRejectedObjects hd.2
    · exact checked_done _
  | terminalizeStuck =>
    simp only [access] at hmem
    split at hmem
    · next t ht =>
      exact steps_write (.reject ht) (checked_deleteRejectedObjects (dead_of_reject ht)) (checked_done _) hmem
    · exact steps_read (checked_done _) (checked_done _) hmem
  | loadForReap =>
    refine steps_read ?_ (checked_done _) hmem
    split
    · exact checked_await (.reference .raw []) (fun _ hl => .inl (List.mem_singleton.mp hl))
    · exact checked_done _
  | reference k keys =>
    refine steps_read (checked_await (.delete k keys []) ⟨hp, fun _ hl => absurd hl List.not_mem_nil⟩)
      (checked_done _) hmem
  | delete k keys leaked =>
    have hk := hp.1 k (List.mem_cons_self ..)
    have heffect : Effect s (s.delete k) := .delete k hk rfl
    have hkeys : ∀ l ∈ keys, Deletable s l := fun l hl => hp.1 l (List.mem_cons_of_mem _ hl)
    refine steps_write heffect (checked_afterDelete (fun l hl => (hkeys l hl).follows heffect.follows)
      (fun l hl => (hp.2 l hl).follows heffect.follows)) (checked_afterDelete hkeys (fun l hl => ?_)) hmem
    rcases List.mem_append.mp hl with hl | hl
    · exact hp.2 l hl
    · exact List.mem_singleton.mp hl ▸ hk
  | record leaked => exact steps_write (.record leaked hp rfl) (checked_done _) (checked_done _) hmem
  | deleteOrphan =>
    simp only [access] at hmem
    split at hmem
    · refine steps_write (.deleteRow rfl) (checked_await .referenceOfOrphan ?_) (checked_done _) hmem
      exact fun a ha => absurd ha (Option.not_mem_none a)
    · exact steps_read (checked_done _) (checked_done _) hmem
  | referenceOfOrphan => exact steps_read (checked_await (.deleteObjects derivedKeys []) hp) (checked_done _) hmem
  | deleteObjects pending leaked =>
    obtain ⟨k, -, hmem⟩ := List.mem_flatMap.mp hmem
    have heffect : Effect s (s.delete k) := .delete k (.inr hp) rfl
    exact steps_write heffect (checked_afterDeleteObjects (heffect.follows.dead hp))
      (checked_afterDeleteObjects hp) hmem
  | retryDelete k =>
    have heffect : Effect s (s.delete k) := .delete k hp rfl
    exact steps_write heffect (checked_await (.retryClear k) (Deletable.follows heffect.follows hp))
      (checked_await (.retryRecord k) hp) hmem
  | retryClear k => exact steps_write (.clear k rfl) (checked_done _) (checked_await (.retryRecord k) hp) hmem
  | retryRecord k =>
    refine steps_write (.record [k] (fun l hl => ?_) rfl) (checked_done _) (checked_done _) hmem
    exact List.mem_singleton.mp hl ▸ hp
  | adopt =>
    simp only [access] at hmem
    split at hmem
    · next t ht =>
      -- A published row has a served key, so that none is adopted.
      unfold Shared.adoptLegacyServedKey at ht
      split at ht
      · cases ht
      next a ha =>
      split at ht
      · next hready =>
        have hserved := (hb.published a ha (.inl hready.1)).1
        rw [hready.2] at hserved
        cases hserved
      · cases ht
    · exact steps_read (checked_done _) (checked_done _) hmem

/-! ## Runs -/

def Sound (w : World) : Prop := Machine.Holds Backed (fun s _ c => Checked s c.await) w

theorem effect_of_environment {e : Event} (h : environment s e = some s') : Effect s s' := by
  cases e with
  | clientPut e => exact .overwrite e (Option.some.inj h).symm
  | setOrphaned b => exact .bind b (Option.some.inj h).symm

theorem checked_of_enter {r : Request} {p : Await} (hb : Backed s) (h : enter s r = some (s', p)) :
    s' = s ∧ Checked s p := by
  cases r with
  | mediaChecks v | giveUpOnStuck | uploadReap | orphanSweep | adoptLegacyServedKeys =>
    cases h
    exact ⟨rfl, trivial⟩
  | retryTombstonedLeak k =>
    simp only [enter] at h
    split at h
    · next hlisted =>
      cases h
      obtain ⟨n, hn, -⟩ := hlisted
      refine ⟨rfl, hb.leaked k (fun hnone => ?_)⟩
      rw [hnone] at hn
      cases hn
    · cases h

theorem Sound.step {m : Move} {r : Option Result} (h : Sound w) (hs : machine.step w m = some (w', r)) :
    Sound w' ∧ w'.shared.uploadEtag = w.shared.uploadEtag := by
  have hothers : ∀ {t : Shared}, Effect w.shared t → ∀ i c, w.call i = some c → Checked t c.await :=
    fun he i c hc => (h.calls i c hc).follows he.follows
  constructor
  · refine Machine.Holds.step h hs ?_ ?_ ?_
    · intro o t p _ he
      obtain ⟨rfl, hp⟩ := checked_of_enter h.shared he
      exact ⟨h.shared, hp, h.calls⟩
    · intro i k c t n _ hc hmem
      obtain ⟨he, hn⟩ := steps_of_access h.shared (h.calls i c hc) hmem
      exact ⟨he.backed h.shared, hn, fun j d _ hd => hothers he j d hd⟩
    · intro e t _ he
      have heffect := effect_of_environment he
      exact ⟨heffect.backed h.shared, hothers heffect⟩
  · rcases Machine.shared_cases hs with ⟨o, p, -, he⟩ | ⟨i, k, c, n, -, hc, hmem⟩ | ⟨i, -, he⟩ | ⟨e, -, he, -⟩
    · rw [(checked_of_enter h.shared he).1]
    · exact (steps_of_access h.shared (h.calls i c hc) hmem).1.follows.etag
    · rw [he]
    · exact (effect_of_environment he).follows.etag

theorem sound_finalized (uploadEtag : Etag) (raw : Option Etag) :
    Sound (World.initial (finalized uploadEtag raw)) := by
  refine ⟨⟨fun a ha hstatus => ?_, fun a ha _ => ?_, fun k hk => absurd rfl hk, ?_⟩, fun i c hc => by simp at hc⟩
  · obtain rfl := Option.some.inj ha
    rcases hstatus with hstatus | hstatus <;> cases hstatus
  · obtain rfl := Option.some.inj ha
    exact ⟨rfl, rfl⟩
  · exact (if_pos ⟨_, rfl, rfl⟩).symm

theorem sound_of_run {uploadEtag : Etag} {raw : Option Etag} {ok : World → Move → Prop}
    (h : Machine.Run machine ok (World.initial (finalized uploadEtag raw)) w) :
    Sound w ∧ w.shared.uploadEtag = uploadEtag :=
  h.invariant (P := fun w => Sound w ∧ w.shared.uploadEtag = uploadEtag) ⟨sound_finalized uploadEtag raw, rfl⟩
    (fun hw _ hs => ⟨(hw.1.step hs).1, (hw.1.step hs).2.trans hw.2⟩)

/-- In every run the status leaves `validating` at most once, and a ready row with a served key has its served
object, and its thumbnail if it has the key of one, made from bytes with the ETag of the finalization. -/
theorem ready_media_is_backed (uploadEtag : Etag) (raw : Option Etag) (w : World)
    (h : Machine.Run machine (fun _ _ => True) (World.initial (finalized uploadEtag raw)) w) :
    w.shared.left ≤ 1 ∧ ∀ a ∈ w.shared.row, a.status = .ready → ∀ k ∈ a.servedKey,
      w.shared.objects k = some uploadEtag ∧ ∀ t ∈ a.thumbKey, w.shared.objects t = some uploadEtag := by
  obtain ⟨hsound, hetag⟩ := sound_of_run h
  refine ⟨?_, fun a ha hready k hk => ?_⟩
  · rw [hsound.shared.left]
    split <;> decide
  · obtain ⟨hserved, hobject, hthumb⟩ := hsound.shared.published a ha (.inl hready)
    rw [hserved] at hk
    obtain rfl := Option.some.inj hk
    exact ⟨hetag ▸ hobject, fun t ht => hetag ▸ (hthumb t ht).2⟩

/-- Two runs of one upload, of which the second is overtaken and finds the row ready, a client that overwrites
the upload, and its reap. -/
def processedTwice : List Move :=
  [(.start (.mediaChecks (.publishes false true)) : Move), .start (.mediaChecks (.publishes false false))] ++
    List.replicate 3 (.access 0 0 : Move) ++ List.replicate 3 (.access 1 0 :
      Move) ++ List.replicate 3 (.access 0 0 : Move) ++
    List.replicate 3 (.access 1 0 : Move) ++ [(.environment (.clientPut 8) : Move),
      .start .uploadReap] ++ List.replicate 3 (.access 2 0 : Move)

/-- Both objects of the row were made from the finalized bytes. -/
theorem processed_twice : ∃ (w : World) (a : Asset), w.shared.row = some a ∧ a.status = .ready ∧
    a.servedKey = some .served ∧ a.thumbKey = some .thumb ∧ w.shared.objects .raw = none ∧
    w.shared.left ≤ 1 ∧ ∀ a ∈ w.shared.row, a.status = .ready → ∀ k ∈ a.servedKey,
      w.shared.objects k = some 7 ∧ ∀ t ∈ a.thumbKey, w.shared.objects t = some 7 := by
  have hruns : (machine.perform (World.initial (finalized 7 (some 7))) processedTwice).any (fun w =>
      decide (w.shared.objects .raw = none) && w.shared.row.any (fun a =>
        decide (a.status = .ready ∧ a.servedKey = some .served ∧ a.thumbKey = some .thumb))) =
          true := by decide +kernel
  obtain ⟨w, hw, hP⟩ := (Option.any_eq_true _ _).mp hruns
  obtain ⟨hraw, hrow⟩ := (Bool.and_eq_true _ _).mp hP
  obtain ⟨a, ha, hP⟩ := (Option.any_eq_true _ _).mp hrow
  obtain ⟨hready, hserved, hthumb⟩ := of_decide_eq_true hP
  exact ⟨w, a, ha, hready, hserved, hthumb, of_decide_eq_true hraw,
    ready_media_is_backed 7 (some 7) w (Machine.free_of_perform hw)⟩

end Civfix.MediaChecks
