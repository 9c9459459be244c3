import Civfix.ReadyMedia

/-! # Rejected media leaves nothing behind

Once the row is rejected or gone, every object under its keys is recorded as leaked or owed: a call in
progress is still to delete it, and to record it if that fails. The one write that breaks this clears a
record after the object has been put, and recorded, again. -/
namespace Civfix.MediaChecks

open InterleavedCalls

variable {s s' : Shared} {w w' : World}

/-! ## What the calls owe -/

/-- The keys under which an upload can have objects. -/
def uploadKeys : List Key := [.raw, .served, .thumb]

/-- While the row is dead, the call is still to delete the object under the key, or to record it. -/
def Owes : Await → Key → Prop
  | .put _ _, k | .insertAbuseFlag _, k | .publish _, k | .reread true, k => k ∈ uploadKeys
  | .reference k₀ keys, k => k ∈ k₀ :: keys
  | .delete k₀ keys leaked, k => k ∈ k₀ :: keys ∨ k ∈ leaked
  | .record leaked, k => k ∈ leaked
  | .referenceOfOrphan, k => k ∈ derivedKeys
  | .deleteObjects pending leaked, k => k ∈ pending ∨ k ∈ leaked
  | .retryDelete k₀, k | .retryRecord k₀, k => k = k₀
  | _, _ => False

instance (p : Await) (k : Key) : Decidable (Owes p k) :=
  match p with
  | .put _ _ | .insertAbuseFlag _ | .publish _ | .reread true => inferInstanceAs (Decidable (k ∈ uploadKeys))
  | .reference k₀ keys => inferInstanceAs (Decidable (k ∈ k₀ :: keys))
  | .delete k₀ keys leaked => inferInstanceAs (Decidable (k ∈ k₀ :: keys ∨ k ∈ leaked))
  | .record leaked => inferInstanceAs (Decidable (k ∈ leaked))
  | .referenceOfOrphan => inferInstanceAs (Decidable (k ∈ derivedKeys))
  | .deleteObjects pending leaked => inferInstanceAs (Decidable (k ∈ pending ∨ k ∈ leaked))
  | .retryDelete k₀ | .retryRecord k₀ => inferInstanceAs (Decidable (k = k₀))
  | .load _ | .download _ | .uploadDriftBeforePublish _ | .latePut _ _ | .reject | .reread false | .terminalizeStuck
  | .loadForReap | .deleteOrphan | .retryClear _ | .adopt => isFalse (fun h => h)

/-! ## The conditions on the runs -/

/-- Queries and puts succeed; a deletion may fail. -/
def Succeeds : Await → ℕ → Prop
  | .delete _ _ _, _ | .deleteObjects _ _, _ | .retryDelete _, _ => True
  | .put _ _, n => n % 3 = 0
  | _, n => n = 0

instance (p : Await) (n : ℕ) : Decidable (Succeeds p n) :=
  match p with
  | .delete _ _ _ | .deleteObjects _ _ | .retryDelete _ => isTrue trivial
  | .put _ _ => inferInstanceAs (Decidable (n % 3 = 0))
  | .load _ | .download _ | .uploadDriftBeforePublish _ | .latePut _ _ | .insertAbuseFlag _ | .publish _ | .reject
  | .reread _ | .terminalizeStuck | .loadForReap | .reference _ _ | .record _ | .deleteOrphan | .referenceOfOrphan
  | .retryClear _ | .retryRecord _ | .adopt => inferInstanceAs (Decidable (n = 0))

/-- Nothing fails but deletions, no call is cut off, and the client does not write once the row is final. -/
def Calm (w : World) (m : Move) : Prop :=
  match m with
  | .start _ => True
  | .access i n => ∀ c ∈ w.call i, Succeeds c.await n
  | .crash _ => False
  | .environment (.clientPut _) => w.shared.Validating
  | .environment (.setOrphaned _) => True

instance (w : World) (m : Move) : Decidable (Calm w m) :=
  match m with
  | .start _ => isTrue trivial
  | .access i n => inferInstanceAs (Decidable (∀ c ∈ w.call i, Succeeds c.await n))
  | .crash _ => isFalse (fun h => h)
  | .environment (.clientPut _) => inferInstanceAs (Decidable w.shared.Validating)
  | .environment (.setOrphaned _) => isTrue trivial

/-- When the record of a key is cleared, there is no object under it, or another call owes it. -/
def Spared (s : Shared) (others : Key → Prop) : Await → Prop
  | .retryClear k => s.objects k = none ∨ others k
  | _ => True

/-- Another call than the given one owes the key. -/
def OwedBeside (w : World) (i : ℕ) (k : Key) : Prop := ¬ w.Others i (fun d => ¬ Owes d.await k)

instance (w : World) (i : ℕ) (k : Key) : Decidable (OwedBeside w i k) := inferInstanceAs (Decidable (¬ _))

instance (s : Shared) (others : Key → Prop) [DecidablePred others] (p : Await) : Decidable (Spared s others p) :=
  match p with
  | .retryClear k => inferInstanceAs (Decidable (s.objects k = none ∨ others k))
  | .load _ | .download _ | .uploadDriftBeforePublish _ | .put _ _ | .latePut _ _ | .insertAbuseFlag _ | .publish _
  | .reject | .reread _ | .terminalizeStuck | .loadForReap | .reference _ _ | .delete _ _ _ | .record _ | .deleteOrphan
  | .referenceOfOrphan | .deleteObjects _ _ | .retryDelete _ | .retryRecord _ | .adopt => isTrue trivial

def Undisturbed (w : World) (m : Move) : Prop :=
  Calm w m ∧ match m with
    | .access i _ => ∀ c ∈ w.call i, Spared w.shared (OwedBeside w i) c.await
    | _ => True

instance (w : World) (m : Move) : Decidable (Undisturbed w m) :=
  match m with
  | .access i n => inferInstanceAs (Decidable (Calm w (.access i n) ∧ ∀ c ∈ w.call i,
    Spared w.shared (OwedBeside w i) c.await))
  | .start o => inferInstanceAs (Decidable (Calm w (.start o) ∧ True))
  | .crash i => inferInstanceAs (Decidable (Calm w (.crash i) ∧ True))
  | .environment e => inferInstanceAs (Decidable (Calm w (.environment e) ∧ True))

/-! ## Nothing is left behind -/

/-- After an access the object under the key is recorded or owed by the call, or it was there before and the
call did not owe it. -/
inductive Handled (s s' : Shared) (p : Await) (n : Next) (k : Key) : Prop where
  | recorded (h : s'.tombstones k ≠ none)
  | owed (q : Await) (hn : n = .await q) (h : Owes q k)
  | before (hd : s.Dead) (ho : s.objects k ≠ none) (hp : ¬ Owes p k) (ht : s.tombstones k ≠ none → p = .retryClear k)

theorem of_read {ok failed n : Next} (h : (read s ok failed)[0]? = some (s', n)) : s' = s ∧ n = ok := by
  cases h
  exact ⟨rfl, rfl⟩

theorem of_write {t : Shared} {ok failed n : Next} (h : (write s t ok failed)[0]? = some (s', n)) :
    s' = t ∧ n = ok := by
  cases h
  exact ⟨rfl, rfl⟩

theorem cases_of_write {t : Shared} {ok failed n : Next} (h : (s', n) ∈ write s t ok failed) :
    (s' = t ∧ n = ok) ∨ ((s' = s ∨ s' = t) ∧ n = failed) := by
  simp only [write, List.mem_cons, Prod.mk.injEq, List.not_mem_nil, or_false] at h
  rcases h with ⟨hs, hn⟩ | ⟨hs, hn⟩ | ⟨hs, hn⟩
  · exact .inl ⟨hs, hn⟩
  · exact .inr ⟨.inl hs, hn⟩
  · exact .inr ⟨.inr hs, hn⟩

/-- The successful outcome of one of several writes. -/
theorem write_of_flatMap {α : Type} {t : α → Shared} {ok failed : α → Next} {l : List α} {i : ℕ} {n : Next}
    (hi : i % 3 = 0)
    (h : (l.flatMap (fun k => write s (t k) (ok k) (failed k)))[i]? = some (s', n)) :
    ∃ k ∈ l, s' = t k ∧ n = ok k := by
  induction l generalizing i with
  | nil => cases h
  | cons k l ih =>
    rw [List.flatMap_cons] at h
    match i with
    | 0 =>
      have hfirst : (write s (t k) (ok k) (failed k))[0]? = some (s', n) := h
      exact ⟨k, List.mem_cons_self .., of_write hfirst⟩
    | 1 | 2 => cases hi
    | i + 3 =>
      have hrest : (l.flatMap (fun k => write s (t k) (ok k) (failed k)))[i]? = some (s', n) := h
      obtain ⟨x, hx, heq⟩ := ih (by omega) hrest
      exact ⟨x, List.mem_cons_of_mem _ hx, heq⟩

theorem Handled.of_same {p : Await} {n : Next} {k : Key} (hd : s.Dead) (ho : s.objects k ≠ none)
    (ht : s.tombstones k ≠ none → s'.tombstones k ≠ none) (hp : ¬ Owes p k) : Handled s s' p n k := by
  by_cases hrecorded : s.tombstones k = none
  · exact .before hd ho hp (fun hne => absurd hrecorded hne)
  · exact .recorded (ht hrecorded)

theorem recorded_of_mem (s : Shared) {keys : List Key} {k : Key} (hk : k ∈ keys) :
    (s.recordLeakedObjects keys).tombstones k ≠ none := by
  simp only [Shared.recordLeakedObjects, hk, if_true]
  rintro ⟨⟩

theorem recorded_of_recorded {keys : List Key} {k : Key} (h : s.tombstones k ≠ none) :
    (s.recordLeakedObjects keys).tombstones k ≠ none := by
  simp only [Shared.recordLeakedObjects]
  split
  · rintro ⟨⟩
  · exact h

theorem owes_afterPut (x : Publication) (pending : List Key) {k : Key} (hk : k ∈ uploadKeys) :
    ∃ q, afterPut x pending = .await q ∧ Owes q k := by
  cases pending with
  | nil =>
    simp only [afterPut]
    split
    · exact ⟨_, rfl, hk⟩
    · exact ⟨_, rfl, hk⟩
  | cons l ls => exact ⟨_, rfl, hk⟩

theorem owes_afterDelete {leaked keys : List Key} {k : Key} (h : k ∈ keys ∨ k ∈ leaked) :
    ∃ q, afterDelete leaked keys = .await q ∧ Owes q k := by
  cases keys with
  | nil =>
    have hk := h.resolve_left List.not_mem_nil
    simp only [afterDelete]
    rw [if_neg (List.ne_nil_of_mem hk)]
    exact ⟨_, rfl, hk⟩
  | cons l ls => exact ⟨_, rfl, h⟩

theorem owes_afterDeleteObjects {leaked keys : List Key} {k : Key} (h : k ∈ keys ∨ k ∈ leaked) :
    ∃ q, afterDeleteObjects leaked keys = .await q ∧ Owes q k := by
  cases keys with
  | nil =>
    have hk := h.resolve_left List.not_mem_nil
    simp only [afterDeleteObjects]
    rw [if_neg (List.ne_nil_of_mem hk)]
    exact ⟨_, rfl, hk⟩
  | cons l ls => exact ⟨_, rfl, h⟩

theorem owes_deleteRejectedObjects {k : Key} (hk : k ∈ uploadKeys) :
    ∃ q, deleteRejectedObjects = .await q ∧ Owes q k :=
  ⟨_, rfl, hk⟩

theorem not_dead_of_publish {x : Publication} (h : s.applyResult x.patch = some s') : ¬ s'.Dead := by
  obtain ⟨a, -, -, rfl⟩ := applyResult_eq_some h
  intro hd
  have hrejected : (x.patch a).status = .rejected := hd _ rfl
  unfold Publication.patch at hrejected
  split at hrejected <;> cases hrejected

theorem objects_of_delete {k l : Key} (ho : (s.delete k).objects l ≠ none) : l ≠ k ∧ s.objects l ≠ none := by
  rw [objects_delete] at ho
  split at ho
  · exact absurd rfl ho
  · next hne => exact ⟨hne, ho⟩

theorem Handled.of_delete {p : Await} {n : Next} {k l : Key} (hs : s' = s ∨ s' = s.delete l) (hd : s'.Dead)
    (ho : s'.objects k ≠ none) (hp : Owes p k → ∃ q, n = .await q ∧ Owes q k) : Handled s s' p n k := by
  by_cases howes : Owes p k
  · obtain ⟨q, hn, hq⟩ := hp howes
    exact .owed q hn hq
  · rcases hs with rfl | rfl
    · exact .of_same hd ho id howes
    · exact .of_same hd (objects_of_delete ho).2 id howes

theorem mem_derivedKeys {k : Key} (h : k ∈ uploadKeys) : k ∈ derivedKeys := by
  simp only [uploadKeys, List.mem_cons, List.not_mem_nil, or_false] at h
  rcases h with rfl | rfl | rfl <;> decide

theorem not_dead_of_adopt (h : s.adoptLegacyServedKey = some s') : ¬ s'.Dead := by
  unfold Shared.adoptLegacyServedKey at h
  split at h
  · cases h
  next a _ =>
  split at h
  · next hready =>
    obtain rfl := Option.some.inj h
    intro hd
    have hrejected : a.status = .rejected := hd { a with servedKey := some .raw } rfl
    rw [hready.1] at hrejected
    cases hrejected
  · cases h

/-- What a call whose queries succeed leaves under a key, while the row is dead. -/
theorem handled_of_access {p : Await} {n : Next} {i : ℕ} {k : Key} (hd : s'.Dead)
    (hk : (access s p)[i]? = some (s', n)) (hi : Succeeds p i) (hlate : ∀ l e, p ≠ .latePut l e)
    (hkey : k ∈ uploadKeys)
    (ho : s'.objects k ≠ none) : Handled s s' p n k := by
  have howed : (∃ q, n = .await q ∧ Owes q k) → Handled s s' p n k := fun ⟨q, hn, hq⟩ => .owed q hn hq
  cases p with
  | load v | uploadDriftBeforePublish x | loadForReap =>
    obtain rfl : i = 0 := hi
    obtain ⟨rfl, -⟩ := of_read hk
    exact .of_same hd ho id (fun h => h)
  | download v =>
    obtain rfl : i = 0 := hi
    simp only [access] at hk
    have hsame : s' = s := by
      split at hk
      · cases hk
        rfl
      · exact (of_read hk).1
    subst hsame
    exact .of_same hd ho id (fun h => h)
  | put x pending =>
    obtain ⟨l, -, -, rfl⟩ := write_of_flatMap hi hk
    exact howed (owes_afterPut x _ hkey)
  | latePut l e => exact absurd rfl (hlate l e)
  | insertAbuseFlag x =>
    obtain rfl : i = 0 := hi
    obtain ⟨-, rfl⟩ := of_read hk
    exact howed ⟨_, rfl, hkey⟩
  | publish x =>
    obtain rfl : i = 0 := hi
    simp only [access] at hk
    split at hk
    · next t ht =>
      obtain ⟨rfl, -⟩ := of_write hk
      exact absurd hd (not_dead_of_publish ht)
    · obtain ⟨-, rfl⟩ := of_read hk
      exact howed ⟨_, rfl, hkey⟩
  | reject | terminalizeStuck =>
    obtain rfl : i = 0 := hi
    simp only [access] at hk
    split at hk
    · obtain ⟨-, rfl⟩ := of_write hk
      exact howed (owes_deleteRejectedObjects hkey)
    · obtain ⟨rfl, -⟩ := of_read hk
      exact .of_same hd ho id (fun h => h)
  | reread uploaded =>
    obtain rfl : i = 0 := hi
    obtain ⟨rfl, rfl⟩ := of_read hk
    cases uploaded with
    | true =>
      rw [if_pos ⟨rfl, hd⟩]
      exact .owed _ rfl hkey
    | false => exact .of_same hd ho id (fun h => h)
  | reference l keys =>
    obtain rfl : i = 0 := hi
    obtain ⟨rfl, rfl⟩ := of_read hk
    by_cases hp : k ∈ l :: keys
    · exact .owed _ rfl (.inl hp)
    · exact .of_same hd ho id hp
  | delete l keys leaked =>
    rcases cases_of_write (List.mem_of_getElem? hk) with ⟨rfl, rfl⟩ | ⟨hs, rfl⟩
    · refine .of_delete (.inr rfl) hd ho (fun hp => owes_afterDelete (hp.imp_left (fun hmem => ?_)))
      exact (List.mem_cons.mp hmem).resolve_left (objects_of_delete ho).1
    · refine .of_delete hs hd ho (fun hp => owes_afterDelete ?_)
      rcases hp with hp | hp
      · rcases List.mem_cons.mp hp with rfl | hp
        · exact .inr (List.mem_append_right _ (List.mem_singleton_self _))
        · exact .inl hp
      · exact .inr (List.mem_append_left _ hp)
  | record leaked =>
    obtain rfl : i = 0 := hi
    obtain ⟨rfl, -⟩ := of_write hk
    by_cases hp : k ∈ leaked
    · exact .recorded (recorded_of_mem s hp)
    · exact .of_same hd ho recorded_of_recorded hp
  | deleteOrphan =>
    obtain rfl : i = 0 := hi
    simp only [access] at hk
    split at hk
    · obtain ⟨-, rfl⟩ := of_write hk
      exact howed ⟨_, rfl, mem_derivedKeys hkey⟩
    · obtain ⟨rfl, -⟩ := of_read hk
      exact .of_same hd ho id (fun h => h)
  | referenceOfOrphan =>
    obtain rfl : i = 0 := hi
    obtain ⟨-, rfl⟩ := of_read hk
    exact howed ⟨_, rfl, .inl (mem_derivedKeys hkey)⟩
  | deleteObjects pending leaked =>
    obtain ⟨l, -, hmem⟩ := List.mem_flatMap.mp (List.mem_of_getElem? hk)
    rcases cases_of_write hmem with ⟨rfl, rfl⟩ | ⟨hs, rfl⟩
    · refine .of_delete (.inr rfl) hd ho (fun hp => owes_afterDeleteObjects (hp.imp_left (fun hmem => ?_)))
      exact (List.mem_erase_of_ne (objects_of_delete ho).1).mpr hmem
    · refine .of_delete hs hd ho (fun hp => owes_afterDeleteObjects ?_)
      by_cases hkl : k = l
      · exact .inr (List.mem_append_right _ (List.mem_singleton.mpr hkl))
      · exact hp.imp (List.mem_erase_of_ne hkl).mpr (List.mem_append_left _)
  | retryDelete l =>
    rcases cases_of_write (List.mem_of_getElem? hk) with ⟨rfl, rfl⟩ | ⟨hs, rfl⟩
    · exact .of_delete (.inr rfl) hd ho (fun hp => absurd hp (objects_of_delete ho).1)
    · exact .of_delete hs hd ho (fun hp => ⟨_, rfl, hp⟩)
  | retryClear l =>
    obtain rfl : i = 0 := hi
    obtain ⟨rfl, -⟩ := of_write hk
    by_cases hkl : k = l
    · exact .before hd ho (fun h => h) (fun _ => hkl ▸ rfl)
    · refine .of_same hd ho (fun ht => ?_) (fun h => h)
      show Function.update s.tombstones l none k ≠ none
      rw [Function.update_of_ne hkl]
      exact ht
  | retryRecord l =>
    obtain rfl : i = 0 := hi
    obtain ⟨rfl, -⟩ := of_write hk
    by_cases hp : k = l
    · exact .recorded (recorded_of_mem s (List.mem_singleton.mpr hp))
    · exact .of_same hd ho recorded_of_recorded hp
  | adopt =>
    obtain rfl : i = 0 := hi
    simp only [access] at hk
    split at hk
    · next t ht =>
      obtain ⟨rfl, -⟩ := of_write hk
      exact absurd hd (not_dead_of_adopt ht)
    · obtain ⟨rfl, -⟩ := of_read hk
      exact .of_same hd ho id (fun h => h)

/-! ## Runs -/

/-- The call does not leave a put on its way. -/
def Prompt (n : Next) : Prop := ∀ k e, n ≠ .await (.latePut k e)

theorem next_of_write {t : Shared} {ok failed n : Next} (hok : Prompt ok) (hfailed : Prompt failed)
    (h : (s', n) ∈ write s t ok failed) : Prompt n := by
  rcases cases_of_write h with ⟨-, rfl⟩ | ⟨-, rfl⟩
  · exact hok
  · exact hfailed

theorem next_of_read {ok failed n : Next} (hok : Prompt ok) (hfailed : Prompt failed)
    (h : (s', n) ∈ read s ok failed) :
    Prompt n := by
  simp only [read, List.mem_cons, Prod.mk.injEq, List.not_mem_nil, or_false] at h
  rcases h with ⟨-, rfl⟩ | ⟨-, rfl⟩
  · exact hok
  · exact hfailed

theorem prompt_afterDelete (leaked keys : List Key) : Prompt (afterDelete leaked keys) := by
  cases keys with
  | nil =>
    simp only [afterDelete]
    split <;> rintro k e ⟨⟩
  | cons l ls => rintro k e ⟨⟩

theorem prompt_afterDeleteObjects (leaked keys : List Key) : Prompt (afterDeleteObjects leaked keys) := by
  cases keys with
  | nil =>
    simp only [afterDeleteObjects]
    split <;> rintro k e ⟨⟩
  | cons l ls => rintro k e ⟨⟩

theorem prompt_afterPut (x : Publication) (pending : List Key) : Prompt (afterPut x pending) := by
  cases pending with
  | nil =>
    simp only [afterPut]
    split <;> rintro k e ⟨⟩
  | cons l ls => rintro k e ⟨⟩

theorem prompt_afterDownload (uploadEtag e : Etag) (v : Verdict) : Prompt (afterDownload uploadEtag e v) := by
  cases v with
  | tooLarge | rejected => rintro k e ⟨⟩
  | interrupted =>
    simp only [afterDownload]
    split <;> rintro k e ⟨⟩
  | publishes held thumb =>
    simp only [afterDownload]
    split <;> rintro k e ⟨⟩

/-- No put is left on its way while the puts succeed. -/
theorem prompt_of_access {p : Await} {n : Next} {i : ℕ} (hk : (access s p)[i]? = some (s', n))
    (hi : Succeeds p i) : Prompt n := by
  have hmem := List.mem_of_getElem? hk
  have hdone : ∀ r, Prompt (.done r) := by rintro r k e ⟨⟩
  cases p with
  | put x pending =>
    obtain ⟨l, -, -, rfl⟩ := write_of_flatMap hi hk
    exact prompt_afterPut x _
  | load v | uploadDriftBeforePublish x | loadForReap | reread uploaded =>
    refine next_of_read ?_ (hdone _) hmem
    split <;> rintro k e ⟨⟩
  | download v =>
    simp only [access] at hmem
    split at hmem
    · cases List.mem_singleton.mp hmem
      exact hdone _
    · exact next_of_read (prompt_afterDownload _ _ v) (hdone _) hmem
  | insertAbuseFlag x | reference l keys | referenceOfOrphan => exact next_of_read (by rintro k e ⟨⟩) (hdone _) hmem
  | publish x | reject | terminalizeStuck | deleteOrphan | adopt =>
    simp only [access] at hmem
    split at hmem
    · exact next_of_write (by rintro k e ⟨⟩) (hdone _) hmem
    · exact next_of_read (by rintro k e ⟨⟩) (hdone _) hmem
  | latePut l e | record leaked | retryRecord l => exact next_of_write (hdone _) (hdone _) hmem
  | delete l keys leaked => exact next_of_write (prompt_afterDelete _ _) (prompt_afterDelete _ _) hmem
  | deleteObjects pending leaked =>
    obtain ⟨l, -, hmem⟩ := List.mem_flatMap.mp hmem
    exact next_of_write (prompt_afterDeleteObjects _ _) (prompt_afterDeleteObjects _ _) hmem
  | retryDelete l => exact next_of_write (by rintro k e ⟨⟩) (by rintro k e ⟨⟩) hmem
  | retryClear l => exact next_of_write (hdone _) (by rintro k e ⟨⟩) hmem

/-- Under a dead row, an object is recorded or owed by a call in progress. -/
structure Clean (w : World) : Prop where
  sound : Sound w
  prompt : ∀ i c, w.call i = some c → Prompt (.await c.await)
  covered : w.shared.Dead → ∀ k ∈ uploadKeys, w.shared.objects k ≠ none →
    w.shared.tombstones k ≠ none ∨ ∃ i c, w.call i = some c ∧ Owes c.await k

theorem owes_of_owedBeside {i : ℕ} {k : Key} (h : OwedBeside w i k) :
    ∃ j d, j ≠ i ∧ w.call j = some d ∧ Owes d.await k := by
  by_contra hnone
  exact h (fun j _ hj d hd howes => hnone ⟨j, d, hj, hd, howes⟩)

theorem call_of_put {i j : ℕ} {d : InterleavedCalls.Call Request Await} (hj : j ≠ i) (hd : w.call j = some d)
    (x : Option (InterleavedCalls.Call Request Await)) : (w.put s i x).call j = some d := by
  rw [World.call_put_of_ne s hj]
  exact hd

theorem Clean.access {i n : ℕ} {r : Option Result} (h : Clean w) (hok : Undisturbed w (.access i n))
    (hs : machine.step w (.access i n) = some (w', r)) : Clean w' := by
  have hsound := (h.sound.step hs).1
  obtain ⟨c, next, hc, hk, hw'⟩ := Machine.outcome_of_access hs
  have hi : Succeeds c.await n := hok.1 c hc
  refine ⟨hsound, fun j d hd => ?_, fun hdead k hkey ho => ?_⟩
  · rw [hw'] at hd
    rcases World.call_put hd with ⟨-, hx⟩ | ⟨-, hd⟩
    · cases next with
      | await q =>
        cases hx
        exact prompt_of_access hk hi
      | done a => cases hx
    · exact h.prompt j d hd
  · rcases handled_of_access hdead hk hi (fun l e hl => h.prompt i c hc l e (congrArg _ hl)) hkey ho with
      hrecorded | ⟨q, rfl, hq⟩ | ⟨hd, hold, hnot, hclear⟩
    · exact .inl hrecorded
    · refine .inr ⟨i, ⟨c.origin, q⟩, ?_, hq⟩
      rw [hw']
      exact World.call_put_self _ hc _
    · -- The object was there, so that another call owes it or its record is cleared.
      have hother : ∃ j d, j ≠ i ∧ w.call j = some d ∧ Owes d.await k := by
        rcases h.covered hd k hkey hold with hrecorded | ⟨j, d, hd, howes⟩
        · have hspared := hok.2 c hc
          rw [hclear hrecorded] at hspared
          exact owes_of_owedBeside (hspared.resolve_left hold)
        · refine ⟨j, d, ?_, hd, howes⟩
          rintro rfl
          obtain rfl := Option.some.inj (hd.symm.trans hc)
          exact hnot howes
      obtain ⟨j, d, hj, hd, howes⟩ := hother
      refine .inr ⟨j, d, ?_, howes⟩
      rw [hw']
      exact call_of_put hj hd _

theorem Clean.step {m : Move} {r : Option Result} (h : Clean w) (hok : Undisturbed w m)
    (hs : machine.step w m = some (w', r)) : Clean w' := by
  have hsound := (h.sound.step hs).1
  cases m with
  | access i n => exact h.access hok hs
  | crash i => exact absurd hok.1 (fun hf => hf)
  | start o =>
    simp only [Machine.step, Option.map_eq_some_iff, Prod.mk.injEq] at hs
    obtain ⟨⟨t, p⟩, he, rfl, -⟩ := hs
    obtain ⟨rfl, -⟩ := checked_of_enter h.sound.shared he
    have hprompt : Prompt (.await p) := by
      cases o with
      | mediaChecks v | giveUpOnStuck | uploadReap | orphanSweep | adoptLegacyServedKeys =>
        cases he
        rintro k e ⟨⟩
      | retryTombstonedLeak l =>
        simp only [machine, enter] at he
        split at he <;> cases he
        rintro k e ⟨⟩
    refine ⟨hsound, fun j d hd => ?_, fun hdead k hkey ho => ?_⟩
    · rw [World.call_push] at hd
      split at hd
      · cases hd
        exact hprompt
      · exact h.prompt j d hd
    · refine (h.covered hdead k hkey ho).imp_right ?_
      rintro ⟨j, d, hd, howes⟩
      refine ⟨j, d, ?_, howes⟩
      rw [World.call_push, if_neg (Nat.ne_of_lt (World.lt_of_call hd))]
      exact hd
  | environment e =>
    simp only [Machine.step, Option.map_eq_some_iff, Prod.mk.injEq] at hs
    obtain ⟨t, he, rfl, -⟩ := hs
    refine ⟨hsound, h.prompt, ?_⟩
    cases e with
    | clientPut e =>
      cases he
      exact fun hdead => absurd hdead (not_dead_of_validating hok.1)
    | setOrphaned b =>
      cases he
      exact h.covered

theorem clean_finalized (uploadEtag : Etag) (raw : Option Etag) :
    Clean (World.initial (finalized uploadEtag raw)) := by
  refine ⟨sound_finalized uploadEtag raw, fun i c hc => by simp at hc, fun hdead => ?_⟩
  exact absurd hdead (not_dead_of_validating ⟨_, rfl, rfl⟩)

/-- All calls have ended. -/
def Settled (w : World) : Prop := ∀ i, w.call i = none

/-- After a rejection or a deletion every object is gone or recorded, and no key that a ready row serves is
recorded. -/
def NothingLeftBehind (w : World) : Prop :=
  (Settled w → w.shared.Dead → ∀ k ∈ uploadKeys, w.shared.objects k = none ∨ w.shared.tombstones k ≠ none) ∧
    ∀ a ∈ w.shared.row, a.status = .ready → ∀ k, w.shared.tombstones k ≠ none → k = .raw ∧ a.servedKey ≠ some .raw

/-- In every run in which nothing fails but deletions, and in which the record of a key is cleared only while
there is no object under it or another call owes it, nothing is left behind. -/
theorem nothing_left_behind (uploadEtag : Etag) (raw : Option Etag) (w : World)
    (h : Machine.Run machine Undisturbed (World.initial (finalized uploadEtag raw)) w) : NothingLeftBehind w := by
  have hclean : Clean w := h.invariant (clean_finalized uploadEtag raw) (fun hw hok hs => hw.step hok hs)
  refine ⟨fun hsettled hdead k hk => ?_, fun a ha hready k hk => ?_⟩
  · refine Decidable.or_iff_not_imp_left.mpr (fun ho => ?_)
    refine (hclean.covered hdead k hk ho).resolve_right ?_
    rintro ⟨i, c, hc, -⟩
    rw [hsettled i] at hc
    cases hc
  · have hserved := (hclean.sound.shared.published a ha (.inl hready)).1
    rcases hclean.sound.shared.leaked k hk with rfl | hdead
    · exact ⟨rfl, by rw [hserved]; rintro ⟨⟩⟩
    · have hrejected := hdead a ha
      rw [hready] at hrejected
      cases hrejected

/-! ## A retry that clears too much -/

/-- A run is about to publish when the stuck sweep gives up, whose deletion of the served object fails. -/
def gaveUp : List Move :=
  (.start (.mediaChecks (.publishes false false)) : Move) :: List.replicate 3 (.access 0 0 : Move) ++
    [(.start .giveUpOnStuck : Move), .access 1 0, .access 1 0, .access 1 0, .access 1 1, .access 1 0, .access 1 0,
      .start (.retryTombstonedLeak .served), .access 2 0]

/-- The run puts the served object, finds the row rejected and fails to delete it. -/
def cleanedUpAfter : List Move :=
  List.replicate 5 (.access 0 0 : Move) ++ [(.access 0 1 : Move), .access 0 0, .access 0 0]

/-- The retry has deleted the object that was recorded, and clears the record of the one put since. -/
theorem retry_clears_later_leak :
    ¬ ∀ (uploadEtag : Etag) (raw : Option Etag) (w : World),
      Machine.Run machine Calm (World.initial (finalized uploadEtag raw)) w → NothingLeftBehind w := by
  intro hall
  have hruns : (machine.perform (World.initial (finalized 7 (some 7)))
    (gaveUp ++ cleanedUpAfter ++ [.access 2 0])).any
      (fun w => decide ((∀ x ∈ w.calls, x = none) ∧ w.shared.Dead ∧ w.shared.objects .served = some 7 ∧
        w.shared.tombstones .served = none)) = true := by decide +kernel
  obtain ⟨w, hw, hP⟩ := (Option.any_eq_true _ _).mp hruns
  obtain ⟨hcalls, hdead, hobject, hcleared⟩ := of_decide_eq_true hP
  have hleft := (hall 7 (some 7) w (Machine.run_of_perform (by decide +kernel) hw)).1
    (World.call_eq_none hcalls) hdead .served
    (by decide)
  rcases hleft with hgone | hrecorded
  · rw [hobject] at hgone
    cases hgone
  · exact hrecorded hcleared

/-- The retry clears the record before the object is put again, and the later leak is recorded anew. -/
theorem later_leak_is_recorded : ∃ w : World, Settled w ∧ w.shared.Dead ∧ w.shared.objects .served = some 7 ∧
    w.shared.tombstones .served = some 1 ∧ NothingLeftBehind w := by
  have hruns : (machine.perform (World.initial (finalized 7 (some 7)))
    (gaveUp ++ [.access 2 0] ++ cleanedUpAfter)).any
      (fun w => decide ((∀ x ∈ w.calls, x = none) ∧ w.shared.Dead ∧ w.shared.objects .served = some 7 ∧
        w.shared.tombstones .served = some 1)) = true := by decide +kernel
  obtain ⟨w, hw, hP⟩ := (Option.any_eq_true _ _).mp hruns
  obtain ⟨hcalls, hdead, hobject, hrecorded⟩ := of_decide_eq_true hP
  exact ⟨w, World.call_eq_none hcalls, hdead, hobject, hrecorded,
    nothing_left_behind 7 (some 7) w (Machine.run_of_perform (by decide +kernel) hw)⟩

end Civfix.MediaChecks
