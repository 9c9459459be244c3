import Civfix.InboundObjects
import Mathlib.Data.List.Nodup

/-! # Inbound mail is not lost

The pending object of a mail goes last, so each arrived mail is pending or accounted for. All runs on one mail write to
one folder, and only a run on a mail whose message id is taken deletes from its folder, so the row that took it keeps
its objects as long as it is there. -/
namespace Civfix.InboundObjects

open InterleavedCalls

variable {box : Mailbox} {s s' : Shared} {w w' : World} {p q : Await} {n : Next} {job : Job} {t t' : Table}
  {k : AttachmentKey} {m : MessageId} {row : Row} {todo ks : List AttachmentKey} {key : ObjectKey} {raw : Raw}

/-! ## Attachments and rows -/

theorem folder_of_streamed {folder : Folder} {count total : ℕ} {as : List Attachment}
    (h : k ∈ streamed folder count total as) : k.folder = folder := by
  induction as generalizing count total with
  | nil => cases h
  | cons a as ih =>
    simp only [streamed] at h
    split at h
    · exact ih h
    · split at h
      · exact ih h
      · split at h
        · exact ih h
        · split at h
          · exact ih h
          · split at h
            · exact ih h
            · rcases List.mem_cons.mp h with rfl | h
              · rfl
              · exact ih h

theorem Job.folder_eq (h : k ∈ job.attachments box) : k.folder = job.folder := folder_of_streamed h

theorem Job.table_eq {job' : Job} (h : job.folder = job'.folder) : job.table = job'.table := by
  simp only [Job.table, h]

theorem Job.messageId_eq {job' : Job} (h : job.folder = job'.folder) : job.messageId box = job'.messageId box := by
  simp only [Job.messageId, h]

theorem of_find?_decide {α : Type} {P : α → Prop} [DecidablePred P] {l : List α} {x : α}
    (h : l.find? (fun y => decide (P y)) = some x) : x ∈ l ∧ P x := by
  have htrue := List.find?_some h
  exact ⟨List.mem_of_find?_eq_some h, of_decide_eq_true htrue⟩

theorem mem_of_find (h : s.find t m = some row) : row ∈ s.rows t ∧ row.messageId = m := of_find?_decide h

theorem ne_of_find_none (h : s.find t m = none) : ∀ row ∈ s.rows t, row.messageId ≠ m := by
  intro row hrow
  have hnone := List.find?_eq_none.mp h row hrow
  simpa using hnone

theorem mem_of_get {id : RowId} (h : s.get id = some row) : row ∈ s.rows .inboundEmails ∧ row.id = id :=
  of_find?_decide h

theorem rows_insert (s : Shared) (t t' : Table) (m : MessageId) (ks : List AttachmentKey) :
    (s.insert t m ks).rows t' = if t' = t then s.rows t' ++ [⟨s.next, m, ks⟩] else s.rows t' := by
  simp only [Shared.insert]
  split
  · next heq =>
    subst heq
    rw [Function.update_self]
  · next hne => rw [Function.update_of_ne hne]

theorem mem_rows_insert (h : row ∈ (s.insert t m ks).rows t') :
    row ∈ s.rows t' ∨ t' = t ∧ row = ⟨s.next, m, ks⟩ := by
  rw [rows_insert] at h
  split at h
  · next heq =>
    rcases List.mem_append.mp h with h | h
    · exact .inl h
    · exact .inr ⟨heq, List.mem_singleton.mp h⟩
  · exact .inl h

theorem mem_rows_of_insert (h : row ∈ s.rows t') : row ∈ (s.insert t m ks).rows t' := by
  rw [rows_insert]
  split
  · exact List.mem_append_left _ h
  · exact h

theorem rows_reap (s : Shared) (id : RowId) (t : Table) :
    ((s.reap id).rows t).Sublist (s.rows t) := by
  simp only [Shared.reap]
  by_cases heq : t = .inboundEmails
  · subst heq
    rw [Function.update_self]
    exact List.filter_sublist
  · rw [Function.update_of_ne heq]

theorem mem_rows_of_reap {id : RowId} (h : row ∈ s.rows t) (hne : t = .inboundEmails → row.id ≠ id) :
    row ∈ (s.reap id).rows t := by
  simp only [Shared.reap]
  by_cases heq : t = .inboundEmails
  · subst heq
    rw [Function.update_self]
    exact List.mem_filter.mpr ⟨h, decide_eq_true (hne rfl)⟩
  · rw [Function.update_of_ne heq]
    exact h

/-! ## Consistent states -/

variable (box) in
/-- The message id of the mail has had a row, its bytes are kept as failed, or it is our own outbound mail. -/
def Accounted (s : Shared) (x : ObjectKey × Raw) : Prop :=
  (box.mail x.2).messageId ∈ s.stored ∨ x ∈ s.failed ∨
    (box.mail x.2).isBounce = false ∧ (box.mail x.2).isSelfOriginated = true

/-- The object exists, or retention has removed it. -/
def Backed (s : Shared) (k : AttachmentKey) : Prop := k ∈ s.objects ∨ k ∈ s.removed

variable (box) in
/-- A row has the message id of the mail. -/
def Taken (s : Shared) (job : Job) : Prop := ∃ row ∈ s.rows job.table, row.messageId = job.messageId box

variable (box) in
structure Consistent (s : Shared) : Prop where
  functional : ∀ x ∈ s.arrived, ∀ y ∈ s.arrived, x.1 = y.1 → x = y
  pending : ∀ x ∈ s.pending, x ∈ s.arrived
  accounted : ∀ x ∈ s.arrived, (∀ y ∈ s.pending, y.1 ≠ x.1) → Accounted box s x
  ids : ∀ t, ∀ row ∈ s.rows t, row.id < s.next
  oneId : ∀ t, ((s.rows t).map Row.id).Nodup
  single : ∀ t, ((s.rows t).map Row.messageId).Nodup
  stored : ∀ t, ∀ row ∈ s.rows t, row.messageId ∈ s.stored
  folders : ∀ t, ∀ row ∈ s.rows t, ∀ k ∈ row.attachments, ∀ job : Job, job.folder = k.folder →
    job.table = t ∧ job.messageId box = row.messageId
  backed : ∀ t, ∀ row ∈ s.rows t, ∀ k ∈ row.attachments, Backed s k

variable (box) in
/-- The attachments of the mail are stored but for those still to do, or the row is going to conflict. -/
def Stores (s : Shared) (job : Job) (todo : List AttachmentKey) : Prop :=
  (∀ k ∈ job.attachments box, k ∈ todo ∨ Backed s k) ∨ Taken box s job

variable (box) in
/-- A row has the message id of the mail, and does not list these of its attachments. -/
def Discards (s : Shared) (job : Job) (ks : List AttachmentKey) : Prop :=
  ∃ row ∈ s.rows job.table, row.messageId = job.messageId box ∧ ∀ k ∈ ks, k ∈ job.attachments box ∧ k ∉ row.attachments

def Job.source (job : Job) : ObjectKey × Raw := (job.key, job.folder.raw)

variable (box) in
def Pending (s : Shared) : Await → Prop
  | .getObject _ _ | .clearParked _ => True
  | .parse key raw _ | .correlateThread key raw _ | .putFailed key raw _ => (key, raw) ∈ s.arrived
  | .findExisting job => job.source ∈ s.arrived
  | .put job todo => job.source ∈ s.arrived ∧ Stores box s job todo
  | .insert job => job.source ∈ s.arrived ∧ Stores box s job []
  | .findStored job => job.source ∈ s.arrived ∧ Taken box s job
  | .get job id => job.source ∈ s.arrived ∧ job.folder.thread = none ∧
      ∃ row ∈ s.rows .inboundEmails, row.id = id ∧ row.messageId = job.messageId box
  | .discard job ks => job.source ∈ s.arrived ∧ Discards box s job ks
  | .settle job _ _ => job.source ∈ s.arrived ∧ Accounted box s job.source
  | .deletePending key raw _ _ => (key, raw) ∈ s.arrived ∧ Accounted box s (key, raw)

variable (box) in
def PendingNext (s : Shared) : Next → Prop
  | .await q => Pending box s q
  | .done _ => True

theorem Discards.taken (h : Discards box s job ks) : Taken box s job := by
  obtain ⟨row, hrow, hm, -⟩ := h
  exact ⟨row, hrow, hm⟩

theorem Consistent.accounted_of_taken (h : Consistent box s) (htaken : Taken box s job) :
    Accounted box s job.source := by
  obtain ⟨row, hrow, hm⟩ := htaken
  refine .inl ?_
  change job.messageId box ∈ s.stored
  exact hm ▸ h.stored _ row hrow

theorem Consistent.not_listed (h : Consistent box s) (hdiscards : Discards box s job ks) (hk : k ∈ ks) :
    ∀ t, ∀ row ∈ s.rows t, k ∉ row.attachments := by
  intro t row hrow hlisted
  obtain ⟨taken, htaken, hm, hks⟩ := hdiscards
  obtain ⟨hattached, hnot⟩ := hks k hk
  obtain ⟨rfl, hid⟩ := h.folders t row hrow k hlisted job (Job.folder_eq hattached).symm
  obtain rfl := List.inj_on_of_nodup_map (h.single job.table) hrow htaken (hid.symm.trans hm.symm)
  exact hnot hlisted

/-! ## What an access does -/

inductive Effect (box : Mailbox) (s : Shared) : Await → Shared → Prop where
  | none (p : Await) : Effect box s p s
  | bounces (p : Await) (keys : List ObjectKey) : Effect box s p { s with bounceFailures := keys }
  | put (job : Job) (k : AttachmentKey) (todo : List AttachmentKey) : Effect box s (.put job (k :: todo)) (s.put k)
  | insert (job : Job) (hnone : s.find job.table (job.messageId box) = none) :
    Effect box s (.insert job) (s.insert job.table (job.messageId box) (job.attachments box))
  | delete (job : Job) (k : AttachmentKey) (ks : List AttachmentKey) :
    Effect box s (.discard job (k :: ks)) (s.delete k)
  | copyFailed (key : ObjectKey) (raw : Raw) (parked : Bool) :
    Effect box s (.putFailed key raw parked) (s.copyFailed key raw)
  | deletePending (key : ObjectKey) (raw : Raw) (outcome : ProcessOutcome) (parked : Bool) :
    Effect box s (.deletePending key raw outcome parked) (s.deletePending key)

theorem effect_of_serve (box : Mailbox) (s : Shared) (p : Await) : Effect box s p (serve box s p).1 := by
  cases p with
  | getObject key thread =>
    simp only [serve]
    split
    · exact .none _
    · split <;> exact .none _
  | parse key raw thread =>
    simp only [serve]
    split
    · exact .none _
    · split <;> exact .none _
  | correlateThread key raw thread => cases thread <;> exact .none _
  | findExisting job =>
    simp only [serve]
    split <;> exact .none _
  | put job todo =>
    cases todo with
    | nil => exact .none _
    | cons k todo => exact .put job k todo
  | insert job =>
    simp only [serve]
    split
    · exact .none _
    · next hnone => exact .insert job (not_not.mp hnone)
  | findStored job =>
    simp only [serve]
    split <;> exact .none _
  | get job id => exact .none _
  | discard job ks =>
    cases ks with
    | nil => exact .none _
    | cons k ks => exact .delete job k ks
  | settle job step outcome =>
    cases step with
    | handleBounce | recordEvent | applyInboundEffects | correlateFilingsInbox => exact .none _
    | recordBounceFailure => exact .bounces _ _
    | clearBounceFailures => exact .bounces _ _
  | putFailed key raw parked => exact .copyFailed key raw parked
  | deletePending key raw outcome parked => exact .deletePending key raw outcome parked
  | clearParked key => exact .bounces _ _

theorem effect_of_access (h : (s', n) ∈ access box s p) :
    Effect box s p s' ∧ ((s', n) = serve box s p ∨ n = thrown p) := by
  simp only [access, List.mem_cons, List.not_mem_nil, or_false, Prod.mk.injEq] at h
  rcases h with h | ⟨rfl, rfl⟩ | ⟨rfl, rfl⟩
  · have heq : s' = (serve box s p).1 := congrArg Prod.fst h
    exact ⟨heq ▸ effect_of_serve box s p, .inl h⟩
  · exact ⟨.none p, .inr rfl⟩
  · exact ⟨effect_of_serve box s p, .inr rfl⟩

/-- Nothing that accounts for a mail is forgotten. -/
structure Grows (s s' : Shared) : Prop where
  arrived : ∀ x ∈ s.arrived, x ∈ s'.arrived
  failed : ∀ x ∈ s.failed, x ∈ s'.failed
  stored : ∀ m ∈ s.stored, m ∈ s'.stored

theorem Accounted.grows {x : ObjectKey × Raw} (h : Accounted box s x) (hg : Grows s s') : Accounted box s' x := by
  rcases h with h | h | h
  · exact .inl (hg.stored _ h)
  · exact .inr (.inl (hg.failed _ h))
  · exact .inr (.inr h)

theorem grows_insert (s : Shared) (t : Table) (m : MessageId) (ks : List AttachmentKey) : Grows s (s.insert t m ks) :=
  ⟨fun _ h => h, fun _ h => h, fun _ h => List.mem_cons_of_mem _ h⟩

theorem Effect.grows (he : Effect box s p s') : Grows s s' := by
  cases he with
  | insert job hnone => exact grows_insert s _ _ _
  | copyFailed key raw parked => exact ⟨fun _ h => h, fun _ h => List.mem_cons_of_mem _ h, fun _ h => h⟩
  | _ => exact ⟨fun _ h => h, fun _ h => h, fun _ h => h⟩

theorem Effect.rows (he : Effect box s p s') : ∀ t, ∀ row ∈ s.rows t, row ∈ s'.rows t := by
  intro t row hrow
  cases he with
  | insert job hnone => exact mem_rows_of_insert hrow
  | _ => exact hrow

theorem Backed.put (h : Backed s k) (k' : AttachmentKey) : Backed (s.put k') k := by
  by_cases heq : k = k'
  · exact .inl (heq ▸ List.mem_cons_self)
  · rcases h with h | h
    · exact .inl (List.mem_cons_of_mem _ h)
    · exact .inr (List.mem_filter.mpr ⟨h, decide_eq_true heq⟩)

theorem Backed.delete {k' : AttachmentKey} (h : Backed s k) (hne : k ≠ k') : Backed (s.delete k') k := by
  rcases h with h | h
  · exact .inl (List.mem_filter.mpr ⟨h, decide_eq_true hne⟩)
  · exact .inr h

theorem Backed.retire (h : Backed s k) (k' : AttachmentKey) : Backed (s.retire k') k := by
  by_cases heq : k = k'
  · exact .inr (heq ▸ List.mem_cons_self)
  · rcases h with h | h
    · exact .inl (List.mem_filter.mpr ⟨h, decide_eq_true heq⟩)
    · exact .inr (List.mem_cons_of_mem _ h)

/-- An object is deleted in a folder whose message id is taken. -/
theorem Effect.backed (he : Effect box s p s') (hp : Pending box s p) (hfolder : k.folder = job.folder)
    (h : Backed s k) : Backed s' k ∨ Taken box s job := by
  cases he with
  | put job' k' todo => exact .inl (h.put k')
  | delete job' k' ks =>
    by_cases heq : k = k'
    · subst heq
      obtain ⟨row, hrow, hm, hks⟩ := hp.2
      have hsame : job'.folder = job.folder := (Job.folder_eq (hks k List.mem_cons_self).1).symm.trans hfolder
      exact .inr ⟨row, Job.table_eq hsame ▸ hrow, hm.trans (Job.messageId_eq hsame)⟩
    · exact .inl (h.delete heq)
  | _ => exact .inl h

/-- A row that differs from all others is added. -/
theorem Consistent.insert (h : Consistent box s) (hnone : ∀ row ∈ s.rows t, row.messageId ≠ m)
    (hfolders : ∀ k ∈ ks, ∀ job : Job, job.folder = k.folder → job.table = t ∧ job.messageId box = m)
    (hks : ∀ k ∈ ks, Backed s k) : Consistent box (s.insert t m ks) := by
  have hg := grows_insert s t m ks
  refine ⟨h.functional, h.pending, fun x hx hgone => (h.accounted x hx hgone).grows hg, fun t' row hrow => ?_,
    fun t' => ?_, fun t' => ?_, fun t' row hrow => ?_, fun t' row hrow => ?_, fun t' row hrow => ?_⟩
  · rcases mem_rows_insert hrow with hrow | ⟨-, rfl⟩
    · exact Nat.lt_succ_of_lt (h.ids t' row hrow)
    · exact Nat.lt_succ_self _
  · rw [rows_insert]
    split
    · exact nodup_map_concat (h.oneId t') fun old hold => Nat.ne_of_lt (h.ids t' old hold)
    · exact h.oneId t'
  · rw [rows_insert]
    split
    · next heq =>
      subst heq
      exact nodup_map_concat (h.single t') hnone
    · exact h.single t'
  · rcases mem_rows_insert hrow with hrow | ⟨-, rfl⟩
    · exact List.mem_cons_of_mem _ (h.stored t' row hrow)
    · exact List.mem_cons_self
  · rcases mem_rows_insert hrow with hrow | ⟨rfl, rfl⟩
    · exact h.folders t' row hrow
    · exact hfolders
  · rcases mem_rows_insert hrow with hrow | ⟨-, rfl⟩
    · exact h.backed t' row hrow
    · exact hks

/-- Rows are kept or removed, and the objects that the kept ones list are kept. -/
theorem Consistent.keeps (h : Consistent box s) (harrived : s'.arrived = s.arrived) (hpending : s'.pending = s.pending)
    (hfailed : s'.failed = s.failed) (hstored : s'.stored = s.stored) (hnext : s'.next = s.next)
    (hrows : ∀ t, (s'.rows t).Sublist (s.rows t))
    (hbacked : ∀ t, ∀ row ∈ s.rows t, ∀ k ∈ row.attachments, Backed s k → Backed s' k) : Consistent box s' := by
  have hg : Grows s s' := ⟨fun _ hx => harrived ▸ hx, fun _ hx => hfailed ▸ hx, fun _ hm => hstored ▸ hm⟩
  refine ⟨harrived ▸ h.functional, harrived ▸ hpending ▸ h.pending, fun x hx hgone => ?_, fun t row hrow => ?_,
    fun t => (h.oneId t).sublist ((hrows t).map _), fun t => (h.single t).sublist ((hrows t).map _),
    fun t row hrow => hstored ▸ h.stored t row ((hrows t).subset hrow),
    fun t row hrow => h.folders t row ((hrows t).subset hrow), fun t row hrow k hk => ?_⟩
  · exact (h.accounted x (harrived ▸ hx) (hpending ▸ hgone)).grows hg
  · exact hnext ▸ h.ids t row ((hrows t).subset hrow)
  · exact hbacked t row ((hrows t).subset hrow) k hk (h.backed t row ((hrows t).subset hrow) k hk)

theorem Effect.consistent (he : Effect box s p s') (h : Consistent box s) (hp : Pending box s p) : Consistent box s' := by
  cases he with
  | none => exact h
  | bounces p keys =>
    exact h.keeps rfl rfl rfl rfl rfl (fun _ => List.Sublist.refl _) (fun _ _ _ _ _ hbacked => hbacked)
  | put job k todo =>
    exact h.keeps rfl rfl rfl rfl rfl (fun _ => List.Sublist.refl _) (fun _ _ _ _ _ hbacked => hbacked.put k)
  | insert job hnone =>
    have hnone' := ne_of_find_none hnone
    refine h.insert hnone' (fun k hk job' hfolder => ?_) (fun k hk => ?_)
    · have hsame : job'.folder = job.folder := hfolder.trans (Job.folder_eq hk)
      exact ⟨Job.table_eq hsame, Job.messageId_eq hsame⟩
    · rcases hp.2 with hstores | ⟨row, hrow, hm⟩
      · exact (hstores k hk).resolve_left List.not_mem_nil
      · exact absurd hm (hnone' row hrow)
  | delete job k ks =>
    have hnot := h.not_listed hp.2 List.mem_cons_self
    refine h.keeps rfl rfl rfl rfl rfl (fun _ => List.Sublist.refl _) (fun t row hrow k' hk' hbacked => ?_)
    exact hbacked.delete fun heq => hnot t row hrow (heq ▸ hk')
  | copyFailed key raw parked =>
    have heffect : Effect box s (.putFailed key raw parked) (s.copyFailed key raw) := .copyFailed key raw parked
    have hg : Grows s (s.copyFailed key raw) := heffect.grows
    exact ⟨h.functional, h.pending, fun x hx hgone => (h.accounted x hx hgone).grows hg, h.ids, h.oneId, h.single,
      h.stored, h.folders, h.backed⟩
  | deletePending key raw outcome parked =>
    refine ⟨h.functional, fun x hx => h.pending x (List.mem_of_mem_filter hx), fun x hx hgone => ?_, h.ids, h.oneId,
      h.single, h.stored, h.folders, h.backed⟩
    by_cases heq : x.1 = key
    · cases h.functional x hx (key, raw) hp.1 heq
      exact hp.2
    · refine h.accounted x hx fun y hy hsame => hgone y (List.mem_filter.mpr ⟨hy, decide_eq_true ?_⟩) hsame
      exact fun hkey => heq (hsame.symm.trans hkey)

/-! ## What a run relies on -/

theorem pending_putNext (harrived : job.source ∈ s.arrived) (h : Stores box s job todo) :
    PendingNext box s (putNext job todo) := by
  simp only [putNext]
  split
  · next hnil => exact ⟨harrived, hnil ▸ h⟩
  · exact ⟨harrived, h⟩

theorem stores_all (job : Job) : Stores box s job (job.attachments box) := .inl fun _ hk => .inl hk

theorem pending_storedNext (harrived : job.source ∈ s.arrived) (h : Accounted box s job.source) (inserted : Bool) :
    PendingNext box s (storedNext box job inserted) := by
  simp only [storedNext]
  split <;> exact ⟨harrived, h⟩

theorem pending_discardNext (hs : Consistent box s) (harrived : job.source ∈ s.arrived) (h : Discards box s job ks) :
    PendingNext box s (discardNext box job ks) := by
  simp only [discardNext]
  split
  · exact pending_storedNext harrived (hs.accounted_of_taken h.taken) false
  · exact ⟨harrived, h⟩

theorem discards_orphans (hrow : row ∈ s.rows job.table) (hm : row.messageId = job.messageId box) :
    Discards box s job (orphans box job (some row)) := by
  refine ⟨row, hrow, hm, fun k hk => ?_⟩
  simp only [orphans, List.mem_dedup, List.mem_filter, Option.elim_some] at hk
  exact ⟨hk.1, of_decide_eq_true hk.2⟩

/-- What the run relies on next, when the access has served it. -/
theorem pending_of_serve (hs : Consistent box s) (hp : Pending box s p) :
    PendingNext box (serve box s p).1 (serve box s p).2 := by
  cases p with
  | getObject key thread =>
    simp only [serve]
    split
    · trivial
    · next x hx =>
      obtain ⟨hmem, rfl⟩ := of_find?_decide hx
      have hmem : (x.1, x.2) ∈ s.arrived := hs.pending x hmem
      split <;> exact hmem
  | parse key raw thread =>
    simp only [serve]
    split
    · exact pending_putNext hp (stores_all _)
    · next hbounce =>
      split
      · next hself => exact ⟨hp, .inr (.inr ⟨Bool.eq_false_iff.mpr hbounce, hself⟩)⟩
      · exact hp
  | correlateThread key raw thread =>
    cases thread with
    | none => exact pending_putNext hp (stores_all _)
    | some t => exact hp
  | findExisting job =>
    simp only [serve]
    split
    · next hsome =>
      obtain ⟨row, hrow⟩ := Option.ne_none_iff_exists'.mp hsome
      obtain ⟨hmem, hm⟩ := mem_of_find hrow
      refine pending_storedNext hp (.inl ?_) false
      change job.messageId box ∈ s.stored
      exact hm ▸ hs.stored _ row hmem
    · exact pending_putNext hp (stores_all _)
  | put job todo =>
    cases todo with
    | nil => exact hp
    | cons k todo =>
      refine pending_putNext (s := s.put k) hp.1 ?_
      rcases hp.2 with hstores | htaken
      · refine .inl fun k' hk' => ?_
        rcases hstores k' hk' with hmem | hbacked
        · rcases List.mem_cons.mp hmem with rfl | hmem
          · exact .inr (.inl List.mem_cons_self)
          · exact .inl hmem
        · exact .inr (hbacked.put k)
      · exact .inr htaken
  | insert job =>
    simp only [serve]
    split
    · next hsome =>
      obtain ⟨row, hrow⟩ := Option.ne_none_iff_exists'.mp hsome
      exact ⟨hp.1, row, mem_of_find hrow⟩
    · exact pending_storedNext (s := s.insert _ _ _) hp.1 (.inl List.mem_cons_self) true
  | findStored job =>
    obtain ⟨harrived, taken, htaken, hm⟩ := hp
    simp only [serve]
    split
    · next thread hthread =>
      cases hfind : s.find job.table (job.messageId box) with
      | none => exact absurd hm (ne_of_find_none hfind taken htaken)
      | some row =>
        obtain ⟨hrow, hm'⟩ := mem_of_find hfind
        exact pending_discardNext hs harrived (discards_orphans hrow hm')
    · trivial
    · next row hthread hfind =>
      obtain ⟨hrow, hm'⟩ := mem_of_find hfind
      have htable : job.table = .inboundEmails := if_pos hthread
      exact ⟨harrived, hthread, row, htable ▸ hrow, rfl, hm'⟩
  | get job id =>
    obtain ⟨harrived, hthread, taken, htaken, hid, hm⟩ := hp
    have htable : job.table = .inboundEmails := if_pos hthread
    simp only [serve]
    cases hget : s.get id with
    | none =>
      have hnone := List.find?_eq_none.mp hget taken htaken
      exact absurd (decide_eq_true hid) hnone
    | some row =>
      obtain ⟨hrow, hid'⟩ := mem_of_get hget
      obtain rfl := List.inj_on_of_nodup_map (hs.oneId .inboundEmails) hrow htaken (hid'.trans hid.symm)
      exact pending_discardNext hs harrived (discards_orphans (htable ▸ hrow) hm)
  | discard job ks =>
    cases ks with
    | nil => exact pending_storedNext hp.1 (hs.accounted_of_taken hp.2.taken) false
    | cons k ks =>
      have hdelete : Consistent box (s.delete k) := (Effect.delete job k ks).consistent hs hp
      obtain ⟨row, hrow, hm, hks⟩ := hp.2
      exact pending_discardNext hdelete hp.1 ⟨row, hrow, hm, fun k' hk' => hks k' (List.mem_cons_of_mem _ hk')⟩
  | settle job step outcome =>
    cases step with
    | recordBounceFailure =>
      simp only [serve, settle]
      split
      · trivial
      · exact hp.1
    | handleBounce | clearBounceFailures | recordEvent | applyInboundEffects | correlateFilingsInbox => exact hp
  | putFailed key raw parked => exact ⟨hp, .inr (.inl List.mem_cons_self)⟩
  | deletePending key raw outcome parked =>
    simp only [serve]
    split <;> trivial
  | clearParked key => trivial

theorem pending_of_thrown (hp : Pending box s p) (hg : Grows s s') : PendingNext box s' (thrown p) := by
  cases p with
  | parse key raw thread => exact hg.arrived _ hp
  | settle job step outcome =>
    cases step with
    | handleBounce | applyInboundEffects => exact ⟨hg.arrived _ hp.1, hp.2.grows hg⟩
    | recordBounceFailure | clearBounceFailures | recordEvent | correlateFilingsInbox => trivial
  | _ => trivial

/-- The mail whose attachments a run is storing or discarding. -/
def Await.attaching : Await → Option Job
  | .put job _ | .insert job | .findStored job | .get job _ | .discard job _ => some job
  | _ => none

/-- What a run relies on is kept, if the row that took its message id stays. -/
theorem Pending.keeps (h : Pending box s q) (hg : Grows s s')
    (hrows : ∀ job, q.attaching = some job → ∀ row ∈ s.rows job.table, row.messageId = job.messageId box →
      row ∈ s'.rows job.table)
    (hbacked : ∀ job k, k.folder = job.folder → Backed s k → Backed s' k ∨ Taken box s job) : Pending box s' q := by
  have htaken : ∀ job, q.attaching = some job → Taken box s job → Taken box s' job := by
    rintro job hjob ⟨row, hrow, hm⟩
    exact ⟨row, hrows job hjob row hrow hm, hm⟩
  have hstores : ∀ job todo, q.attaching = some job → Stores box s job todo → Stores box s' job todo := by
    intro job todo hjob hstores
    by_cases hyes : Taken box s job
    · exact .inr (htaken job hjob hyes)
    · refine .inl fun k hk => ?_
      rcases (hstores.resolve_right hyes) k hk with hmem | hback
      · exact .inl hmem
      · exact .inr ((hbacked job k (Job.folder_eq hk) hback).resolve_right hyes)
  cases q with
  | getObject | clearParked => trivial
  | parse | correlateThread | putFailed | findExisting => exact hg.arrived _ h
  | put job todo => exact ⟨hg.arrived _ h.1, hstores job todo rfl h.2⟩
  | insert job => exact ⟨hg.arrived _ h.1, hstores job [] rfl h.2⟩
  | findStored job => exact ⟨hg.arrived _ h.1, htaken job rfl h.2⟩
  | get job id =>
    obtain ⟨harrived, hthread, row, hrow, hid, hm⟩ := h
    have htable : job.table = .inboundEmails := if_pos hthread
    exact ⟨hg.arrived _ harrived, hthread, row, htable ▸ hrows job rfl row (htable ▸ hrow) hm, hid, hm⟩
  | discard job ks =>
    obtain ⟨harrived, row, hrow, hm, hks⟩ := h
    exact ⟨hg.arrived _ harrived, row, hrows job rfl row hrow hm, hm, hks⟩
  | settle => exact ⟨hg.arrived _ h.1, h.2.grows hg⟩
  | deletePending => exact ⟨hg.arrived _ h.1, h.2.grows hg⟩

/-! ## Runs -/

variable (box) in
def Sound (w : World) : Prop := Machine.Holds (Consistent box) (fun s _ c => Pending box s c.await) w

theorem Consistent.arrive (h : Consistent box s) (hnew : ∀ x ∈ s.arrived, x.1 ≠ key) :
    Consistent box (s.arrive key raw) := by
  refine ⟨fun x hx y hy hkey => ?_, fun x hx => ?_, fun x hx hgone => ?_, h.ids, h.oneId, h.single, h.stored,
    h.folders, h.backed⟩
  · rcases List.mem_cons.mp hx with rfl | hx <;> rcases List.mem_cons.mp hy with rfl | hy
    · rfl
    · exact absurd hkey.symm (hnew y hy)
    · exact absurd hkey (hnew x hx)
    · exact h.functional x hx y hy hkey
  · rcases List.mem_cons.mp hx with rfl | hx
    · exact List.mem_cons_self
    · exact List.mem_cons_of_mem _ (h.pending x hx)
  · rcases List.mem_cons.mp hx with rfl | hx
    · exact absurd rfl (hgone _ List.mem_cons_self)
    · exact h.accounted x hx fun y hy => hgone y (List.mem_cons_of_mem _ hy)

/-- The row that took the message id of a mail in the inbox stays while the mail is stored. -/
theorem row_stays {id : RowId} (hok : Undisturbed box w (.environment (.reaps id))) {i : ℕ} {c : Call Request Await}
    (hc : w.call i = some c) (hjob : c.await.attaching = some job) (hrow : row ∈ w.shared.rows job.table)
    (hm : row.messageId = job.messageId box) : row ∈ (w.shared.reap id).rows job.table := by
  refine mem_rows_of_reap hrow fun htable hid => ?_
  have hthread : job.folder.thread = none := by
    by_contra hsome
    rw [Job.table, if_neg hsome] at htable
    cases htable
  have hstoring : job ∈ c.await.storing := by
    generalize c.await = p at hjob
    cases p with
    | put | insert | findStored | get | discard =>
      cases hjob
      exact Option.mem_def.mpr (if_pos hthread)
    | getObject | parse | correlateThread | findExisting | settle | putFailed | deletePending | clearParked => cases hjob
  exact hok row (htable ▸ hrow) hid i (World.lt_of_call hc) c hc job hstoring hm.symm

theorem Sound.step {m : Move} {res : Option ProcessOutcome} (h : Sound box w) (hok : Undisturbed box w m)
    (hs : (machine box).step w m = some (w', res)) : Sound box w' := by
  refine Machine.Holds.step h hs ?_ ?_ ?_
  · intro o s p _ he
    cases o
    cases he
    exact ⟨h.shared, trivial, h.calls⟩
  · intro i _ c s n _ hc hmem
    have hp := h.calls i c hc
    obtain ⟨heffect, hnext⟩ := effect_of_access hmem
    refine ⟨heffect.consistent h.shared hp, fun q hq => ?_, fun j d _ hd => ?_⟩
    · have hpending : PendingNext box s n := by
        rcases hnext with hserve | rfl
        · have hpair := pending_of_serve h.shared hp
          rw [← hserve] at hpair
          exact hpair
        · exact pending_of_thrown hp heffect.grows
      subst hq
      exact hpending
    · exact (h.calls j d hd).keeps heffect.grows (fun job _ row hrow _ => heffect.rows _ row hrow)
        (fun job k hfolder hbacked => heffect.backed hp hfolder hbacked)
  · intro e s hm he
    cases e with
    | arrives key raw =>
      simp only [machine, environment] at he
      split at he
      · next hnew =>
        cases he
        refine ⟨h.shared.arrive hnew, fun i c hc => (h.calls i c hc).keeps ?_ (fun _ _ _ hrow _ => hrow)
          (fun _ _ _ hbacked => .inl hbacked)⟩
        exact ⟨fun x hx => List.mem_cons_of_mem _ hx, fun _ hx => hx, fun _ hx => hx⟩
      · cases he
    | sends m =>
      simp only [machine, environment] at he
      split at he
      · next hnew =>
        cases he
        refine ⟨h.shared.insert hnew (fun k hk => (by cases hk)) (fun k hk => (by cases hk)), fun i c hc => ?_⟩
        exact (h.calls i c hc).keeps (grows_insert _ _ _ _) (fun _ _ _ hrow _ => mem_rows_of_insert hrow)
          (fun _ _ _ hbacked => .inl hbacked)
      · cases he
    | retires k =>
      simp only [machine, environment] at he
      split at he
      · cases he
        refine ⟨h.shared.keeps rfl rfl rfl rfl rfl (fun _ => List.Sublist.refl _)
          (fun _ _ _ _ _ hbacked => hbacked.retire k), fun i c hc => ?_⟩
        exact (h.calls i c hc).keeps ⟨fun _ hx => hx, fun _ hx => hx, fun _ hx => hx⟩ (fun _ _ _ hrow _ => hrow)
          (fun _ _ _ hbacked => .inl (hbacked.retire k))
      · cases he
    | reaps id =>
      cases he
      cases hm
      refine ⟨h.shared.keeps rfl rfl rfl rfl rfl (rows_reap w.shared id) (fun _ _ _ _ _ hbacked => hbacked),
        fun i c hc => ?_⟩
      exact (h.calls i c hc).keeps ⟨fun _ hx => hx, fun _ hx => hx, fun _ hx => hx⟩
        (fun job hjob row hrow hm => row_stays hok hc hjob hrow hm) (fun _ _ _ hbacked => .inl hbacked)

theorem sound_empty (box : Mailbox) : Sound box (World.initial empty) := by
  refine ⟨⟨?_, ?_, ?_, ?_, ?_, ?_, ?_, ?_, ?_⟩, fun i c hc => (by simp at hc)⟩
  · exact fun x hx => (by cases hx)
  · exact fun x hx => (by cases hx)
  · exact fun x hx => (by cases hx)
  · exact fun t row hrow => (by cases hrow)
  · exact fun t => List.nodup_nil
  · exact fun t => List.nodup_nil
  · exact fun t row hrow => (by cases hrow)
  · exact fun t row hrow => (by cases hrow)
  · exact fun t row hrow => (by cases hrow)

/-- While retention reaps no inbox row whose message id a mail has that is being stored, a pending object is gone only
if its mail is accounted for, a table has one row for a message id, and the attachments of a row exist unless retention
has removed them. -/
theorem mail_accounted_for (box : Mailbox) (w : World)
    (h : Machine.Run (machine box) (Undisturbed box) (World.initial empty) w) :
    (∀ x ∈ w.shared.arrived, (∀ y ∈ w.shared.pending, y.1 ≠ x.1) →
      (box.mail x.2).messageId ∈ w.shared.stored ∨ x ∈ w.shared.failed ∨
        (box.mail x.2).isBounce = false ∧ (box.mail x.2).isSelfOriginated = true) ∧
    (∀ t, ((w.shared.rows t).map Row.messageId).Nodup) ∧
    ∀ t, ∀ row ∈ w.shared.rows t, ∀ k ∈ row.attachments, k ∈ w.shared.objects ∨ k ∈ w.shared.removed := by
  have hsound : Sound box w := h.invariant (sound_empty box) (fun hw hok hs => hw.step hok hs)
  exact ⟨hsound.shared.accounted, hsound.shared.single, hsound.shared.backed⟩

/-! ## Two mails of one message id -/

/-- All mails have the same message id and one attachment, with their own content. -/
def reusing : Mailbox := ⟨fun _ => 100, fun raw => ⟨5, false, false, [⟨0, 10, some ⟨raw, 10⟩⟩]⟩⟩

/-- A run on a mail of the inbox up to its insert. -/
def upload (i : ℕ) : List Move :=
  [.access i 0, .access i 0, .access i 0, .access i 0, .access i 0]

/-- Two runs on a mail overlap, the second one fails as it deletes the pending object, and a mail with the same message
id is a replay. -/
def overlapping : List Move :=
  (.environment (.arrives 0 0) : Move) :: .start (.process 0 none) :: .start (.process 0 none) ::
    (upload 0 ++ upload 1 ++ [(.access 1 0 : Move), .access 1 0, .access 1 0, .access 1 1, .access 0 0, .access 0 0,
      .environment (.arrives 1 1), .start (.process 1 none)] ++ upload 2 ++
      [(.access 2 0 : Move), .access 2 0, .access 2 0, .access 2 0, .access 2 0])

theorem overlapping_accounted_for : ∃ w : World, w.shared.pending = [] ∧ w.shared.arrived = [(1, 1), (0, 0)] ∧
    w.shared.objects.dedup = [⟨⟨none, 0⟩, 0, 0⟩] ∧
    ∀ t, ∀ row ∈ w.shared.rows t, ∀ k ∈ row.attachments, k ∈ w.shared.objects ∨ k ∈ w.shared.removed := by
  have hruns : ((machine reusing).perform (World.initial empty) overlapping).any
      (fun w => decide (w.shared.pending = [] ∧ w.shared.arrived = [(1, 1), (0, 0)] ∧
        w.shared.objects.dedup = [⟨⟨none, 0⟩, 0, 0⟩])) = true := by
    decide +kernel
  obtain ⟨w, hw, hP⟩ := (Option.any_eq_true _ _).mp hruns
  obtain ⟨hpending, harrived, hobjects⟩ := of_decide_eq_true hP
  have haccounted := mail_accounted_for reusing w (Machine.run_of_perform (by decide +kernel) hw)
  exact ⟨w, hpending, harrived, hobjects, haccounted.2.2⟩

/-- A run reads the row of the first mail and is about to discard the attachment of the second one, retention reaps the
row, another run stores the second mail, and the first run discards its attachment. -/
def reapedWhileDiscarding : List Move :=
  (.environment (.arrives 0 0) : Move) :: .start (.process 0 none) :: (upload 0 ++
    [(.access 0 0 : Move), .access 0 0, .environment (.arrives 1 1), .start (.process 1 none),
      .start (.process 1 none)] ++ upload 1 ++ [(.access 1 0 : Move), .access 1 0, .environment (.reaps 0)] ++
    upload 2 ++ [(.access 1 0 : Move)])

theorem attachment_discarded_under_row :
    ¬ ∀ box w, Machine.Run (machine box) (fun _ _ => True) (World.initial empty) w →
      ∀ t, ∀ row ∈ w.shared.rows t, ∀ k ∈ row.attachments, k ∈ w.shared.objects ∨ k ∈ w.shared.removed := by
  intro hall
  have hruns : ((machine reusing).perform (World.initial empty) reapedWhileDiscarding).any
      (fun w => decide ((⟨1, 5, [⟨⟨none, 1⟩, 1, 0⟩]⟩ : Row) ∈ w.shared.rows .inboundEmails ∧
        (⟨⟨none, 1⟩, 1, 0⟩ : AttachmentKey) ∉ w.shared.objects ∧ w.shared.removed = [])) = true := by
    decide +kernel
  obtain ⟨w, hw, hP⟩ := (Option.any_eq_true _ _).mp hruns
  obtain ⟨hrow, hobjects, hremoved⟩ := of_decide_eq_true hP
  rcases hall reusing w (Machine.free_of_perform hw) .inboundEmails _ hrow _ (List.mem_singleton_self _) with hk | hk
  · exact hobjects hk
  · rw [hremoved] at hk
    cases hk

end Civfix.InboundObjects
