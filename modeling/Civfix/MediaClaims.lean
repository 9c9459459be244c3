import Civfix.InterleavedCalls

/-! # Claims of one upload

An upload is claimed for a report or a post through a column of its row, and for the avatar of a user or a
chat group through a column of theirs. The orphan sweep deletes a row that nobody has claimed.

Every statement reads the snapshot that it starts with. One that changes or locks the row takes a second
access, which waits while a transaction holds the row; if the row has been changed since the snapshot, the
conditions on its columns are checked again, and those in a sub-select are not, since they are answered by
the snapshot. A transaction becomes visible when it commits, so that writing and committing are one access.
`now()` is the start of the transaction. -/
namespace Civfix.MediaClaims

open InterleavedCalls

abbrev ReportId := ℕ
abbrev PostId := ℕ
abbrev ChatMessageId := ℕ
abbrev UserId := ℕ
abbrev GroupId := ℕ
abbrev TxId := ℕ
/-- The strings of `uploaderOf`. -/
abbrev Uploader := ℕ
/-- Milliseconds. -/
abbrev Instant := ℕ

inductive MediaKind | image | video deriving DecidableEq
inductive MediaStatus | validating | ready | rejected | held deriving DecidableEq
inductive MediaPurpose | report | verification | post | eventCover | eventGallery | orgLogo
  deriving DecidableEq

/-- A row of `media_assets`; of the served key and of the time it was finalized only whether they are set. -/
structure MediaAsset where
  reportId : Option ReportId
  postId : Option PostId
  chatMessageId : Option ChatMessageId
  kind : MediaKind
  status : MediaStatus
  purpose : MediaPurpose
  servedKey : Bool
  finalizedAt : Bool
  uploader : Option Uploader
  createdAt : Instant
  deriving DecidableEq

/-- The claim window, and `orphanTtlMs`, which is not shorter. -/
structure Config where
  window : ℕ
  orphanTtlMs : ℕ
  window_le : window ≤ orphanTtlMs

/-- An account or a chat group whose `avatar_media_id` is the upload. -/
inductive AvatarOwner where
  | user (id : UserId)
  | group (id : GroupId)
  deriving DecidableEq

inductive Owner where
  | report (id : ReportId)
  | post (id : PostId)
  | avatar (o : AvatarOwner)

/-- Whose avatar a claim is for. A new group comes with the id that its insert will draw. -/
inductive AvatarClaimant where
  | user (id : UserId)
  | group (id : GroupId)
  | newGroup (id : GroupId)
  deriving DecidableEq

namespace AvatarClaimant

def owner : AvatarClaimant → AvatarOwner
  | user id => .user id
  | group id | newGroup id => .group id

/-- The owner that `avatarClaimQuery` leaves out, of `claimantUserId` and `claimantGroupId`. -/
def Excepts (a : AvatarOwner) : AvatarClaimant → Prop
  | user id => a = .user id
  | group id => a = .group id
  | newGroup _ => False

instance (a : AvatarOwner) (c : AvatarClaimant) : Decidable (c.Excepts a) :=
  match c with
  | user _ | group _ => inferInstanceAs (Decidable (a = _))
  | newGroup _ => isFalse id

end AvatarClaimant

inductive Claim where
  | report (id : ReportId)
  | post (id : PostId)
  | avatar (c : AvatarClaimant)
  deriving DecidableEq

def Claim.owner : Claim → Owner
  | report id => .report id
  | post id => .post id
  | avatar c => .avatar c.owner

/-- A claim with the uploaders that it may stand for and the start of its transaction. -/
structure ClaimTx where
  claim : Claim
  uploaders : List Uploader
  since : Instant
  deriving DecidableEq

/-- `holder` is the transaction that has locked the row. `elsewhere` is a logo, a cover, a gallery or a page
that the upload is bound to. -/
structure Shared where
  asset : Option MediaAsset
  avatars : List AvatarOwner
  elsewhere : Bool
  holder : Option TxId
  next : TxId
  clock : Instant

/-! ## The conditions of the statements -/

namespace MediaAsset

variable (m : MediaAsset)

/-- `uploadedByClaimant`, and the same two conditions of `avatarClaimQuery`. -/
def UploadedByClaimant (cfg : Config) (t : ClaimTx) : Prop :=
  t.since < m.createdAt + cfg.window ∧ (m.uploader = none ∨ ∃ u ∈ t.uploaders, m.uploader = some u)

instance (cfg : Config) (t : ClaimTx) : Decidable (m.UploadedByClaimant cfg t) :=
  inferInstanceAs (Decidable (_ ∧ (_ ∨ ∃ u ∈ t.uploaders, _)))

/-- The conditions on the row: in the UPDATE of a report or a post, and in `avatarClaimQuery`. -/
def Claimable (cfg : Config) (t : ClaimTx) : Prop :=
  (match t.claim with
    | .report id => (m.reportId = none ∨ m.reportId = some id) ∧
        (m.status = .ready ∨ m.status = .validating ∧ m.finalizedAt = true)
    | .post _ => m.reportId = none ∧ (m.status = .ready ∨ m.status = .validating ∧ m.finalizedAt = true)
    | .avatar _ => m.reportId = none ∧ m.kind = .image ∧
        (m.status = .ready ∧ m.servedKey = true ∨ m.status = .validating ∧ m.finalizedAt = true)) ∧
  m.postId = none ∧ m.chatMessageId = none ∧ m.purpose = .report ∧ m.UploadedByClaimant cfg t

instance (cfg : Config) (t : ClaimTx) : Decidable (m.Claimable cfg t) := by
  unfold Claimable
  cases t.claim <;> infer_instance

/-- The conditions of `orphanPredicate` on the row; the cutoff lies `orphanTtlMs` before the sweep. -/
def Orphan (cfg : Config) (sweptAt : Instant) : Prop :=
  m.reportId = none ∧ m.chatMessageId = none ∧ m.postId = none ∧ m.purpose ≠ .verification ∧
    m.createdAt + cfg.orphanTtlMs < sweptAt

instance (cfg : Config) (sweptAt : Instant) : Decidable (m.Orphan cfg sweptAt) :=
  inferInstanceAs (Decidable (_ ∧ _ ∧ _ ∧ _ ∧ _))

end MediaAsset

namespace Shared

variable (s : Shared)

/-- `mediaBoundElsewhere`, in the snapshot of a statement. -/
def BoundElsewhere : Prop := s.avatars ≠ [] ∨ s.elsewhere = true

instance : Decidable s.BoundElsewhere := inferInstanceAs (Decidable (_ ∨ _))

/-- An avatar of another account or group, in the snapshot of `avatarClaimQuery`. -/
def AvatarOfOther (c : AvatarClaimant) : Prop := ∃ a ∈ s.avatars, ¬ c.Excepts a

instance (c : AvatarClaimant) : Decidable (s.AvatarOfOther c) := inferInstanceAs (Decidable (∃ a ∈ s.avatars, _))

/-- The condition of a claim on the other tables. -/
def Taken : Claim → Prop
  | .report _ | .post _ => s.BoundElsewhere
  | .avatar c => s.AvatarOfOther c

instance (c : Claim) : Decidable (s.Taken c) :=
  match c with
  | .report _ | .post _ => inferInstanceAs (Decidable s.BoundElsewhere)
  | .avatar c => inferInstanceAs (Decidable (s.AvatarOfOther c))

/-- The row still matches after a wait: it is the one that the statement has found, or its columns pass. -/
def StillMatches (seen : MediaAsset) (P : MediaAsset → Prop) : Prop := ∃ m ∈ s.asset, m = seen ∨ P m

instance (seen : MediaAsset) (P : MediaAsset → Prop) [DecidablePred P] : Decidable (s.StillMatches seen P) :=
  inferInstanceAs (Decidable (∃ m ∈ s.asset, _))

/-- What a claim writes: `report_id`, `post_id` and the purpose, or the avatar of its owner. -/
def bind : Claim → Shared
  | .report id => { s with asset := s.asset.map (fun m => { m with reportId := some id }) }
  | .post id => { s with asset := s.asset.map (fun m => { m with postId := some id, purpose := .post }) }
  | .avatar c => { s with avatars := if c.owner ∈ s.avatars then s.avatars else s.avatars ++ [c.owner] }

/-- The row goes, and `ON DELETE SET NULL` clears the avatars that refer to it. -/
def delete : Shared := { s with asset := none, avatars := [] }

/-- The transaction ends without its writes. -/
def release : Shared := { s with holder := none }

end Shared

/-! ## Calls -/

inductive Request where
  | claim (c : Claim) (uploaders : List Uploader)
  | sweep
  deriving DecidableEq

inductive Await where
  /-- `lockUploadsForClaimIn`. -/
  | lockUploads (t : ClaimTx)
  | update (t : ClaimTx) (tx : TxId)
  /-- `avatarClaimQuery`: its snapshot, and the lock on the row that it has found. -/
  | select (t : ClaimTx)
  | lockSelected (t : ClaimTx) (seen : MediaAsset)
  | commit (t : ClaimTx) (tx : TxId)
  | findOrphans (sweptAt : Instant)
  /-- `deleteOrphan`: its snapshot, and the deletion of the row that it has found. -/
  | deleteOrphan (sweptAt : Instant)
  | reap (sweptAt : Instant) (seen : MediaAsset)
  deriving DecidableEq

inductive Result where
  | claimed
  | unavailable
  | reaped
  | boundMeanwhile
  | noOrphan
  | failed

abbrev World := InterleavedCalls.World Shared Request Await
abbrev Next := InterleavedCalls.Next Await Result

/-- Time passes; the database ends the open transaction; an owner drops the upload; the row is edited by
anything that is no claim of a report or a post, as the worker, a chat message or an event do. -/
inductive Event where
  | tick (d : ℕ)
  | abort
  | clearReport
  | clearPost
  | clearAvatar (o : AvatarOwner)
  | edit (m : MediaAsset)
  | setElsewhere (b : Bool)

abbrev Move := InterleavedCalls.Move Request Event

def enter (s : Shared) : Request → Option (Shared × Await)
  | .claim (.avatar c) uploaders => some (s, .select ⟨.avatar c, uploaders, s.clock⟩)
  | .claim c uploaders => some (s, .lockUploads ⟨c, uploaders, s.clock⟩)
  | .sweep => some (s, .findOrphans s.clock)

/-- The row is locked by a new transaction. -/
def Shared.lock (s : Shared) (p : TxId → Await) : Shared × Next :=
  ({ s with holder := some s.next, next := s.next + 1 }, .await (p s.next))

/-- Any statement may fail, also while it waits; one that waits has no other outcome. A claim of several
uploads that misses another one fails as well, and so does one whose owner is gone when it is written. -/
def access (cfg : Config) (s : Shared) : Await → List (Shared × Next)
  | .lockUploads t =>
    if s.holder.isSome then [(s, .done .failed)]
    else [if s.asset.isSome then s.lock (.update t) else (s, .done .unavailable), (s, .done .failed)]
  | .update t tx =>
    if s.holder = some tx then
      [if (∃ m ∈ s.asset, m.Claimable cfg t) ∧ ¬ s.Taken t.claim then (s, .await (.commit t tx))
        else (s.release, .done .unavailable),
        (s.release, .done .failed)]
    else [(s, .done .failed)]
  | .select t =>
    [match s.asset with
      | some m =>
        if m.Claimable cfg t ∧ ¬ s.Taken t.claim then (s, .await (.lockSelected t m)) else (s, .done .unavailable)
      | none => (s, .done .unavailable),
      (s, .done .failed)]
  | .lockSelected t seen =>
    if s.holder.isSome then [(s, .done .failed)]
    else
      [if s.StillMatches seen (fun m => m.Claimable cfg t) then s.lock (.commit t) else (s, .done .unavailable),
        (s, .done .failed)]
  | .commit t tx =>
    if s.holder = some tx then [((s.bind t.claim).release, .done .claimed), (s.release, .done .failed)]
    else [(s, .done .failed)]
  | .findOrphans sweptAt =>
    [if (∃ m ∈ s.asset, m.Orphan cfg sweptAt) ∧ ¬ s.BoundElsewhere then (s, .await (.deleteOrphan sweptAt))
      else (s, .done .noOrphan),
      (s, .done .failed)]
  | .deleteOrphan sweptAt =>
    [match s.asset with
      | some m =>
        if m.Orphan cfg sweptAt ∧ ¬ s.BoundElsewhere then (s, .await (.reap sweptAt m))
        else (s, .done .boundMeanwhile)
      | none => (s, .done .boundMeanwhile),
      (s, .done .failed)]
  | .reap sweptAt seen =>
    if s.holder.isSome then [(s, .done .failed)]
    else
      [if s.StillMatches seen (fun m => m.Orphan cfg sweptAt) then (s.delete, .done .reaped)
        else (s, .done .boundMeanwhile),
        (s, .done .failed)]

/-- The row cannot be written while it is locked. Only a claim sets `report_id` and `post_id`. -/
def environment (s : Shared) : Event → Option Shared
  | .tick d => some { s with clock := s.clock + d }
  | .abort => if s.holder.isSome then some s.release else none
  | .clearReport =>
    if s.holder.isSome then none else some { s with asset := s.asset.map (fun m => { m with reportId := none }) }
  | .clearPost =>
    if s.holder.isSome then none else some { s with asset := s.asset.map (fun m => { m with postId := none }) }
  | .clearAvatar o => some { s with avatars := s.avatars.filter (fun a => a ≠ o) }
  | .edit m' =>
    if s.holder.isSome then none
    else if ∃ m ∈ s.asset, m'.reportId = m.reportId ∧ m'.postId = m.postId ∧ m'.createdAt = m.createdAt then
      some { s with asset := some m' }
    else none
  | .setElsewhere b => some { s with elsewhere := b }

def machine (cfg : Config) : Machine Shared Request Await Result Event := ⟨enter, access cfg, environment⟩

/-- A row as `createUpload` leaves it, or later, while neither a report nor a post has claimed it. -/
def uploaded (m : MediaAsset) (now : Instant) : Shared :=
  ⟨some { m with reportId := none, postId := none }, [], false, none, 0, now⟩

/-- The owners that refer to the upload. -/
def Shared.Refers (s : Shared) : Owner → Prop
  | .report id => ∃ m ∈ s.asset, m.reportId = some id
  | .post id => ∃ m ∈ s.asset, m.postId = some id
  | .avatar o => o ∈ s.avatars

variable {cfg : Config} {s s' : Shared}

/-- A claim adds its own owner and no other one. -/
theorem refers_bind {c : Claim} {o : Owner} (h : (s.bind c).Refers o) : s.Refers o ∨ o = c.owner := by
  cases c with
  | report id =>
    cases o with
    | report i =>
      obtain ⟨m, hm, hi⟩ := h
      obtain ⟨m₀, -, rfl⟩ := Option.map_eq_some_iff.mp hm
      exact .inr (congrArg Owner.report (Option.some.inj hi).symm)
    | post i =>
      obtain ⟨m, hm, hi⟩ := h
      obtain ⟨m₀, hm₀, rfl⟩ := Option.map_eq_some_iff.mp hm
      exact .inl ⟨m₀, hm₀, hi⟩
    | avatar a => exact .inl h
  | post id =>
    cases o with
    | report i =>
      obtain ⟨m, hm, hi⟩ := h
      obtain ⟨m₀, hm₀, rfl⟩ := Option.map_eq_some_iff.mp hm
      exact .inl ⟨m₀, hm₀, hi⟩
    | post i =>
      obtain ⟨m, hm, hi⟩ := h
      obtain ⟨m₀, -, rfl⟩ := Option.map_eq_some_iff.mp hm
      exact .inr (congrArg Owner.post (Option.some.inj hi).symm)
    | avatar a => exact .inl h
  | avatar c =>
    cases o with
    | report i | post i => exact .inl h
    | avatar a =>
      have ha : a ∈ (if c.owner ∈ s.avatars then s.avatars else s.avatars ++ [c.owner]) := h
      split at ha
      · exact .inl ha
      · rcases List.mem_append.mp ha with ha | ha
        · exact .inl ha
        · exact .inr (congrArg Owner.avatar (List.mem_singleton.mp ha))

@[simp] theorem asset_isSome_bind (c : Claim) : (s.bind c).asset.isSome = s.asset.isSome := by
  cases c <;> simp [Shared.bind]

/-- Nothing refers to the upload while no column of the row is set and it is nobody's avatar. -/
theorem not_refers {m : MediaAsset} (hm : s.asset = some m) (hreport : m.reportId = none) (hpost : m.postId = none)
    (havatars : s.avatars = []) (o : Owner) : ¬ s.Refers o := by
  cases o with
  | report id =>
    rintro ⟨m', hm', hid⟩
    obtain rfl := Option.some.inj (hm.symm.trans hm')
    rw [hreport] at hid
    cases hid
  | post id =>
    rintro ⟨m', hm', hid⟩
    obtain rfl := Option.some.inj (hm.symm.trans hm')
    rw [hpost] at hid
    cases hid
  | avatar a =>
    intro ha
    have ha : a ∈ s.avatars := ha
    rw [havatars] at ha
    exact absurd ha List.not_mem_nil

/-! ## What an access can do -/

/-- Every outcome of an access but the first leaves the row as it is. -/
inductive Outcome (cfg : Config) (s : Shared) : Await → ℕ → Shared → Next → Prop where
  | ended (p : Await) (k : ℕ) (r : Result) : Outcome cfg s p k s (.done r)
  | released (p : Await) (k : ℕ) (r : Result) : Outcome cfg s p k s.release (.done r)
  | locked (t : ClaimTx) (hfree : s.holder = none) (hrow : s.asset.isSome) :
      Outcome cfg s (.lockUploads t) 0 (s.lock (.update t)).1 (s.lock (.update t)).2
  | updated (t : ClaimTx) (tx : TxId) (m : MediaAsset) (hheld : s.holder = some tx) (hm : s.asset = some m)
      (hclaim : m.Claimable cfg t) (htaken : ¬ s.Taken t.claim) :
      Outcome cfg s (.update t tx) 0 s (.await (.commit t tx))
  | selected (t : ClaimTx) (m : MediaAsset) (hm : s.asset = some m) (hclaim : m.Claimable cfg t)
      (htaken : ¬ s.Taken t.claim) : Outcome cfg s (.select t) 0 s (.await (.lockSelected t m))
  | lockedSelected (t : ClaimTx) (seen m : MediaAsset) (hfree : s.holder = none) (hm : s.asset = some m)
      (hclaim : m = seen ∨ m.Claimable cfg t) :
      Outcome cfg s (.lockSelected t seen) 0 (s.lock (.commit t)).1 (s.lock (.commit t)).2
  | bound (t : ClaimTx) (tx : TxId) (hheld : s.holder = some tx) :
      Outcome cfg s (.commit t tx) 0 (s.bind t.claim).release (.done .claimed)
  | found (sweptAt : Instant) : Outcome cfg s (.findOrphans sweptAt) 0 s (.await (.deleteOrphan sweptAt))
  | seen (sweptAt : Instant) (m : MediaAsset) (hm : s.asset = some m) (horphan : m.Orphan cfg sweptAt)
      (hbound : ¬ s.BoundElsewhere) : Outcome cfg s (.deleteOrphan sweptAt) 0 s (.await (.reap sweptAt m))
  | deleted (sweptAt : Instant) (seen m : MediaAsset) (hfree : s.holder = none) (hm : s.asset = some m)
      (horphan : m = seen ∨ m.Orphan cfg sweptAt) : Outcome cfg s (.reap sweptAt seen) 0 s.delete (.done .reaped)

variable {p : Await} {n : Next} {k : ℕ}

theorem outcome_of_waiting (hk : [((s, .done .failed) : Shared × Next)][k]? = some (s', n)) :
    Outcome cfg s p k s' n := by
  obtain ⟨-, hx⟩ := Prod.mk.inj (List.mem_singleton.mp (List.mem_of_getElem? hk))
  obtain ⟨rfl, -⟩ := Prod.mk.inj (List.mem_singleton.mp (List.mem_of_getElem? hk))
  exact hx ▸ .ended p k _

theorem outcome_of_pair {x y : Shared × Next} (hx : Outcome cfg s p 0 x.1 x.2)
    (hy : ∀ k, Outcome cfg s p k y.1 y.2) (hk : [x, y][k]? = some (s', n)) : Outcome cfg s p k s' n := by
  cases k with
  | zero =>
    cases hk
    exact hx
  | succ k =>
    cases k with
    | zero =>
      cases hk
      exact hy _
    | succ k => cases hk

theorem outcome_of_access (hk : (access cfg s p)[k]? = some (s', n)) : Outcome cfg s p k s' n := by
  cases p with
  | lockUploads t =>
    simp only [access] at hk
    split at hk
    · exact outcome_of_waiting hk
    next hfree =>
    refine outcome_of_pair ?_ (fun k => .ended _ k _) hk
    split
    · next hrow => exact .locked t (Option.not_isSome_iff_eq_none.mp hfree) hrow
    · exact .ended _ 0 _
  | update t tx =>
    simp only [access] at hk
    split at hk
    · next hheld =>
      refine outcome_of_pair ?_ (fun k => .released _ k _) hk
      split
      · next hmatch =>
        obtain ⟨⟨m, hm, hclaim⟩, htaken⟩ := hmatch
        exact .updated t tx m hheld hm hclaim htaken
      · exact .released _ 0 _
    · exact outcome_of_waiting hk
  | select t =>
    refine outcome_of_pair ?_ (fun k => .ended _ k _) hk
    split
    · next m hm =>
      split
      · next hmatch => exact .selected t m hm hmatch.1 hmatch.2
      · exact .ended _ 0 _
    · exact .ended _ 0 _
  | lockSelected t seen =>
    simp only [access] at hk
    split at hk
    · exact outcome_of_waiting hk
    next hfree =>
    refine outcome_of_pair ?_ (fun k => .ended _ k _) hk
    split
    · next hmatch =>
      obtain ⟨m, hm, hclaim⟩ := hmatch
      exact .lockedSelected t seen m (Option.not_isSome_iff_eq_none.mp hfree) hm hclaim
    · exact .ended _ 0 _
  | commit t tx =>
    simp only [access] at hk
    split at hk
    · next hheld => exact outcome_of_pair (.bound t tx hheld) (fun k => .released _ k _) hk
    · exact outcome_of_waiting hk
  | findOrphans sweptAt =>
    refine outcome_of_pair ?_ (fun k => .ended _ k _) hk
    split
    · exact .found sweptAt
    · exact .ended _ 0 _
  | deleteOrphan sweptAt =>
    refine outcome_of_pair ?_ (fun k => .ended _ k _) hk
    split
    · next m hm =>
      split
      · next hmatch => exact .seen sweptAt m hm hmatch.1 hmatch.2
      · exact .ended _ 0 _
    · exact .ended _ 0 _
  | reap sweptAt seen =>
    simp only [access] at hk
    split at hk
    · exact outcome_of_waiting hk
    next hfree =>
    refine outcome_of_pair ?_ (fun k => .ended _ k _) hk
    split
    · next hmatch =>
      obtain ⟨m, hm, horphan⟩ := hmatch
      exact .deleted sweptAt seen m (Option.not_isSome_iff_eq_none.mp hfree) hm horphan
    · exact .ended _ 0 _

theorem enter_shared {o : Request} (he : enter s o = some (s', p)) : s' = s := by
  cases o with
  | claim c uploaders => cases c <;> cases he <;> rfl
  | sweep =>
    cases he
    rfl

/-! ## What a transaction keeps while it holds the row -/

/-- Moves of others: numbers of transactions are not used twice, and while a transaction holds the row, the row
stays and no owner is added. -/
structure Follows (s s' : Shared) : Prop where
  next : s.next ≤ s'.next
  held : ∀ tx < s.next, s'.holder = some tx →
    s.holder = some tx ∧ s'.asset.isSome = s.asset.isSome ∧ ∀ o, s'.Refers o → s.Refers o

theorem Follows.of_held (hnext : s'.next = s.next)
    (h : ∀ tx, s'.holder = some tx →
      s.holder = some tx ∧ s'.asset.isSome = s.asset.isSome ∧ ∀ o, s'.Refers o → s.Refers o) : Follows s s' :=
  ⟨Nat.le_of_eq hnext.symm, fun tx _ => h tx⟩

theorem follows_refl (s : Shared) : Follows s s := .of_held rfl (fun _ htx => ⟨htx, rfl, fun _ ho => ho⟩)

theorem follows_of_free (hnext : s'.next = s.next) (hfree : s'.holder = none) : Follows s s' :=
  .of_held hnext (fun tx htx => by rw [hfree] at htx; cases htx)

theorem follows_lock (s : Shared) (p : TxId → Await) : Follows s (s.lock p).1 := by
  refine ⟨Nat.le_succ _, fun tx hlt htx => ?_⟩
  exact absurd (Option.some.inj htx) (Nat.ne_of_gt hlt)

theorem next_bind (c : Claim) : (s.bind c).next = s.next := by cases c <;> rfl

theorem Outcome.follows (h : Outcome cfg s p k s' n) : Follows s s' := by
  cases h with
  | ended | updated | selected | found | seen => exact follows_refl s
  | released => exact follows_of_free rfl rfl
  | locked t | lockedSelected t => exact follows_lock s _
  | bound t tx => exact follows_of_free (next_bind t.claim) rfl
  | deleted sweptAt seen m hfree => exact follows_of_free rfl hfree

theorem follows_of_environment {e : Event} (he : environment s e = some s') : Follows s s' := by
  cases e with
  | tick d =>
    cases he
    exact .of_held rfl (fun _ htx => ⟨htx, rfl, fun o ho => by cases o <;> exact ho⟩)
  | setElsewhere b =>
    cases he
    exact .of_held rfl (fun _ htx => ⟨htx, rfl, fun o ho => by cases o <;> exact ho⟩)
  | clearAvatar a =>
    cases he
    refine .of_held rfl (fun _ htx => ⟨htx, rfl, fun o ho => ?_⟩)
    cases o with
    | report i | post i => exact ho
    | avatar b => exact List.mem_of_mem_filter ho
  | abort =>
    simp only [environment] at he
    split at he <;> cases he
    exact follows_of_free rfl rfl
  | clearReport | clearPost =>
    simp only [environment] at he
    split at he <;> cases he
    next hfree => exact follows_of_free rfl (Option.not_isSome_iff_eq_none.mp hfree)
  | edit m =>
    simp only [environment] at he
    split at he
    · cases he
    next hfree =>
    split at he <;> cases he
    exact follows_of_free rfl (Option.not_isSome_iff_eq_none.mp hfree)

end Civfix.MediaClaims
