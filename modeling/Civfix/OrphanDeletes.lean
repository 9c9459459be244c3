import Civfix.UploadOwners

/-! # What the orphan sweep deletes

The sweep's DELETE looks for avatars in the snapshot that it starts with. If it then waits for a claim of an
avatar, the row is as it was found, and goes together with the reference of the avatar. A claim of a report or
a post writes to the row itself, which the DELETE checks again. -/
namespace Civfix.MediaClaims

open InterleavedCalls

/-- The move does not delete an upload that an owner refers to. -/
def KeepsMedia (cfg : Config) (w : World) (m : Move) : Prop :=
  ∀ w' r, (machine cfg).step w m = some (w', r) → (∃ o, w.shared.Refers o) → w'.shared.asset.isSome

/-- When the DELETE takes the row, the upload is still nobody's avatar. -/
def SweepAsFound (cfg : Config) (s : Shared) : Await → Prop
  | .reap sweptAt seen => s.holder = none → s.StillMatches seen (fun m => m.Orphan cfg sweptAt) → s.avatars = []
  | _ => True

instance (cfg : Config) (s : Shared) (p : Await) : Decidable (SweepAsFound cfg s p) :=
  match p with
  | .reap _ _ => inferInstanceAs (Decidable (_ → _ → _))
  | .lockUploads _ | .update _ _ | .select _ | .lockSelected _ _ | .commit _ _ | .findOrphans _
  | .deleteOrphan _ => isTrue trivial

/-- Every DELETE finds the avatars as its snapshot has shown them. -/
def SweepUndisturbed (cfg : Config) (w : World) (m : Move) : Prop :=
  match m with
  | .access i k => k = 0 → ∀ c ∈ w.call i, SweepAsFound cfg w.shared c.await
  | _ => True

variable {cfg : Config} {s s' : Shared} {w w' : World} {p : Await} {n : Next} {k : ℕ}

/-! ## Rows and their owners -/

def NoneWithoutRow (s : Shared) : Prop := s.asset = none → ∀ o, ¬ s.Refers o

/-- A transaction that holds the row has one, and a DELETE has found an orphan. -/
def RowPending (cfg : Config) (s : Shared) : Await → Prop
  | .update _ tx | .commit _ tx => tx < s.next ∧ (s.holder = some tx → s.asset.isSome)
  | .reap sweptAt seen => seen.Orphan cfg sweptAt
  | _ => True

theorem RowPending.follows (h : RowPending cfg s p) (hf : Follows s s') : RowPending cfg s' p := by
  cases p with
  | update t tx | commit t tx =>
    obtain ⟨hlt, hrow⟩ := h
    refine ⟨Nat.lt_of_lt_of_le hlt hf.next, fun htx => ?_⟩
    obtain ⟨hheld, hasset, -⟩ := hf.held tx hlt htx
    rw [hasset]
    exact hrow hheld
  | reap sweptAt seen => exact h
  | lockUploads _ | select _ | lockSelected _ _ | findOrphans _ | deleteOrphan _ => trivial

theorem rowPending_of_outcome (hp : RowPending cfg s p) (h : Outcome cfg s p k s' n) {q : Await}
    (hq : n = .await q) : RowPending cfg s' q := by
  cases h with
  | ended | released | bound | deleted => cases hq
  | locked t hfree hrow =>
    cases hq
    exact ⟨Nat.lt_succ_self _, fun _ => hrow⟩
  | updated =>
    cases hq
    exact hp
  | lockedSelected t seen m hfree hm =>
    cases hq
    exact ⟨Nat.lt_succ_self _, fun _ => by simp only [Shared.lock, hm, Option.isSome_some]⟩
  | selected | found =>
    cases hq
    trivial
  | seen sweptAt m hm horphan =>
    cases hq
    exact horphan

theorem noneWithoutRow_of_outcome (h : NoneWithoutRow s) (hp : RowPending cfg s p) (ho : Outcome cfg s p k s' n) :
    NoneWithoutRow s' := by
  cases ho with
  | ended | updated | selected | found | seen => exact h
  | released | locked | lockedSelected =>
    intro hnone o ho
    exact h hnone o (by cases o <;> exact ho)
  | bound t tx hheld =>
    intro hnone
    have hsome : (s.bind t.claim).asset.isSome := by simpa only [asset_isSome_bind] using hp.2 hheld
    have hnone : (s.bind t.claim).asset = none := hnone
    rw [hnone] at hsome
    cases hsome
  | deleted sweptAt seen m =>
    intro _ o
    cases o with
    | report i | post i => exact fun ⟨m', hm', _⟩ => by cases hm'
    | avatar a => exact List.not_mem_nil

theorem asset_of_environment {e : Event} (he : environment s e = some s') : s'.asset.isSome = s.asset.isSome := by
  cases e with
  | tick d | setElsewhere b | clearAvatar a =>
    cases he
    rfl
  | abort =>
    simp only [environment] at he
    split at he <;> cases he
    rfl
  | clearReport | clearPost =>
    simp only [environment] at he
    split at he <;> cases he
    exact Option.isSome_map ..
  | edit m =>
    simp only [environment] at he
    split at he
    · cases he
    split at he <;> cases he
    next hedit =>
    obtain ⟨m₀, hm₀, -⟩ := hedit
    rw [hm₀]
    rfl

def RowSound (cfg : Config) (w : World) : Prop :=
  Machine.Holds NoneWithoutRow (fun s _ c => RowPending cfg s c.await) w

theorem RowSound.step {m : Move} {r : Option Result} (h : RowSound cfg w)
    (hs : (machine cfg).step w m = some (w', r)) : RowSound cfg w' := by
  refine Machine.Holds.step_outcome h hs ?_ ?_ ?_
  · intro o t p _ he
    have hstart : RowPending cfg t p := by
      cases o with
      | claim c uploaders => cases c <;> cases he <;> trivial
      | sweep =>
        cases he
        trivial
    obtain rfl := enter_shared he
    exact ⟨h.shared, hstart, fun i c hc => h.calls i c hc⟩
  · intro i k c t n _ hc hk
    have hout := outcome_of_access hk
    have hp := h.calls i c hc
    exact ⟨noneWithoutRow_of_outcome h.shared hp hout, fun q hq => rowPending_of_outcome hp hout hq,
      fun j d _ hd => RowPending.follows (h.calls j d hd) hout.follows⟩
  · intro e t _ he
    refine ⟨fun hnone o ho => ?_, fun i c hc => RowPending.follows (h.calls i c hc) (follows_of_environment he)⟩
    have hasset := asset_of_environment he
    rw [hnone] at hasset
    exact h.shared (Option.not_isSome_iff_eq_none.mp (by rw [← hasset]; simp)) o (refers_of_environment he ho)

theorem rowSound_of_run {ok : World → Move → Prop} {m : MediaAsset} {now : Instant}
    (h : Machine.Run (machine cfg) ok (World.initial (uploaded m now)) w) : RowSound cfg w := by
  have hstart : RowSound cfg (World.initial (uploaded m now)) :=
    ⟨(by rintro ⟨⟩), fun i c hc => by simp at hc⟩
  exact h.invariant hstart (fun hw _ hs => hw.step hs)

/-! ## Deletions -/

theorem Outcome.keeps_row (h : Outcome cfg s p k s' n) (hrow : s.asset.isSome) :
    s'.asset.isSome ∨ ∃ sweptAt seen m, p = .reap sweptAt seen ∧ k = 0 ∧ s.holder = none ∧ s.asset = some m ∧
      (m = seen ∨ m.Orphan cfg sweptAt) := by
  cases h with
  | ended | released | locked | updated | selected | lockedSelected | found | seen => exact .inl hrow
  | bound t tx => exact .inl (by simpa only [Shared.release, asset_isSome_bind] using hrow)
  | deleted sweptAt seen m hfree hm horphan => exact .inr ⟨sweptAt, seen, m, rfl, rfl, hfree, hm, horphan⟩

theorem isSome_of_refers (h : NoneWithoutRow s) {o : Owner} (ho : s.Refers o) : s.asset.isSome := by
  cases hasset : s.asset with
  | none => exact absurd ho (h hasset o)
  | some m => rfl

/-- A DELETE that finds no avatar either keeps the media. -/
theorem keepsMedia_of_undisturbed {m : Move} (h : RowSound cfg w) (hok : SweepUndisturbed cfg w m) :
    KeepsMedia cfg w m := by
  rintro w' r hs ⟨o, ho⟩
  have hrow := isSome_of_refers h.shared ho
  rcases Machine.shared_cases hs with ⟨o', p, rfl, he⟩ | ⟨i, k, c, n, rfl, hc, -⟩ | ⟨i, rfl, heq⟩ | ⟨e, rfl, he, -⟩
  · rwa [enter_shared he]
  · obtain ⟨c', n, hc', hk, -⟩ := Machine.outcome_of_access hs
    rcases (outcome_of_access hk).keeps_row hrow with hkept | ⟨sweptAt, seen, a, hp, rfl, hfree, ha, horphan⟩
    · exact hkept
    · have hfound := hok rfl c' hc'
      have hpending := h.calls i c' hc'
      rw [hp] at hfound hpending
      have hnone : a.Orphan cfg sweptAt := horphan.elim (fun heq => heq ▸ hpending) (fun hnew => hnew)
      exact absurd ho (not_refers ha hnone.1 hnone.2.2.1 (hfound hfree ⟨a, ha, horphan⟩) o)
  · rwa [heq]
  · rwa [asset_of_environment he]

/-- A DELETE that does not see an avatar deletes it. -/
theorem undisturbed_of_keepsMedia {m : Move} (h : KeepsMedia cfg w m) : SweepUndisturbed cfg w m := by
  cases m with
  | start _ | crash _ | environment _ => trivial
  | access i k =>
    rintro rfl c hc
    have hc : w.call i = some c := hc
    generalize hp : c.await = p
    cases p with
    | lockUploads _ | update _ _ | select _ | lockSelected _ _ | commit _ _ | findOrphans _ | deleteOrphan _ =>
      trivial
    | reap sweptAt seen =>
      intro hfree hmatch
      have hk : (access cfg w.shared c.await)[0]? = some (w.shared.delete, .done .reaped) := by
        simp [hp, access, hfree, hmatch]
      have hs : (machine cfg).step w (.access i 0) = some (w.put w.shared.delete i none, some .reaped) := by
        simp [Machine.step, hc, machine, hk]
      cases havatars : w.shared.avatars with
      | nil => rfl
      | cons a l =>
        have hrefers : w.shared.Refers (.avatar a) := by
          change a ∈ w.shared.avatars
          rw [havatars]
          exact List.mem_cons_self ..
        cases h _ _ hs ⟨_, hrefers⟩

/-- In every run nothing refers to the upload once its row is deleted, and a move deletes no upload in use
exactly when it is no DELETE that finds an avatar which its snapshot has not shown. -/
theorem orphan_sweep_keeps_media (cfg : Config) (a : MediaAsset) (now : Instant) (w : World)
    (h : Machine.Run (machine cfg) (fun _ _ => True) (World.initial (uploaded a now)) w) :
    (w.shared.asset = none → ∀ o, ¬ w.shared.Refers o) ∧ ∀ m, KeepsMedia cfg w m ↔ SweepUndisturbed cfg w m := by
  have hsound := rowSound_of_run h
  exact ⟨hsound.shared, fun m => ⟨undisturbed_of_keepsMedia, keepsMedia_of_undisturbed hsound⟩⟩

/-! ## A claim that commits after the upload has aged -/

/-- A claim of an avatar starts within the window and commits after it. The sweep starts in between, and its
DELETE has found the row before the commit. -/
def claimedWhileSwept : List Move :=
  [.start (.claim (.avatar (.user 1)) [1]), .access 0 0, .access 0 0, .environment (.tick 2), .start .sweep,
    .access 1 0, .access 1 0, .access 0 0]

theorem sweep_deletes_avatar :
    ¬ ∀ cfg a now w, Machine.Run (machine cfg) (fun _ _ => True) (World.initial (uploaded a now)) w →
      ∀ m, KeepsMedia cfg w m := by
  intro hall
  have hruns : ((machine production).perform (World.initial (uploaded photo (sixHours - 1))) claimedWhileSwept).any
      (fun w => decide (w.shared.avatars = [.user 1]) &&
        ((machine production).step w (.access 1 0)).any (fun x => x.1.shared.asset.isNone)) = true := by
    decide +kernel
  obtain ⟨w, hw, hP⟩ := (Option.any_eq_true _ _).mp hruns
  obtain ⟨havatars, hstep⟩ := Bool.and_eq_true_iff.mp hP
  obtain ⟨⟨w', r⟩, hs, hgone⟩ := (Option.any_eq_true _ _).mp hstep
  have hrefers : w.shared.Refers (.avatar (.user 1)) := by
    change AvatarOwner.user 1 ∈ w.shared.avatars
    rw [of_decide_eq_true havatars]
    exact List.mem_singleton_self _
  have hkept := hall production photo (sixHours - 1) w (Machine.free_of_perform hw) (.access 1 0) w' r hs
    ⟨_, hrefers⟩
  rw [Option.isNone_iff_eq_none.mp hgone] at hkept
  cases hkept

/-- The same claim commits before the DELETE starts. -/
theorem swept_after_claim : ∃ w : World, w.shared.Refers (.avatar (.user 1)) ∧ (∃ c, w.call 1 = some c) ∧
    ∀ m, KeepsMedia production w m ↔ SweepUndisturbed production w m := by
  have hruns : ((machine production).perform (World.initial (uploaded photo (sixHours - 1)))
      [.start (.claim (.avatar (.user 1)) [1]), .access 0 0, .access 0 0, .environment (.tick 2), .start .sweep,
        .access 1 0, .access 0 0]).any
      (fun w => decide (AvatarOwner.user 1 ∈ w.shared.avatars) && (w.call 1).isSome) = true := by decide +kernel
  obtain ⟨w, hw, hP⟩ := (Option.any_eq_true _ _).mp hruns
  obtain ⟨havatar, hcall⟩ := Bool.and_eq_true_iff.mp hP
  have hmem : AvatarOwner.user 1 ∈ w.shared.avatars := of_decide_eq_true havatar
  exact ⟨w, hmem, Option.isSome_iff_exists.mp hcall,
    (orphan_sweep_keeps_media production photo (sixHours - 1) w (Machine.free_of_perform hw)).2⟩

/-! ## Claims that commit in time -/

/-- The transaction that commits has started at most `d` before. -/
def StartedWithin (d : ℕ) (s : Shared) : Await → Prop
  | .commit t _ => s.clock ≤ t.since + d
  | _ => True

instance (d : ℕ) (s : Shared) (p : Await) : Decidable (StartedWithin d s p) :=
  match p with
  | .commit _ _ => inferInstanceAs (Decidable (_ ≤ _))
  | .lockUploads _ | .update _ _ | .select _ | .lockSelected _ _ | .findOrphans _ | .deleteOrphan _ | .reap _ _ =>
    isTrue trivial

/-- A claim commits at most `d` after its transaction has started. -/
def CommitsWithin (d : ℕ) (w : World) (m : Move) : Prop :=
  match m with
  | .access i k => k = 0 → ∀ c ∈ w.call i, StartedWithin d w.shared c.await
  | _ => True

instance (d : ℕ) (w : World) (m : Move) : Decidable (CommitsWithin d w m) :=
  match m with
  | .access i k => inferInstanceAs (Decidable (k = 0 → ∀ c ∈ w.call i, StartedWithin d w.shared c.await))
  | .start _ | .crash _ | .environment _ => isTrue trivial

/-- An upload is too young for the sweep while a claim of it may commit, and what a DELETE has found is nobody's
avatar. -/
def InTime (cfg : Config) (s : Shared) : Await → Prop
  | .commit t tx => tx < s.next ∧ (s.holder = some tx → ∃ m ∈ s.asset, t.since < m.createdAt + cfg.window)
  | .update _ tx => tx < s.next
  | .lockSelected t _ => ∀ m ∈ s.asset, t.since < m.createdAt + cfg.window
  | .findOrphans sweptAt | .deleteOrphan sweptAt => sweptAt ≤ s.clock
  | .reap sweptAt _ =>
    sweptAt ≤ s.clock ∧ (∀ m ∈ s.asset, m.createdAt + cfg.orphanTtlMs < sweptAt) ∧ s.avatars = []
  | _ => True

/-- Time does not go back, a row keeps the time it was created at, and while the upload is old enough for the
sweep it becomes nobody's avatar. -/
structure Ages (cfg : Config) (s s' : Shared) : Prop where
  clock : s.clock ≤ s'.clock
  createdAt : ∀ m' ∈ s'.asset, ∃ m ∈ s.asset, m'.createdAt = m.createdAt
  avatars : (∀ m ∈ s.asset, m.createdAt + cfg.orphanTtlMs < s.clock) → s.avatars = [] → s'.avatars = []

theorem ages_of_avatars (hclock : s.clock ≤ s'.clock)
    (hcreated : ∀ m' ∈ s'.asset, ∃ m ∈ s.asset, m'.createdAt = m.createdAt)
    (havatars : s.avatars = [] → s'.avatars = []) : Ages cfg s s' := ⟨hclock, hcreated, fun _ => havatars⟩

theorem ages_refl (s : Shared) : Ages cfg s s :=
  ages_of_avatars (Nat.le_refl _) (fun m hm => ⟨m, hm, rfl⟩) (fun h => h)

/-- A claim that commits in time leaves an upload that is old enough for the sweep as it is. -/
theorem ages_bind {d : ℕ} (hd : cfg.window + d ≤ cfg.orphanTtlMs) {t : ClaimTx} {m : MediaAsset}
    (hm : s.asset = some m) (hsince : t.since < m.createdAt + cfg.window) (hclock : s.clock ≤ t.since + d) :
    Ages cfg s (s.bind t.claim).release := by
  have hle : s.clock ≤ m.createdAt + cfg.orphanTtlMs :=
    calc s.clock ≤ t.since + d := hclock
      _ ≤ m.createdAt + cfg.window + d := Nat.add_le_add_right (Nat.le_of_lt hsince) d
      _ = m.createdAt + (cfg.window + d) := Nat.add_assoc ..
      _ ≤ m.createdAt + cfg.orphanTtlMs := Nat.add_le_add_left hd _
  have hyoung : ¬ ∀ m ∈ s.asset, m.createdAt + cfg.orphanTtlMs < s.clock :=
    fun hold => Nat.not_lt.mpr hle (hold m hm)
  generalize t.claim = c
  refine ⟨?_, ?_, fun hold => absurd hold hyoung⟩
  · cases c <;> exact Nat.le_refl _
  · cases c with
    | report id | post id =>
      intro m' hm'
      obtain ⟨m₀, hm₀, rfl⟩ := Option.map_eq_some_iff.mp hm'
      exact ⟨m₀, hm₀, rfl⟩
    | avatar c => exact fun m' hm' => ⟨m', hm', rfl⟩

theorem Outcome.ages {d : ℕ} (hd : cfg.window + d ≤ cfg.orphanTtlMs) (hp : InTime cfg s p)
    (h : Outcome cfg s p k s' n) (hok : k = 0 → StartedWithin d s p) :
    Ages cfg s s' := by
  cases h with
  | ended | updated | selected | found | seen => exact ages_refl s
  | released | locked | lockedSelected =>
    exact ages_of_avatars (Nat.le_refl _) (fun m hm => ⟨m, hm, rfl⟩) (fun h => h)
  | bound t tx hheld =>
    obtain ⟨m, hm, hsince⟩ := hp.2 hheld
    exact ages_bind hd hm hsince (hok rfl)
  | deleted => exact ages_of_avatars (Nat.le_refl _) (fun m hm => by cases hm) (fun _ => rfl)

theorem ages_of_environment {e : Event} (he : environment s e = some s') : Ages cfg s s' := by
  cases e with
  | tick d =>
    cases he
    exact ages_of_avatars (Nat.le_add_right ..) (fun m hm => ⟨m, hm, rfl⟩) (fun h => h)
  | setElsewhere b =>
    cases he
    exact ages_of_avatars (Nat.le_refl _) (fun m hm => ⟨m, hm, rfl⟩) (fun h => h)
  | clearAvatar a =>
    cases he
    refine ages_of_avatars (Nat.le_refl _) (fun m hm => ⟨m, hm, rfl⟩) (fun h => ?_)
    rw [h]
    rfl
  | abort =>
    simp only [environment] at he
    split at he <;> cases he
    exact ages_of_avatars (Nat.le_refl _) (fun m hm => ⟨m, hm, rfl⟩) (fun h => h)
  | clearReport | clearPost =>
    simp only [environment] at he
    split at he <;> cases he
    refine ages_of_avatars (Nat.le_refl _) (fun m hm => ?_) (fun h => h)
    obtain ⟨m₀, hm₀, rfl⟩ := Option.map_eq_some_iff.mp hm
    exact ⟨m₀, hm₀, rfl⟩
  | edit m =>
    simp only [environment] at he
    split at he
    · cases he
    split at he <;> cases he
    next hedit =>
    obtain ⟨m₀, hm₀, -, -, hcreated⟩ := hedit
    refine ages_of_avatars (Nat.le_refl _) (fun m' hm' => ?_) (fun h => h)
    cases hm'
    exact ⟨m₀, hm₀, hcreated⟩

theorem InTime.ages (h : InTime cfg s p) (ha : Ages cfg s s') (hf : Follows s s') : InTime cfg s' p := by
  cases p with
  | update t tx => exact Nat.lt_of_lt_of_le h hf.next
  | commit t tx =>
    obtain ⟨hlt, hsince⟩ := h
    refine ⟨Nat.lt_of_lt_of_le hlt hf.next, fun htx => ?_⟩
    obtain ⟨hheld, hrow, -⟩ := hf.held tx hlt htx
    obtain ⟨m, hm, hwindow⟩ := hsince hheld
    rw [hm] at hrow
    obtain ⟨m', hm'⟩ := Option.isSome_iff_exists.mp hrow
    obtain ⟨m₀, hm₀, hcreated⟩ := ha.createdAt m' hm'
    obtain rfl := Option.some.inj (hm.symm.trans hm₀)
    exact ⟨m', hm', hcreated ▸ hwindow⟩
  | lockSelected t seen =>
    intro m' hm'
    obtain ⟨m, hm, hcreated⟩ := ha.createdAt m' hm'
    exact hcreated ▸ h m hm
  | findOrphans sweptAt | deleteOrphan sweptAt => exact Nat.le_trans h ha.clock
  | reap sweptAt seen =>
    obtain ⟨hswept, hold, havatars⟩ := h
    refine ⟨Nat.le_trans hswept ha.clock, fun m' hm' => ?_, ha.avatars (fun m hm => ?_) havatars⟩
    · obtain ⟨m, hm, hcreated⟩ := ha.createdAt m' hm'
      exact hcreated ▸ hold m hm
    · exact Nat.lt_of_lt_of_le (hold m hm) hswept
  | lockUploads _ | select _ => trivial

theorem inTime_of_outcome (hp : InTime cfg s p) (h : Outcome cfg s p k s' n) {q : Await} (hq : n = .await q) :
    InTime cfg s' q := by
  cases h with
  | ended | released | bound | deleted => cases hq
  | locked =>
    cases hq
    exact Nat.lt_succ_self _
  | updated t tx m hheld hm hclaim =>
    cases hq
    exact ⟨hp, fun _ => ⟨m, hm, hclaim.2.2.2.2.1⟩⟩
  | selected t m hm hclaim =>
    cases hq
    intro m' hm'
    obtain rfl := Option.some.inj (hm.symm.trans hm')
    exact hclaim.2.2.2.2.1
  | lockedSelected t seen m hfree hm =>
    cases hq
    exact ⟨Nat.lt_succ_self _, fun _ => ⟨m, hm, hp m hm⟩⟩
  | found =>
    cases hq
    exact hp
  | seen sweptAt m hm horphan hbound =>
    cases hq
    refine ⟨hp, fun m' hm' => ?_, Decidable.not_not.mp (fun hne => hbound (.inl hne))⟩
    obtain rfl := Option.some.inj (hm.symm.trans hm')
    exact horphan.2.2.2.2

def InTimeSound (cfg : Config) (w : World) : Prop :=
  Machine.Holds (fun _ => True) (fun s _ c => InTime cfg s c.await) w

theorem InTimeSound.step {d : ℕ} (hd : cfg.window + d ≤ cfg.orphanTtlMs) {m : Move} {r : Option Result}
    (h : InTimeSound cfg w) (hok : CommitsWithin d w m) (hs : (machine cfg).step w m = some (w', r)) :
    InTimeSound cfg w' := by
  refine Machine.Holds.step_outcome h hs ?_ ?_ ?_
  · intro o t p _ he
    have hstart : InTime cfg t p := by
      cases o with
      | claim c uploaders => cases c <;> cases he <;> trivial
      | sweep =>
        cases he
        exact Nat.le_refl _
    obtain rfl := enter_shared he
    exact ⟨trivial, hstart, fun i c hc => h.calls i c hc⟩
  · intro i k c t n hm hc hk
    subst hm
    have hout := outcome_of_access hk
    have hp := h.calls i c hc
    have hages := hout.ages hd hp (fun hi => hok hi c hc)
    exact ⟨trivial, fun q hq => inTime_of_outcome hp hout hq,
      fun j e _ he => InTime.ages (h.calls j e he) hages hout.follows⟩
  · intro e t _ he
    exact ⟨trivial, fun i c hc =>
      InTime.ages (h.calls i c hc) (ages_of_environment he) (follows_of_environment he)⟩

end Civfix.MediaClaims
