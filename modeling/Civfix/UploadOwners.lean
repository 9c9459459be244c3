import Civfix.MediaClaims

/-! # At most one owner of an upload

A claim of a report or a post locks the row in a statement of its own, and the next statement sees every
avatar that was set before. An avatar is claimed by one statement, which answers for the other avatars as of
its start: if it has waited for the claim of another avatar, it does not see that one. -/
namespace Civfix.MediaClaims

open InterleavedCalls

def AtMostOneOwner (s : Shared) : Prop := ∀ a b, s.Refers a → s.Refers b → a = b

/-- When `avatarClaimQuery` takes the row, the upload is still no avatar of another account or group. -/
def ClaimAsFound (cfg : Config) (s : Shared) : Await → Prop
  | .lockSelected t seen =>
    s.holder = none → s.StillMatches seen (fun m => m.Claimable cfg t) → ¬ s.Taken t.claim
  | _ => True

instance (cfg : Config) (s : Shared) (p : Await) : Decidable (ClaimAsFound cfg s p) :=
  match p with
  | .lockSelected _ _ => inferInstanceAs (Decidable (_ → _ → _))
  | .lockUploads _ | .update _ _ | .select _ | .commit _ _ | .findOrphans _ | .deleteOrphan _ | .reap _ _ =>
    isTrue trivial

/-- Every claim of an avatar finds the other avatars as its snapshot has shown them. -/
def ClaimsUndisturbed (cfg : Config) (w : World) (m : Move) : Prop :=
  match m with
  | .access i k => k = 0 → ∀ c ∈ w.call i, ClaimAsFound cfg w.shared c.await
  | _ => True

instance (cfg : Config) (w : World) (m : Move) : Decidable (ClaimsUndisturbed cfg w m) :=
  match m with
  | .access i k => inferInstanceAs (Decidable (k = 0 → ∀ c ∈ w.call i, ClaimAsFound cfg w.shared c.await))
  | .start _ | .crash _ | .environment _ => isTrue trivial

variable {cfg : Config} {s s' : Shared} {w w' : World} {p : Await} {n : Next} {k : ℕ}

/-! ## Claims -/

/-- The owner of a claim is the only one that a row which passes its conditions can have. -/
theorem owner_of_claimable {t : ClaimTx} {m : MediaAsset} (hm : s.asset = some m) (hclaim : m.Claimable cfg t)
    (htaken : ¬ s.Taken t.claim) {o : Owner} (ho : s.Refers o) : o = t.claim.owner := by
  obtain ⟨hreport, hpost, -⟩ := hclaim
  cases o with
  | report i =>
    obtain ⟨m', hm', hi⟩ := ho
    obtain rfl := Option.some.inj (hm.symm.trans hm')
    generalize t.claim = c at hreport htaken ⊢
    cases c with
    | report id =>
      rcases hreport.1 with hnone | hsome
      · rw [hi] at hnone
        cases hnone
      · rw [hi] at hsome
        exact congrArg Owner.report (Option.some.inj hsome)
    | post id | avatar c =>
      rw [hi] at hreport
      cases hreport.1
  | post i =>
    obtain ⟨m', hm', hi⟩ := ho
    obtain rfl := Option.some.inj (hm.symm.trans hm')
    rw [hi] at hpost
    cases hpost
  | avatar a =>
    have ha : a ∈ s.avatars := ho
    generalize t.claim = c at hreport htaken ⊢
    cases c with
    | report id | post id => exact absurd (.inl (List.ne_nil_of_mem ha)) htaken
    | avatar c =>
      have hexcept : c.Excepts a := Decidable.by_contra (fun hne => htaken ⟨a, ha, hne⟩)
      cases c with
      | user id | group id => exact congrArg Owner.avatar hexcept
      | newGroup id => exact hexcept.elim

/-- A transaction that is about to commit leaves the upload to its own owner alone. -/
def ClaimPending (cfg : Config) (s : Shared) : Await → Prop
  | .update _ tx => tx < s.next
  | .commit t tx => tx < s.next ∧ (s.holder = some tx → ∀ o, s.Refers o → o = t.claim.owner)
  | .lockSelected t seen => seen.Claimable cfg t
  | _ => True

theorem ClaimPending.follows (h : ClaimPending cfg s p) (hf : Follows s s') : ClaimPending cfg s' p := by
  cases p with
  | update t tx => exact Nat.lt_of_lt_of_le h hf.next
  | commit t tx =>
    obtain ⟨hlt, hown⟩ := h
    refine ⟨Nat.lt_of_lt_of_le hlt hf.next, fun htx o ho => ?_⟩
    obtain ⟨hheld, -, hrefers⟩ := hf.held tx hlt htx
    exact hown hheld o (hrefers o ho)
  | lockSelected t seen => exact h
  | lockUploads _ | select _ | findOrphans _ | deleteOrphan _ | reap _ _ => trivial

/-- The next assertion of a call whose claim finds the avatars as before. -/
theorem pending_of_outcome (hp : ClaimPending cfg s p) (h : Outcome cfg s p k s' n)
    (hok : k = 0 → ClaimAsFound cfg s p) {q : Await} (hq : n = .await q) : ClaimPending cfg s' q := by
  cases h with
  | ended | released | bound | deleted => cases hq
  | locked t hfree hrow =>
    cases hq
    exact Nat.lt_succ_self _
  | updated t tx m hheld hm hclaim htaken =>
    cases hq
    exact ⟨hp, fun _ o ho => owner_of_claimable hm hclaim htaken ho⟩
  | selected t m hm hclaim htaken =>
    cases hq
    exact hclaim
  | lockedSelected t seen m hfree hm hclaim =>
    cases hq
    have htaken := hok rfl hfree ⟨m, hm, hclaim⟩
    have hrow : m.Claimable cfg t := hclaim.elim (fun heq => heq ▸ hp) (fun hnew => hnew)
    refine ⟨Nat.lt_succ_self _, fun _ o ho => owner_of_claimable hm hrow htaken ?_⟩
    cases o <;> exact ho
  | found | seen => cases hq; trivial

theorem AtMostOneOwner.of_refers (h : AtMostOneOwner s) (hsub : ∀ o, s'.Refers o → s.Refers o) :
    AtMostOneOwner s' := fun a b ha hb => h a b (hsub a ha) (hsub b hb)

theorem one_of_outcome (h : AtMostOneOwner s) (hp : ClaimPending cfg s p) (ho : Outcome cfg s p k s' n) :
    AtMostOneOwner s' := by
  cases ho with
  | ended | updated | selected | found | seen => exact h
  | released | locked | lockedSelected => exact h.of_refers (fun o ho => by cases o <;> exact ho)
  | bound t tx hheld =>
    have hown : ∀ o, (s.bind t.claim).release.Refers o → o = t.claim.owner := by
      intro o ho
      have ho : (s.bind t.claim).Refers o := by cases o <;> exact ho
      rcases refers_bind ho with hold | hnew
      · exact hp.2 hheld o hold
      · exact hnew
    exact fun a b ha hb => (hown a ha).trans (hown b hb).symm
  | deleted sweptAt seen m =>
    intro a b ha
    cases a with
    | report i | post i =>
      obtain ⟨m', hm', -⟩ := ha
      cases hm'
    | avatar a => exact absurd ha List.not_mem_nil

theorem refers_of_environment {e : Event} (he : environment s e = some s') {o : Owner} (ho : s'.Refers o) :
    s.Refers o := by
  cases e with
  | tick d | setElsewhere b =>
    cases he
    cases o <;> exact ho
  | abort =>
    simp only [environment] at he
    split at he <;> cases he
    cases o <;> exact ho
  | clearAvatar a =>
    cases he
    cases o with
    | report i | post i => exact ho
    | avatar b => exact List.mem_of_mem_filter ho
  | clearReport | clearPost =>
    simp only [environment] at he
    split at he <;> cases he
    cases o with
    | report i | post i =>
      obtain ⟨m, hm, hi⟩ := ho
      obtain ⟨m₀, hm₀, rfl⟩ := Option.map_eq_some_iff.mp hm
      first
        | exact ⟨m₀, hm₀, hi⟩
        | cases hi
    | avatar b => exact ho
  | edit m =>
    simp only [environment] at he
    split at he
    · cases he
    split at he <;> cases he
    next hedit =>
    obtain ⟨m₀, hm₀, hreport, hpost, -⟩ := hedit
    cases o with
    | report i =>
      obtain ⟨m', hm', hi⟩ := ho
      obtain rfl := Option.some.inj hm'
      exact ⟨m₀, hm₀, hreport ▸ hi⟩
    | post i =>
      obtain ⟨m', hm', hi⟩ := ho
      obtain rfl := Option.some.inj hm'
      exact ⟨m₀, hm₀, hpost ▸ hi⟩
    | avatar b => exact ho

/-! ## Runs -/

def ClaimSound (cfg : Config) (w : World) : Prop :=
  Machine.Holds AtMostOneOwner (fun s _ c => ClaimPending cfg s c.await) w

theorem ClaimSound.step {m : Move} {r : Option Result} (h : ClaimSound cfg w) (hok : ClaimsUndisturbed cfg w m)
    (hs : (machine cfg).step w m = some (w', r)) : ClaimSound cfg w' := by
  refine Machine.Holds.step_outcome h hs ?_ ?_ ?_
  · intro o t p _ he
    have hstart : ClaimPending cfg t p := by
      cases o with
      | claim c uploaders => cases c <;> cases he <;> trivial
      | sweep =>
        cases he
        trivial
    obtain rfl := enter_shared he
    exact ⟨h.shared, hstart, fun i c hc => h.calls i c hc⟩
  · intro i k c t n hm hc hk
    subst hm
    have hout := outcome_of_access hk
    have hp := h.calls i c hc
    exact ⟨one_of_outcome h.shared hp hout, fun q hq => pending_of_outcome hp hout (fun hi => hok hi c hc) hq,
      fun j d _ hd => ClaimPending.follows (h.calls j d hd) hout.follows⟩
  · intro e t _ he
    exact ⟨h.shared.of_refers (fun o ho => refers_of_environment he ho),
      fun i c hc => ClaimPending.follows (h.calls i c hc) (follows_of_environment he)⟩

theorem not_refers_uploaded (m : MediaAsset) (now : Instant) (o : Owner) : ¬ (uploaded m now).Refers o :=
  not_refers rfl rfl rfl rfl o

/-- In every run in which the claims of avatars find the other avatars as their snapshots have shown them, at
most one report, post, account or chat group refers to the upload. -/
theorem uploads_have_one_owner (cfg : Config) (m : MediaAsset) (now : Instant) (w : World)
    (h : Machine.Run (machine cfg) (ClaimsUndisturbed cfg) (World.initial (uploaded m now)) w) :
    AtMostOneOwner w.shared := by
  have hstart : ClaimSound cfg (World.initial (uploaded m now)) :=
    ⟨fun a _ ha => absurd ha (not_refers_uploaded m now a), fun i c hc => by simp at hc⟩
  have hsound : ClaimSound cfg w := h.invariant hstart (fun hw hok hs => hw.step hok hs)
  exact hsound.shared

/-! ## Two avatars at once -/

def sixHours : ℕ := 6 * 60 * 60 * 1000

def production : Config := ⟨sixHours, sixHours, Nat.le_refl _⟩

def photo : MediaAsset := ⟨none, none, none, .image, .ready, .report, true, true, some 1, 0⟩

/-- An account sets its own avatar and that of its group to the same upload; the second statement starts
before the first transaction commits. -/
def twoAvatars : List Move :=
  [.start (.claim (.avatar (.user 1)) [1]), .access 0 0, .access 0 0, .start (.claim (.avatar (.group 7)) [1]),
    .access 1 0, .access 0 0, .access 1 0, .access 1 0]

theorem two_avatars_share_upload :
    ¬ ∀ cfg m now w, Machine.Run (machine cfg) (fun _ _ => True) (World.initial (uploaded m now)) w →
      AtMostOneOwner w.shared := by
  intro hall
  have hruns : ((machine production).perform (World.initial (uploaded photo 1000)) twoAvatars).any
      (fun w => decide (w.shared.avatars = [.user 1, .group 7])) = true := by decide +kernel
  obtain ⟨w, hw, hP⟩ := (Option.any_eq_true _ _).mp hruns
  have havatars := of_decide_eq_true hP
  have hone := hall production photo 1000 w (Machine.free_of_perform hw)
  have huser : w.shared.Refers (.avatar (.user 1)) := by
    change AvatarOwner.user 1 ∈ w.shared.avatars
    rw [havatars]
    exact List.mem_cons_self ..
  have hgroup : w.shared.Refers (.avatar (.group 7)) := by
    change AvatarOwner.group 7 ∈ w.shared.avatars
    rw [havatars]
    exact List.mem_cons_of_mem _ (List.mem_singleton_self _)
  cases hone _ _ huser hgroup

/-- A report waits for the claim of an avatar, and is refused; the avatar is dropped, and a post takes the
upload. -/
def claimedInTurn : List Move :=
  [.start (.claim (.avatar (.user 1)) [1]), .access 0 0, .access 0 0, .start (.claim (.report 4) [1]), .access 0 0,
    .access 1 0, .access 1 0, .environment (.clearAvatar (.user 1)), .start (.claim (.post 5) [1]), .access 2 0,
    .start (.claim (.avatar (.user 1)) [1]), .access 3 0, .access 2 0, .access 2 0, .access 3 0]

theorem claimed_in_turn : ∃ w : World, w.shared.Refers (.post 5) ∧ (∀ i, w.call i = none) ∧ w.calls.length = 4 ∧
    AtMostOneOwner w.shared := by
  have hruns : ((machine production).perform (World.initial (uploaded photo 1000)) claimedInTurn).any
      (fun w => decide ((∃ m ∈ w.shared.asset, m.postId = some 5) ∧ w.calls = [none, none, none, none])) = true := by
    decide +kernel
  obtain ⟨w, hw, hP⟩ := (Option.any_eq_true _ _).mp hruns
  obtain ⟨hpost, hcalls⟩ := of_decide_eq_true hP
  refine ⟨w, hpost, fun i => ?_, by rw [hcalls]; rfl, uploads_have_one_owner production photo 1000 w
    (Machine.run_of_perform (by decide +kernel) hw)⟩
  simp only [World.call, hcalls]
  rcases i with _ | _ | _ | _ | i <;> rfl

end Civfix.MediaClaims
