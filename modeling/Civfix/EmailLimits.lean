import Civfix.EmailClaims
import Mathlib.Data.List.ReduceOption

/-! # The limits hold

A counter is at least the number of its increments that are not given back, and a request is granted only if its
increment stays within the limit. Each setting of a conversation key lets one request through. -/
namespace Civfix.EmailThrottle

open ExpiringKeys InterleavedCalls

variable {now now' : Instant} {s : Caps} {u : UserId} {v : ℕ} {tally tally' : UserId → ℕ → ℕ}

/-! ## Counters and their increments -/

/-- `tally` are the increments, by user and window, that are not given back. -/
structure Tallied (now : Instant) (s : Caps) (tally : UserId → ℕ → ℕ) : Prop where
  fresh : ∀ u v, s.windows ≤ v → tally u v = 0
  keys : ∀ u e, s.keys.entries u = some e → e.value.window < s.windows
  le : ∀ u e, s.keys.get now u = some e → tally u e.value.window ≤ e.value.count

theorem Tallied.mono (h : Tallied now s tally) (hle : ∀ u v, tally' u v ≤ tally u v) : Tallied now s tally' :=
  ⟨fun u v hv => Nat.le_zero.mp (h.fresh u v hv ▸ hle u v), h.keys,
    fun u e he => Nat.le_trans (hle u _) (h.le u e he)⟩

theorem Tallied.later (h : Tallied now s tally) (hle : now ≤ now') : Tallied now' s tally :=
  ⟨h.fresh, h.keys, fun u e he => h.le u e (Store.get_earlier he hle)⟩

/-- One increment more. -/
def more (tally : UserId → ℕ → ℕ) (u : UserId) (v : ℕ) : UserId → ℕ → ℕ :=
  fun u' v' => tally u' v' + if u = u' ∧ v = v' then 1 else 0

theorem Tallied.incr (h : Tallied now s tally) (u : UserId) :
    Tallied now (s.incr now u).1 (more tally u (s.incr now u).2.window) ∧
      tally u (s.incr now u).2.window + 1 ≤ (s.incr now u).2.count := by
  cases hget : s.keys.get now u with
  | some e =>
    rw [Caps.incr_of_some hget]
    have hcount := h.le u e hget
    obtain ⟨hentry, hexpires⟩ := Store.get_eq_some.mp hget
    refine ⟨⟨fun u' v' hv => ?_, fun u' e' he => ?_, fun u' e' he => ?_⟩, Nat.succ_le_succ hcount⟩
    · have hne : ¬ (u = u' ∧ e.value.window = v') := fun hsame =>
        absurd (h.keys u e hentry) (Nat.not_lt.mpr (hsame.2 ▸ hv))
      rw [more, if_neg hne, h.fresh u' v' hv]
    · rcases Store.entries_put_cases he with ⟨rfl, rfl⟩ | he
      · exact h.keys _ e hentry
      · exact h.keys u' e' he
    · by_cases hu : u' = u
      · subst hu
        rw [Store.get_put_self (by exact hexpires)] at he
        cases he
        rw [more, if_pos ⟨rfl, rfl⟩]
        exact Nat.succ_le_succ hcount
      · rw [Store.get_put_of_ne hu] at he
        rw [more, if_neg fun hsame => hu hsame.1.symm]
        exact h.le u' e' he
  | none =>
    rw [Caps.incr_of_none hget]
    have hzero : tally u s.windows = 0 := h.fresh u s.windows (Nat.le_refl _)
    refine ⟨⟨fun u' v' hv => ?_, fun u' e' he => ?_, fun u' e' he => ?_⟩, Nat.succ_le_succ (Nat.le_of_eq hzero)⟩
    · have hne : ¬ (u = u' ∧ s.windows = v') := fun hsame => absurd hv (Nat.not_le.mpr (hsame.2 ▸ Nat.lt_succ_self _))
      rw [more, if_neg hne, h.fresh u' v' (Nat.le_of_succ_le hv)]
    · rcases Store.entries_put_cases he with ⟨rfl, rfl⟩ | he
      · exact Nat.lt_succ_self _
      · exact Nat.lt_succ_of_lt (h.keys u' e' he)
    · by_cases hu : u' = u
      · subst hu
        rw [Store.get_put_self (by exact Nat.le_of_lt (lt_window now))] at he
        cases he
        rw [more, if_pos ⟨rfl, rfl⟩, hzero]
      · rw [Store.get_put_of_ne hu] at he
        rw [more, if_neg fun hsame => hu hsame.1.symm]
        exact h.le u' e' he

/-- The increment that is given back is one of the counter as it is. -/
theorem Tallied.decr (h : Tallied now s tally)
    (hwindow : (s.keys.get now u).map (fun e => e.value.window) = some v)
    (htally : ∀ u' v', more tally' u v u' v' = tally u' v') : Tallied now (s.decr now u) tally' := by
  have hle : ∀ u' v', tally' u' v' ≤ tally u' v' := fun u' v' => htally u' v' ▸ Nat.le_add_right _ _
  obtain ⟨e, hget, rfl⟩ := Option.map_eq_some_iff.mp hwindow
  obtain ⟨hentry, hexpires⟩ := Store.get_eq_some.mp hget
  simp only [Caps.decr, hget]
  refine ⟨fun u' v' hv => Nat.le_zero.mp (h.fresh u' v' hv ▸ hle u' v'), fun u' e' he => ?_, fun u' e' he => ?_⟩
  · rcases Store.entries_put_cases he with ⟨rfl, rfl⟩ | he
    · exact h.keys _ e hentry
    · exact h.keys u' e' he
  · by_cases hu : u' = u
    · subst hu
      rw [Store.get_put_self (by exact hexpires)] at he
      cases he
      have hsame := htally u' e.value.window
      rw [more, if_pos ⟨rfl, rfl⟩] at hsame
      exact Nat.le_sub_of_add_le (hsame ▸ h.le u' e hget)
    · rw [Store.get_put_of_ne hu] at he
      exact Nat.le_trans (hle u' _) (h.le u' e' he)

theorem countP_cons_inWindow (c : Counted) (cs : List Counted) (u : UserId) (v : ℕ) :
    (c :: cs).countP (inWindow u v) = cs.countP (inWindow u v) +
      if c.request.userId = u ∧ c.window = v then 1 else 0 := by
  simp only [List.countP_cons, inWindow, decide_eq_true_eq]

/-- A batch adds what it counts. -/
theorem Tallied.countEach (h : Tallied now s tally) (cs : List (Option Claimed)) :
    Tallied now (answerEach (countClaimed now) s cs).1
      (fun u v => tally u v + (answerEach (countClaimed now) s cs).2.reduceOption.countP (inWindow u v)) := by
  induction cs generalizing s tally with
  | nil => exact h
  | cons o cs ih =>
    rw [answerEach_cons]
    cases o with
    | none => exact ih h
    | some c =>
      refine (ih (h.incr c.request.userId).1).mono fun u v => Nat.le_of_eq ?_
      rw [countClaimed, List.reduceOption_cons_of_some, countP_cons_inWindow]
      exact (Nat.add_assoc _ _ _).symm.trans (Nat.add_right_comm _ _ _)

/-- A batch grants within the limit. -/
theorem Tallied.grantEach (h : Tallied now s tally) (cs : List (Option Claimed)) (hle : ∀ u v, tally' u v ≤ tally u v)
    (hlimit : ∀ u v, tally' u v ≤ NOTIFICATION_EMAILS_PER_HOUR) (u : UserId) (v : ℕ) :
    tally' u v + ((answerEach (countClaimed now) s cs).2.reduceOption.filter Counted.granted).countP (inWindow u v) ≤
      NOTIFICATION_EMAILS_PER_HOUR := by
  induction cs generalizing s tally tally' with
  | nil => exact hlimit u v
  | cons o cs ih =>
    rw [answerEach_cons]
    cases o with
    | none => exact ih h hle hlimit
    | some c =>
      obtain ⟨hnext, hcount⟩ := h.incr c.request.userId
      rw [countClaimed, List.reduceOption_cons_of_some, List.filter_cons]
      split
      · next hgranted =>
        have hwithin : (s.incr now c.request.userId).2.count ≤ NOTIFICATION_EMAILS_PER_HOUR :=
          of_decide_eq_true hgranted
        have hmore : ∀ u v, more tally' c.request.userId (s.incr now c.request.userId).2.window u v ≤
            more tally c.request.userId (s.incr now c.request.userId).2.window u v :=
          fun u v => Nat.add_le_add_right (hle u v) _
        have hwithin' : ∀ u v, more tally' c.request.userId (s.incr now c.request.userId).2.window u v ≤
            NOTIFICATION_EMAILS_PER_HOUR := by
          intro u v
          by_cases hsame : c.request.userId = u ∧ (s.incr now c.request.userId).2.window = v
          · obtain ⟨rfl, rfl⟩ := hsame
            rw [more, if_pos ⟨rfl, rfl⟩]
            exact Nat.le_trans (Nat.succ_le_succ (hle _ _)) (Nat.le_trans hcount hwithin)
          · rw [more, if_neg hsame]
            exact hlimit u v
        have hrest := ih hnext hmore hwithin'
        rw [countP_cons_inWindow]
        exact Nat.le_trans (Nat.le_of_eq ((Nat.add_assoc _ _ _).symm.trans (Nat.add_right_comm _ _ _))) hrest
      · exact ih hnext (fun u v => Nat.le_trans (hle u v) (Nat.le_add_right _ _)) hlimit

/-! ## Conversation keys -/

variable {c : Conversations} {l : ℕ}

/-- The keys that a batch sets are new. -/
structure Sets (c c' : Conversations) (lives : List ℕ) : Prop where
  le : c.lives ≤ c'.lives
  one : ∀ l, lives.count l ≤ 1
  range : ∀ l, 0 < lives.count l → c.lives ≤ l ∧ l < c'.lives

/-- One more key is set before the others. -/
theorem Sets.cons {c₁ c' : Conversations} {lives : List ℕ} (h : Sets c₁ c' lives) (hnext : c₁.lives = c.lives + 1) :
    Sets c c' (c.lives :: lives) := by
  have hle : c.lives + 1 ≤ c'.lives := hnext ▸ h.le
  have hcons : ∀ l, (c.lives :: lives).count l = lives.count l + if c.lives = l then 1 else 0 := by
    intro l
    simp only [List.count_cons, beq_iff_eq]
  have hfresh : ∀ l, c.lives = l → lives.count l = 0 := by
    rintro l rfl
    by_contra hne
    exact absurd (h.range c.lives (Nat.pos_of_ne_zero hne)).1 (hnext ▸ Nat.not_succ_le_self _)
  refine ⟨Nat.le_of_succ_le hle, fun l => ?_, fun l hl => ?_⟩
  · rw [hcons]
    by_cases heq : c.lives = l
    · rw [hfresh l heq, if_pos heq]
    · rw [if_neg heq]
      exact h.one l
  · rw [hcons] at hl
    by_cases heq : c.lives = l
    · subst heq
      exact ⟨Nat.le_refl _, hle⟩
    · rw [if_neg heq] at hl
      have hlt : c.lives + 1 ≤ l := hnext ▸ (h.range l hl).1
      exact ⟨Nat.le_of_succ_le hlt, (h.range l hl).2⟩

theorem livesOf_cons (o : Option Claimed) (cs : List (Option Claimed)) :
    livesOf (o :: cs) = (o.bind Claimed.setting).toList ++ livesOf cs := by
  cases o with
  | none => rfl
  | some c =>
    rw [livesOf, List.reduceOption_cons_of_some, List.filterMap_cons, Option.bind_some]
    cases c.setting <;> rfl

theorem livesOf_open {rs : List EmailThrottleRequest} (h : ∀ r ∈ rs, r.conversation = none) :
    livesOf (rs.map (fun r => some ⟨r, 0⟩)) = [] := by
  induction rs with
  | nil => rfl
  | cons r rs ih =>
    rw [List.map_cons, livesOf_cons, ih fun r' hr' => h r' (List.mem_cons_of_mem r hr'), Option.bind_some,
      Claimed.setting, h r List.mem_cons_self]
    rfl

theorem sets_claimEach (now : Instant) (c : Conversations) (rs : List EmailThrottleRequest) :
    Sets c (answerEach (claimKey now) c rs).1 (livesOf (answerEach (claimKey now) c rs).2) := by
  induction rs generalizing c with
  | nil => exact ⟨Nat.le_refl _, fun l => Nat.zero_le _, fun l hl => absurd hl (Nat.lt_irrefl 0)⟩
  | cons r rs ih =>
    rw [answerEach_cons]
    simp only [livesOf_cons]
    have hrest := ih (claimKey now c r).1
    cases hkey : r.key with
    | none =>
      have hclaim : claimKey now c r = (c, some ⟨r, 0⟩) := by simp only [claimKey, hkey]
      rw [hclaim] at hrest ⊢
      rw [Option.bind_some, Claimed.setting, Option.map_eq_none_iff.mp hkey]
      exact hrest
    | some k =>
      cases hget : c.keys.get now k with
      | some e =>
        rw [claimKey_of_held hkey hget] at hrest ⊢
        exact hrest
      | none =>
        have hclaim : claimKey now c r =
            (⟨c.keys.put k ⟨c.lives, now + WINDOW_MS⟩, c.lives + 1⟩, some ⟨r, c.lives⟩) := by
          simp only [claimKey, hkey, Conversations.setNx, hget, Option.map_some]
        obtain ⟨conversation, hconversation, -⟩ := Option.map_eq_some_iff.mp hkey
        rw [hclaim] at hrest ⊢
        rw [Option.bind_some, Claimed.setting, hconversation]
        exact hrest.cons rfl

/-- Counting a request keeps the key that it has set. -/
theorem lives_countEach (now : Instant) (s : Caps) (cs : List (Option Claimed)) :
    (answerEach (countClaimed now) s cs).2.reduceOption.filterMap Counted.setting = livesOf cs := by
  induction cs generalizing s with
  | nil => rfl
  | cons o cs ih =>
    rw [answerEach_cons]
    cases o with
    | none => exact ih _
    | some c =>
      rw [countClaimed, List.reduceOption_cons_of_some, List.filterMap_cons, ih, livesOf_cons, Option.bind_some,
        Counted.setting, Claimed.setting]
      cases c.request.conversation <;> rfl

/-- The request has set the key. -/
def setBy (l : ℕ) (c : Counted) : Bool := decide (c.setting = some l)

theorem count_lives (cs : List Counted) (l : ℕ) : (cs.filterMap Counted.setting).count l = cs.countP (setBy l) := by
  induction cs with
  | nil => rfl
  | cons c cs ih =>
    rw [List.countP_cons, ← ih, List.filterMap_cons]
    cases hsetting : c.setting with
    | none => simp [setBy, hsetting]
    | some l' => simp [setBy, hsetting, List.count_cons]

theorem setBy_of_inLife {key : ConversationKey} {d : Counted} (h : inLife key l d = true) : setBy l d = true := by
  obtain ⟨hkey, rfl⟩ := of_decide_eq_true h
  obtain ⟨conversation, hconversation, -⟩ := Option.map_eq_some_iff.mp hkey
  exact decide_eq_true (by rw [Counted.setting, hconversation, Option.map_some])

/-! ## What an access does -/

variable {x y : Shared} {w w' : World} {p : Await} {n : Next} {k : ℕ}

theorem getElem?_picks {α : Type} {as rest : List α} {a : α} (h : (picks as)[k]? = some (a, rest)) :
    as[k]? = some a ∧ as.Perm (a :: rest) := by
  induction as generalizing k rest with
  | nil => cases h
  | cons b as ih =>
    cases k with
    | zero =>
      cases h
      exact ⟨rfl, .refl _⟩
    | succ k =>
      simp only [picks, List.getElem?_cons_succ, List.getElem?_map, Option.map_eq_some_iff, Prod.mk.injEq] at h
      obtain ⟨⟨a', rest'⟩, hpick, rfl, rfl⟩ := h
      obtain ⟨hget, hperm⟩ := ih hpick
      exact ⟨hget, (hperm.cons b).trans (.swap a' b rest')⟩

inductive Outcome (x : Shared) : Await → ℕ → Shared → Next → Prop where
  | taken (rs : List EmailThrottleRequest) (c : Conversations) (cs : List (Option Claimed)) (n : Next) (k : ℕ)
    (hsets : Sets x.redis.conversations c (livesOf cs))
    (hn : n = .await (.countClaimed cs) ∨ ∃ a, n = .done a) :
    Outcome x (.claimKeys rs) k { x with redis := ⟨c, x.redis.caps⟩ } n
  | counted (cs : List (Option Claimed)) (caps : Caps) (counted : List (Option Counted)) (k : ℕ)
    (hcounted : answerEach (countClaimed x.now) x.redis.caps cs = (caps, counted)) :
    Outcome x (.countClaimed cs) k
      { x with
        redis := ⟨x.redis.conversations, caps⟩
        granted := counted.reduceOption.filter Counted.granted ++ x.granted }
      (giveBackNext (.answered (counted.map answerOf)) (refused counted) [])
  | decremented (answer : Result) (decrements rest : List Counted) (deletes deletes' : List ConversationKey)
    (c : Counted)
    (k : ℕ) (hk : decrements[k]? = some c) (hperm : decrements.Perm (c :: rest)) :
    Outcome x (.giveBack answer decrements deletes) k
      { x with redis := ⟨x.redis.conversations, x.redis.caps.decr x.now c.request.userId⟩ }
      (giveBackNext answer rest deletes')
  | deleted (answer : Result) (decrements : List Counted) (deletes rest : List ConversationKey) (key : ConversationKey)
    (k : ℕ) : Outcome x (.giveBack answer decrements deletes) k
      { x with redis := ⟨x.redis.conversations.del key, x.redis.caps⟩ } (giveBackNext answer decrements rest)

theorem outcome_of_access (h : (access x p)[k]? = some (y, n)) : Outcome x p k y n := by
  cases p with
  | claimKeys rs =>
    have hmem := List.mem_singleton.mp (List.mem_of_getElem? h)
    cases hmem
    refine .taken rs _ _ _ k (sets_claimEach x.now x.redis.conversations rs) ?_
    split
    · exact .inr ⟨_, rfl⟩
    · exact .inl rfl
  | countClaimed cs =>
    have hmem := List.mem_singleton.mp (List.mem_of_getElem? h)
    cases hmem
    exact .counted cs _ _ k rfl
  | giveBack answer decrements deletes =>
    simp only [access, List.getElem?_append, List.getElem?_map] at h
    split at h
    · obtain ⟨⟨c, rest⟩, hpick, heq⟩ := Option.map_eq_some_iff.mp h
      cases heq
      obtain ⟨hk, hperm⟩ := getElem?_picks hpick
      exact .decremented answer decrements rest deletes _ c k hk hperm
    · obtain ⟨⟨key, rest⟩, -, heq⟩ := Option.map_eq_some_iff.mp h
      cases heq
      exact .deleted answer decrements deletes rest key k

theorem held_giveBackNext {f : Call Request Await → ℕ} (o : Request) (answer : Result) (decrements : List Counted)
    (deletes : List ConversationKey) (hnil : f ⟨o, .giveBack answer [] []⟩ = 0) :
    Next.held f o (giveBackNext answer decrements deletes) = f ⟨o, .giveBack answer decrements deletes⟩ := by
  rw [giveBackNext]
  split
  · next hempty => rw [hempty.1, hempty.2, hnil]; rfl
  · rfl

/-! ## Runs -/

def lifeTally (l : ℕ) (w : World) : ℕ := w.shared.granted.countP (setBy l) + w.total (fun c => c.await.lives.count l)

structure Sound (w : World) : Prop where
  tallied : Tallied w.shared.now w.shared.redis.caps
    (fun u v => w.shared.granted.countP (inWindow u v) + w.total (pending (inWindow u v)))
  limit : ∀ u v, outstanding (inWindow u v) w ≤ NOTIFICATION_EMAILS_PER_HOUR
  lives : ∀ l, lifeTally l w ≤ 1
  fresh : ∀ l, w.shared.redis.conversations.lives ≤ l → lifeTally l w = 0

theorem countP_takeGranted {cs granted granted' : List Counted} (h : takeGranted cs granted = some granted')
    (P : Counted → Bool) : granted.countP P = cs.countP P + granted'.countP P := by
  induction cs generalizing granted with
  | nil =>
    cases h
    exact (Nat.zero_add _).symm
  | cons c cs ih =>
    rw [takeGranted] at h
    split at h
    · next hmem =>
      rw [(List.perm_cons_erase hmem).countP_eq, List.countP_cons, List.countP_cons, ih h]
      exact Nat.add_right_comm _ _ _
    · cases h

theorem releasing_le_pending (P : Counted → Bool) (c : Call Request Await) : releasing P c ≤ pending P c := by
  obtain ⟨o, p⟩ := c
  cases p with
  | claimKeys | countClaimed => exact Nat.le_refl _
  | giveBack answer decrements deletes => cases answer <;> first | exact Nat.zero_le _ | exact Nat.le_refl _

/-- The counters and the keys stay, and nothing is held that was not held before. -/
theorem Sound.transfer (h : Sound w) (hcaps : w'.shared.redis.caps = w.shared.redis.caps)
    (hlives : w'.shared.redis.conversations.lives = w.shared.redis.conversations.lives)
    (hnow : w.shared.now ≤ w'.shared.now)
    (hpending : ∀ P, w'.shared.granted.countP P + w'.total (pending P) ≤
      w.shared.granted.countP P + w.total (pending P))
    (houtstanding : ∀ P, outstanding P w' ≤ outstanding P w) (hlife : ∀ l, lifeTally l w' ≤ lifeTally l w) :
    Sound w' := by
  refine ⟨?_, fun u v => Nat.le_trans (houtstanding _) (h.limit u v), fun l => Nat.le_trans (hlife l) (h.lives l),
    fun l hl => ?_⟩
  · rw [hcaps]
    exact (h.tallied.mono fun u v => hpending _).later hnow
  · exact Nat.le_zero.mp (h.fresh l (hlives ▸ hl) ▸ hlife l)

theorem Sound.start {o : Request} (h : Sound w) (he : enter w.shared o = some (w'.shared, p))
    (ht : ∀ f : Call Request Await → ℕ, w'.total f = w.total f + f ⟨o, p⟩) : Sound w' := by
  cases o with
  | claim rs =>
    have hnew : w'.shared = w.shared ∧ (∀ P, pending P ⟨.claim rs, p⟩ = 0) ∧ ∀ l, p.lives.count l = 0 := by
      simp only [enter] at he
      split at he
      · cases he
      split at he
      · next hnone =>
        obtain ⟨hshared, rfl⟩ := Prod.mk.inj (Option.some.inj he)
        refine ⟨hshared.symm, fun P => rfl, fun l => ?_⟩
        rw [Await.lives, livesOf_open hnone, List.count_nil]
      · obtain ⟨hshared, rfl⟩ := Prod.mk.inj (Option.some.inj he)
        exact ⟨hshared.symm, fun P => rfl, fun l => List.count_nil⟩
    obtain ⟨hshared, hpending, hlives⟩ := hnew
    refine h.transfer (by rw [hshared]) (by rw [hshared]) (Nat.le_of_eq (by rw [hshared])) (fun P => ?_) (fun P => ?_)
      fun l => ?_
    · rw [hshared, ht, hpending P, Nat.add_zero]
    · have hreleasing : releasing P ⟨.claim rs, p⟩ = 0 := Nat.le_zero.mp (hpending P ▸ releasing_le_pending P _)
      rw [outstanding, hshared, ht, hreleasing, Nat.add_zero, outstanding]
    · rw [lifeTally, hshared, ht, hlives l, Nat.add_zero, lifeTally]
  | release cs =>
    simp only [enter] at he
    split at he
    · cases he
    obtain ⟨granted, htake, heq⟩ := Option.map_eq_some_iff.mp he
    obtain ⟨hshared, rfl⟩ := Prod.mk.inj heq
    have hgranted : w'.shared.granted = granted := by rw [← hshared]
    have hcount := fun P => countP_takeGranted htake P
    refine h.transfer (by rw [← hshared]) (by rw [← hshared]) (Nat.le_of_eq (by rw [← hshared])) (fun P => ?_)
      (fun P => ?_) fun l => ?_
    · have hnew : pending P ⟨.release cs, .giveBack .released cs []⟩ = cs.countP P := rfl
      rw [hgranted, ht, hnew, hcount P]
      omega
    · have hnew : releasing P ⟨.release cs, .giveBack .released cs []⟩ = cs.countP P := rfl
      rw [outstanding, hgranted, ht, hnew, outstanding, hcount P]
      omega
    · have hnew : (Await.giveBack .released cs []).lives.count l = cs.countP (setBy l) := count_lives cs l
      rw [lifeTally, hgranted, ht, hnew, lifeTally, hcount (setBy l)]
      omega

/-- A decrement gives back an increment that was made in the window of the counter as it is. -/
theorem Sound.decremented {o : Request} {answer : Result} {decrements rest : List Counted}
    {deletes deletes' : List ConversationKey} {d : Counted} (h : Sound w)
    (hshared : w'.shared = { w.shared with
      redis := ⟨w.shared.redis.conversations, w.shared.redis.caps.decr w.shared.now d.request.userId⟩ })
    (hperm : decrements.Perm (d :: rest))
    (hlive : (w.shared.redis.caps.keys.get w.shared.now d.request.userId).map (fun e => e.value.window) =
      some d.window)
    (ht : ∀ f : Call Request Await → ℕ, w'.total f + f ⟨o, .giveBack answer decrements deletes⟩ =
      w.total f + Next.held f o (giveBackNext answer rest deletes')) : Sound w' := by
  have hcount : ∀ P : Counted → Bool, decrements.countP P = rest.countP P + if P d then 1 else 0 :=
    fun P => hperm.countP_eq P ▸ List.countP_cons
  have hpending : ∀ P, w'.total (pending P) + decrements.countP P = w.total (pending P) + rest.countP P := by
    intro P
    have hheld := ht (pending P)
    rw [held_giveBackNext o answer rest deletes' rfl] at hheld
    exact hheld
  have hreleasing : ∀ P, w'.total (releasing P) ≤ w.total (releasing P) := by
    intro P
    have hheld := ht (releasing P)
    have hle : releasing P ⟨o, .giveBack answer rest deletes'⟩ ≤ releasing P ⟨o,
      .giveBack answer decrements deletes⟩ := by
      cases answer with
      | answered => exact Nat.le_refl _
      | released => exact Nat.le.intro (hcount P).symm
    rw [held_giveBackNext o answer rest deletes' (by cases answer <;> rfl)] at hheld
    omega
  have hlives : ∀ l, w'.total (fun c => c.await.lives.count l) ≤ w.total (fun c => c.await.lives.count l) := by
    intro l
    have hheld := ht (fun c => c.await.lives.count l)
    rw [held_giveBackNext o answer rest deletes' rfl] at hheld
    have hkeys : w'.total (fun c => c.await.lives.count l) + (decrements.filterMap Counted.setting).count l =
        w.total (fun c => c.await.lives.count l) + (rest.filterMap Counted.setting).count l := hheld
    rw [count_lives, count_lives, hcount] at hkeys
    omega
  refine ⟨?_, fun u v => ?_, fun l => ?_, fun l hl => ?_⟩
  · rw [hshared]
    refine h.tallied.decr hlive fun u v => ?_
    have hone := hpending (inWindow u v)
    rw [hcount] at hone
    simp only [inWindow, decide_eq_true_eq] at hone
    simp only [more]
    omega
  · have hle := h.limit u v
    rw [outstanding] at hle ⊢
    rw [hshared]
    exact Nat.le_trans (Nat.add_le_add_left (hreleasing _) _) hle
  · have hle := h.lives l
    rw [lifeTally] at hle ⊢
    rw [hshared]
    exact Nat.le_trans (Nat.add_le_add_left (hlives l) _) hle
  · rw [hshared] at hl
    have hzero := h.fresh l hl
    rw [lifeTally] at hzero ⊢
    rw [hshared]
    exact Nat.le_zero.mp (hzero ▸ Nat.add_le_add_left (hlives l) _)

/-- The keys that are set for a batch are new. -/
theorem Sound.taken {o : Request} {rs : List EmailThrottleRequest} {conversations : Conversations}
    {cs : List (Option Claimed)} (h : Sound w)
    (hshared : w'.shared = { w.shared with redis := ⟨conversations, w.shared.redis.caps⟩ })
    (hsets : Sets w.shared.redis.conversations conversations (livesOf cs))
    (hn : n = .await (.countClaimed cs) ∨ ∃ a, n = .done a)
    (ht : ∀ f : Call Request Await → ℕ, w'.total f + f ⟨o, .claimKeys rs⟩ = w.total f + Next.held f o n) :
    Sound w' := by
  have hpending : ∀ P, w'.total (pending P) = w.total (pending P) := by
    intro P
    rcases hn with rfl | ⟨a, rfl⟩ <;> exact ht (pending P)
  have hreleasing : ∀ P, w'.total (releasing P) = w.total (releasing P) := by
    intro P
    rcases hn with rfl | ⟨a, rfl⟩ <;> exact ht (releasing P)
  have hlives : ∀ l, lifeTally l w' ≤ lifeTally l w + (livesOf cs).count l := by
    intro l
    have hheld := ht (fun c => c.await.lives.count l)
    have hle : w'.total (fun c => c.await.lives.count l) ≤
        w.total (fun c => c.await.lives.count l) + (livesOf cs).count l := by
      rcases hn with rfl | ⟨a, rfl⟩
      · exact Nat.le_of_eq hheld
      · exact Nat.le_trans (Nat.le_of_eq hheld) (Nat.le_add_right _ _)
    rw [lifeTally, hshared, lifeTally, Nat.add_assoc]
    exact Nat.add_le_add_left hle _
  refine ⟨?_, fun u v => ?_, fun l => ?_, fun l hl => ?_⟩
  · rw [hshared]
    simp only [hpending]
    exact h.tallied
  · rw [outstanding, hshared, hreleasing]
    exact h.limit u v
  · rcases Nat.eq_zero_or_pos ((livesOf cs).count l) with hnone | hpos
    · have hle := hlives l
      rw [hnone, Nat.add_zero] at hle
      exact Nat.le_trans hle (h.lives l)
    · have hle := hlives l
      rw [h.fresh l (hsets.range l hpos).1, Nat.zero_add] at hle
      exact Nat.le_trans hle (hsets.one l)
  · rw [hshared] at hl
    have hnone : (livesOf cs).count l = 0 := by
      by_contra hne
      exact absurd (hsets.range l (Nat.pos_of_ne_zero hne)).2 (Nat.not_lt.mpr hl)
    have hle := hlives l
    rw [hnone, h.fresh l (Nat.le_trans hsets.le hl)] at hle
    exact Nat.le_zero.mp hle

/-- A batch is granted as far as its counters are within the limit. -/
theorem Sound.counted {o : Request} {cs : List (Option Claimed)} {caps : Caps} {counted : List (Option Counted)}
    (h : Sound w)
    (hshared : w'.shared = { w.shared with
      redis := ⟨w.shared.redis.conversations, caps⟩
      granted := counted.reduceOption.filter Counted.granted ++ w.shared.granted })
    (hcounted : answerEach (countClaimed w.shared.now) w.shared.redis.caps cs = (caps, counted))
    (ht : ∀ f : Call Request Await → ℕ, w'.total f + f ⟨o, .countClaimed cs⟩ =
      w.total f + Next.held f o (giveBackNext (.answered (counted.map answerOf)) (refused counted) [])) :
    Sound w' := by
  have hsplit : ∀ P : Counted → Bool, counted.reduceOption.countP P =
      (counted.reduceOption.filter Counted.granted).countP P + (refused counted).countP P :=
    fun P => List.countP_eq_countP_filter_add _ P Counted.granted
  have hpending : ∀ P, w'.total (pending P) = w.total (pending P) + (refused counted).countP P := by
    intro P
    have hheld := ht (pending P)
    rw [held_giveBackNext o _ _ _ rfl] at hheld
    exact hheld
  have hreleasing : ∀ P, w'.total (releasing P) = w.total (releasing P) := by
    intro P
    have hheld := ht (releasing P)
    rw [held_giveBackNext o _ _ _ rfl] at hheld
    exact hheld
  have hlives : ∀ l, lifeTally l w' = lifeTally l w := by
    intro l
    have hheld := ht (fun c => c.await.lives.count l)
    rw [held_giveBackNext o _ _ _ rfl] at hheld
    have hkeys : w'.total (fun c => c.await.lives.count l) + (livesOf cs).count l =
        w.total (fun c => c.await.lives.count l) + ((refused counted).filterMap Counted.setting).count l := hheld
    have hsame : (livesOf cs).count l = counted.reduceOption.countP (setBy l) := by
      rw [← count_lives, ← lives_countEach w.shared.now w.shared.redis.caps, hcounted]
    rw [count_lives, hsame, hsplit] at hkeys
    rw [lifeTally, hshared, List.countP_append, lifeTally]
    omega
  have htallied := h.tallied.countEach cs
  rw [hcounted] at htallied
  refine ⟨?_, fun u v => ?_, fun l => hlives l ▸ h.lives l, fun l hl => ?_⟩
  · rw [hshared]
    refine htallied.mono fun u v => ?_
    rw [hpending, List.countP_append, hsplit]
    omega
  · have hle : ∀ u v, (fun u v => outstanding (inWindow u v) w) u v ≤
        w.shared.granted.countP (inWindow u v) + w.total (pending (inWindow u v)) :=
      fun u v => Nat.add_le_add_left (World.total_le_total (releasing_le_pending _)) _
    have hgranted := h.tallied.grantEach cs hle h.limit u v
    simp only [hcounted, outstanding] at hgranted
    rw [outstanding, hshared, hreleasing, List.countP_append]
    omega
  · rw [hshared] at hl
    exact (hlives l).trans (h.fresh l hl)

theorem Sound.access {c : Call Request Await} (h : Sound w) (ho : Outcome w.shared c.await k w'.shared n)
    (hlive : ∀ d ∈ c.await.counted[k]?,
      (w.shared.redis.caps.keys.get w.shared.now d.request.userId).map (fun e => e.value.window) = some d.window)
    (ht : ∀ f, w'.total f + f c = w.total f + Next.held f c.origin n) : Sound w' := by
  obtain ⟨o, p⟩ := c
  generalize hshared : w'.shared = y at ho
  cases ho with
  | taken rs conversations cs n k hsets hn => exact h.taken hshared hsets hn ht
  | counted cs caps counted k hcounted => exact h.counted hshared hcounted ht
  | decremented answer decrements rest deletes deletes' d k hk hperm =>
    exact h.decremented hshared hperm (hlive d hk) ht
  | deleted answer decrements deletes rest key k =>
    have hsame : ∀ f : Call Request Await → ℕ, f ⟨o, .giveBack answer [] []⟩ = 0 →
        f ⟨o, .giveBack answer decrements rest⟩ = f ⟨o, .giveBack answer decrements deletes⟩ →
          w'.total f = w.total f := by
      intro f hnil hf
      have hheld := ht f
      rw [held_giveBackNext o answer decrements rest hnil, hf] at hheld
      exact Nat.add_right_cancel hheld
    refine h.transfer (by rw [hshared]) (by rw [hshared]; rfl) (Nat.le_of_eq (by rw [hshared])) (fun P => ?_)
      (fun P => ?_) fun l => ?_
    · rw [hshared, hsame (pending P) rfl rfl]
    · rw [outstanding, hshared, hsame (releasing P) (by cases answer <;> rfl) (by cases answer <;> rfl), outstanding]
    · rw [lifeTally, hshared, hsame (fun c => c.await.lives.count l) rfl rfl, lifeTally]

theorem Sound.step {m : Move} {res : Option Result} (h : Sound w) (hok : Undisturbed w m)
    (hs : machine.step w m = some (w', res)) : Sound w' := by
  cases m with
  | access i k =>
    obtain ⟨c, n, hc, hk, ht⟩ := Machine.total_of_access hs
    exact h.access (outcome_of_access hk) (hok c hc) ht
  | start o =>
    simp only [Machine.step, Option.map_eq_some_iff, Prod.mk.injEq] at hs
    obtain ⟨⟨s, p⟩, he, rfl, -⟩ := hs
    exact h.start he fun f => World.total_push f s ⟨o, p⟩
  | crash i =>
    simp only [Machine.step, Option.some.injEq, Prod.mk.injEq] at hs
    obtain ⟨rfl, -⟩ := hs
    exact h.transfer rfl rfl (Nat.le_refl _) (fun P => Nat.add_le_add_left (World.total_put_none_le _ _ i) _)
      (fun P => Nat.add_le_add_left (World.total_put_none_le _ _ i) _)
      fun l => Nat.add_le_add_left (World.total_put_none_le _ _ i) _
  | environment e =>
    cases e with
    | tick ms =>
      simp only [Machine.step, Option.map_eq_some_iff, Prod.mk.injEq] at hs
      obtain ⟨s, he, rfl, -⟩ := hs
      cases he
      exact h.transfer rfl rfl (Nat.le_add_right _ _) (fun P => Nat.le_refl _) (fun P => Nat.le_refl _)
        fun l => Nat.le_refl _

/-- The throttles answer alike when no key is at its expiry. While no counter expires between an increment and its
give-back, a user has at most `NOTIFICATION_EMAILS_PER_HOUR` requests granted and not given back in a window of the
counter, and at most one for a setting of a conversation key. -/
theorem throttles_agree_and_hold_limits :
    (∀ bs : List (Instant × Batch), (bs.map Prod.fst).Pairwise (· ≤ ·) → Timely .empty bs →
      answers Redis.perform .empty bs = answers InMemory.perform .empty bs) ∧
    ∀ (now : Instant) (w : World), Machine.Run machine Undisturbed (World.initial (startingAt now)) w →
      (∀ u v, outstanding (inWindow u v) w ≤ NOTIFICATION_EMAILS_PER_HOUR) ∧
        ∀ k l, outstanding (inLife k l) w ≤ 1 := by
  refine ⟨fun bs htimes hapart => answers_agree bs htimes hapart, fun now w hrun => ?_⟩
  have hstart : Sound (World.initial (startingAt now)) :=
    ⟨⟨fun u v _ => rfl, fun u e he => (by cases he), fun u e he => (by cases he)⟩, fun u v => Nat.zero_le _,
      fun l => Nat.zero_le _, fun l _ => rfl⟩
  have hsound : Sound w := hrun.invariant hstart (fun hw hok hs => hw.step hok hs)
  refine ⟨hsound.limit, fun key l => Nat.le_trans (Nat.add_le_add ?_ (World.total_le_total fun c => ?_))
    (hsound.lives l)⟩
  · exact List.countP_mono_left fun d _ => setBy_of_inLife
  · refine Nat.le_trans (releasing_le_pending _ c) ?_
    obtain ⟨o, p⟩ := c
    cases p with
    | claimKeys | countClaimed => exact Nat.zero_le _
    | giveBack answer decrements deletes =>
      have hle : decrements.countP (inLife key l) ≤ decrements.countP (setBy l) :=
        List.countP_mono_left fun d _ => setBy_of_inLife
      exact Nat.le_trans hle (Nat.le_of_eq (count_lives decrements l).symm)

/-- Two requests of one conversation and twenty others of the same user: one of each kind is refused. -/
def fullBatch : List EmailThrottleRequest := ⟨1, some 7⟩ :: ⟨1, some 7⟩ :: List.replicate 20 ⟨1, none⟩

/-- The batch is claimed, and what the counter refuses is given back. Then a granted request is released. -/
def claimsAndRelease : List Move :=
  [.start (.claim fullBatch), .access 0 0, .access 0 0, .access 0 0, .start (.release [⟨⟨1, some 7⟩, 0, 0, true⟩]),
    .access 1 0, .access 1 0]

theorem full_batch_holds_limits :
    answers Redis.perform .empty [(5, .claim fullBatch)] = answers InMemory.perform .empty [(5, .claim fullBatch)] ∧
    ∃ w : World, w.shared.granted.length = 19 ∧ outstanding (inWindow 1 0) w ≤ NOTIFICATION_EMAILS_PER_HOUR ∧
      outstanding (inLife (1, 7) 0) w ≤ 1 := by
  refine ⟨throttles_agree_and_hold_limits.1 _ (List.pairwise_singleton _ _)
    ⟨⟨fun k e he => (by cases he), fun u e he => (by cases he)⟩, trivial⟩, ?_⟩
  have hruns : (machine.perform (World.initial (startingAt 5)) claimsAndRelease).any
      (fun w => decide (w.shared.granted.length = 19)) = true := by decide +kernel
  obtain ⟨w, hw, hP⟩ := (Option.any_eq_true _ _).mp hruns
  obtain ⟨hwindow, hlife⟩ :=
    throttles_agree_and_hold_limits.2 5 w (Machine.run_of_perform (by decide +kernel) hw)
  exact ⟨w, of_decide_eq_true hP, hwindow 1 0, hlife (1, 7) 0⟩

end Civfix.EmailThrottle
