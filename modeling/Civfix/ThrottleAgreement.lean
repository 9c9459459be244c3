import Civfix.EmailThrottle
import Mathlib.Data.List.ReduceOption

/-! # The two throttles agree

Inside a batch the counters of Redis run ahead of those of the process by what they have refused so far, and the
conversation keys of what they have refused are set in Redis only. Giving back the refused requests ends both. -/
namespace Civfix.EmailThrottle

open ExpiringKeys

variable {now now' : Instant} {t : Conversations} {a : Caps} {m : InMemory} {R rs : List EmailThrottleRequest}
  {r r' : EmailThrottleRequest} {k : ConversationKey} {u : UserId} {e : Entry ℕ}

def refusals (R : List EmailThrottleRequest) (u : UserId) : ℕ := R.countP (fun r => decide (r.userId = u))

/-- The process has served the same requests, of which Redis has still to give back `R`. -/
structure Follows (now : Instant) (t : Conversations) (a : Caps) (m : InMemory) (R : List EmailThrottleRequest) :
    Prop where
  conversations : ∀ k, (m.conversations.left now k).map (Entry.seen (fun _ => ())) =
    if some k ∈ R.map EmailThrottleRequest.key then none else (t.keys.get now k).map (Entry.seen (fun _ => ()))
  caps : ∀ u, (a.keys.get now u).map (Entry.seen Counter.count) =
    (m.caps.left now u).map (Entry.seen (fun n => n + refusals R u))
  full : ∀ u, 0 < refusals R u → ∃ e, m.caps.left now u = some e ∧ e.value = NOTIFICATION_EMAILS_PER_HOUR
  le : ∀ u e, m.caps.left now u = some e → e.value ≤ NOTIFICATION_EMAILS_PER_HOUR

/-! ## Requests -/

theorem userId_of_key (h : r.key = some k) : r.userId = k.1 := by
  obtain ⟨c, -, rfl⟩ := Option.map_eq_some_iff.mp h
  rfl

theorem refusals_pos (h : r ∈ R) : 0 < refusals R r.userId :=
  List.countP_pos_iff.mpr ⟨r, h, decide_eq_true rfl⟩

theorem refusals_pos_of_key (h : some k ∈ R.map EmailThrottleRequest.key) : 0 < refusals R k.1 := by
  obtain ⟨r, hr, hkey⟩ := List.mem_map.mp h
  exact userId_of_key hkey ▸ refusals_pos hr

theorem refusals_append (R : List EmailThrottleRequest) (r : EmailThrottleRequest) (u : UserId) :
    refusals (R ++ [r]) u = refusals R u + if r.userId = u then 1 else 0 := by
  simp only [refusals, List.countP_append, List.countP_cons, List.countP_nil, Nat.zero_add, decide_eq_true_eq]

theorem refusals_cons (r : EmailThrottleRequest) (R : List EmailThrottleRequest) (u : UserId) :
    refusals (r :: R) u = refusals R u + if r.userId = u then 1 else 0 := by
  simp only [refusals, List.countP_cons, decide_eq_true_eq]

/-! ## Keys and counters -/

theorem Caps.incr_of_some {c : Entry Counter} (h : a.keys.get now u = some c) :
    a.incr now u = (⟨a.keys.put u ⟨⟨c.value.count + 1, c.value.window⟩, c.expiresAt⟩, a.windows⟩,
      ⟨c.value.count + 1, c.value.window⟩) := by
  simp only [Caps.incr, h]

theorem Caps.incr_of_none (h : a.keys.get now u = none) :
    a.incr now u = (⟨a.keys.put u ⟨⟨1, a.windows⟩, now + WINDOW_MS⟩, a.windows + 1⟩, ⟨1, a.windows⟩) := by
  simp only [Caps.incr, h]

theorem lt_window (now : Instant) : now < now + WINDOW_MS := Nat.lt_add_of_pos_right (by decide)

/-- No key is in the way of the request. -/
def Passes (now : Instant) (t : Conversations) (r : EmailThrottleRequest) : Prop := ∀ k ∈ r.key, t.keys.get now k = none

theorem claimKey_of_passes (h : Passes now t r) :
    ∃ life, claimKey now t r =
      (r.key.elim t (fun k => ⟨t.keys.put k ⟨t.lives, now + WINDOW_MS⟩, t.lives + 1⟩), some ⟨r, life⟩) := by
  cases hkey : r.key with
  | none => exact ⟨0, by simp only [claimKey, hkey, Option.elim_none]⟩
  | some k =>
    refine ⟨t.lives, ?_⟩
    simp only [claimKey, hkey, Conversations.setNx, h k hkey, Option.elim_some, Option.map_some]

theorem claimKey_of_held {c : Entry ℕ} (hkey : r.key = some k) (h : t.keys.get now k = some c) :
    claimKey now t r = (t, none) := by
  simp only [claimKey, hkey, Conversations.setNx, h, Option.map_none]

/-! ## One request -/

theorem Follows.not_holds (h : Follows now t a m R) (hpass : Passes now t r) : ¬ m.Holds now r := by
  rintro ⟨k, hk, hleft⟩
  have hconv := h.conversations k
  rw [hpass k hk, Option.map_none, ite_self] at hconv
  exact hleft (Option.map_eq_none_iff.mp hconv)

theorem liveCap_of_left (h : m.caps.left now u = some e) : m.liveCap now u = (m, e) := by
  simp only [InMemory.liveCap, h]

theorem claimOne_of_full (hnot : ¬ m.Holds now r) (hleft : m.caps.left now r.userId = some e)
    (hfull : e.value = NOTIFICATION_EMAILS_PER_HOUR) : InMemory.claimOne now m r = (m, false) := by
  rw [InMemory.claimOne, if_neg hnot, liveCap_of_left hleft, if_pos (Nat.le_of_eq hfull.symm)]

/-- Both refuse a request whose conversation has its key: if the process has not set it, the counter is full. -/
theorem Follows.claimOne_of_held (h : Follows now t a m R) {c : Entry ℕ} (hkey : r.key = some k)
    (hget : t.keys.get now k = some c) : InMemory.claimOne now m r = (m, false) := by
  have hconv := h.conversations k
  by_cases hrefused : some k ∈ R.map EmailThrottleRequest.key
  · rw [if_pos hrefused, Option.map_eq_none_iff] at hconv
    have hnot : ¬ m.Holds now r := by
      rintro ⟨k', hk', hleft⟩
      obtain rfl : k = k' := Option.some.inj (hkey.symm.trans hk')
      exact hleft hconv
    have huser : r.userId = k.1 := userId_of_key hkey
    obtain ⟨e, hleft, hfull⟩ := h.full r.userId (huser ▸ refusals_pos_of_key hrefused)
    exact claimOne_of_full hnot hleft hfull
  · rw [if_neg hrefused, hget, Option.map_some] at hconv
    obtain ⟨e, hleft, -⟩ := Option.map_eq_some_iff.mp hconv
    have hholds : m.Holds now r := ⟨k, hkey, by rw [hleft]; exact Option.some_ne_none e⟩
    rw [InMemory.claimOne, if_pos hholds]

theorem Follows.incr (h : Follows now t a m R) (hleft : m.caps.left now u = some e) :
    ∃ w, a.incr now u = (⟨a.keys.put u ⟨⟨e.value + refusals R u + 1, w⟩, e.expiresAt⟩, a.windows⟩,
      ⟨e.value + refusals R u + 1, w⟩) := by
  have hcaps := h.caps u
  rw [hleft, Option.map_some] at hcaps
  obtain ⟨c, hget, hseen⟩ := Option.map_eq_some_iff.mp hcaps
  obtain ⟨hcount, hexpires⟩ := Prod.mk.inj hseen
  refine ⟨c.value.window, ?_⟩
  rw [Caps.incr_of_some hget, hcount, hexpires]

/-- The counter that the process finds or opens, if it is not full. -/
structure Open (now : Instant) (m : InMemory) (u : UserId) (e : Entry ℕ) : Prop where
  found : m.caps.left now u = some e ∨ (m.caps.left now u = none ∧ e = ⟨0, now + WINDOW_MS⟩)
  lt : e.value < NOTIFICATION_EMAILS_PER_HOUR

theorem Open.expires (ho : Open now m u e) : now < e.expiresAt := by
  rcases ho.found with hleft | ⟨-, rfl⟩
  · exact (Store.left_eq_some.mp hleft).2
  · exact lt_window now

theorem Follows.refusals_eq (h : Follows now t a m R) (ho : Open now m u e) : refusals R u = 0 := by
  by_contra hne
  obtain ⟨e', hleft', hfull⟩ := h.full u (Nat.pos_of_ne_zero hne)
  rcases ho.found with hleft | ⟨hnone, -⟩
  · obtain rfl := Option.some.inj (hleft.symm.trans hleft')
    exact absurd hfull (Nat.ne_of_lt ho.lt)
  · cases hnone.symm.trans hleft'

theorem Follows.incr_open (h : Follows now t a m R) (ho : Open now m u e) :
    ∃ w n, a.incr now u = (⟨a.keys.put u ⟨⟨e.value + 1, w⟩, e.expiresAt⟩, n⟩, ⟨e.value + 1, w⟩) := by
  rcases ho.found with hleft | ⟨hnone, rfl⟩
  · obtain ⟨w, hincr⟩ := h.incr hleft
    rw [h.refusals_eq ho, Nat.add_zero] at hincr
    exact ⟨w, _, hincr⟩
  · have hcaps := h.caps u
    rw [hnone, Option.map_none, Option.map_eq_none_iff] at hcaps
    exact ⟨_, _, Caps.incr_of_none hcaps⟩

theorem claimOne_of_open (hnot : ¬ m.Holds now r) (ho : Open now m r.userId e) :
    InMemory.claimOne now m r = (m.grant now r e, true) := by
  rcases ho.found with hleft | ⟨hnone, rfl⟩
  · rw [InMemory.claimOne, if_neg hnot, liveCap_of_left hleft, if_neg (Nat.not_le.mpr ho.lt)]
  · rw [InMemory.claimOne, if_neg hnot]
    simp only [InMemory.liveCap, hnone, if_neg (Nat.not_le.mpr ho.lt), InMemory.grant, Store.put_put]

/-- The request is granted, and both set the key and count it. -/
theorem Follows.grant (h : Follows now t a m R) (ho : Open now m r.userId e) {w n l : ℕ} :
    Follows now (r.key.elim t (fun k => ⟨t.keys.put k ⟨l, now + WINDOW_MS⟩, t.lives + 1⟩))
      ⟨a.keys.put r.userId ⟨⟨e.value + 1, w⟩, e.expiresAt⟩, n⟩ (m.grant now r e) R := by
  have hnone := h.refusals_eq ho
  refine ⟨fun k => ?_, fun u => ?_, fun u hu => ?_, fun u e' hleft => ?_⟩
  · have hconv := h.conversations k
    cases hkey : r.key with
    | none => simpa only [InMemory.grant, hkey, Option.elim_none] using hconv
    | some k' =>
      simp only [InMemory.grant, hkey, Option.elim_some]
      by_cases hk : k = k'
      · subst hk
        have hnot : some k ∉ R.map EmailThrottleRequest.key := fun hmem =>
          absurd (userId_of_key hkey ▸ hnone) (Nat.ne_of_gt (refusals_pos_of_key hmem))
        rw [if_neg hnot, Store.left_put_self (lt_window now), Store.get_put_self (Nat.le_of_lt (lt_window now))]
        rfl
      · rw [Store.left_put_of_ne hk, Store.get_put_of_ne hk]
        exact hconv
  · by_cases hu : u = r.userId
    · subst hu
      simp only [InMemory.grant]
      rw [Store.get_put_self (by exact Nat.le_of_lt ho.expires), Store.left_put_self (by exact ho.expires), hnone]
      rfl
    · simp only [InMemory.grant]
      rw [Store.get_put_of_ne hu, Store.left_put_of_ne hu]
      exact h.caps u
  · have hne : u ≠ r.userId := fun heq => absurd (heq ▸ hnone) (Nat.ne_of_gt hu)
    simp only [InMemory.grant]
    rw [Store.left_put_of_ne hne]
    exact h.full u hu
  · by_cases hu : u = r.userId
    · subst hu
      simp only [InMemory.grant] at hleft
      rw [Store.left_put_self (by exact ho.expires)] at hleft
      cases hleft
      exact ho.lt
    · simp only [InMemory.grant] at hleft
      rw [Store.left_put_of_ne hu] at hleft
      exact h.le u e' hleft

/-- The counter refuses the request, which Redis has to give back. -/
theorem Follows.refuse (h : Follows now t a m R) (hpass : Passes now t r) (hleft : m.caps.left now r.userId = some e)
    (hfull : e.value = NOTIFICATION_EMAILS_PER_HOUR) {w n l : ℕ} :
    Follows now (r.key.elim t (fun k => ⟨t.keys.put k ⟨l, now + WINDOW_MS⟩, t.lives + 1⟩))
      ⟨a.keys.put r.userId ⟨⟨e.value + refusals R r.userId + 1, w⟩, e.expiresAt⟩, n⟩ m (R ++ [r]) := by
  refine ⟨fun k => ?_, fun u => ?_, fun u hu => ?_, h.le⟩
  · have hconv := h.conversations k
    simp only [List.map_append, List.map_cons, List.map_nil, List.mem_append, List.mem_singleton]
    by_cases hk : r.key = some k
    · rw [hpass k hk, Option.map_none, ite_self] at hconv
      rw [hconv, if_pos (.inr hk.symm)]
    · have hor : (some k ∈ R.map EmailThrottleRequest.key ∨ some k = r.key) ↔
          some k ∈ R.map EmailThrottleRequest.key := or_iff_left (fun heq => hk heq.symm)
      simp only [hor]
      cases hkey : r.key with
      | none => exact hconv
      | some k' =>
        have hne : k ≠ k' := fun heq => hk (heq ▸ hkey)
        rw [Option.elim_some, Store.get_put_of_ne hne]
        exact hconv
  · rw [refusals_append]
    by_cases hu : u = r.userId
    · subst hu
      rw [Store.get_put_self (by exact Nat.le_of_lt (Store.left_eq_some.mp hleft).2), hleft, if_pos rfl]
      rfl
    · rw [Store.get_put_of_ne hu, if_neg (Ne.symm hu)]
      exact h.caps u
  · rw [refusals_append] at hu
    by_cases heq : r.userId = u
    · exact ⟨e, heq ▸ hleft, hfull⟩
    · rw [if_neg heq] at hu
      exact h.full u hu

theorem refused_none : refused [none] = [] := rfl

theorem refused_refused {c : Counted} (h : c.granted = false) : refused [some c] = [c] := by
  simp [refused, List.reduceOption, h]

theorem refused_granted {c : Counted} (h : c.granted = true) : refused [some c] = [] := by
  simp [refused, List.reduceOption, h]

/-- One request of a batch. -/
theorem Follows.claimOne (h : Follows now t a m R) (r : EmailThrottleRequest) :
    let x := claimKey now t r
    let y := countClaimed now a x.2
    answerOf y.2 = (InMemory.claimOne now m r).2 ∧
      Follows now x.1 y.1 (InMemory.claimOne now m r).1 (R ++ (refused [y.2]).map Counted.request) := by
  intro x y
  by_cases hpass : Passes now t r
  · have hnot := h.not_holds hpass
    obtain ⟨life, hx⟩ := claimKey_of_passes hpass
    have hy : y = countClaimed now a (some ⟨r, life⟩) := by simp only [y, x, hx]
    have hx' : x = _ := hx
    rw [hx', hy]
    by_cases hfull : ∃ e, m.caps.left now r.userId = some e ∧ e.value = NOTIFICATION_EMAILS_PER_HOUR
    · obtain ⟨e, hleft, hvalue⟩ := hfull
      obtain ⟨w, hincr⟩ := h.incr hleft
      have hover : ¬ e.value + refusals R r.userId + 1 ≤ NOTIFICATION_EMAILS_PER_HOUR := by omega
      simp only [countClaimed, hincr, decide_eq_false hover]
      rw [claimOne_of_full hnot hleft hvalue, refused_refused rfl]
      exact ⟨rfl, h.refuse hpass hleft hvalue⟩
    · have hopen : ∃ e, Open now m r.userId e := by
        cases hleft : m.caps.left now r.userId with
        | none => exact ⟨_, .inr ⟨hleft, rfl⟩, Nat.succ_pos 19⟩
        | some e => exact ⟨e, .inl hleft, Nat.lt_of_le_of_ne (h.le _ e hleft) fun heq => hfull ⟨e, hleft, heq⟩⟩
      obtain ⟨e, ho⟩ := hopen
      obtain ⟨w, n, hincr⟩ := h.incr_open ho
      have hwithin : e.value + 1 ≤ NOTIFICATION_EMAILS_PER_HOUR := ho.lt
      simp only [countClaimed, hincr, decide_eq_true hwithin]
      rw [claimOne_of_open hnot ho, refused_granted rfl, List.map_nil, List.append_nil]
      exact ⟨rfl, h.grant ho⟩
  · simp only [Passes, not_forall] at hpass
    obtain ⟨k, hkey, hheld⟩ := hpass
    obtain ⟨c, hget⟩ := Option.ne_none_iff_exists'.mp hheld
    have hx : x = (t, none) := claimKey_of_held hkey hget
    have hy : y = (a, none) := by simp only [y, hx, countClaimed]
    rw [hx, hy, h.claimOne_of_held hkey hget]
    exact ⟨rfl, by rwa [refused_none, List.map_nil, List.append_nil]⟩

/-! ## Batches -/

theorem refused_cons (o : Option Counted) (cs : List (Option Counted)) :
    refused (o :: cs) = refused [o] ++ refused cs := by
  simp only [refused, List.reduceOption, List.filterMap_cons, List.filterMap_nil]
  cases o with
  | none => rfl
  | some c => exact List.filter_append [c] _

theorem Follows.claimEach (h : Follows now t a m R) (rs : List EmailThrottleRequest) :
    let x := answerEach (claimKey now) t rs
    let y := answerEach (countClaimed now) a x.2
    y.2.map answerOf = (InMemory.claim now m rs).2 ∧
      Follows now x.1 y.1 (InMemory.claim now m rs).1 (R ++ (refused y.2).map Counted.request) := by
  induction rs generalizing t a m R with
  | nil => exact ⟨rfl, (List.append_nil R).symm ▸ h⟩
  | cons r rs ih =>
    obtain ⟨hanswer, hone⟩ := h.claimOne r
    obtain ⟨hanswers, hrest⟩ := ih hone
    refine ⟨?_, ?_⟩
    · simp only [InMemory.claim, answerEach_cons, List.map_cons]
      exact congrArg₂ List.cons hanswer hanswers
    · simp only [answerEach_cons]
      rw [refused_cons, List.map_append, ← List.append_assoc]
      exact hrest

/-- Redis gives back one refused request. -/
theorem Follows.giveBack (h : Follows now t a m (r :: R)) :
    Follows now (r.key.elim t t.del) (a.decr now r.userId) m R := by
  have hpos : 0 < refusals (r :: R) r.userId := refusals_pos List.mem_cons_self
  obtain ⟨e, hleft, -⟩ := h.full r.userId hpos
  have hcounter := h.caps r.userId
  rw [hleft, Option.map_some, refusals_cons, if_pos rfl] at hcounter
  obtain ⟨c, hget, hseen⟩ := Option.map_eq_some_iff.mp hcounter
  obtain ⟨hcount, hexpires⟩ := Prod.mk.inj hseen
  refine ⟨fun k => ?_, fun u => ?_, fun u hu => ?_, h.le⟩
  · have hconv := h.conversations k
    simp only [List.map_cons, List.mem_cons] at hconv
    by_cases hk : r.key = some k
    · rw [if_pos (.inl hk.symm)] at hconv
      rw [hconv, hk, Option.elim_some, Conversations.del, Store.get_delete_self, Option.map_none, ite_self]
    · have hor : (some k = r.key ∨ some k ∈ R.map EmailThrottleRequest.key) ↔
          some k ∈ R.map EmailThrottleRequest.key := or_iff_right (fun heq => hk heq.symm)
      simp only [hor] at hconv
      cases hkey : r.key with
      | none => exact hconv
      | some k' =>
        have hne : k ≠ k' := fun heq => hk (heq ▸ hkey)
        rw [Option.elim_some, Conversations.del, Store.get_delete_of_ne hne]
        exact hconv
  · have hdecr : a.decr now r.userId =
        { a with keys := a.keys.put r.userId ⟨⟨c.value.count - 1, c.value.window⟩, c.expiresAt⟩ } := by
      simp only [Caps.decr, hget]
    rw [hdecr]
    by_cases hu : u = r.userId
    · subst hu
      have hone : c.value.count - 1 = e.value + refusals R r.userId := by
        have hvalue : c.value.count = e.value + (refusals R r.userId + 1) := hcount
        rw [hvalue, ← Nat.add_assoc, Nat.add_sub_cancel]
      rw [Store.get_put_self (by exact (Store.get_eq_some.mp hget).2), hleft, hone, hexpires]
      rfl
    · have hcaps := h.caps u
      rw [refusals_cons, if_neg (Ne.symm hu)] at hcaps
      rw [Store.get_put_of_ne hu]
      exact hcaps
  · refine h.full u ?_
    rw [refusals_cons]
    exact Nat.lt_of_lt_of_le hu (Nat.le_add_right _ _)

theorem Follows.release (h : Follows now t a m R) :
    Follows now (Redis.release now ⟨t, a⟩ R).conversations (Redis.release now ⟨t, a⟩ R).caps m [] := by
  induction R generalizing t a with
  | nil => exact h
  | cons r R ih => exact ih h.giveBack

/-- Nothing is left to give back. -/
abbrev Agrees (now : Instant) (s : Redis) (m : InMemory) : Prop := Follows now s.conversations s.caps m []

variable {s : Redis}

theorem Agrees.claim (h : Agrees now s m) (rs : List EmailThrottleRequest) :
    (s.claim now rs).2 = (m.claim now rs).2 ∧ Agrees now (s.claim now rs).1 (m.claim now rs).1 := by
  obtain ⟨hanswers, hfollows⟩ := h.claimEach rs
  exact ⟨hanswers, hfollows.release⟩

theorem Agrees.conversations (h : Agrees now s m) :
    Store.Agree now (fun _ => ()) (fun _ => ()) s.conversations.keys m.conversations := by
  intro k
  have hconv := Follows.conversations h k
  rw [List.map_nil, if_neg List.not_mem_nil] at hconv
  exact hconv.symm

theorem Agrees.caps (h : Agrees now s m) : Store.Agree now Counter.count id s.caps.keys m.caps := Follows.caps h

theorem agrees_of_stores
    (hconv : Store.Agree now (fun _ => ()) (fun _ => ()) s.conversations.keys m.conversations)
    (hcaps : Store.Agree now Counter.count id s.caps.keys m.caps)
    (hle : ∀ u e, m.caps.left now u = some e → e.value ≤ NOTIFICATION_EMAILS_PER_HOUR) : Agrees now s m := by
  refine ⟨fun k => ?_, hcaps, fun u hu => absurd hu (Nat.lt_irrefl 0), hle⟩
  rw [List.map_nil, if_neg List.not_mem_nil]
  exact (hconv k).symm

theorem agree_giveBack {c : Conversations} {d : Store ConversationKey Unit}
    (h : Store.Agree now (fun _ => ()) (fun _ => ()) c.keys d) (key : Option ConversationKey) :
    Store.Agree now (fun _ => ()) (fun _ => ()) (key.elim c c.del).keys (key.elim d d.delete) := by
  cases key with
  | none => exact h
  | some k => exact h.delete k

/-- Redis and the process give back the same request. -/
theorem Agrees.giveBack (h : Agrees now s m) (r : EmailThrottleRequest) :
    Agrees now (s.giveBack now r) (m.giveBack now r) := by
  have hcounter := h.caps r.userId
  cases hleft : m.caps.left now r.userId with
  | none =>
    rw [hleft, Option.map_none, Option.map_eq_none_iff] at hcounter
    refine agrees_of_stores (agree_giveBack h.conversations r.key) ?_ ?_
    · simp only [Redis.giveBack, InMemory.giveBack, Caps.decr, hcounter, hleft]
      exact h.caps
    · simp only [InMemory.giveBack, hleft]
      exact h.le
  | some e =>
    rw [hleft, Option.map_some] at hcounter
    obtain ⟨c, hget, hseen⟩ := Option.map_eq_some_iff.mp hcounter
    obtain ⟨hcount, hexpires⟩ := Prod.mk.inj hseen
    have hnow : now < e.expiresAt := (Store.left_eq_some.mp hleft).2
    refine agrees_of_stores (agree_giveBack h.conversations r.key) ?_ ?_
    · simp only [Redis.giveBack, InMemory.giveBack, Caps.decr, hget, hleft]
      refine h.caps.put ?_ (by exact hexpires ▸ hnow) r.userId
      exact Prod.ext (congrArg (fun n => n - 1) hcount) hexpires
    · intro u e' hleft'
      simp only [InMemory.giveBack, hleft] at hleft'
      by_cases hu : u = r.userId
      · subst hu
        rw [Store.left_put_self (by exact hnow)] at hleft'
        cases hleft'
        exact Nat.le_trans (Nat.sub_le _ _) (h.le _ e hleft)
      · rw [Store.left_put_of_ne hu] at hleft'
        exact h.le u e' hleft'

theorem Agrees.release (h : Agrees now s m) (rs : List EmailThrottleRequest) :
    Agrees now (s.release now rs) (m.release now rs) := by
  induction rs generalizing s m with
  | nil => exact h
  | cons r rs ih => exact ih (h.giveBack r)

theorem Agrees.later (h : Agrees now s m) (hle : now ≤ now') (hapart : s.Apart now') : Agrees now' s m :=
  agrees_of_stores (h.conversations.later hle hapart.1) (h.caps.later hle hapart.2)
    (fun u e hleft => h.le u e (Store.left_earlier hleft hle))

theorem Agrees.perform (h : Agrees now s m) (b : Batch) :
    (s.perform now b).2 = (m.perform now b).2 ∧ Agrees now (s.perform now b).1 (m.perform now b).1 := by
  cases b with
  | claim rs => exact h.claim rs
  | release rs => exact ⟨rfl, h.release rs⟩

/-- Batches that are performed in the order of their times get the same answers. -/
theorem Agrees.answers (bs : List (Instant × Batch)) (h : Agrees now s m)
    (htimes : (now :: bs.map Prod.fst).Pairwise (· ≤ ·))
    (hapart : Timely s bs) : answers Redis.perform s bs = answers InMemory.perform m bs := by
  induction bs generalizing now s m with
  | nil => rfl
  | cons x bs ih =>
    obtain ⟨now', b⟩ := x
    obtain ⟨hfirst, htimes'⟩ := List.pairwise_cons.mp htimes
    have hagrees : Agrees now' s m := h.later (hfirst now' List.mem_cons_self) hapart.1
    obtain ⟨hanswer, hnext⟩ := hagrees.perform b
    rw [answers, answers, hanswer, ih hnext htimes' hapart.2]

theorem answers_agree (bs : List (Instant × Batch)) (htimes : (bs.map Prod.fst).Pairwise (· ≤ ·))
    (hapart : Timely .empty bs) : answers Redis.perform .empty bs = answers InMemory.perform .empty bs := by
  have hempty : Agrees 0 Redis.empty InMemory.empty :=
    agrees_of_stores (fun k => rfl) (fun u => rfl) (fun u e hleft => by cases hleft)
  exact hempty.answers bs (List.pairwise_cons.mpr ⟨fun t _ => Nat.zero_le t, htimes⟩) hapart

end Civfix.EmailThrottle
