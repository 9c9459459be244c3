import Mathlib.Data.Rat.Defs
import Mathlib.Algebra.Order.Field.Rat
import Mathlib.Order.Monotone.Basic
import Civfix.KeyedTables
import Civfix.TokenBuckets

/-! # The limiter of chat sends

Every key has a bucket of tokens in a map that keeps the order in which the buckets were last used. A call that makes the
map too large evicts one of the oldest buckets, and among the first few of them one that is full, if there is one. -/
namespace Civfix.SendLimits

open KeyedTables TokenBuckets

def MS_PER_SECOND : ℚ := 1000
def EVICT_PREFER_FULL_WINDOW : ℕ := 32
def DEFAULT_MAX_KEYS : ℤ := 50000

structure TokenBucketOptions where
  capacity : ℚ
  refillPerSec : ℚ
  maxKeys : Option ℤ
  capacity_nonneg : 0 ≤ capacity
  refillPerSec_nonneg : 0 ≤ refillPerSec

abbrev Bucket := TokenBuckets.Bucket ℚ

variable {κ : Type} [DecidableEq κ]

abbrev Buckets (κ : Type) [DecidableEq κ] := Table (Prod.fst : κ × Bucket → κ)

/-- What happens to the buckets, and when. -/
inductive Event (κ : Type) where
  | consume (key : κ) (time : ℚ)
  | evict (key : κ) (time : ℚ)
  deriving DecidableEq

/-- The limiter with the readings it took of its clock so far, and what happened to the buckets, oldest first. -/
structure Limiter (κ : Type) [DecidableEq κ] where
  buckets : Buckets κ
  readings : ℕ
  history : List (Event κ)

def Limiter.empty (κ : Type) [DecidableEq κ] : Limiter κ := ⟨Table.empty _, 0, []⟩

def refilledTokens (opts : TokenBucketOptions) (bucket : Bucket) (time : ℚ) : ℚ :=
  min opts.capacity (bucket.tokens + (time - bucket.last) / MS_PER_SECOND * opts.refillPerSec)

def maxKeys (opts : TokenBucketOptions) : ℤ := max 1 (opts.maxKeys.getD DEFAULT_MAX_KEYS)

def victim (opts : TokenBucketOptions) (buckets : Buckets κ) (t : ℚ) : Option κ :=
  (((buckets.rows.take EVICT_PREFER_FULL_WINDOW).find? fun row => decide
    (opts.capacity ≤ refilledTokens opts row.2 t)).or
    buckets.rows.head?).map Prod.fst

/-- At most `rounds` of the loop, each with a reading of its own. -/
def evictToCap (opts : TokenBucketOptions) (now : ℕ → ℚ) : ℕ → Limiter κ → Limiter κ
  | 0, s => s
  | rounds + 1, s =>
    if maxKeys opts < s.buckets.rows.length then
      match victim opts s.buckets (now s.readings) with
      | none => { s with readings := s.readings + 1 }
      | some key =>
        evictToCap opts now rounds
          ⟨s.buckets.remove key, s.readings + 1, s.history ++ [.evict key (now s.readings)]⟩
    else s

def tryConsume (opts : TokenBucketOptions) (now : ℕ → ℚ) (key : κ) (s : Limiter κ) : Bool × Limiter κ :=
  let t := now s.readings
  let existing := s.buckets.find? key
  let b : Bucket := existing.elim ⟨opts.capacity, t⟩ Prod.snd
  let refilled : Bucket := ⟨refilledTokens opts b t, t⟩
  let allowed := decide (1 ≤ refilled.tokens)
  let taken : Bucket := if allowed then { refilled with tokens := refilled.tokens - 1 } else refilled
  -- the bucket is deleted and set again, which puts it at the end of the map
  let buckets := s.buckets.put (key, taken)
  (allowed, evictToCap opts now buckets.rows.length ⟨buckets, s.readings + 1, s.history ++ [.consume key t]⟩)

structure Answer (κ : Type) where
  key : κ
  time : ℚ
  allowed : Bool

def run (opts : TokenBucketOptions) (now : ℕ → ℚ) : List κ → Limiter κ → List (Answer κ) × Limiter κ
  | [], s => ([], s)
  | key :: keys, s =>
    let r := tryConsume opts now key s
    let rest := run opts now keys r.2
    (⟨key, now s.readings, r.1⟩ :: rest.1, rest.2)

/-! ## What happened to the buckets -/

def bucketOf (opts : TokenBucketOptions) (buckets : Buckets κ) (key : κ) (t : ℚ) : Bucket :=
  (buckets.find? key).elim ⟨opts.capacity, t⟩ Prod.snd

/-- The tokens that a call would find. -/
def tokensAt (opts : TokenBucketOptions) (buckets : Buckets κ) (key : κ) (t : ℚ) : ℚ :=
  refilledTokens opts (bucketOf opts buckets key t) t

def Full (opts : TokenBucketOptions) (buckets : Buckets κ) (key : κ) (t : ℚ) : Prop :=
  opts.capacity ≤ tokensAt opts buckets key t

/-- The rate of a limiter in tokens a millisecond. -/
def rate (opts : TokenBucketOptions) : Rate ℚ where
  capacity := opts.capacity
  refill := opts.refillPerSec / MS_PER_SECOND
  capacity_nonneg := opts.capacity_nonneg
  refill_nonneg := div_nonneg opts.refillPerSec_nonneg (by rw [MS_PER_SECOND]; norm_num)

namespace Event

def time : Event κ → ℚ
  | consume _ t => t
  | evict _ t => t

def apply (opts : TokenBucketOptions) (buckets : Buckets κ) : Event κ → Buckets κ
  | consume key t => buckets.put (key, (rate opts).take (bucketOf opts buckets key t) t)
  | evict key _ => buckets.remove key

def answer (opts : TokenBucketOptions) (buckets : Buckets κ) : Event κ → List (Answer κ)
  | consume key t => [⟨key, t, decide (1 ≤ tokensAt opts buckets key t)⟩]
  | evict _ _ => []

end Event

def after (opts : TokenBucketOptions) (buckets : Buckets κ) (events : List (Event κ)) : Buckets κ :=
  events.foldl (Event.apply opts) buckets

def answers (opts : TokenBucketOptions) : Buckets κ → List (Event κ) → List (Answer κ)
  | _, [] => []
  | buckets, e :: events => e.answer opts buckets ++ answers opts (e.apply opts buckets) events

def SortedFrom (t : ℚ) (events : List (Event κ)) : Prop :=
  (∀ e ∈ events, t ≤ e.time) ∧ events.Pairwise fun e e' => e.time ≤ e'.time

section

variable {opts : TokenBucketOptions} {buckets buckets' : Buckets κ} {key key' : κ} {t u : ℚ}
  {events pre post : List (Event κ)}
  {e : Event κ}

theorem refilledTokens_eq (opts : TokenBucketOptions) (b : Bucket) (t : ℚ) :
    refilledTokens opts b t = (rate opts).refilled b t := by
  rw [refilledTokens, Rate.refilled, rate]
  congr 2
  ring

theorem tokensAt_of_find? {row : κ × Bucket} (h : buckets.find? key = some row) :
    tokensAt opts buckets key t = (rate opts).refilled row.2 t := by
  rw [tokensAt, bucketOf, h, Option.elim_some, refilledTokens_eq]

theorem tokensAt_of_none (h : buckets.find? key = none) : tokensAt opts buckets key t = opts.capacity := by
  rw [tokensAt, bucketOf, h, Option.elim_none, refilledTokens_eq]
  exact refilled_full_bucket (r := rate opts) le_rfl

theorem tokensAt_congr (h : buckets.find? key = buckets'.find? key) :
    tokensAt opts buckets key t = tokensAt opts buckets' key t := by
  rw [tokensAt, bucketOf, h]
  rfl

theorem find?_consume (opts : TokenBucketOptions) (buckets : Buckets κ) (key : κ) (t : ℚ) :
    ((Event.consume key t).apply opts buckets).find? key =
      some (key, (rate opts).take (bucketOf opts buckets key t) t) := by
  rw [Event.apply, Table.find?_put, if_pos rfl]

theorem find?_consume_of_ne (h : key' ≠ key) :
    ((Event.consume key t).apply opts buckets).find? key' = buckets.find? key' := by
  rw [Event.apply, Table.find?_put, if_neg h]

theorem find?_evict (opts : TokenBucketOptions) (buckets : Buckets κ) (key : κ) (t : ℚ) :
    ((Event.evict key t).apply opts buckets).find? key = none := by
  rw [Event.apply, Table.find?_remove, if_pos rfl]

theorem find?_evict_of_ne (h : key' ≠ key) :
    ((Event.evict key t).apply opts buckets).find? key' = buckets.find? key' := by
  rw [Event.apply, Table.find?_remove, if_neg h]

theorem take_bucketOf (opts : TokenBucketOptions) (buckets : Buckets κ) (key : κ) (t : ℚ) :
    (rate opts).take (bucketOf opts buckets key t) t =
      ⟨if 1 ≤ tokensAt opts buckets key t then tokensAt opts buckets key t - 1 else tokensAt opts buckets key t,
        t⟩ := by
  rw [Rate.take, Rate.allows, tokensAt, refilledTokens_eq]
  simp only [decide_eq_true_eq]

theorem after_append (opts : TokenBucketOptions) (buckets : Buckets κ) (pre post : List (Event κ)) :
    after opts buckets (pre ++ post) = after opts (after opts buckets pre) post := List.foldl_append

theorem answers_append (opts : TokenBucketOptions) (buckets : Buckets κ) (pre post : List (Event κ)) :
    answers opts buckets (pre ++ post) = answers opts buckets pre ++ answers opts (after opts buckets pre) post := by
  induction pre generalizing buckets with
  | nil => rfl
  | cons e pre ih =>
    rw [List.cons_append, answers, ih, answers, List.append_assoc]
    rfl

omit [DecidableEq κ] in
theorem SortedFrom.tail (h : SortedFrom t (e :: events)) : SortedFrom e.time events :=
  ⟨(List.pairwise_cons.1 h.2).1, (List.pairwise_cons.1 h.2).2⟩

omit [DecidableEq κ] in
theorem SortedFrom.of_append (h : SortedFrom t (pre ++ e :: post)) : SortedFrom e.time post := by
  have hpost := (List.pairwise_append.1 h.2).2.1
  exact ⟨(List.pairwise_cons.1 hpost).1, (List.pairwise_cons.1 hpost).2⟩

/-! ## A full bucket may go -/

/-- From `t` on, no call can tell the two maps apart. -/
def SameFrom (opts : TokenBucketOptions) (t : ℚ) (buckets buckets' : Buckets κ) : Prop :=
  ∀ key u, t ≤ u → tokensAt opts buckets key u = tokensAt opts buckets' key u

theorem SameFrom.apply (h : SameFrom opts t buckets buckets') (hle : t ≤ e.time) :
    SameFrom opts e.time (e.apply opts buckets) (e.apply opts buckets') := by
  intro key' u hu
  have hsame : tokensAt opts buckets key' u = tokensAt opts buckets' key' u := h key' u (hle.trans hu)
  cases e with
  | consume key time =>
    by_cases hk : key' = key
    · subst hk
      rw [tokensAt_of_find? (find?_consume opts buckets key' time),
        tokensAt_of_find? (find?_consume opts buckets' key' time),
        take_bucketOf, take_bucketOf, h key' time hle]
    · have hkept : ∀ b : Buckets κ, tokensAt opts ((Event.consume key time).apply opts b) key' u =
        tokensAt opts b key' u :=
        fun _ => tokensAt_congr (find?_consume_of_ne hk)
      rw [hkept, hkept, hsame]
  | evict key time =>
    by_cases hk : key' = key
    · subst hk
      rw [tokensAt_of_none (find?_evict opts buckets key' time), tokensAt_of_none (find?_evict opts buckets' key' time)]
    · have hkept : ∀ b : Buckets κ, tokensAt opts ((Event.evict key time).apply opts b) key' u =
        tokensAt opts b key' u :=
        fun _ => tokensAt_congr (find?_evict_of_ne hk)
      rw [hkept, hkept, hsame]

theorem SameFrom.answers_eq (h : SameFrom opts t buckets buckets') (hsorted : SortedFrom t events) :
    answers opts buckets events = answers opts buckets' events := by
  induction events generalizing buckets buckets' t with
  | nil => rfl
  | cons e events ih =>
    have hle : t ≤ e.time := hsorted.1 e List.mem_cons_self
    have hanswer : e.answer opts buckets = e.answer opts buckets' := by
      cases e with
      | consume key time => rw [Event.answer, Event.answer, h key time hle]
      | evict key time => rfl
    rw [answers, answers, hanswer, ih (h.apply hle) hsorted.tail]

theorem tokensAt_of_full (hfull : Full opts buckets key t) (hle : t ≤ u) :
    tokensAt opts buckets key u = opts.capacity := by
  cases hfind : buckets.find? key with
  | none => exact tokensAt_of_none hfind
  | some row =>
    rw [Full, tokensAt_of_find? hfind] at hfull
    rw [tokensAt_of_find? hfind]
    exact refilled_of_full (r := rate opts) hfull hle

theorem sameFrom_evict (hfull : Full opts buckets key t) :
    SameFrom opts t ((Event.evict key t).apply opts buckets) buckets := by
  intro key' u hu
  by_cases hk : key' = key
  · subst hk
    rw [tokensAt_of_none (find?_evict opts buckets key' t), tokensAt_of_full hfull hu]
  · rw [tokensAt_congr (find?_evict_of_ne hk)]

/-! ## One key by itself -/

/-- The times of the calls for a key. -/
def callsOf (key : κ) : List (Event κ) → List ℚ
  | [] => []
  | .consume key' t :: events => if key' = key then t :: callsOf key events else callsOf key events
  | .evict _ _ :: events => callsOf key events

def admittedOf (key : κ) (answers : List (Answer κ)) : List ℚ :=
  (answers.filter fun a => decide (a.key = key) && a.allowed).map Answer.time

/-- A bucket of its own would be found with the tokens of the key. -/
def Alone (opts : TokenBucketOptions) (key : κ) (t : ℚ) (lone : Bucket) (buckets : Buckets κ) : Prop :=
  ∀ u, t ≤ u → (rate opts).refilled lone u = tokensAt opts buckets key u

/-- Whenever the bucket of the key is evicted, it is full. -/
def EvictedFull (opts : TokenBucketOptions) (buckets : Buckets κ) (key : κ) (events : List (Event κ)) : Prop :=
  ∀ pre t post, events = pre ++ .evict key t :: post → Full opts (after opts buckets pre) key t

theorem EvictedFull.tail (h : EvictedFull opts buckets key (e :: events)) :
    EvictedFull opts (e.apply opts buckets) key events := by
  rintro pre t post rfl
  exact h (e :: pre) t post rfl

/-- A key whose bucket is evicted only when it is full is answered as by a bucket of its own. -/
theorem admittedOf_answers {lone : Bucket} (halone : Alone opts key t lone buckets) (hsorted : SortedFrom t events)
    (hevicted : EvictedFull opts buckets key events) :
    admittedOf key (answers opts buckets events) = (rate opts).admitted lone (callsOf key events) := by
  induction events generalizing buckets lone t with
  | nil => rfl
  | cons e events ih =>
    have hle : t ≤ e.time := hsorted.1 e List.mem_cons_self
    cases e with
    | consume key' time =>
      by_cases hk : key' = key
      · subst hk
        have hallows : (rate opts).allows lone time = decide (1 ≤ tokensAt opts buckets key' time) := by
          rw [Rate.allows, halone time hle]
        have hnext : Alone opts key' time ((rate opts).take lone time)
          ((Event.consume key' time).apply opts buckets) := by
          intro u _
          rw [tokensAt_of_find? (find?_consume opts buckets key' time), take_bucketOf, Rate.take, hallows,
            halone time hle]
          simp only [decide_eq_true_eq]
        have hrest := ih hnext hsorted.tail hevicted.tail
        rw [answers, callsOf, if_pos rfl, Rate.admitted, hallows, ← hrest, Event.answer]
        by_cases hallowed : 1 ≤ tokensAt opts buckets key' time
        · simp [admittedOf, hallowed]
        · simp [admittedOf, hallowed]
      · have hnext : Alone opts key time lone ((Event.consume key' time).apply opts buckets) := by
          intro u hu
          rw [tokensAt_congr (find?_consume_of_ne (Ne.symm hk)), halone u (hle.trans hu)]
        have hrest := ih hnext hsorted.tail hevicted.tail
        rw [answers, callsOf, if_neg hk, ← hrest, Event.answer]
        simp [admittedOf, hk]
    | evict key' time =>
      have hnext : Alone opts key time lone ((Event.evict key' time).apply opts buckets) := by
        intro u hu
        by_cases hk : key = key'
        · subst hk
          have hfull : Full opts buckets key time := hevicted [] time events rfl
          rw [halone u (hle.trans hu), tokensAt_of_full hfull hu, tokensAt_of_none (find?_evict opts buckets key time)]
        · rw [tokensAt_congr (find?_evict_of_ne hk), halone u (hle.trans hu)]
      exact ih hnext hsorted.tail hevicted.tail

theorem mem_callsOf (h : u ∈ callsOf key events) : ∃ e ∈ events, e.time = u := by
  induction events with
  | nil => exact absurd h List.not_mem_nil
  | cons e events ih =>
    have htail : u ∈ callsOf key events → ∃ e' ∈ e :: events, e'.time = u := by
      intro hu
      obtain ⟨e', he', rfl⟩ := ih hu
      exact ⟨e', List.mem_cons_of_mem _ he', rfl⟩
    cases e with
    | consume key' time =>
      rw [callsOf] at h
      split at h
      · rcases List.mem_cons.1 h with rfl | h
        · exact ⟨_, List.mem_cons_self, rfl⟩
        · exact htail h
      · exact htail h
    | evict key' time => exact htail h

theorem callsOf_sorted (h : SortedFrom t events) : (callsOf key events).Pairwise (· ≤ ·) := by
  induction events generalizing t with
  | nil => exact List.Pairwise.nil
  | cons e events ih =>
    cases e with
    | consume key' time =>
      rw [callsOf]
      split
      · refine List.pairwise_cons.2 ⟨fun u hu => ?_, ih h.tail⟩
        obtain ⟨e, he, rfl⟩ := mem_callsOf hu
        exact h.tail.1 e he
      · exact ih h.tail
    | evict key' time => exact ih h.tail

/-- In any interval, a key whose bucket is evicted only when it is full has no more calls allowed than a full bucket holds
and the interval brings. -/
theorem admittedOf_within_le (hsorted : SortedFrom t events) (hevicted : EvictedFull opts (Table.empty _) key events)
    {lower upper : ℚ} (hinterval : lower ≤ upper) :
    (((admittedOf key (answers opts (Table.empty _) events)).filter
        fun u => decide (lower ≤ u ∧ u ≤ upper)).length : ℚ) ≤
      opts.capacity + (upper - lower) / MS_PER_SECOND * opts.refillPerSec := by
  have halone : Alone opts key t ⟨opts.capacity, t⟩ (Table.empty _) := by
    intro u hu
    rw [tokensAt_of_none rfl]
    exact refilled_full_bucket (r := rate opts) hu
  rw [admittedOf_answers halone hsorted hevicted]
  have hlast : ∀ u ∈ callsOf key events, t ≤ u := by
    intro u hu
    obtain ⟨e, he, rfl⟩ := mem_callsOf hu
    exact hsorted.1 e he
  have hbound := admitted_within_le (full_sound (rate opts) t) (callsOf_sorted hsorted) hlast hinterval
  have hsame : (rate opts).capacity + (upper - lower) * (rate opts).refill =
      opts.capacity + (upper - lower) / MS_PER_SECOND * opts.refillPerSec := by
    rw [rate]
    ring
  rw [← hsame]
  exact hbound

end

/-! ## Runs -/

section

variable {opts : TokenBucketOptions} {now : ℕ → ℚ} {s : Limiter κ} {rounds : ℕ}

/-- The history accounts for the buckets, and its times are readings taken so far. -/
structure Traced (opts : TokenBucketOptions) (now : ℕ → ℚ) (s : Limiter κ) : Prop where
  buckets_eq : s.buckets = after opts (Table.empty _) s.history
  sorted : SortedFrom (now 0) s.history
  soFar : ∀ e ∈ s.history, e.time ≤ now s.readings

theorem traced_empty (opts : TokenBucketOptions) (now : ℕ → ℚ) : Traced opts now (Limiter.empty κ) := by
  refine ⟨rfl, ⟨?_, List.Pairwise.nil⟩, ?_⟩
  · exact fun e he => absurd he List.not_mem_nil
  · exact fun e he => absurd he List.not_mem_nil

/-- One more event, at the next reading. -/
theorem Traced.record (h : Traced opts now s) (hnow : Monotone now) {e : Event κ} (htime : e.time = now s.readings) :
    Traced opts now ⟨e.apply opts s.buckets, s.readings + 1, s.history ++ [e]⟩ := by
  refine ⟨?_, ⟨?_, ?_⟩, ?_⟩
  · rw [after_append, ← h.buckets_eq]
    rfl
  · intro e' he'
    rcases List.mem_append.1 he' with he' | he'
    · exact h.sorted.1 e' he'
    · rw [List.mem_singleton.1 he', htime]
      exact hnow (Nat.zero_le _)
  · refine List.pairwise_append.2 ⟨h.sorted.2, List.pairwise_singleton _ _, fun e' he' e'' he'' => ?_⟩
    rw [List.mem_singleton.1 he'', htime]
    exact h.soFar e' he'
  · intro e' he'
    rcases List.mem_append.1 he' with he' | he'
    · exact (h.soFar e' he').trans (hnow (Nat.le_succ _))
    · rw [List.mem_singleton.1 he', htime]
      exact hnow (Nat.le_succ _)

theorem evictToCap_traced (h : Traced opts now s) (hnow : Monotone now) :
    Traced opts now (evictToCap opts now rounds s) := by
  induction rounds generalizing s with
  | zero => exact h
  | succ rounds ih =>
    rw [evictToCap]
    split
    · split
      · exact ⟨h.buckets_eq, h.sorted, fun e he => (h.soFar e he).trans (hnow (Nat.le_succ _))⟩
      · next key _ => exact ih (h.record hnow (e := .evict key (now s.readings)) rfl)
    · exact h

/-- Evictions answer nothing. -/
theorem evictToCap_answers (h : Traced opts now s) (hnow : Monotone now) :
    answers opts (Table.empty _) (evictToCap opts now rounds s).history = answers opts (Table.empty _) s.history := by
  induction rounds generalizing s with
  | zero => rfl
  | succ rounds ih =>
    rw [evictToCap]
    split
    · split
      · rfl
      · next key _ =>
        refine (ih (h.record hnow (e := .evict key (now s.readings)) rfl)).trans ?_
        rw [answers_append]
        exact List.append_nil _
    · rfl

theorem mem_of_victim {buckets : Buckets κ} {t : ℚ} {key : κ} (h : victim opts buckets t = some key) :
    ∃ row ∈ buckets.rows, row.1 = key := by
  obtain ⟨row, hrow, rfl⟩ := Option.map_eq_some_iff.1 h
  refine ⟨row, ?_, rfl⟩
  rcases Option.or_eq_some_iff.1 hrow with hfull | ⟨-, hhead⟩
  · exact List.mem_of_mem_take (List.mem_of_find?_eq_some hfull)
  · exact List.mem_of_head? hhead

theorem length_remove_lt {buckets : Buckets κ} {key : κ} (h : ∃ row ∈ buckets.rows, row.1 = key) :
    (buckets.remove key).rows.length < buckets.rows.length := by
  obtain ⟨row, hrow, hkey⟩ := h
  exact List.length_filter_lt_length_iff_exists.2 ⟨row, hrow, by simpa using hkey⟩

/-- With a round for every bucket, no more buckets are left than allowed. -/
theorem evictToCap_size (hrounds : s.buckets.rows.length ≤ rounds) :
    ((evictToCap opts now rounds s).buckets.rows.length : ℤ) ≤ maxKeys opts := by
  have hone : 1 ≤ maxKeys opts := le_max_left _ _
  induction rounds generalizing s with
  | zero =>
    rw [evictToCap]
    omega
  | succ rounds ih =>
    rw [evictToCap]
    split
    · next hlarge =>
      split
      · next hnone =>
        have hempty : s.buckets.rows = [] := by
          rw [victim, Option.map_eq_none_iff, Option.or_eq_none_iff] at hnone
          exact List.head?_eq_none_iff.1 hnone.2
        rw [hempty, List.length_nil] at hlarge
        omega
      · next key hkey =>
        have hlt := length_remove_lt (mem_of_victim hkey)
        exact ih (by change (s.buckets.remove key).rows.length ≤ rounds; omega)
    · next hsmall => omega

/-- A call is an event at a reading of the clock and then evictions. -/
theorem tryConsume_eq (opts : TokenBucketOptions) (now : ℕ → ℚ) (key : κ) (s : Limiter κ) :
    tryConsume opts now key s =
      (decide (1 ≤ tokensAt opts s.buckets key (now s.readings)),
        evictToCap opts now ((Event.consume key (now s.readings)).apply opts s.buckets).rows.length
          ⟨(Event.consume key (now s.readings)).apply opts s.buckets, s.readings + 1,
            s.history ++ [.consume key (now s.readings)]⟩) := by
  have htaken : (if decide (1 ≤ tokensAt opts s.buckets key (now s.readings)) = true then
        (⟨tokensAt opts s.buckets key (now s.readings) - 1, now s.readings⟩ : Bucket)
      else ⟨tokensAt opts s.buckets key (now s.readings), now s.readings⟩) =
      (rate opts).take (bucketOf opts s.buckets key (now s.readings)) (now s.readings) := by
    rw [take_bucketOf]
    by_cases hallowed : 1 ≤ tokensAt opts s.buckets key (now s.readings)
    · simp only [hallowed, decide_true, if_true]
    · simp only [hallowed, decide_false, Bool.false_eq_true, if_false]
  rw [Event.apply, ← htaken]
  rfl

theorem tryConsume_traced (h : Traced opts now s) (hnow : Monotone now) (key : κ) :
    Traced opts now (tryConsume opts now key s).2 := by
  rw [tryConsume_eq]
  exact evictToCap_traced (h.record hnow (e := .consume key (now s.readings)) rfl) hnow

theorem tryConsume_answers (h : Traced opts now s) (hnow : Monotone now) (key : κ) :
    answers opts (Table.empty _) (tryConsume opts now key s).2.history =
      answers opts (Table.empty _) s.history ++ [⟨key, now s.readings, (tryConsume opts now key s).1⟩] := by
  rw [tryConsume_eq, evictToCap_answers (h.record hnow (e := .consume key (now s.readings)) rfl) hnow, answers_append,
    ← h.buckets_eq]
  rfl

theorem run_traced (h : Traced opts now s) (hnow : Monotone now) (keys : List κ) :
    Traced opts now (run opts now keys s).2 := by
  induction keys generalizing s with
  | nil => exact h
  | cons key keys ih => exact ih (tryConsume_traced h hnow key)

theorem run_answers (h : Traced opts now s) (hnow : Monotone now) (keys : List κ) :
    answers opts (Table.empty _) (run opts now keys s).2.history =
      answers opts (Table.empty _) s.history ++ (run opts now keys s).1 := by
  induction keys generalizing s with
  | nil => exact (List.append_nil _).symm
  | cons key keys ih =>
    have hstep := tryConsume_answers h hnow key
    have hrest := ih (tryConsume_traced h hnow key)
    rw [hstep, List.append_assoc] at hrest
    exact hrest

theorem run_size (hsize : (s.buckets.rows.length : ℤ) ≤ maxKeys opts) (keys : List κ) :
    ((run opts now keys s).2.buckets.rows.length : ℤ) ≤ maxKeys opts := by
  induction keys generalizing s with
  | nil => exact hsize
  | cons key keys ih =>
    refine ih ?_
    rw [tryConsume_eq]
    exact evictToCap_size le_rfl

/-- After every call the map is within its bound; the answers are those that the history gives, and it would give the
same later ones without the eviction of a full bucket; and a key whose bucket is evicted only when it is full keeps
its rate. -/
theorem limiter_keeps_rate (opts : TokenBucketOptions) (now : ℕ → ℚ) (hnow : Monotone now) (keys : List κ) :
    ((run opts now keys (Limiter.empty κ)).2.buckets.rows.length : ℤ) ≤ maxKeys opts ∧
    (run opts now keys (Limiter.empty κ)).1 =
      answers opts (Table.empty _) (run opts now keys (Limiter.empty κ)).2.history ∧
    (∀ pre key t post, (run opts now keys (Limiter.empty κ)).2.history = pre ++ .evict key t :: post →
      Full opts (after opts (Table.empty _) pre) key t →
        answers opts (after opts (Table.empty _) pre) (.evict key t :: post) =
          answers opts (after opts (Table.empty _) pre) post) ∧
    ∀ key, EvictedFull opts (Table.empty _) key (run opts now keys (Limiter.empty κ)).2.history →
      ∀ lower d : ℚ, 0 ≤ d →
        (((run opts now keys (Limiter.empty κ)).1.filter fun a =>
            decide (a.key = key ∧ a.allowed = true ∧ lower ≤ a.time ∧ a.time ≤ lower + d * MS_PER_SECOND)).length : ℚ) ≤
          opts.capacity + opts.refillPerSec * d := by
  have htraced := run_traced (traced_empty opts now) hnow keys
  have hanswers := run_answers (traced_empty opts now) hnow keys
  refine ⟨run_size ?_ keys, ?_, ?_, ?_⟩
  · have hone : 1 ≤ maxKeys opts := le_max_left _ _
    change (0 : ℤ) ≤ maxKeys opts
    omega
  · rw [hanswers]
    rfl
  · intro pre key t post hhistory hfull
    have hsorted := htraced.sorted
    rw [hhistory] at hsorted
    exact (sameFrom_evict hfull).answers_eq hsorted.of_append
  · intro key hevicted lower d hd
    have hms : (0 : ℚ) < MS_PER_SECOND := by rw [MS_PER_SECOND]; norm_num
    have hinterval : lower ≤ lower + d * MS_PER_SECOND := le_add_of_nonneg_right (mul_nonneg hd hms.le)
    have hbound := admittedOf_within_le htraced.sorted hevicted hinterval
    have hcount : (admittedOf key (answers opts (Table.empty _) (run opts now keys (Limiter.empty κ)).2.history)).filter
          (fun u => decide (lower ≤ u ∧ u ≤ lower + d * MS_PER_SECOND)) =
        ((run opts now keys (Limiter.empty κ)).1.filter fun a =>
          decide (a.key = key ∧ a.allowed = true ∧ lower ≤ a.time ∧ a.time ≤ lower + d * MS_PER_SECOND)).map
            Answer.time := by
      rw [hanswers]
      change (admittedOf key (run opts now keys (Limiter.empty κ)).1).filter _ = _
      rw [admittedOf, List.filter_map, List.filter_filter]
      congr 1
      refine List.filter_congr fun a _ => ?_
      simp only [Function.comp, Bool.decide_and, Bool.decide_eq_true]
      cases decide (a.key = key) <;> cases a.allowed <;> simp
    rw [hcount, List.length_map] at hbound
    have hlength : (lower + d * MS_PER_SECOND - lower) / MS_PER_SECOND * opts.refillPerSec = opts.refillPerSec * d := by
      rw [add_sub_cancel_left, mul_div_assoc, div_self hms.ne', mul_one, mul_comm]
    rw [hlength] at hbound
    exact hbound

def twoKeys : TokenBucketOptions := ⟨1, 1, some 1, by norm_num, by norm_num⟩

def everyTwoSeconds (n : ℕ) : ℚ := 2000 * n

/-- In a map for one bucket, each of two keys evicts the full bucket of the other. -/
theorem twoKeys_keep_rate :
    ((run twoKeys everyTwoSeconds [0, 1, 0] (Limiter.empty ℕ)).2.buckets.rows.length : ℤ) ≤ 1 ∧
    answers twoKeys (after twoKeys (Table.empty _) [.consume 0 0, .consume 1 2000])
        [.evict 0 4000, .consume 0 6000, .evict 1 8000] =
      answers twoKeys (after twoKeys (Table.empty _) [.consume 0 0, .consume 1 2000]) [.consume 0 6000, .evict 1 8000] ∧
    (((run twoKeys everyTwoSeconds [0, 1, 0] (Limiter.empty ℕ)).1.filter fun a =>
        decide (a.key = 0 ∧ a.allowed = true ∧ 0 ≤ a.time ∧ a.time ≤ 0 + 6 * MS_PER_SECOND)).length : ℚ) ≤ 1 +
          1 * 6 := by
  have hnow : Monotone everyTwoSeconds := by
    intro n m hnm
    have hcast : (n : ℚ) ≤ m := by exact_mod_cast hnm
    rw [everyTwoSeconds, everyTwoSeconds]
    linarith
  have hhistory : (run twoKeys everyTwoSeconds [0, 1, 0] (Limiter.empty ℕ)).2.history =
      [.consume 0 0, .consume 1 2000, .evict 0 4000, .consume 0 6000, .evict 1 8000] := by decide +kernel
  have hfull : Full twoKeys (after twoKeys (Table.empty (Prod.fst : ℕ × Bucket → ℕ))
    [.consume 0 0, .consume 1 2000]) 0 4000 := by
    rw [Full]
    decide +kernel
  obtain ⟨hsize, -, hevict, hrate⟩ := limiter_keeps_rate twoKeys everyTwoSeconds hnow [0, 1, 0]
  refine ⟨hsize, hevict [.consume 0 0, .consume 1 2000] 0 4000 [.consume 0 6000, .evict 1 8000] hhistory hfull,
    hrate 0 ?_ 0 6 (by norm_num)⟩
  intro pre t post hsplit
  rw [hhistory] at hsplit
  rcases pre with _ | ⟨a, _ | ⟨b, _ | ⟨c, _ | ⟨d, _ | ⟨e, pre⟩⟩⟩⟩⟩
  · simp at hsplit
  · simp at hsplit
  · obtain ⟨rfl, rfl, ⟨rfl⟩, rfl⟩ := by simpa using hsplit
    exact hfull
  · simp at hsplit
  · simp at hsplit
  · simp at hsplit

end

end Civfix.SendLimits
