import Civfix.ExpiringKeys
import Mathlib.Data.List.Basic

/-! # The notification email throttles

One throttle decides request by request. The other takes the conversation keys of a batch, then its counters, and gives
back what the counters refuse. -/
namespace Civfix.EmailThrottle

open ExpiringKeys

abbrev UserId := ℕ
abbrev Conversation := ℕ
abbrev Instant := ℕ
abbrev ConversationKey := UserId × Conversation

def NOTIFICATION_EMAILS_PER_HOUR : ℕ := 20

/-- `WINDOW_SECONDS`, in milliseconds. -/
def WINDOW_MS : ℕ := 60 * 60 * 1000

structure EmailThrottleRequest where
  userId : UserId
  conversation : Option Conversation
  deriving DecidableEq

/-- `conversationKey`. -/
def EmailThrottleRequest.key (r : EmailThrottleRequest) : Option ConversationKey :=
  r.conversation.map (fun conversation => (r.userId, conversation))

/-! ## The throttle that keeps its keys in Redis -/

/-- Each key that is set has a number of its own. -/
structure Conversations where
  keys : Store ConversationKey ℕ
  lives : ℕ

/-- The windows of a counter are numbered. -/
structure Counter where
  count : ℕ
  window : ℕ

structure Caps where
  keys : Store UserId Counter
  windows : ℕ

structure Redis where
  conversations : Conversations
  caps : Caps

/-- `SET key 1 EX NX`, with the number of the key if it was set. -/
def Conversations.setNx (s : Conversations) (now : Instant) (k : ConversationKey) : Conversations × Option ℕ :=
  match s.keys.get now k with
  | some _ => (s, none)
  | none => (⟨s.keys.put k ⟨s.lives, now + WINDOW_MS⟩, s.lives + 1⟩, some s.lives)

def Conversations.del (s : Conversations) (k : ConversationKey) : Conversations := { s with keys := s.keys.delete k }

/-- `SET key 0 EX NX` and `INCR key`. -/
def Caps.incr (s : Caps) (now : Instant) (u : UserId) : Caps × Counter :=
  match s.keys.get now u with
  | some e =>
    let c : Counter := ⟨e.value.count + 1, e.value.window⟩
    (⟨s.keys.put u ⟨c, e.expiresAt⟩, s.windows⟩, c)
  | none =>
    let c : Counter := ⟨1, s.windows⟩
    (⟨s.keys.put u ⟨c, now + WINDOW_MS⟩, s.windows + 1⟩, c)

/-- `DECRBY_FLOOR_LUA`, by one. -/
def Caps.decr (s : Caps) (now : Instant) (u : UserId) : Caps :=
  match s.keys.get now u with
  | some e => { s with keys := s.keys.put u ⟨⟨e.value.count - 1, e.value.window⟩, e.expiresAt⟩ }
  | none => s

/-- A request that its conversation does not refuse. `life` is the number of the key that it has set, if it has a
conversation. -/
structure Claimed where
  request : EmailThrottleRequest
  life : ℕ

/-- A request that a counter has counted. -/
structure Counted where
  request : EmailThrottleRequest
  life : ℕ
  window : ℕ
  granted : Bool
  deriving DecidableEq

def claimKey (now : Instant) (s : Conversations) (r : EmailThrottleRequest) : Conversations × Option Claimed :=
  match r.key with
  | none => (s, some ⟨r, 0⟩)
  | some k => ((s.setNx now k).1, (s.setNx now k).2.map (fun life => ⟨r, life⟩))

def countClaimed (now : Instant) (s : Caps) : Option Claimed → Caps × Option Counted
  | none => (s, none)
  | some c =>
    ((s.incr now c.request.userId).1,
      some ⟨c.request, c.life, (s.incr now c.request.userId).2.window,
        decide ((s.incr now c.request.userId).2.count ≤ NOTIFICATION_EMAILS_PER_HOUR)⟩)

def answerOf : Option Counted → Bool
  | some c => c.granted
  | none => false

def refused (cs : List (Option Counted)) : List Counted := cs.reduceOption.filter (fun c => !c.granted)

def Redis.giveBack (now : Instant) (s : Redis) (r : EmailThrottleRequest) : Redis :=
  ⟨r.key.elim s.conversations s.conversations.del, s.caps.decr now r.userId⟩

def Redis.release (now : Instant) (s : Redis) (rs : List EmailThrottleRequest) : Redis :=
    rs.foldl (Redis.giveBack now) s

/-- Without a conversation there is no first round trip, and without a request to count no second one: both leave the
keys. -/
def Redis.claim (now : Instant) (s : Redis) (rs : List EmailThrottleRequest) : Redis × List Bool :=
  let chats := answerEach (claimKey now) s.conversations rs
  let counted := answerEach (countClaimed now) s.caps chats.2
  (Redis.release now ⟨chats.1, counted.1⟩ ((refused counted.2).map Counted.request), counted.2.map answerOf)

/-! ## The throttle in one process -/

structure InMemory where
  conversations : Store ConversationKey Unit
  caps : Store UserId ℕ

namespace InMemory

/-- The key of the conversation is set. -/
def Holds (m : InMemory) (now : Instant) (r : EmailThrottleRequest) : Prop :=
  ∃ k ∈ r.key, m.conversations.left now k ≠ none

instance (m : InMemory) (now : Instant) (r : EmailThrottleRequest) : Decidable (m.Holds now r) :=
  inferInstanceAs (Decidable (∃ k ∈ r.key, _))

def liveCap (m : InMemory) (now : Instant) (u : UserId) : InMemory × Entry ℕ :=
  match m.caps.left now u with
  | some e => (m, e)
  | none => ({ m with caps := m.caps.put u ⟨0, now + WINDOW_MS⟩ }, ⟨0, now + WINDOW_MS⟩)

/-- The counter of the user and the key of the conversation are set. -/
def grant (m : InMemory) (now : Instant) (r : EmailThrottleRequest) (e : Entry ℕ) : InMemory :=
  ⟨r.key.elim m.conversations (fun k => m.conversations.put k ⟨(), now + WINDOW_MS⟩),
    m.caps.put r.userId ⟨e.value + 1, e.expiresAt⟩⟩

def claimOne (now : Instant) (m : InMemory) (r : EmailThrottleRequest) : InMemory × Bool :=
  if m.Holds now r then (m, false)
  else if NOTIFICATION_EMAILS_PER_HOUR ≤ (m.liveCap now r.userId).2.value then ((m.liveCap now r.userId).1, false)
  else ((m.liveCap now r.userId).1.grant now r (m.liveCap now r.userId).2, true)

def claim (now : Instant) (m : InMemory) (rs : List EmailThrottleRequest) : InMemory × List Bool :=
  answerEach (claimOne now) m rs

def giveBack (now : Instant) (m : InMemory) (r : EmailThrottleRequest) : InMemory :=
  ⟨r.key.elim m.conversations m.conversations.delete,
    match m.caps.left now r.userId with
    | some e => m.caps.put r.userId ⟨e.value - 1, e.expiresAt⟩
    | none => m.caps⟩

def release (now : Instant) (m : InMemory) (rs : List EmailThrottleRequest) : InMemory := rs.foldl (giveBack now) m

end InMemory

/-! ## Sequences of batches -/

inductive Batch where
  | claim (rs : List EmailThrottleRequest)
  | release (rs : List EmailThrottleRequest)

def Redis.perform (now : Instant) (s : Redis) : Batch → Redis × List Bool
  | .claim rs => s.claim now rs
  | .release rs => (s.release now rs, [])

def InMemory.perform (now : Instant) (m : InMemory) : Batch → InMemory × List Bool
  | .claim rs => m.claim now rs
  | .release rs => (m.release now rs, [])

/-- The answers to batches, each at its time. -/
def answers {σ : Type} (perform : Instant → σ → Batch → σ × List Bool) : σ → List (Instant × Batch) → List (List Bool)
  | _, [] => []
  | s, (now, b) :: bs => (perform now s b).2 :: answers perform (perform now s b).1 bs

/-- No key is at its expiry. -/
def Redis.Apart (s : Redis) (now : Instant) : Prop := s.conversations.keys.Apart now ∧ s.caps.keys.Apart now

/-- No key is at its expiry when a batch is performed. -/
def Timely : Redis → List (Instant × Batch) → Prop
  | _, [] => True
  | s, (now, b) :: bs => s.Apart now ∧ Timely (s.perform now b).1 bs

def Redis.empty : Redis := ⟨⟨.empty, 0⟩, ⟨.empty, 0⟩⟩

def InMemory.empty : InMemory := ⟨.empty, .empty⟩

end Civfix.EmailThrottle
