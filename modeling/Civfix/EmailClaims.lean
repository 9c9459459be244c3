import Civfix.ThrottleAgreement
import Civfix.InterleavedCalls

/-! # Concurrent claims

A claim takes the conversation keys of its batch, counts, and gives back what the counters refuse; a release gives back
what was granted. The round trips of all calls interleave while the keys expire. -/
namespace Civfix.EmailThrottle

open ExpiringKeys InterleavedCalls

/-- `granted` are the requests that were granted and that no release has taken up. -/
structure Shared where
  now : Instant
  redis : Redis
  granted : List Counted

inductive Request where
  | claim (rs : List EmailThrottleRequest)
  | release (cs : List Counted)

inductive Result where
  | answered (granted : List Bool)
  | released

inductive Await where
  | claimKeys (rs : List EmailThrottleRequest)
  | countClaimed (cs : List (Option Claimed))
  | giveBack (answer : Result) (decrements : List Counted) (deletes : List ConversationKey)

inductive Event where
  | tick (ms : ℕ)

abbrev Next := InterleavedCalls.Next Await Result
abbrev Move := InterleavedCalls.Move Request Event
abbrev World := InterleavedCalls.World Shared Request Await

/-- The granted requests without those that are released, if all of these are among them. -/
def takeGranted : List Counted → List Counted → Option (List Counted)
  | [], granted => some granted
  | c :: cs, granted => if c ∈ granted then takeGranted cs (granted.erase c) else none

/-- The element that comes next, with the rest. -/
def picks {α : Type} : List α → List (α × List α)
  | [] => []
  | a :: as => (a, as) :: (picks as).map (fun x => (x.1, a :: x.2))

/-- The round trips of a release are made for all requests at once. -/
def giveBackNext (answer : Result) (decrements : List Counted) (deletes : List ConversationKey) : Next :=
  if decrements = [] ∧ deletes = [] then .done answer else .await (.giveBack answer decrements deletes)

/-- A batch without requests makes no round trip, and one without conversations only counts. -/
def enter (s : Shared) : Request → Option (Shared × Await)
  | .claim rs =>
    if rs = [] then none
    else if ∀ r ∈ rs, r.conversation = none then some (s, .countClaimed (rs.map (fun r => some ⟨r, 0⟩)))
    else some (s, .claimKeys rs)
  | .release cs =>
    if cs = [] then none
    else (takeGranted cs s.granted).map (fun granted => ({ s with granted := granted }, .giveBack .released cs []))

/-- A round trip that fails is that of a lost call. -/
def access (s : Shared) : Await → List (Shared × Next)
  | .claimKeys rs =>
    match answerEach (claimKey s.now) s.redis.conversations rs with
    | (conversations, cs) =>
      [({ s with redis := ⟨conversations, s.redis.caps⟩ },
        if cs.reduceOption = [] then .done (.answered (cs.map (fun _ => false))) else .await (.countClaimed cs))]
  | .countClaimed cs =>
    match answerEach (countClaimed s.now) s.redis.caps cs with
    | (caps, counted) =>
      [({ s with
          redis := ⟨s.redis.conversations, caps⟩
          granted := counted.reduceOption.filter Counted.granted ++ s.granted },
        giveBackNext (.answered (counted.map answerOf)) (refused counted) [])]
  | .giveBack answer decrements deletes =>
    (picks decrements).map (fun x =>
      ({ s with redis := ⟨s.redis.conversations, s.redis.caps.decr s.now x.1.request.userId⟩ },
        giveBackNext answer x.2 (x.1.request.key.toList ++ deletes))) ++
    (picks deletes).map (fun x =>
      ({ s with redis := ⟨s.redis.conversations.del x.1, s.redis.caps⟩ }, giveBackNext answer decrements x.2))

def environment (s : Shared) : Event → Option Shared
  | .tick ms => some { s with now := s.now + ms }

def machine : Machine Shared Request Await Result Event := ⟨enter, access, environment⟩

def startingAt (now : Instant) : Shared := ⟨now, .empty, []⟩

/-! ## What is outstanding -/

/-- The counted requests that the call has to give back. -/
def Await.counted : Await → List Counted
  | .giveBack _ decrements _ => decrements
  | _ => []

/-- The key that was set for the request. -/
def Claimed.setting (c : Claimed) : Option ℕ := c.request.conversation.map (fun _ => c.life)

def Counted.setting (c : Counted) : Option ℕ := c.request.conversation.map (fun _ => c.life)

/-- The keys that were set for the requests of a batch. -/
def livesOf (cs : List (Option Claimed)) : List ℕ := cs.reduceOption.filterMap Claimed.setting

/-- The keys that the call has set for requests that it may still grant, or has to give back. -/
def Await.lives : Await → List ℕ
  | .claimKeys _ => []
  | .countClaimed cs => livesOf cs
  | .giveBack _ decrements _ => decrements.filterMap Counted.setting

def pending (P : Counted → Bool) (c : Call Request Await) : ℕ := c.await.counted.countP P

/-- Those of `pending` that were granted. -/
def releasing (P : Counted → Bool) (c : Call Request Await) : ℕ :=
  match c.await with
  | .giveBack .released decrements _ => decrements.countP P
  | _ => 0

/-- The requests that were granted and whose increment is not given back yet. -/
def outstanding (P : Counted → Bool) (w : World) : ℕ := w.shared.granted.countP P + w.total (releasing P)

/-- The requests of a user in one window of the counter. -/
def inWindow (u : UserId) (window : ℕ) (c : Counted) : Bool := decide (c.request.userId = u ∧ c.window = window)

/-- The requests of a conversation in one life of its key. -/
def inLife (k : ConversationKey) (life : ℕ) (c : Counted) : Bool := decide (c.request.key = some k ∧ c.life = life)

/-- A counter that is decremented has not expired since the increment that is given back. -/
def Undisturbed (w : World) (m : Move) : Prop :=
  match m with
  | .access i k => ∀ c ∈ w.call i, ∀ d ∈ c.await.counted[k]?,
      (w.shared.redis.caps.keys.get w.shared.now d.request.userId).map (fun e => e.value.window) = some d.window
  | _ => True

instance (w : World) (m : Move) : Decidable (Undisturbed w m) :=
  match m with
  | .access i k => inferInstanceAs (Decidable (∀ c ∈ w.call i, ∀ d ∈ c.await.counted[k]?, _))
  | .start _ | .crash _ | .environment _ => isTrue trivial

end Civfix.EmailThrottle
