import Civfix.InterleavedCalls

/-! # Sends with one client id

The sends share the key that their user, room and client id make up. A send that fails deletes the key it has reserved,
whatever the key holds by then. -/
namespace Civfix.SendDedupe

open InterleavedCalls

abbrev MessageId := ℕ

def SEND_DEDUPE_INFLIGHT_ATTEMPTS : ℕ := 5

inductive SendReservation where
  | reserved
  | duplicate (messageId : MessageId)
  | opened
  deriving DecidableEq

/-- What the key holds. -/
inductive Slot where
  | pending
  | committed (messageId : MessageId)
  deriving DecidableEq

/-- `InMemorySendDedupeStore` and `RedisSendDedupeStore`. -/
inductive SendDedupeStore where
  | inMemory
  | redis
  deriving DecidableEq

/-- `messages` are the sends that were inserted, `committed` the ids that the key has been given, and `acked` those
that were acknowledged. -/
structure Shared where
  key : Option Slot
  messages : List MessageId
  committed : List MessageId
  acked : List MessageId

namespace Shared

variable (s : Shared)

def put (slot : Slot) : Shared := { s with key := some slot }

def persist : Shared := { s with messages := s.messages ++ [s.messages.length] }

def commit (id : MessageId) : Shared := { s with key := some (.committed id), committed := id :: s.committed }

def release : Shared := { s with key := none }

def ack (id : MessageId) : Shared := { s with acked := id :: s.acked }

end Shared

inductive Request where
  | handleSend

/-- The last two are sent off without being waited for: an acknowledgement may overtake a commit. -/
inductive Await where
  | reserve
  | get (attempts : ℕ)
  | findRoomMessage (id : MessageId)
  | persist (reservation : SendReservation)
  | commit (id : MessageId) (acked : Bool)
  | release

inductive Result where
  | acked (id : MessageId)
  | failed

/-- A reservation runs out. -/
inductive Event where
  | pendingExpires

abbrev Next := InterleavedCalls.Next Await Result
abbrev Move := InterleavedCalls.Move Request Event
abbrev World := InterleavedCalls.World Shared Request Await

def enter (s : Shared) : Request → Option (Shared × Await)
  | .handleSend => some (s, .reserve)

/-- What a send does with its reservation. -/
def reservationNext : SendReservation → Next
  | .duplicate id => .await (.findRoomMessage id)
  | .reserved => .await (.persist .reserved)
  | .opened => .await (.persist .opened)

/-- Redis waits for a pending reservation. -/
def inFlightNext : ℕ → Next
  | 0 => reservationNext .opened
  | attempts + 1 => .await (.get attempts)

def reserve (store : SendDedupeStore) (s : Shared) : Shared × Next :=
  match s.key, store with
  | none, _ => (s.put .pending, reservationNext .reserved)
  | some .pending, .inMemory => (s, reservationNext .opened)
  | some (.committed id), .inMemory => (s, reservationNext (.duplicate id))
  | some _, .redis => (s, inFlightNext SEND_DEDUPE_INFLIGHT_ATTEMPTS)

def get (s : Shared) (attempts : ℕ) : Next :=
  match s.key with
  | none => reservationNext .opened
  | some (.committed id) => reservationNext (.duplicate id)
  | some .pending => inFlightNext attempts

/-- The stores do not fail. -/
def access (store : SendDedupeStore) (s : Shared) : Await → List (Shared × Next)
  | .reserve => [reserve store s]
  | .get attempts => [(s, get s attempts)]
  | .findRoomMessage id =>
    if id ∈ s.messages then [(s.ack id, .done (.acked id))] else [(s, .await (.persist (.duplicate id)))]
  | .persist reservation =>
    [(s.persist, .await (.commit s.messages.length false)),
      (s, if reservation = .reserved then .await .release else .done .failed)]
  | .commit id false =>
    ((s.commit id).ack id, .done (.acked id)) ::
      if store = .inMemory then [] else [(s.ack id, .await (.commit id true))]
  | .commit id true => [(s.commit id, .done (.acked id))]
  | .release => [(s.release, .done .failed)]

def environment (s : Shared) : Event → Option Shared
  | .pendingExpires => if s.key = some .pending then some s.release else none

def machine (store : SendDedupeStore) : Machine Shared Request Await Result Event := ⟨enter, access store, environment⟩

def unsent : Shared := ⟨none, [], [], []⟩

/-- The reservation that the send has got. -/
def Await.reservation : Await → Option SendReservation
  | .findRoomMessage id => some (.duplicate id)
  | .persist reservation => some reservation
  | _ => none

/-- The key holds the id of a message. -/
def Shared.Recorded (s : Shared) : Prop := ∃ id, s.key = some (.committed id)

instance (s : Shared) : Decidable s.Recorded :=
  match h : s.key with
  | some (.committed id) => isTrue ⟨id, h⟩
  | some .pending => isFalse fun ⟨_, hid⟩ => by cases h.symm.trans hid
  | none => isFalse fun ⟨_, hid⟩ => by cases h.symm.trans hid

/-- A release finds no id, and an acknowledgement does not overtake its commit. -/
def Orderly (s : Shared) (k : ℕ) : Await → Prop
  | .release => ¬ s.Recorded
  | .commit _ false => k = 0
  | _ => True

instance (s : Shared) (k : ℕ) (p : Await) : Decidable (Orderly s k p) :=
  match p with
  | .release => inferInstanceAs (Decidable (¬ s.Recorded))
  | .commit _ false => inferInstanceAs (Decidable (k = 0))
  | .reserve | .get _ | .findRoomMessage _ | .persist _ | .commit _ true => isTrue trivial

def Undisturbed (w : World) (m : Move) : Prop :=
  match m with
  | .access i k => ∀ c ∈ w.call i, Orderly w.shared k c.await
  | _ => True

instance (w : World) (m : Move) : Decidable (Undisturbed w m) :=
  match m with
  | .access i k => inferInstanceAs (Decidable (∀ c ∈ w.call i, Orderly w.shared k c.await))
  | .start _ | .crash _ | .environment _ => isTrue trivial

variable {store : SendDedupeStore} {s s' : Shared} {w w' : World} {p q : Await} {n : Next} {k : ℕ} {id : MessageId}

/-! ## What an access does -/

/-- The send is at one of the accesses that reserve the key. -/
def Await.Reserves : Await → Prop
  | .reserve | .get _ => True
  | _ => False

inductive Outcome (s : Shared) : Await → ℕ → Shared → Next → Prop where
  | reserved (k : ℕ) (hkey : s.key = none) : Outcome s .reserve k (s.put .pending) (.await (.persist .reserved))
  | opened (p : Await) (k : ℕ) (hp : p.Reserves) (hkey : ¬ s.Recorded) : Outcome s p k s (.await (.persist .opened))
  | waiting (p : Await) (k attempts : ℕ) (hp : p.Reserves) : Outcome s p k s (.await (.get attempts))
  | duplicate (p : Await) (k : ℕ) (id : MessageId) (hp : p.Reserves) (hkey : s.key = some (.committed id)) :
    Outcome s p k s (.await (.findRoomMessage id))
  | found (id : MessageId) (k : ℕ) : Outcome s (.findRoomMessage id) k (s.ack id) (.done (.acked id))
  | gone (id : MessageId) (k : ℕ) (hid : id ∉ s.messages) :
    Outcome s (.findRoomMessage id) k s (.await (.persist (.duplicate id)))
  | persisted (reservation : SendReservation) (k : ℕ) :
    Outcome s (.persist reservation) k s.persist (.await (.commit s.messages.length false))
  | failed (reservation : SendReservation) (k : ℕ) (n : Next) (hn : n = .await .release ∨ n = .done .failed) :
    Outcome s (.persist reservation) k s n
  | committed (id : MessageId) (k : ℕ) : Outcome s (.commit id false) k ((s.commit id).ack id) (.done (.acked id))
  | overtaken (id : MessageId) (k : ℕ) (hk : k ≠ 0) :
    Outcome s (.commit id false) k (s.ack id) (.await (.commit id true))
  | committedLate (id : MessageId) (k : ℕ) : Outcome s (.commit id true) k (s.commit id) (.done (.acked id))
  | released (k : ℕ) : Outcome s .release k s.release (.done .failed)

theorem not_recorded_of_none (h : s.key = none) : ¬ s.Recorded := fun ⟨_, hid⟩ => by cases h.symm.trans hid

theorem not_recorded_of_pending (h : s.key = some .pending) : ¬ s.Recorded := fun ⟨_, hid⟩ => by
  cases h.symm.trans hid

theorem outcome_of_inFlight (hp : p.Reserves) (hkey : s.key = some .pending) (attempts : ℕ) :
    Outcome s p k s (inFlightNext attempts) := by
  cases attempts with
  | zero => exact .opened p k hp (not_recorded_of_pending hkey)
  | succ attempts => exact .waiting p k attempts hp

theorem outcome_of_access (hk : (access store s p)[k]? = some (s', n)) : Outcome s p k s' n := by
  have h := List.mem_of_getElem? hk
  cases p with
  | reserve =>
    simp only [access, List.mem_singleton, reserve] at h
    split at h
    · next hkey =>
      cases h
      exact .reserved k hkey
    · next hkey =>
      cases h
      exact .opened _ k trivial (not_recorded_of_pending hkey)
    · next id hkey =>
      cases h
      exact .duplicate _ k id trivial hkey
    · cases h
      exact .waiting _ k _ trivial
  | get attempts =>
    simp only [access, List.mem_singleton, get] at h
    split at h
    · next hkey =>
      cases h
      exact .opened _ k trivial (not_recorded_of_none hkey)
    · next id hkey =>
      cases h
      exact .duplicate _ k id trivial hkey
    · next hkey =>
      cases h
      exact outcome_of_inFlight (show (Await.get attempts).Reserves from trivial) hkey attempts
  | findRoomMessage id =>
    simp only [access] at h
    split at h
    · cases List.mem_singleton.mp h
      exact .found id k
    · next hid =>
      cases List.mem_singleton.mp h
      exact .gone id k hid
  | persist reservation =>
    simp only [access, List.mem_cons, Prod.mk.injEq, List.not_mem_nil, or_false] at h
    rcases h with ⟨rfl, rfl⟩ | ⟨rfl, rfl⟩
    · exact .persisted reservation k
    · refine .failed reservation k _ ?_
      split
      · exact .inl rfl
      · exact .inr rfl
  | commit id acked =>
    cases acked with
    | false =>
      simp only [access] at hk
      cases k with
      | zero =>
        cases hk
        exact .committed id 0
      | succ k =>
        rw [List.getElem?_cons_succ] at hk
        split at hk
        · cases hk
        · cases List.mem_singleton.mp (List.mem_of_getElem? hk)
          exact .overtaken id (k + 1) (Nat.succ_ne_zero k)
    | true =>
      cases List.mem_singleton.mp h
      exact .committedLate id k
  | release =>
    cases List.mem_singleton.mp h
    exact .released k

/-! ## What the key holds -/

structure Consistent (s : Shared) : Prop where
  key : ∀ id, s.key = some (.committed id) → id ∈ s.messages ∧ id ∈ s.committed
  recorded : s.committed ≠ [] → s.Recorded
  acked : ∀ id ∈ s.acked, id ∈ s.committed

/-- A send that has inserted its message commits before it acknowledges. -/
def Pending (s : Shared) : Await → Prop
  | .reserve | .get _ | .release => True
  | .findRoomMessage id => id ∈ s.messages ∧ id ∈ s.committed
  | .persist reservation => ∀ id, reservation ≠ .duplicate id
  | .commit id acked => id ∈ s.messages ∧ acked = false

/-- No inserted message and no commit is forgotten. -/
structure Grows (s s' : Shared) : Prop where
  messages : ∀ id ∈ s.messages, id ∈ s'.messages
  committed : ∀ id ∈ s.committed, id ∈ s'.committed

theorem Outcome.grows (ho : Outcome s p k s' n) : Grows s s' := by
  cases ho with
  | persisted => exact ⟨fun id hid => List.mem_append_left _ hid, fun id hid => hid⟩
  | committed | committedLate => exact ⟨fun id hid => hid, fun id hid => List.mem_cons_of_mem _ hid⟩
  | _ => exact ⟨fun id hid => hid, fun id hid => hid⟩

theorem Pending.grows (h : Pending s p) (hg : Grows s s') : Pending s' p := by
  cases p with
  | reserve | get | release => exact trivial
  | findRoomMessage id => exact ⟨hg.messages id h.1, hg.committed id h.2⟩
  | persist reservation => exact h
  | commit id acked => exact ⟨hg.messages id h.1, h.2⟩

theorem Consistent.commit (h : Consistent s) (hid : id ∈ s.messages) : Consistent (s.commit id) := by
  refine ⟨fun id' hkey => ?_, fun _ => ⟨id, rfl⟩, fun id' hacked => List.mem_cons_of_mem _ (h.acked id' hacked)⟩
  cases hkey
  exact ⟨hid, List.mem_cons_self⟩

theorem Consistent.ack (h : Consistent s) (hid : id ∈ s.committed) : Consistent (s.ack id) := by
  refine ⟨h.key, h.recorded, fun id' hacked => ?_⟩
  rcases List.mem_cons.mp hacked with rfl | hacked
  · exact hid
  · exact h.acked id' hacked

theorem Consistent.write (h : Consistent s) (hnot : ¬ s.Recorded) {slot : Option Slot}
    (hslot : ∀ id, slot ≠ some (.committed id)) : Consistent { s with key := slot } :=
  ⟨fun id hkey => absurd hkey (hslot id), fun hcommitted => absurd (h.recorded hcommitted) hnot, h.acked⟩

theorem consistent_of_outcome (ho : Outcome s p k s' n) (h : Consistent s) (hp : Pending s p) (hok : Orderly s k p) :
    Consistent s' := by
  cases ho with
  | reserved k hkey => exact h.write (not_recorded_of_none hkey) (fun id hid => by cases hid)
  | opened | waiting | duplicate | gone | failed => exact h
  | found id k => exact h.ack hp.2
  | persisted reservation k =>
    exact ⟨fun id hkey => ⟨List.mem_append_left _ (h.key id hkey).1, (h.key id hkey).2⟩, h.recorded, h.acked⟩
  | committed id k => exact (h.commit hp.1).ack List.mem_cons_self
  | overtaken id k hk => exact absurd hok hk
  | committedLate id k => exact h.commit hp.1
  | released k => exact h.write hok (fun id hid => by cases hid)

theorem pending_of_outcome (ho : Outcome s p k s' (.await q)) (h : Consistent s) (hp : Pending s p)
    (hok : Orderly s k p) : Pending s' q := by
  generalize hn : (InterleavedCalls.Next.await q : Next) = n at ho
  cases ho with
  | found | committed | committedLate | released => cases hn
  | reserved | opened =>
    cases hn
    exact fun id hid => by cases hid
  | waiting =>
    cases hn
    exact trivial
  | duplicate p k id hp hkey =>
    cases hn
    exact h.key id hkey
  | gone id k hid => exact absurd hp.1 hid
  | persisted reservation k =>
    cases hn
    exact ⟨List.mem_append_right _ (List.mem_singleton_self _), rfl⟩
  | failed reservation k n hnext =>
    rcases hnext with rfl | rfl <;> cases hn
    exact trivial
  | overtaken id k hk => exact absurd hok hk

/-! ## Runs -/

def Sound (w : World) : Prop := Machine.Holds Consistent (fun s _ c => Pending s c.await) w

theorem Sound.step {m : Move} {res : Option Result} (h : Sound w) (hok : Undisturbed w m)
    (hs : (machine store).step w m = some (w', res)) : Sound w' := by
  refine Machine.Holds.step_outcome h hs ?_ ?_ ?_
  · intro o s p _ he
    cases o
    cases he
    exact ⟨h.shared, trivial, h.calls⟩
  · intro i k c s n hm hc hk
    subst hm
    have hout := outcome_of_access hk
    refine ⟨consistent_of_outcome hout h.shared (h.calls i c hc) (hok c hc), fun q hq => ?_, fun j d _ hd => ?_⟩
    · exact pending_of_outcome (hq ▸ hout) h.shared (h.calls i c hc) (hok c hc)
    · exact (h.calls j d hd).grows hout.grows
  · intro e s _ he
    cases e with
    | pendingExpires =>
      simp only [machine, environment] at he
      split at he
      · next hkey =>
        cases he
        refine ⟨h.shared.write (not_recorded_of_pending hkey) (fun id hid => by cases hid), fun i c hc => ?_⟩
        exact (h.calls i c hc).grows ⟨fun id hid => hid, fun id hid => hid⟩
      · cases he

/-- A send that reserves after a commit still reserves, or has been told of a message. -/
def Await.Retries (s : Shared) : Await → Prop
  | .reserve | .get _ => True
  | .findRoomMessage id => id ∈ s.messages
  | _ => False

theorem Await.Reserves.retries (h : p.Reserves) : p.Retries s := by
  cases p with
  | reserve | get => exact trivial
  | findRoomMessage | persist | commit | release => exact h.elim

theorem retries_of_outcome (ho : Outcome s p k s' (.await q)) (h : Consistent s) (hrec : s.Recorded)
    (hp : p.Retries s) : q.Retries s' := by
  generalize hn : (InterleavedCalls.Next.await q : Next) = n at ho
  cases ho with
  | found | committed | committedLate | released => cases hn
  | persisted | failed | overtaken => exact hp.elim
  | reserved k hkey => exact absurd hrec (not_recorded_of_none hkey)
  | opened p k hp hkey => exact absurd hrec hkey
  | waiting =>
    cases hn
    exact trivial
  | duplicate p k id hp hkey =>
    cases hn
    exact (h.key id hkey).1
  | gone id k hid => exact absurd hp hid

theorem Await.Retries.grows (h : p.Retries s) (hg : Grows s s') : p.Retries s' := by
  cases p with
  | reserve | get => exact trivial
  | findRoomMessage id => exact hg.messages id h
  | persist | commit | release => exact h

/-- The key is recorded, and the sends of the given numbers are retries. -/
structure Late (late : ℕ → Prop) (w : World) : Prop where
  sound : Sound w
  committed : w.shared.committed ≠ []
  retries : ∀ j c, late j → w.call j = some c → c.await.Retries w.shared

theorem Grows.committed_ne_nil (hg : Grows s s') (h : s.committed ≠ []) : s'.committed ≠ [] := by
  obtain ⟨id, hid⟩ := List.exists_mem_of_ne_nil _ h
  exact List.ne_nil_of_mem (hg.committed id hid)

theorem Late.step {late : ℕ → Prop} {m : Move} {res : Option Result} (h : Late late w) (hok : Undisturbed w m)
    (hs : (machine store).step w m = some (w', res)) : Late late w' := by
  have hholds : Machine.Holds (fun s => s.committed ≠ []) (fun s j c => late j → c.await.Retries s) w' := by
    refine Machine.Holds.step_outcome ⟨h.committed, fun j c hc hj => h.retries j c hj hc⟩ hs ?_ ?_ ?_
    · intro o s p _ he
      cases o
      cases he
      exact ⟨h.committed, fun _ => trivial, fun j c hc hj => h.retries j c hj hc⟩
    · intro j k c s n _ hc hk
      have hout := outcome_of_access hk
      have hrec := h.sound.shared.recorded h.committed
      refine ⟨hout.grows.committed_ne_nil h.committed, fun q hq hj => ?_, fun j' d _ hd hj' => ?_⟩
      · exact retries_of_outcome (hq ▸ hout) h.sound.shared hrec (h.retries j c hj hc)
      · exact (h.retries j' d hj' hd).grows hout.grows
    · intro e s _ he
      cases e with
      | pendingExpires =>
        simp only [machine, environment] at he
        split at he
        · cases he
          refine ⟨h.committed, fun j c hc hj => ?_⟩
          exact (h.retries j c hj hc).grows ⟨fun id hid => hid, fun id hid => hid⟩
        · cases he
  exact ⟨h.sound.step hok hs, hholds.shared, fun j c hj hc => hholds.calls j c hc hj⟩

end Civfix.SendDedupe
