import Mathlib.Data.List.Dedup
import Mathlib.Data.List.Perm.Basic
import Mathlib.Data.List.Perm.Subperm
import Civfix.BroadcastRepository
import Civfix.InterleavedCalls

/-! # Mailing a chunk of a broadcast

`runEmail` takes the email deliveries of a chunk through `deliver`, several at a time. A
delivery is screened, claims its address for the broadcast in the cache, is handed to the
mailer, and ends with one outcome; a rejected sender aborts the rest of the chunk. Any number
of runs go on at once and a run may die at any await.

What the reads of a run returned (contacts, settings, suppressed hashes) is part of the
request. `log` is a record of the past that no run reads, and so is `accepted` of a chunk.
The keys of the cache live for a day; here they may expire at any time. -/
namespace Civfix.Broadcasts.Emails

open KeyedTables InterleavedCalls

abbrev Hash := String

def MAX_DELIVERY_ATTEMPTS : ℕ := 3

/-- `emailHashOf` digests the trimmed address in lower case. -/
structure Config where
  emailConcurrency : ℕ
  emailHashOf : String → Hash

structure Contact where
  email : Option String

/-- The arguments of a run, with what its reads returned. -/
structure Request where
  broadcastId : BroadcastId
  claims : List DeliveryClaim
  members : UserId → Option Contact
  guests : GuestId → Option Contact
  emailAllowedFor : UserId → Bool
  suppressedHashes : List Hash

/-- `bcast:addr:<broadcast>:<hash>`. -/
structure AddressKey where
  broadcastId : BroadcastId
  hash : Hash
  deriving DecidableEq

structure AddressCount where
  key : AddressKey
  count : ℕ

/-- `bcast:addr:<broadcast>:<hash>:owner`. -/
structure AddressOwner where
  key : AddressKey
  deliveryId : DeliveryId

inductive Event where
  | claimed (key : AddressKey) (deliveryId : DeliveryId)
  | unavailable (key : AddressKey) (deliveryId : DeliveryId)
  | handedOver (key : AddressKey) (deliveryId : DeliveryId)
  | failed (key : AddressKey) (deliveryId : DeliveryId)
  | released (key : AddressKey) (deliveryId : DeliveryId)
  | expired (key : AddressKey)
  deriving DecidableEq

structure Shared where
  now : Instant
  addresses : Table AddressCount.key
  owners : Table AddressOwner.key
  suppressions : List Hash
  log : List Event

/-- What a delivery awaits. `retry` is how it ends once its address is released. -/
inductive Stage where
  | countAddress | setOwner | getOwner | takeToken | send | suppress
  | releaseAddress (retry : Bool) | releaseOwner (retry : Bool)

structure Task where
  claim : DeliveryClaim
  hash : Hash
  stage : Stage

structure Chunk where
  request : Request
  queue : List DeliveryClaim
  tasks : List Task
  outcomes : List DeliveryOutcome
  releasedIds : List DeliveryId
  aborted : Bool
  accepted : List DeliveryId

/-- A chunk whose sender was rejected ends with `ChunkAuthAbort`; its outcomes stand. -/
structure Result where
  outcomes : List DeliveryOutcome
  releasedIds : List DeliveryId
  aborted : Bool
  accepted : List DeliveryId

namespace Request

variable (cfg : Config) (r : Request)

def relevant : List DeliveryClaim := r.claims.filter (fun c => c.channel = .email)

def contactOf (claim : DeliveryClaim) : Option Contact :=
  match claim.userId with
  | some userId => r.members userId
  | none => claim.guestId.bind r.guests

/-- The address of a contact; an empty one counts as none. -/
def addressOf (contact : Contact) : Option String := contact.email.filter (fun e => 0 < e.length)

/-- The hashes computed before the chunk starts; a later entry of an id replaces an earlier one. -/
def addressHashes : List (DeliveryId × Hash) :=
  (r.relevant.filterMap fun c =>
    (r.contactOf c).bind addressOf |>.map fun email => (c.id, cfg.emailHashOf email)).reverse

def hashOf (claim : DeliveryClaim) (email : String) : Hash :=
  ((r.addressHashes cfg).lookup claim.id).getD (cfg.emailHashOf email)

def addressKey (hash : Hash) : AddressKey := ⟨r.broadcastId, hash⟩

end Request

def suppressed (id : DeliveryId) (reason : SuppressionReason) : DeliveryOutcome :=
    ⟨id, .suppressed, some reason, none, none⟩

def pending (id : DeliveryId) : DeliveryOutcome := ⟨id, .pending, none, none, none⟩

def failed (id : DeliveryId) (kind : FailureKind) : DeliveryOutcome := ⟨id, .failed, none, some kind, none⟩

namespace Shared

variable (s : Shared)

def note (e : Event) : Shared := { s with log := e :: s.log }

def count (key : AddressKey) : ℕ := (s.addresses.find? key).elim 0 (·.count)

def incr (key : AddressKey) : Shared := { s with addresses := s.addresses.put ⟨key, s.count key + 1⟩ }

def setOwner (key : AddressKey) (d : DeliveryId) : Shared := { s with owners := s.owners.put ⟨key, d⟩ }

def delAddress (key : AddressKey) : Shared := { s with addresses := s.addresses.remove key }

def delOwner (key : AddressKey) : Shared := { s with owners := s.owners.remove key }

def ownerOf (key : AddressKey) : Option DeliveryId := (s.owners.find? key).map (·.deliveryId)

def suppressEmail (hash : Hash) : Shared := { s with suppressions := hash :: s.suppressions }

end Shared

namespace Chunk

variable (p : Chunk)

def finish (i : ℕ) (outcome : DeliveryOutcome) : Chunk :=
  { p with tasks := p.tasks.eraseIdx i, outcomes := p.outcomes ++ [outcome] }

def advance (i : ℕ) (t : Task) (stage : Stage) : Chunk := { p with tasks := p.tasks.set i { t with stage := stage } }

def holdForRetry (i : ℕ) (id : DeliveryId) : Chunk :=
  { p.finish i (pending id) with releasedIds := p.releasedIds ++ [id] }

/-- A delivery whose address has been released. -/
def settle (i : ℕ) (t : Task) (retry : Bool) : Chunk :=
  if retry then p.finish i (pending t.claim.id) else p.holdForRetry i t.claim.id

def result : Result := ⟨p.outcomes, p.releasedIds, p.aborted, p.accepted⟩

end Chunk

namespace Config

variable (cfg : Config)

/-- The part of `screen` before its first await: the outcome, or the hash of the address to claim. -/
def screen (r : Request) (claim : DeliveryClaim) : DeliveryOutcome ⊕ Hash :=
  match r.contactOf claim with
  | none => .inl (suppressed claim.id (if claim.userId.isSome then .deletedUser else .contactScrubbed))
  | some contact =>
    if claim.userId.any (fun u => !r.emailAllowedFor u) then .inl (suppressed claim.id .prefsOff)
    else
      match Request.addressOf contact with
      | none => .inl (suppressed claim.id .noContact)
      | some email =>
        if r.hashOf cfg claim email ∈ r.suppressedHashes then .inl (suppressed claim.id .bounceSuppressed)
        else .inr (r.hashOf cfg claim email)

/-- A worker takes the next claim and runs `deliver` to its first await. -/
def start (p : Chunk) (claim : DeliveryClaim) (queue : List DeliveryClaim) : Chunk :=
  if p.aborted then
    { p with queue := queue, outcomes := p.outcomes ++ [pending claim.id], releasedIds := p.releasedIds ++ [claim.id] }
  else
    match cfg.screen p.request claim with
    | .inl outcome => { p with queue := queue, outcomes := p.outcomes ++ [outcome] }
    | .inr hash => { p with queue := queue, tasks := p.tasks ++ [⟨claim, hash, .countAddress⟩] }

end Config

/-- The workers of `mapWithLimit`. -/
def Config.cap (cfg : Config) (p : Chunk) : ℕ := max 1 (min cfg.emailConcurrency p.request.relevant.length)

/-- `recordSendFailure`, up to its first await. -/
def recordSendFailure (s : Shared) (p : Chunk) (i : ℕ) (t : Task) (kind : FailureKind) : Shared × Chunk :=
  let key := p.request.addressKey t.hash
  match kind with
  | .auth => (s.note (.failed key t.claim.id), { p.advance i t (.releaseAddress false) with aborted := true })
  | .permanent => (s, p.advance i t .suppress)
  | .transient =>
    if t.claim.attempts < MAX_DELIVERY_ATTEMPTS then
      (s.note (.failed key t.claim.id), p.advance i t (.releaseAddress true))
    else (s, p.finish i (failed t.claim.id .transient))
  | .oversize => (s, p.finish i (failed t.claim.id .oversize))
  | .unknown => (s, p.finish i (failed t.claim.id .unknown))

/-- The outcomes of the await of one delivery. A call of the cache may throw, before or after it
took effect. -/
def deliver (s : Shared) (p : Chunk) (i : ℕ) (t : Task) : List (Shared × Chunk) :=
  let key := p.request.addressKey t.hash
  let d := t.claim.id
  match t.stage with
  | .countAddress =>
    [(if s.count key = 0 then ((s.incr key).note (.claimed key d), p.advance i t .setOwner)
      else (s.incr key, p.advance i t .getOwner)),
      (s.note (.unavailable key d), p.advance i t .takeToken),
      ((if s.count key = 0 then (s.incr key).note (.claimed key d) else s.incr key).note (.unavailable key d),
        p.advance i t .takeToken)]
  | .setOwner =>
    [(s.setOwner key d, p.advance i t .takeToken), (s, p.advance i t .takeToken)]
  | .getOwner =>
    [(if s.ownerOf key = some d then (s, p.advance i t .takeToken)
      else (s, p.finish i ⟨d, .skipped, none, none, none⟩)),
      (s.note (.unavailable key d), p.advance i t .takeToken)]
  | .takeToken => [(s.note (.handedOver key d), p.advance i t .send)]
  | .send =>
    (s, { p.finish i ⟨d, .sent, none, none, some s.now⟩ with accepted := p.accepted ++ [d] }) ::
      [.auth, .permanent, .transient, .oversize, .unknown].map (recordSendFailure s p i t)
  | .suppress =>
    [(s.suppressEmail t.hash, p.finish i (failed d .permanent)), (s, p.finish i (failed d .permanent))]
  | .releaseAddress retry =>
    [((s.delAddress key).note (.released key d), p.advance i t (.releaseOwner retry)), (s, p.settle i t retry),
      ((s.delAddress key).note (.released key d), p.settle i t retry)]
  | .releaseOwner retry => [(s.delOwner key, p.settle i t retry), (s, p.settle i t retry)]

namespace Config

variable (cfg : Config)

/-- A worker takes the next claim, or a delivery in progress goes on. -/
def progress (s : Shared) (p : Chunk) : List (Shared × Chunk) :=
  (match p.queue with
    | [] => []
    | claim :: queue => if p.tasks.length < cfg.cap p then [(s, cfg.start p claim queue)] else []) ++
  p.tasks.zipIdx.flatMap (fun x => deliver s p x.2 x.1)

def access (s : Shared) (p : Chunk) : List (Shared × Next Chunk Result) :=
  if p.queue.isEmpty ∧ p.tasks.isEmpty then [(s, .done p.result)]
  else (cfg.progress s p).map (fun x => (x.1, .await x.2))

end Config

def Chunk.of (r : Request) : Chunk := ⟨r, r.relevant, [], [], [], false, []⟩

/-- What happens beside the runs. -/
inductive Tick where
  | clock (now : Instant)
  | expireAddress (key : AddressKey)
  | expireOwner (key : AddressKey)

def environment (s : Shared) : Tick → Option Shared
  | .clock now => if s.now ≤ now then some { s with now := now } else none
  | .expireAddress key => some ((s.delAddress key).note (.expired key))
  | .expireOwner key => some (s.delOwner key)

def Config.machine (cfg : Config) : Machine Shared Request Chunk Result Tick where
  enter s r := some (s, .of r)
  access := cfg.access
  environment := environment

abbrev World := InterleavedCalls.World Shared Request Chunk

abbrev Move := InterleavedCalls.Move Request Tick

def Shared.empty (now : Instant) : Shared := ⟨now, .empty _, .empty _, [], []⟩

/-! ## Every claim has one outcome -/

/-- How many awaits a delivery in this stage still has ahead of it at most. -/
def Stage.rank : Stage → ℕ
  | .countAddress => 6 | .setOwner | .getOwner => 5 | .takeToken => 4 | .send => 3
  | .suppress | .releaseAddress _ => 2 | .releaseOwner _ => 1

/-- The accesses that a chunk still has ahead of it at most, before the one that ends it. -/
def Chunk.remaining (p : Chunk) : ℕ := (p.tasks.map (·.stage.rank)).sum + 7 * p.queue.length

/-- The claims of the chunk are those with an outcome, those in progress and those in the
queue; the outcomes that say `sent` are those the mailer accepted. -/
structure Chunk.Accounted (p : Chunk) : Prop where
  ids : (p.outcomes.map (·.id) ++ p.tasks.map (·.claim.id) ++ p.queue.map (·.id)).Perm (p.request.relevant.map (·.id))
  sent : (p.outcomes.filter (fun o => o.status = .sent)).map (·.id) = p.accepted

/-- What the await of a delivery comes to for its chunk: the delivery goes on to a later stage,
or it ends with its one outcome. -/
inductive Chunk.Moves (p : Chunk) (i : ℕ) (t : Task) : Chunk → Prop where
  | advance (stage : Stage) (aborted : Bool) (h : stage.rank < t.stage.rank) :
      Moves p i t { p.advance i t stage with aborted := aborted }
  | finish (o : DeliveryOutcome) (releasedIds : List DeliveryId) (hid : o.id = t.claim.id) (hs : o.status ≠ .sent) :
      Moves p i t { p.finish i o with releasedIds := releasedIds }
  | sent (o : DeliveryOutcome) (hid : o.id = t.claim.id) (hs : o.status = .sent) :
      Moves p i t { p.finish i o with accepted := p.accepted ++ [t.claim.id] }

namespace Chunk

variable {p p' : Chunk} {i : ℕ} {t : Task}

theorem Moves.settle (retry : Bool) : p.Moves i t (p.settle i t retry) := by
  cases retry with
  | true => exact .finish (pending t.claim.id) p.releasedIds rfl (by simp [pending])
  | false => exact .finish (pending t.claim.id) _ rfl (by simp [pending])

theorem moves_of_deliver {s s' : Shared} (h : (s', p') ∈ deliver s p i t) : p.Moves i t p' := by
  simp only [deliver] at h
  cases hst : t.stage with
  | countAddress =>
    simp only [hst, List.mem_cons, List.mem_nil_iff, or_false, Prod.mk.injEq] at h
    rcases h with h | ⟨-, rfl⟩ | ⟨-, rfl⟩
    · split at h
      · cases h
        exact .advance .setOwner p.aborted (by simp [hst, Stage.rank])
      · cases h
        exact .advance .getOwner p.aborted (by simp [hst, Stage.rank])
    · exact .advance .takeToken p.aborted (by simp [hst, Stage.rank])
    · exact .advance .takeToken p.aborted (by simp [hst, Stage.rank])
  | setOwner =>
    simp only [hst, List.mem_cons, List.mem_nil_iff, or_false, Prod.mk.injEq] at h
    rcases h with ⟨-, rfl⟩ | ⟨-, rfl⟩ <;> exact .advance .takeToken p.aborted (by simp [hst, Stage.rank])
  | getOwner =>
    simp only [hst, List.mem_cons, List.mem_nil_iff, or_false, Prod.mk.injEq] at h
    rcases h with h | ⟨-, rfl⟩
    · split at h
      · cases h
        exact .advance .takeToken p.aborted (by simp [hst, Stage.rank])
      · cases h
        exact .finish _ p.releasedIds rfl (by simp)
    · exact .advance .takeToken p.aborted (by simp [hst, Stage.rank])
  | takeToken =>
    simp only [hst, List.mem_singleton, Prod.mk.injEq] at h
    obtain ⟨-, rfl⟩ := h
    exact .advance .send p.aborted (by simp [hst, Stage.rank])
  | send =>
    simp only [hst, List.map_cons, List.map_nil, List.mem_cons, List.mem_nil_iff, or_false, recordSendFailure,
      Prod.mk.injEq] at h
    rcases h with ⟨-, rfl⟩ | ⟨-, rfl⟩ | ⟨-, rfl⟩ | h | ⟨-, rfl⟩ | ⟨-, rfl⟩
    · exact .sent _ rfl rfl
    · exact .advance (.releaseAddress false) true (by simp [hst, Stage.rank])
    · exact .advance .suppress p.aborted (by simp [hst, Stage.rank])
    · split at h
      · cases h
        exact .advance (.releaseAddress true) p.aborted (by simp [hst, Stage.rank])
      · cases h
        exact .finish _ p.releasedIds rfl (by simp [failed])
    · exact .finish _ p.releasedIds rfl (by simp [failed])
    · exact .finish _ p.releasedIds rfl (by simp [failed])
  | suppress =>
    simp only [hst, List.mem_cons, List.mem_nil_iff, or_false, Prod.mk.injEq] at h
    rcases h with ⟨-, rfl⟩ | ⟨-, rfl⟩ <;> exact .finish _ p.releasedIds rfl (by simp [failed])
  | releaseAddress retry =>
    simp only [hst, List.mem_cons, List.mem_nil_iff, or_false, Prod.mk.injEq] at h
    rcases h with ⟨-, rfl⟩ | ⟨-, rfl⟩ | ⟨-, rfl⟩
    · exact .advance (.releaseOwner retry) p.aborted (by simp [hst, Stage.rank])
    · exact .settle retry
    · exact .settle retry
  | releaseOwner retry =>
    simp only [hst, List.mem_cons, List.mem_nil_iff, or_false, Prod.mk.injEq] at h
    rcases h with ⟨-, rfl⟩ | ⟨-, rfl⟩ <;> exact .settle retry

theorem perm_tasks (ht : p.tasks[i]? = some t) : p.tasks.Perm (t :: p.tasks.eraseIdx i) := by
  obtain ⟨hlt, rfl⟩ := List.getElem?_eq_some_iff.mp ht
  exact (List.getElem_cons_eraseIdx_perm hlt).symm

theorem perm_advance (ht : p.tasks[i]? = some t) (stage : Stage) :
    (p.advance i t stage).tasks.Perm ({ t with stage := stage } :: p.tasks.eraseIdx i) :=
  List.set_perm_cons_eraseIdx (List.getElem?_eq_some_iff.mp ht).1 _

theorem Accounted.moves (hp : p.Accounted) (ht : p.tasks[i]? = some t) (h : p.Moves i t p') : p'.Accounted := by
  have htasks := (perm_tasks ht).map (·.claim.id)
  -- An outcome with the id of the delivery takes the place of the delivery.
  have hfinish : ∀ o : DeliveryOutcome, o.id = t.claim.id →
      ((p.outcomes ++ [o]).map (·.id) ++ (p.tasks.eraseIdx i).map (·.claim.id) ++ p.queue.map (·.id)).Perm
        (p.outcomes.map (·.id) ++ p.tasks.map (·.claim.id) ++ p.queue.map (·.id)) := by
    intro o ho
    refine List.Perm.append_right _ ?_
    rw [List.map_append, List.append_assoc]
    refine List.Perm.append_left _ ?_
    simpa [ho] using htasks.symm
  cases h with
  | advance stage aborted h =>
    refine ⟨(List.Perm.append_right _ (List.Perm.append_left _ ?_)).trans hp.ids, hp.sent⟩
    exact ((perm_advance ht stage).map (·.claim.id)).trans htasks.symm
  | finish o releasedIds hid hs =>
    refine ⟨(hfinish o hid).trans hp.ids, ?_⟩
    simpa [finish, hs] using hp.sent
  | sent o hid hs =>
    refine ⟨(hfinish o hid).trans hp.ids, ?_⟩
    simpa [finish, hs, hid] using hp.sent

theorem remaining_moves (ht : p.tasks[i]? = some t) (h : p.Moves i t p') : p'.remaining < p.remaining := by
  have htasks := ((perm_tasks ht).map (·.stage.rank)).sum_eq
  have hpos : 0 < t.stage.rank := by cases t.stage <;> simp [Stage.rank]
  simp only [List.map_cons, List.sum_cons] at htasks
  cases h with
  | advance stage aborted h =>
    have hadvance := ((perm_advance ht stage).map (·.stage.rank)).sum_eq
    simp only [List.map_cons, List.sum_cons] at hadvance
    have hqueue : (p.advance i t stage).queue.length = p.queue.length := rfl
    simp only [remaining]
    omega
  | finish o releasedIds hid hs =>
    simp only [remaining, finish]
    omega
  | sent o hid hs =>
    simp only [remaining, finish]
    omega

end Chunk

section Starting

variable (cfg : Config) {p : Chunk} {claim : DeliveryClaim} {queue : List DeliveryClaim}

/-- The outcome of a delivery that is screened out is about that delivery. -/
theorem screen_inl {r : Request} {o : DeliveryOutcome} (h : cfg.screen r claim = .inl o) :
    o.id = claim.id ∧ o.status = .suppressed := by
  unfold Config.screen at h
  split at h
  · cases h
    exact ⟨rfl, rfl⟩
  · split at h
    · cases h
      exact ⟨rfl, rfl⟩
    · split at h
      · cases h
        exact ⟨rfl, rfl⟩
      · split at h
        · cases h
          exact ⟨rfl, rfl⟩
        · cases h

theorem Chunk.Accounted.start (hp : p.Accounted) (hq : p.queue = claim :: queue) :
    (cfg.start p claim queue).Accounted := by
  have hids := hp.ids
  rw [hq] at hids
  -- The first claim of the queue moves over to the outcomes.
  have hended : ∀ o : DeliveryOutcome, o.id = claim.id →
      ((p.outcomes ++ [o]).map (·.id) ++ p.tasks.map (·.claim.id) ++ queue.map (·.id)).Perm
        (p.request.relevant.map (·.id)) := by
    intro o ho
    refine List.Perm.trans ?_ hids
    simp only [List.map_append, List.map_cons, List.map_nil, ho, List.append_assoc, List.cons_append, List.nil_append]
    exact List.Perm.append_left _ List.perm_middle.symm
  unfold Config.start
  split
  · exact ⟨hended (pending claim.id) rfl, by simpa [pending] using hp.sent⟩
  · split
    · next o ho =>
      obtain ⟨hid, hstatus⟩ := screen_inl cfg ho
      exact ⟨hended o hid, by simpa [hstatus] using hp.sent⟩
    · refine ⟨List.Perm.trans ?_ hids, hp.sent⟩
      simp only [List.map_append, List.map_cons, List.map_nil, List.append_assoc]
      exact List.Perm.refl _

theorem remaining_start (hq : p.queue = claim :: queue) : (cfg.start p claim queue).remaining < p.remaining := by
  unfold Config.start
  split
  · simp [Chunk.remaining, hq]
  · split
    · simp [Chunk.remaining, hq]
    · simp only [Chunk.remaining, hq, List.map_append, List.map_cons, List.map_nil, List.sum_append, List.sum_cons,
        List.sum_nil, Stage.rank, List.length_cons]
      omega

end Starting

section Access

variable {cfg : Config} {s s' : Shared} {p p' : Chunk}

theorem progress_cases (h : (s', p') ∈ cfg.progress s p) :
    (∃ claim queue, p.queue = claim :: queue ∧ s' = s ∧ p' = cfg.start p claim queue) ∨
      ∃ i t, p.tasks[i]? = some t ∧ (s', p') ∈ deliver s p i t := by
  rcases List.mem_append.mp h with h | h
  · split at h
    · cases h
    · next claim queue hq =>
      split at h
      · simp only [List.mem_singleton, Prod.mk.injEq] at h
        exact .inl ⟨claim, queue, hq, h.1, h.2⟩
      · cases h
  · obtain ⟨⟨t, i⟩, hmem, h⟩ := List.mem_flatMap.mp h
    exact .inr ⟨i, t, List.mem_zipIdx_iff_getElem?.mp hmem, h⟩

theorem deliver_ne_nil (i : ℕ) (t : Task) : deliver s p i t ≠ [] := by
  unfold deliver
  cases t.stage <;> simp

/-- A chunk that is not at its end can go on. -/
theorem progress_ne_nil (h : ¬ (p.queue.isEmpty ∧ p.tasks.isEmpty)) : cfg.progress s p ≠ [] := by
  cases htasks : p.tasks with
  | cons t tasks =>
    intro hnil
    have hdeliver : deliver s p 0 t = [] := by
      have := (List.append_eq_nil_iff.mp hnil).2
      simp only [htasks, List.zipIdx_cons, List.flatMap_cons, List.append_eq_nil_iff] at this
      exact this.1
    exact deliver_ne_nil 0 t hdeliver
  | nil =>
    cases hq : p.queue with
    | nil => simp [hq, htasks] at h
    | cons claim queue => simp [Config.progress, hq, htasks, Config.cap]

theorem access_await {q : Chunk} (h : (s', .await q) ∈ cfg.access s p) : (s', q) ∈ cfg.progress s p := by
  unfold Config.access at h
  split at h
  · simp at h
  · obtain ⟨x, hx, heq⟩ := List.mem_map.mp h
    cases heq
    exact hx

theorem access_done {r : Result} (h : (s', .done r) ∈ cfg.access s p) :
    p.queue = [] ∧ p.tasks = [] ∧ s' = s ∧ r = p.result := by
  unfold Config.access at h
  split at h
  · next hend =>
    simp only [List.mem_singleton, Prod.mk.injEq, Next.done.injEq] at h
    exact ⟨List.isEmpty_iff.mp hend.1, List.isEmpty_iff.mp hend.2, h.1, h.2⟩
  · simp at h

theorem access_ne_nil : cfg.access s p ≠ [] := by
  unfold Config.access
  split
  · simp
  · next hend => simpa using progress_ne_nil hend

theorem remaining_lt {q : Chunk} (h : (s', .await q) ∈ cfg.access s p) : q.remaining < p.remaining := by
  rcases progress_cases (access_await h) with ⟨claim, queue, hq, -, rfl⟩ | ⟨i, t, ht, hd⟩
  · exact remaining_start cfg hq
  · exact Chunk.remaining_moves ht (Chunk.moves_of_deliver hd)

theorem Chunk.Accounted.access {q : Chunk} (hp : p.Accounted) (h : (s', .await q) ∈ cfg.access s p) : q.Accounted := by
  rcases progress_cases (access_await h) with ⟨claim, queue, hq, -, rfl⟩ | ⟨i, t, ht, hd⟩
  · exact hp.start cfg hq
  · exact hp.moves ht (Chunk.moves_of_deliver hd)

theorem Chunk.Moves.request {i : ℕ} {t : Task} (h : p.Moves i t p') : p'.request = p.request := by
  cases h <;> rfl

theorem request_start (claim : DeliveryClaim) (queue : List DeliveryClaim) :
    (cfg.start p claim queue).request = p.request := by
  unfold Config.start
  split
  · rfl
  · split <;> rfl

theorem request_access {q : Chunk} (h : (s', .await q) ∈ cfg.access s p) : q.request = p.request := by
  rcases progress_cases (access_await h) with ⟨claim, queue, -, -, rfl⟩ | ⟨i, t, -, hd⟩
  · exact request_start claim queue
  · exact (Chunk.moves_of_deliver hd).request

end Access

/-! ## Who is handed over for an address -/

/-- The deliveries that found the address unclaimed. -/
def claimsOf (key : AddressKey) (log : List Event) : List DeliveryId :=
  log.filterMap fun
    | .claimed k d => if k = key then some d else none
    | _ => none

/-- The deliveries that went on because the cache did not answer. -/
def bypassesOf (key : AddressKey) (log : List Event) : List DeliveryId :=
  log.filterMap fun
    | .unavailable k d => if k = key then some d else none
    | _ => none

/-- The messages that were handed to the mailer, by the id of their delivery. -/
def handedOverOf (key : AddressKey) (log : List Event) : List DeliveryId :=
  log.filterMap fun
    | .handedOver k d => if k = key then some d else none
    | _ => none

def releasesOf (key : AddressKey) (log : List Event) : ℕ :=
  log.countP fun
    | .released k _ => k = key
    | _ => false

def expiriesOf (key : AddressKey) (log : List Event) : ℕ := log.count (.expired key)

/-- The delivery may be mailed: it claimed the address, or the cache did not answer. -/
def Passed (log : List Event) (key : AddressKey) (d : DeliveryId) : Prop :=
  .claimed key d ∈ log ∨ .unavailable key d ∈ log

structure Shared.Logged (s : Shared) : Prop where
  counts : s.addresses.All (fun x => 0 < x.count)
  claims : ∀ key, (claimsOf key s.log).length ≤
    releasesOf key s.log + expiriesOf key s.log + if (s.addresses.find? key).isSome then 1 else 0
  owners : s.owners.All (fun o => .claimed o.key o.deliveryId ∈ s.log)
  passed : ∀ key d, .handedOver key d ∈ s.log → Passed s.log key d
  released : ∀ key d, .released key d ∈ s.log → .failed key d ∈ s.log

/-- What the log says about a delivery in progress. -/
def Task.Logged (log : List Event) (key : AddressKey) (t : Task) : Prop :=
  match t.stage with
  | .setOwner => .claimed key t.claim.id ∈ log
  | .takeToken => Passed log key t.claim.id
  | .releaseAddress _ | .releaseOwner _ => .failed key t.claim.id ∈ log
  | _ => True

def Chunk.Logged (log : List Event) (p : Chunk) : Prop := ∀ t ∈ p.tasks, t.Logged log (p.request.addressKey t.hash)

section Log

variable {s : Shared} {key : AddressKey} {d : DeliveryId}

theorem Passed.mono {log log' : List Event} (h : Passed log key d) (hsub : log ⊆ log') : Passed log' key d :=
  h.imp (fun h => hsub h) (fun h => hsub h)

theorem Task.Logged.mono {log log' : List Event} {t : Task} (h : t.Logged log key) (hsub : log ⊆ log') :
    t.Logged log' key := by
  unfold Task.Logged at h ⊢
  split at h
  · exact hsub h
  · exact h.mono hsub
  · exact hsub h
  · exact hsub h
  · trivial

theorem Chunk.Logged.mono {log log' : List Event} {p : Chunk} (h : p.Logged log) (hsub : log ⊆ log') : p.Logged log' :=
  fun t ht => (h t ht).mono hsub

theorem count_pos_iff (hs : s.Logged) : 0 < s.count key ↔ (s.addresses.find? key).isSome := by
  unfold Shared.count
  cases hx : s.addresses.find? key with
  | none => simp
  | some x => simpa using hs.counts key x hx

namespace Shared.Logged

/-- An event that says nothing about claims, hand-overs and ends of a claim. -/
theorem note (hs : s.Logged) (e : Event) (hpassed : ∀ k x, e = .handedOver k x → Passed s.log k x)
    (hclaimed : ∀ k x, e ≠ .claimed k x) (hreleased : ∀ k x, e = .released k x → .failed k x ∈ s.log) :
    (s.note e).Logged := by
  refine ⟨hs.counts, fun k => ?_, fun k o ho => .tail _ (hs.owners k o ho), fun k x hx => ?_, fun k x hx => ?_⟩
  · have hc : claimsOf k (s.note e).log = claimsOf k s.log := by
      unfold claimsOf Shared.note
      rw [List.filterMap_cons_none]
      split
      · next k' x => exact absurd rfl (hclaimed k' x)
      · rfl
    have hr : releasesOf k s.log ≤ releasesOf k (s.note e).log :=
      List.Sublist.countP_le (List.sublist_cons_self e s.log)
    have he : expiriesOf k s.log ≤ expiriesOf k (s.note e).log :=
      List.Sublist.count_le _ (List.sublist_cons_self e s.log)
    have hle := hs.claims k
    rw [hc]
    exact hle.trans (Nat.add_le_add_right (Nat.add_le_add hr he) _)
  · rcases List.mem_cons.mp hx with hx | hx
    · exact (hpassed k x hx.symm).mono (List.subset_cons_self _ _)
    · exact (hs.passed k x hx).mono (List.subset_cons_self _ _)
  · rcases List.mem_cons.mp hx with hx | hx
    · exact .tail _ (hreleased k x hx.symm)
    · exact .tail _ (hs.released k x hx)

theorem incr (hs : s.Logged) (hne : s.count key ≠ 0) : (s.incr key).Logged := by
  have hsome := (count_pos_iff hs).mp (Nat.pos_of_ne_zero hne)
  refine ⟨fun k x hx => ?_, fun k => ?_, hs.owners, hs.passed, hs.released⟩
  · simp only [Shared.incr, Table.find?_put] at hx
    split at hx
    · cases hx
      exact Nat.succ_pos _
    · exact hs.counts k x hx
  · have hle := hs.claims k
    simp only [Shared.incr, Table.find?_put]
    split
    · next hk =>
      subst hk
      simpa [hsome] using hle
    · exact hle

/-- The first count of a key is a claim; the claims before it have come to an end. -/
theorem claim (hs : s.Logged) (hzero : s.count key = 0) : ((s.incr key).note (.claimed key d)).Logged := by
  have hnone : (s.addresses.find? key).isSome = false := by
    by_contra hsome
    have hpos := (count_pos_iff hs).mpr (by simpa only [Bool.not_eq_false] using hsome)
    omega
  refine ⟨fun k x hx => ?_, fun k => ?_, fun k o ho => .tail _ (hs.owners k o ho), fun k x hx => ?_, fun k x hx => ?_⟩
  · simp only [Shared.incr, Shared.note, Table.find?_put] at hx
    split at hx
    · cases hx
      exact Nat.succ_pos _
    · exact hs.counts k x hx
  · have hle := hs.claims k
    have hr : releasesOf k (.claimed key d :: s.log) = releasesOf k s.log := List.countP_cons_of_neg (by simp)
    have he : expiriesOf k (.claimed key d :: s.log) = expiriesOf k s.log := List.count_cons_of_ne (by simp)
    by_cases hk : k = key
    · subst hk
      have hc : claimsOf k (.claimed k d :: s.log) = d :: claimsOf k s.log := by simp [claimsOf]
      rw [hnone] at hle
      simp only [Shared.incr, Shared.note, hc, hr, he, Table.find?_put, ↓reduceIte, Option.isSome_some,
        List.length_cons]
      simpa using hle
    · have hc : claimsOf k (.claimed key d :: s.log) = claimsOf k s.log := by
        have hk' : ¬ key = k := fun h => hk h.symm
        simp [claimsOf, hk']
      simp only [Shared.incr, Shared.note, hc, hr, he, Table.find?_put, if_neg hk]
      exact hle
  · simp only [Shared.incr, Shared.note, List.mem_cons, reduceCtorEq, false_or] at hx
    exact (hs.passed k x hx).mono (List.subset_cons_self _ _)
  · simp only [Shared.incr, Shared.note, List.mem_cons, reduceCtorEq, false_or] at hx
    exact .tail _ (hs.released k x hx)

/-- The end of a claim makes room for the next one. -/
theorem delAddress (hs : s.Logged) (e : Event) (he : e = .expired key ∨ (e = .released key d ∧ .failed key d ∈ s.log)) :
    ((s.delAddress key).note e).Logged := by
  have hnote : (s.note e).Logged := by
    refine hs.note e (fun k x h => ?_) (fun k x h => ?_) (fun k x h => ?_)
    · rcases he with rfl | ⟨rfl, -⟩ <;> cases h
    · rcases he with rfl | ⟨rfl, -⟩ <;> cases h
    · rcases he with rfl | ⟨rfl, hfailed⟩
      · cases h
      · cases h
        exact hfailed
  refine ⟨hs.counts.remove key, fun k => ?_, hnote.owners, hnote.passed, hnote.released⟩
  simp only [Shared.delAddress, Shared.note, Table.find?_remove]
  split
  · next hk =>
    subst hk
    have hle := hs.claims k
    have hone : (if (s.addresses.find? k).isSome then 1 else 0) ≤ 1 := by split <;> omega
    simp only [Option.isSome_none, Bool.false_eq_true, ↓reduceIte, Nat.add_zero]
    rcases he with rfl | ⟨rfl, -⟩
    · have hexpired : expiriesOf k (.expired k :: s.log) = expiriesOf k s.log + 1 := List.count_cons_self
      have hreleases : releasesOf k (.expired k :: s.log) = releasesOf k s.log := List.countP_cons_of_neg (by simp)
      have hclaims : claimsOf k (.expired k :: s.log) = claimsOf k s.log := rfl
      rw [hexpired, hreleases, hclaims]
      omega
    · have hexpired : expiriesOf k (.released k d :: s.log) = expiriesOf k s.log := List.count_cons_of_ne (by simp)
      have hreleases : releasesOf k (.released k d :: s.log) = releasesOf k s.log + 1 :=
        List.countP_cons_of_pos (by simp)
      have hclaims : claimsOf k (.released k d :: s.log) = claimsOf k s.log := rfl
      rw [hexpired, hreleases, hclaims]
      omega
  · exact hnote.claims k

theorem setOwner (hs : s.Logged) (hd : .claimed key d ∈ s.log) : (s.setOwner key d).Logged := by
  refine ⟨hs.counts, hs.claims, fun k o ho => ?_, hs.passed, hs.released⟩
  simp only [Shared.setOwner, Table.find?_put] at ho
  split at ho
  · cases ho
    exact hd
  · exact hs.owners k o ho

theorem delOwner (hs : s.Logged) : (s.delOwner key).Logged :=
  ⟨hs.counts, hs.claims, hs.owners.remove key, hs.passed, hs.released⟩

theorem suppressEmail (hs : s.Logged) (hash : Hash) : (s.suppressEmail hash).Logged :=
  ⟨hs.counts, hs.claims, hs.owners, hs.passed, hs.released⟩

end Shared.Logged

theorem Chunk.Logged.advance {log : List Event} {p : Chunk} (h : p.Logged log) {i : ℕ} {t : Task} (stage : Stage)
    (ht : ({ t with stage := stage } : Task).Logged log (p.request.addressKey t.hash)) :
    (p.advance i t stage).Logged log := by
  intro x hx
  rcases List.mem_or_eq_of_mem_set hx with hx | rfl
  · exact h x hx
  · exact ht

theorem Chunk.Logged.finish {log : List Event} {p : Chunk} (h : p.Logged log) (i : ℕ) (o : DeliveryOutcome) :
    (p.finish i o).Logged log :=
  fun x hx => h x (List.mem_of_mem_eraseIdx hx)

theorem Chunk.Logged.settle {log : List Event} {p : Chunk} (h : p.Logged log) (i : ℕ) (t : Task) (retry : Bool) :
    (p.settle i t retry).Logged log := by
  cases retry with
  | true => exact h.finish i _
  | false => exact h.finish i (pending t.claim.id)

theorem subset_note (e : Event) : s.log ⊆ (s.note e).log := List.subset_cons_self _ _

/-- What the await of a delivery leaves in the log. -/
theorem logged_of_deliver {s' : Shared} {p p' : Chunk} {i : ℕ} {t : Task} (hs : s.Logged) (hp : p.Logged s.log)
    (ht : t ∈ p.tasks) (h : (s', p') ∈ deliver s p i t) : s'.Logged ∧ s.log ⊆ s'.log ∧ p'.Logged s'.log := by
  have htask := hp t ht
  have hrefl : s.log ⊆ s.log := fun _ h => h
  have hunavailable : ∀ {x : Shared}, x.Logged → (x.note
    (.unavailable (p.request.addressKey t.hash) t.claim.id)).Logged :=
    fun hx => hx.note _ (by simp) (by simp) (by simp)
  have hfailed : (s.note (.failed (p.request.addressKey t.hash) t.claim.id)).Logged :=
    hs.note _ (by simp) (by simp) (by simp)
  simp only [deliver] at h
  cases hst : t.stage with
  | countAddress =>
    simp only [hst, List.mem_cons, List.mem_nil_iff, or_false, Prod.mk.injEq] at h
    rcases h with h | ⟨rfl, rfl⟩ | ⟨rfl, rfl⟩
    · split at h
      · next hzero =>
        cases h
        have hsub : s.log ⊆ _ := subset_note (s := s) (.claimed (p.request.addressKey t.hash) t.claim.id)
        exact ⟨hs.claim hzero, hsub, (hp.mono hsub).advance _ (.head _)⟩
      · next hne =>
        cases h
        exact ⟨hs.incr hne, hrefl, hp.advance _ trivial⟩
    · have hsub := subset_note (s := s) (.unavailable (p.request.addressKey t.hash) t.claim.id)
      exact ⟨hunavailable hs, hsub, (hp.mono hsub).advance _ (.inr (.head _))⟩
    · split
      · next hzero =>
        have hsub : s.log ⊆ .unavailable (p.request.addressKey t.hash) t.claim.id ::
            .claimed (p.request.addressKey t.hash) t.claim.id :: s.log :=
          fun _ h => .tail _ (.tail _ h)
        exact ⟨hunavailable (hs.claim hzero), hsub, (hp.mono hsub).advance _ (.inr (.head _))⟩
      · next hne =>
        have hsub := subset_note (s := s) (.unavailable (p.request.addressKey t.hash) t.claim.id)
        exact ⟨hunavailable (hs.incr hne), hsub, (hp.mono hsub).advance _ (.inr (.head _))⟩
  | setOwner =>
    simp only [hst, List.mem_cons, List.mem_nil_iff, or_false, Prod.mk.injEq] at h
    rw [Task.Logged, hst] at htask
    rcases h with ⟨rfl, rfl⟩ | ⟨rfl, rfl⟩
    · exact ⟨hs.setOwner htask, hrefl, hp.advance _ (.inl htask)⟩
    · exact ⟨hs, hrefl, hp.advance _ (.inl htask)⟩
  | getOwner =>
    simp only [hst, List.mem_cons, List.mem_nil_iff, or_false, Prod.mk.injEq] at h
    rcases h with h | ⟨rfl, rfl⟩
    · split at h
      · next howner =>
        cases h
        obtain ⟨o, ho, hd⟩ := Option.map_eq_some_iff.mp howner
        have hclaimed : .claimed o.key o.deliveryId ∈ s.log := hs.owners _ o ho
        rw [Table.key_of_find? ho, hd] at hclaimed
        exact ⟨hs, hrefl, hp.advance _ (.inl hclaimed)⟩
      · cases h
        exact ⟨hs, hrefl, hp.finish i _⟩
    · have hsub := subset_note (s := s) (.unavailable (p.request.addressKey t.hash) t.claim.id)
      exact ⟨hunavailable hs, hsub, (hp.mono hsub).advance _ (.inr (.head _))⟩
  | takeToken =>
    simp only [hst, List.mem_singleton, Prod.mk.injEq] at h
    obtain ⟨rfl, rfl⟩ := h
    rw [Task.Logged, hst] at htask
    have hsub := subset_note (s := s) (.handedOver (p.request.addressKey t.hash) t.claim.id)
    refine ⟨hs.note _ (fun k x he => ?_) (by simp) (by simp), hsub, (hp.mono hsub).advance _ trivial⟩
    cases he
    exact htask
  | send =>
    have hsub := subset_note (s := s) (.failed (p.request.addressKey t.hash) t.claim.id)
    simp only [hst, List.map_cons, List.map_nil, List.mem_cons, List.mem_nil_iff, or_false, recordSendFailure,
      Prod.mk.injEq] at h
    rcases h with ⟨rfl, rfl⟩ | ⟨rfl, rfl⟩ | ⟨rfl, rfl⟩ | h | ⟨rfl, rfl⟩ | ⟨rfl, rfl⟩
    · exact ⟨hs, hrefl, fun x hx => hp x (List.mem_of_mem_eraseIdx hx)⟩
    · exact ⟨hfailed, hsub, (hp.mono hsub).advance (.releaseAddress false) (.head _)⟩
    · exact ⟨hs, hrefl, hp.advance _ trivial⟩
    · split at h
      · cases h
        exact ⟨hfailed, hsub, (hp.mono hsub).advance (.releaseAddress true) (.head _)⟩
      · cases h
        exact ⟨hs, hrefl, hp.finish i _⟩
    · exact ⟨hs, hrefl, hp.finish i _⟩
    · exact ⟨hs, hrefl, hp.finish i _⟩
  | suppress =>
    simp only [hst, List.mem_cons, List.mem_nil_iff, or_false, Prod.mk.injEq] at h
    rcases h with ⟨rfl, rfl⟩ | ⟨rfl, rfl⟩
    · exact ⟨hs.suppressEmail t.hash, hrefl, hp.finish i _⟩
    · exact ⟨hs, hrefl, hp.finish i _⟩
  | releaseAddress retry =>
    simp only [hst, List.mem_cons, List.mem_nil_iff, or_false, Prod.mk.injEq] at h
    rw [Task.Logged, hst] at htask
    have hsub := subset_note (s := s) (.released (p.request.addressKey t.hash) t.claim.id)
    have hreleased := hs.delAddress _ (.inr ⟨rfl, htask⟩)
    rcases h with ⟨rfl, rfl⟩ | ⟨rfl, rfl⟩ | ⟨rfl, rfl⟩
    · exact ⟨hreleased, hsub, (hp.mono hsub).advance (.releaseOwner retry) (.tail _ htask)⟩
    · exact ⟨hs, hrefl, hp.settle i t retry⟩
    · exact ⟨hreleased, hsub, (hp.mono hsub).settle i t retry⟩
  | releaseOwner retry =>
    simp only [hst, List.mem_cons, List.mem_nil_iff, or_false, Prod.mk.injEq] at h
    rcases h with ⟨rfl, rfl⟩ | ⟨rfl, rfl⟩
    · exact ⟨hs.delOwner, hrefl, hp.settle i t retry⟩
    · exact ⟨hs, hrefl, hp.settle i t retry⟩

end Log

/-! ## Whole runs -/

/-- What holds of a run in progress. -/
structure Call.Sound (log : List Event) (c : Call Request Chunk) : Prop where
  request : c.await.request = c.origin
  accounted : c.await.Accounted
  logged : c.await.Logged log

abbrev Sound : World → Prop := Machine.Holds Shared.Logged (fun s _ c => Call.Sound s.log c)

theorem accounted_of (r : Request) : (Chunk.of r).Accounted := ⟨List.Perm.refl _, rfl⟩

theorem logged_start {cfg : Config} {log : List Event} {p : Chunk} (hp : p.Logged log) (claim : DeliveryClaim)
    (queue : List DeliveryClaim) : (cfg.start p claim queue).Logged log := by
  unfold Config.start
  split
  · exact hp
  · split
    · exact hp
    · intro t ht
      rcases List.mem_append.mp ht with ht | ht
      · exact hp t ht
      · obtain rfl := List.mem_singleton.mp ht
        trivial

theorem logged_of_access {cfg : Config} {s s' : Shared} {p : Chunk} {n : Next Chunk Result} (hs : s.Logged)
    (hp : p.Logged s.log) (h : (s', n) ∈ cfg.access s p) :
    s'.Logged ∧ s.log ⊆ s'.log ∧ ∀ q, n = .await q → q.Logged s'.log := by
  cases n with
  | done r =>
    obtain ⟨-, -, rfl, -⟩ := access_done h
    exact ⟨hs, fun _ h => h, by simp⟩
  | await q =>
    rcases progress_cases (access_await h) with ⟨claim, queue, -, rfl, rfl⟩ | ⟨i, t, ht, hd⟩
    · refine ⟨hs, fun _ h => h, fun q hq => ?_⟩
      cases hq
      exact logged_start hp claim queue
    · obtain ⟨hs', hsub, hp'⟩ := logged_of_deliver hs hp (List.mem_of_getElem? ht) hd
      refine ⟨hs', hsub, fun q hq => ?_⟩
      cases hq
      exact hp'

theorem Call.Sound.mono {log log' : List Event} {c : Call Request Chunk} (h : Call.Sound log c) (hsub : log ⊆ log') :
    Call.Sound log' c := ⟨h.request, h.accounted, h.logged.mono hsub⟩

theorem Sound.step {cfg : Config} {w w' : World} {m : Move} {r : Option Result} (hw : Sound w)
    (hs : cfg.machine.step w m = some (w', r)) : Sound w' := by
  refine Machine.Holds.step hw hs ?_ ?_ ?_
  · intro o s p _ he
    cases he
    exact ⟨hw.shared, ⟨rfl, accounted_of o, fun t ht => (nomatch ht)⟩, hw.calls⟩
  · intro i k c s n _ hc hn
    have hcall := hw.calls i c hc
    obtain ⟨hs', hsub, hnext⟩ := logged_of_access hw.shared hcall.logged hn
    refine ⟨hs', fun p hp => ?_, fun j d _ hd => (hw.calls j d hd).mono hsub⟩
    subst hp
    exact ⟨(request_access hn).trans hcall.request, hcall.accounted.access hn, hnext p rfl⟩
  · intro e s _ he
    cases e with
    | clock now =>
      obtain ⟨-, he⟩ := Option.ite_none_right_eq_some.mp he
      cases he
      have hlogged := hw.shared
      exact ⟨⟨hlogged.counts, hlogged.claims, hlogged.owners, hlogged.passed, hlogged.released⟩, hw.calls⟩
    | expireAddress key =>
      cases he
      exact ⟨hw.shared.delAddress _ (d := 0) (.inl rfl), fun i c hc => (hw.calls i c hc).mono (subset_note _)⟩
    | expireOwner key =>
      cases he
      exact ⟨hw.shared.delOwner, hw.calls⟩

theorem sound_of_run {cfg : Config} {now : Instant} {w : World}
    (h : Machine.Run cfg.machine (fun _ _ => True) (.initial (.empty now)) w) : Sound w := by
  refine h.invariant ⟨⟨?_, fun _ => Nat.zero_le _, ?_, ?_, ?_⟩, by simp⟩ (fun hv _ hs => hv.step hs)
  · exact fun k x hx => (nomatch hx)
  · exact fun k x hx => (nomatch hx)
  · exact fun k x hx => (nomatch hx)
  · exact fun k x hx => (nomatch hx)

/-- Different deliveries are handed over for one address only as its claim ends, by a release or
an expiry, or past a cache that does not answer. -/
theorem Shared.Logged.handedOver_le {s : Shared} (hs : s.Logged) (key : AddressKey) :
    (handedOverOf key s.log).dedup.length ≤
      1 + releasesOf key s.log + expiriesOf key s.log + (bypassesOf key s.log).length := by
  have hsub : (handedOverOf key s.log).dedup ⊆ claimsOf key s.log ++ bypassesOf key s.log := by
    intro d hd
    obtain ⟨e, he, hd⟩ := List.mem_filterMap.mp (List.mem_dedup.mp hd)
    split at hd
    · next k d' =>
      obtain ⟨rfl, heq⟩ := Option.ite_none_right_eq_some.mp hd
      cases heq
      rcases hs.passed k d he with h | h
      · exact List.mem_append_left _ (List.mem_filterMap.mpr ⟨_, h, by simp⟩)
      · exact List.mem_append_right _ (List.mem_filterMap.mpr ⟨_, h, by simp⟩)
    · cases hd
  have hlength := (List.subperm_of_subset (List.nodup_dedup _) hsub).length_le
  have hclaims := hs.claims key
  have hone : (if (s.addresses.find? key).isSome then 1 else 0) ≤ 1 := by split <;> omega
  rw [List.length_append] at hlength
  omega

/-- In every interleaving: a run goes on until it returns, after a number of accesses fixed by
what it has left; the outcomes it returns have each of its email deliveries once, and say `sent`
of exactly those the mailer accepted; and over all runs the deliveries handed over for an address
are at most one, and one more for each release of the address by a delivery that had failed, each
expiry of its key, and each delivery that went past a cache that did not answer. -/
theorem runEmail_accounts {cfg : Config} {now : Instant} {w : World}
    (h : Machine.Run cfg.machine (fun _ _ => True) (.initial (.empty now)) w) :
    (∀ i c, w.call i = some c → cfg.machine.access w.shared c.await ≠ [] ∧
      (∀ s' q, (s', .await q) ∈ cfg.machine.access w.shared c.await → q.remaining < c.await.remaining) ∧
      ∀ s' r, (s', .done r) ∈ cfg.machine.access w.shared c.await →
        (r.outcomes.map (·.id)).Perm (c.origin.relevant.map (·.id)) ∧
        (r.outcomes.filter (fun o => o.status = .sent)).map (·.id) = r.accepted) ∧
      (∀ key, (handedOverOf key w.shared.log).dedup.length ≤ 1 + releasesOf key w.shared.log +
        expiriesOf key w.shared.log + (bypassesOf key w.shared.log).length) ∧
      ∀ key d, .released key d ∈ w.shared.log → .failed key d ∈ w.shared.log := by
  have hsound := sound_of_run h
  refine ⟨fun i c hc => ⟨access_ne_nil, fun s' q hq => remaining_lt hq, fun s' r hr => ?_⟩,
    hsound.shared.handedOver_le, hsound.shared.released⟩
  obtain ⟨hqueue, htasks, -, rfl⟩ := access_done hr
  obtain ⟨hrequest, ⟨hids, hsent⟩, -⟩ := hsound.calls i c hc
  refine ⟨?_, hsent⟩
  simpa [hqueue, htasks, hrequest, Chunk.result] using hids

/-- Two accounts with one mail address. -/
def sharedAddress : Request where
  broadcastId := 3
  claims := [⟨1, 0, .member, some 5, none, .email, 1⟩, ⟨2, 0, .member, some 6, none, .email, 1⟩]
  members _ := some ⟨some "mail@example.org"⟩
  guests _ := none
  emailAllowedFor _ := true
  suppressedHashes := []

def sampleConfig : Config := ⟨2, id⟩

/-- The first delivery claims the address and is accepted; the second is skipped. -/
def claimedOnce : List Move :=
  [.start sharedAddress, .access 0 0, .access 0 0, .access 0 0, .access 0 2, .access 0 0, .access 0 1, .access 0 0,
    .access 0 0]

theorem runEmail_accounts_sharedAddress :
    ∃ (w : World) (c : Call Request Chunk), Machine.Run sampleConfig.machine (fun _ _ => True) (.initial (.empty 0)) w ∧
      w.call 0 = some c ∧ c.await.outcomes.map (fun o => (o.id, o.status)) = [(2, .skipped), (1, .sent)] ∧
      (∀ s' r, (s', .done r) ∈ sampleConfig.machine.access w.shared c.await →
        (r.outcomes.map (·.id)).Perm (c.origin.relevant.map (·.id))) ∧
      (handedOverOf ⟨3, "mail@example.org"⟩ w.shared.log).dedup.length ≤ 1 := by
  have hrun : ∃ w ∈ sampleConfig.machine.perform (.initial (.empty 0)) claimedOnce,
      (w.call 0).map (fun c => c.await.outcomes.map (fun o => (o.id, o.status))) = some [(2, .skipped), (1, .sent)] ∧
      w.shared.log = [.handedOver ⟨3, "mail@example.org"⟩ 1, .claimed ⟨3, "mail@example.org"⟩ 1] := by
    decide +kernel
  obtain ⟨w, hw, hcall, hlog⟩ := hrun
  obtain ⟨c, hc, houtcomes⟩ := Option.map_eq_some_iff.mp hcall
  have hreach := Machine.free_of_perform hw
  obtain ⟨hcalls, hhanded, -⟩ := runEmail_accounts hreach
  refine ⟨w, c, hreach, hc, houtcomes, fun s' r hr => ((hcalls 0 c hc).2.2 s' r hr).1, ?_⟩
  have hle := hhanded ⟨3, "mail@example.org"⟩
  rw [hlog] at hle ⊢
  exact hle

/-- With a cache that does not answer, two messages go to one address and neither has failed. -/
theorem not_one_message_per_address :
    ¬ ∀ (cfg : Config) (now : Instant) (w : World),
      Machine.Run cfg.machine (fun _ _ => True) (.initial (.empty now)) w →
      ∀ key, (handedOverOf key w.shared.log).length ≤ 1 + releasesOf key w.shared.log := by
  intro hclaim
  have hrun : ∃ w ∈ sampleConfig.machine.perform (.initial (.empty 0))
      [.start sharedAddress, .access 0 0, .access 0 0, .access 0 1, .access 0 2, .access 0 0, .access 0 6, .access 0 0,
        .access 0 0],
      (handedOverOf ⟨3, "mail@example.org"⟩ w.shared.log).length = 2 ∧
        releasesOf ⟨3, "mail@example.org"⟩ w.shared.log = 0 := by
    decide +kernel
  obtain ⟨w, hw, htwo, hnone⟩ := hrun
  have hle := hclaim sampleConfig 0 w (Machine.free_of_perform hw) ⟨3, "mail@example.org"⟩
  rw [htwo, hnone] at hle
  exact absurd hle (by decide)

end Civfix.Broadcasts.Emails
