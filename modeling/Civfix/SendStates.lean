import Mathlib.Data.List.Sort
import Mathlib.Algebra.Order.Ring.Int

/-! # Whether a send is in flight or has failed

Both expressions judge the latest outbound message of a thread by its events. A message that was delivered again may have
failed more than once: a failure that is no deadline says at once that the send has failed, and a recent deadline says
that it is in flight, whichever of the two came last.

A comparison with a column that is null selects no row. Times are in microseconds. -/
namespace Civfix.SendStates

abbrev ThreadId := ℕ
abbrev MessageId := ℕ
abbrev Instant := ℤ

def MICROSECONDS : ℤ := 1000000

/-- The floor of the window, which is more than the largest deadline and its slack. -/
def ROUTE_DEADLINE_INFLIGHT_SECONDS : ℤ := 15 * 60

def ROUTE_CLAIM_STALE_SECONDS : ℤ := ROUTE_DEADLINE_INFLIGHT_SECONDS

/-- A row of `mail_messages`; `outbound` is the test on its direction. -/
structure Message where
  id : MessageId
  threadId : ThreadId
  outbound : Bool
  createdAt : Instant

inductive EventType where
  | sent
  | failed
  | other
  deriving DecidableEq

/-- A row of `mail_events`, with the `reason` of its meta. -/
structure Event where
  threadId : ThreadId
  messageId : Option MessageId
  type : EventType
  reason : Option String
  createdAt : Instant

structure Mail where
  messages : List Message
  events : List Event

namespace Mail

variable (mail : Mail) (now : Instant) (thread : ThreadId) (since : Option Instant)

def createdSince (createdAt : Instant) : Bool := since.all fun since => decide (since ≤ createdAt)

/-- `ORDER BY created_at DESC, id DESC` -/
def LaterFirst (a b : Message) : Prop := b.createdAt < a.createdAt ∨ (b.createdAt = a.createdAt ∧ b.id ≤ a.id)

instance : DecidableRel LaterFirst := fun a b =>
  inferInstanceAs (Decidable (b.createdAt < a.createdAt ∨ (b.createdAt = a.createdAt ∧ b.id ≤ a.id)))

def latestOutboundAttempt : Option Message :=
  ((mail.messages.filter fun m =>
    decide (m.threadId = thread) && m.outbound && createdSince since m.createdAt).insertionSort LaterFirst).head?

def attemptEventExists (latest : Message) (type : EventType) (extra : Event → Bool) : Bool :=
  mail.events.any fun e =>
    decide (e.threadId = thread) && decide (e.messageId = some latest.id) && decide (e.type = type) && extra e

/-- A failure by the deadline, within the window. -/
def recentDeadline (e : Event) : Bool :=
  decide (e.reason = some "deadline") && decide (now - ROUTE_DEADLINE_INFLIGHT_SECONDS * MICROSECONDS < e.createdAt)

def notDeadline (e : Event) : Bool := decide (e.reason.getD "" ≠ "deadline")

def sendInFlight : Bool :=
  (mail.latestOutboundAttempt thread since).elim false fun latest =>
    !mail.attemptEventExists thread latest .sent (fun _ => true) &&
      (mail.attemptEventExists thread latest .failed (recentDeadline now) ||
        (!mail.attemptEventExists thread latest .failed (fun _ => true) &&
          decide (now - ROUTE_CLAIM_STALE_SECONDS * MICROSECONDS < latest.createdAt)))

/-- Some packet of the thread was sent, of those created since. -/
def anySent : Bool :=
  mail.events.any fun e => decide (e.threadId = thread) && decide (e.type = .sent) && since.all fun since =>
    mail.messages.any fun m =>
      decide (m.threadId = thread) && decide (e.messageId = some m.id) && decide (since ≤ m.createdAt)

def sendFailed : Bool :=
  !mail.anySent thread since && (mail.latestOutboundAttempt thread since).elim false fun latest =>
    if mail.attemptEventExists thread latest .failed notDeadline then true
    else if mail.attemptEventExists thread latest .failed (recentDeadline now) then false
    else if mail.attemptEventExists thread latest .failed (fun _ => true) then true
    else decide (latest.createdAt < now - ROUTE_CLAIM_STALE_SECONDS * MICROSECONDS)

end Mail

variable {mail : Mail} {now : Instant} {thread : ThreadId} {since : Option Instant} {latest : Message}

theorem attemptEventExists_any {type : EventType} {extra : Event → Bool}
    (h : mail.attemptEventExists thread latest type extra = true) :
    mail.attemptEventExists thread latest type (fun _ => true) = true := by
  obtain ⟨e, he, h⟩ := List.any_eq_true.mp h
  refine List.any_eq_true.mpr ⟨e, he, ?_⟩
  simp only [Bool.and_eq_true] at h ⊢
  exact ⟨h.1, trivial⟩

theorem latest_spec (h : mail.latestOutboundAttempt thread since = some latest) :
    latest ∈ mail.messages ∧ latest.threadId = thread ∧ Mail.createdSince since latest.createdAt = true := by
  obtain ⟨hmem, hlatest⟩ := List.mem_filter.mp ((List.mem_insertionSort _).mp (List.mem_of_head? h))
  simp only [Bool.and_eq_true, decide_eq_true_eq] at hlatest
  exact ⟨hmem, hlatest.1.1, hlatest.2⟩

/-- A thread whose latest message was sent has a message that was. -/
theorem anySent_of_latest (h : mail.latestOutboundAttempt thread since = some latest)
    (hsent : mail.attemptEventExists thread latest .sent (fun _ => true) = true) : mail.anySent thread since = true := by
  obtain ⟨hmem, hthread, hsince⟩ := latest_spec h
  obtain ⟨e, he, hevent⟩ := List.any_eq_true.mp hsent
  simp only [Bool.and_eq_true, decide_eq_true_eq] at hevent
  obtain ⟨⟨⟨hthread', hmessage⟩, htype⟩, -⟩ := hevent
  refine List.any_eq_true.mpr ⟨e, he, ?_⟩
  simp only [Bool.and_eq_true, decide_eq_true_eq]
  refine ⟨⟨hthread', htype⟩, ?_⟩
  cases since with
  | none => rfl
  | some since =>
    refine List.any_eq_true.mpr ⟨latest, hmem, ?_⟩
    simp only [Bool.and_eq_true, decide_eq_true_eq]
    exact ⟨⟨hthread, hmessage⟩, of_decide_eq_true hsince⟩

/-- The two are never both true, except for a thread without a sent packet whose latest message has failed both by the
deadline, within the window, and in another way. -/
theorem send_states_exclusive (mail : Mail) (now : Instant) (thread : ThreadId) (since : Option Instant) :
    ¬ (mail.sendInFlight now thread since = true ∧ mail.sendFailed now thread since = true) ↔
      mail.anySent thread since = true ∨ ∀ latest, mail.latestOutboundAttempt thread since = some latest →
        mail.attemptEventExists thread latest .failed (Mail.recentDeadline now) = true →
          mail.attemptEventExists thread latest .failed Mail.notDeadline = false := by
  simp only [Mail.sendInFlight, Mail.sendFailed]
  cases hlatest : mail.latestOutboundAttempt thread since with
  | none => simp
  | some latest =>
    have hsent : mail.anySent thread since = false →
        mail.attemptEventExists thread latest .sent (fun _ => true) = false := fun hnone =>
      Bool.eq_false_iff.mpr fun hsent => Bool.eq_false_iff.mp hnone (anySent_of_latest hlatest hsent)
    simp only [Option.elim_some, Option.some.injEq, forall_eq']
    cases hany : mail.anySent thread since with
    | true => simp
    | false =>
      rw [hsent hany]
      cases hrecent : mail.attemptEventExists thread latest .failed (Mail.recentDeadline now) with
      | true => simp
      | false =>
        -- An attempt without failures is either young or stale.
        cases hfailed : mail.attemptEventExists thread latest .failed (fun _ => true) with
        | true => simp
        | false =>
          have hother : mail.attemptEventExists thread latest .failed Mail.notDeadline = false :=
            Bool.eq_false_iff.mpr fun hother => Bool.eq_false_iff.mp hfailed (attemptEventExists_any hother)
          simp only [hother, Bool.not_false, Bool.true_and, Bool.false_or, Bool.false_eq_true, if_false,
            decide_eq_true_eq, false_implies, or_true, iff_true, not_and, not_lt]
          exact le_of_lt

/-- The packet was refused, then delivered again, and that try has just run into its deadline. -/
def redelivered : Mail where
  messages := [⟨1, 1, true, 0⟩]
  events := [⟨1, some 1, .failed, none, 1000000⟩, ⟨1, some 1, .failed, some "deadline", 100000000⟩]

theorem redelivered_in_flight_and_failed : ¬ ∀ (mail : Mail) (now : Instant) (thread : ThreadId) (since : Option Instant),
    ¬ (mail.sendInFlight now thread since = true ∧ mail.sendFailed now thread since = true) := by
  intro hall
  exact hall redelivered 110000000 1 none (by decide +kernel)

end Civfix.SendStates
