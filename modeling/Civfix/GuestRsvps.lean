import Civfix.InterleavedCalls

/-! # Verified guests of an event

All verifications of one contact share the guest row that is not cancelled. A call whose registration is refused
cancels the row if its own upsert inserted it. -/
namespace Civfix.GuestRsvps

open InterleavedCalls

abbrev GuestId := ℕ
abbrev RegistrationId := ℕ
abbrev TxId := ℕ

structure Guest where
  id : GuestId
  live : Bool

structure Registration where
  id : RegistrationId
  guest : GuestId
  live : Bool

/-- What a call has reported that answered `joined`. -/
structure Answer where
  guest : GuestId
  registration : Option RegistrationId
  deriving DecidableEq

/-- The rows of one contact and event. `released` are the guests that have cancelled, or that a host has acted on. -/
structure Shared where
  guests : List Guest
  registrations : List Registration
  snapshots : List (GuestId × RegistrationId)
  twins : List (GuestId × TxId)
  next : ℕ
  joined : List Answer
  released : List GuestId

namespace Shared

variable (s : Shared)

def GuestLive (g : GuestId) : Prop := ∃ row ∈ s.guests, row.id = g ∧ row.live = true

def RegistrationLive (g : GuestId) (r : RegistrationId) : Prop :=
  ∃ row ∈ s.registrations, (row.id = r ∧ row.guest = g) ∧ row.live = true

instance (g : GuestId) : Decidable (s.GuestLive g) := inferInstanceAs (Decidable (∃ row ∈ s.guests, _))

instance (g : GuestId) (r : RegistrationId) : Decidable (s.RegistrationLive g r) :=
  inferInstanceAs (Decidable (∃ row ∈ s.registrations, _))

def active (g : GuestId) : List RegistrationId :=
  (s.registrations.filter (fun row => decide (row.guest = g) && row.live)).map Registration.id

def snapshotOf (g : GuestId) : Option RegistrationId :=
  (s.snapshots.find? (fun x => decide (x.1 = g))).map Prod.snd

/-- Another transaction holds the idempotency key. -/
def TwinWaits (g : GuestId) : Prop := ∃ x ∈ s.twins, x.1 = g

instance (g : GuestId) : Decidable (s.TwinWaits g) := inferInstanceAs (Decidable (∃ x ∈ s.twins, _))

def insertGuest : Shared := { s with guests := s.guests ++ [⟨s.next, true⟩], next := s.next + 1 }

/-- The registrations that the snapshot has go with the guest, if the guest is not cancelled yet. -/
def cancelGuest (g : GuestId) (seen : List RegistrationId) : Shared :=
  { s with
    guests := s.guests.map (fun row => if row.id = g then { row with live := false } else row)
    registrations := s.registrations.map (fun row =>
      if s.GuestLive g ∧ row.guest = g ∧ row.id ∈ seen then { row with live := false } else row) }

def lock (g : GuestId) : Shared := { s with twins := (g, s.next) :: s.twins, next := s.next + 1 }

def unlock (tx : TxId) : Shared := { s with twins := s.twins.filter (fun x => decide (x.2 ≠ tx)) }

/-- The registration and its snapshot commit together. -/
def register (g : GuestId) (tx : TxId) : Shared :=
  { s.unlock tx with
    registrations := s.registrations ++ [⟨s.next, g, true⟩]
    snapshots := s.snapshots ++ [(g, s.next)]
    next := s.next + 1 }

def answer (a : Answer) : Shared := { s with joined := a :: s.joined }

def release (g : GuestId) : Shared := { s with released := g :: s.released }

/-- A host cancels a registration. -/
def cancelRegistration (r : RegistrationId) : Shared :=
  { s with
    registrations := s.registrations.map (fun row => if row.id = r then { row with live := false } else row)
    released := (s.registrations.filter (fun row => decide (row.id = r))).map Registration.guest ++ s.released }

end Shared

/-- `verifyCode`, with a code that the call has consumed. -/
inductive Request where
  | verifyCode

/-- `created` is what the upsert has told the call. -/
inductive Await where
  | upsertVerifiedGuest
  | register (g : GuestId) (created : Bool)
  | findSnapshot (tx : TxId) (g : GuestId) (created : Bool)
  | gates (tx : TxId) (g : GuestId) (created : Bool)
  | commitRegister (tx : TxId) (g : GuestId)
  | goingCount (g : GuestId) (registration : Option RegistrationId)
  | cancelGuest (g : GuestId)
  | cancelGuestSeen (g : GuestId) (seen : List RegistrationId)

inductive Result where
  | joined
  | refused
  | failed

inductive Event where
  | cancelRsvp (g : GuestId) (seen : List RegistrationId)
  | hostCancels (r : RegistrationId)
  | abort (tx : TxId)

abbrev Next := InterleavedCalls.Next Await Result
abbrev Move := InterleavedCalls.Move Request Event
abbrev World := InterleavedCalls.World Shared Request Await

/-- `rollBackThenThrow`. -/
def refuse (g : GuestId) (created : Bool) : Next := if created then .await (.cancelGuest g) else .done .refused

/-- A registration that answers with a refusal. -/
def refusalOf (g : GuestId) (created : Bool) : Next :=
  if created then .await (.cancelGuest g) else .await (.goingCount g none)

def enter (s : Shared) : Request → Option (Shared × Await)
  | .verifyCode => some (s, .upsertVerifiedGuest)

def access (s : Shared) : Await → List (Shared × Next)
  | .upsertVerifiedGuest =>
    match s.guests.find? (fun row => row.live) with
    | some row => [(s, .await (.register row.id false)), (s, .done .failed)]
    | none => [(s.insertGuest, .await (.register s.next true)), (s.insertGuest, .done .failed), (s, .done .failed)]
  -- An invalid registration is thrown before the transaction, any other failure is suppressed.
  | .register g created =>
    (if s.TwinWaits g then [] else [(s.lock g, .await (.findSnapshot s.next g created))]) ++
      [(s, refuse g created), (s, .await (.goingCount g none))]
  | .findSnapshot tx g created =>
    if (g, tx) ∉ s.twins then [(s, .await (.goingCount g none))]
    else match s.snapshotOf g with
    | some r => [(s.unlock tx, .await (.goingCount g (some r))), (s.unlock tx, .await (.goingCount g none))]
    | none => [(s, .await (.gates tx g created)), (s.unlock tx, .await (.goingCount g none))]
  | .gates tx g created =>
    (if (g, tx) ∈ s.twins ∧ s.active g = [] then [(s, .await (.commitRegister tx g))] else []) ++
      [(s.unlock tx, refusalOf g created), (s.unlock tx, .await (.goingCount g none))]
  | .commitRegister tx g =>
    if (g, tx) ∈ s.twins then
      [(s.register g tx, .await (.goingCount g (some s.next))), (s.register g tx, .await (.goingCount g none)),
        (s.unlock tx, .await (.goingCount g none))]
    else [(s, .await (.goingCount g none))]
  | .goingCount g registration => [(s.answer ⟨g, registration⟩, .done .joined), (s, .done .failed)]
  -- A failure to cancel the row is logged.
  | .cancelGuest g => [(s, .await (.cancelGuestSeen g (s.active g))), (s, .done .refused)]
  | .cancelGuestSeen g seen => [(s.cancelGuest g seen, .done .refused), (s, .done .refused)]

def environment (s : Shared) : Event → Option Shared
  | .cancelRsvp g seen => some ((s.cancelGuest g seen).release g)
  | .hostCancels r => some (s.cancelRegistration r)
  | .abort tx => some (s.unlock tx)

def machine : Machine Shared Request Await Result Event := ⟨enter, access, environment⟩

def created : Shared := ⟨[], [], [], [], 0, [], []⟩

/-! ## What an access does -/

/-- What the call would report now if it answered `joined`. -/
def Await.held : Await → Option Answer
  | .upsertVerifiedGuest => none
  | .register g _ | .findSnapshot _ g _ | .gates _ g _ | .commitRegister _ g | .cancelGuest g
  | .cancelGuestSeen g _ => some ⟨g, none⟩
  | .goingCount g registration => some ⟨g, registration⟩

/-- The guest that the call is about to cancel. -/
def Await.cancels : Await → Option GuestId
  | .cancelGuestSeen g _ => some g
  | _ => none

variable {s s' t : Shared} {w w' : World} {p q : Await} {n : Next} {g : GuestId} {r : RegistrationId} {a : Answer}

inductive Outcome (s : Shared) : Await → Shared → Next → Prop where
  | ended (p : Await) (r : Result) : Outcome s p s (.done r)
  | found (row : Guest) (hrow : row ∈ s.guests) (hlive : row.live = true) :
    Outcome s .upsertVerifiedGuest s (.await (.register row.id false))
  | inserted (n : Next) (hn : n = .await (.register s.next true) ∨ n = .done .failed) :
    Outcome s .upsertVerifiedGuest s.insertGuest n
  | carried (p q : Await) (t : Shared) (g : GuestId) (ht : t = s ∨ t = s.lock g ∨ ∃ tx, t = s.unlock tx)
    (hp : p.held = some ⟨g, none⟩) (hq : q.held = some ⟨g, none⟩) : Outcome s p t (.await q)
  | replayed (tx : TxId) (g : GuestId) (created : Bool) (r : RegistrationId) (hr : s.snapshotOf g = some r) :
    Outcome s (.findSnapshot tx g created) (s.unlock tx) (.await (.goingCount g (some r)))
  | registered (tx : TxId) (g : GuestId) (registration : Option RegistrationId)
    (hr : ∀ r ∈ registration, r = s.next) :
    Outcome s (.commitRegister tx g) (s.register g tx) (.await (.goingCount g registration))
  | answered (g : GuestId) (registration : Option RegistrationId) :
    Outcome s (.goingCount g registration) (s.answer ⟨g, registration⟩) (.done .joined)
  | cancelled (g : GuestId) (seen : List RegistrationId) :
    Outcome s (.cancelGuestSeen g seen) (s.cancelGuest g seen) (.done .refused)

theorem outcome_of_refuse {created : Bool} (hp : p.held = some ⟨g, none⟩) : Outcome s p s (refuse g created) := by
  cases created with
  | true => exact .carried p (.cancelGuest g) s g (.inl rfl) hp rfl
  | false => exact .ended p .refused

theorem outcome_of_refusalOf {created : Bool} (hp : p.held = some ⟨g, none⟩)
    (ht : t = s ∨ t = s.lock g ∨ ∃ tx, t = s.unlock tx) : Outcome s p t (refusalOf g created) := by
  cases created with
  | true => exact .carried p (.cancelGuest g) t g ht hp rfl
  | false => exact .carried p (.goingCount g none) t g ht hp rfl

theorem outcome_of_access (h : (s', n) ∈ access s p) : Outcome s p s' n := by
  cases p with
  | upsertVerifiedGuest =>
    simp only [access] at h
    split at h
    · next row hfind =>
      simp only [List.mem_cons, Prod.mk.injEq, List.not_mem_nil, or_false] at h
      rcases h with ⟨rfl, rfl⟩ | ⟨rfl, rfl⟩
      · exact .found row (List.mem_of_find?_eq_some hfind) (List.find?_some hfind)
      · exact .ended _ _
    · simp only [List.mem_cons, Prod.mk.injEq, List.not_mem_nil, or_false] at h
      rcases h with ⟨rfl, rfl⟩ | ⟨rfl, rfl⟩ | ⟨rfl, rfl⟩
      · exact .inserted _ (.inl rfl)
      · exact .inserted _ (.inr rfl)
      · exact .ended _ _
  | register g created =>
    rcases List.mem_append.mp h with h | h
    · split at h
      · cases h
      · cases List.mem_singleton.mp h
        exact .carried _ (.findSnapshot s.next g created) _ g (.inr (.inl rfl)) rfl rfl
    · simp only [List.mem_cons, Prod.mk.injEq, List.not_mem_nil, or_false] at h
      rcases h with ⟨rfl, rfl⟩ | ⟨rfl, rfl⟩
      · exact outcome_of_refuse rfl
      · exact .carried _ (.goingCount g none) _ g (.inl rfl) rfl rfl
  | findSnapshot tx g created =>
    simp only [access] at h
    split at h
    · cases List.mem_singleton.mp h
      exact .carried _ (.goingCount g none) _ g (.inl rfl) rfl rfl
    split at h
    · next r hr =>
      simp only [List.mem_cons, Prod.mk.injEq, List.not_mem_nil, or_false] at h
      rcases h with ⟨rfl, rfl⟩ | ⟨rfl, rfl⟩
      · exact .replayed tx g created r hr
      · exact .carried _ (.goingCount g none) _ g (.inr (.inr ⟨tx, rfl⟩)) rfl rfl
    · simp only [List.mem_cons, Prod.mk.injEq, List.not_mem_nil, or_false] at h
      rcases h with ⟨rfl, rfl⟩ | ⟨rfl, rfl⟩
      · exact .carried _ (.gates tx g created) _ g (.inl rfl) rfl rfl
      · exact .carried _ (.goingCount g none) _ g (.inr (.inr ⟨tx, rfl⟩)) rfl rfl
  | gates tx g created =>
    rcases List.mem_append.mp h with h | h
    · split at h
      · cases List.mem_singleton.mp h
        exact .carried _ (.commitRegister tx g) _ g (.inl rfl) rfl rfl
      · cases h
    · simp only [List.mem_cons, Prod.mk.injEq, List.not_mem_nil, or_false] at h
      rcases h with ⟨rfl, rfl⟩ | ⟨rfl, rfl⟩
      · exact outcome_of_refusalOf rfl (.inr (.inr ⟨tx, rfl⟩))
      · exact .carried _ (.goingCount g none) _ g (.inr (.inr ⟨tx, rfl⟩)) rfl rfl
  | commitRegister tx g =>
    simp only [access] at h
    split at h
    · simp only [List.mem_cons, Prod.mk.injEq, List.not_mem_nil, or_false] at h
      rcases h with ⟨rfl, rfl⟩ | ⟨rfl, rfl⟩ | ⟨rfl, rfl⟩
      · exact .registered tx g _ fun r hr => (Option.some.inj hr).symm
      · exact .registered tx g none fun r hr => by cases hr
      · exact .carried _ (.goingCount g none) _ g (.inr (.inr ⟨tx, rfl⟩)) rfl rfl
    · cases List.mem_singleton.mp h
      exact .carried _ (.goingCount g none) _ g (.inl rfl) rfl rfl
  | goingCount g registration =>
    simp only [access, List.mem_cons, Prod.mk.injEq, List.not_mem_nil, or_false] at h
    rcases h with ⟨rfl, rfl⟩ | ⟨rfl, rfl⟩
    · exact .answered g registration
    · exact .ended _ _
  | cancelGuest g =>
    simp only [access, List.mem_cons, Prod.mk.injEq, List.not_mem_nil, or_false] at h
    rcases h with ⟨rfl, rfl⟩ | ⟨rfl, rfl⟩
    · exact .carried _ (.cancelGuestSeen g _) _ g (.inl rfl) rfl rfl
    · exact .ended _ _
  | cancelGuestSeen g seen =>
    simp only [access, List.mem_cons, Prod.mk.injEq, List.not_mem_nil, or_false] at h
    rcases h with ⟨rfl, rfl⟩ | ⟨rfl, rfl⟩
    · exact .cancelled g seen
    · exact .ended _ _

/-! ## Rows that stay -/

/-- The guest and the registration are not cancelled, unless the guest or a host has done so. -/
def Stands (s : Shared) (a : Answer) : Prop :=
  a.guest ∈ s.released ∨ (s.GuestLive a.guest ∧ ∀ r ∈ a.registration, s.RegistrationLive a.guest r)

/-- A move leaves the guest and its registrations, or releases the guest. -/
structure Keeps (g : GuestId) (s s' : Shared) : Prop where
  released : g ∈ s.released → g ∈ s'.released
  guest : s.GuestLive g → g ∈ s'.released ∨ s'.GuestLive g
  registration : ∀ r, s.RegistrationLive g r → g ∈ s'.released ∨ s'.RegistrationLive g r

theorem keeps_of_rows (hguests : ∀ row ∈ s.guests, row ∈ s'.guests)
    (hregistrations : ∀ row ∈ s.registrations, row ∈ s'.registrations) (hreleased : s'.released = s.released) :
    Keeps g s s' := by
  refine ⟨fun h => hreleased ▸ h, ?_, ?_⟩
  · rintro ⟨row, hrow, hlive⟩
    exact .inr ⟨row, hguests row hrow, hlive⟩
  · rintro r ⟨row, hrow, hlive⟩
    exact .inr ⟨row, hregistrations row hrow, hlive⟩

theorem keeps_of_eq (ht : t = s ∨ t = s.lock g ∨ ∃ tx, t = s.unlock tx) (g' : GuestId) : Keeps g' s t := by
  rcases ht with rfl | rfl | ⟨tx, rfl⟩ <;> exact keeps_of_rows (fun _ h => h) (fun _ h => h) rfl

theorem guestLive_cancelGuest {g' : GuestId} {seen : List RegistrationId} :
    (s.cancelGuest g' seen).GuestLive g ↔ s.GuestLive g ∧ g ≠ g' := by
  constructor
  · rintro ⟨row, hrow, hid, hlive⟩
    obtain ⟨old, hold, rfl⟩ := List.mem_map.mp hrow
    split at hlive
    · cases hlive
    · next hne =>
      rw [if_neg hne] at hid
      exact ⟨⟨old, hold, hid, hlive⟩, hid ▸ hne⟩
  · rintro ⟨⟨row, hrow, rfl, hlive⟩, hne⟩
    exact ⟨row, List.mem_map.mpr ⟨row, hrow, if_neg hne⟩, rfl, hlive⟩

theorem keeps_cancelGuest {g' : GuestId} (hne : g ≠ g') (seen : List RegistrationId) :
    Keeps g s (s.cancelGuest g' seen) := by
  refine ⟨fun h => h, fun h => .inr (guestLive_cancelGuest.mpr ⟨h, hne⟩), ?_⟩
  rintro r ⟨row, hrow, ⟨hid, rfl⟩, hlive⟩
  exact .inr ⟨row, List.mem_map.mpr ⟨row, hrow, if_neg fun h => hne h.2.1⟩, ⟨hid, rfl⟩, hlive⟩

theorem Stands.keeps (h : Stands s a) (hk : Keeps a.guest s s') : Stands s' a := by
  rcases h with hreleased | ⟨hguest, hregistration⟩
  · exact .inl (hk.released hreleased)
  rcases hk.guest hguest with hreleased | hguest
  · exact .inl hreleased
  by_cases hreleased : a.guest ∈ s'.released
  · exact .inl hreleased
  · exact .inr ⟨hguest, fun r hr => (hk.registration r (hregistration r hr)).resolve_left hreleased⟩

theorem Outcome.keeps (ho : Outcome s p s' n) (hne : p.cancels ≠ some g) : Keeps g s s' := by
  cases ho with
  | ended | found => exact keeps_of_eq (g := g) (.inl rfl) g
  | inserted => exact keeps_of_rows (fun _ h => List.mem_append_left _ h) (fun _ h => h) rfl
  | carried p q t g' ht => exact keeps_of_eq ht g
  | replayed tx g' => exact keeps_of_eq (g := g) (.inr (.inr ⟨tx, rfl⟩)) g
  | registered => exact keeps_of_rows (fun _ h => h) (fun _ h => List.mem_append_left _ h) rfl
  | answered => exact keeps_of_rows (fun _ h => h) (fun _ h => h) rfl
  | cancelled g' seen => exact keeps_cancelGuest (fun heq => hne (congrArg some heq.symm)) seen

/-! ## What every state keeps -/

/-- A recorded registration is cancelled only with its guest. -/
structure Consistent (s : Shared) : Prop where
  guests : ∀ row ∈ s.guests, row.id < s.next
  snapshots : ∀ x ∈ s.snapshots, x.1 < s.next ∧
    (x.1 ∈ s.released ∨ (s.GuestLive x.1 → s.RegistrationLive x.1 x.2))
  joined : ∀ a ∈ s.joined, a.guest < s.next ∧ Stands s a

def Pending (s : Shared) (p : Await) : Prop := ∀ a, p.held = some a → a.guest < s.next ∧ Stands s a

/-- A guest that is cancelled stays so, and a new guest has a new id. -/
theorem Outcome.guestLive (ho : Outcome s p s' n) (hg : g < s.next) (h : s'.GuestLive g) : s.GuestLive g := by
  cases ho with
  | ended | found | replayed | registered | answered => exact h
  | carried p q t g' ht => rcases ht with rfl | rfl | ⟨tx, rfl⟩ <;> exact h
  | inserted =>
    obtain ⟨row, hrow, hid, hlive⟩ := h
    rcases List.mem_append.mp hrow with hrow | hrow
    · exact ⟨row, hrow, hid, hlive⟩
    · cases List.mem_singleton.mp hrow
      exact absurd hg (hid ▸ Nat.lt_irrefl _)
  | cancelled g' seen => exact (guestLive_cancelGuest.mp h).1

theorem Outcome.next_le (ho : Outcome s p s' n) : s.next ≤ s'.next := by
  cases ho with
  | ended | found | replayed | answered | cancelled => exact Nat.le_refl _
  | inserted | registered => exact Nat.le_succ _
  | carried p q t g' ht =>
    rcases ht with rfl | rfl | ⟨tx, rfl⟩
    · exact Nat.le_refl _
    · exact Nat.le_succ _
    · exact Nat.le_refl _

/-- A recorded registration is still cancelled only with its guest. -/
theorem Outcome.snapshot (ho : Outcome s p s' n) (h : Consistent s) {x : GuestId × RegistrationId}
    (hx : x ∈ s.snapshots) : x.1 < s'.next ∧
      (x.1 ∈ s'.released ∨ (s'.GuestLive x.1 → s'.RegistrationLive x.1 x.2)) := by
  obtain ⟨hlt, hrecorded⟩ := h.snapshots x hx
  refine ⟨Nat.lt_of_lt_of_le hlt ho.next_le, ?_⟩
  by_cases hcancel : p.cancels = some x.1
  · cases ho with
    | ended => exact hrecorded
    | cancelled g seen =>
      cases hcancel
      exact .inr fun hlive => absurd rfl (guestLive_cancelGuest.mp hlive).2
    | carried p q t g ht hp hq => rcases ht with rfl | rfl | ⟨tx, rfl⟩ <;> exact hrecorded
    | found | inserted | replayed | registered | answered => cases hcancel
  · have hkeeps := ho.keeps hcancel
    rcases hrecorded with hreleased | hlive
    · exact .inl (hkeeps.released hreleased)
    · by_cases hreleased : x.1 ∈ s'.released
      · exact .inl hreleased
      · exact .inr fun hguest =>
          (hkeeps.registration x.2 (hlive (ho.guestLive hlt hguest))).resolve_left hreleased

theorem consistent_of_outcome (ho : Outcome s p s' n) (h : Consistent s) (hp : Pending s p)
    (hfree : ∀ g, p.cancels = some g → ∀ a ∈ s.joined, a.guest ≠ g) : Consistent s' := by
  have hjoined : ∀ a ∈ s.joined, a.guest < s'.next ∧ Stands s' a := fun a ha =>
    ⟨Nat.lt_of_lt_of_le (h.joined a ha).1 ho.next_le,
      (h.joined a ha).2.keeps (ho.keeps fun hcancel => hfree a.guest hcancel a ha rfl)⟩
  have hsnapshots : ∀ x ∈ s.snapshots, _ := fun x hx => ho.snapshot h hx
  cases ho with
  | ended | found | replayed => exact ⟨h.guests, hsnapshots, hjoined⟩
  | inserted =>
    refine ⟨fun row hrow => ?_, hsnapshots, hjoined⟩
    rcases List.mem_append.mp hrow with hrow | hrow
    · exact Nat.lt_succ_of_lt (h.guests row hrow)
    · cases List.mem_singleton.mp hrow
      exact Nat.lt_succ_self _
  | carried p q t g ht =>
    rcases ht with rfl | rfl | ⟨tx, rfl⟩
    · exact h
    · exact ⟨fun row hrow => Nat.lt_succ_of_lt (h.guests row hrow), hsnapshots, hjoined⟩
    · exact ⟨h.guests, hsnapshots, hjoined⟩
  | registered tx g registration =>
    refine ⟨fun row hrow => Nat.lt_succ_of_lt (h.guests row hrow), fun x hx => ?_, hjoined⟩
    rcases List.mem_append.mp hx with hx | hx
    · exact hsnapshots x hx
    · cases List.mem_singleton.mp hx
      refine ⟨Nat.lt_succ_of_lt (hp ⟨g, none⟩ rfl).1, .inr fun _ => ?_⟩
      exact ⟨⟨s.next, g, true⟩, List.mem_append_right _ (List.mem_singleton_self _), ⟨rfl, rfl⟩, rfl⟩
  | answered g registration =>
    refine ⟨h.guests, hsnapshots, fun a ha => ?_⟩
    rcases List.mem_cons.mp ha with rfl | ha
    · exact hp _ rfl
    · exact hjoined a ha
  | cancelled g seen =>
    refine ⟨fun row hrow => ?_, hsnapshots, hjoined⟩
    obtain ⟨old, hold, rfl⟩ := List.mem_map.mp hrow
    split <;> exact h.guests old hold

theorem pending_of_outcome (ho : Outcome s p s' (.await q)) (h : Consistent s) (hp : Pending s p) : Pending s' q := by
  generalize hn : (InterleavedCalls.Next.await q : Next) = n at ho
  cases ho with
  | ended | answered | cancelled => cases hn
  | found row hrow hlive =>
    cases hn
    rintro a ⟨⟩
    exact ⟨h.guests row hrow, .inr ⟨⟨row, hrow, rfl, hlive⟩, fun r hr => by cases hr⟩⟩
  | inserted n hnext =>
    rcases hnext with rfl | rfl <;> cases hn
    rintro a ⟨⟩
    refine ⟨Nat.lt_succ_self _, .inr ⟨⟨⟨s.next, true⟩, ?_, rfl, rfl⟩, fun r hr => by cases hr⟩⟩
    exact List.mem_append_right _ (List.mem_singleton_self _)
  | carried p q t g ht hheld hq =>
    cases hn
    intro a ha
    cases hq.symm.trans ha
    obtain ⟨hlt, hstands⟩ := hp _ hheld
    have hle : s.next ≤ s'.next := (Outcome.carried p q s' g ht hheld hq).next_le
    exact ⟨Nat.lt_of_lt_of_le hlt hle, hstands.keeps (keeps_of_eq ht g)⟩
  | replayed tx g created r hr =>
    cases hn
    rintro a ⟨⟩
    obtain ⟨hlt, hstands⟩ := hp ⟨g, none⟩ rfl
    obtain ⟨x, hfind, rfl⟩ := Option.map_eq_some_iff.mp hr
    have hguest : x.1 = g := by simpa using List.find?_some hfind
    subst hguest
    obtain ⟨-, hrecorded⟩ := h.snapshots x (List.mem_of_find?_eq_some hfind)
    refine ⟨hlt, ?_⟩
    rcases hstands with hreleased | ⟨hlive, -⟩
    · exact .inl hreleased
    · refine hrecorded.imp_right fun hregistered => ⟨hlive, fun r hr => ?_⟩
      cases Option.some.inj hr
      exact hregistered hlive
  | registered tx g registration hr =>
    cases hn
    rintro a ⟨⟩
    obtain ⟨hlt, hstands⟩ := hp ⟨g, none⟩ rfl
    refine ⟨Nat.lt_succ_of_lt hlt, hstands.imp_right fun hlive => ⟨hlive.1, fun r hreg => ?_⟩⟩
    cases hr r hreg
    exact ⟨⟨s.next, g, true⟩, List.mem_append_right _ (List.mem_singleton_self _), ⟨rfl, rfl⟩, rfl⟩

/-! ## Runs -/

/-- A call that cancels the row it has created is the only one that has it: no other call is under way with the
row, and none has answered `joined` with it. -/
def Undisturbed (w : World) (m : Move) : Prop :=
  match m with
  | .access i _ => ∀ c ∈ w.call i, ∀ g ∈ c.await.cancels, (∀ a ∈ w.shared.joined, a.guest ≠ g) ∧
      ∀ j < w.calls.length, j ≠ i → ∀ d ∈ w.call j, ∀ a ∈ d.await.held, a.guest ≠ g
  | _ => True

instance (w : World) (m : Move) : Decidable (Undisturbed w m) :=
  match m with
  | .access i _ => inferInstanceAs (Decidable (∀ c ∈ w.call i, ∀ g ∈ c.await.cancels, _))
  | .start _ | .crash _ | .environment _ => isTrue trivial

def Sound (w : World) : Prop := Machine.Holds Consistent (fun s _ c => Pending s c.await) w

theorem Pending.keeps (h : Pending s p) (hle : s.next ≤ s'.next)
    (hk : ∀ a, p.held = some a → Keeps a.guest s s') : Pending s' p := fun a ha =>
  ⟨Nat.lt_of_lt_of_le (h a ha).1 hle, (h a ha).2.keeps (hk a ha)⟩

/-- The guest cancels, or a host acts: the rows of one guest go, and the guest is released. -/
structure Releases (s s' : Shared) : Prop where
  next : s'.next = s.next
  guests : ∀ row ∈ s'.guests, ∃ old ∈ s.guests, old.id = row.id
  snapshots : s'.snapshots = s.snapshots
  joined : s'.joined = s.joined
  live : ∀ g, s'.GuestLive g → s.GuestLive g
  keeps : ∀ g, Keeps g s s'

theorem Releases.consistent (hr : Releases s s') (h : Consistent s) : Consistent s' := by
  refine ⟨fun row hrow => ?_, fun x hx => ?_, fun a ha => ?_⟩
  · obtain ⟨old, hold, hid⟩ := hr.guests row hrow
    rw [← hid, hr.next]
    exact h.guests old hold
  · obtain ⟨hlt, hrecorded⟩ := h.snapshots x (hr.snapshots ▸ hx)
    refine ⟨hr.next ▸ hlt, ?_⟩
    rcases hrecorded with hreleased | hlive
    · exact .inl ((hr.keeps x.1).released hreleased)
    · by_cases hreleased : x.1 ∈ s'.released
      · exact .inl hreleased
      · exact .inr fun hguest => ((hr.keeps x.1).registration x.2 (hlive (hr.live x.1 hguest))).resolve_left hreleased
  · obtain ⟨hlt, hstands⟩ := h.joined a (hr.joined ▸ ha)
    exact ⟨hr.next ▸ hlt, hstands.keeps (hr.keeps a.guest)⟩

theorem releases_cancelRsvp (s : Shared) (g : GuestId) (seen : List RegistrationId) :
    Releases s ((s.cancelGuest g seen).release g) := by
  have hkeeps : ∀ g', Keeps g' s ((s.cancelGuest g seen).release g) := by
    intro g'
    by_cases heq : g' = g
    · subst heq
      have hreleased : g' ∈ ((s.cancelGuest g' seen).release g').released := List.mem_cons_self
      exact ⟨fun _ => hreleased, fun _ => .inl hreleased, fun _ _ => .inl hreleased⟩
    · have hk : Keeps g' s (s.cancelGuest g seen) := keeps_cancelGuest heq seen
      exact ⟨fun h => List.mem_cons_of_mem _ (hk.released h),
        fun h => (hk.guest h).imp_left (List.mem_cons_of_mem _),
        fun r h => (hk.registration r h).imp_left (List.mem_cons_of_mem _)⟩
  refine ⟨rfl, fun row hrow => ?_, rfl, rfl, fun g' hlive => ?_, hkeeps⟩
  · obtain ⟨old, hold, rfl⟩ := List.mem_map.mp hrow
    exact ⟨old, hold, by split <;> rfl⟩
  · have hcancelled : (s.cancelGuest g seen).GuestLive g' := hlive
    exact (guestLive_cancelGuest.mp hcancelled).1

theorem releases_cancelRegistration (s : Shared) (r : RegistrationId) : Releases s (s.cancelRegistration r) := by
  refine ⟨rfl, fun row hrow => ⟨row, hrow, rfl⟩, rfl, rfl, fun g hlive => hlive,
    fun g => ⟨fun h => List.mem_append_right _ h, .inr, ?_⟩⟩
  rintro r' ⟨row, hrow, ⟨rfl, rfl⟩, hlive⟩
  by_cases heq : row.id = r
  · refine .inl (List.mem_append_left _ (List.mem_map.mpr ⟨row, ?_, rfl⟩))
    exact List.mem_filter.mpr ⟨hrow, decide_eq_true heq⟩
  · exact .inr ⟨row, List.mem_map.mpr ⟨row, hrow, if_neg heq⟩, ⟨rfl, rfl⟩, hlive⟩

theorem releases_of_environment {e : Event} (he : environment s e = some s') : Releases s s' := by
  cases e with
  | cancelRsvp g seen => exact Option.some.inj he ▸ releases_cancelRsvp s g seen
  | hostCancels r => exact Option.some.inj he ▸ releases_cancelRegistration s r
  | abort tx =>
    cases he
    exact ⟨rfl, fun row hrow => ⟨row, hrow, rfl⟩, rfl, rfl, fun g hlive => hlive,
      fun g => keeps_of_eq (g := g) (.inr (.inr ⟨tx, rfl⟩)) g⟩

theorem Sound.step {m : Move} {res : Option Result} (h : Sound w) (hok : Undisturbed w m)
    (hs : machine.step w m = some (w', res)) : Sound w' := by
  refine Machine.Holds.step_outcome h hs ?_ ?_ ?_
  · intro o s p _ he
    cases o
    cases he
    exact ⟨h.shared, fun a ha => (by cases ha), fun i c hc => h.calls i c hc⟩
  · intro i k c s n hm hc hk
    subst hm
    have hout := outcome_of_access (List.mem_of_getElem? hk)
    have hp := h.calls i c hc
    refine ⟨consistent_of_outcome hout h.shared hp fun g hg => (hok c hc g hg).1, fun q hq => ?_, fun j d hj hd => ?_⟩
    · exact pending_of_outcome (hq ▸ hout) h.shared hp
    · refine Pending.keeps (h.calls j d hd) hout.next_le fun a ha => hout.keeps fun hcancel => ?_
      exact (hok c hc a.guest hcancel).2 j (World.lt_of_call hd) hj d hd a ha rfl
  · intro e s _ he
    have hr := releases_of_environment he
    exact ⟨hr.consistent h.shared, fun i c hc =>
      Pending.keeps (h.calls i c hc) (Nat.le_of_eq hr.next.symm) fun a _ => hr.keeps a.guest⟩

/-- While a call cancels only rows that no other call has, what a call has reported that answered `joined` is not
cancelled but by the guest or a host. -/
theorem confirmed_guest_stays (w : World) (h : Machine.Run machine Undisturbed (World.initial created) w) :
    ∀ a ∈ w.shared.joined, a.guest ∉ w.shared.released →
      w.shared.GuestLive a.guest ∧ ∀ r ∈ a.registration, w.shared.RegistrationLive a.guest r := by
  have hstart : Sound (World.initial created) :=
    ⟨⟨fun row hrow => (by cases hrow), fun x hx => (by cases hx), fun a ha => (by cases ha)⟩,
      fun i c hc => by simp at hc⟩
  have hsound : Sound w := h.invariant hstart (fun hw hok hs => hw.step hok hs)
  exact fun a ha hnot => (hsound.shared.joined a ha).2.resolve_left hnot

/-! ## A refusal after another call has joined -/

/-- The first call is refused, but cancels its row after the second has joined with it. -/
def refusedAfterJoin : List Move :=
  [.start .verifyCode, .access 0 0, .start .verifyCode, .access 1 0, .access 0 0, .access 0 0, .access 0 1,
    .access 1 0, .access 1 0, .access 1 0, .access 1 0, .access 1 0, .access 0 0, .access 0 0]

theorem confirmed_guest_cancelled :
    ¬ ∀ w, Machine.Run machine (fun _ _ => True) (World.initial created) w →
      ∀ a ∈ w.shared.joined, a.guest ∉ w.shared.released →
        w.shared.GuestLive a.guest ∧ ∀ r ∈ a.registration, w.shared.RegistrationLive a.guest r := by
  intro hall
  have hruns : (machine.perform (World.initial created) refusedAfterJoin).any
      (fun w => decide (∃ a ∈ w.shared.joined, a.guest ∉ w.shared.released ∧ ¬ w.shared.GuestLive a.guest)) = true := by
    decide +kernel
  obtain ⟨w, hw, hP⟩ := (Option.any_eq_true _ _).mp hruns
  obtain ⟨a, ha, hnot, hdead⟩ := of_decide_eq_true hP
  exact hdead (hall w (Machine.free_of_perform hw) a ha hnot).1

/-- A call is refused and cancels its row, the next one joins with a new row and registers, and a third, whose
registration is refused, keeps the row. -/
def refusedThenJoined : List Move :=
  [.start .verifyCode, .access 0 0, .access 0 1, .access 0 0, .access 0 0, .start .verifyCode, .access 1 0,
    .access 1 0, .access 1 0, .access 1 0, .access 1 0, .access 1 0, .start .verifyCode, .access 2 0, .access 2 1]

theorem joined_guest_stays : ∃ w : World, w.shared.joined = [⟨1, some 3⟩] ∧ w.shared.GuestLive 1 ∧
    w.shared.RegistrationLive 1 3 := by
  have hruns : (machine.perform (World.initial created) refusedThenJoined).any
      (fun w => decide (w.shared.joined = [⟨1, some 3⟩] ∧ w.shared.released = [])) = true := by decide +kernel
  obtain ⟨w, hw, hP⟩ := (Option.any_eq_true _ _).mp hruns
  obtain ⟨hjoined, hnone⟩ := of_decide_eq_true hP
  have hkept := confirmed_guest_stays w (Machine.run_of_perform (by decide +kernel) hw) ⟨1, some 3⟩
    (by rw [hjoined]; exact List.mem_singleton_self _) (by rw [hnone]; exact List.not_mem_nil)
  exact ⟨w, hjoined, hkept.1, hkept.2 3 rfl⟩

end Civfix.GuestRsvps
