import Civfix.RegistrationRules

/-! # What a guest is told before a code is sent

The request for a code reads the windows of the event and of its ticket types, and refuses a guest whom the registration
would refuse on the same rows. -/
namespace Civfix.Attendance

open KeyedTables LockedTransactions

structure GuestTicketTypeGate where
  id : Id
  visibility : TicketTypeVisibility
  salesOpensAt : Option Instant
  salesClosesAt : Option Instant
  deriving DecidableEq

structure GuestRegistrationGate where
  registrationOpensAt : Option Instant
  registrationClosesAt : Option Instant
  ticketTypes : List GuestTicketTypeGate
  deriving DecidableEq

/-- What the form of a guest says about the place. -/
structure GuestRegistrationFields where
  ticketTypeId : Option Id
  partySize : ℕ
  accessCode : Option String

def gateOf (t : TicketType) : GuestTicketTypeGate := ⟨t.id, t.visibility, t.salesOpensAt, t.salesClosesAt⟩

/-- The reads of `eventContext` and `listTicketTypes`. -/
def registrationGate (s : Db) (cleanupId : Id) : Option GuestRegistrationGate :=
  (s.events.find? cleanupId).map fun event =>
    { registrationOpensAt := event.registrationOpensAt, registrationClosesAt := event.registrationClosesAt
      ticketTypes := (s.ticketTypesOf cleanupId).map gateOf }

def withinWindow (now : Instant) (opensAt closesAt : Option Instant) : Bool :=
  if opensAt.any (now < ·) then false else if closesAt.any (· ≤ now) then false else true

def foreseenTicketType (gate : GuestRegistrationGate) (fields : GuestRegistrationFields) : Option GuestTicketTypeGate :=
  match fields.ticketTypeId with
  | some id => gate.ticketTypes.find? fun t => t.id = id
  | none => if gate.ticketTypes.length = 1 then gate.ticketTypes.head? else none

def foreseeableGuestRefusal (gate : GuestRegistrationGate) (fields : GuestRegistrationFields) (now : Instant) :
    Option RegisterTxOutcome :=
  if !withinWindow now gate.registrationOpensAt gate.registrationClosesAt then some .registrationClosed
  else match foreseenTicketType gate fields with
    | none => none
    | some t =>
      if t.visibility = .hidden then none
      else if t.visibility = .accessCode ∧ fields.accessCode = none then some .accessCodeRequired
      else if !withinWindow now t.salesOpensAt t.salesClosesAt then some .salesClosed
      else none

/-- The call that a verified guest's own sign-up makes. `accessCodeHashOf` is the hash of the trimmed code. -/
def guestRegisterArgs (accessCodeHashOf : String → String) (cleanupId guestId : Id) (fields : GuestRegistrationFields)
    (slotId : Option Id) (idempotencyKey : String) (registrationId : Id) (now : Instant) : RegisterTxArgs where
  cleanupId := cleanupId
  subject := .guest guestId
  ticketTypeId := fields.ticketTypeId
  seats := fields.partySize
  accessCodeHash := fields.accessCode.map accessCodeHashOf
  slotId := slotId
  source := .self
  idempotencyKey := idempotencyKey
  idempotencyOwner := none
  waitlistId := none
  now := now
  registrationId := registrationId

variable {now : Instant} {opensAt closesAt : Option Instant} {s : Db} {args : RegisterTxArgs} {α β : Type}

theorem withinWindow_eq (now : Instant) (opensAt closesAt : Option Instant) :
    withinWindow now opensAt closesAt = withinSalesWindow now opensAt closesAt := by
  cases opensAt <;> cases closesAt <;>
    simp only [withinWindow, withinSalesWindow, Option.any_none, Option.any_some, Option.all_none, Option.all_some,
      decide_eq_true_eq, Bool.true_and, Bool.and_true] <;> grind

/-! ## The selected type -/

/-- The type that the gate foresees is one that the registration selects, if it is not hidden. -/
theorem selectTicketType_of_foreseen {types : List TicketType} {gate : GuestRegistrationGate}
    {fields : GuestRegistrationFields} {t : GuestTicketTypeGate} (htypes : gate.ticketTypes = types.map gateOf)
    (hid : args.ticketTypeId = fields.ticketTypeId) (hvisible : t.visibility ≠ .hidden)
    (h : foreseenTicketType gate fields = some t) :
    ∃ type, selectTicketType types args = .ok (some type) ∧ gateOf type = t := by
  have hgate : ∀ {type : TicketType}, gateOf type = t →
      selectTicketType.hiddenGate args (some type) = .ok (some type) := by
    intro type htype
    rw [selectTicketType.hiddenGate, if_neg]
    rintro ⟨hhidden, -⟩
    exact hvisible (htype ▸ hhidden)
  rw [foreseenTicketType, htypes] at h
  rw [selectTicketType, hid]
  cases hfields : fields.ticketTypeId with
  | some id =>
    rw [hfields] at h
    simp only [List.find?_map, Option.map_eq_some_iff] at h
    obtain ⟨type, hfind, htype⟩ := h
    refine ⟨type, ?_, htype⟩
    have hfind' : (types.find? fun t => t.id = id) = some type := hfind
    simp only [hfind']
    exact hgate htype
  | none =>
    rw [hfields] at h
    simp only [List.length_map] at h
    split at h
    · next hone =>
      obtain ⟨type, rfl⟩ := List.length_eq_one_iff.mp hone
      have htype : gateOf type = t := Option.some.inj h
      exact ⟨type, hgate htype, htype⟩
    · cases h

theorem ticketTypeGateRefusal_of_foreseen {type : TicketType} (hw : args.waitlistId = none)
    (h : (type.visibility = .accessCode ∧ args.accessCodeHash = none) ∨
      withinSalesWindow args.now type.salesOpensAt type.salesClosesAt = false) (n : ℕ) :
    ∃ x, ticketTypeGateRefusal type args n = some x ∧ x.IsRefusal := by
  have hsome : (ticketTypeGateRefusal type args n).isSome = true := by
    rw [ticketTypeGateRefusal, Option.isSome_or, Bool.or_eq_true]
    rcases h with ⟨hvisibility, hcode⟩ | hwindow
    · left
      rw [if_pos ⟨hvisibility, hw⟩, hcode]
      rfl
    · right
      split
      · rfl
      · rw [if_pos ⟨hw, by rw [hwindow]; rfl⟩]
        rfl
  obtain ⟨x, hx⟩ := Option.isSome_iff_exists.mp hsome
  exact ⟨x, hx, Views.ticketTypeGateRefusal_isRefusal hx⟩

/-! ## The registration on the same rows -/

theorem runFrom_select (f : Db → α) (k : α → Stmt β) (s : Db) :
    engine.runFrom (select f >>= k) s = engine.runFrom (k (f s)) s := rfl

theorem runFrom_selectFor (locks : Db → List Lock) (f : Db → α) (k : α → Stmt β) (s : Db) :
    engine.runFrom (selectFor locks f >>= k) s = engine.runFrom (k (f s)) s := rfl

/-- A run that refuses without a write. -/
def Refuses (p : Stmt RegisterTxOutcome) (s : Db) : Prop :=
  ∃ x, engine.runFrom p s = .ok (x, s) ∧ x.IsRefusal

theorem refuses_pure {x : RegisterTxOutcome} (h : x.IsRefusal) (s : Db) : Refuses (pure x) s := ⟨x, rfl, h⟩

theorem refuses_unlessRefused {gate : Stmt (Option RegisterTxOutcome)} {p : Stmt RegisterTxOutcome}
    {o : Option RegisterTxOutcome} (hgate : ∀ k : Option RegisterTxOutcome → Stmt RegisterTxOutcome,
      engine.runFrom (gate >>= k) s = engine.runFrom (k o) s)
    (hrefusal : ∀ x ∈ o, x.IsRefusal) (h : o = none → Refuses p s) : Refuses (unlessRefused gate p) s := by
  rw [Refuses, unlessRefused, hgate]
  cases o with
  | none => exact h rfl
  | some x => exact refuses_pure (hrefusal x rfl) s

/-- The gate of the event, for a guest: nothing is written, and it refuses outside of the event's window. -/
theorem runFrom_eventGateRefusal {g : Id} (hguest : args.subject = .guest g) (event : Event) (s : Db) :
    ∃ o : Option RegisterTxOutcome, (∀ k : Option RegisterTxOutcome → Stmt RegisterTxOutcome,
      engine.runFrom (eventGateRefusal event args >>= k) s = engine.runFrom (k o) s) ∧ (∀ x ∈ o, x.IsRefusal) ∧
      (withinSalesWindow args.now event.registrationOpensAt event.registrationClosesAt = false → o ≠ none) := by
  rw [eventGateRefusal, hguest]
  split
  · exact ⟨some .closed, fun k => rfl, fun x hx => by cases hx; trivial, fun _ h => by cases h⟩
  split
  · exact ⟨some .registrationClosed, fun k => rfl, fun x hx => by cases hx; trivial, fun _ h => by cases h⟩
  next hopen =>
  refine ⟨if s.ActiveRegistration args.cleanupId (.guest g) then some .alreadyRegistered else none, fun k => ?_,
    fun x hx => ?_, fun hwindow => ?_⟩
  · simp only [subjectBanned, Tx.pure_eq, Tx.commit_bind, Bool.false_eq_true, if_false]
    by_cases hactive : s.ActiveRegistration args.cleanupId (.guest g)
    · rw [if_pos hactive]
      change engine.runFrom (k (if decide (s.ActiveRegistration _ _) then _ else _)) s = _
      rw [if_pos (decide_eq_true hactive)]
    · rw [if_neg hactive]
      change engine.runFrom (k (if decide (s.ActiveRegistration _ _) then _ else _)) s = _
      rw [if_neg (by simpa using hactive)]
  · split at hx
    · cases hx
      trivial
    · cases hx
  · rw [hwindow] at hopen
    exact absurd rfl hopen

/-- Where the early check refuses a new guest's own sign-up, the registration on the same rows at the same time refuses
it too, and writes nothing. -/
theorem registerIn_of_foreseeableGuestRefusal (accessCodeHashOf : String → String) (s : Db)
    (cleanupId guestId registrationId : Id) (fields : GuestRegistrationFields) (slotId : Option Id)
    (idempotencyKey : String) (now : Instant) {gate : GuestRegistrationGate} {refusal : RegisterTxOutcome}
    (hgate : registrationGate s cleanupId = some gate)
    (hrefusal : foreseeableGuestRefusal gate fields now = some refusal)
    (hnew : s.idempotencyKeys.find? (subjectOwner (.guest guestId), idempotencyKey) = none) :
    ∃ outcome, engine.runFrom (registerIn (guestRegisterArgs accessCodeHashOf cleanupId guestId fields slotId
      idempotencyKey registrationId now)) s = .ok (outcome, s) ∧ outcome.IsRefusal := by
  change Refuses _ s
  generalize hargs : guestRegisterArgs accessCodeHashOf cleanupId guestId fields slotId idempotencyKey registrationId
    now = args
  obtain ⟨event, hevent, rfl⟩ := Option.map_eq_some_iff.mp hgate
  obtain ⟨hcleanup, hsubject, htype, hcode, howner, hkey, hw, hnow⟩ : args.cleanupId = cleanupId ∧
      args.subject = .guest guestId ∧ args.ticketTypeId = fields.ticketTypeId ∧
      args.accessCodeHash = fields.accessCode.map accessCodeHashOf ∧
      idempotencyOwnerOf args = subjectOwner (.guest guestId) ∧ args.idempotencyKey = idempotencyKey ∧
      args.waitlistId = none ∧ args.now = now := by
    subst hargs
    exact ⟨rfl, rfl, rfl, rfl, rfl, rfl, rfl, rfl⟩
  rw [Refuses, registerIn, lockRegisterIdempotency, runFrom_selectFor, lockEvent, runFrom_selectFor, hcleanup, hevent]
  simp only
  split
  · exact refuses_pure (x := RegisterTxOutcome.notFound) trivial s
  rw [findRegisterSnapshot, runFrom_select, howner, hkey, hnew]
  obtain ⟨o, hrun, ho, hclosed⟩ := runFrom_eventGateRefusal hsubject event s
  refine refuses_unlessRefused hrun ho fun hnone => ?_
  -- The event is open, so the refusal is about the type.
  rw [foreseeableGuestRefusal, withinWindow_eq, ← hnow] at hrefusal
  have hopen : withinSalesWindow args.now event.registrationOpensAt event.registrationClosesAt = true := by
    by_contra hne
    exact hclosed (Bool.eq_false_iff.mpr hne) hnone
  rw [hopen] at hrefusal
  simp only [Bool.not_true, Bool.false_eq_true, if_false] at hrefusal
  split at hrefusal
  · cases hrefusal
  next t ht =>
  split at hrefusal
  · cases hrefusal
  next hvisible =>
  obtain ⟨type, hselect, rfl⟩ := selectTicketType_of_foreseen rfl htype hvisible ht
  have hshut : (type.visibility = .accessCode ∧ args.accessCodeHash = none) ∨
      withinSalesWindow args.now type.salesOpensAt type.salesClosesAt = false := by
    split at hrefusal
    · next hvis => exact Or.inl ⟨hvis.1, by rw [hcode, hvis.2]; rfl⟩
    · split at hrefusal
      · next hsales =>
        rw [withinWindow_eq, Bool.not_eq_true'] at hsales
        exact Or.inr hsales
      · cases hrefusal
  obtain ⟨x, hx, hrefuses⟩ := ticketTypeGateRefusal_of_foreseen hw hshut args.seats
  rw [Refuses, pickTicketType, runFrom_select, hcleanup, hselect]
  simp only [Option.bind_some, hx]
  exact ⟨x, rfl, hrefuses⟩

/-- An event whose only ticket type needs an access code. -/
def codedEvent : Db :=
  { Db.empty with
    events := Db.empty.events.insert ⟨1, .upcoming, .public, none, none, some 90, 100, none, none⟩
    ticketTypes := Db.empty.ticketTypes.insert
      ⟨⟨"general", none, none, some 80, .accessCode, some "5a1f", 4, 0, false⟩, 2, 1, 0⟩ }

/-- The form names no type and no code. -/
theorem registerIn_of_foreseeableGuestRefusal_coded :
    ∃ outcome, engine.runFrom (registerIn (guestRegisterArgs id 1 7 ⟨none, 2, none⟩ none "k" 9 50)) codedEvent =
      .ok (outcome, codedEvent) ∧ outcome.IsRefusal :=
  registerIn_of_foreseeableGuestRefusal id codedEvent 1 7 9 ⟨none, 2, none⟩ none "k" 50
    (show registrationGate codedEvent 1 = some ⟨none, some 90, [⟨2, .accessCode, none, some 80⟩]⟩ by decide +kernel)
    (show _ = some RegisterTxOutcome.accessCodeRequired by decide +kernel) (by decide +kernel)

end Civfix.Attendance
