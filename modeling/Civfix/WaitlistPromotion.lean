import Civfix.AttendanceOperations
import Civfix.KeysetPages

/-! # One promotion of a waitlist

A promotion offers places one entry after another: each offer is a transaction of its own that picks the head of the queue
again. Nobody else writes meanwhile, while both clocks go on and the event may end. -/
namespace Civfix.WaitlistPromotion

open Civfix.Attendance KeyedTables LockedTransactions KeysetPages

/-- What one pass of the loop meets: the two clocks, and whether the watchers of the event are told without an error. -/
structure Turn where
  now : Instant
  dbNow : Instant
  announced : Bool

def WAITLIST_PROMOTE_MAX_PER_RUN : ℕ := 50

section Loop

variable (defaultEventDuration claimWindow : ℕ) (ticketTypeId : Id)

/-- The offers of the passes that are left, and the tables after them. An error ends the loop; its offer stands. -/
def promoteLoop : ℕ → (ℕ → Turn) → Db → List WaitlistOffer × Db
  | 0, _, s => ([], s)
  | n + 1, turns, s =>
    match engine.runFrom (offerNextWaitlistEntry defaultEventDuration ticketTypeId (turns 0).now (turns 0).dbNow
      claimWindow []) s with
    | .ok (some offer, s') =>
      if (turns 0).announced then
        let rest := promoteLoop n (fun i => turns (i + 1)) s'
        (offer :: rest.1, rest.2)
      else ([offer], s')
    | .ok (none, s') => ([], s')
    | .error _ => ([], s)

def runPromote (turns : ℕ → Turn) (s : Db) : List WaitlistOffer × Db :=
  promoteLoop defaultEventDuration claimWindow ticketTypeId WAITLIST_PROMOTE_MAX_PER_RUN turns s

end Loop

variable {duration claimWindow n m : ℕ} {t : Id} {s : Db} {now dbNow expires : Instant} {w : WaitlistEntry}
  {turns : ℕ → Turn}

/-! ## The queue of a ticket type -/

/-- The order of the queue. -/
def Before (a b : WaitlistEntry) : Prop := a.createdAt < b.createdAt ∨ (a.createdAt = b.createdAt ∧ a.id ≤ b.id)

instance : DecidableRel Before := fun a b =>
  inferInstanceAs (Decidable (a.createdAt < b.createdAt ∨ (a.createdAt = b.createdAt ∧ a.id ≤ b.id)))

instance : Std.Total Before where
  total a b := by
    have h : ∀ c d i j : ℕ, (c < d ∨ (c = d ∧ i ≤ j)) ∨ d < c ∨ (d = c ∧ j ≤ i) := by omega
    exact h a.createdAt b.createdAt a.id b.id

instance : IsTrans WaitlistEntry Before where
  trans a b c hab hbc := by
    have h : ∀ c d e i j k : ℕ, c < d ∨ (c = d ∧ i ≤ j) → d < e ∨ (d = e ∧ j ≤ k) → c < e ∨ (c = e ∧ i ≤ k) := by
      omega
    exact h _ _ _ _ _ _ hab hbc

theorem eq_of_before {a b : WaitlistEntry} (hab : Before a b) (hba : Before b a) : a.id = b.id := by
  have h : ∀ c d i j : ℕ, c < d ∨ (c = d ∧ i ≤ j) → d < c ∨ (d = c ∧ j ≤ i) → i = j := by omega
  exact h _ _ _ _ hab hba

/-- The entries of the ticket type that wait and whose people are not banned. -/
def waits (s : Db) (t : Id) (w : WaitlistEntry) : Bool :=
  decide (w.ticketTypeId = t) && decide (w.status = .waiting) && s.entryNotBanned w

def waiting (s : Db) (t : Id) : List WaitlistEntry := (s.waitlist.rows.filter (waits s t)).insertionSort Before

/-- The event of the ticket type is still live. -/
def typeLive (duration : ℕ) (s : Db) (t : Id) (dbNow : Instant) : Bool :=
  (s.ticketTypes.find? t).any fun x => (s.events.find? x.cleanupId).any fun e =>
    e.status ≠ .cancelled && dbNow < e.endsAt.getD (e.scheduledAt + duration)

/-- The reference of a waitlist entry to its ticket type names the event too. -/
def Referenced (s : Db) : Prop := s.waitlist.All fun w => s.HasType w.cleanupId w.ticketTypeId

def hasRoom (s : Db) (t : Id) (seats : ℕ) : Bool :=
  (s.ticketTypes.find? t).any fun x => x.capacity.all (x.reservedSeats + seats ≤ ·)

theorem entryEventLive_eq (href : Referenced s) (hw : w ∈ s.waitlist.rows) (ht : w.ticketTypeId = t) :
    s.entryEventLive duration dbNow w = typeLive duration s t dbNow := by
  obtain ⟨x, hx, hevent⟩ := href _ _ (Table.mem_rows_iff.mp hw)
  rw [ht] at hx
  rw [typeLive, Option.mem_def.mp hx, Option.any_some, hevent]
  rfl

theorem offerQueue_eq (href : Referenced s) :
    s.offerQueue duration t dbNow [] = if typeLive duration s t dbNow then waiting s t else [] := by
  have hfilter : s.waitlist.rows.filter (fun w => w.ticketTypeId = t ∧ w.status = .waiting ∧ s.entryNotBanned w ∧
      s.entryEventLive duration dbNow w ∧ w.id ∉ ([] : List Id)) =
      s.waitlist.rows.filter fun w => waits s t w && typeLive duration s t dbNow := by
    refine List.filter_congr fun w hw => ?_
    by_cases ht : w.ticketTypeId = t
    · rw [entryEventLive_eq href hw ht]
      simp only [waits, ht, true_and, List.not_mem_nil, not_false_eq_true, and_true, decide_true, Bool.true_and,
        Bool.decide_and, Bool.decide_eq_true, Bool.and_assoc]
    · simp only [waits, ht, false_and, decide_false, Bool.false_and]
  rw [Db.offerQueue, hfilter]
  cases typeLive duration s t dbNow with
  | true =>
    simp only [Bool.and_true]
    rfl
  | false =>
    simp only [Bool.and_false, List.filter_false, Bool.false_eq_true, if_false]
    rfl

theorem mem_waiting : w ∈ waiting s t ↔ w ∈ s.waitlist.rows ∧ waits s t w = true := by
  rw [waiting, List.mem_insertionSort, List.mem_filter]

theorem waits_eq_true : waits s t w = true ↔
    w.ticketTypeId = t ∧ w.status = .waiting ∧ s.entryNotBanned w = true := by
  rw [waits, Bool.and_eq_true, Bool.and_eq_true, decide_eq_true_eq, decide_eq_true_eq, and_assoc]

theorem nodup_waiting_ids (s : Db) (t : Id) : ((waiting s t).map WaitlistEntry.id).Nodup :=
  ((List.perm_insertionSort Before _).map WaitlistEntry.id).nodup_iff.mpr
    (s.waitlist.nodup.sublist (List.filter_sublist.map WaitlistEntry.id))

/-! ## One offer -/

/-- The tables after the head of the queue was offered its place. -/
def offered (s : Db) (w : WaitlistEntry) (now expires : Instant) : Db :=
  (s.apply (.reserveSeats w.ticketTypeId w.partySize)).apply (.offerWaitlist w.id now expires)

def offerOf (w : WaitlistEntry) (expires : Instant) : WaitlistOffer :=
  ⟨w.id, w.cleanupId, w.ticketTypeId, w.subject, w.partySize, expires⟩

theorem offerable_eq (w : WaitlistEntry) (s : Db) : offerable w none s = hasRoom s w.ticketTypeId w.partySize := by
  simp only [offerable, hasRoom, Option.all_none, Bool.true_and]

/-- An offer goes to the head of the queue, when its party fits. -/
theorem runFrom_offer (s : Db) : engine.runFrom (offerNextWaitlistEntry duration t now dbNow claimWindow []) s =
    match s.offerQueue duration t dbNow [] with
    | [] => .ok (none, s)
    | w :: _ =>
      if hasRoom s w.ticketTypeId w.partySize then
        .ok (some (offerOf w (now + claimWindow)), offered s w now (now + claimWindow))
      else .ok (none, s) := by
  simp only [offerNextWaitlistEntry, selectFor, statement, Tx.stmt_bind, Tx.commit_bind, Engine.runFrom,
    Engine.applyAll_nil]
  cases s.offerQueue duration t dbNow [] with
  | nil => rfl
  | cons w rest =>
    simp only [List.head?_cons, reserveAndOffer, statement, Tx.stmt_bind, Tx.commit_bind, Engine.runFrom, offerable_eq]
    cases hasRoom s w.ticketTypeId w.partySize <;> rfl

theorem waits_offered (r : WaitlistEntry) :
    waits (offered s w now expires) t (if r.id = w.id then r.offer now expires else r) =
      (waits s t r && decide (r.id ≠ w.id)) := by
  by_cases hid : r.id = w.id
  · rw [if_pos hid, decide_eq_false fun hne => hne hid, Bool.and_false, WaitlistEntry.offer]
    split
    · simp only [waits, reduceCtorEq, decide_false, Bool.and_false, Bool.false_and]
    · next hwaits => simp only [waits, hwaits, decide_false, Bool.and_false, Bool.false_and]
  · rw [if_neg hid, decide_eq_true hid, Bool.and_true]
    rfl

/-- The queue goes on behind the entry that was offered its place. -/
theorem waiting_offered {rest : List WaitlistEntry} (hq : waiting s t = w :: rest) :
    waiting (offered s w now expires) t = rest := by
  have hrows : (offered s w now expires).waitlist.rows =
      s.waitlist.rows.map fun r => if r.id = w.id then r.offer now expires else r := rfl
  have hfilter : (offered s w now expires).waitlist.rows.filter (waits (offered s w now expires) t) =
      (s.waitlist.rows.filter (waits s t)).filter fun r => r.id ≠ w.id := by
    rw [hrows, List.filter_map, List.filter_filter]
    have hcongr : s.waitlist.rows.filter (waits (offered s w now expires) t ∘
        fun r => if r.id = w.id then r.offer now expires else r) =
        s.waitlist.rows.filter fun r => decide (r.id ≠ w.id) && waits s t r :=
      List.filter_congr fun r _ => (waits_offered r).trans (Bool.and_comm _ _)
    rw [hcongr]
    refine (List.map_congr_left fun r hr => ?_).trans (List.map_id _)
    exact if_neg (of_decide_eq_true (Bool.and_eq_true_iff.mp (List.mem_filter.mp hr).2).1)
  have hids := nodup_waiting_ids s t
  rw [hq, List.map_cons, List.nodup_cons] at hids
  have hanti : ∀ a ∈ s.waitlist.rows.filter (waits s t), ∀ b ∈ s.waitlist.rows.filter (waits s t),
      Before a b → Before b a → a = b := fun a ha b hb hab hba =>
    List.inj_on_of_nodup_map s.waitlist.nodup (List.mem_of_mem_filter ha) (List.mem_of_mem_filter hb)
      (eq_of_before hab hba)
  have hall : rest.filter (fun r => r.id ≠ w.id) = rest := List.filter_eq_self.mpr fun r hr =>
    decide_eq_true fun hid => hids.1 (hid ▸ List.mem_map_of_mem hr)
  have hhead : ¬decide (w.id ≠ w.id) = true := fun h => of_decide_eq_true h rfl
  rw [waiting, hfilter, insertionSort_filter_of_mem hanti]
  change (waiting s t).filter (fun r => r.id ≠ w.id) = rest
  rw [hq, List.filter_cons, if_neg hhead, hall]

theorem ticketTypes_offered (s : Db) (w : WaitlistEntry) (now expires : Instant) (t : Id) :
    (offered s w now expires).ticketTypes.find? t =
      if t = w.ticketTypeId then (s.ticketTypes.find? t).map (TicketType.reserve w.partySize)
      else s.ticketTypes.find? t :=
  Table.find?_modify _ _ _ _ (TicketType.reserve_id w.partySize)

theorem typeLive_offered : typeLive duration (offered s w now expires) t dbNow = typeLive duration s t dbNow := by
  have hevents : (offered s w now expires).events = s.events := rfl
  rw [typeLive, typeLive, ticketTypes_offered, hevents]
  split
  · cases s.ticketTypes.find? t <;> rfl
  · rfl

theorem hasRoom_offered (ht : w.ticketTypeId = t) :
    hasRoom (offered s w now expires) t n = hasRoom s t (w.partySize + n) := by
  rw [hasRoom, hasRoom, ticketTypes_offered, if_pos ht.symm]
  cases s.ticketTypes.find? t with
  | none => rfl
  | some x =>
    simp only [Option.map_some, Option.any_some, TicketType.reserve, Nat.add_assoc]

theorem referenced_offered (href : Referenced s) : Referenced (offered s w now expires) := by
  have htype : ∀ {c t : Id}, s.HasType c t → (offered s w now expires).HasType c t := by
    rintro c t ⟨x, hx, hc⟩
    rw [Db.HasType, ticketTypes_offered, Option.mem_def.mp hx]
    split
    · exact ⟨x.reserve w.partySize, rfl, hc⟩
    · exact ⟨x, rfl, hc⟩
  refine Table.All.modify (fun id r hr => htype (href id r hr)) _ _ (WaitlistEntry.offer_id now expires) fun r hr => ?_
  rw [WaitlistEntry.offer]
  split <;> exact htype (href _ r hr)

theorem find?_offered (s : Db) (w : WaitlistEntry) (now expires : Instant) (id : Id) :
    (offered s w now expires).waitlist.find? id =
      if id = w.id then (s.waitlist.find? id).map (WaitlistEntry.offer now expires) else s.waitlist.find? id :=
  Table.find?_modify _ _ _ _ (WaitlistEntry.offer_id now expires)

/-! ## The whole promotion -/

/-- What a promotion of at most `n` offers comes to: the offers went to the front of the queue, one by one, and all of
them had room; it stopped because it had made all its offers, because the watchers could not be told, because the
event was over, or because the next party did not fit; and only the entries with an offer changed. -/
structure Promoted (duration : ℕ) (t : Id) (n : ℕ) (turns : ℕ → Turn) (s : Db) (offers : List WaitlistOffer) (s' : Db) :
    Prop where
  inOrder : offers.map WaitlistOffer.waitlistId =
    ((s.offerQueue duration t (turns 0).dbNow []).take offers.length).map WaitlistEntry.id
  parties : offers.map WaitlistOffer.partySize =
    ((s.offerQueue duration t (turns 0).dbNow []).take offers.length).map WaitlistEntry.partySize
  fitting : offers ≠ [] → hasRoom s t (offers.map WaitlistOffer.partySize).sum = true
  stopped : ∀ w, (s.offerQueue duration t (turns 0).dbNow [])[offers.length]? = some w →
    offers.length = n ∨ (∃ i, offers.length = i + 1 ∧ (turns i).announced = false) ∨
      s.offerQueue duration t (turns offers.length).dbNow [] = [] ∨
      hasRoom s t ((offers.map WaitlistOffer.partySize).sum + w.partySize) = false
  turned : ∀ id ∈ offers.map WaitlistOffer.waitlistId, ∀ w, s.waitlist.find? id = some w →
    ∃ w', s'.waitlist.find? id = some w' ∧ w'.status = .offered
  untouched : ∀ id, id ∉ offers.map WaitlistOffer.waitlistId → s'.waitlist.find? id = s.waitlist.find? id

theorem promoted_none (turns : ℕ → Turn) (s : Db)
    (hstop : ∀ w, (s.offerQueue duration t (turns 0).dbNow [])[0]? = some w →
      n = 0 ∨ hasRoom s t w.partySize = false) : Promoted duration t n turns s [] s where
  inOrder := rfl
  parties := rfl
  fitting h := absurd rfl h
  stopped w hw := by
    rcases hstop w hw with rfl | hfull
    · exact .inl rfl
    · refine .inr (.inr (.inr ?_))
      rwa [List.map_nil, List.sum_nil, Nat.zero_add]
  turned id hid := absurd hid List.not_mem_nil
  untouched id _ := rfl

theorem find?_head (hmem : w ∈ waiting s t) :
    ∃ w', (offered s w now expires).waitlist.find? w.id = some w' ∧ w'.status = .offered := by
  obtain ⟨hrow, hwaits⟩ := mem_waiting.mp hmem
  rw [find?_offered, if_pos rfl, Table.mem_rows_iff.mp hrow, Option.map_some]
  refine ⟨_, rfl, ?_⟩
  rw [WaitlistEntry.offer, if_pos (waits_eq_true.mp hwaits).2.1]

theorem promoted_unannounced {rest : List WaitlistEntry} (hmem : w ∈ waiting s t)
    (hroom : hasRoom s t w.partySize = true)
    (hq : s.offerQueue duration t (turns 0).dbNow [] = w :: rest) (htold : (turns 0).announced = false)
    (expires : Instant) :
    Promoted duration t (n + 1) turns s [offerOf w expires] (offered s w now expires) where
  inOrder := by
    rw [hq]
    rfl
  parties := by
    rw [hq]
    rfl
  fitting _ := hroom
  stopped _ _ := .inr (.inl ⟨0, rfl, htold⟩)
  turned id hid _ _ := by
    have heq : id = w.id := List.mem_singleton.mp hid
    rw [heq]
    exact find?_head hmem
  untouched id hid := by
    have hne : id ≠ w.id := fun h => hid (List.mem_singleton.mpr h)
    rw [find?_offered, if_neg hne]

variable (duration now expires) in
theorem offerQueue_next {rest : List WaitlistEntry} (href : Referenced s) (hq : waiting s t = w :: rest)
    (later : Instant) :
    (offered s w now expires).offerQueue duration t later [] =
      if s.offerQueue duration t later [] = [] then [] else rest := by
  rw [offerQueue_eq (referenced_offered href), offerQueue_eq href, typeLive_offered, waiting_offered hq, hq]
  cases typeLive duration s t later <;> rfl

/-- One more pass before a promotion. -/
theorem promoted_cons {rest : List WaitlistEntry} {offers : List WaitlistOffer} {s' : Db} (href : Referenced s)
    (hwaiting : waiting s t = w :: rest) (hq : s.offerQueue duration t (turns 0).dbNow [] = w :: rest)
    (hroom : hasRoom s t w.partySize = true)
    (h : Promoted duration t n (fun i => turns (i + 1)) (offered s w now expires) offers s') :
    Promoted duration t (n + 1) turns s (offerOf w expires :: offers) s' := by
  have hmem : w ∈ waiting s t := by
    rw [hwaiting]
    exact List.mem_cons_self
  have htype : w.ticketTypeId = t := (waits_eq_true.mp (mem_waiting.mp hmem).2).1
  have hnext := fun later => offerQueue_next duration now expires href hwaiting later
  have hids := nodup_waiting_ids s t
  rw [hwaiting, List.map_cons, List.nodup_cons] at hids
  have hinner := h.inOrder
  have hparties := h.parties
  rw [hnext] at hinner hparties
  -- the offers that follow go to entries behind the head
  have hbehind : offers.map WaitlistOffer.waitlistId = (rest.take offers.length).map WaitlistEntry.id ∧
      offers.map WaitlistOffer.partySize = (rest.take offers.length).map WaitlistEntry.partySize := by
    split at hinner
    · rw [List.take_nil, List.map_nil, List.map_eq_nil_iff] at hinner
      rw [hinner]
      exact ⟨rfl, rfl⟩
    · next hlive =>
      rw [if_neg hlive] at hparties
      exact ⟨hinner, hparties⟩
  have hhead : w.id ∉ offers.map WaitlistOffer.waitlistId := by
    rw [hbehind.1]
    intro hin
    obtain ⟨r, hr, hid⟩ := List.mem_map.mp hin
    exact hids.1 (hid ▸ List.mem_map_of_mem (List.mem_of_mem_take hr))
  constructor
  · rw [hq, List.map_cons, List.length_cons, List.take_succ_cons, List.map_cons, hbehind.1]
    rfl
  · rw [hq, List.map_cons, List.length_cons, List.take_succ_cons, List.map_cons, hbehind.2]
    rfl
  · intro _
    rw [List.map_cons, List.sum_cons]
    cases offers with
    | nil => exact hroom
    | cons o os =>
      have hfits := h.fitting (List.cons_ne_nil o os)
      rwa [hasRoom_offered htype] at hfits
  · intro r hr
    rw [hq, List.length_cons, List.getElem?_cons_succ] at hr
    rw [List.length_cons, List.map_cons, List.sum_cons]
    by_cases hover : s.offerQueue duration t (turns (offers.length + 1)).dbNow [] = []
    · exact .inr (.inr (.inl hover))
    · by_cases hfirst : s.offerQueue duration t (turns 1).dbNow [] = []
      · rw [if_pos hfirst, List.take_nil, List.map_nil, List.map_eq_nil_iff] at hinner
        subst hinner
        exact absurd hfirst hover
      · have hstop := h.stopped r (by rw [hnext, if_neg hfirst]; exact hr)
        rcases hstop with hall | ⟨i, hlen, htold⟩ | hgone | hfull
        · exact .inl (congrArg (· + 1) hall)
        · exact .inr (.inl ⟨i + 1, congrArg (· + 1) hlen, htold⟩)
        · rw [hnext, if_neg hover] at hgone
          rw [hgone] at hr
          cases hr
        · rw [hasRoom_offered htype] at hfull
          refine .inr (.inr (.inr ?_))
          rwa [Nat.add_assoc]
  · intro id hid v hv
    rcases List.mem_cons.mp hid with heq | hid
    · have heq : id = w.id := heq
      rw [heq, h.untouched _ hhead]
      exact find?_head hmem
    · have hne : id ≠ w.id := fun heq => hhead (heq ▸ hid)
      exact h.turned id hid v (by rw [find?_offered, if_neg hne, hv])
  · intro id hid
    rw [List.map_cons, List.mem_cons, not_or] at hid
    have hne : id ≠ w.id := hid.1
    rw [h.untouched id hid.2, find?_offered, if_neg hne]

/-- By induction on the passes that are left. -/
theorem promoteLoop_promoted (n : ℕ) (turns : ℕ → Turn) (s : Db) (href : Referenced s) :
    Promoted duration t n turns s (promoteLoop duration claimWindow t n turns s).1
      (promoteLoop duration claimWindow t n turns s).2 := by
  induction n generalizing turns s with
  | zero => exact promoted_none turns s fun _ _ => .inl rfl
  | succ n ih =>
    rw [promoteLoop, runFrom_offer]
    cases hq : s.offerQueue duration t (turns 0).dbNow [] with
    | nil =>
      refine promoted_none turns s fun w hw => ?_
      rw [hq] at hw
      cases hw
    | cons w rest =>
      have hwaiting : waiting s t = w :: rest := by
        rw [offerQueue_eq href] at hq
        split at hq
        · exact hq
        · cases hq
      have hmem : w ∈ waiting s t := by
        rw [hwaiting]
        exact List.mem_cons_self
      have htype : w.ticketTypeId = t := (waits_eq_true.mp (mem_waiting.mp hmem).2).1
      dsimp only
      rw [htype]
      cases hroom : hasRoom s t w.partySize with
      | false =>
        refine promoted_none turns s fun r hr => ?_
        rw [hq] at hr
        cases hr
        exact .inr hroom
      | true =>
        rw [if_pos rfl]
        dsimp only
        split
        · exact promoted_cons href hwaiting hq hroom (ih _ _ (referenced_offered href))
        · next htold => exact promoted_unannounced hmem hroom hq (Bool.eq_false_iff.mpr htold) _

/-- A promotion goes through the queue first come, first served. -/
theorem runPromote_first_come (duration claimWindow : ℕ) (t : Id) (turns : ℕ → Turn) (s : Db) (href : Referenced s) :
    Promoted duration t WAITLIST_PROMOTE_MAX_PER_RUN turns s (runPromote duration claimWindow t turns s).1
      (runPromote duration claimWindow t turns s).2 :=
  promoteLoop_promoted WAITLIST_PROMOTE_MAX_PER_RUN turns s href

/-- Three seats; a banned person, two pairs and a person on their own wait for them. -/
def threeSeats : Db :=
  let entry (id userId partySize : ℕ) : WaitlistEntry :=
    ⟨id, 1, 5, .user userId, partySize, .waiting, id, none, none, none⟩
  { Db.empty with
    events := (Table.empty Event.id).insert ⟨1, .upcoming, .public, none, none, none, 100, none, none⟩
    ticketTypes := (Table.empty TicketType.id).insert
      ⟨⟨"general", some 3, none, none, .public, none, 2, 0, true⟩, 5, 1, 0⟩
    waitlist := ⟨[entry 4 10 1, entry 1 7 1, entry 3 9 2, entry 2 8 2], by decide⟩
    bans := (Table.empty fun b : Ban => (b.cleanupId, b.userId)).insert ⟨1, 7, 6⟩ }

theorem referenced_of_rows (h : ∀ w ∈ s.waitlist.rows, s.HasType w.cleanupId w.ticketTypeId) : Referenced s :=
  fun _ w hw => h w (Table.find?_eq_some hw).1

/-- The second pair does not fit, and the person behind it is not offered the last seat. -/
theorem threeSeats_first_come :
    Promoted 50 5 WAITLIST_PROMOTE_MAX_PER_RUN (fun i => ⟨i, i, true⟩) threeSeats
      (runPromote 50 10 5 (fun i => ⟨i, i, true⟩) threeSeats).1
        (runPromote 50 10 5 (fun i => ⟨i, i, true⟩) threeSeats).2 ∧
    (threeSeats.offerQueue 50 5 0 []).map WaitlistEntry.id = [2, 3, 4] ∧
    (runPromote 50 10 5 (fun i => ⟨i, i, true⟩) threeSeats).1.map WaitlistOffer.waitlistId = [2] :=
  ⟨runPromote_first_come 50 10 5 _ threeSeats (referenced_of_rows (by decide)), by decide, by decide +kernel⟩

end Civfix.WaitlistPromotion
