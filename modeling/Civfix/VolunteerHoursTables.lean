import Mathlib.Algebra.Order.Ring.Int
import Civfix.KeyedTables
import Civfix.LockedTransactions
import Civfix.SpelledIds

/-! # Tables, writes and locks of volunteer hours

The rows of `volunteer_hours`, `user_jurisdiction_hours` and `volunteer_hours_audit`. Hours
are `numeric(6, 2)` and are kept here in hundredths. The lock order is the one rule every
writer shares: the advisory lock of the event, then those of the users, before any row is
read or written. A lock keeps the ledger entries of its event or its user, and the lock on
an id is what the primary key takes for a new row.

The lock of a user is taken on a uuid. The lock of an event is taken on the text that the caller
gave: two spellings of one id are two locks. -/
namespace Civfix.VolunteerHours

open KeyedTables LockedTransactions SpelledIds

abbrev Id := ℕ
abbrev Instant := ℕ
abbrev Geoid := String
/-- A calendar date. -/
abbrev Day := ℕ

inductive Source | report | event | manual deriving DecidableEq

/-- A row of `volunteer_hours`. -/
structure Entry where
  id : Id
  userId : Id
  hours : ℕ
  source : Source
  cleanupId : Option Id
  jurisdictionGeoid : Option Geoid
  loggedByUserId : Option Id
  note : Option String
  voidedAt : Option Instant
  createdAt : Instant
  serviceDate : Option Day
  creditedByOperatorId : Option Id
  voidedByOperatorId : Option Id
  voidReason : Option String

/-- A row of `user_jurisdiction_hours`. -/
structure JurisdictionHours where
  userId : Id
  jurisdictionGeoid : Geoid
  totalHours : ℤ

/-- A row of `volunteer_hours_audit`; the table is kept in insertion order. -/
structure Audit where
  cleanupId : Id
  userId : Id
  actorUserId : Id
  previousHours : Option ℕ
  newHours : ℕ

structure Db where
  entries : Table Entry.id
  jurisdictionHours : Table (fun r : JurisdictionHours => (r.userId, r.jurisdictionGeoid))
  audit : List Audit

/-- The columns a credit sets on a new or existing entry of its event. -/
structure Credit where
  hours : ℕ
  jurisdictionGeoid : Option Geoid
  loggedByUserId : Id
  note : Option String
  creditedByOperatorId : Option Id

inductive Write where
  | insertEntry (e : Entry)
  | recredit (id userId cleanupId : Id) (credit : Credit) (now : Instant)
  | voidEntry (id userId : Id) (cleanupId : Option Id) (operatorId : Id) (reason : String) (now : Instant)
  | insertAudit (a : Audit)
  | addHours (userId : Id) (geoid : Geoid) (delta : ℤ)
  | subtractHours (userId : Id) (geoid : Geoid) (hours : ℕ)

namespace Entry

/-- `voided_at IS NULL`. -/
def Live (e : Entry) : Prop := e.voidedAt = none

instance (e : Entry) : Decidable e.Live := inferInstanceAs (Decidable (_ = _))

/-- The row that the partial unique index on `(cleanup_id, user_id)` files. -/
def IsCredit (cleanupId userId : Id) (e : Entry) : Prop :=
  e.source = .event ∧ e.cleanupId = some cleanupId ∧ e.userId = userId

instance (c u : Id) (e : Entry) : Decidable (e.IsCredit c u) := inferInstanceAs (Decidable (_ ∧ _ ∧ _))

/-- `DO UPDATE SET`. A revived row starts a new life: its creation time moves and the void
is forgotten. -/
def recredit (c : Credit) (now : Instant) (e : Entry) : Entry :=
  { e with
    hours := c.hours
    jurisdictionGeoid := c.jurisdictionGeoid
    loggedByUserId := some c.loggedByUserId
    note := c.note
    creditedByOperatorId := c.creditedByOperatorId
    voidedByOperatorId := none
    voidReason := none
    createdAt := if e.voidedAt = none then e.createdAt else now
    voidedAt := none }

def void (operatorId : Id) (reason : String) (now : Instant) (e : Entry) : Entry :=
  { e with voidedAt := some now, voidedByOperatorId := some operatorId, voidReason := some reason }

/-- A rewrite that reaches the entry only when its user and event are the given ones. -/
def guarded (userId : Id) (cleanupId : Option Id) (f : Entry → Entry) (e : Entry) : Entry :=
  if e.userId = userId ∧ e.cleanupId = cleanupId then f e else e

/-- The columns that no statement rewrites. -/
structure Same (e e' : Entry) : Prop where
  id : e'.id = e.id
  userId : e'.userId = e.userId
  cleanupId : e'.cleanupId = e.cleanupId
  source : e'.source = e.source

theorem Same.refl (e : Entry) : e.Same e := ⟨rfl, rfl, rfl, rfl⟩

theorem Same.trans {e e' e'' : Entry} (h : e.Same e') (h' : e'.Same e'') : e.Same e'' :=
  ⟨h'.1.trans h.1, h'.2.trans h.2, h'.3.trans h.3, h'.4.trans h.4⟩

theorem same_recredit (c : Credit) (now : Instant) (e : Entry) : e.Same (e.recredit c now) := ⟨rfl, rfl, rfl, rfl⟩

theorem same_void (o : Id) (reason : String) (now : Instant) (e : Entry) : e.Same (e.void o reason now) :=
  ⟨rfl, rfl, rfl, rfl⟩

theorem same_guarded {f : Entry → Entry} (hf : ∀ e, Same e (f e)) (u : Id) (c : Option Id) (e : Entry) :
    e.Same (e.guarded u c f) := by
  unfold guarded
  split
  · exact hf e
  · exact .refl e

theorem same_guarded_recredit (u : Id) (c : Option Id) (x : Credit) (now : Instant) (e : Entry) :
    e.Same (e.guarded u c (recredit x now)) := same_guarded (same_recredit x now) u c e

theorem same_guarded_void (u : Id) (c : Option Id) (o : Id) (reason : String) (now : Instant) (e : Entry) :
    e.Same (e.guarded u c (void o reason now)) := same_guarded (same_void o reason now) u c e

theorem guarded_recredit_id (u : Id) (c : Option Id) (x : Credit) (now : Instant) (e : Entry) :
    (e.guarded u c (recredit x now)).id = e.id := (e.same_guarded_recredit u c x now).id

theorem guarded_void_id (u : Id) (c : Option Id) (o : Id) (reason : String) (now : Instant) (e : Entry) :
    (e.guarded u c (void o reason now)).id = e.id := (e.same_guarded_void u c o reason now).id

theorem guarded_of_ne {f : Entry → Entry} {u : Id} {c : Option Id} {e : Entry}
    (h : e.userId ≠ u ∨ e.cleanupId ≠ c) : e.guarded u c f = e := by
  unfold guarded
  rw [if_neg]
  rintro ⟨h1, h2⟩
  rcases h with h | h
  · exact h h1
  · exact h h2

end Entry

namespace JurisdictionHours

def add (delta : ℤ) (r : JurisdictionHours) : JurisdictionHours := { r with totalHours := r.totalHours + delta }

theorem add_key (delta : ℤ) (r : JurisdictionHours) :
    ((r.add delta).userId, (r.add delta).jurisdictionGeoid) = (r.userId, r.jurisdictionGeoid) := rfl

end JurisdictionHours

namespace Db

/-- `ON CONFLICT (user_id, jurisdiction_geoid) DO UPDATE SET total_hours = total_hours + EXCLUDED.total_hours`. -/
def addHours (s : Db) (userId : Id) (geoid : Geoid) (delta : ℤ) : Db :=
  { s with jurisdictionHours :=
      if (s.jurisdictionHours.find? (userId, geoid)).isSome then
        s.jurisdictionHours.modify (userId, geoid) (.add delta) (JurisdictionHours.add_key delta)
      else s.jurisdictionHours.insert ⟨userId, geoid, delta⟩ }

def apply (s : Db) : Write → Db
  | .insertEntry e => { s with entries := s.entries.insert e }
  | .recredit id u c x now =>
      { s with entries := s.entries.modify id (.guarded u c (.recredit x now)) (Entry.guarded_recredit_id u c x now) }
  | .voidEntry id u c o reason now =>
      { s with entries := s.entries.modify id (.guarded u c (.void o reason now)) (Entry.guarded_void_id u c o reason now) }
  | .insertAudit a => { s with audit := s.audit ++ [a] }
  | .addHours u g d => s.addHours u g d
  | .subtractHours u g h =>
      { s with jurisdictionHours := s.jurisdictionHours.modify (u, g) (.add (-h)) (JurisdictionHours.add_key (-h)) }

/-- The hours a user holds in a jurisdiction; a pair without a row holds none. -/
def hoursIn (s : Db) (userId : Id) (geoid : Geoid) : ℤ :=
  (s.jurisdictionHours.find? (userId, geoid)).elim 0 JurisdictionHours.totalHours

theorem hoursIn_addHours (s : Db) (u : Id) (g : Geoid) (d : ℤ) (u' : Id) (g' : Geoid) :
    (s.addHours u g d).hoursIn u' g' = s.hoursIn u' g' + if u' = u ∧ g' = g then d else 0 := by
  simp only [hoursIn, addHours]
  by_cases hk : (u', g') = (u, g)
  · obtain ⟨rfl, rfl⟩ := Prod.mk.inj hk
    cases hf : s.jurisdictionHours.find? (u', g') with
    | none => simp [Table.find?_insert, hf]
    | some r => simp [Table.find?_modify, hf, JurisdictionHours.add]
  · have hk' : ¬ (u' = u ∧ g' = g) := fun h => hk (by rw [h.1, h.2])
    rw [if_neg hk']
    split
    · simp only [Table.find?_modify, if_neg hk, add_zero]
    · simp only [Table.find?_insert, if_neg hk, add_zero]

end Db

/-! ## Locks -/

inductive Lock where
  | event (cleanupId : IdText)
  | user (userId : Id)
  | entryId (id : Id)
  deriving DecidableEq

/-- What a lock is taken on: with `byValue` all spellings of an event's id are one. -/
def Lock.name (byValue : Bool) : Lock → Lock
  | .event t => .event (if byValue then printed t.value else t)
  | l => l

/-- The lock of an event that a writer of its entries needs, where its spellings are one lock. -/
def eventNeeds : Bool → Option Id → List Lock
  | true, some c => [.event (printed c)]
  | _, _ => []

/-- The locks that the shared order asks of a writer, and the primary-key entry of a new row. -/
def Write.needs (byValue : Bool) : Write → List Lock
  | .insertEntry e => .entryId e.id :: .user e.userId :: eventNeeds byValue e.cleanupId
  | .recredit _ u c _ _ => .user u :: eventNeeds byValue (some c)
  | .voidEntry _ u c _ _ _ => .user u :: eventNeeds byValue c
  | .insertAudit a => [.user a.userId]
  | .addHours u _ _ => [.user u]
  | .subtractHours u _ _ => [.user u]

/-- What a lock keeps of the state `a` in which it was taken, at a later state `b`. The lock of an
event keeps nothing where another spelling of its id is another lock. -/
def Lock.Protects (byValue : Bool) (a b : Db) : Lock → Prop
  | .event t => byValue = true → Table.SameWhere (fun e : Entry => e.cleanupId = some t.value) a.entries b.entries
  | .user u => Table.SameWhere (fun e : Entry => e.userId = u) a.entries b.entries
  | .entryId id => a.entries.find? id = none ↔ b.entries.find? id = none

namespace Db

/-- Without any lock an entry still keeps its user, event and source. -/
def Evolves (a b : Db) : Prop := ∀ id, Table.PersistAt Entry.Same id a.entries b.entries

variable {byValue : Bool} {a b : Db} {w : Write}

theorem sameWhere_apply {P : Entry → Prop} (hP : ∀ e e', e.Same e' → P e' → P e)
    (hn : ∀ n ∈ w.needs byValue, n.Protects byValue a b) (h : Table.SameWhere P a.entries b.entries) :
    Table.SameWhere P (a.apply w).entries (b.apply w).entries := by
  cases w with
  | insertEntry e => exact h.insert_both e (hn (.entryId e.id) (by simp [Write.needs]))
  | recredit id u c x now =>
    exact h.modify_both id _ (Entry.guarded_recredit_id u c x now)
      (fun e => hP e _ (e.same_guarded_recredit u (some c) x now))
  | voidEntry id u c o reason now =>
    exact h.modify_both id _ (Entry.guarded_void_id u c o reason now)
      (fun e => hP e _ (e.same_guarded_void u c o reason now))
  | insertAudit _ | addHours _ _ _ | subtractHours _ _ _ => exact h

theorem find?_eq_none_apply (hn : ∀ n ∈ w.needs byValue, n.Protects byValue a b) {id : Id}
    (h : a.entries.find? id = none ↔ b.entries.find? id = none) :
    (a.apply w).entries.find? id = none ↔ (b.apply w).entries.find? id = none := by
  cases w with
  | insertEntry e =>
    simp only [apply, Table.find?_insert]
    split
    · simp
    · exact h
  | recredit | voidEntry =>
    simp only [apply, Table.find?_modify]
    split
    · simpa using h
    · exact h
  | insertAudit | addHours | subtractHours => exact h

theorem protects_apply (hn : ∀ n ∈ w.needs byValue, n.Protects byValue a b) {l : Lock} (h : l.Protects byValue a b) :
    l.Protects byValue (a.apply w) (b.apply w) := by
  cases l with
  | event t => exact fun hb => sameWhere_apply (fun e e' hs he => hs.cleanupId ▸ he) hn (h hb)
  | user u => exact sameWhere_apply (fun e e' hs he => hs.userId ▸ he) hn h
  | entryId id => exact find?_eq_none_apply hn h

/-- The id lock of a new row lets both versions take it, or neither. -/
theorem evolves_apply (hn : ∀ n ∈ w.needs byValue, n.Protects byValue a b) (h : Evolves a b) :
    Evolves (a.apply w) (b.apply w) := by
  intro x
  cases w with
  | insertEntry e =>
    have hid : a.entries.find? e.id = none ↔ b.entries.find? e.id = none :=
      hn (.entryId e.id) (by simp [Write.needs])
    cases hb : b.entries.find? e.id with
    | none => exact (h x).insert_both .refl e (by rw [hb, hid.mpr hb])
    | some y =>
      cases ha : a.entries.find? e.id with
      | none => rw [hid.mp ha] at hb; cases hb
      | some z =>
        simp only [apply, Table.insert_of_find?_some hb, Table.insert_of_find?_some ha]
        exact h x
  | recredit id u c y now =>
    refine (h x).modify_both id _ (Entry.guarded_recredit_id u c y now) (fun e e' he => ?_)
    have h1 := e.same_guarded_recredit u (some c) y now
    have h2 := e'.same_guarded_recredit u (some c) y now
    exact ⟨by rw [h2.1, h1.1, he.1], by rw [h2.2, h1.2, he.2], by rw [h2.3, h1.3, he.3], by rw [h2.4, h1.4, he.4]⟩
  | voidEntry id u c o reason now =>
    refine (h x).modify_both id _ (Entry.guarded_void_id u c o reason now) (fun e e' he => ?_)
    have h1 := e.same_guarded_void u c o reason now
    have h2 := e'.same_guarded_void u c o reason now
    exact ⟨by rw [h2.1, h1.1, he.1], by rw [h2.2, h1.2, he.2], by rw [h2.3, h1.3, he.3], by rw [h2.4, h1.4, he.4]⟩
  | insertAudit | addHours | subtractHours => exact h x

theorem evolves_write (s : Db) (w : Write) : Evolves s (s.apply w) := by
  intro x
  cases w with
  | insertEntry e => exact .insert .refl x _ e
  | recredit id u c y now =>
    exact .modify .refl x _ id _ (Entry.guarded_recredit_id u c y now) (Entry.same_guarded_recredit u c y now)
  | voidEntry id u c o reason now =>
    exact .modify .refl x _ id _ (Entry.guarded_void_id u c o reason now) (Entry.same_guarded_void u c o reason now)
  | insertAudit | addHours | subtractHours => exact .refl .refl x _

/-- A write outside the rows with `P` leaves them as they are. -/
theorem sameWhere_write {P : Entry → Prop} (s : Db) (w : Write) (hP : ∀ e e', e.Same e' → P e' → P e)
    (hinsert : ∀ e, w = .insertEntry e → ¬ P e)
    (hrecredit : ∀ id u c x now, w = .recredit id u c x now → ∀ e, P e → e.userId ≠ u ∨ e.cleanupId ≠ some c)
    (hvoid : ∀ id u c o r now, w = .voidEntry id u c o r now → ∀ e, P e → e.userId ≠ u ∨ e.cleanupId ≠ c) :
    Table.SameWhere P s.entries (s.apply w).entries := by
  cases w with
  | insertEntry e => exact .insert _ e (hinsert e rfl)
  | recredit id u c x now =>
    exact .modify _ id _ (Entry.guarded_recredit_id u c x now)
      (fun e he => Entry.guarded_of_ne (hrecredit id u c x now rfl e he))
      (fun e => hP e _ (e.same_guarded_recredit u (some c) x now))
  | voidEntry id u c o reason now =>
    exact .modify _ id _ (Entry.guarded_void_id u c o reason now)
      (fun e he => Entry.guarded_of_ne (hvoid id u c o reason now rfl e he))
      (fun e => hP e _ (e.same_guarded_void u c o reason now))
  | insertAudit | addHours | subtractHours => exact .refl _ _

theorem protects_write {l : Lock} (s : Db) (w : Write)
    (hw : ∀ n ∈ w.needs byValue, ¬ n.name byValue = l.name byValue) : l.Protects byValue s (s.apply w) := by
  cases l with
  | event t =>
    rintro rfl
    have hname : (Lock.event (printed t.value)).name true = (Lock.event t).name true := rfl
    refine sameWhere_write s w (fun e e' hs he => hs.cleanupId ▸ he) ?_ ?_ ?_
    · rintro e rfl he
      exact hw (.event (printed t.value)) (by simp [Write.needs, eventNeeds, he]) hname
    · rintro id u c x now rfl e he
      refine .inr (fun hc => hw (.event (printed t.value)) ?_ hname)
      rw [he] at hc
      simp [Write.needs, eventNeeds, ← Option.some.inj hc]
    · rintro id u c o r now rfl e he
      refine .inr (fun hc => hw (.event (printed t.value)) ?_ hname)
      simp [Write.needs, eventNeeds, ← hc, he]
  | user u =>
    refine sameWhere_write s w (fun e e' hs he => hs.userId ▸ he) ?_ ?_ ?_
    · rintro e rfl he
      exact hw (.user u) (by simp [Write.needs, he]) rfl
    · rintro id u' c' x now rfl e he
      refine .inl (fun hc => hw (.user u) ?_ rfl)
      simp [Write.needs, ← hc, he]
    · rintro id u' c' o r now rfl e he
      refine .inl (fun hc => hw (.user u) ?_ rfl)
      simp [Write.needs, ← hc, he]
  | entryId id =>
    cases w with
    | insertEntry e =>
      have hne : ¬ id = e.id := fun he => hw (.entryId e.id) (by simp [Write.needs]) (by rw [he])
      simp only [Lock.Protects, apply, Table.find?_insert, if_neg hne]
    | recredit | voidEntry =>
      simp only [Lock.Protects, apply, Table.find?_modify]
      split
      · simp
      · rfl
    | insertAudit | addHours | subtractHours => exact Iff.rfl

end Db

/-- The storage engine under the hours ledger. Advisory locks are exclusive. -/
def ledgerEngine (byValue : Bool) : Engine Db Write Lock where
  apply := Db.apply
  conflict := fun k l => k.name byValue = l.name byValue
  needs := Write.needs byValue
  evolves := Db.Evolves
  protects := fun l a b => l.Protects byValue a b
  conflict_symm := Eq.symm
  evolves_refl := fun a _ => .refl .refl _ _
  evolves_trans := fun h h' id => (h id).trans .trans (h' id)
  evolves_apply := fun _ h hn => Db.evolves_apply hn h
  evolves_write := Db.evolves_write
  protects_refl := fun l a => by cases l <;> first | exact .refl _ _ | exact Iff.rfl | exact fun _ => .refl _ _
  protects_trans := fun {l} {_ _ _} h h' => by
    cases l with
    | event t => exact fun hb => Table.SameWhere.trans (h hb) (h' hb)
    | user u => exact Table.SameWhere.trans h h'
    | entryId id => exact Iff.trans h h'
  protects_apply := fun _ _ hn h => Db.protects_apply hn h
  protects_write := fun a w hw => Db.protects_write a w hw

/-- The engine as it is: the lock of an event is its text. -/
def engine : Engine Db Write Lock := ledgerEngine false

end Civfix.VolunteerHours
