import Civfix.InterleavedCalls

/-! # Flags on one subject

`createItem` looks for an open moderation item of the subject, and escalates it or inserts one; the media
worker's `enqueueHeldModerationItem` folds into an open item, or inserts one and folds when the insert
finds a conflict. Operators resolve the open item in between.

One subject is modelled. The unique index on open items leaves it with one open item at most, which is
kept apart from those that are resolved. Each statement is one access, and the statement that writes is
the last of its transaction. -/
namespace Civfix.ModerationItems

open InterleavedCalls

abbrev ItemId := ℕ
abbrev UserId := ℕ

inductive Priority | med | high
inductive Resolution | approved | removed | held

/-- An open item. `reporters` and `ownerTakedown` are keys of `meta`. -/
structure Item where
  id : ItemId
  priority : Priority
  reporters : List UserId
  ownerTakedown : Bool

/-- `flags` are the origins of the calls that have reported the subject since the open item was opened,
`none` for the media worker and for a call without a user. It is kept for the statements below. -/
structure Shared where
  /-- The subject is a report. -/
  isReport : Bool
  /-- `reporter_user_id` of the report. -/
  author : Option UserId
  openItem : Option Item
  resolved : List (Item × Resolution)
  nextId : ItemId
  flags : List (Option UserId)

structure Input where
  reporterUserId : Option UserId
  priority : Option Priority

namespace Shared

variable (s : Shared)

/-- A call without a user is not the owner's, and neither is one on a report without an author. -/
def isOwnerRequest (x : Input) : Bool := s.isReport && x.reporterUserId.isSome && decide (s.author = x.reporterUserId)

def addReporter (x : Input) (l : List UserId) : List UserId :=
  match x.reporterUserId with
  | none => l
  | some u => if u ∈ l then l else l ++ [u]

/-- The call has reported the subject. -/
def flag (o : Option UserId) : Shared := { s with flags := o :: s.flags }

/-- `UPDATE … WHERE id = … AND status = 'open'`; `none` when no row matches. -/
def escalateOpenItem (id : ItemId) (x : Input) (ownerRequest : Bool) : Option Shared :=
  match s.openItem with
  | none => none
  | some m =>
    if m.id = id then
      some { s with openItem := some { m with
        priority := .high
        reporters := addReporter x m.reporters
        ownerTakedown := m.ownerTakedown && ownerRequest } }
    else none

/-- `INSERT … ON CONFLICT DO NOTHING`; the origins are counted from here. -/
def insertItem (priority : Priority) (ownerTakedown : Bool) (o : Option UserId) : Option Shared :=
  match s.openItem with
  | some _ => none
  | none =>
    some { s with openItem := some ⟨s.nextId, priority, [], ownerTakedown⟩, nextId := s.nextId + 1, flags := [o] }

def foldIntoOpenModerationItem : Option Shared :=
  s.openItem.map (fun m => { s with openItem := some { m with ownerTakedown := false } })

def resolveItem (r : Resolution) : Option Shared :=
  s.openItem.map (fun m => { s with openItem := none, resolved := (m, r) :: s.resolved })

end Shared

/-! ## Calls -/

inductive Request where
  | createItem (x : Input)
  | enqueueHeldModerationItem

inductive Await where
  | look (x : Input)
  | ownerOfFound (id : ItemId) (x : Input)
  | escalate (id : ItemId) (x : Input) (ownerRequest : Bool)
  | ownerOfNew (x : Input)
  | insert (x : Input) (ownerRequest : Bool)
  | fold
  | insertHeld
  | refold

/-- The item that the call has created, escalated or folded into. -/
inductive Result where
  | committed (touched : Option ItemId)
  | failed
  deriving DecidableEq

abbrev World := InterleavedCalls.World Shared Request Await
abbrev Next := InterleavedCalls.Next Await Result

/-- `openItem` is an item of another origin, such as the one that an anonymous report is created with.
`claimByCode` gives a report without an author its author. -/
inductive Event where
  | openItem
  | resolveItem (r : Resolution)
  | claimByCode (u : UserId)

abbrev Move := InterleavedCalls.Move Request Event

def enter (s : Shared) : Request → Option (Shared × Await)
  | .createItem x => some (s, .look x)
  | .enqueueHeldModerationItem => if s.isReport then some (s, .fold) else none

/-- The state in which the call has committed, by a statement that may have found no row. -/
def Shared.commit (s : Shared) (t : Option Shared) (o : Option UserId) : Shared × Next :=
  match t with
  | none => (s.flag o, .done (.committed none))
  | some t => (t.flag o, .done (.committed (t.openItem.map Item.id)))

/-- Any statement may fail, and then the call has written nothing. -/
def access (s : Shared) : Await → List (Shared × Next)
  | .look x =>
    [(s, .await (match s.openItem with | some m => .ownerOfFound m.id x | none => .ownerOfNew x)), (s, .done .failed)]
  | .ownerOfFound id x => [(s, .await (.escalate id x (s.isOwnerRequest x))), (s, .done .failed)]
  | .escalate id x own => [s.commit (s.escalateOpenItem id x own) x.reporterUserId, (s, .done .failed)]
  | .ownerOfNew x => [(s, .await (.insert x (s.isOwnerRequest x))), (s, .done .failed)]
  | .insert x own =>
    [match s.insertItem (x.priority.getD .med) own x.reporterUserId with
      | none => (s.flag x.reporterUserId, .done (.committed none))
      | some t => (t, .done (.committed (t.openItem.map Item.id))), (s, .done .failed)]
  | .fold =>
    [match s.foldIntoOpenModerationItem with
      | none => (s, .await .insertHeld)
      | some t => s.commit (some t) none, (s, .done .failed)]
  | .insertHeld =>
    [match s.insertItem .high false none with
      | none => (s, .await .refold)
      | some t => (t, .done (.committed (t.openItem.map Item.id))), (s, .done .failed)]
  | .refold => [s.commit s.foldIntoOpenModerationItem none, (s, .done .failed)]

def environment (s : Shared) : Event → Option Shared
  | .openItem => s.insertItem .med false none
  | .resolveItem r => s.resolveItem r
  | .claimByCode u => if s.author.isNone then some { s with author := some u } else none

def machine : Machine Shared Request Await Result Event := ⟨enter, access, environment⟩

/-! ## The condition on the statements -/

/-- A statement finds the subject as the call has found it before: an item that was found open is still
open when it is escalated, where none was found none is open at the insert, and after a conflict one is
open when it is folded into. -/
def AsFound (s : Shared) : Await → Prop
  | .escalate id _ _ => ∃ m ∈ s.openItem, m.id = id
  | .insert _ _ => s.openItem = none
  | .refold => s.openItem ≠ none
  | _ => True

instance (s : Shared) (p : Await) : Decidable (AsFound s p) :=
  match p with
  | .escalate id _ _ => inferInstanceAs (Decidable (∃ m ∈ s.openItem, m.id = id))
  | .insert _ _ => inferInstanceAs (Decidable (s.openItem = none))
  | .refold => inferInstanceAs (Decidable (s.openItem ≠ none))
  | .look _ | .ownerOfFound _ _ | .ownerOfNew _ | .fold | .insertHeld => isTrue trivial

def Undisturbed (w : World) (m : Move) : Prop :=
  match m with
  | .access i _ => ∀ c ∈ w.call i, AsFound w.shared c.await
  | _ => True

instance (w : World) (m : Move) : Decidable (Undisturbed w m) :=
  match m with
  | .access i _ => inferInstanceAs (Decidable (∀ c ∈ w.call i, AsFound w.shared c.await))
  | .start _ | .crash _ | .environment _ => isTrue trivial

variable {s s' : Shared} {w w' : World}

/-! ## No flag is lost -/

/-- The call has created, escalated or folded into an item, which is open when the call commits. -/
def Kept (s : Shared) : Result → Prop
  | .committed touched => ∃ m ∈ s.openItem, touched = some m.id
  | .failed => True

theorem openItem_of_escalate {id : ItemId} {x : Input} {own : Bool} (h : s.escalateOpenItem id x own = some s') :
    ∃ m ∈ s.openItem, m.id = id ∧ s' = { s with openItem := some { m with
      priority := .high, reporters := Shared.addReporter x m.reporters, ownerTakedown :=
        m.ownerTakedown && own } } := by
  unfold Shared.escalateOpenItem at h
  split at h
  · cases h
  next m hm =>
  split at h
  · next hid => exact ⟨m, hm, hid, (Option.some.inj h).symm⟩
  · cases h

theorem openItem_of_insert {p : Priority} {own : Bool} {o : Option UserId} (h : s.insertItem p own o = some s') :
    s.openItem = none ∧
      s' = { s with openItem := some ⟨s.nextId, p, [], own⟩, nextId := s.nextId + 1, flags := [o] } := by
  unfold Shared.insertItem at h
  split at h
  · cases h
  next hm => exact ⟨hm, (Option.some.inj h).symm⟩

theorem openItem_of_fold (h : s.foldIntoOpenModerationItem = some s') :
    ∃ m ∈ s.openItem, s' = { s with openItem := some { m with ownerTakedown := false } } := by
  obtain ⟨m, hm, rfl⟩ := Option.map_eq_some_iff.mp h
  exact ⟨m, hm, rfl⟩

/-- A call that commits keeps its flag exactly when its statement finds the subject as it was found. -/
theorem kept_iff_asFound {p : Await} {r : Result} (hmem : (s', .done r) ∈ access s p) (hr : r ≠ .failed) :
    Kept s' r ↔ AsFound s p := by
  cases p with
  | look x | ownerOfFound id x | ownerOfNew x =>
    simp only [access, List.mem_cons, Prod.mk.injEq, reduceCtorEq, and_false, List.not_mem_nil, or_false, false_or,
      Next.done.injEq] at hmem
    exact absurd hmem.2 hr
  | escalate id x own =>
    simp only [access, List.mem_cons, Prod.mk.injEq, Next.done.injEq, List.not_mem_nil, or_false] at hmem
    rcases hmem with hmem | ⟨-, rfl⟩
    · cases he : s.escalateOpenItem id x own with
      | none =>
        rw [he] at hmem
        cases hmem
        constructor
        · rintro ⟨m, -, ⟨⟩⟩
        · rintro ⟨m, hm, hid⟩
          have hopen : s.openItem = some m := hm
          simp [Shared.escalateOpenItem, hopen, hid] at he
      | some t =>
        rw [he] at hmem
        cases hmem
        obtain ⟨m, hm, hid, rfl⟩ := openItem_of_escalate he
        exact ⟨fun _ => ⟨m, hm, hid⟩, fun _ => ⟨_, rfl, rfl⟩⟩
    · exact absurd rfl hr
  | insert x own =>
    simp only [access, List.mem_cons, Prod.mk.injEq, Next.done.injEq, List.not_mem_nil, or_false] at hmem
    rcases hmem with hmem | ⟨-, rfl⟩
    · split at hmem
      · next hn =>
        cases hmem
        constructor
        · rintro ⟨m, -, ⟨⟩⟩
        · intro hnone
          have hopen : s.openItem = none := hnone
          simp [Shared.insertItem, hopen] at hn
      · next t ht =>
        cases hmem
        obtain ⟨hnone, rfl⟩ := openItem_of_insert ht
        exact ⟨fun _ => hnone, fun _ => ⟨_, rfl, rfl⟩⟩
    · exact absurd rfl hr
  | fold =>
    simp only [access, List.mem_cons, Prod.mk.injEq, Next.done.injEq, List.not_mem_nil, or_false] at hmem
    rcases hmem with hmem | ⟨-, rfl⟩
    · split at hmem
      · cases hmem
      · next t ht =>
        cases hmem
        obtain ⟨m, hm, rfl⟩ := openItem_of_fold ht
        exact ⟨fun _ => trivial, fun _ => ⟨_, rfl, rfl⟩⟩
    · exact absurd rfl hr
  | insertHeld =>
    simp only [access, List.mem_cons, Prod.mk.injEq, Next.done.injEq, List.not_mem_nil, or_false] at hmem
    rcases hmem with hmem | ⟨-, rfl⟩
    · split at hmem
      · cases hmem
      · next t ht =>
        cases hmem
        obtain ⟨hnone, rfl⟩ := openItem_of_insert ht
        exact ⟨fun _ => trivial, fun _ => ⟨_, rfl, rfl⟩⟩
    · exact absurd rfl hr
  | refold =>
    simp only [access, List.mem_cons, Prod.mk.injEq, Next.done.injEq, List.not_mem_nil, or_false] at hmem
    rcases hmem with hmem | ⟨-, rfl⟩
    · cases hf : s.foldIntoOpenModerationItem with
      | none =>
        rw [hf] at hmem
        cases hmem
        constructor
        · rintro ⟨m, -, ⟨⟩⟩
        · intro hsome
          exact absurd (Option.map_eq_none_iff.mp hf) hsome
      | some t =>
        rw [hf] at hmem
        cases hmem
        obtain ⟨m, hm, rfl⟩ := openItem_of_fold hf
        refine ⟨fun _ hnone => ?_, fun _ => ⟨_, rfl, rfl⟩⟩
        rw [hnone] at hm
        cases hm
    · exact absurd rfl hr

/-! ## Takedown markers -/

/-- An item that carries the marker has been reported by the author of the report alone. -/
def Marked (s : Shared) : Prop :=
  ∀ m ∈ s.openItem, m.ownerTakedown = true → ∀ o ∈ s.flags, ∃ u, o = some u ∧ s.author = some u

/-- A call that goes on as the owner's is the author's. -/
def Owned (s : Shared) : Await → Prop
  | .escalate _ x own | .insert x own => own = true → ∃ u, x.reporterUserId = some u ∧ s.author = some u
  | _ => True

theorem owned_of_isOwnerRequest (x : Input) (h : s.isOwnerRequest x = true) :
    ∃ u, x.reporterUserId = some u ∧ s.author = some u := by
  simp only [Shared.isOwnerRequest, Bool.and_eq_true, decide_eq_true_eq] at h
  obtain ⟨⟨-, hsome⟩, hauthor⟩ := h
  obtain ⟨u, hu⟩ := Option.isSome_iff_exists.mp hsome
  exact ⟨u, hu, hauthor.trans hu⟩

/-- No access changes the author, and the owner's request is checked against it. -/
theorem access_author {p : Await} {n : Next} (hmem : (s', n) ∈ access s p) :
    s'.author = s.author ∧ ∀ q, n = .await q → Owned s q := by
  have hcommit : ∀ (t : Option Shared) (o : Option UserId), (∀ u ∈ t, u.author = s.author) →
      (s.commit t o).1.author = s.author ∧ ∀ q, (s.commit t o).2 ≠ .await q := by
    intro t o ht
    cases t with
    | none => exact ⟨rfl, fun q hq => by cases hq⟩
    | some t => exact ⟨ht t rfl, fun q hq => by cases hq⟩
  have hescalate : ∀ (id : ItemId) (x : Input) (own : Bool), ∀ u ∈ s.escalateOpenItem id x own,
    u.author = s.author := by
    intro id x own u hu
    obtain ⟨m, -, -, rfl⟩ := openItem_of_escalate hu
    rfl
  have hfold : ∀ u ∈ s.foldIntoOpenModerationItem, u.author = s.author := by
    intro u hu
    obtain ⟨m, -, rfl⟩ := openItem_of_fold hu
    rfl
  cases p with
  | look x =>
    simp only [access, List.mem_cons, Prod.mk.injEq, List.not_mem_nil, or_false] at hmem
    rcases hmem with ⟨rfl, rfl⟩ | ⟨rfl, rfl⟩
    · refine ⟨rfl, fun q hq => ?_⟩
      obtain rfl := Next.await.inj hq
      split <;> trivial
    · exact ⟨rfl, fun q hq => by cases hq⟩
  | ownerOfFound id x | ownerOfNew x =>
    simp only [access, List.mem_cons, Prod.mk.injEq, List.not_mem_nil, or_false] at hmem
    rcases hmem with ⟨rfl, rfl⟩ | ⟨rfl, rfl⟩
    · refine ⟨rfl, fun q hq => ?_⟩
      obtain rfl := Next.await.inj hq
      exact owned_of_isOwnerRequest x
    · exact ⟨rfl, fun q hq => by cases hq⟩
  | escalate id x own =>
    simp only [access, List.mem_cons, Prod.mk.injEq, List.not_mem_nil, or_false] at hmem
    rcases hmem with hmem | ⟨rfl, rfl⟩
    · obtain ⟨hauthor, hdone⟩ := hcommit _ x.reporterUserId (hescalate id x own)
      rw [← hmem] at hauthor hdone
      exact ⟨hauthor, fun q hq => absurd hq (hdone q)⟩
    · exact ⟨rfl, fun q hq => by cases hq⟩
  | insert x own =>
    simp only [access, List.mem_cons, Prod.mk.injEq, List.not_mem_nil, or_false] at hmem
    rcases hmem with hmem | ⟨rfl, rfl⟩
    · split at hmem
      · cases hmem
        exact ⟨rfl, fun q hq => by cases hq⟩
      · next t ht =>
        cases hmem
        obtain ⟨-, rfl⟩ := openItem_of_insert ht
        exact ⟨rfl, fun q hq => by cases hq⟩
    · exact ⟨rfl, fun q hq => by cases hq⟩
  | fold =>
    simp only [access, List.mem_cons, Prod.mk.injEq, List.not_mem_nil, or_false] at hmem
    rcases hmem with hmem | ⟨rfl, rfl⟩
    · split at hmem
      · cases hmem
        exact ⟨rfl, fun q hq => by cases hq; trivial⟩
      · next t ht =>
        obtain ⟨hauthor, hdone⟩ := hcommit (some t) none (fun u hu => hfold u (ht.trans hu))
        rw [← hmem] at hauthor hdone
        exact ⟨hauthor, fun q hq => absurd hq (hdone q)⟩
    · exact ⟨rfl, fun q hq => by cases hq⟩
  | insertHeld =>
    simp only [access, List.mem_cons, Prod.mk.injEq, List.not_mem_nil, or_false] at hmem
    rcases hmem with hmem | ⟨rfl, rfl⟩
    · split at hmem
      · cases hmem
        exact ⟨rfl, fun q hq => by cases hq; trivial⟩
      · next t ht =>
        cases hmem
        obtain ⟨-, rfl⟩ := openItem_of_insert ht
        exact ⟨rfl, fun q hq => by cases hq⟩
    · exact ⟨rfl, fun q hq => by cases hq⟩
  | refold =>
    simp only [access, List.mem_cons, Prod.mk.injEq, List.not_mem_nil, or_false] at hmem
    rcases hmem with hmem | ⟨rfl, rfl⟩
    · obtain ⟨hauthor, hdone⟩ := hcommit _ none hfold
      rw [← hmem] at hauthor hdone
      exact ⟨hauthor, fun q hq => absurd hq (hdone q)⟩
    · exact ⟨rfl, fun q hq => by cases hq⟩

/-- A statement that finds the subject as it was found keeps the markers right. -/
theorem marked_of_access {p : Await} {n : Next} (h : Marked s) (ho : Owned s p) (hf : AsFound s p)
    (hmem : (s', n) ∈ access s p) : Marked s' := by
  have hunmarked : ∀ (t : Shared) (m : Item), t.openItem = some m → m.ownerTakedown = false → Marked t := by
    intro t m ht hm y hy hmark
    rw [ht] at hy
    cases hy
    rw [hm] at hmark
    cases hmark
  cases p with
  | look x | ownerOfFound id x | ownerOfNew x =>
    simp only [access, List.mem_cons, Prod.mk.injEq, List.not_mem_nil, or_false] at hmem
    rcases hmem with ⟨rfl, -⟩ | ⟨rfl, -⟩ <;> exact h
  | escalate id x own =>
    simp only [access, List.mem_cons, Prod.mk.injEq, List.not_mem_nil, or_false] at hmem
    rcases hmem with hmem | ⟨rfl, -⟩
    · cases he : s.escalateOpenItem id x own with
      | none =>
        obtain ⟨m, hm, hid⟩ := hf
        have hopen : s.openItem = some m := hm
        simp [Shared.escalateOpenItem, hopen, hid] at he
      | some t =>
        rw [he] at hmem
        cases hmem
        obtain ⟨m, hm, -, rfl⟩ := openItem_of_escalate he
        intro y hy hmark o hflag
        cases hy
        obtain ⟨hold, hown⟩ := (Bool.and_eq_true _ _).mp hmark
        rcases List.mem_cons.mp hflag with rfl | hflag
        · exact ho hown
        · exact h m hm hold o hflag
    · exact h
  | insert x own =>
    simp only [access, List.mem_cons, Prod.mk.injEq, List.not_mem_nil, or_false] at hmem
    rcases hmem with hmem | ⟨rfl, -⟩
    · split at hmem
      · next hn =>
        have hopen : s.openItem = none := hf
        simp [Shared.insertItem, hopen] at hn
      · next t ht =>
        cases hmem
        obtain ⟨-, rfl⟩ := openItem_of_insert ht
        intro y hy hmark o hflag
        cases hy
        obtain rfl := List.mem_singleton.mp hflag
        exact ho hmark
    · exact h
  | fold =>
    simp only [access, List.mem_cons, Prod.mk.injEq, List.not_mem_nil, or_false] at hmem
    rcases hmem with hmem | ⟨rfl, -⟩
    · split at hmem
      · cases hmem
        exact h
      · next t ht =>
        cases hmem
        obtain ⟨m, -, rfl⟩ := openItem_of_fold ht
        exact hunmarked _ _ rfl rfl
    · exact h
  | insertHeld =>
    simp only [access, List.mem_cons, Prod.mk.injEq, List.not_mem_nil, or_false] at hmem
    rcases hmem with hmem | ⟨rfl, -⟩
    · split at hmem
      · cases hmem
        exact h
      · next t ht =>
        cases hmem
        obtain ⟨-, rfl⟩ := openItem_of_insert ht
        exact hunmarked _ _ rfl rfl
    · exact h
  | refold =>
    simp only [access, List.mem_cons, Prod.mk.injEq, List.not_mem_nil, or_false] at hmem
    rcases hmem with hmem | ⟨rfl, -⟩
    · cases hfold : s.foldIntoOpenModerationItem with
      | none => exact absurd (Option.map_eq_none_iff.mp hfold) hf
      | some t =>
        rw [hfold] at hmem
        cases hmem
        obtain ⟨m, -, rfl⟩ := openItem_of_fold hfold
        exact hunmarked _ _ rfl rfl
    · exact h

theorem marked_of_environment {e : Event} (h : Marked s) (he : environment s e = some s') : Marked s' := by
  cases e with
  | openItem =>
    obtain ⟨-, rfl⟩ := openItem_of_insert he
    intro m hm hmark
    cases hm
    cases hmark
  | resolveItem r =>
    obtain ⟨m, -, rfl⟩ := Option.map_eq_some_iff.mp he
    intro y hy
    cases hy
  | claimByCode u =>
    simp only [environment] at he
    split at he
    · next hnone =>
      cases he
      intro m hm hmark o hflag
      obtain ⟨v, -, hv⟩ := h m hm hmark o hflag
      rw [hv] at hnone
      cases hnone
    · cases he

/-- The author of a report does not change. -/
theorem owned_of_environment {e : Event} {p : Await} (h : Owned s p) (he : environment s e = some s') : Owned s' p := by
  have hkeep : ∀ u, s.author = some u → s'.author = some u := by
    intro u hu
    cases e with
    | openItem =>
      obtain ⟨-, rfl⟩ := openItem_of_insert he
      exact hu
    | resolveItem r =>
      obtain ⟨m, -, rfl⟩ := Option.map_eq_some_iff.mp he
      exact hu
    | claimByCode v =>
      simp only [environment, hu] at he
      cases he
  cases p with
  | escalate id x own | insert x own =>
    intro hown
    obtain ⟨u, hx, hu⟩ := h hown
    exact ⟨u, hx, hkeep u hu⟩
  | look _ | ownerOfFound _ _ | ownerOfNew _ | fold | insertHeld | refold => trivial

theorem owned_of_author {p : Await} (h : Owned s p) (hs : s'.author = s.author) : Owned s' p := by
  cases p with
  | escalate id x own | insert x own =>
    intro hown
    rw [hs]
    exact h hown
  | look _ | ownerOfFound _ _ | ownerOfNew _ | fold | insertHeld | refold => trivial

def Sound (w : World) : Prop := Machine.Holds Marked (fun s _ c => Owned s c.await) w

theorem Sound.step {m : Move} {r : Option Result} (h : Sound w) (hok : Undisturbed w m)
    (hs : machine.step w m = some (w', r)) : Sound w' := by
  refine Machine.Holds.step h hs ?_ ?_ ?_
  · intro o t p _ he
    have hstart : t = w.shared ∧ Owned t p := by
      cases o with
      | createItem x =>
        cases he
        exact ⟨rfl, trivial⟩
      | enqueueHeldModerationItem =>
        simp only [machine, enter] at he
        split at he <;> cases he
        exact ⟨rfl, trivial⟩
    obtain ⟨rfl, howned⟩ := hstart
    exact ⟨h.shared, howned, fun i c hc => h.calls i c hc⟩
  · rintro i k c t n rfl hc hmem
    obtain ⟨hauthor, hnext⟩ := access_author hmem
    refine ⟨marked_of_access h.shared (h.calls i c hc) (hok c hc) hmem,
      fun p hp => owned_of_author (hnext p hp) hauthor,
      fun j d _ hd => owned_of_author (h.calls j d hd) hauthor⟩
  · rintro e t rfl he
    exact ⟨marked_of_environment h.shared he, fun i c hc => owned_of_environment (h.calls i c hc) he⟩

/-- No item has been opened yet. -/
def start (isReport : Bool) (author : Option UserId) : Shared := ⟨isReport, author, none, [], 0, []⟩

theorem sound_start (isReport : Bool) (author : Option UserId) : Sound (World.initial (start isReport author)) :=
  ⟨fun m hm => (by cases hm), fun i c hc => by simp at hc⟩

/-- In every run in which each statement finds the subject as its call has found it before, a call that
commits has created, escalated or folded into an item that is open when it commits; and an open item
carries the marker only if all who have reported the subject since it was opened are its author. -/
theorem no_flag_is_lost (isReport : Bool) (author : Option UserId) (w : World)
    (h : Machine.Run machine Undisturbed (World.initial (start isReport author)) w) :
    (∀ m w' r, Undisturbed w m → machine.step w m = some (w', some r) → Kept w'.shared r) ∧
    ∀ m ∈ w.shared.openItem, m.ownerTakedown = true → ∀ o ∈ w.shared.flags, ∃ u, o = some u ∧
      w.shared.author = some u := by
  have hsound : Sound w := h.invariant (sound_start isReport author) (fun hw hok hs => hw.step hok hs)
  refine ⟨fun m w' r hok hs => ?_, hsound.shared⟩
  obtain ⟨i, k, c, rfl, hc, hmem⟩ := Machine.return_cases hs
  by_cases hr : r = .failed
  · subst hr
    trivial
  · exact (kept_iff_asFound hmem hr).mpr (hok c hc)

/-! ## Two reports of one subject -/

def ownRequest : Request := .createItem ⟨some 7, some .high⟩
def otherRequest : Request := .createItem ⟨some 8, none⟩

/-- A third party's report of an item that the author has opened takes the marker away. -/
theorem third_party_clears_marker : ∃ (w w' : World) (r : Result), Kept w'.shared r ∧ r ≠ .failed ∧
    (∃ m ∈ w.shared.openItem, m.ownerTakedown = true ∧ w.shared.flags = [some 7]) ∧
    (∀ m ∈ w.shared.openItem, m.ownerTakedown = true → ∀ o ∈ w.shared.flags, ∃ u, o = some u ∧
      w.shared.author = some u) ∧
    ∃ m ∈ w'.shared.openItem, m.ownerTakedown = false := by
  have hruns : (machine.perform (World.initial (start true (some 7)))
    (.start ownRequest :: List.replicate 3 (.access 0 0 : Move) ++
      (.start otherRequest : Move) :: List.replicate 2 (.access 1 0 : Move))).any (fun w =>
        decide (∃ m ∈ w.shared.openItem, m.ownerTakedown = true ∧ w.shared.flags = [some 7]) &&
        decide (Undisturbed w (.access 1 0)) && (machine.step w (.access 1 0)).any (fun x => x.2.any (fun r =>
          decide (r ≠ .failed ∧ ∃ m ∈ x.1.shared.openItem, m.ownerTakedown = false)))) = true := by decide +kernel
  obtain ⟨w, hw, hP⟩ := (Option.any_eq_true _ _).mp hruns
  obtain ⟨hP, hstep⟩ := (Bool.and_eq_true _ _).mp hP
  obtain ⟨hmark, hok⟩ := (Bool.and_eq_true _ _).mp hP
  obtain ⟨⟨w', x⟩, hs, hx⟩ := (Option.any_eq_true _ _).mp hstep
  obtain ⟨r, hr, hx⟩ := (Option.any_eq_true _ _).mp hx
  have hr' : x = some r := hr
  subst hr'
  obtain ⟨hne, hclear⟩ := of_decide_eq_true hx
  obtain ⟨hkept, hmarked⟩ := no_flag_is_lost true (some 7) w (Machine.run_of_perform (by decide +kernel) hw)
  exact ⟨w, w', r, hkept _ w' r (of_decide_eq_true hok) hs, hne, of_decide_eq_true hmark, hmarked, hclear⟩

/-- An operator resolves the item between the look and the escalation, and the flag is lost. -/
theorem resolved_meanwhile_loses_flag :
    ¬ ∀ (isReport : Bool) (author : Option UserId) (w w' : World) (m : Move) (r : Result),
      Machine.Run machine (fun _ _ => True) (World.initial (start isReport author)) w →
      machine.step w m = some (w', some r) → Kept w'.shared r := by
  intro hall
  have hruns : (machine.perform (World.initial (start true (some 7)))
    ([(.environment .openItem : Move), .start otherRequest] ++
      List.replicate 2 (.access 0 0 : Move) ++ [(.environment (.resolveItem .approved) : Move)])).any (fun w =>
        (machine.step w (.access 0 0)).any (fun x => decide (x.2 = some (.committed none)))) = true := by decide +kernel
  obtain ⟨w, hw, hstep⟩ := (Option.any_eq_true _ _).mp hruns
  obtain ⟨⟨w', x⟩, hs, hx⟩ := (Option.any_eq_true _ _).mp hstep
  have hlost : x = some (.committed none) := of_decide_eq_true hx
  subst hlost
  obtain ⟨m, -, hm⟩ := hall true (some 7) w w' (.access 0 0) _ (Machine.free_of_perform hw) hs
  cases hm

end Civfix.ModerationItems
