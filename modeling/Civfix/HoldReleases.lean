import Civfix.FilingRepository
import Civfix.InterleavedCalls

/-! # The release of held reports

An anonymous report is created `held`, with a moderation item. `releaseAnonHoldIfReady`, called for each
media result and by a sweep, publishes it once its media are ready and no abuse flag is open. An operator
who puts the item on hold changes the item alone.

One report is modelled, with its items, its media and the flags that are open on it. The transaction that
publishes is followed statement by statement. That it locks the report is not used: the last statement
tests the status again. -/
namespace Civfix.HoldReleases

open InterleavedCalls
open Filings (ReportStatus)

abbrev MediaId := ℕ
abbrev ItemId := ℕ

inductive MediaStatus | validating | ready | rejected | held deriving DecidableEq
inductive ItemStatus | opened | approved | removed | held deriving DecidableEq

structure Media where
  id : MediaId
  status : MediaStatus
  deriving DecidableEq

structure Item where
  id : ItemId
  status : ItemStatus

/-- The subject of an open abuse flag. -/
inductive Flag where
  | report
  | media (id : MediaId)
  deriving DecidableEq

structure Report where
  status : ReportStatus
  deleted : Bool
  anonymous : Bool
  deriving DecidableEq

structure Shared where
  report : Option Report
  items : List Item
  media : List Media
  flags : List Flag

namespace Shared

variable (s : Shared)

/-- The report, when its status is `held` and it is not removed. -/
def heldReport : Option Report := s.report.filter (fun r => decide (r.status = .held) && !r.deleted)

/-- The open flags of the report and of the media that were read before. -/
def countOpenFlags (mediaIds : List MediaId) : ℕ :=
  (s.flags.filter (fun f => decide (f = .report) || mediaIds.any (fun i => decide (f = .media i)))).length

def setItems (p : Item → Bool) (st : ItemStatus) : Shared :=
  { s with items := s.items.map (fun m => if p m then { m with status := st } else m) }

/-- `resolveItem`, of an item that is open. -/
def resolveItem (id : ItemId) (st : ItemStatus) : Option Shared :=
  if s.items.any (fun m => decide (m.id = id ∧ m.status = .opened)) then
    some (s.setItems (fun m => decide (m.id = id ∧ m.status = .opened)) st)
  else none

/-- An operator's approval publishes a report that is still held. -/
def approve (id : ItemId) : Option Shared :=
  (s.resolveItem id .approved).map (fun t =>
    match t.heldReport with
    | none => t
    | some r => { t with report := some { r with status := .published } })

def remove (id : ItemId) : Option Shared :=
  (s.resolveItem id .removed).map (fun t =>
    { t with report := t.report.map (fun r => if r.deleted then r else { r with status := .rejected, deleted := true }) })

/-- The report is left as it is. -/
def hold (id : ItemId) : Option Shared := s.resolveItem id .held

/-- An operator has put an item of the report on hold. -/
def OnHold : Prop := ∃ m ∈ s.items, m.status = .held

instance : Decidable s.OnHold := inferInstanceAs (Decidable (∃ m ∈ s.items, m.status = .held))

end Shared

/-! ## Releases -/

inductive Await where
  | findReport
  | findMedia
  | countFlags (mediaIds : List MediaId)
  /-- The statements of `publishHeldReport`. -/
  | lockReport (mediaIds : List MediaId)
  | countNotReady (mediaIds : List MediaId)
  | recountFlags (mediaIds : List MediaId)
  | publish
  deriving DecidableEq

inductive Outcome
  | published | notHeld | notAnon | mediaPending | mediaBlocked | flagged | failed

abbrev Call := InterleavedCalls.Call Unit Await
abbrev World := InterleavedCalls.World Shared Unit Await
abbrev Next := InterleavedCalls.Next Await Outcome

/-- `setStatus` is any other writer of the status; none of them holds a report. -/
inductive Event where
  | createReport (media : List Media)
  | createItem
  | mediaStatus (id : MediaId) (st : MediaStatus)
  | raiseFlag (f : Flag)
  | resolveFlag (f : Flag)
  | approve (id : ItemId)
  | remove (id : ItemId)
  | hold (id : ItemId)
  | setStatus (st : ReportStatus) (deleted : Bool)

abbrev Move := InterleavedCalls.Move Unit Event

/-- Any statement may fail, and then nothing of the transaction is kept. `findMedia` reads no position,
so that none is compared with the report's. -/
def access (s : Shared) : Await → List (Shared × Next)
  | .findReport =>
    match s.heldReport with
    | none => [(s, .done .notHeld), (s, .done .failed)]
    | some r => [(s, if r.anonymous then .await .findMedia else .done .notAnon), (s, .done .failed)]
  | .findMedia =>
    let next : Next :=
      if s.media.any (fun m => decide (m.status = .rejected ∨ m.status = .held)) then .done .mediaBlocked
      else if s.media.any (fun m => decide (m.status ≠ .ready)) then .done .mediaPending
      else .await (.countFlags (s.media.map Media.id))
    [(s, next), (s, .done .failed)]
  | .countFlags ids =>
    [(s, if 0 < s.countOpenFlags ids then .done .flagged else .await (.lockReport ids)), (s, .done .failed)]
  | .lockReport ids =>
    [(s, if s.heldReport.isNone then .done .notHeld else .await (.countNotReady ids)), (s, .done .failed)]
  | .countNotReady ids =>
    [(s, if s.media.any (fun m => decide (m.status ≠ .ready)) then .done .notHeld else .await (.recountFlags ids)),
      (s, .done .failed)]
  | .recountFlags ids =>
    [(s, if 0 < s.countOpenFlags ids then .done .notHeld else .await .publish), (s, .done .failed)]
  | .publish =>
    let t := match s.heldReport with
      | none => s
      | some r => { s with report := some { r with status := .published } }
    [(t.setItems (fun m => decide (m.status = .opened)) .approved, .done .published), (s, .done .failed)]

def environment (s : Shared) : Event → Option Shared
  | .createReport media =>
    if s.report.isNone then
      some { s with report := some ⟨.held, false, true⟩, items := s.items ++ [⟨s.items.length, .opened⟩], media := media }
    else none
  | .createItem => some { s with items := s.items ++ [⟨s.items.length, .opened⟩] }
  | .mediaStatus id st =>
    some { s with media := s.media.map (fun m => if m.id = id then { m with status := st } else m) }
  | .raiseFlag f => some { s with flags := f :: s.flags }
  | .resolveFlag f => some { s with flags := s.flags.erase f }
  | .approve id => s.approve id
  | .remove id => s.remove id
  | .hold id => s.hold id
  | .setStatus st deleted =>
    match s.report with
    | none => none
    | some r =>
      if r.deleted || st = .held then none else some { s with report := some { r with status := st, deleted := deleted } }

def machine : Machine Shared Unit Await Outcome Event := ⟨fun s _ => some (s, .findReport), access, environment⟩

/-! ## Condition on the moves -/

/-- The last check of a release, which has found the report held and its media ready. -/
def Await.recounting : Await → Option (List MediaId)
  | .recountFlags ids => some ids
  | _ => none

/-- A release that gets to its last check finds an open flag when the report is on hold, and no hold
falls between that check and the statement that publishes. -/
def Checked (w : World) (m : Move) : Prop :=
  match m with
  | .access i _ => ∀ c ∈ w.call i, ∀ ids ∈ c.await.recounting, w.shared.OnHold → 0 < w.shared.countOpenFlags ids
  | .environment (.hold _) => ∀ y ∈ w.calls, ∀ c ∈ y, c.await ≠ .publish
  | _ => True

instance (w : World) (m : Move) : Decidable (Checked w m) :=
  match m with
  | .access i _ => inferInstanceAs (Decidable (∀ c ∈ w.call i, ∀ ids ∈ c.await.recounting,
      w.shared.OnHold → 0 < w.shared.countOpenFlags ids))
  | .environment (.hold _) => inferInstanceAs (Decidable (∀ y ∈ w.calls, ∀ c ∈ y, c.await ≠ .publish))
  | .start _ | .crash _ | .environment (.createReport _) | .environment .createItem | .environment (.mediaStatus _ _)
  | .environment (.raiseFlag _) | .environment (.resolveFlag _) | .environment (.approve _) | .environment (.remove _)
  | .environment (.setStatus _ _) => isTrue trivial

variable {s s' : Shared} {w w' : World}

/-! ## Items on hold -/

theorem onHold_setItems {p : Item → Bool} {st : ItemStatus} (hp : ∀ m, p m = true → m.status = .opened) (h : s.OnHold) :
    (s.setItems p st).OnHold := by
  obtain ⟨m, hm, hheld⟩ := h
  refine ⟨m, List.mem_map.mpr ⟨m, hm, if_neg ?_⟩, hheld⟩
  intro hpm
  have hopen := hp m hpm
  rw [hheld] at hopen
  cases hopen

theorem onHold_of_setItems {p : Item → Bool} {st : ItemStatus} (hst : st ≠ .held) (h : (s.setItems p st).OnHold) :
    s.OnHold := by
  obtain ⟨m, hm, hheld⟩ := h
  obtain ⟨x, hx, rfl⟩ := List.mem_map.mp hm
  split at hheld
  · exact absurd hheld hst
  · exact ⟨x, hx, hheld⟩

theorem resolveItem_eq {id : ItemId} {st : ItemStatus} (h : s.resolveItem id st = some s') :
    s' = s.setItems (fun m => decide (m.id = id ∧ m.status = .opened)) st := by
  unfold Shared.resolveItem at h
  split at h
  · exact (Option.some.inj h).symm
  · cases h

theorem onHold_append {m : Item} (hm : m.status = .opened) (r : Option Report) (media : List Media)
    (flags : List Flag) :
    Shared.OnHold ⟨r, s.items ++ [m], media, flags⟩ ↔ s.OnHold := by
  constructor
  · rintro ⟨x, hx, hheld⟩
    rcases List.mem_append.mp hx with hx | hx
    · exact ⟨x, hx, hheld⟩
    · obtain rfl := List.mem_singleton.mp hx
      rw [hm] at hheld
      cases hheld
  · rintro ⟨x, hx, hheld⟩
    exact ⟨x, List.mem_append_left _ hx, hheld⟩

/-- An item on hold stays on hold, and only a hold puts one there. -/
theorem onHold_of_environment {e : Event} (he : environment s e = some s') :
    (s.OnHold → s'.OnHold) ∧ ((∀ id, e ≠ .hold id) → s'.OnHold → s.OnHold) := by
  have hopen : ∀ (id : ItemId) (m : Item), decide (m.id = id ∧ m.status = .opened) = true → m.status = .opened :=
    fun id m hm => (of_decide_eq_true hm).2
  cases e with
  | createReport media =>
    simp only [environment] at he
    split at he
    · cases he
      exact ⟨(onHold_append rfl _ _ _).mpr, fun _ => (onHold_append rfl _ _ _).mp⟩
    · cases he
  | createItem =>
    cases he
    exact ⟨(onHold_append rfl _ _ _).mpr, fun _ => (onHold_append rfl _ _ _).mp⟩
  | mediaStatus id st | raiseFlag f | resolveFlag f =>
    cases he
    exact ⟨fun h => h, fun _ h => h⟩
  | approve id =>
    obtain ⟨t, ht, rfl⟩ := Option.map_eq_some_iff.mp he
    obtain rfl := resolveItem_eq ht
    have hsame : ∀ u : Shared, u.OnHold ↔
        (match u.heldReport with | none => u | some r => { u with report := some { r with status := .published } }).OnHold := by
      intro u
      split <;> exact Iff.rfl
    rw [← hsame]
    exact ⟨onHold_setItems (hopen id), fun _ => onHold_of_setItems (by decide)⟩
  | remove id =>
    obtain ⟨t, ht, rfl⟩ := Option.map_eq_some_iff.mp he
    obtain rfl := resolveItem_eq ht
    exact ⟨onHold_setItems (hopen id), fun _ => onHold_of_setItems (by decide)⟩
  | hold id =>
    obtain rfl := resolveItem_eq he
    exact ⟨onHold_setItems (hopen id), fun hne => absurd rfl (hne id)⟩
  | setStatus st deleted =>
    simp only [environment] at he
    split at he
    · cases he
    split at he
    · cases he
    · cases he
      exact ⟨fun h => h, fun _ h => h⟩

/-- A release changes the state only by its last statement. -/
theorem access_cases {p : Await} {n : Next} (hmem : (s', n) ∈ access s p) :
    s' = s ∧ (n = .await .publish → ∃ ids, p = .recountFlags ids ∧ s.countOpenFlags ids = 0) ∨
    p = .publish ∧ n = .done .published ∧ (s.OnHold ↔ s'.OnHold) := by
  cases p with
  | publish =>
    simp only [access, List.mem_cons, Prod.mk.injEq, List.not_mem_nil, or_false] at hmem
    rcases hmem with ⟨rfl, rfl⟩ | ⟨rfl, rfl⟩
    · refine .inr ⟨rfl, rfl, ?_⟩
      have hsame : (match s.heldReport with | none => s | some r => { s with report := some { r with status := .published } } :
          Shared).OnHold ↔ s.OnHold := by
        split <;> exact Iff.rfl
      exact ⟨fun h => onHold_setItems (fun m hm => of_decide_eq_true hm) (hsame.mpr h),
        fun h => hsame.mp (onHold_of_setItems (by decide) h)⟩
    · exact .inl ⟨rfl, by simp⟩
  | recountFlags ids =>
    simp only [access, List.mem_cons, Prod.mk.injEq, List.not_mem_nil, or_false] at hmem
    rcases hmem with ⟨rfl, rfl⟩ | ⟨rfl, rfl⟩
    · refine .inl ⟨rfl, fun hn => ⟨ids, rfl, ?_⟩⟩
      split at hn
      · cases hn
      · omega
    · exact .inl ⟨rfl, by simp⟩
  | findReport =>
    simp only [access] at hmem
    split at hmem <;> simp only [List.mem_cons, Prod.mk.injEq, List.not_mem_nil, or_false] at hmem
    all_goals
      rcases hmem with ⟨rfl, rfl⟩ | ⟨rfl, rfl⟩
      · exact .inl ⟨rfl, by grind⟩
      · exact .inl ⟨rfl, by simp⟩
  | findMedia | countFlags ids | lockReport ids | countNotReady ids =>
    simp only [access, List.mem_cons, Prod.mk.injEq, List.not_mem_nil, or_false] at hmem
    rcases hmem with ⟨rfl, rfl⟩ | ⟨rfl, rfl⟩
    · exact .inl ⟨rfl, by grind⟩
    · exact .inl ⟨rfl, by simp⟩

/-! ## A hold stands -/

/-- What is true while a release awaits: the report is not on hold when it is about to be published. -/
def Unheld (s : Shared) (_ : ℕ) (c : Call) : Prop := c.await = .publish → ¬ s.OnHold

theorem onHold_of_step {m : Move} {r : Option Outcome} (hs : machine.step w m = some (w', r)) (h : w.shared.OnHold) :
    w'.shared.OnHold := by
  rcases Machine.shared_cases hs with ⟨o, p, -, he⟩ | ⟨i, k, c, n, -, -, hmem⟩ | ⟨i, -, he⟩ | ⟨e, -, he, -⟩
  · obtain ⟨he, -⟩ := Prod.mk.inj (Option.some.inj he)
    exact he ▸ h
  · rcases access_cases hmem with ⟨he, -⟩ | ⟨-, -, hiff⟩
    · exact he ▸ h
    · exact hiff.mp h
  · exact he ▸ h
  · exact (onHold_of_environment he).1 h

theorem unheld_step {m : Move} {r : Option Outcome} (h : Machine.Holds (fun _ => True) Unheld w) (hok : Checked w m)
    (hs : machine.step w m = some (w', r)) : Machine.Holds (fun _ => True) Unheld w' := by
  refine h.step hs ?_ ?_ ?_
  · intro o t p _ he
    cases he
    exact ⟨trivial, fun hp => (by cases hp), fun i c hc => h.calls i c hc⟩
  · rintro i k c t n rfl hc hmem
    rcases access_cases hmem with ⟨rfl, hnext⟩ | ⟨-, hn, hiff⟩
    · refine ⟨trivial, fun p hp hpub hheld => ?_, fun j d _ hd => h.calls j d hd⟩
      obtain rfl : p = .publish := hpub
      obtain ⟨ids, hids, hnone⟩ := hnext hp
      have hflag := hok c hc ids (by rw [hids]; rfl) hheld
      omega
    · refine ⟨trivial, fun p hp => ?_, fun j d _ hd hpub => ?_⟩
      · rw [hn] at hp
        cases hp
      · rw [← hiff]
        exact h.calls j d hd hpub
  · rintro e t rfl he
    refine ⟨trivial, fun i c hc hpub hheld => ?_⟩
    have hback := (onHold_of_environment he).2
    cases e with
    | hold id => exact hok (some c) (List.mem_of_getElem? (World.call_eq_some.mp hc)) c rfl hpub
    | createReport _ | createItem | mediaStatus _ _ | raiseFlag _ | resolveFlag _ | approve _ | remove _ | setStatus _ _ =>
      exact h.calls i c hc hpub (hback (by simp) hheld)

/-- In every run in which a release that gets to its last check on a report on hold finds an open flag,
and no hold falls between that check and the publication, an item on hold stays on hold and no release
publishes its report. -/
theorem hold_stands (s : Shared) (w w' : World) (h : Machine.Run machine Checked (World.initial s) w)
    (h' : Machine.Run machine Checked w w') (hheld : w.shared.OnHold) :
    w'.shared.OnHold ∧ ∀ i k v r, machine.step w' (.access i k) = some (v, r) → v.shared.report = w'.shared.report := by
  have hlater : w'.shared.OnHold :=
    h'.invariant (P := fun v => v.shared.OnHold) hheld (fun hv _ hs => onHold_of_step hs hv)
  have hunheld : Machine.Holds (fun _ => True) Unheld w' :=
    (h.trans h').invariant (P := Machine.Holds (fun _ => True) Unheld) ⟨trivial, fun i c hc => by simp at hc⟩
      (fun hv hok hs => unheld_step hv hok hs)
  refine ⟨hlater, fun i k v r hs => ?_⟩
  obtain ⟨c, n, hc, hn, -⟩ := Machine.outcome_of_access hs
  rcases access_cases (List.mem_of_getElem? hn) with ⟨he, -⟩ | ⟨hp, -, -⟩
  · rw [he]
  · exact absurd hlater (hunheld.calls i c hc hp)

/-! ## A report whose media become ready -/

/-- A report with one medium, which is still being checked. -/
def unreported : Shared := ⟨none, [], [], []⟩

def created : List Move := [.environment (.createReport [⟨0, .validating⟩])]

def release (i : ℕ) : List Move := .start () :: List.replicate 7 (.access i 0)

/-- An operator holds the report, its medium becomes ready, and a release finds the flag that is open on it. -/
theorem flagged_hold_stands : ∃ w w' : World, w.shared.OnHold ∧ w'.shared.media = [⟨0, .ready⟩] ∧ w'.shared.OnHold ∧
    ∀ i k v r, machine.step w' (.access i k) = some (v, r) → v.shared.report = w'.shared.report := by
  have hruns : (machine.perform (World.initial unreported) (created ++ [.environment (.raiseFlag .report),
      .environment (.hold 0)])).any (fun w => decide w.shared.OnHold &&
        decide (Machine.Allowed machine Checked w (.environment (.mediaStatus 0 .ready) :: (release 0).take 4)) &&
        (machine.perform w (.environment (.mediaStatus 0 .ready) :: (release 0).take 4)).any
          (fun w' => decide (w'.shared.media = [⟨0, .ready⟩]))) = true := by decide +kernel
  obtain ⟨w, hw, hP⟩ := (Option.any_eq_true _ _).mp hruns
  obtain ⟨hP, hlater⟩ := (Bool.and_eq_true _ _).mp hP
  obtain ⟨hheld, hok⟩ := (Bool.and_eq_true _ _).mp hP
  obtain ⟨w', hw', hready⟩ := (Option.any_eq_true _ _).mp hlater
  have hrun : Machine.Run machine Checked (World.initial unreported) w := Machine.run_of_perform (by decide +kernel) hw
  have hrun' : Machine.Run machine Checked w w' :=
    Machine.run_of_perform (of_decide_eq_true hok) hw'
  exact ⟨w, w', of_decide_eq_true hheld, of_decide_eq_true hready,
    hold_stands unreported w w' hrun hrun' (of_decide_eq_true hheld)⟩

/-- The medium of a report on hold becomes ready, and the release publishes the report. -/
theorem held_report_is_published :
    ¬ ∀ (s : Shared) (w w' : World), Machine.Run machine (fun _ _ => True) (World.initial s) w →
      Machine.Run machine (fun _ _ => True) w w' → w.shared.OnHold →
      ∀ i k v r, machine.step w' (.access i k) = some (v, r) → v.shared.report = w'.shared.report := by
  intro hall
  have hruns : (machine.perform (World.initial unreported) (created ++ [.environment (.hold 0)])).any (fun w =>
      decide w.shared.OnHold && (machine.perform w (.environment (.mediaStatus 0 .ready) ::
        (release 0).take 7)).any (fun w' =>
        (machine.step w' (.access 0 0)).any (fun x => decide (x.1.shared.report ≠ w'.shared.report)))) =
          true := by decide +kernel
  obtain ⟨w, hw, hP⟩ := (Option.any_eq_true _ _).mp hruns
  obtain ⟨hheld, hlater⟩ := (Bool.and_eq_true _ _).mp hP
  obtain ⟨w', hw', hP'⟩ := (Option.any_eq_true _ _).mp hlater
  obtain ⟨⟨v, r⟩, hs, hne⟩ := (Option.any_eq_true _ _).mp hP'
  exact of_decide_eq_true hne (hall unreported w w' (Machine.free_of_perform hw) (Machine.free_of_perform hw')
    (of_decide_eq_true hheld) 0 0 v r hs)

end Civfix.HoldReleases
