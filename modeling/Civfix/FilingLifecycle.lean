import Civfix.FilingSteps

/-! # The life of a filing

A filing is never removed and keeps its report. Every guarded write is one of an active filing; a filing that is not
active comes back by the question of a city alone, which looks for an active filing of the report first. So of all
writes only the INSERT of a filing can meet the index on active filings. -/
namespace Civfix.Filings

open KeyedTables InterleavedCalls

variable {cfg : Config} {s s' : Shared} {w w' : World}

/-- Where one step may take a filing of this status. -/
def Status.leads : Status → List Status
  | .queued => [.queued, .running, .needsHuman, .submitted, .cancelled]
  | .running => [.running, .queued, .needsHuman, .submitted, .linkedExisting, .cancelled]
  | .needsHuman => [.needsHuman, .queued, .submitted, .cancelled]
  | .submitted => [.submitted, .needsHuman]
  | .linkedExisting => [.linkedExisting, .needsHuman]
  | .cancelled => [.cancelled]

theorem mem_leads {st st' : Status} (h : st.leads.elem st' = true) : st' ∈ st.leads := List.elem_iff.mp h

theorem Status.mem_leads_self (st : Status) : st ∈ st.leads := by cases st <;> exact List.mem_cons_self

/-- The filing of a report is the only active one. -/
def OneActive (s : Shared) : Prop :=
  ∀ id id' x y, s.filings.find? id = some x → s.filings.find? id' = some y → x.reportId = y.reportId →
    x.status.active = true → y.status.active = true → id = id'

/-- The guards of the writes, and where they lead. -/
theorem update_leads {p : Await} {id : FilingId} {g : Guard} {set : FilingSet} (h : p.update cfg = some (id, g, set))
    (hp : p.Read) {st : Status} (hst : st ∈ g.status) : st.active = true ∧ set.status.getD st ∈ st.leads := by
  cases p with
  | retryWrite a =>
    cases h
    cases List.mem_singleton.mp hst
    refine ⟨rfl, ?_⟩
    change (initialState cfg (resolveFilingRoute cfg a.routing)).1 ∈ Status.needsHuman.leads
    rcases initialState_status cfg (resolveFilingRoute cfg a.routing) with hinit | hinit
    · rw [hinit]
      decide
    · rw [hinit]
      decide
  | resultWrite p x =>
    cases h
    cases List.mem_singleton.mp hst
    cases x with
    | needsHuman _ _ | requeue _ _ _ | cancelled => exact ⟨rfl, mem_leads rfl⟩
  | settle t x =>
    cases h
    cases List.mem_singleton.mp hst
    cases x with
    | thread _ | noRoute | uncertain _ | failed _ | requeued => exact ⟨rfl, mem_leads rfl⟩
  | cancelWrite _ | rejectWrite _ _ =>
    cases h
    rcases List.mem_cons.mp hst with rfl | hst
    · exact ⟨rfl, mem_leads rfl⟩
    · cases List.mem_singleton.mp hst
      exact ⟨rfl, mem_leads rfl⟩
  | retryOff _ | manualReturn _ | emailCancel _ _ | sweepWrite _ _ _ =>
    cases h
    cases List.mem_singleton.mp hst
    exact ⟨rfl, mem_leads rfl⟩
  | applyWrite x note =>
    cases h
    cases x with
    | manual a status =>
      cases List.mem_singleton.mp hst
      rcases hp with rfl | rfl
      · exact ⟨rfl, mem_leads rfl⟩
      · exact ⟨rfl, mem_leads rfl⟩
    | result p f =>
      cases List.mem_singleton.mp hst
      refine ⟨rfl, ?_⟩
      simp only [Success.input, SuccessInput.set, Option.getD_some]
      split <;> decide
    | email _ _ | late _ _ =>
      cases List.mem_singleton.mp hst
      exact ⟨rfl, mem_leads rfl⟩
  | _ => cases h

/-- What one step does to the filings. -/
inductive Moved (s s' : Shared) : Prop where
  | same (h : s'.filings = s.filings)
  | changed {id : FilingId} {x y : Filing} (hx : s.filings.find? id = some x)
    (hfind : ∀ k, s'.filings.find? k = if k = id then some y else s.filings.find? k) (hreport : y.reportId = x.reportId)
    (hleads : y.status ∈ x.status.leads) (hactive : x.status.active = true ∨ y.status.active = false ∨
      s.getActiveForReport x.reportId = none)
  | inserted {f : Filing} (hnone : s.filings.find? f.id = none)
    (hfind : ∀ k, s'.filings.find? k = if k = f.id then some f else s.filings.find? k)
    (hactive : f.status.active = true → s.getActiveForReport f.reportId = none)

theorem find?_modify_some {id : FilingId} {x : Filing} (hx : s.filings.find? id = some x) (f : Filing → Filing)
    (hf : ∀ x, (f x).id = x.id) (k : FilingId) :
    (s.filings.modify id f hf).find? k = if k = id then some (f x) else s.filings.find? k := by
  rw [Table.find?_modify]
  split
  · next hk => rw [hk, hx, Option.map_some]
  · rfl

theorem moved_of_insertFiling {f : Filing} (h : s.insertFiling f = some s') : Moved s s' := by
  refine .inserted (insertFiling_eq h).1 (find?_insertFiling h) fun hactive => ?_
  unfold Shared.insertFiling at h
  split at h
  · cases h
  · next hfree =>
    rw [not_or, not_and] at hfree
    exact Option.not_isSome_iff_eq_none.mp (hfree.2 hactive)

theorem moved_of_claim {id : FilingId} {attempt : ℕ} {run : RunId} (h : s.claim id attempt = some (s', run)) :
    Moved s s' := by
  obtain ⟨x, hx, hqueued, -, -, rfl⟩ := claim_eq h
  let claimed (f : Filing) : Filing :=
    { f with status := .running, attempts := attempt, runId := some s.nextRun, updatedAt := s.now }
  refine .changed hx (find?_modify_some hx claimed (fun _ => rfl)) rfl ?_ (.inl ?_)
  · rw [hqueued]
    exact mem_leads rfl
  · rw [hqueued]
    rfl

theorem moved_of_wrote {p : Await} (h : Wrote cfg s p s') (hp : p.Read) : Moved s s' := by
  cases h with
  | none => exact .same rfl
  | @update id g set x _ hu hx hg hf =>
    obtain ⟨hactive, hleads⟩ := update_leads hu hp (Guard.admits_iff.mp hg).1
    refine .changed hx (fun k => ?_) (set.apply_reportId s.now x) hleads (.inl hactive)
    rw [hf]
    exact find?_modify_some hx (set.apply s.now) (set.apply_id s.now) k
  | insert _ hi => exact moved_of_insertFiling hi
  | claim _ hc => exact moved_of_claim hc

/-- The row that an update of the city rewrites. -/
theorem moved_of_writeRow {f : Filing} (g : Filing → Filing) (hg : ∀ x, (g x).id = x.id)
    (hf : s.filings.find? f.id = some f) (h : s'.filings = s.filings.modify f.id g hg)
    (hreport : (g f).reportId = f.reportId) (hleads : (g f).status ∈ f.status.leads)
    (hactive : f.status.active = true ∨ (g f).status.active = false ∨ s.getActiveForReport f.reportId = none) :
    Moved s s' :=
  .changed hf (fun k => h ▸ find?_modify_some hf g hg k) hreport hleads hactive

/-- The status stays as it is. -/
theorem moved_of_kept {f : Filing} (g : Filing → Filing) (hg : ∀ x, (g x).id = x.id)
    (hf : s.filings.find? f.id = some f) (h : s'.filings = s.filings.modify f.id g hg)
    (hreport : (g f).reportId = f.reportId) (hstatus : (g f).status = f.status) : Moved s s' := by
  refine moved_of_writeRow g hg hf h hreport (hstatus ▸ f.status.mem_leads_self) ?_
  rw [hstatus]
  cases f.status.active with
  | true => exact .inl rfl
  | false => exact .inr (.inl rfl)

theorem moved_of_effect {f : Filing} {e : CityUpdateEffect} (hf : s.filings.find? f.id = some f)
    (h : s.applyEffectIn f e = some s') : Moved s s' := by
  cases e with
  | none | flag => cases h
  | caseId caseId note =>
    simp only [Shared.applyEffectIn] at h
    split at h
    · cases h
    · cases h
      exact moved_of_kept (fun x => x.received s.now caseId) (fun _ => rfl) hf rfl rfl rfl
  | reportStatus sources target note kind cityClosed =>
    simp only [Shared.applyEffectIn] at h
    split at h
    · cases h
      split
      · exact moved_of_kept (fun x => x.closedByCity s.now) (fun _ => rfl) hf rfl rfl rfl
      · exact .same rfl
    · cases h
  | needsInfo detail =>
    simp only [Shared.applyEffectIn] at h
    split at h
    · next hguard =>
      cases h
      refine moved_of_writeRow (fun x => x.askedByCity s.now detail) (fun _ => rfl) hf rfl rfl ?_
        (.inr (.inr (Option.isNone_iff_eq_none.mp hguard.2)))
      change Status.needsHuman ∈ f.status.leads
      revert hguard
      cases f.status <;> simp [Status.successful, Status.leads]
    · cases h

theorem moved_of_cityUpdate {pattern : String → Bool} {names : Geoid → Option String} {id : MessageId}
    {c : Option Classification} (h : s.applyCityUpdate pattern names id c = some s') : Moved s s' := by
  obtain ⟨m, -, h⟩ := Option.bind_eq_some_iff.mp h
  obtain ⟨f, hf, rfl⟩ := Option.map_eq_some_iff.mp h
  rw [← (Table.key_of_find? hf : f.id = m.filingId)] at hf
  simp only
  split
  · next applied heff =>
    have hmoved := fun hf => moved_of_effect hf heff
    cases hmoved hf with
    | same h => exact .same h
    | changed hx hfind hreport hleads hactive => exact .changed hx hfind hreport hleads hactive
    | inserted hnone hfind hactive => exact .inserted hnone hfind hactive
  · split <;> exact .same rfl

theorem moved_of_environment {e : Event} (h : environment cfg s e = some s') : Moved s s' := by
  cases e with
  | tick _ | report _ | thread _ | pause _ | message _ =>
    cases h
    exact .same rfl
  | cityUpdate id c => exact moved_of_cityUpdate h
  | routed n thread =>
    obtain ⟨inserted, hi, rfl⟩ := Option.map_eq_some_iff.mp h
    have hfilings := (applyReportSuccess_cases (s := inserted) n.id n.reportId
      (filingNote .submitted (n.geoid.bind cfg.jurisdictionName) none) n.createdBy).1
    refine .inserted (insertFiling_eq hi).1 (fun k => ?_) nofun
    rw [hfilings]
    exact find?_insertFiling hi k
  | reopened r id =>
    simp only [environment, Shared.insertReopenFiling] at h
    split at h
    · cases h
    · split at h
      · cases h
      · exact moved_of_insertFiling h
  | claim id attempt =>
    obtain ⟨⟨s₁, run⟩, hc, rfl⟩ := Option.map_eq_some_iff.mp h
    exact moved_of_claim hc

theorem moved_of_step {m : Move} {r : Option Result} (hw : Reads w) (hs : cfg.machine.step w m = some (w', r)) :
    Moved w.shared w'.shared := by
  rcases Machine.shared_cases hs with ⟨o, p, -, he⟩ | ⟨i, k, c, x, -, hc, hmem⟩ | ⟨i, -, heq⟩ | ⟨e, -, he, -⟩
  · exact .same (congrArg Shared.filings (request_enter he).1)
  · exact moved_of_wrote (access_cases hmem) (hw i c hc)
  · exact .same (congrArg Shared.filings heq)
  · exact moved_of_environment he

theorem inactive_of_none {r : ReportId} (h : s.getActiveForReport r = none) {id : FilingId} {x : Filing}
    (hx : s.filings.find? id = some x) (hr : x.reportId = r) : x.status.active = false := by
  have hnot := List.find?_eq_none.mp h x (Table.find?_eq_some hx).1
  simpa [hr] using hnot

theorem Moved.oneActive (hm : Moved s s') (h : OneActive s) : OneActive s' := by
  -- No other filing of the report of the written one is active beside it.
  have hone : ∀ {id : FilingId} {y : Filing}, (∀ k, s'.filings.find? k = if k = id then some y else s.filings.find? k) →
      (∀ k x, k ≠ id → s.filings.find? k = some x → x.reportId = y.reportId → y.status.active = true →
        x.status.active = false) → OneActive s' := by
    intro id y hfind hother k k' a b ha hb hreport hactive hactive'
    rw [hfind] at ha hb
    split at ha
    · next hk =>
      cases ha
      split at hb
      · next hk' => exact hk.trans hk'.symm
      · next hk' => exact absurd hactive' (by rw [hother k' b hk' hb hreport.symm hactive]; decide)
    · next hk =>
      split at hb
      · cases hb
        exact absurd hactive (by rw [hother k a hk ha hreport hactive']; decide)
      · exact h k k' a b ha hb hreport hactive hactive'
  cases hm with
  | same heq =>
    unfold OneActive
    rw [heq]
    exact h
  | @changed id x y hx hfind hreport hleads hactive =>
    refine hone hfind fun k a hk ha hsame hyactive => ?_
    rcases hactive with hxactive | hy | hnone
    · refine Bool.eq_false_iff.mpr fun haactive => ?_
      exact hk (h k id a x ha hx (hsame.trans hreport) haactive hxactive)
    · exact absurd hyactive (by rw [hy]; decide)
    · exact inactive_of_none hnone ha (hsame.trans hreport)
  | inserted hnone hfind hactive =>
    exact hone hfind fun k a hk ha hsame hfactive => inactive_of_none (hactive hfactive) ha hsame

/-- Every filing is still there, of the same report. -/
theorem Moved.keeps (hm : Moved s s') {id : FilingId} {x : Filing} (hx : s.filings.find? id = some x) :
    ∃ y, s'.filings.find? id = some y ∧ y.reportId = x.reportId ∧ y.status ∈ x.status.leads := by
  cases hm with
  | same heq => exact ⟨x, heq ▸ hx, rfl, x.status.mem_leads_self⟩
  | @changed k z y hz hfind hreport hleads hactive =>
    by_cases hk : id = k
    · subst hk
      cases hx.symm.trans hz
      exact ⟨y, (hfind id).trans (if_pos rfl), hreport, hleads⟩
    · exact ⟨x, (hfind id).trans ((if_neg hk).trans hx), rfl, x.status.mem_leads_self⟩
  | @inserted f hnone hfind hactive =>
    have hk : id ≠ f.id := by
      rintro rfl
      cases hnone.symm.trans hx
    exact ⟨x, (hfind id).trans ((if_neg hk).trans hx), rfl, x.status.mem_leads_self⟩

theorem oneActive_of_run {ok : World → Move → Prop} (h : Machine.Run cfg.machine ok (.initial .empty) w) :
    OneActive w.shared := by
  induction h with
  | refl => exact fun id _ x _ hx => by cases hx
  | tail hrun _ _ hs ih => exact (moved_of_step (reads_of_run hrun) hs).oneActive ih

/-- In every state of every run the active filing that is found for a report is the only one. -/
theorem active_filing_is_unique {ok : World → Move → Prop} (h : Machine.Run cfg.machine ok (.initial .empty) w)
    {id : FilingId} {x : Filing} (hx : w.shared.filings.find? id = some x) (hactive : x.status.active = true) :
    w.shared.getActiveForReport x.reportId = some x := by
  cases hfound : w.shared.getActiveForReport x.reportId with
  | none =>
    have hnot := inactive_of_none hfound hx rfl
    rw [hactive] at hnot
    cases hnot
  | some y =>
    have hy : w.shared.filings.find? y.id = some y := Table.mem_rows_iff.mp (List.mem_of_find?_eq_some hfound)
    have hboth := List.find?_some hfound
    simp only [Bool.and_eq_true, decide_eq_true_eq] at hboth
    have hid := oneActive_of_run h id y.id x y hx hy hboth.1.symm hactive hboth.2
    rw [← hid, hx] at hy
    exact hy.symm

/-- In every run a filing keeps its report, one step takes its status only where `leads` says, and it is there ever
after; a cancelled one stays cancelled. -/
theorem filings_follow_their_lifecycle {ok : World → Move → Prop}
    (h : Machine.Run cfg.machine ok (.initial .empty) w) :
    (∀ m w' r, cfg.machine.step w m = some (w', r) → ∀ id x, w.shared.filings.find? id = some x →
      ∃ y, w'.shared.filings.find? id = some y ∧ y.reportId = x.reportId ∧ y.status ∈ x.status.leads) ∧
    ∀ w', Machine.Run cfg.machine ok w w' → ∀ id x, w.shared.filings.find? id = some x →
      ∃ y, w'.shared.filings.find? id = some y ∧ y.reportId = x.reportId ∧
        (x.status = .cancelled → y.status = .cancelled) := by
  refine ⟨fun m w' r hs id x hx => (moved_of_step (reads_of_run h) hs).keeps hx, fun w' h' id x hx => ?_⟩
  induction h' with
  | refl => exact ⟨x, hx, rfl, fun hcancelled => hcancelled⟩
  | tail hrun _ _ hs ih =>
    obtain ⟨y, hy, hreport, hcancelled⟩ := ih
    obtain ⟨z, hz, hreport', hleads⟩ := (moved_of_step (reads_of_run (h.trans hrun)) hs).keeps hy
    refine ⟨z, hz, hreport'.trans hreport, fun hx => ?_⟩
    rw [hcancelled hx] at hleads
    exact List.mem_singleton.mp hleads

/-- A filing of a report in a city with a portal, which is cancelled before it runs, and the next one, which runs. -/
def cancelledAndFiledAgain : List Move :=
  filed portalRouting ++ [.start (.cancel 1), .access 1 0, .access 1 0,
    .start (.create ⟨2, 1, portalRouting, "A pothole", none, none⟩), .access 2 0, .access 2 0, .access 2 0, .access 2 0,
    .environment (.claim 2 1)]

theorem second_filing_is_the_active_one : ∃ (w : World) (x : Filing), w.shared.filings.find? 2 = some x ∧
    x.status = .running ∧ x.reportId = 1 ∧ w.shared.getActiveForReport x.reportId = some x := by
  have hruns : (filingOn.machine.perform (.initial .empty) cancelledAndFiledAgain).any
      (fun w => (w.shared.filings.find? 2).any (fun x => decide (x.status = .running ∧ x.reportId = 1))) = true := by
    decide +kernel
  obtain ⟨w, hw, hP⟩ := (Option.any_eq_true _ _).mp hruns
  obtain ⟨x, hx, hstate⟩ := (Option.any_eq_true _ _).mp hP
  obtain ⟨hrunning, hreport⟩ := of_decide_eq_true hstate
  exact ⟨w, x, hx, hrunning, hreport,
    active_filing_is_unique (Machine.free_of_perform hw) hx (by rw [hrunning]; rfl)⟩

theorem cancelled_filing_stays_cancelled : ∃ (w : World) (x : Filing), w.shared.filings.find? 1 = some x ∧
    x.status = .cancelled ∧ ∀ w', Machine.Run filingOn.machine (fun _ _ => True) w w' →
      ∃ y, w'.shared.filings.find? 1 = some y ∧ y.reportId = x.reportId ∧ y.status = .cancelled := by
  have hruns : (filingOn.machine.perform (.initial .empty) cancelledAndFiledAgain).any
      (fun w => (w.shared.filings.find? 1).any (fun x => decide (x.status = .cancelled))) = true := by decide +kernel
  obtain ⟨w, hw, hP⟩ := (Option.any_eq_true _ _).mp hruns
  obtain ⟨x, hx, hstate⟩ := (Option.any_eq_true _ _).mp hP
  refine ⟨w, x, hx, of_decide_eq_true hstate, fun w' h' => ?_⟩
  obtain ⟨y, hy, hreport, hcancelled⟩ :=
    (filings_follow_their_lifecycle (Machine.free_of_perform hw)).2 w' h' 1 x hx
  exact ⟨y, hy, hreport, hcancelled (of_decide_eq_true hstate)⟩

end Civfix.Filings
