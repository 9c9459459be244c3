import Mathlib.Data.List.ReduceOption
import Civfix.FilingSteps

/-! # Operators and the city's questions

An operator's action reads the filing and then writes it under a guard on its status alone. A
filing that the operator read in `needs_human` can succeed late and come back to `needs_human`
with the city's question before the write. As long as no question comes while such an action
is between its read and its write, the check that was made on the read still holds. -/
namespace Civfix.Filings

open KeyedTables InterleavedCalls

variable {cfg : Config} {s s' : Shared} {w w' : World} {m : Move} {r : Option Result}

/-- A filing that `recordManual` read in the queue is written only from there, where no filing
waits for the city. -/
def Success.pendingOn : Success → Option FilingId
  | .manual a .needsHuman => some a.id
  | _ => none

/-- The filing an operator's action has read and is about to write. -/
def Await.pendingOn : Await → Option FilingId
  | .retryReport a _ | .retryWrite a => some a.id
  | .cancelWrite id => some id
  | .applyLoad x | .applyWrite x _ => x.pendingOn
  | _ => none

/-- The city asked about the filing, and nothing has given it another reason since. -/
def Shared.Asked (s : Shared) (id : FilingId) : Prop := ∃ x ∈ s.filings.find? id, x.reason = some .cityNeedsInfo

instance (s : Shared) (id : FilingId) : Decidable (s.Asked id) :=
  inferInstanceAs (Decidable (∃ x ∈ s.filings.find? id, _))

/-- No city update asks about a filing that an operator's action is about to write. -/
def Undisturbed (cfg : Config) (w : World) : Move → Prop
  | .environment e =>
    ∀ s' ∈ environment cfg w.shared e, ∀ c ∈ w.calls.reduceOption, ∀ id ∈ c.await.pendingOn, ¬ s'.Asked id
  | _ => True

instance (cfg : Config) (w : World) (m : Move) : Decidable (Undisturbed cfg w m) :=
  match m with
  | .environment e => inferInstanceAs (Decidable (∀ s' ∈ environment cfg w.shared e, ∀ c ∈ w.calls.reduceOption,
      ∀ id ∈ c.await.pendingOn, _))
  | .start _ | .access _ _ | .crash _ => inferInstanceAs (Decidable True)

/-! ## Who asks -/

theorem asked_of_wrote {p : Await} {id : FilingId} (h : Wrote cfg s p s') (ha : s'.Asked id) : s.Asked id := by
  obtain ⟨y, hy, hreason⟩ := ha
  cases h with
  | none => exact ⟨y, hy, hreason⟩
  | update hu hx hg hf hr ht =>
    rcases find?_update hf hy with ⟨-, x, hx, rfl⟩ | ⟨-, hold⟩
    · refine ⟨x, hx, ?_⟩
      have hset := update_reason hu
      rw [FilingSet.apply_reason] at hreason
      generalize FilingSet.reason _ = reason at hset hreason
      cases reason with
      | none => exact hreason
      | some reason => exact absurd (congrArg some hreason) hset
    · exact ⟨y, hold, hreason⟩
  | @insert a _ hp hi =>
    rw [Option.mem_def, find?_insertFiling hi] at hy
    split at hy
    · cases hy
      exact absurd hreason (initialState_reason a.routing)
    · exact ⟨y, hy, hreason⟩
  | claim hp hc =>
    obtain ⟨z, -, -, -, -, rfl⟩ := claim_eq hc
    rw [Option.mem_def, Table.find?_modify] at hy
    split at hy
    · obtain ⟨x, hx, rfl⟩ := Option.map_eq_some_iff.mp hy
      exact ⟨x, hx, hreason⟩
    · exact ⟨y, hy, hreason⟩

/-- The operator's own requests. -/
def Request.ofOperator : Request → Bool
  | .retry _ | .cancel _ | .recordManual _ => true
  | _ => false

theorem pendingOn_request {q : Await} {id : FilingId} (h : q.pendingOn = some id) : q.request.ofOperator = true := by
  cases q with
  | retryReport _ _ | retryWrite _ | cancelWrite _ => rfl
  | applyLoad x | applyWrite x _ =>
    cases x with
    | manual _ _ => rfl
    | _ => cases h
  | _ => cases h

theorem pendingOn_manual {a : Manual} {status : Status} {id : FilingId}
    (h : (Success.manual a status).pendingOn = some id) :
    a.id = id ∧ status = .needsHuman := by
  cases status with
  | needsHuman => exact ⟨Option.some.inj h, rfl⟩
  | _ => cases h

theorem isOpen_reason {f : Filing} (h : isOpen f = true) : f.reason ≠ some .cityNeedsInfo := by
  simp only [isOpen, Bool.and_eq_true, decide_eq_true_eq] at h
  exact h.2

theorem after_retryWrite {a : Retry} {f : Option Filing} {q : Await} (h : (Await.retryWrite a).after cfg f = .await q) :
    q = .retryOff a := by
  cases f with
  | none => cases h
  | some f =>
    simp only [Await.after] at h
    split at h
    · cases h
      rfl
    · cases h

/-- An action is about to write a filing since before the access, or it has read there that
nobody asks. -/
theorem pendingOn_access {p q : Await} {id : FilingId} (h : (s', .await q) ∈ access cfg s p)
    (hq : q.pendingOn = some id) :
    p.pendingOn = some id ∨ (s' = s ∧ ¬ s.Asked id) := by
  have hone : ∀ {x : Shared × Go}, (s', .await q) ∈ [x] → s' = x.1 ∧ x.2 = .await q := by
    intro x hm
    cases List.mem_singleton.mp hm
    exact ⟨rfl, rfl⟩
  -- The row that was read is the row that is there.
  have hread : ∀ {f : Filing}, s.getById id = some f → f.reason ≠ some .cityNeedsInfo → ¬ s.Asked id := by
    rintro f hf hreason ⟨x, hx, hasked⟩
    cases hf.symm.trans hx
    exact hreason hasked
  have hrequest : p.request.ofOperator = true := by
    have hof : q.request = p.request := request_access h
    rw [← hof]
    exact pendingOn_request hq
  cases p with
  | retryRead a =>
    obtain ⟨hs, hnext⟩ := hone h
    split at hnext
    · cases hnext
    · next f hf =>
      split at hnext
      · cases hnext
      · next hopen =>
        cases hnext
        cases hq
        exact .inr ⟨hs, hread hf (not_or.mp hopen).2⟩
  | retryReport a f =>
    obtain ⟨-, hnext⟩ := hone h
    split at hnext
    · cases hnext
    · cases hnext
      exact .inl hq
  | cancelRead id' =>
    obtain ⟨hs, hnext⟩ := hone h
    split at hnext
    · cases hnext
    · next f hf =>
      split at hnext
      · next hopen =>
        cases hnext
        cases hq
        exact .inr ⟨hs, hread hf (isOpen_reason hopen)⟩
      · cases hnext
  | manualRead a =>
    obtain ⟨hs, hnext⟩ := hone h
    split at hnext
    · cases hnext
    · next f hf =>
      split at hnext
      · cases hnext
        cases hq
      · split at hnext
        · next hopen =>
          cases hnext
          have hid : a.id = id := (pendingOn_manual hq).1
          exact .inr ⟨hs, hread (hid ▸ hf) (isOpen_reason hopen)⟩
        · cases hnext
  | applyLoad x =>
    obtain ⟨-, hnext⟩ := hone h
    split at hnext
    · cases hnext
    · cases hnext
      exact .inl hq
  | applyWrite x note =>
    obtain ⟨-, hnext⟩ := hone h
    split at hnext
    · cases hnext
    · cases hnext
  | retryWrite a =>
    obtain ⟨-, hnext⟩ := hone h
    cases after_retryWrite hnext
    cases hq
  | retryOff a | cancelWrite _ | manualReturn _ =>
    obtain ⟨-, hnext⟩ := hone h
    cases hnext
  | _ => cases hrequest

theorem pendingOn_enter {o : Request} {p : Await} (h : enter s o = some (s', p)) : p.pendingOn = none := by
  cases o <;> cases h <;> rfl

/-- Nobody asks about a filing that an operator's action is about to write. -/
def Unasked (w : World) : Prop := ∀ i c id, w.call i = some c → c.await.pendingOn = some id → ¬ w.shared.Asked id

theorem Unasked.step (hw : Unasked w) (hok : Undisturbed cfg w m) (hs : cfg.machine.step w m = some (w', r)) :
    Unasked w' := by
  -- An action that was there before the move.
  have hold : ∀ i c id, w.call i = some c → c.await.pendingOn = some id → ¬ w'.shared.Asked id := by
    intro i c id hc hid hasked
    rcases Machine.shared_cases hs with ⟨o, p, -, he⟩ | ⟨j, k, d, n, -, -, hmem⟩ | ⟨j, -, heq⟩ | ⟨e, rfl, he, -⟩
    · rw [(request_enter he).1] at hasked
      exact hw i c id hc hid hasked
    · exact hw i c id hc hid (asked_of_wrote (access_cases hmem) hasked)
    · rw [heq] at hasked
      exact hw i c id hc hid hasked
    · exact hok _ he c (List.reduceOption_mem_iff.mpr (List.mem_of_getElem? (World.call_eq_some.mp hc))) id hid hasked
  intro i c id hc hid
  rcases Machine.call_cases hs hc with ⟨o, p, -, -, rfl, he⟩ | ⟨k, d, p, -, hd, rfl, hmem⟩ | ⟨hc, -⟩
  · cases (pendingOn_enter he).symm.trans hid
  · rcases pendingOn_access hmem hid with hbefore | ⟨heq, hunasked⟩
    · exact hold i d id hd hbefore
    · rwa [heq]
  · exact hold i c id hc hid

/-! ## The success effects of a filing -/

/-- The state of a filing that has had its success effects. -/
def Filing.AfterSuccess (x : Filing) : Prop :=
  x.status.successful = true ∨ x.status = .cancelled ∨ (x.status = .needsHuman ∧ x.reason = some .cityNeedsInfo)

theorem Filing.AfterSuccess.status_ne {x : Filing} (h : x.AfterSuccess) : x.status ≠ .queued ∧ x.status ≠ .running := by
  rcases h with h | h | ⟨h, -⟩
  · constructor
    · intro heq
      rw [heq] at h
      cases h
    · intro heq
      rw [heq] at h
      cases h
  · rw [h]
    exact ⟨nofun, nofun⟩
  · rw [h]
    exact ⟨nofun, nofun⟩

/-- No write takes a filing back to before its success, if the operator's actions find no question. -/
theorem update_afterSuccess {p : Await} {id : FilingId} {g : Guard} {set : FilingSet} {x : Filing} (now : Instant)
    (hu : p.update cfg = some (id, g, set)) (hg : g.admits x = true) (hx : x.AfterSuccess)
    (hp : p.pendingOn = some id → x.reason ≠ some .cityNeedsInfo) : (set.apply now x).AfterSuccess := by
  obtain ⟨hqueued, hrunning⟩ := hx.status_ne
  have hstatus := (Guard.admits_iff.mp hg).1
  cases p with
  | retryWrite a =>
    cases hu
    have hneeds := List.mem_singleton.mp hstatus
    rcases hx with hx | hx | ⟨-, hreason⟩
    · rw [hneeds] at hx
      cases hx
    · cases hneeds.symm.trans hx
    · exact absurd hreason (hp rfl)
  | manualReturn a =>
    cases hu
    exact .inl rfl
  | cancelWrite _ | rejectWrite _ _ =>
    cases hu
    exact .inr (.inl rfl)
  | applyWrite y note =>
    cases hu
    refine .inl ?_
    change (y.input cfg).outcome.status.successful = true
    cases (y.input cfg).outcome <;> rfl
  | retryOff _ | emailCancel _ _ =>
    cases hu
    exact absurd (List.mem_singleton.mp hstatus) hqueued
  | resultWrite _ _ | settle _ _ | sweepWrite _ _ _ =>
    cases hu
    exact absurd (List.mem_singleton.mp hstatus) hrunning
  | _ => cases hu

theorem find?_claim {id k : FilingId} {n : ℕ} {run : RunId} {x : Filing} (hc : s.claim id n = some (s', run))
    (hx : s.filings.find? k = some x) (hne : x.status ≠ .queued) : s'.filings.find? k = some x := by
  obtain ⟨y, hy, hqueued, -, -, rfl⟩ := claim_eq hc
  rw [Table.find?_modify, if_neg ?_, hx]
  rintro rfl
  cases hx.symm.trans hy
  exact hne hqueued

/-- The filing has had its success effects. -/
def Shared.Succeeded (s : Shared) (id : FilingId) : Prop := ∃ x, s.filings.find? id = some x ∧ x.AfterSuccess

theorem succeeded_of_wrote {p : Await} {id : FilingId} (h : Wrote cfg s p s') (hs : s.Succeeded id)
    (hp : ∀ k, p.pendingOn = some k → ¬ s.Asked k) : s'.Succeeded id := by
  obtain ⟨x, hx, hafter⟩ := hs
  cases h with
  | none => exact ⟨x, hx, hafter⟩
  | @update k g set y _ hu hy hg hf hr ht =>
    by_cases hk : id = k
    · subst hk
      cases hx.symm.trans hy
      refine ⟨set.apply s.now x, ?_, update_afterSuccess s.now hu hg hafter ?_⟩
      · rw [hf, Table.find?_modify, if_pos rfl, hx]
        rfl
      · intro hpending hreason
        exact hp id hpending ⟨x, hx, hreason⟩
    · refine ⟨x, ?_, hafter⟩
      rw [hf, Table.find?_modify, if_neg hk, hx]
  | insert _ hi =>
    refine ⟨x, ?_, hafter⟩
    rw [find?_insertFiling hi, if_neg ?_, hx]
    rintro rfl
    cases hx.symm.trans (insertFiling_eq hi).1
  | claim _ hc => exact ⟨x, find?_claim hc hx hafter.status_ne.1, hafter⟩

theorem succeeded_of_happened {e : Event} {id : FilingId} (h : Happened s e s') (hs : s.Succeeded id) :
    s'.Succeeded id := by
  obtain ⟨x, hx, hafter⟩ := hs
  cases h with
  | beside hf hr ht =>
    rw [← hf] at hx
    exact ⟨x, hx, hafter⟩
  | city h =>
    obtain ⟨k, g, hfind, hsame⟩ := h.filings
    by_cases hk : id = k
    · refine ⟨g x, by rw [hfind, if_pos hk, hx]; rfl, ?_⟩
      rcases hsame with hsame | ⟨-, hasked⟩
      · obtain ⟨hstatus, hreason, -, -⟩ := hsame x
        rwa [Filing.AfterSuccess, hstatus, hreason]
      · exact .inr (.inr (hasked x))
    · exact ⟨x, by rw [hfind, if_neg hk, hx], hafter⟩
  | inserted hi hf hr hsucceeded hstatus hreason =>
    refine ⟨x, ?_, hafter⟩
    rw [hf, find?_insertFiling hi, if_neg ?_, hx]
    rintro rfl
    cases hx.symm.trans (insertFiling_eq hi).1
  | claimed he hc => exact ⟨x, find?_claim hc hx hafter.status_ne.1, hafter⟩

/-- Every filing with success effects on a timeline has had its success. -/
def Effects (w : World) : Prop := ∀ row ∈ w.shared.timeline, ∀ id, row.filing = some id → w.shared.Succeeded id

theorem timeline_of_wrote {p : Await} {row : TimelineRow} {id : FilingId} (h : Wrote cfg s p s')
    (hrow : row ∈ s'.timeline)
    (hid : row.filing = some id) : row ∈ s.timeline ∨ s'.Succeeded id := by
  cases h with
  | none => exact .inl hrow
  | @update k g set y _ hu hy hg hf hr ht =>
    rcases ht with ht | ⟨z, note, added, rfl, hadded, ht⟩
    · rw [ht] at hrow
      exact .inl hrow
    · rw [ht, List.mem_append, List.mem_singleton] at hrow
      rcases hrow with hrow | rfl
      · exact .inl hrow
      · cases hadded.symm.trans hid
        cases hu
        refine .inr ⟨(z.input cfg).set.apply s.now y, ?_, .inl ?_⟩
        · rw [hf, Table.find?_modify, if_pos rfl, hy]
          rfl
        · change (z.input cfg).outcome.status.successful = true
          cases (z.input cfg).outcome <;> rfl
  | insert _ hi =>
    obtain ⟨-, rfl⟩ := insertFiling_eq hi
    exact .inl hrow
  | claim _ hc =>
    obtain ⟨x, -, -, -, -, rfl⟩ := claim_eq hc
    exact .inl hrow

theorem timeline_of_happened {e : Event} {row : TimelineRow} {id : FilingId} (h : Happened s e s')
    (hrow : row ∈ s'.timeline)
    (hid : row.filing = some id) : row ∈ s.timeline ∨ s'.Succeeded id := by
  cases h with
  | beside hf hr ht =>
    rw [ht] at hrow
    exact .inl hrow
  | city h =>
    rcases h.rows row hrow with hold | hnone
    · exact .inl hold
    · cases hnone.symm.trans hid
  | @inserted f s₁ _ hi hf hr hsucceeded hstatus hreason =>
    rcases hsucceeded with ht | ⟨hsubmitted, added, hadded, ht⟩
    · rw [ht] at hrow
      exact .inl hrow
    · rw [ht, List.mem_append, List.mem_singleton] at hrow
      rcases hrow with hrow | rfl
      · exact .inl hrow
      · cases hadded.symm.trans hid
        refine .inr ⟨f, ?_, .inl ?_⟩
        · rw [hf, find?_insertFiling hi, if_pos rfl]
        · rw [hsubmitted]
          rfl
  | claimed he hc =>
    obtain ⟨x, -, -, -, -, rfl⟩ := claim_eq hc
    exact .inl hrow

theorem Effects.step (hw : Effects w) (hunasked : Unasked w) (hs : cfg.machine.step w m = some (w', r)) :
    Effects w' := by
  intro row hrow id hid
  rcases Machine.shared_cases hs with ⟨o, p, -, he⟩ | ⟨i, k, c, n, -, hc, hmem⟩ | ⟨i, -, heq⟩ | ⟨e, -, he, -⟩
  · rw [(request_enter he).1] at hrow ⊢
    exact hw row hrow id hid
  · rcases timeline_of_wrote (access_cases hmem) hrow hid with hold | hnew
    · exact succeeded_of_wrote (access_cases hmem) (hw row hold id hid) (fun k hk => hunasked i c k hc hk)
    · exact hnew
  · rw [heq] at hrow ⊢
    exact hw row hrow id hid
  · rcases timeline_of_happened (environment_cases he) hrow hid with hold | hnew
    · exact succeeded_of_happened (environment_cases he) (hw row hold id hid)
    · exact hnew

structure Guarded (w : World) : Prop where
  unasked : Unasked w
  effects : Effects w

theorem guarded_of_run (h : Machine.Run cfg.machine (Undisturbed cfg) (.initial .empty) w) : Guarded w := by
  refine h.invariant ⟨by simp [Unasked], nofun⟩ ?_
  intro v v' m r hv hok hs
  exact ⟨hv.unasked.step hok hs, hv.effects.step hv.unasked hs⟩

/-! ## What the operator's actions leave alone -/

/-- What an access of a call does not do to a filing that waits for an answer to the city. -/
structure Protected (s s' : Shared) (o : Request) : Prop where
  retry : ∀ a x y, o = .retry a → s.filings.find? a.id = some x → isCityNeedsInfo x = true →
    s'.filings.find? a.id = some y →
    y.status ≠ .queued
  cancel : ∀ id x y, o = .cancel id → s.filings.find? id = some x → isCityNeedsInfo x = true →
    s'.filings.find? id = some y →
    y.status ≠ .cancelled
  recordManual : ∀ a, o = .recordManual a → s'.timeline = s.timeline ∨ ∀ row ∈ s.timeline, row.filing ≠ some a.id

theorem asked_of_cityNeedsInfo {id : FilingId} {x : Filing} (hx : s.filings.find? id = some x)
    (hcity : isCityNeedsInfo x = true) :
    x.status = .needsHuman ∧ s.Asked id := by
  simp only [isCityNeedsInfo, Bool.and_eq_true, decide_eq_true_eq] at hcity
  exact ⟨hcity.1, x, hx, hcity.2⟩

/-- An operator's write is on the filing of its action, and meets no question there. -/
theorem unasked_update {p : Await} {id : FilingId} {g : Guard} {set : FilingSet} {x : Filing}
    (hu : p.update cfg = some (id, g, set)) (hx : s.filings.find? id = some x) (hg : g.admits x = true)
    (hp : ∀ k, p.pendingOn = some k → ¬ s.Asked k) :
    (∀ a, p.request = .retry a → id = a.id ∧ isCityNeedsInfo x = false) ∧
      ∀ k, p.request = .cancel k → id = k ∧ isCityNeedsInfo x = false := by
  have hcity : (p.pendingOn = some id ∨ x.status = .queued) → isCityNeedsInfo x = false := by
    intro h
    refine Bool.eq_false_iff.mpr (fun hcity => ?_)
    obtain ⟨hneeds, hasked⟩ := asked_of_cityNeedsInfo hx hcity
    rcases h with hpending | hqueued
    · exact hp id hpending hasked
    · cases hneeds.symm.trans hqueued
  have hstatus := (Guard.admits_iff.mp hg).1
  cases p with
  | retryWrite a =>
    cases hu
    exact ⟨fun b hb => by cases hb; exact ⟨rfl, hcity (.inl rfl)⟩, nofun⟩
  | retryOff a =>
    cases hu
    exact ⟨fun b hb => by cases hb; exact ⟨rfl, hcity (.inr (List.mem_singleton.mp hstatus))⟩, nofun⟩
  | cancelWrite k =>
    cases hu
    exact ⟨nofun, fun k' hk => by cases hk; exact ⟨rfl, hcity (.inl rfl)⟩⟩
  | applyWrite y note => cases y <;> exact ⟨nofun, nofun⟩
  | manualReturn _ | emailCancel _ _ | resultWrite _ _ | settle _ _ | sweepWrite _ _ _ | rejectWrite _ _ => exact
    ⟨nofun, nofun⟩
  | _ => cases hu

theorem unchanged_of_wrote {p : Await} {id : FilingId} {x : Filing} (h : Wrote cfg s p s')
    (hp : ∀ k, p.pendingOn = some k → ¬ s.Asked k) (hrequest : (∃ a, p.request = .retry a ∧ a.id = id) ∨
    p.request = .cancel id)
    (hx : s.filings.find? id = some x) (hcity : isCityNeedsInfo x = true) : s'.filings.find? id = some x := by
  cases h with
  | none => exact hx
  | update hu hy hg hf hr ht =>
    obtain ⟨hretry, hcancel⟩ := unasked_update hu hy hg hp
    have hfree : ∃ y, s.filings.find? id = some y ∧ isCityNeedsInfo y = false := by
      rcases hrequest with ⟨a, ha, rfl⟩ | hk
      · obtain ⟨rfl, hnot⟩ := hretry a ha
        exact ⟨_, hy, hnot⟩
      · obtain ⟨rfl, hnot⟩ := hcancel id hk
        exact ⟨_, hy, hnot⟩
    obtain ⟨y, hy, hnot⟩ := hfree
    cases hx.symm.trans hy
    cases hnot.symm.trans hcity
  | insert hp hi =>
    subst hp
    rcases hrequest with ⟨a, ha, -⟩ | hk
    · cases ha
    · cases hk
  | claim hp hc =>
    subst hp
    rcases hrequest with ⟨a, ha, -⟩ | hk
    · cases ha
    · cases hk

/-- The success effects of `recordManual` are the first of its filing. -/
theorem first_of_wrote {p : Await} {a : Manual} (h : Wrote cfg s p s') (hp : ∀ k, p.pendingOn = some k → ¬ s.Asked k)
    (hread : p.Read) (hrequest : p.request = .recordManual a)
    (heffects : ∀ row ∈ s.timeline, ∀ id, row.filing = some id → s.Succeeded id) :
    s'.timeline = s.timeline ∨ ∀ row ∈ s.timeline, row.filing ≠ some a.id := by
  cases h with
  | none => exact .inl rfl
  | @update id g set x _ hu hx hg hf hr ht =>
    rcases ht with ht | ⟨y, note, added, rfl, -, -⟩
    · exact .inl ht
    · refine .inr (fun row hrow hid => ?_)
      obtain ⟨z, hz, hafter⟩ := heffects row hrow a.id hid
      cases y with
      | manual b status =>
        cases hrequest
        cases hu
        cases hx.symm.trans hz
        have hstatus : x.status = status := List.mem_singleton.mp (Guard.admits_iff.mp hg).1
        rcases hread with rfl | rfl
        · exact hafter.status_ne.1 hstatus
        · rcases hafter with hafter | hafter | ⟨-, hreason⟩
          · rw [hstatus] at hafter
            cases hafter
          · cases hstatus.symm.trans hafter
          · exact hp a.id rfl ⟨x, hx, hreason⟩
      | _ => cases hrequest
  | insert hp hi =>
    subst hp
    cases hrequest
  | claim hp hc =>
    subst hp
    cases hrequest

/-- As long as no question of the city comes between the read and the write of an operator's
action, a filing that waits for an answer is not queued by a retry nor cancelled by a cancel,
and `recordManual` adds success effects only where its filing has had none. -/
theorem city_question_protected {i k : ℕ} {c : Call Request Await}
    (h : Machine.Run cfg.machine (Undisturbed cfg) (.initial .empty) w)
    (hs : cfg.machine.step w (.access i k) = some (w', r))
    (hc : w.call i = some c) : Protected w.shared w'.shared c.origin := by
  have hsound := guarded_of_run h
  have hpending : ∀ id, c.await.pendingOn = some id → ¬ w.shared.Asked id := fun id hid => hsound.unasked i c id hc hid
  have hrequest := keeps_of_run h i c hc
  have hwrote := wrote_of_access hs hc
  refine ⟨?_, ?_, ?_⟩
  · intro a x y ho hx hcity hy
    rw [unchanged_of_wrote hwrote hpending (.inl ⟨a, hrequest.trans ho, rfl⟩) hx hcity] at hy
    cases hy
    rw [(asked_of_cityNeedsInfo hx hcity).1]
    decide
  · intro id x y ho hx hcity hy
    rw [unchanged_of_wrote hwrote hpending (.inr (hrequest.trans ho)) hx hcity] at hy
    cases hy
    rw [(asked_of_cityNeedsInfo hx hcity).1]
    decide
  · intro a ho
    exact first_of_wrote hwrote hpending (reads_of_run h i c hc) (hrequest.trans ho) hsound.effects

/-! ## A question between read and write -/

/-- The delivery of an email filing ends at its deadline, which leaves the filing uncertain. -/
def uncertain : List Move :=
  filed emailRouting ++ [(.start (.email ⟨1, true, .send 5, .failed .deadline, false, true⟩) : Move), .access 1 0,
    .access 1 0, .access 1 0,
    .access 1 0, .access 1 0, .access 1 0, .access 1 0]

/-- The delivery succeeds late, and the city asks about the filing. -/
def askedLate : List Move :=
  [.access 1 0, .access 1 0, .environment (.message ⟨7, 1, true, false, none, none, none⟩),
    .environment (.cityUpdate 7 (some ⟨none, .needsInfo, "Which side of the street?", 1⟩))]

/-- The late success and the question come before the retry reads the filing. -/
theorem city_question_protected_askedBefore :
    ∃ (w w' : World) (r : Option Result) (c : Call Request Await),
      Machine.Run filingOn.machine (Undisturbed filingOn) (.initial .empty) w ∧
      filingOn.machine.step w (.access 2 0) = some (w', r) ∧ w.call 2 = some c ∧ c.origin = .retry ⟨1, emailRouting⟩ ∧
      (∃ x, w.shared.filings.find? 1 = some x ∧ isCityNeedsInfo x = true) ∧ Protected w.shared w'.shared c.origin := by
  have hrun : ∃ w ∈ filingOn.machine.perform (.initial .empty)
    (uncertain ++ askedLate ++ [.start (.retry ⟨1, emailRouting⟩)]),
      ∃ x ∈ filingOn.machine.step w (.access 2 0),
        (w.call 2).any (fun c => decide (c.origin = .retry ⟨1, emailRouting⟩)) = true ∧
        (w.shared.filings.find? 1).any isCityNeedsInfo = true := by
    decide +kernel
  obtain ⟨w, hw, ⟨w', r⟩, hs, hcall, hcity⟩ := hrun
  obtain ⟨c, hc, horigin⟩ := (Option.any_eq_true _ _).mp hcall
  have hreach : Machine.Run filingOn.machine (Undisturbed filingOn) (.initial .empty) w :=
    Machine.run_of_perform (by decide +kernel) hw
  exact ⟨w, w', r, c, hreach, hs, hc, of_decide_eq_true horigin, (Option.any_eq_true _ _).mp hcity,
    city_question_protected hreach hs hc⟩

/-- The retry has read the filing before, and its write puts the filing back to the queue. -/
theorem not_city_question_protected :
    ¬ ∀ (cfg : Config) (w w' : World) (r : Option Result) (i k : ℕ) (c : Call Request Await),
      Machine.Run cfg.machine (fun _ _ => True) (.initial .empty) w → cfg.machine.step w (.access i k) = some (w', r) →
      w.call i = some c → Protected w.shared w'.shared c.origin := by
  intro hclaim
  have hrun : ∃ w ∈ filingOn.machine.perform (.initial .empty)
        (uncertain ++ ([.start (.retry ⟨1, emailRouting⟩), .access 2 0, .access 2 0] : List Move) ++ askedLate),
      ∃ x ∈ filingOn.machine.step w (.access 2 0),
        (w.call 2).any (fun c => decide (c.origin = .retry ⟨1, emailRouting⟩)) = true ∧
        (w.shared.filings.find? 1).any isCityNeedsInfo = true ∧
        (x.1.shared.filings.find? 1).any (fun y => decide (y.status = .queued)) = true := by
    decide +kernel
  obtain ⟨w, hw, ⟨w', r⟩, hs, hcall, hcity, hqueued⟩ := hrun
  obtain ⟨c, hc, horigin⟩ := (Option.any_eq_true _ _).mp hcall
  obtain ⟨x, hx, hcity⟩ := (Option.any_eq_true _ _).mp hcity
  obtain ⟨y, hy, hqueued⟩ := (Option.any_eq_true _ _).mp hqueued
  have hprotected := hclaim _ w w' r 2 0 c (Machine.free_of_perform hw) hs hc
  exact hprotected.retry _ x y (of_decide_eq_true horigin) hx hcity hy (of_decide_eq_true hqueued)

end Civfix.Filings
