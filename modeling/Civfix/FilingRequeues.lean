import Civfix.FilingResults

/-! # How filings get back into their queue

A filing that is queued, or that runs for the first time, was so before, is new, or was queued by a write: the operator's
retry, the result of a run that asks for another one, the end of an email try, or the sweep. The last two name the attempt
but not the run. A run goes on until a write on its filing ends it. -/
namespace Civfix.Filings

open KeyedTables InterleavedCalls

variable {cfg : Config} {s s' : Shared} {p : Await} {id : FilingId} {g : Guard} {set : FilingSet}

/-- The run may be repeated, so the filing goes back into its queue while attempts are left. -/
def Payload.AsksAgain (p : Payload) : Prop :=
  p.outcome = .failed ∧ (p.reason = some .portalError ∨ p.reason = some .aiUnavailable)

/-- The filing is not there yet, or queued, or runs under one of the runs. -/
def Shared.Due (s : Shared) (id : FilingId) (fresh : RunId → Prop) : Prop :=
  ∀ x, s.filings.find? id = some x →
    x.status = .queued ∨ (x.status = .running ∧ ∃ run, x.runId = some run ∧ fresh run)

theorem Shared.Due.of_none {fresh : RunId → Prop} (h : s.filings.find? id = none) : s.Due id fresh := by
  intro x hx
  rw [h] at hx
  cases hx

theorem due_of_claim {k : FilingId} {n : ℕ} {run : RunId} {fresh : RunId → Prop} (hc : s.claim k n = some (s', run))
    (h : s'.Due id fresh) : s.Due id fresh := by
  obtain ⟨x, hx, hqueued, -, -, rfl⟩ := claim_eq hc
  intro y hy
  by_cases hid : id = k
  · subst hid
    cases hx.symm.trans hy
    exact .inl hqueued
  · refine h y ?_
    simpa only [Table.find?_modify, if_neg hid] using hy

theorem due_of_inserted {f : Filing} {fresh : RunId → Prop} (hi : s.insertFiling f = some s') (h : s'.Due id fresh) :
    s.Due id fresh := by
  have hfind := find?_insertFiling hi id
  by_cases hid : id = f.id
  · subst hid
    exact .of_none (insertFiling_eq hi).1
  · rw [if_neg hid] at hfind
    intro y hy
    exact h y (hfind.trans hy)

theorem due_of_wrote {fresh : RunId → Prop} (h : Wrote cfg s p s') (hdue : s'.Due id fresh) :
    s.Due id fresh ∨ ∃ g set x, p.update cfg = some (id, g, set) ∧ s.filings.find? id = some x ∧ g.admits x = true ∧
      set.status = some .queued := by
  cases h with
  | none => exact .inl hdue
  | @update k g set x _ hu hx hg hf hr ht =>
    have hfind : s'.filings.find? id = if id = k then (s.filings.find? id).map (set.apply s.now) else s.filings.find? id := by
      rw [hf, Table.find?_modify]
    by_cases hid : id = k
    · subst hid
      rw [if_pos rfl, hx, Option.map_some] at hfind
      have hafter := hdue _ hfind
      simp only [FilingSet.apply_status, FilingSet.apply_runId] at hafter
      rcases update_status hu with ⟨st, hst, hne⟩ | ⟨hst, -⟩
      · rw [hst, Option.getD_some] at hafter
        rcases hafter with hqueued | ⟨hrunning, -⟩
        · exact .inr ⟨g, set, x, hu, hx, hg, hst.trans (congrArg some hqueued)⟩
        · exact absurd hrunning hne
      · rw [hst, Option.getD_none] at hafter
        refine .inl fun y hy => ?_
        cases hx.symm.trans hy
        exact hafter
    · rw [if_neg hid] at hfind
      exact .inl fun y hy => hdue y (hfind.trans hy)
  | insert hp hi => exact .inl (due_of_inserted hi hdue)
  | claim hp hc => exact .inl (due_of_claim hc hdue)

theorem due_of_happened {e : Event} {fresh : RunId → Prop} (h : Happened s e s') (hdue : s'.Due id fresh) :
    s.Due id fresh := by
  cases h with
  | beside hf hr ht =>
    intro x hx
    exact hdue x (by rw [hf]; exact hx)
  | city h =>
    obtain ⟨k, g, hfind, hsame⟩ := h.filings
    have hfind := hfind id
    intro x hx
    split at hfind
    · rw [hx, Option.map_some] at hfind
      have hafter := hdue _ hfind
      rcases hsame with hsame | ⟨-, hasked⟩
      · obtain ⟨hstatus, -, -, hrun⟩ := hsame x
        rwa [hstatus, hrun] at hafter
      · rw [(hasked x).1] at hafter
        rcases hafter with hafter | ⟨hafter, -⟩
        · cases hafter
        · cases hafter
    · exact hdue x (hfind.trans hx)
  | inserted hi hf hr hsucceeded hst hreason =>
    refine due_of_inserted hi fun x hx => hdue x ?_
    rw [hf]
    exact hx
  | claimed he hc => exact due_of_claim hc hdue

/-- The writes that queue a filing. -/
theorem update_queued (h : p.update cfg = some (id, g, set)) (hq : set.status = some .queued) :
    (∃ a, p = .retryWrite a ∧ id = a.id ∧ g = { status := [.needsHuman] }) ∨
      (∃ q attempts next wait, p = .resultWrite q (.requeue attempts next wait) ∧ id = q.filingId ∧
        g = { status := [.running], attempts := some q.attempt, runId := some q.runId }) ∨
      (g.status = [.running] ∧ g.runId = none) := by
  cases p with
  | retryWrite a =>
    cases h
    exact .inl ⟨a, rfl, rfl, rfl⟩
  | resultWrite q x =>
    cases h
    cases x with
    | requeue attempts next wait => exact .inr (.inl ⟨q, attempts, next, wait, rfl, rfl, rfl⟩)
    | needsHuman reason detail => cases hq
    | cancelled => cases hq
  | settle t x =>
    cases h
    exact .inr (.inr ⟨rfl, rfl⟩)
  | sweepWrite k n rest =>
    cases h
    exact .inr (.inr ⟨rfl, rfl⟩)
  | applyWrite x note =>
    cases h
    cases hout : (x.input cfg).outcome <;> simp [SuccessInput.set, hout, Outcome.status] at hq
  | retryOff _ | cancelWrite _ | manualReturn _ | emailCancel _ _ | rejectWrite _ _ =>
    cases h
    cases hq
  | _ => cases h

/-- Only the writes of a result name a run. -/
theorem update_runId {run : RunId} (hread : p.Read) (h : p.update cfg = some (id, g, set)) (hrun : g.runId = some run) :
    ∃ q, p.request = .result q ∧ id = q.filingId ∧ run = q.runId := by
  cases p with
  | resultWrite q x =>
    cases h
    cases hrun
    exact ⟨q, rfl, rfl, rfl⟩
  | applyWrite x note =>
    cases x with
    | result q f =>
      cases h
      cases hrun
      exact ⟨q, rfl, hread, rfl⟩
    | manual _ _ | email _ _ | late _ _ =>
      cases h
      cases hrun
  | retryWrite _ | retryOff _ | cancelWrite _ | manualReturn _ | emailCancel _ _ | settle _ _ | sweepWrite _ _ _
    | rejectWrite _ _ =>
    cases h
    cases hrun
  | _ => cases h

/-! ## Runs that go on -/

theorem runs_claimed {n : ℕ} {run : RunId} (hc : s.claim id n = some (s', run)) : s'.Runs id n (some run) := by
  obtain ⟨x, hx, -, -, rfl, rfl⟩ := claim_eq hc
  have hfind := Table.find?_modify s.filings id id (fun f => { f with
    status := .running, attempts := n, runId := some s.nextRun, updatedAt := s.now }) (fun _ => rfl)
  rw [if_pos rfl, hx, Option.map_some] at hfind
  exact ⟨_, hfind, rfl, rfl, rfl⟩

theorem runs_after_claim {k : FilingId} {n m : ℕ} {new : RunId} {run : Option RunId} (hc : s.claim k m = some (s', new))
    (h : s.Runs id n run) : s'.Runs id n run := by
  obtain ⟨x, hx, hqueued, -, -, rfl⟩ := claim_eq hc
  obtain ⟨y, hy, hrunning, hn, hrun⟩ := h
  refine ⟨y, ?_, hrunning, hn, hrun⟩
  have hid : id ≠ k := by
    rintro rfl
    cases hx.symm.trans hy
    exact absurd (hqueued.symm.trans hrunning) (by decide)
  rw [Table.find?_modify, if_neg hid]
  exact hy

theorem runs_after_inserted {f : Filing} {n : ℕ} {run : Option RunId} (hi : s.insertFiling f = some s')
    (h : s.Runs id n run) : s'.Runs id n run := by
  obtain ⟨y, hy, hrest⟩ := h
  refine ⟨y, ?_, hrest⟩
  have hid : id ≠ f.id := by
    rintro rfl
    rw [(insertFiling_eq hi).1] at hy
    cases hy
  rw [find?_insertFiling hi, if_neg hid]
  exact hy

theorem runs_after_wrote {n : ℕ} {run : Option RunId} (h : Wrote cfg s p s') (hr : s.Runs id n run) :
    s'.Runs id n run ∨ ∃ g set x, p.update cfg = some (id, g, set) ∧ s.filings.find? id = some x ∧ g.admits x = true ∧
      x.status = .running ∧ x.runId = run ∧ set.status ≠ none := by
  cases h with
  | none => exact .inl hr
  | @update k g set x _ hu hx hg hf _ ht =>
    obtain ⟨y, hy, hrunning, hn, hrun⟩ := hr
    have hfind : s'.filings.find? id = if id = k then (s.filings.find? id).map (set.apply s.now) else s.filings.find? id := by
      rw [hf, Table.find?_modify]
    by_cases hid : id = k
    · subst hid
      cases hx.symm.trans hy
      rcases update_status hu with ⟨st, hst, -⟩ | ⟨hst, hattempts⟩
      · exact .inr ⟨g, set, x, hu, hx, hg, hrunning, hrun, by simp [hst]⟩
      · rw [if_pos rfl, hx, Option.map_some] at hfind
        exact .inl ⟨_, hfind, by simp [hst, hrunning], by simp [hattempts, hn], hrun⟩
    · rw [if_neg hid] at hfind
      exact .inl ⟨y, hfind.trans hy, hrunning, hn, hrun⟩
  | insert hp hi => exact .inl (runs_after_inserted hi hr)
  | claim hp hc => exact .inl (runs_after_claim hc hr)

theorem runs_after_happened {e : Event} {n : ℕ} {run : Option RunId} (h : Happened s e s') (hr : s.Runs id n run) :
    s'.Runs id n run := by
  cases h with
  | beside hf _ ht =>
    obtain ⟨y, hy, hrest⟩ := hr
    exact ⟨y, by rw [hf]; exact hy, hrest⟩
  | city h =>
    obtain ⟨y, hy, hrunning, hn, hrun⟩ := hr
    obtain ⟨k, g, hfind, hsame⟩ := h.filings
    have hfind := hfind id
    split at hfind
    · next hid =>
      rw [hy, Option.map_some] at hfind
      rcases hsame with hsame | ⟨⟨f, hf, hsuccess⟩, -⟩
      · obtain ⟨hstatus, -, hattempts, hrunId⟩ := hsame y
        exact ⟨_, hfind, hstatus.trans hrunning, hattempts.trans hn, hrunId.trans hrun⟩
      · -- A running filing is no success yet.
        subst hid
        cases hf.symm.trans hy
        rw [hrunning] at hsuccess
        cases hsuccess
    · exact ⟨y, hfind.trans hy, hrunning, hn, hrun⟩
  | inserted hi hf _ hsucceeded hst hreason =>
    obtain ⟨y, hy, hrest⟩ := runs_after_inserted hi hr
    exact ⟨y, by rw [hf]; exact hy, hrest⟩
  | claimed he hc => exact runs_after_claim hc hr

/-! ## What holds in every run -/

variable {ok : World → Move → Prop} {w : World}

/-- A running filing has the run id of its claim. -/
def Identified (w : World) : Prop := ∀ id n run, w.shared.Runs id n run → run ≠ none

theorem identified_of_run (h : Machine.Run cfg.machine ok (.initial .empty) w) : Identified w := by
  refine h.invariant ?_ ?_
  · rintro id n run ⟨x, hx, -⟩
    cases hx
  · intro v v' m r hv _ hs id n run hr
    rcases runs_of_step hs hr with hold | ⟨hrun, -⟩
    · exact hv id n run hold
    · exact hrun ▸ Option.some_ne_none _

/-- A result's write queues the filing only when the result asks for another run. -/
def Await.Asks : Await → Prop
  | .resultWrite p (.requeue ..) => p.AsksAgain
  | _ => True

theorem asks_apply (p : Payload) (f : Filing) (now : Instant) : (p.apply cfg f now).Asks := by
  have hite : ∀ {c : Prop} [Decidable c] {a b : Await}, a.Asks → b.Asks → (if c then a else b).Asks := by
    intro c _ a b ha hb
    split
    · exact ha
    · exact hb
  unfold Payload.apply
  split
  · exact hite trivial trivial
  · exact hite trivial trivial
  · trivial
  · next hfailed =>
    split
    · next hreason =>
      split
      · trivial
      · exact hite trivial ⟨hfailed, .inl hreason⟩
    · next hreason => exact hite trivial ⟨hfailed, .inr hreason⟩
    · trivial
  · trivial

theorem asks_access {q : Await} (h : (s', .await q) ∈ access cfg s p) : q.Asks := by
  have hrequest : q.request = p.request := request_access h
  have hone : ∀ {x : Shared × Go}, (s', .await q) ∈ [x] → x.2 = .await q := by
    intro x hm
    cases List.mem_singleton.mp hm
    rfl
  cases q with
  | resultWrite a x =>
    cases p with
    | resultRead b =>
      have hnext := hone h
      split at hnext
      · cases hnext
      · next f hf =>
        rw [← Next.await.inj hnext]
        exact asks_apply b f s.now
    | resultWrite b y => cases hone h
    | applyLoad y =>
      have hnext := hone h
      split at hnext
      · cases hnext
      · cases hnext
    | applyWrite y note =>
      have hnext := hone h
      split at hnext
      · cases hnext
      · cases hnext
    | _ => cases hrequest
  | _ => trivial

theorem asks_enter {o : Request} (h : enter s o = some (s', p)) : p.Asks := by
  cases o <;> cases h <;> trivial

theorem asks_of_run (h : Machine.Run cfg.machine ok (.initial .empty) w) {i : ℕ} {c : Call Request Await}
    (hc : w.call i = some c) : c.await.Asks := by
  revert i c
  refine h.invariant (P := fun w => ∀ {i : ℕ} {c : Call Request Await}, w.call i = some c → c.await.Asks) (by simp) ?_
  intro v v' m r hv _ hs i c hc
  rcases Machine.call_cases hs hc with ⟨o, p, -, -, rfl, he⟩ | ⟨k, d, p, -, -, rfl, hmem⟩ | ⟨hc, -⟩
  · exact asks_enter he
  · exact asks_access hmem
  · exact hv hc

end Civfix.Filings
