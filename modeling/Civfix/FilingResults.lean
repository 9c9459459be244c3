import Civfix.FilingSteps

/-! # Filer results apply once

A run is known by the id its claim minted. A result writes from the running row of its own run,
so after it nothing of that run is left to write on: a filing only runs again under a new id. -/
namespace Civfix.Filings

open KeyedTables InterleavedCalls

variable {cfg : Config} {w w' : World} {m : Move} {r : Option Result}

/-- Any order of moves. -/
def Free (_ : World) (_ : Move) : Prop := True

/-- Every run id in use was minted by a claim. -/
def Minted (w : World) : Prop := ∀ id n run, w.shared.Runs id n (some run) → run < w.shared.nextRun

theorem Minted.step (hw : Minted w) (hs : cfg.machine.step w m = some (w', r)) : Minted w' := by
  intro id n run hr
  rcases runs_of_step hs hr with hold | ⟨hrun, hnext, -⟩
  · exact lt_of_lt_of_le (hw id n run hold) (nextRun_le_of_step hs)
  · cases hrun
    exact hnext ▸ Nat.lt_succ_self _

theorem minted_of_run {ok : World → Move → Prop} (h : Machine.Run cfg.machine ok (.initial .empty) w) : Minted w := by
  refine h.invariant ?_ (fun hw _ hs => hw.step hs)
  rintro id n run ⟨x, hx, -⟩
  cases hx

/-- The run is over: its id was minted and the filing does not run under it. -/
def Over (id : FilingId) (run : RunId) (w : World) : Prop :=
  run < w.shared.nextRun ∧ ∀ n, ¬ w.shared.Runs id n (some run)

theorem Over.step {id : FilingId} {run : RunId} (hw : Over id run w) (hs : cfg.machine.step w m = some (w', r)) :
    Over id run w' := by
  refine ⟨lt_of_lt_of_le hw.1 (nextRun_le_of_step hs), fun n hr => ?_⟩
  rcases runs_of_step hs hr with hold | ⟨hrun, -, -⟩
  · exact hw.2 n hold
  · cases hrun
    exact Nat.lt_irrefl _ hw.1

/-! ## What a result writes -/

theorem admits_run {n : ℕ} {run : RunId} {x : Filing}
    (h : ({ status := [.running], attempts := some n, runId := some run } : Guard).admits x = true) :
    x.status = .running ∧ x.attempts = n ∧ x.runId = some run := by
  obtain ⟨hstatus, hattempts, hrun, -⟩ := Guard.admits_iff.mp h
  exact ⟨List.mem_singleton.mp hstatus, hattempts n rfl, hrun run rfl⟩

/-- The write of a result is on its filing and under the guard of its run, and the run is over with it. -/
theorem result_update {q : Await} {p : Payload} {id : FilingId} {g : Guard} {set : FilingSet}
    (hrequest : q.request = .result p)
    (hread : q.Read) (hu : q.update cfg = some (id, g, set)) :
    id = p.filingId ∧ g = { status := [.running], attempts := some p.attempt, runId := some p.runId } ∧
      ∃ st, set.status = some st ∧ st ≠ .running := by
  have hset : set.status = none → False := by
    intro hnone
    cases q with
    | resultWrite p x =>
      cases hu
      cases x <;> cases hnone
    | applyWrite x note =>
      cases hu
      cases hnone
    | applyLoad x => cases hu
    | _ => cases hrequest <;> cases hu
  have hstatus : ∃ st, set.status = some st ∧ st ≠ .running := by
    rcases update_status hu with hst | ⟨hnone, -⟩
    · exact hst
    · exact (hset hnone).elim
  cases q with
  | resultWrite p x =>
    cases hrequest
    cases hu
    exact ⟨rfl, rfl, hstatus⟩
  | applyWrite x note =>
    cases x with
    | result p f =>
      cases hrequest
      cases hu
      exact ⟨hread, rfl, hstatus⟩
    | _ => cases hrequest
  | applyLoad x => cases hu
  | _ => cases hrequest <;> cases hu

theorem result_wrote {s s' : Shared} {q : Await} {p : Payload} (hrequest : q.request = .result p) (hread : q.Read)
    (h : Wrote cfg s q s') :
    s' = s ∨ (s.Runs p.filingId p.attempt (some p.runId) ∧ ∀ n run, ¬ s'.Runs p.filingId n run) := by
  cases h with
  | none => exact .inl rfl
  | @update id g set x _ hu hx hg hf hr ht =>
    obtain ⟨rfl, rfl, st, hst, hne⟩ := result_update hrequest hread hu
    refine .inr ⟨⟨x, hx, admits_run hg⟩, ?_⟩
    rintro n run ⟨y, hy, hstatus, -, -⟩
    rcases find?_update hf hy with ⟨-, z, -, rfl⟩ | ⟨hne, -⟩
    · rw [FilingSet.apply_status, hst] at hstatus
      exact hne hstatus
    · exact hne rfl
  | insert hp hi =>
    subst hp
    cases hrequest
  | claim hp hc =>
    subst hp
    cases hrequest

/-- A result changes nothing unless its filing runs under its attempt and its run id, and after
it no result of that run changes anything. -/
theorem result_applies_once {i k : ℕ} {c : Call Request Await} {p : Payload}
    (h : Machine.Run cfg.machine Free (.initial .empty) w) (hs : cfg.machine.step w (.access i k) = some (w', r))
    (hc : w.call i = some c) (hp : c.origin = .result p) :
    w'.shared = w.shared ∨
      (w.shared.Runs p.filingId p.attempt (some p.runId) ∧
        ∀ {w₁ w₂ : World} {j l : ℕ} {d : Call Request Await} {q : Payload} {r' : Option Result},
          Machine.Run cfg.machine Free w' w₁ → cfg.machine.step w₁ (.access j l) = some (w₂, r') → w₁.call j = some d →
          d.origin = .result q → q.filingId = p.filingId → q.runId = p.runId → w₂.shared = w₁.shared) := by
  -- What an access of a call of a result does, in any world that is reached.
  have hresult : ∀ {v v' : World} {j l : ℕ} {d : Call Request Await} {q : Payload} {r' : Option Result},
      Machine.Run cfg.machine Free (.initial .empty) v → cfg.machine.step v (.access j l) = some (v', r') →
      v.call j = some d → d.origin = .result q → v'.shared = v.shared ∨
        (v.shared.Runs q.filingId q.attempt (some q.runId) ∧ ∀ n run, ¬ v'.shared.Runs q.filingId n run) := by
    intro v v' j l d q r' hv hstep hd hq
    have hkeeps : d.await.request = .result q := (keeps_of_run hv j d hd).trans hq
    exact result_wrote hkeeps (reads_of_run hv j d hd) (wrote_of_access hstep hd)
  rcases hresult h hs hc hp with hsame | ⟨hruns, hover⟩
  · exact .inl hsame
  · have hrun : Machine.Run cfg.machine Free (.initial .empty) w' := h.tail _ trivial hs
    refine .inr ⟨hruns, ?_⟩
    intro w₁ w₂ j l d q r' hlater hstep hd hq hfiling hrunId
    have hminted : p.runId < w'.shared.nextRun :=
      lt_of_lt_of_le (minted_of_run h _ _ _ hruns) (nextRun_le_of_step hs)
    have hend : Over p.filingId p.runId w₁ :=
      hlater.invariant ⟨hminted, fun n => hover n _⟩ (fun hv _ hstep => hv.step hstep)
    rcases hresult (hrun.trans hlater) hstep hd hq with hsame | ⟨hagain, -⟩
    · exact hsame
    · rw [hfiling, hrunId] at hagain
      exact absurd hagain (hend.2 _)

/-! ## A result delivered twice -/

/-- Two deliveries of one result have both read the running filing. -/
def deliveredTwice : List Move :=
  filed portalRouting ++ [(.environment (.claim 1 1) : Move), .start (.result submittedRun),
    .start (.result submittedRun),
    .access 1 0, .access 2 0, .access 1 0, .access 2 0]

/-- The first write lands, and the second finds no run to settle. -/
theorem result_applies_once_deliveredTwice :
    ∃ (w w' w₂ : World) (r r' : Option Result), Machine.Run filingOn.machine Free (.initial .empty) w ∧
      filingOn.machine.step w (.access 1 0) = some (w', r) ∧ w.shared.Runs 1 1 (some 0) ∧
      filingOn.machine.step w' (.access 2 0) = some (w₂, r') ∧ w₂.shared = w'.shared := by
  have hrun : ∃ w ∈ filingOn.machine.perform (.initial .empty) deliveredTwice,
    ∃ x ∈ filingOn.machine.step w (.access 1 0),
      ∃ y ∈ filingOn.machine.step x.1 (.access 2 0),
        (w.call 1).any (fun c => decide (c.origin = .result submittedRun)) = true ∧
        (x.1.call 2).any (fun c => decide (c.origin = .result submittedRun)) = true ∧
        x.1.shared.timeline ≠ w.shared.timeline := by
    decide +kernel
  obtain ⟨w, hw, ⟨w', r⟩, hs, ⟨w₂, r'⟩, hs', hcall, hcall', htimeline⟩ := hrun
  obtain ⟨c, hc, horigin⟩ := (Option.any_eq_true _ _).mp hcall
  obtain ⟨d, hd, horigin'⟩ := (Option.any_eq_true _ _).mp hcall'
  have hreach : Machine.Run filingOn.machine Free (.initial .empty) w := Machine.free_of_perform hw
  rcases result_applies_once hreach hs hc (of_decide_eq_true horigin) with hsame | ⟨hruns, hlater⟩
  · rw [hsame] at htimeline
    exact absurd rfl htimeline
  · exact ⟨w, w', w₂, r, r', hreach, hs, hruns, hs',
      hlater (.refl w') hs' hd (of_decide_eq_true horigin') rfl rfl⟩

end Civfix.Filings
