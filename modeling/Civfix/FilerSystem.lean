import Civfix.FilerPresses
import Civfix.ProvedRuns

/-! # The API and the filer

The operations of the API interleave at will. One filer process at a time works one job at a time: it starts with the
reconciliation, or it claims a filing of the API's table and runs it. Jobs may come repeatedly, late or out of nowhere, and
whatever has been handed back may be applied any number of times, in any order. The packet of a run says of the portal what
the claimed row says; only a retry sets these columns.

`claimed` are the claims of the filer, and `retried` is how often submit had been clicked for a filing when the operator
last retried it; nothing reads them. -/
namespace Civfix.FilerSystem

open InterleavedCalls
open Filings (FilingId RunId Payload)
open CityFiler (RunKey Setup runOf Marked)

def FILING_RUNNING_MAX : ℕ := 100

structure System where
  api : Filings.World
  filer : CityFiler.World
  claimed : List RunKey
  retried : FilingId → ℕ

inductive Move where
  | api (m : Filings.Move)
  | boot (dryRun : Bool)
  | claim (id : FilingId) (attempt : ℕ) (dryRun : Bool)
  | filer (m : CityFiler.Move)

def listRunningFilings (s : Filings.Shared) : List CityFiler.RunningFiling :=
  (((s.filings.rows.filter fun f => decide (f.status = .running) && decide (f.channel = some .portal)).insertionSort
    fun f g => toLex (f.updatedAt, f.id) ≤ toLex (g.updatedAt, g.id)).take FILING_RUNNING_MAX).map fun f =>
      ⟨f.id, f.runId, f.attempts⟩

namespace System

variable (w : System)

def initial (portals : CityFiler.Host → CityFiler.HostEntry) : System :=
  ⟨.initial .empty, .initial (.empty portals), [], fun _ => 0⟩

/-- How often scripts have clicked submit for the filing. -/
def presses (id : FilingId) : ℕ := w.filer.shared.presses.countP fun key => decide (key.filingId = id)

/-- The filer does nothing. -/
def idle : Bool := w.filer.calls.all Option.isNone

/-- Claims of the filer are moves of their own, and a result has been handed back before it is applied. -/
def offers : Filings.Move → Bool
  | .environment (.claim _ _) => false
  | .start (.result p) => decide (p ∈ w.filer.shared.results)
  | _ => true

/-- The filing whose retry the move writes. -/
def retries : Filings.Move → Option FilingId
  | .access i _ => (w.api.call i).bind fun c => match c.await with
    | .retryWrite a => if (w.api.shared.getById a.id).any (fun f => decide (f.status = .needsHuman)) then some a.id else none
    | _ => none
  | _ => none

def noted (m : Filings.Move) (id : FilingId) : ℕ := if w.retries m = some id then w.presses id else w.retried id

def step (u : Setup) : Move → Option System
  | .api m =>
    if w.offers m then (u.cfg.machine.step w.api m).map fun x => { w with api := x.1, retried := w.noted m } else none
  | .boot dryRun =>
    if w.idle then
      (u.machine.step w.filer (.start (.reconcile dryRun (listRunningFilings w.api.shared)))).map fun x =>
        { w with filer := x.1 }
    else none
  | .claim id attempt dryRun =>
    if w.idle then
      (w.api.shared.getById id).bind fun f => (w.api.shared.claim id attempt).bind fun x =>
        (u.machine.step w.filer (.start (.run ⟨⟨id, x.2⟩, attempt, f.portalHost, f.formUrl, dryRun⟩))).map fun y =>
          { w with api := { w.api with shared := x.1 }, filer := y.1, claimed := ⟨id, x.2⟩ :: w.claimed }
    else none
  | .filer (.start _) => none
  | .filer m => (u.machine.step w.filer m).map fun x => { w with filer := x.1 }

end System

/-! ## Runs -/

variable {u : Setup} {ok : System → Move → Prop} {w w' w'' : System} {m : Move}

inductive Reaches (u : Setup) (ok : System → Move → Prop) : System → System → Prop where
  | refl (w : System) : Reaches u ok w w
  | tail {w w' w'' : System} (h : Reaches u ok w w') (m : Move) (hok : ok w' m) (hs : w'.step u m = some w'') :
      Reaches u ok w w''

theorem Reaches.invariant {P : System → Prop} (h : Reaches u ok w w') (hw : P w)
    (hstep : ∀ {v v' : System} {m : Move}, P v → ok v m → v.step u m = some v' → P v') : P w' := by
  induction h with
  | refl => exact hw
  | tail h m hok hs ih => exact hstep ih hok hs

/-- A list of moves, each allowed where it is made. -/
def System.perform (u : Setup) (ok : System → Move → Prop) [∀ w m, Decidable (ok w m)] : System → List Move → Option System
  | w, [] => some w
  | w, m :: ms => if ok w m then (w.step u m).bind fun w' => w'.perform u ok ms else none

theorem reaches_of_perform [∀ w m, Decidable (ok w m)] {ms : List Move} (h : w'.perform u ok ms = some w'')
    (hw : Reaches u ok w w') : Reaches u ok w w'' := by
  induction ms generalizing w' with
  | nil =>
    cases h
    exact hw
  | cons m ms ih =>
    simp only [System.perform] at h
    split at h
    · next hok =>
      obtain ⟨v, hs, h⟩ := Option.bind_eq_some_iff.mp h
      exact ih h (hw.tail m hok hs)
    · cases h

/-! ## The invariant -/

/-- What is known of a call of the filer. -/
def Knows (w : System) : CityFiler.Await → Prop
  | .run r st => CityFiler.Unpressed w.filer.shared r st ∧ (∀ p ∈ w.filer.shared.results, runOf p ≠ r.toRunKey) ∧
      r.toRunKey ∈ w.claimed ∧ w.api.shared.Runs r.filingId r.attempt (some r.runId)
  | .reconcile _ filings => ∀ f ∈ filings, ∀ run, f.runId = some run → run < w.api.shared.nextRun

/-- Nothing has reached the city for the filing since it was queued. -/
def Due (w : System) (id : FilingId) : Prop := w.api.shared.Due id fun run => w.filer.shared.pressed ⟨id, run⟩ = 0

structure Kept (u : Setup) (w : System) : Prop where
  api : Machine.Run u.cfg.machine (fun _ _ => True) (.initial .empty) w.api
  marked : Marked w.filer.shared
  calls : ∀ i c, w.filer.call i = some c → Knows w c.await
  alone : Machine.Exclusive (fun _ : Call CityFiler.Request CityFiler.Await => some ()) w.filer
  applied : ∀ i c p, w.api.call i = some c → c.origin = .result p → p ∈ w.filer.shared.results
  claimed : ∀ key ∈ w.filer.shared.presses, key ∈ w.claimed
  minted : ∀ key ∈ w.claimed, key.runId < w.api.shared.nextRun
  handed : ∀ p ∈ w.filer.shared.results, p.runId < w.api.shared.nextRun
  once : ∀ id, w.presses id ≤ w.retried id + 1
  due : ∀ id, Due w id → w.presses id ≤ w.retried id

theorem kept_initial (portals : CityFiler.Host → CityFiler.HostEntry) : Kept u (System.initial portals) where
  api := .refl _
  marked := CityFiler.marked_empty portals
  calls := fun i c hc => by cases hc
  alone := fun i j c d k hc => by cases hc
  applied := fun i c p hc => by cases hc
  claimed := fun key hkey => absurd hkey List.not_mem_nil
  minted := fun key hkey => absurd hkey List.not_mem_nil
  handed := fun p hp => absurd hp List.not_mem_nil
  once := fun id => Nat.zero_le _
  due := fun id _ => Nat.zero_le _

/-- The filing runs under a claim of the filer. -/
def System.holds (w : System) (f : Filings.Filing) : Bool :=
  decide (f.status = .running) && f.runId.any fun run => decide ((⟨f.id, run⟩ : RunKey) ∈ w.claimed)

/-- A write that lands on a filing running under a claim of the filer names the run, or leaves the status as it is. -/
def NamesRun (u : Setup) (w : System) : Move → Prop
  | .api (.access i _) => ∀ c ∈ w.api.call i, ∀ x ∈ c.await.update u.cfg, ∀ f ∈ w.api.shared.getById x.1,
      w.holds f = true → x.2.1.admits f = true → x.2.1.runId ≠ none ∨ x.2.2.status = none
  | _ => True

instance (u : Setup) (w : System) : DecidablePred (NamesRun u w)
  | .api (.access i _) => inferInstanceAs (Decidable (∀ c ∈ w.api.call i, ∀ x ∈ c.await.update u.cfg,
      ∀ f ∈ w.api.shared.getById x.1, w.holds f = true → x.2.1.admits f = true → x.2.1.runId ≠ none ∨ x.2.2.status = none))
  | .api (.start _) | .api (.crash _) | .api (.environment _) | .boot _ | .claim .. | .filer _ =>
    inferInstanceAs (Decidable True)

/-! ## Moves of the API -/

theorem of_mem_update {p : Filings.Await} {id : FilingId} {g : Filings.Guard} {set : Filings.FilingSet}
    {x : Filings.Filing} {i k : ℕ} {c : Call Filings.Request Filings.Await} (hok : NamesRun u w (.api (.access i k)))
    (hc : w.api.call i = some c) (hp : c.await = p) (hu : p.update u.cfg = some (id, g, set))
    (hx : w.api.shared.filings.find? id = some x) (hholds : w.holds x = true) (hg : g.admits x = true)
    (hset : set.status ≠ none) : ∃ run, g.runId = some run := by
  subst hp
  rcases hok c hc (id, g, set) hu x hx hholds hg with hrun | hnone
  · exact Option.ne_none_iff_exists'.mp hrun
  · exact absurd hnone hset

theorem holds_of_runs {id : FilingId} {run : RunId} {x : Filings.Filing}
    (hx : w.api.shared.filings.find? id = some x) (hrunning : x.status = .running) (hrun : x.runId = some run)
    (hclaimed : (⟨id, run⟩ : RunKey) ∈ w.claimed) : w.holds x = true := by
  have hid : x.id = id := KeyedTables.Table.key_of_find? hx
  simp only [System.holds, hrunning, hrun, hid, decide_true, Option.any_some, Bool.true_and, decide_eq_true_eq]
  exact hclaimed

/-- A run in progress is ended by its own result alone, which it has yet to hand back. -/
theorem runs_of_api {m : Filings.Move} {v : Filings.World} {o : Option Filings.Result} (h : Kept u w)
    (hok : NamesRun u w (.api m)) (hs : u.cfg.machine.step w.api m = some (v, o)) {r : CityFiler.Run}
    (hsent : ∀ p ∈ w.filer.shared.results, runOf p ≠ r.toRunKey) (hclaimed : r.toRunKey ∈ w.claimed)
    (hruns : w.api.shared.Runs r.filingId r.attempt (some r.runId)) :
    v.shared.Runs r.filingId r.attempt (some r.runId) := by
  rcases Machine.shared_cases hs with ⟨q, p, -, he⟩ | ⟨i, k, c, n, rfl, hc, hmem⟩ | ⟨i, -, heq⟩ | ⟨e, -, he, -⟩
  · rw [(Filings.request_enter he).1]
    exact hruns
  · rcases Filings.runs_after_wrote (Filings.access_cases hmem) hruns with
      hstill | ⟨g, set, x, hu, hx, hg, hrunning, hrun, hset⟩
    · exact hstill
    · exfalso
      obtain ⟨run, hnamed⟩ := of_mem_update hok hc rfl hu hx (holds_of_runs hx hrunning hrun hclaimed) hg hset
      obtain ⟨q, hq, hid, hrunId⟩ := Filings.update_runId (Filings.reads_of_run h.api i c hc) hu hnamed
      have horigin : c.origin = .result q := (Filings.keeps_of_run h.api i c hc).symm.trans hq
      have hadmitted := (Filings.Guard.admits_iff.mp hg).2.2.1 run hnamed
      have hsame : run = r.runId := Option.some.inj (hadmitted.symm.trans hrun)
      refine hsent q (h.applied i c q hc horigin) ?_
      rw [runOf, ← hid, ← hrunId, hsame]
  · rw [heq]
    exact hruns
  · exact Filings.runs_after_happened (Filings.environment_cases he) hruns

/-- A filing becomes due only with the operator's retry. -/
theorem due_of_api {m : Filings.Move} {v : Filings.World} {o : Option Filings.Result} (h : Kept u w)
    (hok : NamesRun u w (.api m)) (hs : u.cfg.machine.step w.api m = some (v, o)) {id : FilingId}
    (hdue : v.shared.Due id fun run => w.filer.shared.pressed ⟨id, run⟩ = 0) : Due w id ∨ w.retries m = some id := by
  rcases Machine.shared_cases hs with ⟨q, p, -, he⟩ | ⟨i, k, c, n, rfl, hc, hmem⟩ | ⟨i, -, heq⟩ | ⟨e, -, he, -⟩
  · rw [(Filings.request_enter he).1] at hdue
    exact .inl hdue
  · rcases Filings.due_of_wrote (Filings.access_cases hmem) hdue with hstill | ⟨g, set, x, hu, hx, hg, hset⟩
    · exact .inl hstill
    obtain ⟨hstatus, -, hrun, -⟩ := Filings.Guard.admits_iff.mp hg
    -- The filing ran under a run that has not clicked.
    have hunpressed : ∀ run, x.status = .running → x.runId = some run → w.filer.shared.pressed ⟨id, run⟩ = 0 →
        Due w id := by
      intro run hrunning hrunId hzero y hy
      cases hx.symm.trans hy
      exact .inr ⟨hrunning, run, hrunId, hzero⟩
    rcases Filings.update_queued hu hset with ⟨a, hp, rfl, rfl⟩ | ⟨q, attempts, next, wait, hp, rfl, rfl⟩ | ⟨hrunning, hnone⟩
    · refine .inr ?_
      have hneeds : x.status = .needsHuman := List.mem_singleton.mp hstatus
      simp only [System.retries, hc, Option.bind_some, hp]
      rw [Filings.Shared.getById, hx, Option.any_some, hneeds, if_pos (decide_eq_true rfl)]
    · have horigin : c.origin = .result q := by
        rw [← Filings.keeps_of_run h.api i c hc, hp]
        rfl
      have hasks : c.await.Asks := Filings.asks_of_run h.api hc
      rw [hp] at hasks
      exact .inl (hunpressed q.runId (List.mem_singleton.mp hstatus) (hrun _ rfl)
        (h.marked.results q (h.applied i c q hc horigin) hasks))
    · rw [hrunning] at hstatus
      have hstatus := List.mem_singleton.mp hstatus
      obtain ⟨run, hrunId⟩ := Option.ne_none_iff_exists'.mp
        (Filings.identified_of_run h.api id x.attempts x.runId ⟨x, hx, hstatus, rfl, rfl⟩)
      refine .inl (hunpressed run hstatus hrunId ?_)
      -- A write that names no run finds no run of the filer.
      rw [CityFiler.Shared.pressed, List.count_eq_zero]
      intro hpressed
      have hholds := holds_of_runs hx hstatus hrunId (h.claimed _ hpressed)
      obtain ⟨run', hnamed⟩ := of_mem_update hok hc rfl hu hx hholds hg (by rw [hset]; exact Option.some_ne_none _)
      rw [hnone] at hnamed
      cases hnamed
  · rw [heq] at hdue
    exact .inl hdue
  · exact .inl (Filings.due_of_happened (Filings.environment_cases he) hdue)

theorem Kept.api_step {m : Filings.Move} (h : Kept u w) (hok : NamesRun u w (.api m))
    (hs : w.step u (.api m) = some w') : Kept u w' := by
  simp only [System.step] at hs
  split at hs
  · next hoffers =>
    obtain ⟨⟨v, o⟩, hv, rfl⟩ := Option.map_eq_some_iff.mp hs
    have hnext := Filings.nextRun_le_of_step hv
    refine ⟨h.api.tail m trivial hv, h.marked, fun i c hc => ?_, h.alone, fun i c p hc hp => ?_, h.claimed,
      fun key hkey => lt_of_lt_of_le (h.minted key hkey) hnext, fun p hp => lt_of_lt_of_le (h.handed p hp) hnext,
      fun id => ?_, fun id hdue => ?_⟩
    · have hknows := h.calls i c hc
      cases hawait : c.await with
      | run r st =>
        rw [hawait] at hknows
        obtain ⟨hk, hsent, hclaimed, hruns⟩ := hknows
        exact ⟨hk, hsent, hclaimed, runs_of_api h hok hv hsent hclaimed hruns⟩
      | reconcile dryRun filings =>
        rw [hawait] at hknows
        exact fun f hf run hrun => lt_of_lt_of_le (hknows f hf run hrun) hnext
    · rcases Machine.call_cases hv hc with ⟨q, p', rfl, -, rfl, -⟩ | ⟨k, d, p', -, hd, rfl, -⟩ | ⟨hc, -⟩
      · cases hp
        exact of_decide_eq_true hoffers
      · exact h.applied i d p hd hp
      · exact h.applied i c p hc hp
    · change w.presses id ≤ w.noted m id + 1
      unfold System.noted
      split
      · exact Nat.le_succ _
      · exact h.once id
    · change w.presses id ≤ w.noted m id
      unfold System.noted
      split
      · exact Nat.le_refl _
      · next hretried => exact h.due id ((due_of_api h hok hv hdue).resolve_right hretried)
  · cases hs

/-! ## Moves of the filer -/

theorem call_of_idle (h : w.idle = true) (i : ℕ) : w.filer.call i = none :=
  World.call_eq_none (fun x hx => Option.isNone_iff_eq_none.mp (List.all_eq_true.mp h x hx)) i

theorem call_of_push (h : w.idle = true) {s : CityFiler.Shared} {c d : Call CityFiler.Request CityFiler.Await} {i : ℕ}
    (hd : (w.filer.push s c).call i = some d) : d = c ∧ i = w.filer.calls.length := by
  rw [World.call_push] at hd
  split at hd
  · next hi =>
    cases hd
    exact ⟨rfl, hi⟩
  · rw [call_of_idle h] at hd
    cases hd

theorem Kept.claim_step {id : FilingId} {n : ℕ} {dryRun : Bool} (h : Kept u w)
    (hs : w.step u (.claim id n dryRun) = some w') : Kept u w' := by
  simp only [System.step] at hs
  split at hs
  · next hidle =>
    obtain ⟨f, -, hs⟩ := Option.bind_eq_some_iff.mp hs
    obtain ⟨⟨s', run⟩, hc, hs⟩ := Option.bind_eq_some_iff.mp hs
    obtain ⟨x, -, -, -, rfl, hs'⟩ := Filings.claim_eq hc
    have hclaim : u.cfg.machine.step w.api (.environment (.claim id n)) = some (⟨s', w.api.calls⟩, none) := by
      simp only [Machine.step, Filings.Config.machine, Filings.environment, hc, Option.map_some]
    have hnext : s'.nextRun = w.api.shared.nextRun + 1 := by rw [hs']
    simp only [Machine.step, Setup.machine, CityFiler.enter, Option.map_some, Option.some.injEq] at hs
    subst hs
    -- The run id is new, so nothing is known of the run yet.
    have hunpressed : w.filer.shared.pressed ⟨id, w.api.shared.nextRun⟩ = 0 := by
      rw [CityFiler.Shared.pressed, List.count_eq_zero]
      exact fun hpressed => Nat.lt_irrefl _ (h.minted _ (h.claimed _ hpressed))
    refine ⟨h.api.tail _ trivial hclaim, h.marked.of_eq rfl (fun _ _ => rfl) fun p hp _ => .inl hp, fun i c hc' => ?_,
      fun i j c d k hc' hd _ _ => ?_, h.applied, fun key hkey => List.mem_cons_of_mem _ (h.claimed key hkey),
      fun key hkey => ?_, fun p hp => ?_, h.once, fun k hdue => h.due k (Filings.due_of_claim hc hdue)⟩
    · obtain ⟨rfl, -⟩ := call_of_push hidle hc'
      refine ⟨hunpressed, fun p hp hrun => ?_, List.mem_cons_self, Filings.runs_claimed hc⟩
      have hlt := h.handed p hp
      rw [show p.runId = w.api.shared.nextRun from (RunKey.mk.inj hrun).2] at hlt
      exact Nat.lt_irrefl _ hlt
    · exact (call_of_push hidle hc').2.trans (call_of_push hidle hd).2.symm
    · change key.runId < s'.nextRun
      rw [hnext]
      rcases List.mem_cons.mp hkey with rfl | hkey
      · exact Nat.lt_succ_self _
      · exact Nat.lt_succ_of_lt (h.minted key hkey)
    · change p.runId < s'.nextRun
      rw [hnext]
      exact Nat.lt_succ_of_lt (h.handed p hp)
  · cases hs

theorem minted_of_list {s : Filings.Shared} (hminted : ∀ id n run, s.Runs id n (some run) → run < s.nextRun)
    {f : CityFiler.RunningFiling} (hf : f ∈ listRunningFilings s) {run : RunId} (hrun : f.runId = some run) :
    run < s.nextRun := by
  obtain ⟨x, hx, rfl⟩ := List.mem_map.mp hf
  obtain ⟨hx, hrunning⟩ := List.mem_filter.mp ((List.mem_insertionSort _).mp (List.mem_of_mem_take hx))
  simp only [Bool.and_eq_true, decide_eq_true_eq] at hrunning
  exact hminted x.id x.attempts run ⟨x, KeyedTables.Table.mem_rows_iff.mp hx, hrunning.1, rfl, hrun⟩

theorem Kept.boot_step {dryRun : Bool} (h : Kept u w) (hs : w.step u (.boot dryRun) = some w') : Kept u w' := by
  simp only [System.step] at hs
  split at hs
  · next hidle =>
    simp only [Machine.step, Setup.machine, CityFiler.enter, Option.map_some, Option.some.injEq] at hs
    subst hs
    refine ⟨h.api, h.marked.of_eq rfl (fun _ _ => rfl) fun p hp _ => .inl hp, fun i c hc => ?_,
      fun i j c d k hc hd _ _ => ?_, h.applied, h.claimed, h.minted, h.handed, h.once, h.due⟩
    · obtain ⟨rfl, -⟩ := call_of_push hidle hc
      exact fun f hf run hrun => minted_of_list (Filings.minted_of_run h.api) hf hrun
    · exact (call_of_push hidle hc).2.trans (call_of_push hidle hd).2.symm
  · cases hs

/-- A click is of a filing that was due, and is so no longer. -/
theorem Kept.of_filer {v : CityFiler.World} (h : Kept u w) (hmarked : Marked v.shared)
    (hcalls : ∀ i c, v.call i = some c → Knows { w with filer := v } c.await)
    (halone : Machine.Exclusive (fun _ : Call CityFiler.Request CityFiler.Await => some ()) v)
    (hresults : ∀ p ∈ v.shared.results, p ∈ w.filer.shared.results ∨ p.runId < w.api.shared.nextRun)
    (holder : ∀ p ∈ w.filer.shared.results, p ∈ v.shared.results)
    (hpresses : v.shared.presses = w.filer.shared.presses ∨ ∃ key n, key ∈ w.claimed ∧
      w.api.shared.Runs key.filingId n (some key.runId) ∧ w.filer.shared.pressed key = 0 ∧
        v.shared.presses = key :: w.filer.shared.presses) : Kept u { w with filer := v } := by
  have hhanded : ∀ p ∈ v.shared.results, p.runId < w.api.shared.nextRun := by
    intro p hp
    rcases hresults p hp with hold | hlt
    · exact h.handed p hold
    · exact hlt
  have happlied : ∀ i c p, w.api.call i = some c → c.origin = .result p → p ∈ v.shared.results :=
    fun i c p hc hp => holder p (h.applied i c p hc hp)
  rcases hpresses with hsame | ⟨key, n, hclaimed, ⟨x, hx, hrunning, -, hrun⟩, hzero, hclick⟩
  · have hcount : ∀ id, System.presses { w with filer := v } id = w.presses id := fun id => by
      simp only [System.presses, hsame]
    refine ⟨h.api, hmarked, hcalls, halone, happlied, fun key hkey => h.claimed key (hsame ▸ hkey), h.minted, hhanded,
      fun id => (hcount id).le.trans (h.once id), fun id hdue => (hcount id).le.trans (h.due id ?_)⟩
    simpa only [Due, CityFiler.pressed_of_eq hsame] using hdue
  · have hcount : ∀ id, System.presses { w with filer := v } id = w.presses id + if key.filingId = id then 1 else 0 := by
      intro id
      simp only [System.presses, hclick, List.countP_cons, decide_eq_true_eq]
    have hpressed : ∀ key', v.shared.pressed key' = w.filer.shared.pressed key' + if key = key' then 1 else 0 := by
      intro key'
      simp only [CityFiler.Shared.pressed, hclick, List.count_cons, beq_iff_eq]
    refine ⟨h.api, hmarked, hcalls, halone, happlied, fun key' hkey' => ?_, h.minted, hhanded, fun id => ?_,
      fun id hdue => ?_⟩
    · change key' ∈ v.shared.presses at hkey'
      rw [hclick] at hkey'
      rcases List.mem_cons.mp hkey' with rfl | hkey'
      · exact hclaimed
      · exact h.claimed key' hkey'
    · change System.presses { w with filer := v } id ≤ w.retried id + 1
      rw [hcount]
      split
      · next hid =>
        subst hid
        refine Nat.succ_le_succ (h.due _ fun y hy => ?_)
        cases hx.symm.trans hy
        exact .inr ⟨hrunning, key.runId, hrun, hzero⟩
      · exact h.once id
    · change System.presses { w with filer := v } id ≤ w.retried id
      rw [hcount]
      split
      · next hid =>
        subst hid
        rcases hdue x hx with hqueued | ⟨-, run, hrun', hzero'⟩
        · rw [hrunning] at hqueued
          cases hqueued
        · cases hrun.symm.trans hrun'
          rw [show (⟨key.filingId, key.runId⟩ : RunKey) = key from rfl, hpressed, if_pos rfl] at hzero'
          cases hzero'
      · refine h.due id fun y hy => ?_
        rcases hdue y hy with hqueued | ⟨hrunning', run, hrun', hzero'⟩
        · exact .inl hqueued
        · rw [hpressed] at hzero'
          exact .inr ⟨hrunning', run, hrun', Nat.eq_zero_of_add_eq_zero_right hzero'⟩

/-- The call that has moved is the only one. -/
theorem call_of_outcome {i j : ℕ} {c d : Call CityFiler.Request CityFiler.Await} {s : CityFiler.Shared}
    {n : CityFiler.Next} (h : Kept u w) (hc : w.filer.call i = some c)
    (hd : (w.filer.put s i (n.call c.origin)).call j = some d) : n = .await d.await := by
  rcases World.call_put hd with ⟨-, hcall⟩ | ⟨hj, hd⟩
  · cases n with
    | await p =>
      cases hcall
      rfl
    | done a => cases hcall
  · exact absurd (h.alone j i d c () hd hc rfl rfl) hj

theorem Kept.filer_step {m : CityFiler.Move} (h : Kept u w) (hs : w.step u (.filer m) = some w') : Kept u w' := by
  have hstep : (∀ r, m ≠ .start r) ∧ ∃ v o, u.machine.step w.filer m = some (v, o) ∧ w' = { w with filer := v } := by
    cases m with
    | start r => cases hs
    | access _ _ | crash _ | environment _ =>
      simp only [System.step] at hs
      obtain ⟨⟨v, o⟩, hv, rfl⟩ := Option.map_eq_some_iff.mp hs
      refine ⟨fun _ heq => ?_, v, o, hv, rfl⟩
      cases heq
  obtain ⟨hstart, v, o, hv, rfl⟩ := hstep
  have halone : Machine.Exclusive (fun _ : Call CityFiler.Request CityFiler.Await => some ()) v :=
    h.alone.step_taking hv (fun r _ _ hm _ _ _ _ _ _ => absurd hm (hstart r)) fun _ _ _ _ _ _ _ _ => .inl rfl
  cases m with
  | start r => exact absurd rfl (hstart r)
  | access i k =>
    obtain ⟨c, n, hc, hk, hput⟩ := Machine.outcome_of_access hv
    have hmem := List.mem_of_getElem? hk
    have hknows := h.calls i c hc
    change (v.shared, n) ∈ CityFiler.access u w.filer.shared c.await at hmem
    cases hawait : c.await with
    | run r st =>
      rw [hawait] at hmem hknows
      obtain ⟨hunpressed, hsent, hclaimed, hruns⟩ := hknows
      have hsafe := CityFiler.safe_access h.marked hunpressed hmem
      refine h.of_filer (hsafe.marked h.marked hsent) (fun j d hd => ?_) halone (fun p hp => ?_) (fun p => hsafe.older) ?_
      · rw [hput] at hd
        obtain ⟨st', hst', hunpressed', hresults⟩ := hsafe.next (call_of_outcome h hc hd)
        rw [hst']
        refine ⟨hunpressed', fun p hp => hsent p ?_, hclaimed, hruns⟩
        rw [← hresults]
        exact hp
      · refine (hsafe.results hp).imp_right fun hrun => ?_
        rw [show p.runId = r.runId from congrArg RunKey.runId hrun]
        exact h.minted _ hclaimed
      · exact hsafe.presses.imp_right fun hclick => ⟨r.toRunKey, r.attempt, hclaimed, hruns, hclick⟩
    | reconcile dryRun filings =>
      rw [hawait] at hmem hknows
      have hreported := CityFiler.reported_reconcile hmem
      refine h.of_filer (hreported.marked h.marked) (fun j d hd => ?_) halone (fun p hp => ?_) hreported.older
        (.inl hreported.presses)
      · rw [hput] at hd
        obtain ⟨dryRun', rest, hrest, hsub⟩ := hreported.next _ (call_of_outcome h hc hd)
        rw [hrest]
        exact fun f hf => hknows f (hsub f hf)
      · refine (hreported.results p hp).imp_right ?_
        rintro ⟨⟨f, hf, hrun⟩, -⟩
        exact hknows f hf p.runId hrun
  | crash i =>
    simp only [Machine.step, Option.some.injEq, Prod.mk.injEq] at hv
    obtain ⟨rfl, -⟩ := hv
    refine h.of_filer h.marked (fun j d hd => ?_) halone (fun p hp => .inl hp) (fun p hp => hp) (.inl rfl)
    rcases World.call_put hd with ⟨-, hnone⟩ | ⟨-, hd⟩
    · cases hnone
    · exact h.calls j d hd
  | environment e =>
    obtain ⟨s, he, heq⟩ := Option.map_eq_some_iff.mp hv
    cases heq
    obtain ⟨hpresses, hresults, hmarker⟩ := CityFiler.environment_keeps he
    refine h.of_filer (h.marked.of_eq hpresses (fun key _ => hmarker key) fun p hp _ => .inl (hresults ▸ hp))
      (fun j d hd => ?_) halone (fun p hp => .inl (hresults ▸ hp)) (fun p hp => hresults ▸ hp) (.inl hpresses)
    have hknows := h.calls j d hd
    cases hawait : d.await with
    | run r st =>
      rw [hawait] at hknows
      obtain ⟨hunpressed, hsent, hclaimed, hruns⟩ := hknows
      exact ⟨hunpressed.of_eq hpresses (hmarker _), fun p hp => hsent p (hresults ▸ hp), hclaimed, hruns⟩
    | reconcile dryRun filings =>
      rw [hawait] at hknows
      exact hknows

/-! ## Every run -/

theorem Kept.step (h : Kept u w) (hok : NamesRun u w m) (hs : w.step u m = some w') : Kept u w' := by
  cases m with
  | api m => exact h.api_step hok hs
  | boot dryRun => exact h.boot_step hs
  | claim id attempt dryRun => exact h.claim_step hs
  | filer m => exact h.filer_step hs

/-- While every write that lands on a run of the filer names it, submit is clicked at most once for a filing between two
retries of the operator. -/
theorem submitted_once (u : Setup) (portals : CityFiler.Host → CityFiler.HostEntry) (w : System)
    (h : Reaches u (NamesRun u) (System.initial portals) w) (id : FilingId) : w.presses id ≤ w.retried id + 1 :=
  (h.invariant (kept_initial portals) fun hv hok hs => hv.step hok hs).once id

/-! ## Two runs -/

def cityPortal : CityFiler.Host → CityFiler.HostEntry := fun host =>
  if host = "311.example" then CityFiler.somePortal "a.example" else .missing

def citySetup : Setup := ⟨Filings.filingOn, CityFiler.plainSha256⟩

/-- The script of the first run is proved, and clicks. -/
def firstClick : List Move :=
  List.flatten [[0, 0, 0, 1, 0, 0, 1, 0, 1, 0, 1, 0].map fun k => .filer (.access 0 k),
    [.filer (.environment (.print (CityFiler.sentinelLine (CityFiler.hexBytes (CityFiler.ascii "hello")))))],
    [0, 1, 0, 0, 0, 1, 0, 0, 0].map fun k => .filer (.access 0 k)]

/-- A later run goes by the record, and clicks. -/
def laterClick (i : ℕ) : List Move := [0, 0, 0, 1, 0, 0, 0, 0].map fun k => .filer (.access i k)

/-- What the boot reports of a run that left its marker. -/
def interrupted : Payload where
  filingId := 1
  runId := 0
  attempt := 1
  outcome := .failed
  reason := some .uncertainSubmission
  reasonDetail := none
  caseId := none
  caseUrl := none
  scriptVersion := none
  dryRun := false
  evidence := []
  positive := Nat.one_pos
  allowed := rfl

/-- The filer crashes after a click, the next boot reports it, and the operator retries. -/
def retriedRun : List Move :=
  List.flatten [(Filings.filed Filings.portalRouting).map .api, [.claim 1 1 false], firstClick,
    [.filer (.crash 0), .boot false, .filer (.access 1 0), .filer (.access 1 0)],
    [.start (.result interrupted), .access 1 0, .access 1 0, .start (.retry ⟨1, Filings.portalRouting⟩), .access 2 0,
      .access 2 0, .access 2 0].map .api, [.claim 1 1 false], laterClick 2]

theorem submitted_once_retriedRun : ∃ w, Reaches citySetup (NamesRun citySetup) (System.initial cityPortal) w ∧
    w.presses 1 = 2 ∧ w.retried 1 = 1 ∧ w.presses 1 ≤ w.retried 1 + 1 := by
  have hmoves : ((System.initial cityPortal).perform citySetup (NamesRun citySetup) retriedRun).any
      (fun w => decide (w.presses 1 = 2 ∧ w.retried 1 = 1)) = true := by
    decide +kernel
  obtain ⟨w, hw, hcounts⟩ := (Option.any_eq_true _ _).mp hmoves
  obtain ⟨hpresses, hretried⟩ := of_decide_eq_true hcounts
  have hrun := reaches_of_perform hw (.refl _)
  exact ⟨w, hrun, hpresses, hretried, submitted_once citySetup cityPortal w hrun 1⟩

def anyMove (_ : System) (_ : Move) : Prop := True

instance (w : System) : DecidablePred (anyMove w) := fun _ => inferInstanceAs (Decidable True)

/-- A try of `filing.email` that ends with its last error. -/
def lastTry : Filings.EmailJob := ⟨1, true, .failed (.other "the mail server is away"), .sent, true, false⟩

/-- The sweep lists the try's filing as stuck. Then the try fails, the operator retries, and the filer claims the filing
under the same attempt and clicks. The sweep's write finds the attempt it has read, and puts the filing back. -/
def sweptRun : List Move :=
  List.flatten [(Filings.filed Filings.emailRouting).map .api,
    [.start (.email lastTry), .access 1 0, .access 1 0, .access 1 0, .access 1 0,
      .environment (.tick (Filings.ROUTE_DEADLINE_INFLIGHT_SECONDS * Filings.MS_PER_SECOND + 1)),
      .start .sweep, .access 2 0, .access 2 0, .access 1 0,
      .start (.retry ⟨1, Filings.portalRouting⟩), .access 3 0, .access 3 0, .access 3 0].map .api,
    [.claim 1 1 false], firstClick, [.api (.access 2 0)], [0, 1, 0, 0].map fun k => .filer (.access 0 k),
    [.claim 1 2 false], laterClick 1]

theorem swept_run_submits_twice : ¬ ∀ (u : Setup) (portals : CityFiler.Host → CityFiler.HostEntry) (w : System),
    Reaches u anyMove (System.initial portals) w → ∀ id, w.presses id ≤ w.retried id + 1 := by
  intro hall
  have hmoves : ((System.initial cityPortal).perform citySetup anyMove sweptRun).any
      (fun w => decide (w.presses 1 = 2 ∧ w.retried 1 = 0)) = true := by
    decide +kernel
  obtain ⟨w, hw, hcounts⟩ := (Option.any_eq_true _ _).mp hmoves
  obtain ⟨hpresses, hretried⟩ := of_decide_eq_true hcounts
  have honce := hall citySetup cityPortal w (reaches_of_perform hw (.refl _)) 1
  omega

end Civfix.FilerSystem
