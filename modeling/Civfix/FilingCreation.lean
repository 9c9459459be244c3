import Civfix.FilingSteps

/-! # A report is filed once

`create` decides from two reads, the active filing of the report and its latest success, and
inserts under an index that knows active filings only. What one read missed must still be there
when the other is made. -/
namespace Civfix.Filings

open KeyedTables InterleavedCalls

variable {cfg : Config} {s s' : Shared} {w w' : World} {m : Move} {r : Option Result} {report : ReportId}

namespace Shared

variable (s : Shared)

def hasActive (r : ReportId) : Bool := (s.getActiveForReport r).isSome

/-- A success that the city has not closed and whose mail has not bounced. -/
def stands (f : Filing) : Bool := f.cityClosedAt.isNone && !s.bounced f

def hasStanding (r : ReportId) : Bool :=
  s.filings.rows.any (fun f => decide (f.reportId = r) && f.status.successful && s.stands f)

def latestStands (r : ReportId) : Bool := (s.getLatestSuccessfulForReport r).any s.stands

/-- The report is filed: it has an active filing or a success that stands. -/
def covered (r : ReportId) : Bool := s.hasActive r || s.hasStanding r

end Shared

/-- Between the reads of `create` the report keeps what the other read looks for: its active
filing while the latest success alone is read, the standing of its latest success while the
active filing alone is read. -/
def Await.keeps (r : ReportId) (s s' : Shared) : Await → Bool
  | .createReads _ none (some _) => !s.hasActive r || s'.hasActive r
  | .createReads _ (some _) none => !s.latestStands r || s'.latestStands r
  | _ => true

/-- If a success of the report stands then its latest one does, and the move leaves what the
reads of the call have not told. -/
def Steady (cfg : Config) (r : ReportId) (n : ℕ) (w : World) (m : Move) : Prop :=
  (w.shared.hasStanding r = true → w.shared.latestStands r = true) ∧
    ∀ x ∈ cfg.machine.step w m, ∀ c ∈ w.call n, c.await.keeps r w.shared x.1.shared = true

instance (cfg : Config) (r : ReportId) (n : ℕ) (w : World) (m : Move) : Decidable (Steady cfg r n w m) :=
  inferInstanceAs (Decidable ((_ → _) ∧ ∀ x ∈ cfg.machine.step w m, ∀ c ∈ w.call n, _))

/-- The moves of a call, while the report is filed all along. -/
def Covered (r : ReportId) (w : World) (_ : Move) : Prop := w.shared.covered r = true

instance (r : ReportId) (w : World) (m : Move) : Decidable (Covered r w m) := inferInstanceAs (Decidable (_ = true))

/-- What the report has that the reads of `create` have not told so far. -/
def Await.Covers (s : Shared) : Await → Prop
  | .createReads a none (some latest) => alreadyFiled none latest = true ∨ s.hasActive a.reportId = true
  | .createReads a (some active) none => active.isSome = true ∨ s.latestStands a.reportId = true
  | .createInsert _ => False
  | _ => True

theorem alreadyFiled_none (s : Shared) (r : ReportId) :
    alreadyFiled none ((s.getLatestSuccessfulForReport r).map (fun f => (f, s.bounced f))) = s.latestStands r := by
  simp only [alreadyFiled, Shared.latestStands, Option.any_map]
  rfl

theorem alreadyFiled_eq (active : Option Filing) (latest : Option (Filing × Bool)) :
    alreadyFiled active latest = (active.isSome || alreadyFiled none latest) := by
  simp [alreadyFiled]

theorem active_or_latest {r : ReportId} (hcovered : s.covered r = true)
    (hlatest : s.hasStanding r = true → s.latestStands r = true) :
    s.hasActive r = true ∨ s.latestStands r = true := by
  rw [Shared.covered, Bool.or_eq_true] at hcovered
  exact hcovered.imp id hlatest

theorem decide_both {a : Create} {active : Option Filing} {latest : Option (Filing × Bool)} {q : Await}
    (h : a.decide (some active) (some latest) = .await q) : active.isSome = false ∧
    alreadyFiled none latest = false := by
  simp only [Create.decide] at h
  split at h
  · cases h
  · next hnot =>
    rw [Bool.not_eq_true, alreadyFiled_eq, Bool.or_eq_false_iff] at hnot
    exact hnot

theorem covers_access {p q : Await} {a : Create} (h : (s', .await q) ∈ access cfg s p)
    (hrequest : p.request = .create a)
    (hp : p.Covers s) (hcovered : s.covered a.reportId = true)
    (hlatest : s.hasStanding a.reportId = true → s.latestStands a.reportId = true) : q.Covers s' := by
  have hone : ∀ {x : Shared × Go}, (s', .await q) ∈ [x] → s' = x.1 ∧ x.2 = .await q := by
    intro x hm
    cases List.mem_singleton.mp hm
    exact ⟨rfl, rfl⟩
  have hfiled := active_or_latest hcovered hlatest
  cases p with
  | createReport b =>
    obtain ⟨-, hnext⟩ := hone h
    split at hnext
    · cases hnext
    · split at hnext
      · cases hnext
        trivial
      · cases hnext
  | createReads b active latest =>
    cases hrequest
    rcases List.mem_append.mp h with hread | hread
    · split at hread
      · next hnone =>
        cases Option.isNone_iff_eq_none.mp hnone
        obtain ⟨rfl, hnext⟩ := hone hread
        cases latest with
        | none =>
          cases hnext
          exact hfiled
        | some latest =>
          obtain ⟨hactive, hnot⟩ := decide_both hnext
          rcases hp with hp | hp
          · cases hnot.symm.trans hp
          · cases hactive.symm.trans hp
      · cases hread
    · split at hread
      · next hnone =>
        cases Option.isNone_iff_eq_none.mp hnone
        obtain ⟨rfl, hnext⟩ := hone hread
        cases active with
        | none =>
          cases hnext
          exact hfiled.symm.imp (alreadyFiled_none _ a.reportId).trans id
        | some active =>
          obtain ⟨hactive, hnot⟩ := decide_both hnext
          rcases hp with hp | hp
          · cases hactive.symm.trans hp
          · rw [alreadyFiled_none, hp] at hnot
            cases hnot
      · cases hread
  | createInsert b => exact hp.elim
  | applyLoad x | applyWrite x _ => cases x <;> cases hrequest
  | _ => cases hrequest

/-! ## The call over a run -/

/-- The call is in progress under its number and asks for the one filing, and between its reads
the report has what they have not told. -/
structure Creating (a : Create) (n : ℕ) (w : World) : Prop where
  started : n < w.calls.length
  request : ∀ c, w.call n = some c → c.await.request = .create a
  covers : ∀ c, w.call n = some c → c.await.Covers w.shared

theorem covers_of_keeps {p : Await} {a : Create} (hrequest : p.request = .create a) (hp : p.Covers s)
    (hkeeps : p.keeps a.reportId s s' = true) : p.Covers s' := by
  cases p with
  | createReads b active latest =>
    cases hrequest
    cases active with
    | none =>
      cases latest with
      | none => trivial
      | some latest =>
        rcases hp with hp | hp
        · exact .inl hp
        · rw [Await.keeps, hp] at hkeeps
          exact .inr hkeeps
    | some active =>
      cases latest with
      | none =>
        rcases hp with hp | hp
        · exact .inl hp
        · rw [Await.keeps, hp] at hkeeps
          exact .inr hkeeps
      | some latest => trivial
  | createInsert b => exact hp.elim
  | _ => trivial

theorem Creating.step {a : Create} {n : ℕ} (hw : Creating a n w) (hcovered : w.shared.covered a.reportId = true)
    (hok : Steady cfg a.reportId n w m) (hs : cfg.machine.step w m = some (w', r)) : Creating a n w' := by
  have hboth : ∀ c, w'.call n = some c → c.await.request = .create a ∧ c.await.Covers w'.shared := by
    intro c hc
    rcases Machine.call_cases hs hc with ⟨o, p, -, hn, -, -⟩ | ⟨k, d, p, -, hd, rfl, hmem⟩ | ⟨hc, -⟩
    · exact absurd hw.started (by omega)
    · have hof : p.request = d.await.request := request_access hmem
      exact ⟨hof.trans (hw.request d hd), covers_access hmem (hw.request d hd) (hw.covers d hd) hcovered hok.1⟩
    · exact ⟨hw.request c hc, covers_of_keeps (hw.request c hc) (hw.covers c hc) (hok.2 _ hs c hc)⟩
  exact ⟨lt_of_lt_of_le hw.started (Machine.length_le_of_step hs), fun c hc => (hboth c hc).1,
    fun c hc => (hboth c hc).2⟩

/-- While the report is filed all along and what the reads look for stays in place, `create`
inserts nothing. -/
theorem create_inserts_nothing {a : Create} {k : ℕ} {w₀ w₁ : World} {r₁ : Option Result}
    (hstart : cfg.machine.step w₀ (.start (.create a)) = some (w₁, r₁))
    (hrun : Machine.Run cfg.machine (fun w m => Covered a.reportId w m ∧
    Steady cfg a.reportId w₀.calls.length w m) w₁ w)
    (hs : cfg.machine.step w (.access w₀.calls.length k) = some (w', r)) : w'.shared = w.shared := by
  have hcreating : Creating a w₀.calls.length w := by
    refine hrun.invariant ?_ (fun hw hok hs => hw.step hok.1 hok.2 hs)
    cases hstart
    refine ⟨by simp [World.push], ?_, ?_⟩
    · intro c hc
      rw [World.call_push, if_pos rfl] at hc
      cases hc
      rfl
    · intro c hc
      rw [World.call_push, if_pos rfl] at hc
      cases hc
      trivial
  obtain ⟨c, hc⟩ := Machine.call_of_access hs
  have hrequest := hcreating.request c hc
  have hcovers := hcreating.covers c hc
  have hwrote := wrote_of_access hs hc
  generalize w'.shared = s' at hwrote ⊢
  cases hwrote with
  | none => rfl
  | update hu hx hg hf hr ht =>
    generalize c.await = p at hu hrequest
    cases p with
    | applyWrite x note => cases x <;> cases hrequest
    | applyLoad x => cases hu
    | _ => cases hrequest <;> cases hu
  | insert hp hi =>
    rw [hp] at hcovers
    exact hcovers.elim
  | claim hp hclaim =>
    rw [hp] at hrequest
    cases hrequest

/-! ## A success between the reads -/

/-- A filing of the report runs, and the result of the run is about to be written. -/
def aboutToSucceed : List Move :=
  filed portalRouting ++ [(.environment (.claim 1 1) : Move), .start (.result submittedRun), .access 1 0, .access 1 0]

/-- The operator files the same report again. -/
def fileAgain : Create := ⟨2, 1, portalRouting, "A pothole", none, none⟩

/-- The active filing is read before the success, the latest success after it. -/
theorem create_inserts_nothing_activeFirst :
    ∃ (w₀ w₁ w w' : World) (r₁ r : Option Result), filingOn.machine.step w₀ (.start (.create fileAgain)) =
      some (w₁, r₁) ∧
      Machine.Run filingOn.machine (fun w m => Covered 1 w m ∧ Steady filingOn 1 w₀.calls.length w m) w₁ w ∧
      filingOn.machine.step w (.access w₀.calls.length 0) = some (w', r) ∧ r = some .alreadyFiled ∧
        w'.shared = w.shared := by
  have hrun : ∃ w₀ ∈ filingOn.machine.perform (.initial .empty) aboutToSucceed,
      ∃ x ∈ filingOn.machine.step w₀ (.start (.create fileAgain)),
      ∃ w ∈ filingOn.machine.perform x.1 [.access 2 0, .access 2 0, .access 1 0],
      ∃ y ∈ filingOn.machine.step w (.access w₀.calls.length 0), y.2 = some .alreadyFiled ∧
        Machine.Allowed filingOn.machine (fun w m => Covered 1 w m ∧ Steady filingOn 1 w₀.calls.length w m) x.1
          [.access 2 0, .access 2 0, .access 1 0] := by
    decide +kernel
  obtain ⟨w₀, -, ⟨w₁, r₁⟩, hstart, w, hw, ⟨w', r⟩, hs, hr, hallowed⟩ := hrun
  have hreach := Machine.run_of_perform hallowed hw
  exact ⟨w₀, w₁, w, w', r₁, r, hstart, hreach, hs, hr, create_inserts_nothing hstart hreach hs⟩

/-- The latest success is read before there is one, and the active filing after it has succeeded. -/
theorem not_create_inserts_nothing :
    ¬ ∀ (cfg : Config) (a : Create) (w₀ w₁ w w' : World) (r₁ r : Option Result) (k : ℕ),
      Machine.Run cfg.machine (fun _ _ => True) (.initial .empty) w₀ →
      cfg.machine.step w₀ (.start (.create a)) = some (w₁, r₁) → Machine.Run cfg.machine (Covered a.reportId) w₁ w →
      w.shared.covered a.reportId = true → cfg.machine.step w (.access w₀.calls.length k) = some (w', r) →
      w'.shared.filings = w.shared.filings := by
  intro hclaim
  have hrun : ∃ w₀ ∈ filingOn.machine.perform (.initial .empty) aboutToSucceed,
      ∃ x ∈ filingOn.machine.step w₀ (.start (.create fileAgain)),
      ∃ w ∈ filingOn.machine.perform x.1 [.access 2 0, .access 2 1, .access 1 0, .access 2 0],
      ∃ y ∈ filingOn.machine.step w (.access w₀.calls.length 0), w.shared.covered 1 = true ∧
        Machine.Allowed filingOn.machine (Covered 1) x.1 [.access 2 0, .access 2 1, .access 1 0, .access 2 0] ∧
        (y.1.shared.filings.find? 2).isSome = true ∧ (w.shared.filings.find? 2).isSome = false := by
    decide +kernel
  obtain ⟨w₀, hw₀, ⟨w₁, r₁⟩, hstart, w, hw, ⟨w', r⟩, hs, hcovered, hallowed, hafter, hbefore⟩ := hrun
  have hsame := hclaim _ fileAgain w₀ w₁ w w' r₁ r 0 (Machine.free_of_perform hw₀) hstart
    (Machine.run_of_perform hallowed hw)
    hcovered hs
  rw [hsame, hbefore] at hafter
  cases hafter

end Civfix.Filings
