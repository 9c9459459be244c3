import Civfix.FilingService

/-! # What one step does to the filings

An access leaves everything as it is, makes the guarded write of its await, inserts a filing or
claims one. Everything that later invariants need of the operations is read off the writes an
await can make: none of them lets a filing run, none of them gives the city's reason, and an
operation keeps to its own request. -/
namespace Civfix.Filings

open KeyedTables InterleavedCalls

variable {cfg : Config} {s s' : Shared}

theorem Guard.admits_iff {g : Guard} {f : Filing} :
    g.admits f = true ↔ f.status ∈ g.status ∧ (∀ n, g.attempts = some n → f.attempts = n) ∧
      (∀ r, g.runId = some r → f.runId = some r) ∧ ∀ r, g.reason = some r → f.reason = some r := by
  simp only [admits, Bool.and_eq_true, List.contains_iff_mem, Option.all_eq_true, decide_eq_true_eq, and_assoc]

namespace FilingSet

variable (set : FilingSet) (now : Instant) (f : Filing)

@[simp] theorem apply_id : (set.apply now f).id = f.id := rfl

@[simp] theorem apply_reportId : (set.apply now f).reportId = f.reportId := rfl

@[simp] theorem apply_runId : (set.apply now f).runId = f.runId := rfl

@[simp] theorem apply_cityClosedAt : (set.apply now f).cityClosedAt = f.cityClosedAt := rfl

@[simp] theorem apply_status : (set.apply now f).status = set.status.getD f.status := rfl

@[simp] theorem apply_attempts : (set.apply now f).attempts = set.attempts.getD f.attempts := rfl

@[simp] theorem apply_reason : (set.apply now f).reason = set.reason.getD f.reason := rfl

end FilingSet

/-! ## The writes of an access -/

/-- What an access does to the shared state. -/
inductive Wrote (cfg : Config) (s : Shared) (p : Await) : Shared → Prop where
  | none : Wrote cfg s p s
  | update {id : FilingId} {g : Guard} {set : FilingSet} {x : Filing} {s' : Shared}
      (hu : p.update cfg = some (id, g, set)) (hx : s.filings.find? id = some x) (hg : g.admits x = true)
      (hf : s'.filings = s.filings.modify id (set.apply s.now) (set.apply_id s.now)) (hr : s'.nextRun = s.nextRun)
      (ht : s'.timeline = s.timeline ∨
        ∃ y note row, p = .applyWrite y note ∧ row.filing = some id ∧ s'.timeline = s.timeline ++ [row]) :
          Wrote cfg s p s'
  | insert {a : Create} {s' : Shared} (hp : p = .createInsert a) (hi : s.insertFiling (a.row cfg s.now) = some s') :
      Wrote cfg s p s'
  | claim {j : EmailJob} {f : Filing} {run : RunId} {s' : Shared} (hp : p = .emailClaim j f)
      (hc : s.claim f.id (f.attempts + 1) = some (s', run)) : Wrote cfg s p s'

theorem transition_cases (id : FilingId) (g : Guard) (set : FilingSet) (evidence : List EvidenceInput) :
    s.transition id g set evidence = (s, none) ∨ ∃ x, s.filings.find? id = some x ∧ g.admits x = true ∧
      (s.transition id g set evidence).1.filings = s.filings.modify id (set.apply s.now) (set.apply_id s.now) ∧
      (s.transition id g set evidence).1.nextRun = s.nextRun ∧
        (s.transition id g set evidence).1.timeline = s.timeline := by
  unfold Shared.transition
  split
  · exact .inl rfl
  · next x hx =>
    obtain ⟨hfind, hg⟩ := Option.filter_eq_some_iff.mp hx
    exact .inr ⟨x, hfind, hg, rfl, rfl, rfl⟩

theorem applyReportSuccess_cases (filing : FilingId) (r : ReportId) (note : String) (actor : Option UserId) :
    (s.applyReportSuccess filing r note actor).filings = s.filings ∧
      (s.applyReportSuccess filing r note actor).nextRun = s.nextRun ∧
      ((s.applyReportSuccess filing r note actor).timeline = s.timeline ∨
        ∃ row : TimelineRow, row.filing = some filing ∧
          (s.applyReportSuccess filing r note actor).timeline = s.timeline ++ [row]) := by
  unfold Shared.applyReportSuccess
  split
  · exact ⟨rfl, rfl, .inl rfl⟩
  · exact ⟨rfl, rfl, .inr ⟨_, rfl, rfl⟩⟩

theorem recordSuccess_cases {x : SuccessInput} {note : String} (h : s.recordSuccess x note = some s') :
    ∃ f, s.filings.find? x.filingId = some f ∧ x.guard.admits f = true ∧
      s'.filings = s.filings.modify x.filingId (x.set.apply s.now) (x.set.apply_id s.now) ∧ s'.nextRun = s.nextRun ∧
      (s'.timeline = s.timeline ∨ ∃ row : TimelineRow, row.filing = some x.filingId ∧
        s'.timeline = s.timeline ++ [row]) := by
  obtain ⟨f, hf, rfl⟩ := Option.map_eq_some_iff.mp h
  obtain ⟨hfind, hg⟩ := Option.filter_eq_some_iff.mp hf
  obtain ⟨hfilings, hrun, htimeline⟩ :=
    applyReportSuccess_cases (s := s.write x.filingId x.set) f.id f.reportId note x.actorId
  refine ⟨f, hfind, hg, hfilings, hrun, htimeline.imp id ?_⟩
  rintro ⟨row, hrow, heq⟩
  exact ⟨row, hrow.trans (congrArg some (Table.key_of_find? hfind)), heq⟩

/-- The access of an await whose write is a transition. -/
theorem wrote_of_transition {p : Await} {n : Go}
    (h : (s', n) ∈ ((p.update cfg).map (fun u => ((s.transition u.1 u.2.1 u.2.2 p.evidence).1,
      p.after cfg (s.transition u.1 u.2.1 u.2.2 p.evidence).2))).toList) : Wrote cfg s p s' := by
  rw [Option.mem_toList, Option.map_eq_some_iff] at h
  obtain ⟨⟨id, g, set⟩, hu, heq⟩ := h
  cases heq
  rcases transition_cases (s := s) id g set p.evidence with hnone | ⟨x, hx, hg, hf, hr, ht⟩
  · simp only [hnone]
    exact .none
  · exact .update hu hx hg hf hr (.inl ht)

theorem access_cases {p : Await} {n : Go} (h : (s', n) ∈ access cfg s p) : Wrote cfg s p s' := by
  -- A read leaves everything as it is.
  have hread : ∀ {m : Go}, (s', n) ∈ [(s, m)] → Wrote cfg s p s' := by
    intro m hm
    cases List.mem_singleton.mp hm
    exact .none
  cases p with
  | createReads a active latest =>
    rcases List.mem_append.mp h with h | h
    · split at h
      · exact hread h
      · cases h
    · split at h
      · exact hread h
      · cases h
  | createInsert a =>
    simp only [access, List.mem_singleton] at h
    split at h
    · cases h
      exact .none
    · next s₁ hi =>
      cases h
      exact .insert rfl hi
  | emailClaim j f =>
    simp only [access, List.mem_singleton] at h
    split at h
    · cases h
      exact .none
    · next s₁ run hc =>
      cases h
      exact .claim rfl hc
  | applyWrite x note =>
    simp only [access, List.mem_singleton] at h
    split at h
    · cases h
      exact .none
    · next s₁ hs =>
      cases h
      obtain ⟨f, hf, hg, hfilings, hr, ht⟩ := recordSuccess_cases hs
      refine .update rfl hf hg hfilings hr (ht.imp id ?_)
      rintro ⟨row, hrow, heq⟩
      exact ⟨x, note, row, rfl, hrow, heq⟩
  | retryWrite _ | retryOff _ | cancelWrite _ | manualReturn _ | resultWrite _ _ | emailCancel _ _ | settle _ _
  | sweepWrite _ _ _ | rejectWrite _ _ => exact wrote_of_transition h
  | _ => exact hread h

/-! ## An operation keeps to its request -/

def Success.request : Success → Request
  | .manual a _ => .recordManual a
  | .result p _ => .result p
  | .email t _ | .late t _ => .email t.job

/-- The request an await belongs to. -/
def Await.request : Await → Request
  | .createReport a | .createReads a _ _ | .createInsert a => .create a
  | .retryRead a | .retryReport a _ | .retryWrite a | .retryOff a => .retry a
  | .cancelRead id | .cancelWrite id => .cancel id
  | .manualRead a | .manualReturn a => .recordManual a
  | .resultRead p | .resultWrite p _ => .result p
  | .emailRead j | .emailSettings j _ | .emailReport j _ | .emailCancel j _ | .emailClaim j _ => .email j
  | .settle t _ | .deliver t _ => .email t.job
  | .sweepSettings | .sweepList _ | .sweepWrite _ _ _ => .sweep
  | .rejectRead r | .rejectWrite r _ => .cancelForReport r
  | .applyLoad x | .applyWrite x _ => x.request

/-- What comes next belongs to the request, if anything comes. -/
def Go.Of (r : Request) : Go → Prop
  | .await p => p.request = r
  | .done _ => True

theorem Go.Of.ite {c : Prop} [Decidable c] {r : Request} {a b : Go} (ha : Go.Of r a) (hb : Go.Of r b) :
    Go.Of r (if c then a else b) := by
  split
  · exact ha
  · exact hb

theorem request_apply (p : Payload) (f : Filing) (now : Instant) : (p.apply cfg f now).request = .result p := by
  have hite : ∀ {c : Prop} [Decidable c] {a b : Await}, a.request = .result p → b.request = .result p →
      (if c then a else b).request = .result p := by
    intro c _ a b ha hb
    split
    · exact ha
    · exact hb
  unfold Payload.apply
  split
  · exact hite rfl rfl
  · exact hite rfl rfl
  · rfl
  · split
    · split
      · rfl
      · exact hite rfl rfl
    · exact hite rfl rfl
    · rfl
  · rfl

theorem request_fail (t : Try) (thread : Option ThreadId) (e : SendError) :
    (t.fail thread e).request = .email t.job := by
  unfold Try.fail
  split
  · rfl
  · split
    · rfl
    · rfl

theorem request_proceed (t : Try) : t.proceed.request = .email t.job := by
  unfold Try.proceed
  split
  · rfl
  · split
    · exact request_fail t _ _
    · rfl
    · split
      · rfl
      · rfl

theorem request_delivered (t : Try) (thread : ThreadId) : (t.delivered thread).request = .email t.job := by
  unfold Try.delivered
  split
  · rfl
  · exact request_fail t _ _

theorem of_settled (t : Try) (landed : Bool) (x : TryOutcome) : Go.Of (.email t.job) (t.settled landed x) := by
  unfold Try.settled
  split
  · exact .ite rfl trivial
  · exact .ite rfl trivial
  · trivial

theorem of_sweepNext (l : List (FilingId × ℕ)) : Go.Of .sweep (sweepNext l) := by
  cases l with
  | nil => trivial
  | cons x l => rfl

theorem of_decide (a : Create) (active : Option (Option Filing)) (latest : Option (Option (Filing × Bool))) :
    Go.Of (.create a) (a.decide active latest) := by
  unfold Create.decide
  split
  · exact .ite trivial rfl
  · rfl

theorem of_after (p : Await) (f : Option Filing) : Go.Of p.request (p.after cfg f) := by
  unfold Await.after
  split
  · exact .ite rfl trivial
  · trivial
  · trivial
  · trivial
  · trivial
  · exact of_settled _ _ _
  · exact of_sweepNext _
  · trivial

theorem request_access {p : Await} {n : Go} (h : (s', n) ∈ access cfg s p) : Go.Of p.request n := by
  have hone : ∀ {x : Shared × Go}, (s', n) ∈ [x] → Go.Of p.request x.2 → Go.Of p.request n := by
    intro x hm hx
    cases List.mem_singleton.mp hm
    exact hx
  have htransition : (s', n) ∈ ((p.update cfg).map (fun u => ((s.transition u.1 u.2.1 u.2.2 p.evidence).1,
      p.after cfg (s.transition u.1 u.2.1 u.2.2 p.evidence).2))).toList → Go.Of p.request n := by
    intro hm
    rw [Option.mem_toList, Option.map_eq_some_iff] at hm
    obtain ⟨u, -, heq⟩ := hm
    cases heq
    exact of_after p _
  cases p with
  | createReads a active latest =>
    rcases List.mem_append.mp h with h | h
    · split at h
      · exact hone h (of_decide a _ _)
      · cases h
    · split at h
      · exact hone h (of_decide a _ _)
      · cases h
  | resultRead p =>
    refine hone h ?_
    split
    · trivial
    · exact request_apply p _ _
  | emailClaim j f =>
    refine hone h ?_
    split
    · trivial
    · exact request_proceed _
  | deliver t thread => exact hone h (request_delivered t thread)
  | sweepList _ => exact hone h (of_sweepNext _)
  | retryWrite _ | retryOff _ | cancelWrite _ | manualReturn _ | resultWrite _ _ | emailCancel _ _ | settle _ _
  | sweepWrite _ _ _ | rejectWrite _ _ => exact htransition h
  | _ =>
    refine hone h ?_
    split <;> (try split) <;> (try split) <;> trivial

theorem request_enter {o : Request} {p : Await} (h : enter s o = some (s', p)) : s' = s ∧ p.request = o := by
  cases o with
  | _ =>
    cases h
    exact ⟨rfl, rfl⟩

/-- Every call awaits something of its own request. -/
def Keeps (w : World) : Prop := ∀ i c, w.call i = some c → c.await.request = c.origin

theorem keeps_of_run {ok : World → Move → Prop} {w : World} (h : Machine.Run cfg.machine ok (.initial .empty) w) :
    Keeps w := by
  refine h.invariant (by simp [Keeps]) ?_
  intro w w' m r hw _ hs i c hc
  rcases Machine.call_cases hs hc with ⟨o, p, -, -, rfl, he⟩ | ⟨k, d, p, -, hd, rfl, hmem⟩ | ⟨hc, -⟩
  · exact (request_enter he).2
  · have hof : p.request = d.await.request := request_access hmem
    exact hof.trans (hw i d hd)
  · exact hw i c hc

/-! ## What a success goes by -/

/-- What the read before a success has found: the filing of the result, or an open one. -/
def Success.Read : Success → Prop
  | .manual _ status => status = .queued ∨ status = .needsHuman
  | .result p f => f.id = p.filingId
  | .email _ _ | .late _ _ => True

def Await.Read : Await → Prop
  | .applyLoad x | .applyWrite x _ => x.Read
  | _ => True

theorem read_apply {p : Payload} {f : Filing} (hf : f.id = p.filingId) (now : Instant) : (p.apply cfg f now).Read := by
  have hite : ∀ {c : Prop} [Decidable c] {a b : Await}, a.Read → b.Read → (if c then a else b).Read := by
    intro c _ a b ha hb
    split
    · exact ha
    · exact hb
  unfold Payload.apply
  split
  · exact hite hf trivial
  · exact hite hf trivial
  · trivial
  · split
    · split
      · trivial
      · exact hite trivial trivial
    · exact hite trivial trivial
    · trivial
  · trivial

theorem isOpen_status {f : Filing} (h : isOpen f = true) : f.status = .queued ∨ f.status = .needsHuman := by
  simp only [isOpen, Bool.and_eq_true, Bool.or_eq_true, decide_eq_true_eq] at h
  exact h.1

theorem read_of_email {q : Await} {j : EmailJob} (h : q.request = .email j) : q.Read := by
  cases q with
  | applyLoad x | applyWrite x _ =>
    cases x with
    | email _ _ | late _ _ => trivial
    | _ => cases h
  | _ => trivial

theorem read_access {p q : Await} (h : (s', .await q) ∈ access cfg s p) (hp : p.Read) : q.Read := by
  have hone : ∀ {x : Shared × Go}, (s', .await q) ∈ [x] → x.2 = .await q := by
    intro x hm
    cases List.mem_singleton.mp hm
    rfl
  have hrequest : q.request = p.request := request_access h
  cases p with
  | resultRead p =>
    have hnext := hone h
    split at hnext
    · cases hnext
    · next f hf =>
      cases hnext
      exact read_apply (Table.key_of_find? hf) s.now
  | manualRead a =>
    have hnext := hone h
    split at hnext
    · cases hnext
    · split at hnext
      · cases hnext
        trivial
      · split at hnext
        · next hopen =>
          cases hnext
          exact isOpen_status hopen
        · cases hnext
  | applyLoad x =>
    have hnext := hone h
    split at hnext
    · cases hnext
    · cases hnext
      exact hp
  | applyWrite x note =>
    have hnext := hone h
    split at hnext
    · cases hnext
    · cases hnext
  | manualReturn _ | resultWrite _ _ => cases hone h
  | emailRead _ | emailSettings _ _ | emailReport _ _ | emailCancel _ _ | emailClaim _ _ | settle _ _ | deliver _ _ =>
    exact read_of_email hrequest
  | _ =>
    cases q with
    | applyLoad x | applyWrite x _ =>
      cases x with
      | _ => cases hrequest
    | _ => trivial

theorem read_enter {o : Request} {p : Await} (h : enter s o = some (s', p)) : p.Read := by
  cases o <;> cases h <;> trivial

/-- Every success goes by what its call has read. -/
def Reads (w : World) : Prop := ∀ i c, w.call i = some c → c.await.Read

theorem reads_of_run {ok : World → Move → Prop} {w : World} (h : Machine.Run cfg.machine ok (.initial .empty) w) :
    Reads w := by
  refine h.invariant (by simp [Reads]) ?_
  intro w w' m r hw _ hs i c hc
  rcases Machine.call_cases hs hc with ⟨o, p, -, -, rfl, he⟩ | ⟨k, d, p, -, hd, rfl, hmem⟩ | ⟨hc, -⟩
  · exact read_enter he
  · exact read_access hmem (hw i d hd)
  · exact hw i c hc

/-! ## The columns a write may set -/

theorem initialState_status (cfg : Config) (route : ResolvedRoute) :
    (initialState cfg route).1 = .queued ∨ (initialState cfg route).1 = .needsHuman := by
  unfold initialState
  split
  · exact .inr rfl
  · split
    · exact .inr rfl
    · exact .inl rfl

theorem resolveFilingRoute_reason (cfg : Config) (r : Routing) :
    (resolveFilingRoute cfg r).reason ≠ some .cityNeedsInfo := by
  unfold resolveFilingRoute
  split
  · simp [NO_ROUTE]
  · split
    · split
      · simp [NO_ROUTE]
      · simp
    · simp only
      split
      · simp
      · split
        · simp
        · simp

theorem initialState_reason (r : Routing) : (initialState cfg (resolveFilingRoute cfg r)).2 ≠ some .cityNeedsInfo := by
  have hroute := resolveFilingRoute_reason cfg r
  unfold initialState
  split
  · next reason hreason =>
    rw [hreason] at hroute
    exact hroute
  · split
    · simp
    · simp

/-- A write sets the status, to one in which nothing runs, or leaves status and attempts alone. -/
theorem update_status {p : Await} {id : FilingId} {g : Guard} {set : FilingSet} (h : p.update cfg = some (id, g, set)) :
    (∃ st, set.status = some st ∧ st ≠ .running) ∨ (set.status = none ∧ set.attempts = none) := by
  cases p with
  | retryWrite a =>
    cases h
    refine .inl ⟨_, rfl, ?_⟩
    rcases initialState_status cfg (resolveFilingRoute cfg a.routing) with hst | hst
    · rw [hst]
      decide
    · rw [hst]
      decide
  | resultWrite p x =>
    cases h
    cases x with
    | needsHuman reason detail => exact .inl ⟨_, rfl, by decide⟩
    | requeue attempts next wait => exact .inl ⟨_, rfl, by decide⟩
    | cancelled => exact .inl ⟨_, rfl, by decide⟩
  | settle t x =>
    cases h
    cases x with
    | thread id => exact .inr ⟨rfl, rfl⟩
    | noRoute => exact .inl ⟨_, rfl, by decide⟩
    | uncertain thread => exact .inl ⟨_, rfl, by decide⟩
    | failed detail => exact .inl ⟨_, rfl, by decide⟩
    | requeued => exact .inl ⟨_, rfl, by decide⟩
  | applyWrite x note =>
    cases h
    refine .inl ⟨_, rfl, ?_⟩
    cases (x.input cfg).outcome <;> decide
  | retryOff _ | cancelWrite _ | manualReturn _ | emailCancel _ _ | sweepWrite _ _ _ | rejectWrite _ _ =>
    cases h
    exact .inl ⟨_, rfl, by decide⟩
  | _ => cases h

/-- No write gives a filing the city's reason. -/
theorem update_reason {p : Await} {id : FilingId} {g : Guard} {set : FilingSet} (h : p.update cfg = some (id, g, set)) :
    set.reason ≠ some (some .cityNeedsInfo) := by
  cases p with
  | retryWrite a =>
    cases h
    intro heq
    exact initialState_reason a.routing (Option.some.inj heq)
  | resultWrite p x =>
    cases h
    cases x with
    | needsHuman reason detail =>
      intro heq
      exact reason.2 (Option.some.inj (Option.some.inj heq))
    | requeue attempts next wait => exact nofun
    | cancelled => exact nofun
  | settle t x =>
    cases h
    cases x with
    | thread id => exact nofun
    | noRoute => exact nofun
    | uncertain thread => exact nofun
    | failed detail => exact nofun
    | requeued => exact nofun
  | applyWrite x note =>
    cases h
    exact nofun
  | retryOff _ | cancelWrite _ | manualReturn _ | emailCancel _ _ | sweepWrite _ _ _ | rejectWrite _ _ =>
    cases h
    exact nofun
  | _ => cases h

/-! ## What the environment does -/

theorem insertFiling_eq {f : Filing} (h : s.insertFiling f = some s') :
    s.filings.find? f.id = none ∧ s' = { s with filings := s.filings.insert f } := by
  unfold Shared.insertFiling at h
  split at h
  · cases h
  · next hfree =>
    cases h
    rw [not_or] at hfree
    exact ⟨Option.not_isSome_iff_eq_none.mp hfree.1, rfl⟩

theorem find?_insertFiling {f : Filing} (h : s.insertFiling f = some s') (id : FilingId) :
    s'.filings.find? id = if id = f.id then some f else s.filings.find? id := by
  obtain ⟨hnone, rfl⟩ := insertFiling_eq h
  rw [Table.find?_insert]
  split
  · next hid =>
    subst hid
    rw [hnone, Option.getD_none]
  · rfl

theorem claim_eq {id : FilingId} {attempt : ℕ} {run : RunId} (h : s.claim id attempt = some (s', run)) :
    ∃ x, s.filings.find? id = some x ∧ x.status = .queued ∧ x.attempts + 1 = attempt ∧ run = s.nextRun ∧
      s' = { s with
        filings := s.filings.modify id
          (fun f => { f with status := .running, attempts := attempt, runId := some s.nextRun, updatedAt := s.now }) (fun _ => rfl)
        nextRun := s.nextRun + 1 } := by
  obtain ⟨x, hx, heq⟩ := Option.map_eq_some_iff.mp h
  obtain ⟨hfind, hguard⟩ := Option.filter_eq_some_iff.mp hx
  cases heq
  simp only [decide_eq_true_eq] at hguard
  exact ⟨x, hfind, hguard.1, hguard.2, rfl, rfl⟩

/-- The columns that guards and invariants are about are the same. -/
def Filing.SameState (x y : Filing) : Prop :=
  y.status = x.status ∧ y.reason = x.reason ∧ y.attempts = x.attempts ∧ y.runId = x.runId

/-- A city update rewrites at most one filing, whose state it leaves alone or turns, from a
success, into the city's question. The rows it adds to a timeline are no success effects. -/
structure CityUpdated (s s' : Shared) : Prop where
  runs : s'.nextRun = s.nextRun
  rows : ∀ row ∈ s'.timeline, row ∈ s.timeline ∨ row.filing = none
  older : ∀ row ∈ s.timeline, row ∈ s'.timeline
  filings : ∃ (id : FilingId) (g : Filing → Filing),
    (∀ k, s'.filings.find? k = if k = id then (s.filings.find? k).map g else s.filings.find? k) ∧
    ((∀ x : Filing, x.SameState (g x)) ∨
      ((∃ f, s.filings.find? id = some f ∧ f.status.successful = true) ∧
        ∀ x, (g x).status = .needsHuman ∧ (g x).reason = some .cityNeedsInfo))

theorem find?_writeRow (id : FilingId) (g : Filing → Filing) (hg : ∀ r, (g r).id = r.id) (k : FilingId) :
    (s.writeRow id g hg).filings.find? k = if k = id then (s.filings.find? k).map g else s.filings.find? k :=
  Table.find?_modify _ _ _ _ hg

theorem CityUpdated.refl (s : Shared) : CityUpdated s s :=
  ⟨rfl, fun _ h => .inl h, fun _ h => h, 0, id, fun k => by simp, .inl (fun _ => ⟨rfl, rfl, rfl, rfl⟩)⟩

theorem cityUpdated_of_effect {f : Filing} {e : CityUpdateEffect} (hf : s.filings.find? f.id = some f)
    (h : s.applyEffectIn f e = some s') : CityUpdated s s' := by
  have hadded : ∀ {rows : List TimelineRow}, (∀ row ∈ rows, row.filing = none) →
      ∀ row ∈ s.timeline ++ rows, row ∈ s.timeline ∨ row.filing = none := by
    intro rows hrows row hrow
    rcases List.mem_append.mp hrow with hrow | hrow
    · exact .inl hrow
    · exact .inr (hrows row hrow)
  cases e with
  | none => cases h
  | flag => cases h
  | caseId caseId note =>
    simp only [Shared.applyEffectIn] at h
    split at h
    · cases h
    · cases h
      refine ⟨rfl, hadded ?_, fun row hrow => List.mem_append_left _ hrow, f.id, fun x => x.received s.now caseId,
        fun k => find?_writeRow _ (fun x => x.received s.now caseId) (fun _ => rfl) k,
          .inl (fun x => ⟨rfl, rfl, rfl, rfl⟩)⟩
      intro row hrow
      obtain ⟨r, -, rfl⟩ := Option.map_eq_some_iff.mp (Option.mem_toList.mp hrow)
      rfl
  | reportStatus sources target note kind cityClosed =>
    have hnote : ∀ row ∈ [(⟨f.reportId, target, note, kind, none, none⟩ : TimelineRow)], row.filing = none := by
      intro row hrow
      cases List.mem_singleton.mp hrow
      rfl
    simp only [Shared.applyEffectIn] at h
    split at h
    · cases h
      split
      · exact ⟨rfl, hadded hnote, fun row hrow => List.mem_append_left _ hrow, f.id, fun x => x.closedByCity s.now,
          fun k => find?_writeRow _ (fun x => x.closedByCity s.now) (fun _ => rfl) k,
            .inl (fun x => ⟨rfl, rfl, rfl, rfl⟩)⟩
      · exact ⟨rfl, hadded hnote, fun row hrow => List.mem_append_left _ hrow, 0, id, fun k => by simp,
          .inl (fun x => ⟨rfl, rfl, rfl, rfl⟩)⟩
    · cases h
  | needsInfo detail =>
    simp only [Shared.applyEffectIn] at h
    split at h
    · next hguard =>
      cases h
      exact ⟨rfl, fun row hrow => .inl hrow, fun row hrow => hrow, f.id, fun x => x.askedByCity s.now detail,
        fun k => find?_writeRow _ (fun x => x.askedByCity s.now detail) (fun _ => rfl) k,
          .inr ⟨⟨f, hf, hguard.1⟩, fun x => ⟨rfl, rfl⟩⟩⟩
    · cases h

theorem cityUpdated_of_update {pattern : String → Bool} {names : Geoid → Option String} {id : MessageId}
    {c : Option Classification} (h : s.applyCityUpdate pattern names id c = some s') : CityUpdated s s' := by
  obtain ⟨m, -, h⟩ := Option.bind_eq_some_iff.mp h
  obtain ⟨f, hf, rfl⟩ := Option.map_eq_some_iff.mp h
  have hid : f.id = m.filingId := Table.key_of_find? hf
  rw [← hid] at hf
  simp only
  split
  · next applied heff =>
    have hcity := fun hf => cityUpdated_of_effect hf heff
    obtain ⟨hr, hrows, hold, hfilings⟩ := hcity hf
    exact ⟨hr, hrows, hold, hfilings⟩
  · split
    · exact ⟨rfl, fun row hrow => .inl hrow, fun row hrow => hrow, (CityUpdated.refl s).filings⟩
    · exact ⟨rfl, fun row hrow => .inl hrow, fun row hrow => hrow, (CityUpdated.refl s).filings⟩

/-- What an event does to the filings. -/
inductive Happened (s : Shared) (e : Event) : Shared → Prop where
  | beside {s' : Shared} (hf : s'.filings = s.filings) (hr : s'.nextRun = s.nextRun) (ht : s'.timeline = s.timeline) :
      Happened s e s'
  | city {s' : Shared} (h : CityUpdated s s') : Happened s e s'
  | inserted {f : Filing} {s₁ s' : Shared} (hi : s.insertFiling f = some s₁) (hf : s'.filings = s₁.filings)
      (hr : s'.nextRun = s.nextRun) (hsucceeded : s'.timeline = s.timeline ∨ f.status = .submitted ∧
        ∃ row : TimelineRow, row.filing = some f.id ∧ s'.timeline = s.timeline ++ [row])
      (hstatus : f.status = .submitted ∨ f.status = .needsHuman) (hreason : f.reason ≠ some .cityNeedsInfo) :
        Happened s e s'
  | claimed {id : FilingId} {attempt : ℕ} {run : RunId} {s' : Shared} (he : e = .claim id attempt)
      (hc : s.claim id attempt = some (s', run)) : Happened s e s'

theorem environment_cases {e : Event} (h : environment cfg s e = some s') : Happened s e s' := by
  cases e with
  | tick _ | report _ | thread _ | pause _ | message _ =>
    cases h
    exact .beside rfl rfl rfl
  | cityUpdate id c => exact .city (cityUpdated_of_update h)
  | routed n thread =>
    obtain ⟨inserted, hi, rfl⟩ := Option.map_eq_some_iff.mp h
    obtain ⟨hf, hr, ht⟩ := applyReportSuccess_cases (s := inserted) n.id n.reportId
      (filingNote .submitted (n.geoid.bind cfg.jurisdictionName) none) n.createdBy
    obtain ⟨-, rfl⟩ := insertFiling_eq hi
    refine .inserted hi hf hr (ht.imp id (fun hrow => ⟨rfl, hrow⟩)) (.inl rfl) nofun
  | reopened r id =>
    simp only [environment, Shared.insertReopenFiling] at h
    split at h
    · cases h
    · split at h
      · cases h
      · obtain ⟨-, rfl⟩ := insertFiling_eq h
        refine .inserted h rfl rfl (.inl rfl) (.inr rfl) ?_
        simp [NewFiling.row]
  | claim id attempt =>
    obtain ⟨⟨s₁, run⟩, hc, rfl⟩ := Option.map_eq_some_iff.mp h
    exact .claimed rfl hc

/-! ## Running filings -/

variable {w w' : World} {m : Move} {r : Option Result}

/-- What the move claims, when it is a claim and the claim is had. -/
def claims (w : World) : Move → Option (FilingId × ℕ)
  | .environment (.claim id n) => if (w.shared.claim id n).isSome then some (id, n) else none
  | .access i _ => (w.call i).bind (fun c => match c.await with
    | .emailClaim _ f => if (w.shared.claim f.id (f.attempts + 1)).isSome then some (f.id, f.attempts + 1) else none
    | _ => none)
  | _ => none

theorem find?_update {id : FilingId} {set : FilingSet} {k : FilingId} {y : Filing}
    (hf : s'.filings = s.filings.modify id (set.apply s.now) (set.apply_id s.now)) (hy : s'.filings.find? k = some y) :
    (k = id ∧ ∃ x, s.filings.find? k = some x ∧ y = set.apply s.now x) ∨ (k ≠ id ∧ s.filings.find? k = some y) := by
  rw [hf, Table.find?_modify] at hy
  split at hy
  · next hk =>
    obtain ⟨x, hx, rfl⟩ := Option.map_eq_some_iff.mp hy
    exact .inl ⟨hk, x, hx, rfl⟩
  · next hk => exact .inr ⟨hk, hy⟩

/-- After a claim only the claimed filing runs that did not run before. -/
theorem running_of_claim {id k : FilingId} {n : ℕ} {run : RunId} {y : Filing} (hc : s.claim id n = some (s', run))
    (hy : s'.filings.find? k = some y) :
    s.filings.find? k = some y ∨ (k = id ∧ y.attempts = n ∧ y.runId = some s.nextRun ∧ s'.nextRun = s.nextRun + 1) := by
  obtain ⟨x, -, -, -, -, rfl⟩ := claim_eq hc
  rw [Table.find?_modify] at hy
  split at hy
  · next hk =>
    obtain ⟨z, -, rfl⟩ := Option.map_eq_some_iff.mp hy
    exact .inr ⟨hk, rfl, rfl, rfl⟩
  · exact .inl hy

theorem wrote_of_access {i k : ℕ} {c : Call Request Await} (hs : cfg.machine.step w (.access i k) = some (w', r))
    (hc : w.call i = some c) : Wrote cfg w.shared c.await w'.shared := by
  rcases Machine.shared_cases hs with ⟨o, p, hm, -⟩ | ⟨j, l, d, n, hm, hd, hmem⟩ | ⟨j, hm, -⟩ | ⟨e, hm, -, -⟩
  · cases hm
  · cases hm
    cases hc.symm.trans hd
    exact access_cases hmem
  · cases hm
  · cases hm

/-- The filing runs under the attempt and the run id. -/
def Shared.Runs (s : Shared) (id : FilingId) (attempts : ℕ) (run : Option RunId) : Prop :=
  ∃ x, s.filings.find? id = some x ∧ x.status = .running ∧ x.attempts = attempts ∧ x.runId = run

theorem runs_of_wrote {p : Await} {id : FilingId} {n : ℕ} {run : Option RunId} (h : Wrote cfg s p s')
    (hr : s'.Runs id n run) :
    s.Runs id n run ∨ (run = some s.nextRun ∧ s'.nextRun = s.nextRun + 1 ∧ ∃ j f x, p = .emailClaim j f ∧
      s.claim f.id (f.attempts + 1) = some x ∧
      f.id = id ∧ f.attempts + 1 = n) := by
  obtain ⟨y, hy, hstatus, rfl, rfl⟩ := hr
  cases h with
  | none => exact .inl ⟨y, hy, hstatus, rfl, rfl⟩
  | update hu hx hg hf hr ht =>
    rcases find?_update hf hy with ⟨-, x, hx, rfl⟩ | ⟨-, hold⟩
    · rw [FilingSet.apply_status] at hstatus
      rcases update_status hu with ⟨st, hst, hne⟩ | ⟨hst, hattempts⟩
      · rw [hst] at hstatus
        exact absurd hstatus hne
      · rw [hst] at hstatus
        refine .inl ⟨x, hx, hstatus, ?_, rfl⟩
        simp [hattempts]
    · exact .inl ⟨y, hold, hstatus, rfl, rfl⟩
  | @insert a _ hp hi =>
    rw [find?_insertFiling hi] at hy
    split at hy
    · cases hy
      rcases initialState_status cfg (resolveFilingRoute cfg a.routing) with hst | hst
      · exact absurd (hst.symm.trans hstatus) (by decide)
      · exact absurd (hst.symm.trans hstatus) (by decide)
    · exact .inl ⟨y, hy, hstatus, rfl, rfl⟩
  | @claim j f run _ hp hc =>
    rcases running_of_claim hc hy with hold | ⟨hid, hn, hrun, hnext⟩
    · exact .inl ⟨y, hold, hstatus, rfl, rfl⟩
    · exact .inr ⟨hrun, hnext, j, f, _, hp, hc, hid.symm, hn.symm⟩

theorem runs_of_happened {e : Event} {id : FilingId} {n : ℕ} {run : Option RunId} (h : Happened s e s')
    (hr : s'.Runs id n run) :
    s.Runs id n run ∨ (run = some s.nextRun ∧ s'.nextRun = s.nextRun + 1 ∧ e = .claim id n ∧
      (s.claim id n).isSome = true) := by
  obtain ⟨y, hy, hstatus, rfl, rfl⟩ := hr
  cases h with
  | beside hf hr ht =>
    rw [hf] at hy
    exact .inl ⟨y, hy, hstatus, rfl, rfl⟩
  | city h =>
    obtain ⟨k, g, hfind, hsame⟩ := h.filings
    rw [hfind] at hy
    split at hy
    · obtain ⟨x, hx, rfl⟩ := Option.map_eq_some_iff.mp hy
      rcases hsame with hsame | ⟨-, hasked⟩
      · obtain ⟨h1, -, h3, h4⟩ := hsame x
        exact .inl ⟨x, hx, h1.symm.trans hstatus, h3.symm, h4.symm⟩
      · rw [(hasked x).1] at hstatus
        cases hstatus
    · exact .inl ⟨y, hy, hstatus, rfl, rfl⟩
  | inserted hi hf hr hsucceeded hst hreason =>
    rw [hf, find?_insertFiling hi] at hy
    split at hy
    · cases hy
      rcases hst with hst | hst
      · exact absurd (hst.symm.trans hstatus) (by decide)
      · exact absurd (hst.symm.trans hstatus) (by decide)
    · exact .inl ⟨y, hy, hstatus, rfl, rfl⟩
  | claimed he hc =>
    rcases running_of_claim hc hy with hold | ⟨rfl, rfl, hrun, hnext⟩
    · exact .inl ⟨y, hold, hstatus, rfl, rfl⟩
    · exact .inr ⟨hrun, hnext, he, by rw [hc]; rfl⟩

/-- A filing that runs after a move ran before it, or the move claimed it under a new run id. -/
theorem runs_of_step {id : FilingId} {n : ℕ} {run : Option RunId} (hs : cfg.machine.step w m = some (w', r))
    (hr : w'.shared.Runs id n run) :
    w.shared.Runs id n run ∨
      (run = some w.shared.nextRun ∧ w'.shared.nextRun = w.shared.nextRun + 1 ∧ claims w m = some (id, n)) := by
  rcases Machine.shared_cases hs with ⟨o, p, -, he⟩ | ⟨i, k, c, x, rfl, hc, hmem⟩ | ⟨i, -, heq⟩ | ⟨e, rfl, he, -⟩
  · rw [(request_enter he).1] at hr
    exact .inl hr
  · rcases runs_of_wrote (access_cases hmem) hr with hold | ⟨hrun, hnext, j, f, x, hp, hclaim, rfl, rfl⟩
    · exact .inl hold
    · exact .inr ⟨hrun, hnext, by simp [claims, hc, hp, hclaim]⟩
  · rw [heq] at hr
    exact .inl hr
  · rcases runs_of_happened (environment_cases he) hr with hold | ⟨hrun, hnext, rfl, hclaim⟩
    · exact .inl hold
    · exact .inr ⟨hrun, hnext, by simp [claims, hclaim]⟩

theorem nextRun_le_of_claim {id : FilingId} {n : ℕ} {run : RunId} (hc : s.claim id n = some (s', run)) :
    s.nextRun ≤ s'.nextRun := by
  obtain ⟨x, -, -, -, -, rfl⟩ := claim_eq hc
  exact Nat.le_succ _

theorem nextRun_le_of_wrote {p : Await} (h : Wrote cfg s p s') : s.nextRun ≤ s'.nextRun := by
  cases h with
  | none => exact Nat.le_refl _
  | update hu hx hg hf hr ht => exact hr.ge
  | insert hp hi =>
    obtain ⟨-, rfl⟩ := insertFiling_eq hi
    exact Nat.le_refl _
  | claim hp hc => exact nextRun_le_of_claim hc

theorem nextRun_le_of_happened {e : Event} (h : Happened s e s') : s.nextRun ≤ s'.nextRun := by
  cases h with
  | beside hf hr ht => exact hr.ge
  | city h => exact h.runs.ge
  | inserted hi hf hr hsucceeded hst hreason => exact hr.ge
  | claimed he hc => exact nextRun_le_of_claim hc

theorem nextRun_le_of_step (hs : cfg.machine.step w m = some (w', r)) : w.shared.nextRun ≤ w'.shared.nextRun := by
  rcases Machine.shared_cases hs with ⟨o, p, -, he⟩ | ⟨i, k, c, x, rfl, hc, hmem⟩ | ⟨i, -, heq⟩ | ⟨e, rfl, he, -⟩
  · rw [(request_enter he).1]
  · exact nextRun_le_of_wrote (access_cases hmem)
  · rw [heq]
  · exact nextRun_le_of_happened (environment_cases he)

/-! ## How the runs of the later modules begin -/

/-- Automatic filing is on, and every case id is usable. -/
def filingOn : Config := ⟨true, fun _ => true, fun url => some ("https:", url), fun _ => none⟩

/-- A report in a city with a portal, or with nothing but an email address. -/
def portalRouting : Routing := ⟨some "4805000", "pothole", none, [⟨none, .portal, some "311.example", true⟩]⟩
def emailRouting : Routing := ⟨some "4805000", "pothole", some "311@example", []⟩

/-- A report is published, and a filing of it is created with the first call. -/
def filed (routing : Routing) : List Move :=
  [.environment (.report ⟨1, .published, none, none⟩), .start (.create ⟨1, 1, routing, "A pothole", none, none⟩),
    .access 0 0, .access 0 0, .access 0 0, .access 0 0]

/-- The first run of the first filing was a success. -/
def submittedRun : Payload where
  filingId := 1
  runId := 0
  attempt := 1
  outcome := .submitted
  reason := none
  reasonDetail := none
  caseId := some "26-00012345"
  caseUrl := none
  scriptVersion := none
  dryRun := false
  evidence := []
  positive := Nat.one_pos
  allowed := rfl

end Civfix.Filings
