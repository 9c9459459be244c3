import Civfix.InterleavedCalls
import Civfix.KeyedTables

/-! # Media jobs

Any number of workers take batches from one queue. The handler of each job of a batch runs on its own, and its outcome
is written for this job alone; when all of the batch have settled, the queue passes its own verdict on the whole batch.
The queue may fail jobs by itself, when they expire or their worker stops, and a worker may die at any point.

The verdict of a batch that resolves completes whatever of it is active. A job that failed in the batch may have been
fetched again by then. -/
namespace Civfix.WorkerJobs

open KeyedTables InterleavedCalls

abbrev JobId := ℕ

abbrev JobData := ℕ

abbrev SingletonKey := ℕ

/-- A job that waits and has not been fetched yet is `created`. -/
inductive JobState where
  | created
  | retry
  | active
  | completed
  | failed
  deriving DecidableEq

structure Job where
  id : JobId
  data : JobData
  singletonKey : Option SingletonKey
  state : JobState

/-- A fetch makes the job active. -/
def Job.waits (j : Job) : Bool := j.state = .created || j.state = .retry

/-- The states before `completed`. -/
def Job.unfinished (j : Job) : Bool := j.state = .created || j.state = .retry || j.state = .active

inductive Policy where
  | standard
  | short

/-- An interrupted delivery of `job` was sent again, as a job of its own or to a job that waited already. The target is
as it was then. -/
structure Requeued where
  job : JobId
  target : Job
  fresh : Bool

/-- `returned` lists the jobs whose handler has returned, `requeued` what was handed back. -/
structure Store where
  jobs : Table Job.id
  returned : List JobId
  requeued : List Requeued

inductive Phase where
  | running
  | completing
  | failing
  | sending
  | handingBack
  | completed
  | failed
  | handedBack
  | broken
  deriving DecidableEq

/-- A job as it was fetched, and how far it has come in `settleEachJob`. -/
structure Delivery where
  id : JobId
  data : JobData
  singletonKey : Option SingletonKey
  phase : Phase

def Delivery.of (j : Job) : Delivery := ⟨j.id, j.data, j.singletonKey, .running⟩

abbrev Batch := List Delivery

abbrev Next := InterleavedCalls.Next Batch Unit

inductive Change where
  | send (data : JobData) (singletonKey : Option SingletonKey)
  | fail (ids spent : List JobId)

abbrev World := InterleavedCalls.World Store (List JobId) Batch

abbrev Move := InterleavedCalls.Move (List JobId) Change

/-! ## The queue -/

namespace Store

variable (s : Store)

def setState (p : Job → Bool) (state : Job → JobState) : Store :=
  { s with jobs := s.jobs.update p (fun j => { j with state := state j }) (fun _ => rfl) }

def fetch (ids : List JobId) : Store := s.setState (fun j => decide (j.id ∈ ids) && j.waits) fun _ => .active

def complete (ids : List JobId) : Store :=
  s.setState (fun j => decide (j.id ∈ ids) && decide (j.state = .active)) fun _ => .completed

/-- Those whose retries are spent are not tried again. -/
def fail (ids spent : List JobId) : Store :=
  s.setState (fun j => decide (j.id ∈ ids) && j.unfinished) fun j => if j.id ∈ spent then .failed else .retry

/-- The job that a send is dropped for. -/
def waitingFor (policy : Policy) (singletonKey : Option SingletonKey) : Option Job :=
  match policy, singletonKey with
  | .short, some key => s.jobs.rows.find? (fun j => decide (j.singletonKey = some key ∧ j.state = .created))
  | _, _ => none

def newJob (data : JobData) (singletonKey : Option SingletonKey) : Job :=
  ⟨(s.jobs.rows.map Job.id).foldr max 0 + 1, data, singletonKey, .created⟩

def send (policy : Policy) (data : JobData) (singletonKey : Option SingletonKey) : Store :=
  match s.waitingFor policy singletonKey with
  | some _ => s
  | none => { s with jobs := s.jobs.insert (s.newJob data singletonKey) }

def handlerReturned (id : JobId) : Store := { s with returned := id :: s.returned }

/-- The send of `handBack`. -/
def sendAgain (policy : Policy) (d : Delivery) : Store :=
  { s.send policy d.data d.singletonKey with
    requeued := ⟨d.id, (s.waitingFor policy d.singletonKey).getD (s.newJob d.data d.singletonKey),
      (s.waitingFor policy d.singletonKey).isNone⟩ :: s.requeued }

end Store

/-! ## A batch -/

namespace Delivery

/-- The promise has been fulfilled or rejected. -/
def settled (d : Delivery) : Bool :=
  d.phase = .completed || d.phase = .failed || d.phase = .handedBack || d.phase = .broken

/-- One access of `settleEachJob` for one job. A handler returns, throws or is interrupted. A write may fail with or
without effect, and then the promise is rejected. -/
def settle (policy : Policy) (s : Store) (d : Delivery) : List (Store × Phase) :=
  match d.phase with
  | .running => [(s.handlerReturned d.id, .completing), (s, .failing), (s, .sending)]
  | .completing => [(s.complete [d.id], .completed), (s.complete [d.id], .broken), (s, .broken)]
  | .failing => [(s.fail [d.id] [], .failed), (s.fail [d.id] [d.id], .failed), (s.fail [d.id] [], .broken),
      (s.fail [d.id] [d.id], .broken), (s, .broken)]
  | .sending => [(s.sendAgain policy d, .handingBack), (s.sendAgain policy d, .broken), (s, .broken)]
  | .handingBack => [(s.complete [d.id], .handedBack), (s.complete [d.id], .broken), (s, .broken)]
  | .completed | .failed | .handedBack | .broken => []

end Delivery

def ids (b : Batch) : List JobId := b.map Delivery.id

/-- The callback resolves. -/
def Resolves (b : Batch) : Prop := ∀ d ∈ b, d.settled = true ∧ d.phase ≠ .broken

instance (b : Batch) : Decidable (Resolves b) := inferInstanceAs (Decidable (∀ d ∈ b, _))

/-- The callback throws. -/
def Rejects (b : Batch) : Prop := (∀ d ∈ b, d.settled = true) ∧ ∃ d ∈ b, d.phase = .broken

instance (b : Batch) : Decidable (Rejects b) := inferInstanceAs (Decidable ((∀ d ∈ b, _) ∧ ∃ d ∈ b, _))

/-- The next of the jobs to get on, or the verdict on the batch; the verdict may be lost. -/
def access (policy : Policy) (s : Store) (b : Batch) : List (Store × Next) :=
  if Resolves b then [(s.complete (ids b), .done ()), (s, .done ())]
  else if Rejects b then (ids b).sublists.map (fun spent => (s.fail (ids b) spent, .done ())) ++ [(s, .done ())]
  else b.zipIdx.flatMap fun x => (x.1.settle policy s).map fun y => (y.1, .await (b.set x.2 { x.1 with phase := y.2 }))

def enter (s : Store) (ids : List JobId) : Option (Store × Batch) :=
  if ids ≠ [] ∧ ids.Nodup ∧ ∀ id ∈ ids, (s.jobs.find? id).any Job.waits = true then
    some (s.fetch ids, ids.filterMap fun id => (s.jobs.find? id).map Delivery.of)
  else none

def environment (policy : Policy) (s : Store) : Change → Option Store
  | .send data singletonKey => some (s.send policy data singletonKey)
  | .fail ids spent => some (s.fail ids spent)

def machine (policy : Policy) : Machine Store (List JobId) Batch Unit Change where
  enter := enter
  access := access policy
  environment := environment policy

variable {policy : Policy} {s s' : Store} {d : Delivery} {b b' : Batch} {n : Next} {w w' : World}

/-! ## Finished jobs -/

/-- Another job, that waited when the delivery was handed back, has the data of the job, or its key. -/
def Requeued.Carries (s : Store) (r : Requeued) (j : Job) : Prop :=
  r.job = j.id ∧ r.target.id ≠ j.id ∧ r.target.state = .created ∧ r.target.singletonKey = j.singletonKey ∧
    (if r.fresh then r.target.data = j.data else j.singletonKey ≠ none) ∧
    ∃ t ∈ s.jobs.rows, t.id = r.target.id ∧ t.data = r.target.data ∧ t.singletonKey = r.target.singletonKey

instance (r : Requeued) (j : Job) : Decidable (r.Carries s j) := by
  unfold Requeued.Carries
  infer_instance

/-- A handler of the job has returned, or an interrupted delivery of it was handed back. -/
def Finished (s : Store) (j : Job) : Prop := j.id ∈ s.returned ∨ ∃ r ∈ s.requeued, r.Carries s j

instance (j : Job) : Decidable (Finished s j) := inferInstanceAs (Decidable (_ ∨ ∃ r ∈ s.requeued, _))

def NotLost (s : Store) : Prop := ∀ j ∈ s.jobs.rows, j.state = .completed → Finished s j

instance : Decidable (NotLost s) := inferInstanceAs (Decidable (∀ j ∈ s.jobs.rows, _))

/-- No batch callback resolves while a job that has failed in it is active again and not finished. -/
def Undisturbed (w : World) : Move → Prop
  | .access i 0 => ∀ c ∈ w.call i, Resolves c.await → ∀ d ∈ c.await, d.phase = .failed →
      ∀ j ∈ w.shared.jobs.rows, j.id = d.id → j.state = .active → Finished w.shared j
  | _ => True

instance (w : World) : DecidablePred (Undisturbed w)
  | .access i 0 => inferInstanceAs (Decidable (∀ c ∈ w.call i, Resolves c.await → ∀ d ∈ c.await, _ → ∀ j ∈ _, _))
  | .access _ (_ + 1) | .start _ | .crash _ | .environment _ => inferInstanceAs (Decidable True)

/-! ## One access -/

/-- A later version of the row. -/
structure Continues (j j' : Job) : Prop where
  data : j'.data = j.data
  singletonKey : j'.singletonKey = j.singletonKey
  created : j'.state = .created → j.state = .created

theorem Continues.refl (j : Job) : Continues j j := ⟨rfl, rfl, id⟩

/-- Nothing is forgotten, and only finished jobs are completed. -/
structure Moves (s s' : Store) : Prop where
  returned : s.returned ⊆ s'.returned
  requeued : s.requeued ⊆ s'.requeued
  jobs : ∀ id, Table.PersistAt Continues id s.jobs s'.jobs
  completes : ∀ j ∈ s'.jobs.rows, j.state = .completed → ∃ x, s.jobs.find? j.id = some x ∧
    (x.state = .completed ∨ Finished s x)

theorem Moves.finished (h : Moves s s') {j j' : Job} (hid : j'.id = j.id) (hc : Continues j j') (hj : Finished s j) :
    Finished s' j' := by
  rcases hj with hj | ⟨r, hr, hjob, hne, hstate, hkey, hdata, t, ht, htarget, hsame⟩
  · exact .inl (hid ▸ h.returned hj)
  · obtain ⟨t', ht', hcont⟩ := h.jobs t.id t (Table.mem_rows_iff.mp ht)
    obtain ⟨hmem, hid'⟩ := Table.find?_eq_some ht'
    refine .inr ⟨r, h.requeued hr, ?_⟩
    rw [Requeued.Carries, hid, hc.data, hc.singletonKey]
    exact ⟨hjob, hne, hstate, hkey, hdata, t', hmem, hid'.trans htarget, hcont.data.trans hsame.1,
      hcont.singletonKey.trans hsame.2⟩

theorem Moves.notLost (h : Moves s s') (hs : NotLost s) : NotLost s' := by
  intro j' hj' hcompleted
  obtain ⟨j, hj, hfinished⟩ := h.completes j' hj' hcompleted
  obtain ⟨hmem, hid⟩ := Table.find?_eq_some hj
  obtain ⟨x, hx, hcont⟩ := h.jobs _ j hj
  rw [Table.mem_rows_iff.mp hj', Option.some.injEq] at hx
  subst hx
  refine h.finished hid.symm hcont ?_
  rcases hfinished with hstate | hfinished
  · exact hs j hmem hstate
  · exact hfinished

theorem Moves.refl (s : Store) : Moves s s :=
  ⟨List.Subset.refl _, List.Subset.refl _, fun id => .refl Continues.refl id _, fun j hj hstate =>
    ⟨j, Table.mem_rows_iff.mp hj, .inl hstate⟩⟩

theorem moves_setState {p : Job → Bool} {state : Job → JobState} (hcreated : ∀ j, state j ≠ .created)
    (hcompletes : ∀ j ∈ s.jobs.rows, p j = true → state j = .completed → Finished s j) :
    Moves s (s.setState p state) := by
  refine ⟨List.Subset.refl _, List.Subset.refl _, fun id => ?_, fun j' hj' hstate => ?_⟩
  · exact .update Continues.refl id _ p (fun j => { j with state := state j }) (fun _ => rfl) fun j _ =>
      ⟨rfl, rfl, fun h => absurd h (hcreated j)⟩
  · obtain ⟨j, hj, rfl⟩ := List.mem_map.mp hj'
    by_cases hp : p j = true
    · simp only [if_pos hp] at hstate ⊢
      exact ⟨j, Table.mem_rows_iff.mp hj, .inr (hcompletes j hj hp hstate)⟩
    · simp only [if_neg hp] at hstate ⊢
      exact ⟨j, Table.mem_rows_iff.mp hj, .inl hstate⟩

theorem moves_fetch (s : Store) (ids : List JobId) : Moves s (s.fetch ids) :=
  moves_setState (fun _ h => by cases h) fun _ _ _ h => by cases h

theorem moves_complete {ids : List JobId}
    (h : ∀ j ∈ s.jobs.rows, j.id ∈ ids → j.state = .active → Finished s j) : Moves s (s.complete ids) := by
  refine moves_setState (fun _ h => by cases h) fun j hj hp _ => ?_
  rw [Bool.and_eq_true, decide_eq_true_eq, decide_eq_true_eq] at hp
  exact h j hj hp.1 hp.2

theorem moves_fail (s : Store) (ids spent : List JobId) : Moves s (s.fail ids spent) := by
  refine moves_setState (fun j h => ?_) fun j _ _ h => ?_
  · split at h <;> cases h
  · split at h <;> cases h

theorem moves_handlerReturned (s : Store) (id : JobId) : Moves s (s.handlerReturned id) :=
  ⟨List.subset_cons_self _ _, List.Subset.refl _, fun id => .refl Continues.refl id _, fun j hj hstate =>
    ⟨j, Table.mem_rows_iff.mp hj, .inl hstate⟩⟩

theorem moves_send (policy : Policy) (s : Store) (data : JobData) (singletonKey : Option SingletonKey) :
    Moves s (s.send policy data singletonKey) := by
  unfold Store.send
  split
  · exact .refl s
  refine ⟨List.Subset.refl _, List.Subset.refl _, fun id => .insert Continues.refl id _ _, fun j hj hstate => ?_⟩
  have hrows : (s.jobs.insert (s.newJob data singletonKey)).rows = s.jobs.rows ++ [s.newJob data singletonKey] :=
    Table.insert_of_find?_none s.jobs.find?_succ_max
  simp only [hrows, List.mem_append, List.mem_singleton] at hj
  rcases hj with hj | rfl
  · exact ⟨j, Table.mem_rows_iff.mp hj, .inl hstate⟩
  · cases hstate

theorem moves_sendAgain (policy : Policy) (s : Store) (d : Delivery) : Moves s (s.sendAgain policy d) :=
  have h := moves_send policy s d.data d.singletonKey
  ⟨h.returned, List.subset_cons_self _ _, h.jobs, h.completes⟩

/-! ## One delivery -/

/-- The handler has returned, or the send of `handBack` was answered. -/
def Phase.hasOutcome (p : Phase) : Bool :=
  p = .completing || p = .completed || p = .handingBack || p = .handedBack

/-- The job has been fetched, and is finished where the delivery says so. -/
structure Delivered (s : Store) (d : Delivery) : Prop where
  found : ∃ j ∈ s.jobs.rows, j.id = d.id ∧ j.data = d.data ∧ j.singletonKey = d.singletonKey ∧ j.state ≠ .created
  finished : d.phase.hasOutcome = true → ∀ j ∈ s.jobs.rows, j.id = d.id → Finished s j

theorem eq_of_id {j j' : Job} (hj : j ∈ s.jobs.rows) (hj' : j' ∈ s.jobs.rows) (hid : j.id = j'.id) : j = j' := by
  have hfind := Table.mem_rows_iff.mp hj
  rw [hid, Table.mem_rows_iff.mp hj'] at hfind
  exact (Option.some.inj hfind).symm

theorem Delivered.moves (hd : Delivered s d) (h : Moves s s') : Delivered s' d := by
  obtain ⟨j, hj, hid, hdata, hkey, hstate⟩ := hd.found
  obtain ⟨j', hfind, hcont⟩ := h.jobs _ j (Table.mem_rows_iff.mp hj)
  obtain ⟨hj', hid'⟩ := Table.find?_eq_some hfind
  refine ⟨⟨j', hj', hid'.trans hid, hcont.data.trans hdata, hcont.singletonKey.trans hkey,
    fun hcreated => hstate (hcont.created hcreated)⟩, fun hphase x hx hxid => ?_⟩
  cases eq_of_id hx hj' (hxid.trans (hid'.trans hid).symm)
  exact h.finished hid' hcont (hd.finished hphase j hj hid)

theorem Delivered.withPhase (hd : Delivered s d) (p : Phase)
    (h : p.hasOutcome = true → ∀ j ∈ s.jobs.rows, j.id = d.id → Finished s j) : Delivered s { d with phase := p } :=
  ⟨hd.found, h⟩

theorem Delivered.moves_complete (hd : Delivered s d) (h : d.phase.hasOutcome = true) : Moves s (s.complete [d.id]) :=
  WorkerJobs.moves_complete fun j hj hmem _ => hd.finished h j hj (List.mem_singleton.mp hmem)

/-- The job that a send goes to waits, and is not one that has been fetched. -/
theorem target_of_send (policy : Policy) {data : JobData} {key : Option SingletonKey} {t : Job}
    (ht : (s.waitingFor policy key).getD (s.newJob data key) = t) :
    t.state = .created ∧ t.singletonKey = key ∧
      (if (s.waitingFor policy key).isNone = true then t.data = data else key ≠ none) ∧
      t ∈ (s.send policy data key).jobs.rows ∧ ∀ j ∈ s.jobs.rows, j.state ≠ .created → t.id ≠ j.id := by
  unfold Store.send
  cases hwait : s.waitingFor policy key with
  | none =>
    rw [hwait, Option.getD_none] at ht
    subst ht
    have hnew := s.jobs.find?_succ_max
    have hrows : (s.jobs.insert (s.newJob data key)).rows = s.jobs.rows ++ [s.newJob data key] :=
      Table.insert_of_find?_none hnew
    refine ⟨rfl, rfl, rfl, ?_, fun j hj _ hid => ?_⟩
    · simp only [hrows]
      exact List.mem_append_right _ (List.mem_singleton_self _)
    · exact absurd (List.mem_map.mpr ⟨j, hj, hid.symm⟩) (Table.find?_eq_none.mp hnew)
  | some x =>
    rw [hwait, Option.getD_some] at ht
    subst ht
    unfold Store.waitingFor at hwait
    split at hwait
    · next k =>
      have hp := List.find?_some hwait
      have hmem := List.mem_of_find?_eq_some hwait
      simp only [decide_eq_true_eq] at hp
      refine ⟨hp.2, hp.1, by simp, hmem, fun j hj hstate hid => ?_⟩
      cases eq_of_id hmem hj hid
      exact hstate hp.2
    · cases hwait

theorem Delivered.sendAgain (hd : Delivered s d) (policy : Policy) {j : Job}
    (hj : j ∈ (s.sendAgain policy d).jobs.rows) (hid : j.id = d.id) : Finished (s.sendAgain policy d) j := by
  obtain ⟨x, hx, hxid, hdata, hkey, hstate⟩ := hd.found
  obtain ⟨x', hfind, hcont⟩ := (moves_sendAgain policy s d).jobs _ x (Table.mem_rows_iff.mp hx)
  obtain ⟨hx', hxid'⟩ := Table.find?_eq_some hfind
  cases eq_of_id hj hx' (hid.trans (hxid'.trans hxid).symm)
  obtain ⟨hcreated, hsame, hcarries, hmem, hne⟩ := target_of_send policy
    (rfl : (s.waitingFor policy d.singletonKey).getD (s.newJob d.data d.singletonKey) = _)
  refine .inr ⟨_, List.mem_cons_self, hid.symm, ?_, hcreated, ?_, ?_, _, hmem, rfl, rfl, rfl⟩
  · rw [hxid']
    exact hne x hx hstate
  · rw [hsame, hcont.singletonKey, hkey]
  · rw [hcont.data, hcont.singletonKey, hdata, hkey]
    exact hcarries

/-- Whatever a delivery does next, only finished jobs are completed. -/
theorem Delivered.settle (hd : Delivered s d) {p : Phase} (h : (s', p) ∈ d.settle policy s) :
    Moves s s' ∧ Delivered s' { d with phase := p } := by
  have hopen : ∀ {x : Store} (q : Phase), Moves s x → q.hasOutcome = false → Moves s x ∧
    Delivered x { d with phase := q } :=
    fun q hm hq => ⟨hm, (hd.moves hm).withPhase q fun hp => absurd (hq.symm.trans hp) Bool.false_ne_true⟩
  have hdone : ∀ {x : Store} (q : Phase), Moves s x → d.phase.hasOutcome = true →
      Moves s x ∧ Delivered x { d with phase := q } :=
    fun q hm hphase => ⟨hm, (hd.moves hm).withPhase q fun _ => (hd.moves hm).finished hphase⟩
  unfold Delivery.settle at h
  split at h
  case h_1 =>
    simp only [List.mem_cons, Prod.mk.injEq, List.not_mem_nil, or_false] at h
    rcases h with ⟨rfl, rfl⟩ | ⟨rfl, rfl⟩ | ⟨rfl, rfl⟩
    · have hm := moves_handlerReturned s d.id
      exact ⟨hm, (hd.moves hm).withPhase _ fun _ j _ hid => .inl (hid ▸ List.mem_cons_self)⟩
    · exact hopen _ (.refl _) rfl
    · exact hopen _ (.refl _) rfl
  case h_2 hphase | h_5 hphase =>
    have hout : d.phase.hasOutcome = true := by rw [hphase]; rfl
    simp only [List.mem_cons, Prod.mk.injEq, List.not_mem_nil, or_false] at h
    rcases h with ⟨rfl, rfl⟩ | ⟨rfl, rfl⟩ | ⟨rfl, rfl⟩
    · exact hdone _ (hd.moves_complete hout) hout
    · exact hdone _ (hd.moves_complete hout) hout
    · exact hopen _ (.refl _) rfl
  case h_3 =>
    simp only [List.mem_cons, Prod.mk.injEq, List.not_mem_nil, or_false] at h
    rcases h with ⟨rfl, rfl⟩ | ⟨rfl, rfl⟩ | ⟨rfl, rfl⟩ | ⟨rfl, rfl⟩ | ⟨rfl, rfl⟩
    · exact hopen _ (moves_fail _ _ _) rfl
    · exact hopen _ (moves_fail _ _ _) rfl
    · exact hopen _ (moves_fail _ _ _) rfl
    · exact hopen _ (moves_fail _ _ _) rfl
    · exact hopen _ (.refl _) rfl
  case h_4 =>
    simp only [List.mem_cons, Prod.mk.injEq, List.not_mem_nil, or_false] at h
    rcases h with ⟨rfl, rfl⟩ | ⟨rfl, rfl⟩ | ⟨rfl, rfl⟩
    · have hm := moves_sendAgain policy s d
      exact ⟨hm, (hd.moves hm).withPhase _ fun _ j hj hid => hd.sendAgain policy hj hid⟩
    · exact hopen _ (moves_sendAgain policy s d) rfl
    · exact hopen _ (.refl _) rfl
  all_goals cases h

/-! ## Every run -/

/-- Only finished jobs are completed, and each batch is in order. -/
def Kept (w : World) : Prop := Machine.Holds NotLost (fun s _ c => ∀ d ∈ c.await, Delivered s d) w

theorem delivered_of_enter {ids : List JobId} (h : enter s ids = some (s', b)) : Moves s s' ∧
    ∀ d ∈ b, Delivered s' d := by
  unfold enter at h
  split at h
  case isFalse => cases h
  next hok =>
  cases h
  refine ⟨moves_fetch s ids, fun d hd => ?_⟩
  obtain ⟨id, hid, hfind⟩ := List.mem_filterMap.mp hd
  obtain ⟨j, hj, rfl⟩ := Option.map_eq_some_iff.mp hfind
  obtain ⟨hmem, rfl⟩ := Table.find?_eq_some hj
  have hwaits := hok.2.2 _ hid
  rw [hj, Option.any_some] at hwaits
  refine ⟨⟨{ j with state := .active }, List.mem_map.mpr ⟨j, hmem, ?_⟩, rfl, rfl, rfl, fun h => by cases h⟩,
    fun h => by cases h⟩
  exact if_pos (Bool.and_eq_true_iff.mpr ⟨decide_eq_true hid, hwaits⟩)

/-- The verdict of a batch whose callback resolves. -/
theorem moves_of_resolves (hb : Resolves b) (hd : ∀ d ∈ b, Delivered s d)
    (hok : ∀ d ∈ b, d.phase = .failed → ∀ j ∈ s.jobs.rows, j.id = d.id → j.state = .active → Finished s j) :
    Moves s (s.complete (ids b)) := by
  refine moves_complete fun j hj hmem hactive => ?_
  obtain ⟨d, hmem, hid⟩ := List.mem_map.mp hmem
  obtain ⟨hsettled, hbroken⟩ := hb d hmem
  by_cases hfailed : d.phase = .failed
  · exact hok d hmem hfailed j hj hid.symm hactive
  · refine (hd d hmem).finished ?_ j hj hid.symm
    simp only [Delivery.settled, Bool.or_eq_true, decide_eq_true_eq, hfailed, hbroken, or_false] at hsettled
    rcases hsettled with hphase | hphase <;> rw [hphase] <;> rfl

theorem Kept.step {m : Move} {r : Option Unit} (h : Kept w) (hok : Undisturbed w m)
    (hs : (machine policy).step w m = some (w', r)) : Kept w' := by
  have hlater : ∀ {s : Store}, Moves w.shared s → ∀ i c, w.call i = some c → ∀ d ∈ c.await, Delivered s d :=
    fun hm i c hc d hd => (h.calls i c hc d hd).moves hm
  refine Machine.Holds.step_outcome h hs ?_ ?_ ?_
  · intro o s p _ he
    obtain ⟨hm, hp⟩ := delivered_of_enter he
    exact ⟨hm.notLost h.shared, hp, hlater hm⟩
  · intro i k c s n hm hc hk
    subst hm
    have hd := h.calls i c hc
    have hsuffices : ∀ {x : Store}, Moves w.shared x → (∀ q, n = .await q → ∀ d ∈ q, Delivered x d) →
        NotLost x ∧ (∀ q, n = .await q → ∀ d ∈ q, Delivered x d) ∧
          ∀ j e, j ≠ i → w.call j = some e → ∀ d ∈ e.await, Delivered x d :=
      fun hm hq => ⟨hm.notLost h.shared, hq, fun j e _ he => hlater hm j e he⟩
    change (access policy w.shared c.await)[k]? = some (s, n) at hk
    unfold access at hk
    split at hk
    · next hresolves =>
      rcases k with _ | k
      · cases hk
        exact hsuffices (moves_of_resolves hresolves hd (hok c hc hresolves)) fun q hq => by cases hq
      · have hmem := List.mem_of_getElem? (List.getElem?_cons_succ ▸ hk)
        cases List.mem_singleton.mp hmem
        exact hsuffices (.refl _) fun q hq => by cases hq
    split at hk
    · rcases List.mem_append.mp (List.mem_of_getElem? hk) with hmem | hmem
      · obtain ⟨spent, -, heq⟩ := List.mem_map.mp hmem
        cases heq
        exact hsuffices (moves_fail _ _ _) fun q hq => by cases hq
      · cases List.mem_singleton.mp hmem
        exact hsuffices (.refl _) fun q hq => by cases hq
    · obtain ⟨⟨d, j⟩, hx, hmem⟩ := List.mem_flatMap.mp (List.mem_of_getElem? hk)
      obtain ⟨⟨x, phase⟩, hsettle, heq⟩ := List.mem_map.mp hmem
      cases heq
      have hdb : d ∈ c.await := List.mem_of_getElem? (List.mem_zipIdx_iff_getElem?.mp hx)
      obtain ⟨hm, hnew⟩ := (hd d hdb).settle hsettle
      refine hsuffices hm fun q hq e he => ?_
      cases hq
      rcases List.mem_or_eq_of_mem_set he with he | rfl
      · exact (hd e he).moves hm
      · exact hnew
  · intro e s _ he
    cases e with
    | send data singletonKey =>
      cases he
      have hm := moves_send policy w.shared data singletonKey
      exact ⟨hm.notLost h.shared, hlater hm⟩
    | fail ids spent =>
      cases he
      have hm := moves_fail w.shared ids spent
      exact ⟨hm.notLost h.shared, hlater hm⟩

/-- Completing jobs finishes none of them. -/
theorem finished_of_complete {ids : List JobId} {j : Job}
    (h : Finished (s.complete ids) { j with state := .completed }) : Finished s j := by
  rcases h with h | ⟨r, hr, hjob, hne, hstate, hkey, hdata, t, ht, hid, hsame⟩
  · exact .inl h
  · obtain ⟨x, hx, heq⟩ := List.mem_map.mp ht
    have hx' : t.id = x.id ∧ t.data = x.data ∧ t.singletonKey = x.singletonKey := by
      rw [← heq]
      split <;> exact ⟨rfl, rfl, rfl⟩
    exact .inr ⟨r, hr, hjob, hne, hstate, hkey, hdata, x, hx, hx'.1.symm.trans hid, hx'.2.1.symm.trans hsame.1,
      hx'.2.2.symm.trans hsame.2⟩

/-- The verdict on a batch completes a job that is active again, and nobody has finished. -/
theorem lost_of_disturbed {m : Move} {r : Option Unit} (hno : ¬ Undisturbed w m)
    (hs : (machine policy).step w m = some (w', r)) : ¬ NotLost w'.shared := by
  unfold Undisturbed at hno
  split at hno
  case h_2 => exact absurd trivial hno
  next i =>
  push Not at hno
  obtain ⟨c, hc, hresolves, d, hd, -, j, hj, hid, hactive, hunfinished⟩ := hno
  obtain ⟨c', n, hc', hk, -⟩ := Machine.outcome_of_access hs
  cases hc.symm.trans hc'
  change (access policy w.shared c.await)[0]? = some (w'.shared, n) at hk
  rw [access, if_pos hresolves] at hk
  obtain ⟨hshared, -⟩ := Prod.mk.injEq _ _ _ _ ▸ Option.some.inj hk
  rw [← hshared]
  refine fun hkept => hunfinished (finished_of_complete (hkept _ (List.mem_map.mpr ⟨j, hj, if_pos ?_⟩) rfl))
  exact Bool.and_eq_true_iff.mpr ⟨decide_eq_true (List.mem_map.mpr ⟨d, hd, hid.symm⟩), decide_eq_true hactive⟩

/-- Whatever the order of the deliveries and the writes, a job is completed only if a handler of it has returned, or an
interrupted delivery of it was handed back; but a batch that resolves over a job that is active again loses it. -/
theorem no_job_lost (policy : Policy) :
    (∀ s w, (∀ j ∈ s.jobs.rows, j.state ≠ .completed) →
      Machine.Run (machine policy) Undisturbed (World.initial s) w → NotLost w.shared) ∧
    ∀ w w' m r, ¬ Undisturbed w m → (machine policy).step w m = some (w', r) → ¬ NotLost w'.shared := by
  refine ⟨fun s w hs h => ?_, fun w w' m r hno hs => lost_of_disturbed hno hs⟩
  have hstart : Kept (World.initial s) :=
    ⟨fun j hj hstate => absurd hstate (hs j hj), fun i c hc => by simp at hc⟩
  exact (h.invariant hstart fun hw hok hs => hw.step hok hs).shared

/-- Two jobs wait; the first has a key. -/
def twoJobs : Store := ⟨⟨[⟨1, 10, some 5, .created⟩, ⟨2, 20, none, .created⟩], by decide⟩, [], []⟩

/-- The first job is interrupted, handed back and done by another worker; the second fails and is done by the next. -/
def handedOver : List Move :=
  List.flatten [[.start [1, 2], .access 0 2, .access 0 0, .start [3], .access 1 0, .access 0 0, .access 0 1,
    .access 0 0],
    List.replicate 2 (.access 1 0), [.access 0 0, .start [2]], List.replicate 3 (.access 2 0)]

theorem no_job_lost_handedOver : ∃ w, Machine.Run (machine .short) Undisturbed (World.initial twoJobs) w ∧
    (∀ j ∈ w.shared.jobs.rows, j.state = .completed) ∧ w.shared.jobs.rows.length = 3 ∧ NotLost w.shared := by
  have hmoves : Machine.Allowed (machine .short) Undisturbed (World.initial twoJobs) handedOver ∧
      ∃ w ∈ (machine .short).perform (World.initial twoJobs) handedOver,
        (∀ j ∈ w.shared.jobs.rows, j.state = .completed) ∧ w.shared.jobs.rows.length = 3 := by
    decide +kernel
  obtain ⟨hok, w, hw, hcompleted, hlength⟩ := hmoves
  have hrun := Machine.run_of_perform hok hw
  exact ⟨w, hrun, hcompleted, hlength, (no_job_lost .short).1 _ w (by decide) hrun⟩

/-- The first job fails, and is fetched again before the second, of the same batch, has settled. -/
def fetchedAgain : List Move :=
  [.start [1, 2], .access 0 1, .access 0 0, .start [1], .access 0 0, .access 0 0, .access 0 0]

theorem active_job_lost : ¬ ∀ (policy : Policy) (s : Store) (w : World), (∀ j ∈ s.jobs.rows, j.state ≠ .completed) →
    Machine.Run (machine policy) (fun _ _ => True) (World.initial s) w → NotLost w.shared := by
  intro hall
  have hmoves : ∃ w ∈ (machine .short).perform (World.initial twoJobs) fetchedAgain, ¬ NotLost w.shared := by
    decide +kernel
  obtain ⟨w, hw, hlost⟩ := hmoves
  exact hlost (hall .short twoJobs w (by decide) (Machine.free_of_perform hw))

end Civfix.WorkerJobs
