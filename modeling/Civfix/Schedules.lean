import Civfix.RelyConditions

/-! # Interleavings that are computed

A schedule says which session takes the next step. `perform` runs one on a state that lists the
sessions in progress, and `perform_induct` turns a schedule that went through into the steps of an
interleaving: what holds at the start and along every permitted step holds at its end. -/
namespace LockedTransactions

namespace Engine

variable {σ ω κ ε ι α : Type}

/-- The database and the sessions in progress, by number. -/
structure Stage (σ ω κ ε ι α : Type) where
  db : σ
  active : List (ℕ × Session σ ω κ ε ι α)

inductive Act (ι : Type) where
  | start (i : ℕ) (o : ι)
  /-- The session runs its next statement, or commits. -/
  | next (i : ℕ)

namespace Stage

def world (st : Stage σ ω κ ε ι α) : World σ ω κ ε ι α := ⟨st.db, fun i => st.active.lookup i⟩

def drop (i : ℕ) (active : List (ℕ × Session σ ω κ ε ι α)) : List (ℕ × Session σ ω κ ε ι α) :=
  active.filter (fun x => decide (x.1 ≠ i))

theorem lookup_drop (i j : ℕ) (active : List (ℕ × Session σ ω κ ε ι α)) :
    (drop i active).lookup j = if j = i then none else active.lookup j := by
  induction active with
  | nil => simp [drop]
  | cons x xs ih =>
    obtain ⟨k, t⟩ := x
    simp only [drop, List.filter_cons, List.lookup_cons] at ih ⊢
    by_cases hj : j = k
    · subst hj
      by_cases hi : j = i
      · subst hi
        simp only [ne_eq, not_true_eq_false, decide_false, Bool.false_eq_true, ↓reduceIte]
        exact ih.trans (if_pos rfl)
      · simp [hi]
    · have hjk : (j == k) = false := beq_eq_false_iff_ne.mpr hj
      by_cases hk : k = i
      · simp only [ne_eq, hk, not_true_eq_false, decide_false, Bool.false_eq_true, ↓reduceIte, ih]
        rw [hk] at hjk
        simp only [hjk]
      · simp only [ne_eq, hk, not_false_eq_true, decide_true, ↓reduceIte, List.lookup_cons, hjk, ih]

theorem world_put (st : Stage σ ω κ ε ι α) (db : σ) (i : ℕ) (t : Session σ ω κ ε ι α) :
    world ⟨db, (i, t) :: drop i st.active⟩ = ⟨db, Function.update st.world.sessions i (some t)⟩ := by
  simp only [world, World.mk.injEq, true_and]
  funext j
  by_cases hj : j = i
  · subst hj
    simp
  · have hji : (j == i) = false := beq_eq_false_iff_ne.mpr hj
    simp only [List.lookup_cons, hji, lookup_drop, if_neg hj, Function.update_of_ne hj]

theorem world_drop (st : Stage σ ω κ ε ι α) (db : σ) (i : ℕ) :
    world ⟨db, drop i st.active⟩ = ⟨db, Function.update st.world.sessions i none⟩ := by
  simp only [world, World.mk.injEq, true_and]
  funext j
  by_cases hj : j = i
  · subst hj
    simp [lookup_drop]
  · simp only [lookup_drop, if_neg hj, Function.update_of_ne hj]

theorem mem_of_lookup {st : Stage σ ω κ ε ι α} {j : ℕ} {t : Session σ ω κ ε ι α} (h : st.world.sessions j = some t) :
    (j, t) ∈ st.active := by
  have h' : st.active.lookup j = some t := h
  obtain ⟨l, m, hl, -⟩ := List.lookup_eq_some_iff.mp h'
  rw [hl]
  simp

end Stage

variable (E : Engine σ ω κ) [DecidableRel E.conflict] (program : ι → Tx σ ω κ ε α)

/-- One step of a schedule, with the operation that committed in it. -/
def act (st : Stage σ ω κ ε ι α) : Act ι → Option (Option ι × Stage σ ω κ ε ι α)
  | .start i o =>
    if (st.active.lookup i).isNone then some (none,
      ⟨st.db, (i, ⟨o, program o, [], []⟩) :: Stage.drop i st.active⟩) else none
  | .next i =>
    match st.active.lookup i with
    | some ⟨o, .stmt l wr k, ws, held⟩ =>
      let v := E.applyAll st.db ws
      if (l v).all (fun x => (Stage.drop i st.active).all
        (fun y => y.2.held.all (fun h => decide (¬ E.conflict x h)))) then
        some (none, ⟨st.db, (i, ⟨o, k v, ws ++ wr v, held ++ l v⟩) :: Stage.drop i st.active⟩)
      else none
    | some ⟨o, .commit _, ws, _⟩ => some (some o, ⟨E.applyAll st.db ws, Stage.drop i st.active⟩)
    | _ => none

/-- A schedule whose every step passes the check. -/
def perform (check : Option ι → Stage σ ω κ ε ι α → Stage σ ω κ ε ι α → Bool) :
    List (Act ι) → Stage σ ω κ ε ι α → Option (Stage σ ω κ ε ι α)
  | [], st => some st
  | a :: as, st =>
    match act E program st a with
    | some (o, st') => if check o st st' then perform check as st' else none
    | none => none

variable {E program}

theorem step_of_act {st st' : Stage σ ω κ ε ι α} {a : Act ι} {o : Option ι} (h : act E program st a = some (o, st')) :
    Step E program st.world o st'.world := by
  cases a with
  | start i x =>
    simp only [act, Option.isNone_iff_eq_none, Option.ite_none_right_eq_some, Option.some.injEq, Prod.mk.injEq] at h
    obtain ⟨hi, rfl, rfl⟩ := h
    rw [Stage.world_put]
    exact .start st.world i x hi
  | next i =>
    simp only [act] at h
    split at h
    · next o' l wr k ws held hi =>
      simp only [Option.ite_none_right_eq_some, Option.some.injEq, Prod.mk.injEq] at h
      obtain ⟨hfree, rfl, rfl⟩ := h
      rw [Stage.world_put]
      refine .stmt st.world i o' l wr k ws held hi (fun x hx j hj t ht h hh => ?_)
      have hmem : (j, t) ∈ Stage.drop i st.active := List.mem_filter.mpr ⟨Stage.mem_of_lookup ht, by simpa using hj⟩
      have hall := List.all_eq_true.mp (List.all_eq_true.mp hfree x hx) _ hmem
      exact of_decide_eq_true (List.all_eq_true.mp hall h hh)
    · next o' a ws held hi =>
      simp only [Option.some.injEq, Prod.mk.injEq] at h
      obtain ⟨rfl, rfl⟩ := h
      rw [Stage.world_drop]
      exact .commit st.world i o' a ws held hi
    · cases h

/-- What holds at the start of a schedule and along every step that passes the check holds at its end. -/
theorem perform_induct {P : World σ ω κ ε ι α → Prop} {check : Option ι → Stage σ ω κ ε ι α → Stage σ ω κ ε ι α → Bool}
    (hstep : ∀ (st st' : Stage σ ω κ ε ι α) o, P st.world → Step E program st.world o st'.world →
    check o st st' = true →
      P st'.world) {as : List (Act ι)} {st st' : Stage σ ω κ ε ι α} (h0 : P st.world)
    (h : perform E program check as st = some st') : P st'.world := by
  induction as generalizing st with
  | nil =>
    cases h
    exact h0
  | cons a as ih =>
    simp only [perform] at h
    split at h
    · next o s1 hact =>
      split at h
      · next hc => exact ih (hstep st s1 o h0 (step_of_act hact) hc) h
      · cases h
    · cases h

/-- A schedule without a check is an interleaving. -/
theorem reachable_of_perform {Init : σ → Prop} {as : List (Act ι)} {db : σ} {st' : Stage σ ω κ ε ι α} (hi : Init db)
    (h : perform E program (fun _ _ _ => true) as ⟨db, []⟩ = some st') : Reachable E program Init st'.world := by
  refine perform_induct (fun _ _ o hr hs _ => hr.step hs) ?_ h
  exact .init db hi

/-- The check that a step meets the conditions of `Reaches`. -/
def meets (R : Rely σ κ ι) (ok : ι → σ → Prop) [∀ o s, Decidable (ok o s)] [∀ o a b, Decidable (R.during o a b)]
    (o : Option ι) (st st' : Stage σ ω κ ε ι α) : Bool :=
  o.all (fun x => decide (ok x st.db)) && st'.active.all (fun y => decide (R.during y.2.origin st.db st'.db))

theorem reaches_of_perform {R : Rely σ κ ι} {ok : ι → σ → Prop} [∀ o s, Decidable (ok o s)]
    [∀ o a b, Decidable (R.during o a b)] {Init : σ → Prop} {as : List (Act ι)} {db : σ} {st' : Stage σ ω κ ε ι α}
    (hi : Init db) (h : perform E program (meets R ok) as ⟨db, []⟩ = some st') :
    E.Reaches R ok program Init st'.world := by
  refine perform_induct (fun s1 s2 o hr hs hc => ?_) ?_ h
  · simp only [meets, Bool.and_eq_true] at hc
    refine hr.step hs (fun x hx => ?_) (fun j t ht => ?_)
    · rw [hx] at hc
      exact of_decide_eq_true hc.1
    · exact of_decide_eq_true (List.all_eq_true.mp hc.2 _ (Stage.mem_of_lookup ht))
  · exact .init db hi

variable (E program)

/-- A schedule followed by a commit, with a check on the states before and after it. -/
theorem exists_commit_of_perform (check : Option ι → Stage σ ω κ ε ι α → Stage σ ω κ ε ι α → Bool)
    (as : List (Act ι)) (i : ℕ)
    (db : σ) (o : ι) (P : σ → σ → Bool)
    (h : ((perform E program check as ⟨db, []⟩).bind (fun st => (act E program st (.next i)).map
      (fun x => (x.1, P st.db x.2.db)))) = some (some o, true)) :
    ∃ st st' : Stage σ ω κ ε ι α, perform E program check as ⟨db, []⟩ = some st ∧
      Step E program st.world (some o) st'.world ∧ P st.world.db st'.world.db = true := by
  obtain ⟨st, hst, h⟩ := Option.bind_eq_some_iff.mp h
  obtain ⟨⟨o', st'⟩, hact, h⟩ := Option.map_eq_some_iff.mp h
  simp only [Prod.mk.injEq] at h
  obtain ⟨rfl, hP⟩ := h
  exact ⟨st, st', hst, step_of_act hact, hP⟩

end Engine

end LockedTransactions
