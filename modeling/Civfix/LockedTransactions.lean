import Mathlib.Logic.Function.Basic
import Mathlib.Data.List.Basic

/-! # Transactions that interleave under row locks

A transaction body is a tree of statements. One statement reads the view it runs on
(the committed rows together with the transaction's own writes), takes locks, adds
writes, and chooses how the transaction goes on. Locks are kept to the end of the
transaction and writes become visible when it commits, so the engine is READ
COMMITTED with strict two-phase locking on the rows that statements lock.

An unlocked read may be overtaken before the commit. What survives until then is
`evolves`, which every committed write respects, and `protects`, which a held lock
enforces against every transaction that lacks a compatible lock. `wlp` runs a body at
its commit point against all views that agree with it in this sense, and
`Reachable.invariant` and `Reachable.commits` transfer what is proved there to every
interleaving. -/
namespace LockedTransactions

variable {σ ω κ ε ι α β : Type}

/-- `σ` is the database state, `ω` one row write, `κ` a lock, `ε` what an abort throws. -/
inductive Tx (σ ω κ ε α : Type) where
  | commit (a : α)
  | abort (e : ε)
  | stmt (locks : σ → List κ) (writes : σ → List ω) (next : σ → Tx σ ω κ ε α)

namespace Tx

def bind : Tx σ ω κ ε α → (α → Tx σ ω κ ε β) → Tx σ ω κ ε β
  | .commit a, f => f a
  | .abort e, _ => .abort e
  | .stmt l w k, f => .stmt l w (fun s => bind (k s) f)

instance : Monad (Tx σ ω κ ε) where
  pure := .commit
  bind := bind

/-- A statement that locks and writes nothing. -/
def select (f : σ → α) : Tx σ ω κ ε α := .stmt (fun _ => []) (fun _ => []) (fun s => .commit (f s))

/-- SELECT ... FOR: locks what it names and returns what it reads. -/
def selectFor (locks : σ → List κ) (f : σ → α) : Tx σ ω κ ε α :=
  .stmt locks (fun _ => []) (fun s => .commit (f s))

@[simp] theorem pure_eq (a : α) : (pure a : Tx σ ω κ ε α) = .commit a := rfl

@[simp] theorem commit_bind (a : α) (f : α → Tx σ ω κ ε β) : (Tx.commit a >>= f) = f a := rfl

@[simp] theorem abort_bind (e : ε) (f : α → Tx σ ω κ ε β) : ((Tx.abort e : Tx σ ω κ ε α) >>= f) = .abort e := rfl

@[simp] theorem stmt_bind (l : σ → List κ) (w : σ → List ω) (k : σ → Tx σ ω κ ε α)
    (f : α → Tx σ ω κ ε β) : (Tx.stmt l w k >>= f) = .stmt l w (fun s => k s >>= f) := rfl

end Tx

/-- What the storage engine guarantees. `needs` lists the locks a write must be made
under, and `protects_write` says that such a write respects every lock of another
transaction that is compatible with them. -/
structure Engine (σ ω κ : Type) where
  apply : σ → ω → σ
  conflict : κ → κ → Prop
  needs : ω → List κ
  evolves : σ → σ → Prop
  protects : κ → σ → σ → Prop
  conflict_symm : ∀ {k l}, conflict k l → conflict l k
  evolves_refl : ∀ a, evolves a a
  evolves_trans : ∀ {a b c}, evolves a b → evolves b c → evolves a c
  evolves_apply : ∀ {a b} w, evolves a b → (∀ n ∈ needs w, protects n a b) →
    evolves (apply a w) (apply b w)
  evolves_write : ∀ a w, evolves a (apply a w)
  protects_refl : ∀ l a, protects l a a
  protects_trans : ∀ {l a b c}, protects l a b → protects l b c → protects l a c
  protects_apply : ∀ {l a b} w, evolves a b → (∀ n ∈ needs w, protects n a b) → protects l a b →
    protects l (apply a w) (apply b w)
  protects_write : ∀ {l} a w, (∀ n ∈ needs w, ¬ conflict n l) → protects l a (apply a w)

namespace Engine

variable (E : Engine σ ω κ)

def applyAll (s : σ) (ws : List ω) : σ := ws.foldl E.apply s

@[simp] theorem applyAll_nil (s : σ) : E.applyAll s [] = s := rfl

@[simp] theorem applyAll_cons (s : σ) (w : ω) (ws : List ω) :
    E.applyAll s (w :: ws) = E.applyAll (E.apply s w) ws := rfl

theorem applyAll_append (s : σ) (ws us : List ω) :
    E.applyAll s (ws ++ us) = E.applyAll (E.applyAll s ws) us := List.foldl_append

/-- A held lock that excludes at least whatever the needed one excludes. -/
def Covers (h n : κ) : Prop := ∀ x, E.conflict n x → E.conflict h x

def Covered (held : List κ) (ws : List ω) : Prop :=
  ∀ w ∈ ws, ∀ n ∈ E.needs w, ∃ h ∈ held, E.Covers h n

/-- The view `v` of a statement as it still stands at the commit state `s`. -/
def Agree (held : List κ) (v s : σ) : Prop := E.evolves v s ∧ ∀ l ∈ held, E.protects l v s

theorem Agree.refl (held : List κ) (s : σ) : E.Agree held s s :=
  ⟨E.evolves_refl s, fun l _ => E.protects_refl l s⟩

/-- Two states that agree on what the writes need still do after the writes. -/
theorem agree_applyAll {a b : σ} {ls : List κ} (he : E.evolves a b) (hl : ∀ l ∈ ls, E.protects l a b)
    (ws : List ω) (hn : ∀ w ∈ ws, ∀ n ∈ E.needs w, E.protects n a b) :
    E.Agree ls (E.applyAll a ws) (E.applyAll b ws) := by
  induction ws generalizing a b with
  | nil => exact ⟨he, hl⟩
  | cons w ws ih =>
    have hw := hn w (by simp)
    refine ih (E.evolves_apply w he hw) (fun l h => E.protects_apply w he hw (hl l h)) ?_
    intro u hu n hnu
    exact E.protects_apply w he hw (hn u (by simp [hu]) n hnu)

theorem evolves_writes (a : σ) (ws : List ω) : E.evolves a (E.applyAll a ws) := by
  induction ws generalizing a with
  | nil => exact E.evolves_refl a
  | cons w ws ih => exact E.evolves_trans (E.evolves_write a w) (ih _)

/-- Writes made under `held` respect every lock compatible with `held`. -/
theorem protects_writes {held : List κ} {l : κ} (hl : ∀ h ∈ held, ¬ E.conflict h l) (ws : List ω)
    (hc : E.Covered held ws) (a : σ) : E.protects l a (E.applyAll a ws) := by
  induction ws generalizing a with
  | nil => exact E.protects_refl l a
  | cons w ws ih =>
    have hw : ∀ n ∈ E.needs w, ¬ E.conflict n l := by
      intro n hn hx
      obtain ⟨h, hh, hcov⟩ := hc w (by simp) n hn
      exact hl h hh (hcov l hx)
    have hr : E.Covered held ws := fun u hu => hc u (by simp [hu])
    exact E.protects_trans (E.protects_write a w hw) (ih hr _)

/-- The body runs at its commit point: every statement sees some view related to the
serial state `s` by `A`, must be covered by its locks, and the end must satisfy `Q`. -/
def wlp (A : List κ → σ → σ → Prop) : List κ → σ → Tx σ ω κ ε α → (List κ → α → σ → Prop) → Prop
  | held, s, .commit a, Q => Q held a s
  | _, _, .abort _, _ => True
  | held, s, .stmt l w k, Q => ∀ v, A (held ++ l v) v s →
      E.Covered (held ++ l v) (w v) ∧ wlp A (held ++ l v) (E.applyAll s (w v)) (k v) Q

variable {A : List κ → σ → σ → Prop}

theorem wlp_bind (held : List κ) (s : σ) (p : Tx σ ω κ ε α) (f : α → Tx σ ω κ ε β)
    (Q : List κ → β → σ → Prop) :
    E.wlp A held s (p >>= f) Q ↔ E.wlp A held s p (fun h a s' => E.wlp A h s' (f a) Q) := by
  induction p generalizing held s with
  | commit a => rfl
  | abort e => rfl
  | stmt l w k ih =>
    simp only [Tx.stmt_bind, wlp]
    constructor
    · intro h v hv
      exact ⟨(h v hv).1, (ih v _ _).mp (h v hv).2⟩
    · intro h v hv
      exact ⟨(h v hv).1, (ih v _ _).mpr (h v hv).2⟩

theorem wlp_mono {held : List κ} {s : σ} {p : Tx σ ω κ ε α} {Q R : List κ → α → σ → Prop}
    (hQ : ∀ h a s', Q h a s' → R h a s') (h : E.wlp A held s p Q) : E.wlp A held s p R := by
  induction p generalizing held s with
  | commit a => exact hQ _ _ _ h
  | abort e => trivial
  | stmt l w k ih => exact fun v hv => ⟨(h v hv).1, ih v (h v hv).2⟩

/-- Locks are only added. -/
theorem wlp_held {held : List κ} {s : σ} {p : Tx σ ω κ ε α} {Q : List κ → α → σ → Prop} (h : E.wlp A held s p Q) :
    E.wlp A held s p (fun held' a s' => held ⊆ held' ∧ Q held' a s') := by
  induction p generalizing held s with
  | commit a => exact ⟨fun _ hx => hx, h⟩
  | abort e => trivial
  | stmt l w k ih =>
    intro v hv
    refine ⟨(h v hv).1, E.wlp_mono ?_ (ih v (h v hv).2)⟩
    rintro held' a s' ⟨hsub, hQ⟩
    exact ⟨fun x hx => hsub (List.mem_append_left _ hx), hQ⟩

theorem wlp_select {held : List κ} {s : σ} {f : σ → α} {Q : List κ → α → σ → Prop}
    (h : ∀ v, A held v s → Q held (f v) s) : E.wlp A held s (Tx.select f : Tx σ ω κ ε α) Q := by
  intro v hv
  simp only [List.append_nil] at hv ⊢
  exact ⟨by simp [Covered], h v hv⟩

theorem wlp_selectFor {held : List κ} {s : σ} {locks : σ → List κ} {f : σ → α} {Q : List κ → α → σ → Prop}
    (h : ∀ v, A (held ++ locks v) v s → Q (held ++ locks v) (f v) s) :
    E.wlp A held s (Tx.selectFor locks f : Tx σ ω κ ε α) Q :=
  fun v hv => ⟨by simp [Covered], h v hv⟩

/-- A statement that writes under the locks held before it. -/
theorem wlp_writing {held : List κ} {s : σ} {writes : σ → List ω} {f : σ → α} {Q : List κ → α → σ → Prop}
    (h : ∀ v, A held v s → E.Covered held (writes v) ∧ Q held (f v) (E.applyAll s (writes v))) :
    E.wlp A held s (.stmt (fun _ => []) writes (fun v => .commit (f v)) : Tx σ ω κ ε α) Q := by
  intro v hv
  simp only [List.append_nil] at hv ⊢
  exact h v hv

/-- One transaction alone, from first statement to commit. -/
def runFrom : Tx σ ω κ ε α → σ → Except ε (α × σ)
  | .commit a, s => .ok (a, s)
  | .abort e, _ => .error e
  | .stmt _ w k, s => runFrom (k s) (E.applyAll s (w s))

/-- An aborted transaction leaves the state it started from. -/
def exec (p : Tx σ ω κ ε α) (s : σ) : Except ε α × σ :=
  match E.runFrom p s with
  | .ok (a, s') => (.ok a, s')
  | .error e => (.error e, s)

theorem wlp_runFrom (hA : ∀ held s, A held s s) {held : List κ} {s s' : σ} {p : Tx σ ω κ ε α} {a : α}
    {Q : List κ → α → σ → Prop} (h : E.wlp A held s p Q) (hr : E.runFrom p s = .ok (a, s')) :
    ∃ held', Q held' a s' := by
  induction p generalizing held s with
  | commit b =>
    simp only [runFrom, Except.ok.injEq, Prod.mk.injEq] at hr
    obtain ⟨rfl, rfl⟩ := hr
    exact ⟨held, h⟩
  | abort e => simp [runFrom] at hr
  | stmt l w k ih => exact ih s (h s (hA _ s)).2 hr

/-! ## Interleavings -/

/-- A transaction in progress: the operation it was started for, what is left of its
body, its unpublished writes and its locks. -/
structure Session (σ ω κ ε ι α : Type) where
  origin : ι
  rest : Tx σ ω κ ε α
  writes : List ω
  held : List κ

structure World (σ ω κ ε ι α : Type) where
  db : σ
  sessions : ℕ → Option (Session σ ω κ ε ι α)

/-- The database with no transaction in progress. -/
def World.quiet (s : σ) : World σ ω κ ε ι α := ⟨s, fun _ => none⟩

/-- No other session holds a lock in conflict with `l`. -/
def World.Free (w : World σ ω κ ε ι α) (i : ℕ) (l : κ) : Prop :=
  ∀ j, j ≠ i → ∀ t, w.sessions j = some t → ∀ h ∈ t.held, ¬ E.conflict l h

/-- One step of the database: a transaction begins, runs one statement whose locks are
free, publishes its writes, or is rolled back (by its own abort or by the server). The
label names the operation that committed in the step, if one did. -/
inductive Step (program : ι → Tx σ ω κ ε α) :
    World σ ω κ ε ι α → Option ι → World σ ω κ ε ι α → Prop where
  | start (w : World σ ω κ ε ι α) (i : ℕ) (o : ι) (hi : w.sessions i = none) :
      Step program w none ⟨w.db, Function.update w.sessions i (some ⟨o, program o, [], []⟩)⟩
  | stmt (w : World σ ω κ ε ι α) (i : ℕ) (o : ι) (l : σ → List κ) (wr : σ → List ω)
      (k : σ → Tx σ ω κ ε α) (ws : List ω) (held : List κ)
      (hi : w.sessions i = some ⟨o, .stmt l wr k, ws, held⟩)
      (hfree : ∀ x ∈ l (E.applyAll w.db ws), World.Free E w i x) :
      Step program w none ⟨w.db, Function.update w.sessions i (some ⟨o, k (E.applyAll w.db ws),
        ws ++ wr (E.applyAll w.db ws), held ++ l (E.applyAll w.db ws)⟩)⟩
  | commit (w : World σ ω κ ε ι α) (i : ℕ) (o : ι) (a : α) (ws : List ω) (held : List κ)
      (hi : w.sessions i = some ⟨o, .commit a, ws, held⟩) :
      Step program w (some o) ⟨E.applyAll w.db ws, Function.update w.sessions i none⟩
  | rollback (w : World σ ω κ ε ι α) (i : ℕ) :
      Step program w none ⟨w.db, Function.update w.sessions i none⟩

/-- Every world reached from a quiet database in `Init`, by any interleaving. -/
inductive Reachable (program : ι → Tx σ ω κ ε α) (Init : σ → Prop) : World σ ω κ ε ι α → Prop where
  | init (s : σ) (h : Init s) : Reachable program Init (.quiet s)
  | step {w w' : World σ ω κ ε ι α} {o : Option ι} (h : Reachable program Init w)
      (hs : Step E program w o w') : Reachable program Init w'

/-- A stretch of an interleaving in which every commit is of an operation with `ok`. -/
inductive Run (program : ι → Tx σ ω κ ε α) (ok : ι → Prop) :
    World σ ω κ ε ι α → World σ ω κ ε ι α → Prop where
  | refl (w : World σ ω κ ε ι α) : Run program ok w w
  | tail {w w' w'' : World σ ω κ ε ι α} {o : Option ι} (h : Run program ok w w')
      (hs : Step E program w' o w'') (hok : ∀ x, o = some x → ok x) : Run program ok w w''

/-- The statements a session has run, each against a view that still agrees with the
current database under the locks held since. -/
inductive Ran (db : σ) (p : Tx σ ω κ ε α) : Tx σ ω κ ε α → List ω → List κ → Prop where
  | start : Ran db p p [] []
  | step {l : σ → List κ} {wr : σ → List ω} {k : σ → Tx σ ω κ ε α} {ws : List ω} {held : List κ}
      (h : Ran db p (.stmt l wr k) ws held) (v : σ)
      (ha : E.Agree (held ++ l v) v (E.applyAll db ws)) : Ran db p (k v) (ws ++ wr v) (held ++ l v)

theorem Ran.wlp {db : σ} {p q : Tx σ ω κ ε α} {ws : List ω} {held : List κ} (h : Ran E db p q ws held)
    {Q : List κ → α → σ → Prop} (hp : E.wlp E.Agree [] db p Q) :
    E.wlp E.Agree held (E.applyAll db ws) q Q := by
  induction h with
  | start => exact hp
  | step h v ha ih =>
    rw [applyAll_append]
    exact (ih v ha).2

/-- A foreign commit that respects the held locks, and whatever the session's own
writes need, does not disturb a session. -/
theorem Ran.foreign {db db' : σ} {p q : Tx σ ω κ ε α} {ws : List ω} {held : List κ}
    (h : Ran E db p q ws held) (he : E.evolves db db') (hl : ∀ l ∈ held, E.protects l db db')
    (hn : ∀ w ∈ ws, ∀ n ∈ E.needs w, E.protects n db db') : Ran E db' p q ws held := by
  induction h with
  | start => exact .start
  | @step l wr k ws held h v ha ih =>
    have hprev := ih (fun x hx => hl x (by simp [hx])) (fun w hw => hn w (by simp [hw]))
    have hag := E.agree_applyAll he hl ws (fun w hw => hn w (by simp [hw]))
    refine .step hprev v ⟨E.evolves_trans ha.1 hag.1, ?_⟩
    intro x hx
    exact E.protects_trans (ha.2 x hx) (hag.2 x hx)

/-- What holds of each session in every reachable world. -/
structure Session.Sound (program : ι → Tx σ ω κ ε α) (db : σ) (t : Session σ ω κ ε ι α) : Prop where
  ran : Ran E db (program t.origin) t.rest t.writes t.held
  covered : E.Covered t.held t.writes

structure World.Sound (program : ι → Tx σ ω κ ε α) (Inv : σ → Prop) (w : World σ ω κ ε ι α) : Prop where
  inv : Inv w.db
  session : ∀ i t, w.sessions i = some t → Session.Sound E program w.db t
  compatible : ∀ i j, i ≠ j → ∀ t u, w.sessions i = some t → w.sessions j = some u →
    ∀ h ∈ t.held, ∀ h' ∈ u.held, ¬ E.conflict h h'

variable {E} {program : ι → Tx σ ω κ ε α} {Inv Init : σ → Prop}

/-- Replacing one session keeps soundness when the new one is sound and compatible. -/
theorem World.Sound.update {w : World σ ω κ ε ι α} (h : World.Sound E program Inv w) (i : ℕ)
    (t : Option (Session σ ω κ ε ι α)) (ht : ∀ u, t = some u → Session.Sound E program w.db u)
    (hc : ∀ u, t = some u → ∀ x ∈ u.held, World.Free E w i x) :
    World.Sound E program Inv ⟨w.db, Function.update w.sessions i t⟩ := by
  refine ⟨h.inv, ?_, ?_⟩
  · intro j u hu
    by_cases hj : j = i
    · subst hj
      exact ht u (by simpa using hu)
    · exact h.session j u (by simpa [Function.update_of_ne hj] using hu)
  · intro j k hjk u u' hu hu' x hx x' hx'
    by_cases hj : j = i
    · subst hj
      have hk : k ≠ j := fun he => hjk he.symm
      simp only [Function.update_self, Function.update_of_ne hk] at hu hu'
      exact hc u hu x hx k hk u' hu' x' hx'
    · by_cases hk : k = i
      · subst hk
        simp only [Function.update_self, Function.update_of_ne hj] at hu hu'
        exact fun hx'' => hc u' hu' x' hx' j hj u hu x hx (E.conflict_symm hx'')
      · simp only [Function.update_of_ne hj, Function.update_of_ne hk] at hu hu'
        exact h.compatible j k hjk u u' hu hu' x hx x' hx'

/-- Every operation keeps `Inv` at its commit point, for all views its locks allow. -/
def Keeps (E : Engine σ ω κ) (program : ι → Tx σ ω κ ε α) (Inv : σ → Prop) : Prop :=
  ∀ o s, Inv s → E.wlp E.Agree [] s (program o) (fun _ _ s' => Inv s')

theorem World.Sound.step (hop : E.Keeps program Inv) {w w' : World σ ω κ ε ι α} {o : Option ι}
    (h : World.Sound E program Inv w) (hs : Step E program w o w') : World.Sound E program Inv w' := by
  cases hs with
  | start i o hi =>
    refine h.update i _ ?_ ?_
    · rintro u ⟨⟩
      exact ⟨.start, by simp [Covered]⟩
    · rintro u ⟨⟩ x hx
      simp at hx
  | stmt i o l wr k ws held hi hfree =>
    obtain ⟨hran, hcov⟩ := h.session i _ hi
    have ha : E.Agree (held ++ l (E.applyAll w.db ws)) (E.applyAll w.db ws) (E.applyAll w.db ws) :=
      Agree.refl E _ _
    have hw := (Ran.wlp E hran (hop o _ h.inv) (E.applyAll w.db ws) ha).1
    refine h.update i _ ?_ ?_
    · rintro u ⟨⟩
      refine ⟨.step hran _ ha, ?_⟩
      intro x hx n hn
      rcases List.mem_append.mp hx with hx | hx
      · obtain ⟨y, hy, hcy⟩ := hcov x hx n hn
        exact ⟨y, List.mem_append_left _ hy, hcy⟩
      · exact hw x hx n hn
    · rintro u ⟨⟩ x hx
      rcases List.mem_append.mp hx with hx | hx
      · exact fun j hj t ht y hy => h.compatible i j (Ne.symm hj) _ t hi ht x hx y hy
      · exact hfree x hx
  | commit i o a ws held hi =>
    obtain ⟨hran, hcov⟩ := h.session i _ hi
    refine ⟨?_, ?_, ?_⟩
    · exact Ran.wlp E hran (hop o _ h.inv)
    · intro j t ht
      by_cases hj : j = i
      · subst hj
        simp at ht
      · simp only [Function.update_of_ne hj] at ht
        have hj' := h.session j t ht
        have hother : ∀ x ∈ t.held, ∀ n, E.Covers x n → E.protects n w.db (E.applyAll w.db ws) := by
          intro x hx n hxn
          refine E.protects_writes (fun y hy hyn => ?_) ws hcov _
          exact h.compatible i j (Ne.symm hj) _ t hi ht y hy x hx
            (E.conflict_symm (hxn y (E.conflict_symm hyn)))
        refine ⟨Ran.foreign E hj'.ran (E.evolves_writes _ ws) ?_ ?_, hj'.covered⟩
        · exact fun x hx => hother x hx x (fun _ hc => hc)
        · intro u hu n hnu
          obtain ⟨x, hx, hxn⟩ := hj'.covered u hu n hnu
          exact hother x hx n hxn
    · intro j k hjk t u ht hu
      by_cases hj : j = i
      · subst hj
        simp at ht
      · by_cases hk : k = i
        · subst hk
          simp at hu
        · simp only [Function.update_of_ne hj, Function.update_of_ne hk] at ht hu
          exact h.compatible j k hjk t u ht hu
  | rollback i => exact h.update i none (by simp) (by simp)

theorem Reachable.sound (hinit : ∀ s, Init s → Inv s) (hop : E.Keeps program Inv)
    {w : World σ ω κ ε ι α} (h : Reachable E program Init w) : World.Sound E program Inv w := by
  induction h with
  | init s h => exact ⟨hinit s h, by simp [World.quiet], by simp [World.quiet]⟩
  | step h hs ih => exact ih.step hop hs

/-- An invariant that every transaction keeps at its commit point, for all views its
locks allow, holds of the database in every interleaving. -/
theorem Reachable.invariant (hinit : ∀ s, Init s → Inv s) (hop : E.Keeps program Inv)
    {w : World σ ω κ ε ι α} (h : Reachable E program Init w) : Inv w.db :=
  (h.sound hinit hop).inv

/-- Whatever a step publishes, the database has evolved. -/
theorem Step.evolves {w w' : World σ ω κ ε ι α} {o : Option ι} (hs : Step E program w o w') :
    E.evolves w.db w'.db := by
  cases hs with
  | start i o hi => exact E.evolves_refl _
  | stmt i o l wr k ws held hi hfree => exact E.evolves_refl _
  | commit i o a ws held hi => exact E.evolves_writes _ ws
  | rollback i => exact E.evolves_refl _

theorem Run.evolves {ok : ι → Prop} {w w' : World σ ω κ ε ι α} (h : Run E program ok w w') :
    E.evolves w.db w'.db := by
  induction h with
  | refl => exact E.evolves_refl _
  | tail _ hs _ ih => exact E.evolves_trans ih hs.evolves

/-- What one operation's commit does to the database, whatever ran beside it; a step that
commits nothing leaves the database as it is. -/
theorem Reachable.commits (hinit : ∀ s, Init s → Inv s) (hop : E.Keeps program Inv)
    {w w' : World σ ω κ ε ι α} {o : Option ι} (h : Reachable E program Init w)
    (hs : Step E program w o w') {Q : ι → σ → σ → Prop}
    (hQ : ∀ x, o = some x → ∀ s, Inv s → E.wlp E.Agree [] s (program x) (fun _ _ s' => Q x s s')) :
    match o with
    | none => w'.db = w.db
    | some x => Q x w.db w'.db := by
  have hw := h.sound hinit hop
  cases hs with
  | start i x hi => rfl
  | stmt i x l wr k ws held hi hfree => rfl
  | commit i x a ws held hi =>
    have hran := (hw.session i _ hi).ran
    exact Ran.wlp E hran (hQ x rfl _ hw.inv)
  | rollback i => rfl

/-- What the commit of a session that has finished will do to the database, by its answer. -/
theorem Reachable.finished (hinit : ∀ s, Init s → Inv s) (hop : E.Keeps program Inv) {w : World σ ω κ ε ι α}
    (h : Reachable E program Init w) {i : ℕ} {o : ι} {a : α} {ws : List ω} {held : List κ}
    (hi : w.sessions i = some ⟨o, .commit a, ws, held⟩) {Q : α → σ → σ → Prop}
    (hQ : ∀ s, Inv s → E.wlp E.Agree [] s (program o) (fun _ a s' => Q a s s')) : Q a w.db (E.applyAll w.db ws) := by
  have hw := h.sound hinit hop
  exact Ran.wlp E (hw.session i _ hi).ran (hQ _ hw.inv)

theorem Reachable.run {ok : ι → Prop} {w w' : World σ ω κ ε ι α} (h : Reachable E program Init w)
    (hr : Run E program ok w w') : Reachable E program Init w' := by
  induction hr with
  | refl => exact h
  | tail _ hs _ ih => exact ih.step hs

theorem Run.trans {ok : ι → Prop} {w w' w'' : World σ ω κ ε ι α} (h : Run E program ok w w')
    (h' : Run E program ok w' w'') : Run E program ok w w'' := by
  induction h' with
  | refl => exact h
  | tail _ hs hok ih => exact ih.tail hs hok

private theorem exists_commit {ok : ι → Prop} {q : Tx σ ω κ ε α} {o : ι} {w₀ : World σ ω κ ε ι α} {db s' : σ}
    {ws : List ω} {held : List κ} {a : α}
    (h : Run E program ok w₀ ⟨db, Function.update (fun _ => none) 0 (some ⟨o, q, ws, held⟩)⟩)
    (hr : E.runFrom q (E.applyAll db ws) = .ok (a, s')) :
    ∃ w, Run E program ok w₀ w ∧ Step E program w (some o) (.quiet s') := by
  induction q generalizing ws held with
  | commit b =>
    simp only [runFrom, Except.ok.injEq, Prod.mk.injEq] at hr
    obtain ⟨-, rfl⟩ := hr
    refine ⟨_, h, ?_⟩
    have hs : Step E program ⟨db, Function.update (fun _ => none) 0 (some ⟨o, .commit b, ws, held⟩)⟩ (some o) _ :=
      .commit _ 0 o b ws held (by simp)
    simpa [World.quiet] using hs
  | abort e => simp [runFrom] at hr
  | stmt l w k ih =>
    have hfree : ∀ x ∈ l (E.applyAll db ws), World.Free E
        ⟨db, Function.update (fun _ => none) 0 (some ⟨o, .stmt l w k, ws, held⟩)⟩ 0 x := by
      intro x _ j hj t ht
      simp [Function.update_of_ne hj] at ht
    have hs := h.tail (.stmt _ 0 o l w k ws held (by simp) hfree) (by simp)
    simp only [Function.update_idem] at hs
    refine ih _ hs ?_
    rw [applyAll_append]
    exact hr

/-- An operation that succeeds alone gets to its commit with nothing else committed. -/
theorem Run.exists_commit {ok : ι → Prop} {o : ι} {db s' : σ} {a : α} (hr : E.runFrom (program o) db = .ok (a, s')) :
    ∃ w, Run E program ok (.quiet db) w ∧ Step E program w (some o) (.quiet s') :=
  Engine.exists_commit (Run.tail (.refl _) (.start _ 0 o rfl) (by simp)) hr

/-- A stretch without a commit leaves the database as it is. -/
theorem Run.db_eq {w w' : World σ ω κ ε ι α} (h : Run E program (fun _ => False) w w') : w'.db = w.db := by
  induction h with
  | refl => rfl
  | tail _ hs hok ih =>
    cases hs with
    | start i o hi => exact ih
    | stmt i o l wr k ws held hi hfree => exact ih
    | commit i o a ws held hi => exact (hok o rfl).elim
    | rollback i => exact ih

/-- The steps of an engine depend on what its writes do and on which of its locks exclude each other, and on nothing
else. An engine whose locks exclude more makes the same step, if the locks it leaves to two sessions that it would
not grant together exclude each other already. -/
theorem Step.transfer {E' : Engine σ ω κ} (happly : E'.apply = E.apply) {w w' : World σ ω κ ε ι α} {o : Option ι}
    (hs : Step E program w o w')
    (hconflict : ∀ i j, i ≠ j → ∀ t u, w'.sessions i = some t → w'.sessions j = some u →
      ∀ x ∈ t.held, ∀ y ∈ u.held, E'.conflict x y → E.conflict x y) : Step E' program w o w' := by
  have hall : ∀ s ws, E'.applyAll s ws = E.applyAll s ws := fun s ws => by rw [applyAll, applyAll, happly]
  cases hs with
  | start i o hi => exact .start _ i o hi
  | stmt i o l wr k ws held hi hl =>
    have hfree : ∀ x ∈ l (E.applyAll w.db ws), World.Free E' w i x := by
      intro x hx j hj t ht y hy hc
      refine hl x hx j hj t ht y hy (hconflict i j (Ne.symm hj) _ t (Function.update_self ..) ?_ x ?_ y hy hc)
      · exact (Function.update_of_ne hj _ _).trans ht
      · exact List.mem_append_right _ hx
    rw [← hall] at hfree ⊢
    exact .stmt _ i o l wr k ws held hi hfree
  | commit i o a ws held hi =>
    rw [← hall]
    exact .commit _ i o a ws held hi
  | rollback i => exact .rollback _ i

theorem Reachable.transfer {E' : Engine σ ω κ} (happly : E'.apply = E.apply)
    (hconflict : ∀ x y, E'.conflict x y → E.conflict x y) {w : World σ ω κ ε ι α} (h : Reachable E program Init w) :
    Reachable E' program Init w := by
  induction h with
  | init s h => exact .init s h
  | step _ hs ih => exact ih.step (hs.transfer happly fun _ _ _ _ _ _ _ x _ y _ => hconflict x y)

variable (E) in
/-- Every world reached through worlds with `P`. -/
inductive ReachableWithin (program : ι → Tx σ ω κ ε α) (Init : σ → Prop) (P : World σ ω κ ε ι α → Prop) :
    World σ ω κ ε ι α → Prop where
  | init (s : σ) (h : Init s) : ReachableWithin program Init P (.quiet s)
  | step {w w' : World σ ω κ ε ι α} {o : Option ι} (h : ReachableWithin program Init P w)
      (hs : Step E program w o w') (hP : P w') : ReachableWithin program Init P w'

variable {P : World σ ω κ ε ι α → Prop}

theorem ReachableWithin.reachable {w : World σ ω κ ε ι α} (h : ReachableWithin E program Init P w) :
    Reachable E program Init w := by
  induction h with
  | init s h => exact .init s h
  | step _ hs _ ih => exact ih.step hs

theorem ReachableWithin.transfer {E' : Engine σ ω κ} (happly : E'.apply = E.apply)
    (hP : ∀ w, P w → ∀ i j, i ≠ j → ∀ t u, w.sessions i = some t → w.sessions j = some u →
      ∀ x ∈ t.held, ∀ y ∈ u.held, E'.conflict x y → E.conflict x y)
    {w : World σ ω κ ε ι α} (h : ReachableWithin E program Init P w) : Reachable E' program Init w := by
  induction h with
  | init s h => exact .init s h
  | step _ hs hw ih => exact ih.step (hs.transfer happly (hP _ hw))

variable (E program) in
/-- The same with a check on the state that the operation leaves. -/
theorem Run.exists_commit_of_check (ok : ι → Prop) (o : ι) (db : σ) (P : σ → Bool)
    (h : (E.runFrom (program o) db).toOption.any (fun x => P x.2) = true) :
    ∃ w s', Run E program ok (.quiet db) w ∧ Step E program w (some o) (.quiet s') ∧ P s' = true := by
  cases hr : E.runFrom (program o) db with
  | error e => simp [hr, Except.toOption] at h
  | ok x =>
    obtain ⟨w, hw, hs⟩ : ∃ w, Run E program ok (.quiet db) w ∧ Step E program w (some o) (.quiet x.2) :=
      Run.exists_commit hr
    exact ⟨w, x.2, hw, hs, by simpa [hr, Except.toOption] using h⟩

/-- Operations that run one after the other reach the state `exec` computes. -/
theorem Run.serial {ok : ι → Prop} (db : σ) (os : List ι) (hok : ∀ o ∈ os, ok o) :
    Run E program ok (.quiet db) (.quiet (os.foldl (fun s o => (E.exec (program o) s).2) db)) := by
  induction os generalizing db with
  | nil => exact .refl _
  | cons o os ih =>
    refine Run.trans ?_ (ih (E.exec (program o) db).2 (fun x hx => hok x (by simp [hx])))
    unfold exec
    split
    · next s' hr =>
      obtain ⟨w, hw, hs⟩ : ∃ w, Run E program ok (.quiet db) w ∧ Step E program w (some o) (.quiet s') :=
        Run.exists_commit hr
      refine hw.tail hs (fun x hx => ?_)
      cases hx
      exact hok o (by simp)
    · exact .refl _

theorem Reachable.serial {db : σ} (h : Reachable E program Init (.quiet db)) (os : List ι) :
    Reachable E program Init (.quiet (os.foldl (fun s o => (E.exec (program o) s).2) db)) := by
  have hrun : Run E program (fun _ => True) (.quiet db) _ := Run.serial db os (fun _ _ => trivial)
  exact h.run hrun

end Engine
end LockedTransactions
