import Civfix.LockedTransactions

/-! # Transactions beside commits of a known kind

An engine says of single writes what they leave to other transactions. Two kinds of facts are not of
that form. A lock can keep something because every transaction that changes it takes the lock at some
point of its body, whichever of its writes makes the change; this is a property of whole commits and
is proved of each body. And an operation may only be right as long as the others do not do certain
things while it is in progress; this is a condition on the interleaving.

`Rely` names both, `wlpR` runs a body against all snapshots from which only such commits lead to its
own commit, and `Reaches.invariant` and `Reaches.commits` transfer what is proved there to every
interleaving that meets the condition. `Tx.Each` states what every statement of a body does whatever
it reads. -/
namespace LockedTransactions

variable {σ ω κ ε ι α β : Type}

namespace Tx

/-- Every statement of the body locks and writes as `P` says, on any view. -/
def Each (P : List κ → List ω → Prop) : Tx σ ω κ ε α → Prop
  | .commit _ => True
  | .abort _ => True
  | .stmt l w k => ∀ d, P (l d) (w d) ∧ Each P (k d)

variable {P : List κ → List ω → Prop}

theorem Each.bind {p : Tx σ ω κ ε α} {f : α → Tx σ ω κ ε β} (h : p.Each P) (hf : ∀ a, (f a).Each P) :
    (p >>= f).Each P := by
  induction p with
  | commit a => exact hf a
  | abort e => trivial
  | stmt l w k ih => exact fun d => ⟨(h d).1, ih d (h d).2⟩

theorem each_ite {c : Prop} [Decidable c] {p q : Tx σ ω κ ε α} (hp : c → p.Each P) (hq : ¬ c → q.Each P) :
    (if c then p else q).Each P := by
  split
  · next h => exact hp h
  · next h => exact hq h

theorem Each.mono {P' : List κ → List ω → Prop} (hP : ∀ l w, P l w → P' l w) {p : Tx σ ω κ ε α} (h : p.Each P) :
    p.Each P' := by
  induction p with
  | commit a => trivial
  | abort e => trivial
  | stmt l w k ih => exact fun d => ⟨hP _ _ (h d).1, ih d (h d).2⟩

/-- Every write of the body is of the kind. -/
def Writes (φ : ω → Prop) (p : Tx σ ω κ ε α) : Prop := p.Each (fun _ ws => ∀ w ∈ ws, φ w)

end Tx

namespace Engine

/-- `keeps` is what a lock keeps against whole commits, `during` what may happen to the database while
an operation is in progress. -/
structure Rely (σ κ ι : Type) where
  keeps : κ → σ → σ → Prop
  during : ι → σ → σ → Prop
  keeps_refl : ∀ l a, keeps l a a
  keeps_trans : ∀ {l a b c}, keeps l a b → keeps l b c → keeps l a c
  during_refl : ∀ o a, during o a a
  during_trans : ∀ {o a b c}, during o a b → during o b c → during o a c

variable (E : Engine σ ω κ) (R : Rely σ κ ι)

/-- What no write of the list changes is as it was. -/
theorem applyAll_of_silent {E : Engine σ ω κ} {f : σ → α} {ws : List ω} (h : ∀ w ∈ ws, ∀ s, f (E.apply s w) = f s)
    (s : σ) :
    f (E.applyAll s ws) = f s := by
  induction ws generalizing s with
  | nil => rfl
  | cons w ws ih =>
    rw [applyAll_cons, ih (fun u hu => h u (by simp [hu])), h w (by simp)]

/-- INSERT, UPDATE or DELETE: locks what it writes. -/
def dml (writes : σ → List ω) (f : σ → α) : Tx σ ω κ ε α :=
  .stmt (fun v => (writes v).flatMap E.needs) writes (fun v => .commit (f v))

/-- The locks of every statement cover its own writes. -/
def WellLocked (p : Tx σ ω κ ε α) : Prop := p.Each E.Covered

/-- Every statement either only reads and locks, or locks what it writes and writes only what `φ` allows. -/
def Plain (φ : ω → Prop) (p : Tx σ ω κ ε α) : Prop :=
  p.Each (fun l ws => ws = [] ∨ l = ws.flatMap E.needs ∧ ∀ w ∈ ws, φ w)

section Plain

variable {E} {φ : ω → Prop}

theorem plain_select (f : σ → α) : E.Plain φ (Tx.select f : Tx σ ω κ ε α) := fun _ => ⟨.inl rfl, trivial⟩

theorem plain_selectFor (locks : σ → List κ) (f : σ → α) : E.Plain φ (Tx.selectFor locks f : Tx σ ω κ ε α) :=
  fun _ => ⟨.inl rfl, trivial⟩

theorem plain_dml {writes : σ → List ω} (h : ∀ d, ∀ w ∈ writes d, φ w) (f : σ → α) :
    E.Plain φ (E.dml writes f : Tx σ ω κ ε α) := fun d => ⟨.inr ⟨rfl, h d⟩, trivial⟩

theorem Plain.bind {p : Tx σ ω κ ε α} {f : α → Tx σ ω κ ε β} (h : E.Plain φ p) (hf : ∀ a, E.Plain φ (f a)) :
    E.Plain φ (p >>= f) := Tx.Each.bind h hf

theorem plain_ite {c : Prop} [Decidable c] {p q : Tx σ ω κ ε α} (hp : E.Plain φ p) (hq : E.Plain φ q) :
    E.Plain φ (if c then p else q) := Tx.each_ite (fun _ => hp) (fun _ => hq)

theorem plain_pure (a : α) : E.Plain φ (pure a : Tx σ ω κ ε α) := trivial

theorem plain_abort (e : ε) : E.Plain φ (.abort e : Tx σ ω κ ε α) := trivial

theorem Plain.writes {p : Tx σ ω κ ε α} (h : E.Plain φ p) : p.Writes φ := by
  refine Tx.Each.mono (fun l ws hw => ?_) h
  rcases hw with rfl | ⟨-, hw⟩
  · simp
  · exact hw

theorem Plain.wellLocked {p : Tx σ ω κ ε α} (h : E.Plain φ p) : E.WellLocked p := by
  refine Tx.Each.mono (fun l ws hw => ?_) h
  rcases hw with rfl | ⟨rfl, -⟩
  · simp [Covered]
  · exact fun w hw n hn => ⟨n, List.mem_flatMap.mpr ⟨w, hw, hn⟩, fun _ h => h⟩

end Plain

/-- How the snapshot `d` of a statement still stands at the commit state `s`; the view of the
statement has the transaction's own writes on top. -/
structure Seen (o : ι) (held : List κ) (ws : List ω) (d s : σ) : Prop where
  db : E.Agree held d s
  view : E.Agree held (E.applyAll d ws) (E.applyAll s ws)
  keeps : ∀ l ∈ held, R.keeps l d s
  during : R.during o d s

theorem Seen.refl (o : ι) (held : List κ) (ws : List ω) (s : σ) : E.Seen R o held ws s s :=
  ⟨Agree.refl E held s, Agree.refl E held _, fun l _ => R.keeps_refl l s, R.during_refl o s⟩

/-- The body of the operation `o`, as it stands at its commit state `s`. -/
def wlpR (o : ι) (s : σ) : List κ → List ω → Tx σ ω κ ε α → (List κ → List ω → α → Prop) → Prop
  | held, ws, .commit a, Q => Q held ws a
  | _, _, .abort _, _ => True
  | held, ws, .stmt l w k, Q => ∀ d, E.Seen R o (held ++ l (E.applyAll d ws)) ws d s →
      wlpR o s (held ++ l (E.applyAll d ws)) (ws ++ w (E.applyAll d ws)) (k (E.applyAll d ws)) Q

section Rules

variable {E R} {o : ι} {s : σ} {held : List κ} {ws : List ω}

theorem wlpR_bind {p : Tx σ ω κ ε α} {f : α → Tx σ ω κ ε β} {Q : List κ → List ω → β → Prop}
    (h : E.wlpR R o s held ws p (fun held' ws' a => E.wlpR R o s held' ws' (f a) Q)) :
    E.wlpR R o s held ws (p >>= f) Q := by
  induction p generalizing held ws with
  | commit a => exact h
  | abort e => trivial
  | stmt l w k ih => exact fun d hd => ih _ (h d hd)

theorem wlpR_mono {p : Tx σ ω κ ε α} {Q Q' : List κ → List ω → α → Prop}
    (hQ : ∀ held' ws' a, Q held' ws' a → Q' held' ws' a) (h : E.wlpR R o s held ws p Q) :
    E.wlpR R o s held ws p Q' := by
  induction p generalizing held ws with
  | commit a => exact hQ _ _ _ h
  | abort e => trivial
  | stmt l w k ih => exact fun d hd => ih _ (h d hd)

theorem wlpR_select {f : σ → α} {Q : List κ → List ω → α → Prop}
    (h : ∀ d, E.Seen R o held ws d s → Q held ws (f (E.applyAll d ws))) :
    E.wlpR R o s held ws (Tx.select f : Tx σ ω κ ε α) Q := by
  intro d hd
  simp only [List.append_nil] at hd ⊢
  exact h d hd

theorem wlpR_selectFor {locks : σ → List κ} {f : σ → α} {Q : List κ → List ω → α → Prop}
    (h : ∀ d, E.Seen R o (held ++ locks (E.applyAll d ws)) ws d s →
      Q (held ++ locks (E.applyAll d ws)) ws (f (E.applyAll d ws))) :
    E.wlpR R o s held ws (Tx.selectFor locks f : Tx σ ω κ ε α) Q := by
  intro d hd
  simp only [List.append_nil]
  exact h d hd

theorem wlpR_dml {writes : σ → List ω} {f : σ → α} {Q : List κ → List ω → α → Prop}
    (h : ∀ d, E.Seen R o (held ++ (writes (E.applyAll d ws)).flatMap E.needs) ws d s →
      Q (held ++ (writes (E.applyAll d ws)).flatMap E.needs) (ws ++ writes (E.applyAll d ws)) (f (E.applyAll d ws))) :
    E.wlpR R o s held ws (E.dml writes f : Tx σ ω κ ε α) Q := h

theorem wlpR_of_forall {p : Tx σ ω κ ε α} {Q : List κ → List ω → α → Prop} (hQ : ∀ held' ws' a, Q held' ws' a) :
    E.wlpR R o s held ws p Q := by
  induction p generalizing held ws with
  | commit a => exact hQ held ws a
  | abort e => trivial
  | stmt l w k ih => exact fun d _ => ih _

theorem wlpR_and {p : Tx σ ω κ ε α} {Q Q' : List κ → List ω → α → Prop} (h : E.wlpR R o s held ws p Q)
    (h' : E.wlpR R o s held ws p Q') : E.wlpR R o s held ws p (fun held' ws' a => Q held' ws' a ∧ Q' held' ws' a) := by
  induction p generalizing held ws with
  | commit a => exact ⟨h, h'⟩
  | abort e => trivial
  | stmt l w k ih => exact fun d hd => ih _ (h d hd) (h' d hd)

/-- Locks are held to the end. -/
theorem wlpR_grows {p : Tx σ ω κ ε α} {Q : List κ → List ω → α → Prop}
    (hQ : ∀ held' ws' a, held ⊆ held' → Q held' ws' a) :
    E.wlpR R o s held ws p Q := by
  induction p generalizing held ws with
  | commit a => exact hQ held ws a (fun _ h => h)
  | abort e => trivial
  | stmt l w k ih =>
    exact fun d _ => ih _ (fun held' ws' a hsub => hQ held' ws' a (fun x hx => hsub (List.mem_append_left _ hx)))

/-- A statement that only reads and locks. -/
theorem wlpR_reads {p : Tx σ ω κ ε α} (hp : E.Plain (fun _ => False) p) {Q : List κ → List ω → α → Prop}
    (hQ : ∀ held' a, held ⊆ held' → Q held' ws a) : E.wlpR R o s held ws p Q := by
  induction p generalizing held ws with
  | commit a => exact hQ held a (fun _ h => h)
  | abort e => trivial
  | stmt l w k ih =>
    intro d _
    have hw : w (E.applyAll d ws) = [] := by
      rcases (hp (E.applyAll d ws)).1 with hw | ⟨-, hw⟩
      · exact hw
      · exact List.eq_nil_iff_forall_not_mem.mpr hw
    rw [hw, List.append_nil]
    exact ih _ (hp _).2 (fun held' a hsub => hQ held' a (fun x hx => hsub (List.mem_append_left _ hx)))

/-- What is left of a body only takes more locks and adds writes of its kind. -/
theorem wlpR_writes {φ : ω → Prop} {p : Tx σ ω κ ε α} (hp : p.Writes φ) {Q : List κ → List ω → α → Prop}
    (hQ : ∀ held' us a, held ⊆ held' → (∀ w ∈ us, φ w) → Q held' (ws ++ us) a) : E.wlpR R o s held ws p Q := by
  induction p generalizing held ws with
  | commit a =>
    have h := hQ held [] a (fun _ h => h) (by simp)
    rwa [List.append_nil] at h
  | abort e => trivial
  | stmt l w k ih =>
    intro d _
    refine ih _ (hp _).2 (fun held' us a hsub hus => ?_)
    rw [List.append_assoc]
    refine hQ held' _ a (fun x hx => hsub (List.mem_append_left _ hx)) (fun u hu => ?_)
    rcases List.mem_append.mp hu with hu | hu
    · exact (hp _).1 u hu
    · exact hus u hu

end Rules

/-! ## Interleavings -/

/-- The statements that a session has run, each with its snapshot as it stands now. -/
inductive RanR (o : ι) (db : σ) (p : Tx σ ω κ ε α) : Tx σ ω κ ε α → List ω → List κ → Prop where
  | start : RanR o db p p [] []
  | step {l : σ → List κ} {wr : σ → List ω} {k : σ → Tx σ ω κ ε α} {ws : List ω} {held : List κ}
      (h : RanR o db p (.stmt l wr k) ws held) (d : σ) (hd : E.Seen R o (held ++ l (E.applyAll d ws)) ws d db) :
      RanR o db p (k (E.applyAll d ws)) (ws ++ wr (E.applyAll d ws)) (held ++ l (E.applyAll d ws))

variable {E R}

theorem RanR.wlpR {o : ι} {db : σ} {p q : Tx σ ω κ ε α} {ws : List ω} {held : List κ} (h : RanR E R o db p q ws held)
    {Q : List κ → List ω → α → Prop} (hp : E.wlpR R o db [] [] p Q) : E.wlpR R o db held ws q Q := by
  induction h with
  | start => exact hp
  | step h d hd ih => exact ih d hd

theorem RanR.each {P : List κ → List ω → Prop} {o : ι} {db : σ} {p q : Tx σ ω κ ε α} {ws : List ω} {held : List κ}
    (h : RanR E R o db p q ws held) (hp : p.Each P) : q.Each P := by
  induction h with
  | start => exact hp
  | step h d hd ih => exact (ih _).2

/-- A foreign commit that respects what the session relies on does not disturb it. -/
theorem RanR.foreign {o : ι} {db db' : σ} {p q : Tx σ ω κ ε α} {ws : List ω} {held : List κ}
    (h : RanR E R o db p q ws held) (he : E.evolves db db') (hl : ∀ l ∈ held, E.protects l db db')
    (hk : ∀ l ∈ held, R.keeps l db db') (hn : ∀ w ∈ ws, ∀ n ∈ E.needs w, E.protects n db db')
    (hduring : R.during o db db') : RanR E R o db' p q ws held := by
  induction h with
  | start => exact .start
  | @step l wr k ws held h d hd ih =>
    have hprev := ih (fun x hx => hl x (by simp [hx])) (fun x hx => hk x (by simp [hx]))
      (fun w hw => hn w (by simp [hw]))
    have hag := E.agree_applyAll he hl ws (fun w hw => hn w (by simp [hw]))
    refine .step hprev d ⟨⟨E.evolves_trans hd.db.1 he, fun x hx => E.protects_trans (hd.db.2 x hx) (hl x hx)⟩,
      ⟨E.evolves_trans hd.view.1 hag.1, fun x hx => E.protects_trans (hd.view.2 x hx) (hag.2 x hx)⟩,
      fun x hx => R.keeps_trans (hd.keeps x hx) (hk x hx), R.during_trans hd.during hduring⟩

variable (E R)

structure SoundR (program : ι → Tx σ ω κ ε α) (Inv : σ → Prop) (w : World σ ω κ ε ι α) : Prop where
  inv : Inv w.db
  ran : ∀ i t, w.sessions i = some t → RanR E R t.origin w.db (program t.origin) t.rest t.writes t.held
  covered : ∀ i t, w.sessions i = some t → E.Covered t.held t.writes
  compatible : ∀ i j, i ≠ j → ∀ t u, w.sessions i = some t → w.sessions j = some u →
    ∀ h ∈ t.held, ∀ h' ∈ u.held, ¬ E.conflict h h'

/-- Every operation locks what it writes and keeps `Inv` at its commit point, and its commit keeps what
the locks of others keep; `ok` is what is given of the state an operation commits on. -/
structure Careful (ok : ι → σ → Prop) (program : ι → Tx σ ω κ ε α) (Inv : σ → Prop) : Prop where
  locked : ∀ o, E.WellLocked (program o)
  commit : ∀ o s, Inv s → ok o s → E.wlpR R o s [] [] (program o) (fun held ws _ =>
    Inv (E.applyAll s ws) ∧ ∀ l, (∀ h ∈ held, ¬ E.conflict h l) → E.protects l s (E.applyAll s ws) →
      R.keeps l s (E.applyAll s ws))

/-- Every world reached by an interleaving in which operations commit on states with `ok` and no commit
breaks what another operation in progress relies on. -/
inductive Reaches (ok : ι → σ → Prop) (program : ι → Tx σ ω κ ε α) (Init : σ → Prop) : World σ ω κ ε ι α → Prop where
  | init (s : σ) (h : Init s) : Reaches ok program Init (.quiet s)
  | step {w w' : World σ ω κ ε ι α} {o : Option ι} (h : Reaches ok program Init w) (hs : Step E program w o w')
      (hok : ∀ x, o = some x → ok x w.db)
      (hduring : ∀ j t, w'.sessions j = some t → R.during t.origin w.db w'.db) : Reaches ok program Init w'

variable {E R} {program : ι → Tx σ ω κ ε α} {Inv Init : σ → Prop} {ok : ι → σ → Prop} {w w' : World σ ω κ ε ι α}

/-- Replacing one session by one that is sound and whose locks are free. -/
theorem SoundR.update (h : E.SoundR R program Inv w) (i : ℕ) (t : Option (Session σ ω κ ε ι α))
    (hran : ∀ u, t = some u → RanR E R u.origin w.db (program u.origin) u.rest u.writes u.held)
    (hcov : ∀ u, t = some u → E.Covered u.held u.writes)
    (hfree : ∀ u, t = some u → ∀ x ∈ u.held, World.Free E w i x) :
    E.SoundR R program Inv ⟨w.db, Function.update w.sessions i t⟩ := by
  have hone : ∀ {P : Session σ ω κ ε ι α → Prop}, (∀ u, t = some u → P u) → (∀ j u, w.sessions j = some u → P u) →
      ∀ j u, Function.update w.sessions i t j = some u → P u := by
    intro P hnew hold j u hu
    by_cases hj : j = i
    · subst hj
      exact hnew u (by simpa using hu)
    · exact hold j u (by simpa [Function.update_of_ne hj] using hu)
  refine ⟨h.inv, hone hran h.ran, hone hcov h.covered, ?_⟩
  intro j k hjk u u' hu hu' x hx x' hx'
  by_cases hj : j = i
  · subst hj
    have hk : k ≠ j := fun he => hjk he.symm
    simp only [Function.update_self, Function.update_of_ne hk] at hu hu'
    exact hfree u hu x hx k hk u' hu' x' hx'
  · by_cases hk : k = i
    · subst hk
      simp only [Function.update_self, Function.update_of_ne hj] at hu hu'
      exact fun hc => hfree u' hu' x' hx' j hj u hu x hx (E.conflict_symm hc)
    · simp only [Function.update_of_ne hj, Function.update_of_ne hk] at hu hu'
      exact h.compatible j k hjk u u' hu hu' x hx x' hx'

theorem SoundR.commit (hop : E.Careful R ok program Inv) (h : E.SoundR R program Inv w) {i : ℕ} {o : ι} {a : α}
    {ws : List ω} {held : List κ} (hi : w.sessions i = some ⟨o, .commit a, ws, held⟩) (hok : ok o w.db)
    (hduring : ∀ j t, Function.update w.sessions i none j = some t → R.during t.origin w.db (E.applyAll w.db ws)) :
    E.SoundR R program Inv ⟨E.applyAll w.db ws, Function.update w.sessions i none⟩ := by
  obtain ⟨hinv, hkeeps⟩ := (h.ran i _ hi).wlpR (hop.commit o _ h.inv hok)
  have hothers : ∀ j t, Function.update w.sessions i none j = some t → j ≠ i ∧ w.sessions j = some t := by
    intro j t ht
    by_cases hj : j = i
    · subst hj
      simp at ht
    · exact ⟨hj, by simpa [Function.update_of_ne hj] using ht⟩
  refine ⟨hinv, fun j t ht => ?_, fun j t ht => h.covered j t (hothers j t ht).2, ?_⟩
  · obtain ⟨hj, htj⟩ := hothers j t ht
    have hfree : ∀ x ∈ t.held, ∀ y ∈ held, ¬ E.conflict y x :=
      fun x hx y hy => h.compatible i j (Ne.symm hj) _ t hi htj y hy x hx
    have hprotects : ∀ x ∈ t.held, ∀ n, E.Covers x n → E.protects n w.db (E.applyAll w.db ws) := by
      intro x hx n hxn
      refine E.protects_writes (fun y hy hyn => ?_) ws (h.covered i _ hi) _
      exact hfree x hx y hy (E.conflict_symm (hxn y (E.conflict_symm hyn)))
    refine (h.ran j t htj).foreign (E.evolves_writes _ ws) (fun x hx => hprotects x hx x (fun _ hc => hc))
      (fun x hx => hkeeps x (hfree x hx) (hprotects x hx x (fun _ hc => hc))) (fun u hu n hnu => ?_) (hduring j t ht)
    obtain ⟨x, hx, hxn⟩ := h.covered j t htj u hu n hnu
    exact hprotects x hx n hxn
  · intro j k hjk t u ht hu
    exact h.compatible j k hjk t u (hothers j t ht).2 (hothers k u hu).2

theorem SoundR.step (hop : E.Careful R ok program Inv) {o : Option ι} (h : E.SoundR R program Inv w)
    (hs : Step E program w o w') (hok : ∀ x, o = some x → ok x w.db)
    (hduring : ∀ j t, w'.sessions j = some t → R.during t.origin w.db w'.db) : E.SoundR R program Inv w' := by
  cases hs with
  | start i o hi =>
    refine h.update i _ ?_ ?_ ?_
    · rintro u ⟨⟩
      exact .start
    · rintro u ⟨⟩
      simp [Covered]
    · rintro u ⟨⟩ x hx
      simp at hx
  | stmt i o l wr k ws held hi hfree =>
    have hran := h.ran i _ hi
    have hcov := h.covered i _ hi
    have hseen := Seen.refl E R o (held ++ l (E.applyAll w.db ws)) ws w.db
    have hw := (hran.each (hop.locked o) (E.applyAll w.db ws)).1
    refine h.update i _ ?_ ?_ ?_
    · rintro u ⟨⟩
      exact .step hran _ hseen
    · rintro u ⟨⟩ x hx n hn
      rcases List.mem_append.mp hx with hx | hx
      · obtain ⟨y, hy, hcy⟩ := hcov x hx n hn
        exact ⟨y, List.mem_append_left _ hy, hcy⟩
      · obtain ⟨y, hy, hcy⟩ := hw x hx n hn
        exact ⟨y, List.mem_append_right _ hy, hcy⟩
    · rintro u ⟨⟩ x hx
      rcases List.mem_append.mp hx with hx | hx
      · exact fun j hj t ht y hy => h.compatible i j (Ne.symm hj) _ t hi ht x hx y hy
      · exact hfree x hx
  | commit i o a ws held hi => exact h.commit hop hi (hok o rfl) hduring
  | rollback i => exact h.update i none (by simp) (by simp) (by simp)

theorem Reaches.sound (hinit : ∀ s, Init s → Inv s) (hop : E.Careful R ok program Inv)
    (h : E.Reaches R ok program Init w) : E.SoundR R program Inv w := by
  induction h with
  | init s h => exact ⟨hinit s h, by simp [World.quiet], by simp [World.quiet], by simp [World.quiet]⟩
  | step h hs hok hduring ih => exact ih.step hop hs hok hduring

/-- An invariant that every operation keeps at its commit point holds in every such interleaving. -/
theorem Reaches.invariant (hinit : ∀ s, Init s → Inv s) (hop : E.Careful R ok program Inv)
    (h : E.Reaches R ok program Init w) : Inv w.db :=
  (h.sound hinit hop).inv

/-- What one operation's commit does to the database in such an interleaving. -/
theorem Reaches.commits (hinit : ∀ s, Init s → Inv s) (hop : E.Careful R ok program Inv)
    (h : E.Reaches R ok program Init w) {o : ι} (hs : Step E program w (some o) w') {Q : σ → σ → Prop}
    (hQ : ∀ s, Inv s → E.wlpR R o s [] [] (program o) (fun _ ws _ => Q s (E.applyAll s ws))) : Q w.db w'.db := by
  have hw := h.sound hinit hop
  cases hs with
  | commit i _ a ws held hi => exact (hw.ran i _ hi).wlpR (hQ _ hw.inv)

end Engine

end LockedTransactions
