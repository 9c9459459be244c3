import Civfix.SessionSteps

/-! # Tokens, owners and epochs along a run

Two invariants. `Sound` says who can know what: a token is presented only after it was handed
out, one sign-in owns a hash, and every row, projection and held epoch of a hash is of the
user it was drawn for. `Behind` says that what is left of a set of sessions carries epochs
other than the current one; it survives every move of the epoch for which no projection or
call carries the new value. -/
namespace Civfix.Sessions

open KeyedTables InterleavedCalls SpelledIds

variable {cfg : Config} {w w' : World} {m : Move} {r : Option Result}

/-! ## Who owns a hash -/

structure Shared.Recorded (s : Shared) : Prop where
  nodup : (s.drawn.map (·.1)).Nodup
  spelling : ∀ x ∈ s.drawn, x.2.IsPrinted
  issued : ∀ x ∈ s.issued, x ∈ s.drawn
  presented : ∀ h ∈ s.presented, h ∈ s.drawn.map (·.1) → h ∈ s.issued.map (·.1)
  rows : ∀ h r, s.rows.find? h = some r → (h, printed r.userId) ∈ s.drawn
  cached : ∀ h e, s.cached h = some e → (h, e.value.userId) ∈ s.drawn

structure Await.Recorded (s : Shared) (p : Await) : Prop where
  token : ∀ h, p.token = some h → h ∈ s.presented
  mint : ∀ x, p.mint = some x → (x.hash, x.userId) ∈ s.drawn ∧ x.hash ∉ s.issued.map (·.1)
  held : ∀ x, p.held = some x → (x.hash, x.userId) ∈ s.drawn
  reads : ∀ h u st, p.reads = some (h, u, st) → (h, u) ∈ s.drawn

structure Sound (w : World) : Prop where
  recorded : Machine.Holds Shared.Recorded (fun s _ (c : Call Request Await) => c.await.Recorded s) w
  unique : Machine.Exclusive (fun c : Call Request Await => c.await.mint.map (·.hash)) w
  admitted : ∀ i c, w.call i = some c → c.origin.Admits c.await

theorem sound_initial : Sound (.initial .empty) where
  recorded := ⟨⟨by simp [World.initial, Shared.empty], by simp [World.initial, Shared.empty],
    by simp [World.initial, Shared.empty], by simp [World.initial, Shared.empty], fun _ _ h => (nomatch h),
    fun _ _ h => (nomatch h)⟩, fun _ _ h => (nomatch h)⟩
  unique _ _ _ _ _ h := (nomatch h)
  admitted _ _ h := (nomatch h)

theorem Await.Recorded.mono {s s' : Shared} {p : Await} (h : p.Recorded s) (hd : s.drawn ⊆ s'.drawn)
    (hp : s.presented ⊆ s'.presented)
    (hi : ∀ x, p.mint = some x → x.hash ∈ s'.issued.map (·.1) → x.hash ∈ s.issued.map (·.1)) : p.Recorded s' where
  token x hx := hp (h.token x hx)
  mint x hx := ⟨hd (h.mint x hx).1, fun hmem => (h.mint x hx).2 (hi x hx hmem)⟩
  held x hx := hd (h.held x hx)
  reads x u st hx := hd (h.reads x u st hx)

theorem Shared.Recorded.access {s s' : Shared} {p : Await} {n : Next Await Result} (h : s.Recorded)
    (hp : p.Recorded s) (hn : (s', n) ∈ cfg.access s p) : s'.Recorded := by
  have he := Config.effect_of_access hn
  have hgrow : ∀ x ∈ s.issued, x ∈ s'.issued := by
    intro x hx
    rcases he.issued_cases with hi | ⟨x', epoch, status, -, hi⟩ <;> simp [hi, hx]
  refine ⟨he.drawn_eq ▸ h.nodup, he.drawn_eq ▸ h.spelling, fun x hx => ?_, fun x hx hd => ?_, fun x r hr => ?_,
    fun x e hc => ?_⟩
  · rw [he.drawn_eq]
    rcases he.issued_cases with hi | ⟨x', epoch, status, rfl, hi⟩
    · exact h.issued x (hi ▸ hx)
    · rcases List.mem_cons.mp (hi ▸ hx) with rfl | hx
      · exact (hp.mint x' rfl).1
      · exact h.issued x hx
  · obtain ⟨y, hy, rfl⟩ := List.mem_map.mp (h.presented x (he.presented_eq ▸ hx) (he.drawn_eq ▸ hd))
    exact List.mem_map_of_mem (hgrow y hy)
  · rw [he.drawn_eq]
    rcases he.rows_cases hr with ⟨r₀, hr₀, hu⟩ | ⟨x', epoch, status, rfl, rfl, hu⟩
    · exact hu ▸ h.rows x r₀ hr₀
    · have hdrawn := (hp.mint x' rfl).1
      rw [← hu, ← h.spelling _ hdrawn]
      exact hdrawn
  · rw [he.drawn_eq]
    rcases he.cached_cases hc with hc | ⟨hheld, -, -⟩
    · exact h.cached x e hc
    · have hrec := hp.held _ hheld
      rwa [show e.held.hash = x from Shared.hash_of_cached hc] at hrec

theorem Await.Recorded.access {s s' : Shared} {p q : Await} (h : s.Recorded) (hp : p.Recorded s)
    (hq : (s', .await q) ∈ cfg.access s p) : q.Recorded s' := by
  have he := Config.effect_of_access hq
  obtain ⟨htoken, hmint⟩ := Config.token_of_access hq
  have hissued : s'.issued = s.issued := by
    rcases he.issued_cases with hi | ⟨x, epoch, status, rfl, -⟩
    · exact hi
    · cases Config.done_of_mintCache hq
  have hm : ∀ x, q.mint = some x → (x.hash, x.userId) ∈ s'.drawn ∧ x.hash ∉ s'.issued.map (·.1) := by
    intro x hx
    rw [he.drawn_eq, hissued]
    exact hp.mint x (hmint ▸ hx)
  refine ⟨fun x hx => ?_, hm, fun x hx => ?_, fun x u st hx => ?_⟩
  · rw [he.presented_eq]
    exact hp.token x (htoken ▸ hx)
  · rw [he.drawn_eq]
    rcases Config.held_of_access hq hx with hx | ⟨e, hc, rfl⟩ | ⟨hx, -⟩ | ⟨-, hx⟩
    · exact hp.held x hx
    · exact h.cached _ e hc
    · exact hp.held ⟨x.hash, x.userId, x.epoch, none⟩ hx
    · exact hp.reads _ _ _ hx
  · rcases Config.reads_of_access hq hx with ⟨y, hy, rfl, rfl⟩ | ⟨now, row, -, -, hrow, rfl⟩
    · exact (hm y hy).1
    · obtain ⟨r, hr, hu, -⟩ := Shared.findById_eq_some hrow
      rw [he.drawn_eq, ← hu]
      exact h.rows x r hr

/-- Starting a call adds at most one name to the records. -/
theorem Shared.Recorded.enter {s s' : Shared} {o : Request} {p : Await} (h : s.Recorded)
    (he : cfg.enter s o = some (s', p)) : s'.Recorded ∧ p.Recorded s' := by
  have hheld := (Config.held_of_enter he).1
  rcases Config.enter_cases he with ⟨hash, u, hu, hd, hp, rfl, x, hx, rfl, rfl, htoken⟩ | ⟨hash, hd, rfl, htoken, hmint⟩ |
    ⟨rfl, htoken, hmint⟩
  · refine ⟨⟨List.nodup_cons.mpr ⟨hd, h.nodup⟩, List.forall_mem_cons.mpr ⟨hu, h.spelling⟩,
      fun y hy => List.mem_cons_of_mem _ (h.issued y hy), ?_, fun y r hr => List.mem_cons_of_mem _ (h.rows y r hr),
      fun y e hc => List.mem_cons_of_mem _ (h.cached y e hc)⟩, ?_⟩
    · intro y hy hyd
      rcases List.mem_cons.mp hyd with rfl | hyd
      · exact absurd hy hp
      · exact h.presented y hy hyd
    · refine ⟨by simp [htoken], ?_, by simp [hheld], ?_⟩
      · intro y hy
        obtain rfl : x = y := Option.some.inj (hx.symm.trans hy)
        refine ⟨List.mem_cons_self, fun hi => hd ?_⟩
        obtain ⟨z, hz, hzx⟩ := List.mem_map.mp hi
        exact List.mem_map.mpr ⟨z, h.issued z hz, hzx⟩
      · intro y v st hr
        obtain ⟨z, hz, rfl, rfl⟩ := Config.reads_of_enter he hr
        obtain rfl : x = z := Option.some.inj (hx.symm.trans hz)
        exact List.mem_cons_self
  · refine ⟨⟨h.nodup, h.spelling, h.issued, ?_, h.rows, h.cached⟩, ?_⟩
    · intro y hy
      rcases List.mem_cons.mp hy with rfl | hy
      · exact hd
      · exact h.presented y hy
    · refine ⟨?_, by simp [hmint], by simp [hheld], ?_⟩
      · intro y hy
        obtain rfl : hash = y := Option.some.inj (htoken.symm.trans hy)
        exact List.mem_cons_self
      · intro y v st hr
        obtain ⟨z, hz, -⟩ := Config.reads_of_enter he hr
        cases hmint.symm.trans hz
  · refine ⟨h, by simp [htoken], by simp [hmint], by simp [hheld], fun y v st hr => ?_⟩
    obtain ⟨z, hz, -⟩ := Config.reads_of_enter he hr
    cases hmint.symm.trans hz

theorem Sound.step (hw : Sound w) (hs : cfg.machine.step w m = some (w', r)) : Sound w' := by
  have hrec := hw.recorded
  refine ⟨hrec.step hs ?_ ?_ ?_, ?_, ?_⟩
  · intro o s p _ he
    obtain ⟨hI, hJ⟩ := hrec.shared.enter he
    refine ⟨hI, hJ, fun i c hc => (hrec.calls i c hc).mono ?_ ?_ ?_⟩
    all_goals
      rcases Config.enter_cases he with ⟨hash, u, -, -, -, rfl, -⟩ | ⟨hash, -, rfl, -⟩ | ⟨rfl, -⟩ <;> simp
  · intro i k c s n _ hc hn
    have he := Config.effect_of_access hn
    have hp := hrec.calls i c hc
    refine ⟨hrec.shared.access hp hn, fun q hq => Await.Recorded.access hrec.shared hp (hq ▸ hn), ?_⟩
    intro j d hj hd
    refine (hrec.calls j d hd).mono (by rw [he.drawn_eq]; simp) (by rw [he.presented_eq]; simp) ?_
    intro x hx hi
    rcases he.issued_cases with heq | ⟨y, epoch, status, hy, heq⟩
    · rwa [heq] at hi
    · -- Another sign-in that hands out its token has another hash.
      rw [heq, List.map_cons, List.mem_cons] at hi
      rcases hi with hxy | hi
      · exact absurd (hw.unique j i d c y.hash hd hc (by simp [hx, hxy]) (by simp [hy, Await.mint])) hj
      · exact hi
  · intro e s _ he
    rcases Config.environment_cases he with ⟨now, -, hle, rfl⟩ | ⟨user, -, rfl⟩
    · refine ⟨⟨hrec.shared.nodup, hrec.shared.spelling, hrec.shared.issued, hrec.shared.presented, hrec.shared.rows, ?_⟩, ?_⟩
      · exact fun h e hc => hrec.shared.cached h e (Config.cached_tick hle hc)
      · exact fun i c hc => (hrec.calls i c hc).mono (List.Subset.refl _) (List.Subset.refl _) (fun _ _ h => h)
    · refine ⟨⟨hrec.shared.nodup, hrec.shared.spelling, hrec.shared.issued, hrec.shared.presented, hrec.shared.rows,
        hrec.shared.cached⟩, ?_⟩
      exact fun i c hc => (hrec.calls i c hc).mono (List.Subset.refl _) (List.Subset.refl _) (fun _ _ h => h)
  · refine hw.unique.step hs ?_ ?_
    · intro o s p he k hk i c hc hck
      obtain ⟨x, hx, rfl⟩ := Option.map_eq_some_iff.mp hk
      obtain ⟨y, hy, hyx⟩ := Option.map_eq_some_iff.mp hck
      rcases Config.enter_cases he with ⟨hash, u, -, hd, -, -, z, hz, rfl, -⟩ | ⟨hash, -, -, -, hm⟩ | ⟨-, -, hm⟩
      · obtain rfl : x = z := Option.some.inj (hx.symm.trans hz)
        exact hd (List.mem_map.mpr ⟨_, ((hrec.calls i c hc).mint y hy).1, hyx⟩)
      · cases hm.symm.trans hx
      · cases hm.symm.trans hx
    · intro c s p hp
      rw [(Config.token_of_access hp).2]
  · intro i c hc
    rcases Machine.call_cases hs hc with ⟨o, p, -, -, rfl, he⟩ | ⟨k, d, p, -, hd, rfl, hmem⟩ | ⟨hc, -⟩
    · exact Config.admits_of_enter he
    · exact Config.admits_of_access (hw.admitted i d hd) hmem
    · exact hw.admitted i c hc

theorem sound_of_run {ok : World → Move → Prop} (hr : Machine.Run cfg.machine ok w w') (hw : Sound w) : Sound w' :=
  hr.invariant hw (fun hv _ hs => hv.step hs)

/-! ## Carried epochs -/

/-- A live projection or a call in progress carries the epoch. -/
inductive Carries (w : World) : Held → Prop where
  | cached {h : Hash} {e : CacheEntry} (hc : w.shared.cached h = some e) : Carries w e.held
  | call {i : ℕ} {c : Call Request Await} {x : Held} (hc : w.call i = some c) (hx : c.await.held = some x) : Carries w x

/-- No projection of the user that is alive at `now`, and no call in progress, carries the value. -/
def Uncarried (w : World) (now : Instant) (u : UserId) (n : ℕ) : Prop :=
  (∀ e ∈ w.shared.cache.rows, now < e.expiresAt → e.value.userId = u → e.value.epoch ≠ n) ∧
    ∀ o ∈ w.calls, ∀ c ∈ o, ∀ x ∈ c.await.held, x.userId = u → x.epoch ≠ n

instance (w : World) (now : Instant) (u : UserId) (n : ℕ) : Decidable (Uncarried w now u n) :=
  inferInstanceAs (Decidable (_ ∧ _))

/-- The epoch of a user moves only to a value that nothing of the user carries: by a bump,
or to zero when its key expires. -/
def EpochSound (w : World) : Move → Prop
  | .access i _ => ∀ c ∈ w.call i, ∀ u ∈ c.await.bumps, Uncarried w w.shared.now u (w.shared.currentEpoch u + 1)
  | .environment (.tick now) => ∀ k ∈ w.shared.epochs.rows, w.shared.now < k.expiresAt → k.expiresAt ≤ now →
      Uncarried w now k.userId 0
  | _ => True

theorem Uncarried.ne {now : Instant} {u : UserId} {n : ℕ} (h : Uncarried w now u n) {x : Held} (hx : Carries w' x)
    (hcalls : w'.calls = w.calls) (hcache : w'.shared.cache = w.shared.cache) (hnow : w'.shared.now = now)
    (hu : x.userId = u) : x.epoch ≠ n := by
  cases hx with
  | cached hc =>
    obtain ⟨hfind, hlive⟩ := Shared.cached_eq_some.mp hc
    rw [hcache] at hfind
    exact h.1 _ (Table.find?_eq_some hfind).1 (hnow ▸ hlive) hu
  | call hc hx => exact h.2 _ (hcalls ▸ World.mem_calls hc) _ rfl _ hx hu

/-- What is carried after a move was carried before, or was just completed or read. -/
theorem Carries.of_step {x : Held} (hx : Carries w' x) (hs : cfg.machine.step w m = some (w', r)) :
    Carries w x ∨ ∃ i k c, m = .access i k ∧ w.call i = some c ∧
      ((c.await.held = some { x with status := none } ∧ x.status = some (w.shared.accountStatus x.userId)) ∨
        (x.epoch = w.shared.currentEpoch x.userId ∧ c.await.reads = some (x.hash, x.userId, x.status))) := by
  cases hx with
  | cached hcached =>
    rcases Machine.shared_cases hs with ⟨o, p, -, he⟩ | ⟨i, k, c, n, -, hc, hn⟩ | ⟨_, -, heq⟩ | ⟨e, -, he, -⟩
    · exact .inl (.cached ((Config.same_of_enter he).cached _ ▸ hcached))
    · rcases (Config.effect_of_access hn).cached_cases hcached with hcached | ⟨hheld, -, -⟩
      · exact .inl (.cached hcached)
      · exact .inl (.call hc hheld)
    · exact .inl (.cached (heq ▸ hcached))
    · rcases Config.environment_cases he with ⟨now, -, hle, hs'⟩ | ⟨user, -, hs'⟩
      · exact .inl (.cached (Config.cached_tick hle (hs' ▸ hcached)))
      · rw [hs'] at hcached
        exact .inl (.cached hcached)
  | call hcall hheld =>
    rcases Machine.call_cases hs hcall with ⟨o, p, -, -, rfl, he⟩ | ⟨k, d, p, hm, hd, rfl, hmem⟩ | ⟨hcall, -⟩
    · cases (Config.held_of_enter he).1.symm.trans hheld
    · rcases Config.held_of_access hmem hheld with hheld | ⟨e, hcached, rfl⟩ | hlook | hread
      · exact .inl (.call hd hheld)
      · exact .inl (.cached hcached)
      · exact .inr ⟨_, k, d, hm, hd, .inl hlook⟩
      · exact .inr ⟨_, k, d, hm, hd, .inr hread⟩
    · exact .inl (.call hcall hheld)

/-- The epoch of a user stays where it is, or nothing carries the value it moves to. -/
theorem EpochSound.currentEpoch_cases (hok : EpochSound w m) (hs : cfg.machine.step w m = some (w', r)) (u : UserId) :
    w'.shared.currentEpoch u = w.shared.currentEpoch u ∨
      ∀ x, Carries w' x → x.userId = u → x.epoch ≠ w'.shared.currentEpoch u := by
  rcases Machine.shared_cases hs with ⟨o, p, -, he⟩ | ⟨i, k, c, n, rfl, hc, hn⟩ | ⟨_, -, heq⟩ | ⟨e, rfl, he, hcalls⟩
  · exact .inl ((Config.same_of_enter he).currentEpoch u)
  · by_cases hu : c.await.bumps = some u
    · obtain ⟨hepoch, hheld, hreads⟩ := Config.access_of_bumps hn hu
      refine .inr (fun x hx hxu => ?_)
      rw [hepoch]
      refine (hok c hc u hu).ne ?_ rfl rfl rfl hxu
      rcases hx.of_step hs with hx | ⟨j, l, d, hm, hd, hx⟩
      · exact hx
      · cases hm
        obtain rfl : c = d := Option.some.inj (hc.symm.trans hd)
        simp [hheld, hreads] at hx
    · exact .inl ((Config.effect_of_access hn).currentEpoch_eq hu)
  · exact .inl (by rw [heq])
  · rcases Config.environment_cases he with ⟨now, rfl, hle, hs'⟩ | ⟨user, rfl, hs'⟩
    · rcases Config.currentEpoch_tick hle u with heq | ⟨hzero, k, hk, hlive, hdead⟩
      · exact .inl (by rw [hs', heq])
      · have hfree := hok k (Table.find?_eq_some hk).1 hlive hdead
        rw [show k.userId = u from Table.key_of_find? hk] at hfree
        refine .inr (fun x hx hxu => ?_)
        rw [hs', hzero]
        exact hfree.ne hx hcalls (by rw [hs']) (by rw [hs']) hxu
    · exact .inl (by rw [hs']; rfl)

/-- Whatever is left of the sessions of `u` that `D` names carries an old epoch. -/
def Behind (u : UserId) (D : Hash → Option AccountStatus → Prop) (w : World) : Prop :=
  ∀ x, Carries w x → x.userId = u → D x.hash x.status → x.epoch ≠ w.shared.currentEpoch u

theorem Behind.step {u : UserId} {D : Hash → Option AccountStatus → Prop} (hb : Behind u D w) (hok : EpochSound w m)
    (hs : cfg.machine.step w m = some (w', r))
    (hlook : ∀ h, D h (some (w.shared.accountStatus u)) → D h none)
    (hreads : ∀ i k c h st, m = .access i k → w.call i = some c → c.await.reads = some (h, u, st) → ¬ D h st) :
    Behind u D w' := by
  intro x hx hu hD
  rcases hok.currentEpoch_cases hs u with heq | hne
  · rw [heq]
    rcases hx.of_step hs with hx | ⟨i, k, c, hm, hc, ⟨hheld, hstatus⟩ | ⟨-, hread⟩⟩
    · exact hb x hx hu hD
    · rw [hstatus, hu] at hD
      exact hb ⟨x.hash, x.userId, x.epoch, none⟩ (.call hc hheld) hu (hlook _ hD)
    · rw [hu] at hread
      exact absurd hD (hreads i k c _ _ hm hc hread)
  · exact hne x hx hu

/-- Right after the epoch moved, everything is behind. -/
theorem Behind.of_bump {u : UserId} {D : Hash → Option AccountStatus → Prop} {i k : ℕ} {c : Call Request Await}
    (hok : EpochSound w (.access i k)) (hs : cfg.machine.step w (.access i k) = some (w', r)) (hc : w.call i = some c)
    (hu : c.await.bumps = some u) : Behind u D w' := by
  rcases hok.currentEpoch_cases hs u with heq | hne
  · rcases Machine.shared_cases hs with ⟨_, _, hm, -⟩ | ⟨j, l, d, n, hm, hd, hn⟩ | ⟨_, hm, -⟩ | ⟨_, hm, -⟩
    · cases hm
    · cases hm
      obtain rfl : c = d := Option.some.inj (hc.symm.trans hd)
      have hmove := (Config.access_of_bumps hn hu).1
      omega
    · cases hm
    · cases hm
  · exact fun x hx hxu _ => hne x hx hxu

end Civfix.Sessions
