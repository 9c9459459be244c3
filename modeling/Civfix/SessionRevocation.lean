import Civfix.SessionInvariants

/-! # What signing out guarantees

Signing out deletes the projection and then the row, against every interleaving with other
calls. It is not durable as it stands: a resolver writes its projection some awaits after it
read the row or the old projection, and nothing makes it look again. What is proved is that
this is the only gap: the theorem names the condition on the moves of a run under which the
token stays dead, and a run that breaks it shows that the condition is needed. -/
namespace Civfix.Sessions

open KeyedTables InterleavedCalls

variable {cfg : Config} {w w' : World} {m : Move} {r : Option Result}

/-- No call in progress is at the await. -/
def NoneAt (w : World) (p : Await) : Prop := ∀ o ∈ w.calls, ∀ c ∈ o, c.await ≠ p

instance (w : World) (p : Await) : Decidable (NoneAt w p) := inferInstanceAs (Decidable (∀ o ∈ _, ∀ c ∈ o, _))

theorem NoneAt.ne {p : Await} (h : NoneAt w p) {i : ℕ} {c : Call Request Await} (hc : w.call i = some c) :
    c.await ≠ p := h _ (World.mem_calls hc) c rfl

/-- User 1 is on file and signs in with hash 10; twenty days pass, so that the next resolve
slides the expiry. -/
def signedIn : List Move :=
  [.environment (.setUser ⟨1, .citizen, .active, false⟩), .start (.createSession 10 1 [.citizen] true),
    .access 0 0, .access 0 0, .access 0 0, .access 0 0, .access 0 0, .environment (.tick 1728000000)]

/-! ## Signing out -/

/-- A resolver writes a projection only while the row of the session is in the store, and
not between the two deletions of a sign-out of it. -/
def RewriteSound (w : World) : Move → Prop
  | .access i _ => ∀ c ∈ w.call i, ∀ h ∈ c.await.rewrites,
      (w.shared.rows.find? h).isSome ∧ NoneAt w (.revokeRow h)
  | _ => True

instance (w : World) : DecidablePred (RewriteSound w)
  | .access .. => inferInstanceAs (Decidable (∀ c ∈ _, ∀ h ∈ _, _))
  | .start .. | .crash .. | .environment .. => inferInstanceAs (Decidable True)

/-- No sign-in in progress has the hash. -/
def Unminted (w : World) (h : Hash) : Prop := ∀ i c x, w.call i = some c → c.await.mint = some x → x.hash ≠ h

theorem Sound.unminted_of_presented (hw : Sound w) {h : Hash} (hp : h ∈ w.shared.presented) : Unminted w h := by
  rintro i c x hc hx rfl
  obtain ⟨hd, hi⟩ := (hw.recorded.calls i c hc).mint x hx
  exact hi (hw.recorded.shared.presented _ hp (List.mem_map_of_mem hd))

theorem Sound.unminted_of_issued (hw : Sound w) {h : Hash} {u : UserId} (hi : (h, u) ∈ w.shared.issued) :
    Unminted w h := by
  rintro i c x hc hx rfl
  exact ((hw.recorded.calls i c hc).mint x hx).2 (List.mem_map_of_mem hi)

theorem presented_of_step (hs : cfg.machine.step w m = some (w', r)) : w.shared.presented ⊆ w'.shared.presented := by
  rcases Machine.shared_cases hs with ⟨o, p, -, he⟩ | ⟨i, k, c, n, -, -, hn⟩ | ⟨_, -, heq⟩ | ⟨e, -, he, -⟩
  · exact (Config.same_of_enter he).presented
  · exact (Config.effect_of_access hn).presented_eq ▸ List.Subset.refl _
  · exact heq ▸ List.Subset.refl _
  · rcases Config.environment_cases he with ⟨now, -, -, hs'⟩ | ⟨user, -, hs'⟩ <;> rw [hs'] <;> exact List.Subset.refl _

/-- A key that is not in the cache stays out of it unless a resolver writes it. -/
theorem cached_none_of_step {h : Hash} (hw : Unminted w h) (hs : cfg.machine.step w m = some (w', r))
    (hnone : w.shared.cached h = none)
    (hm : ∀ i k c, m = .access i k → w.call i = some c → c.await.rewrites ≠ some h) : w'.shared.cached h = none := by
  rw [Option.eq_none_iff_forall_ne_some] at hnone ⊢
  intro e hc
  rcases Machine.shared_cases hs with ⟨o, p, -, he⟩ | ⟨i, k, c, n, rfl, hcall, hn⟩ | ⟨_, -, heq⟩ | ⟨ev, -, he, -⟩
  · exact hnone e ((Config.same_of_enter he).cached h ▸ hc)
  · rcases (Config.effect_of_access hn).cached_cases hc with hc | ⟨-, -, hwr | ⟨x, hx, hxh⟩⟩
    · exact hnone e hc
    · exact hm i k c rfl hcall hwr
    · exact hw i c x hcall hx hxh
  · exact hnone e (heq ▸ hc)
  · rcases Config.environment_cases he with ⟨now, -, hle, hs'⟩ | ⟨user, -, hs'⟩
    · exact hnone e (Config.cached_tick hle (hs' ▸ hc))
    · rw [hs'] at hc
      exact hnone e hc

/-- A deleted row does not come back. -/
theorem rows_none_of_step {h : Hash} (hw : Unminted w h) (hs : cfg.machine.step w m = some (w', r))
    (hnone : w.shared.rows.find? h = none) : w'.shared.rows.find? h = none := by
  rw [Option.eq_none_iff_forall_ne_some] at hnone ⊢
  intro row hr
  rcases Machine.shared_cases hs with ⟨o, p, -, he⟩ | ⟨i, k, c, n, rfl, hcall, hn⟩ | ⟨_, -, heq⟩ | ⟨ev, -, he, -⟩
  · exact hnone row ((Config.same_of_enter he).rows ▸ hr)
  · rcases (Config.effect_of_access hn).rows_cases hr with ⟨row₀, hr₀, -⟩ | ⟨x, epoch, status, hx, hxh, -⟩
    · exact hnone row₀ hr₀
    · exact hw i c x hcall (by rw [hx]; rfl) hxh
  · exact hnone row (heq ▸ hr)
  · rcases Config.environment_cases he with ⟨now, -, hle, hs'⟩ | ⟨user, -,
      hs'⟩ <;> rw [hs'] at hr <;> exact hnone row hr

/-- A sign-out that has one deletion behind it finds nothing in the cache. -/
structure SigningOut (h : Hash) (w : World) : Prop where
  sound : Sound w
  evicted : ∀ i c, w.call i = some c → c.await = .revokeRow h → w.shared.cached h = none

theorem SigningOut.step {h : Hash} (hw : SigningOut h w) (hok : RewriteSound w m)
    (hs : cfg.machine.step w m = some (w', r)) : SigningOut h w' := by
  refine ⟨hw.sound.step hs, fun i c hc hrow => ?_⟩
  rcases Machine.call_cases hs hc with ⟨o, p, -, -, rfl, he⟩ | ⟨k, d, p, rfl, hd, rfl, hmem⟩ | ⟨hc, -⟩
  · subst hrow
    rcases Config.await_of_enter he with ⟨x, hx | hx⟩ | ⟨hash, now, hx⟩ | ⟨hash, hx⟩ | ⟨hx, -⟩ <;> cases hx
  · subst hrow
    obtain ⟨-, hs'⟩ := Config.revokeRow_of_access hmem
    rw [hs', Option.eq_none_iff_forall_ne_some]
    exact fun e he => (Shared.cached_delCached he).1 rfl
  · have hp : h ∈ w.shared.presented := (hw.sound.recorded.calls i c hc).token h (by rw [hrow]; rfl)
    refine cached_none_of_step (hw.sound.unminted_of_presented hp) hs (hw.evicted i c hc hrow) ?_
    rintro j k d rfl hd hwr
    exact (hok d hd h hwr).2.ne hc hrow

/-- Nothing of the session is left, and the resolvers that started since have seen nothing. -/
structure SignedOut (h : Hash) (n : ℕ) (w : World) : Prop where
  sound : Sound w
  presented : h ∈ w.shared.presented
  row : w.shared.rows.find? h = none
  cached : w.shared.cached h = none
  late : ∀ i c, n ≤ i → w.call i = some c → c.origin = .resolveSession h →
    ∃ now, c.await = .cacheGet h now ∨ c.await = .findRow h now

theorem SignedOut.step {h : Hash} {n : ℕ} (hw : SignedOut h n w) (hok : RewriteSound w m)
    (hs : cfg.machine.step w m = some (w', r)) : SignedOut h n w' := by
  have hmint := hw.sound.unminted_of_presented hw.presented
  refine ⟨hw.sound.step hs, presented_of_step hs hw.presented, rows_none_of_step hmint hs hw.row, ?_, ?_⟩
  · refine cached_none_of_step hmint hs hw.cached ?_
    rintro i k c rfl hc hwr
    simpa [hw.row] using (hok c hc h hwr).1
  · intro i c hi hc horigin
    rcases Machine.call_cases hs hc with ⟨o, p, -, -, rfl, he⟩ | ⟨k, d, p, -, hd, rfl, hmem⟩ | ⟨hc, -⟩
    · cases horigin
      simp only [Config.machine, Config.enter, Option.ite_none_left_eq_some, Option.some.injEq, Prod.mk.injEq] at he
      exact ⟨_, .inl he.2.2.symm⟩
    · obtain ⟨now, hd' | hd'⟩ := hw.late i d hi hd horigin
      · simp only [hd', Config.machine, Config.access, hw.cached, List.mem_singleton, Prod.mk.injEq,
          Next.await.injEq] at hmem
        exact ⟨now, .inr hmem.2⟩
      · simp [hd', Config.machine, Config.access, Shared.findById, hw.row] at hmem
    · exact hw.late i c hi hc horigin

/-- When a sign-out returns, and no resolver writes its projection out of turn, no call that
starts later resolves the token. -/
theorem resolves_none_after_revokeSession {h : Hash} {w₁ w₂ w₃ : World} {j k i l : ℕ} {p q : Await} {a : Result}
    {x : Option ResolveResult}
    (hbefore : Machine.Run cfg.machine RewriteSound (.initial .empty) w)
    (hrevoke : w.call j = some ⟨.revokeSession h, p⟩)
    (hreturn : cfg.machine.step w (.access j k) = some (w₁, some a))
    (hafter : Machine.Run cfg.machine RewriteSound w₁ w₂)
    (hlate : w₁.calls.length ≤ i) (hcall : w₂.call i = some ⟨.resolveSession h, q⟩)
    (hresult : cfg.machine.step w₂ (.access i l) = some (w₃, some (.resolved x))) : x = none := by
  have hsigning : SigningOut h w := hbefore.invariant ⟨sound_initial, fun _ _ hc => (nomatch hc)⟩
    (fun hv hok hs => hv.step hok hs)
  have hsound₁ := hsigning.sound.step hreturn
  obtain ⟨_, _, c, hm, hc, hmem⟩ := Machine.return_cases hreturn
  cases hm
  obtain rfl := Option.some.inj (hrevoke.symm.trans hc)
  rcases hsigning.sound.admitted j _ hrevoke with rfl | rfl
  · simp [Config.machine, Config.access] at hmem
  · have hs₁ : w₁.shared = w.shared.deleteById h := by
      simp only [Config.machine, Config.access, List.mem_singleton, Prod.mk.injEq] at hmem
      exact hmem.1
    have hout : SignedOut h w₁.calls.length w₁ := by
      refine ⟨hsound₁, ?_, ?_, ?_, ?_⟩
      · exact presented_of_step hreturn ((hsigning.sound.recorded.calls j _ hrevoke).token h rfl)
      · simp [hs₁, Shared.deleteById, Table.find?_remove]
      · rw [hs₁]
        exact hsigning.evicted j _ hrevoke rfl
      · intro i c hi hc
        exact absurd (World.lt_of_call hc) (Nat.not_lt.mpr hi)
    have hout₂ : SignedOut h w₁.calls.length w₂ := hafter.invariant hout (fun hv hok hs => hv.step hok hs)
    obtain ⟨_, _, d, hm, hd, hmem⟩ := Machine.return_cases hresult
    cases hm
    obtain rfl := Option.some.inj (hcall.symm.trans hd)
    obtain ⟨now, rfl | rfl⟩ := hout₂.late i _ hlate hcall rfl
    · simp [Config.machine, Config.access, hout₂.cached] at hmem
    · simp only [Config.machine, Config.access, Shared.findById, hout₂.row, Option.bind_none, List.mem_singleton,
        Prod.mk.injEq, Next.done.injEq, Result.resolved.injEq] at hmem
      exact hmem.2

def slideThenSignOut : List Move :=
  List.append signedIn [.start (.resolveSession 10), .access 1 0, .access 1 0, .access 1 0, .access 1 0, .access 1 0,
    .start (.revokeSession 10), .access 2 0]

/-- The token is resolved and slid, then signed out, then presented again. -/
theorem resolves_none_after_revokeSession_sample :
    ∃ (w w₁ w₂ w₃ : World) (p q : Await) (a : Result) (x : Option ResolveResult),
      Machine.Run Config.default.machine RewriteSound (.initial .empty) w ∧
      w.call 2 = some ⟨.revokeSession 10, p⟩ ∧ Config.default.machine.step w (.access 2 0) = some (w₁, some a) ∧
      Machine.Run Config.default.machine RewriteSound w₁ w₂ ∧ w₁.calls.length ≤ 3 ∧
      w₂.call 3 = some ⟨.resolveSession 10, q⟩ ∧
      Config.default.machine.step w₂ (.access 3 0) = some (w₃, some (.resolved x)) ∧ x = none := by
  have hrun : Machine.Allowed Config.default.machine RewriteSound (.initial .empty)
      slideThenSignOut ∧ ∃ w ∈ Config.default.machine.perform (.initial .empty) slideThenSignOut,
      w.call 2 = some ⟨.revokeSession 10, .revokeRow 10⟩ ∧
      ∃ v ∈ Config.default.machine.step w (.access 2 0), v.2 = some .revoked ∧ v.1.calls.length ≤ 3 ∧
      Machine.Allowed Config.default.machine RewriteSound v.1 [.start (.resolveSession 10), .access 3 0] ∧
      ∃ w₂ ∈ Config.default.machine.perform v.1 [.start (.resolveSession 10), .access 3 0],
        (w₂.call 3).map (·.origin) = some (.resolveSession 10) ∧
        ∃ y ∈ Config.default.machine.step w₂ (.access 3 0), y.2 = some (.resolved none) := by
    decide +kernel
  obtain ⟨hok, w, hw, hj, ⟨w₁, a⟩, hs, rfl, hle, hok₂, w₂, hw₂, hi, ⟨w₃, b⟩, hs₃, rfl⟩ := hrun
  obtain ⟨⟨o, q⟩, hq, rfl⟩ := Option.map_eq_some_iff.mp hi
  have hbefore := Machine.run_of_perform hok hw
  have hafter := Machine.run_of_perform hok₂ hw₂
  exact ⟨w, w₁, w₂, w₃, _, q, _, none, hbefore, hj, hs, hafter, hle, hq, hs₃,
    resolves_none_after_revokeSession hbefore hj hs hafter hle hq hs₃⟩

def signOutDuringSlide : List Move :=
  List.append signedIn [.start (.resolveSession 10), .access 1 0, .access 1 0, .access 1 0, .access 1 0,
    .start (.revokeSession 10), .access 2 0]

/-- A resolver that read the projection before the sign-out writes it back after. -/
theorem not_resolves_none_after_revokeSession :
    ¬ ∀ (cfg : Config) (h : Hash) (w w₁ w₂ w₃ : World) (j k i l : ℕ) (p q : Await) (a : Result)
      (x : Option ResolveResult), Machine.Run cfg.machine (fun _ _ => True) (.initial .empty) w →
      w.call j = some ⟨.revokeSession h, p⟩ → cfg.machine.step w (.access j k) = some (w₁, some a) →
      Machine.Run cfg.machine (fun _ _ => True) w₁ w₂ → w₁.calls.length ≤ i →
      w₂.call i = some ⟨.resolveSession h, q⟩ →
      cfg.machine.step w₂ (.access i l) = some (w₃, some (.resolved x)) → x = none := by
  intro hclaim
  have hrun : ∃ w ∈ Config.default.machine.perform (.initial .empty) signOutDuringSlide,
      w.call 2 = some ⟨.revokeSession 10, .revokeRow 10⟩ ∧
      ∃ v ∈ Config.default.machine.step w (.access 2 0), v.2 = some .revoked ∧ v.1.calls.length ≤ 3 ∧
      ∃ w₂ ∈ Config.default.machine.perform v.1 [.access 1 0, .start (.resolveSession 10), .access 3 0],
        (w₂.call 3).map (·.origin) = some (.resolveSession 10) ∧
        ∃ y ∈ Config.default.machine.step w₂ (.access 3 0),
          y.2 = some (.resolved (some ⟨1, [.citizen], .active, .cache, 4320000000⟩)) := by
    decide +kernel
  obtain ⟨w, hw, hj, ⟨w₁, a⟩, hs, rfl, hle, w₂, hw₂, hi, ⟨w₃, b⟩, hs₃, rfl⟩ := hrun
  obtain ⟨⟨o, q⟩, hq, rfl⟩ := Option.map_eq_some_iff.mp hi
  have hnone := hclaim _ 10 w w₁ w₂ w₃ 2 0 3 0 _ q _ _
    (Machine.free_of_perform hw) hj hs (Machine.free_of_perform hw₂) hle hq hs₃
  cases hnone

end Civfix.Sessions
