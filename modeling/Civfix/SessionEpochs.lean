import Civfix.SessionRevocation

/-! # What moving the epoch guarantees

Sign-out everywhere and suspension delete rows, but reach the projections through the epoch
alone. A resolver looks at the epoch after it found the row, and a sign-in may look at the
epoch after it looked at the status; both can put the new epoch on something old. The epoch
is a counter on a key that expires, so it can come back to a value it had; and the key holds
the id as the call spells it, while a projection holds it as the database prints it. The
conditions below name these gaps, and the theorems say that there is no other. -/
namespace Civfix.Sessions

open KeyedTables InterleavedCalls SpelledIds

variable {cfg : Config} {w w' : World} {m : Move} {r : Option Result} {u : UserId} {h : Hash} {n : ℕ}

instance (w : World) : DecidablePred (EpochSound w)
  | .access .. => inferInstanceAs (Decidable (∀ c ∈ _, ∀ u ∈ _, _))
  | .environment (.tick _) => inferInstanceAs (Decidable (∀ k ∈ _, _))
  | .start .. | .crash .. | .environment (.setUser _) => inferInstanceAs (Decidable True)

/-- The row that the call has found and is about to let through the gate. -/
def Await.gated : Await → Option SessionRecord
  | .gateRow _ _ row => some row
  | _ => none

/-- A resolver looks at the epoch only while the row it found is still in the store, and not
between the bump and the deletion of a revocation. -/
def GateSound (w : World) : Move → Prop
  | .access i _ => ∀ c ∈ w.call i, ∀ row ∈ c.await.gated, ∀ h ∈ c.await.token,
      (w.shared.rows.find? h).isSome ∧ NoneAt w (.deleteAll row.userId)
  | _ => True

instance (w : World) : DecidablePred (GateSound w)
  | .access .. => inferInstanceAs (Decidable (∀ c ∈ _, ∀ row ∈ _, ∀ h ∈ _, _))
  | .start .. | .crash .. | .environment .. => inferInstanceAs (Decidable True)

/-- An epoch is read for a row that was found, or for a sign-in; only a sign-in that has its
status first knows the status too. -/
theorem Await.reads_cases {p : Await} {st : Option AccountStatus} (hp : p.reads = some (h, u, st)) :
    (∃ now row, p = .gateRow h now row ∧ row.userId = u ∧ st = some row.accountStatus) ∨
      ∃ x, p.mint = some x ∧ x.hash = h ∧ x.userId = u ∧
        (st = none ∨ ∃ status, p = .mintEpochSecond x status ∧ st = some status) := by
  cases p with
  | gateRow hash now row =>
    simp only [Await.reads, Option.some.injEq, Prod.mk.injEq] at hp
    exact .inl ⟨now, row, by rw [hp.1], hp.2.1, hp.2.2.symm⟩
  | mintEpochFirst x | settleEpoch x epoch status =>
    simp only [Await.reads, Option.some.injEq, Prod.mk.injEq] at hp
    exact .inr ⟨x, rfl, hp.1, hp.2.1, .inl hp.2.2.symm⟩
  | mintEpochSecond x status =>
    simp only [Await.reads, Option.some.injEq, Prod.mk.injEq] at hp
    exact .inr ⟨x, rfl, hp.1, hp.2.1, .inr ⟨status, rfl, hp.2.2.symm⟩⟩
  | _ => cases hp

theorem issued_of_step (hs : cfg.machine.step w m = some (w', r)) : w.shared.issued ⊆ w'.shared.issued := by
  rcases Machine.shared_cases hs with ⟨o, p, -, he⟩ | ⟨i, k, c, n, -, -, hn⟩ | ⟨_, -, heq⟩ | ⟨e, -, he, -⟩
  · rcases Config.enter_cases he with ⟨_, _, -, -, -, hs', -⟩ | ⟨_, -, hs', -⟩ | ⟨hs', -⟩ <;> rw [hs'] <;>
      exact List.Subset.refl _
  · rcases (Config.effect_of_access hn).issued_cases with hi | ⟨x, epoch, status, -, hi⟩ <;> rw [hi]
    · exact List.Subset.refl _
    · exact List.subset_cons_self _ _
  · exact heq ▸ List.Subset.refl _
  · rcases Config.environment_cases he with ⟨now, -, -, hs'⟩ | ⟨user, -, hs'⟩ <;> rw [hs'] <;> exact List.Subset.refl _

/-! ## Signing out everywhere -/

/-- What is left of a session stays behind while its row is gone, or about to go. -/
theorem Behind.step_of_issued (hb : Behind u (fun x _ => x = h) w) (hw : Sound w) (hi : (h, u) ∈ w.shared.issued)
    (hok : EpochSound w m) (hgate : GateSound w m) (hs : cfg.machine.step w m = some (w', r))
    (hgone : w.shared.rows.find? h = none ∨ ∃ i c, w.call i = some c ∧ c.await = .deleteAll u) :
    Behind u (fun x _ => x = h) w' := by
  refine hb.step hok hs (fun _ hx => hx) ?_
  rintro i k c h st rfl hc hreads rfl
  rcases Await.reads_cases hreads with ⟨now, row, hp, rfl, -⟩ | ⟨x, hx, hxh, -⟩
  · obtain ⟨hrow, hnone⟩ := hgate c hc row (by rw [hp]; rfl) h (by rw [hp]; rfl)
    rcases hgone with hgone | ⟨j, d, hd, hdel⟩
    · simp [hgone] at hrow
    · exact hnone.ne hd hdel
  · exact hw.unminted_of_issued hi i c x hc hx hxh

/-- The call that ends the sessions of `u` has the number `n`; `h` is one of them. -/
structure RevokingAll (u : UserId) (h : Hash) (n : ℕ) (w : World) : Prop where
  sound : Sound w
  issued : (h, u) ∈ w.shared.issued
  started : n < w.calls.length
  phase : ∀ c, w.call n = some c → c.await = .bumpEpoch u ∨
    (c.await = .deleteAll u ∧ Behind u (fun x _ => x = h) w) ∨
    ((∃ k hs, c.await = .evictAll k hs) ∧ Behind u (fun x _ => x = h) w ∧ w.shared.rows.find? h = none)

theorem Sound.owner_eq (hw : Sound w) {v : UserId} (hu : (h, u) ∈ w.shared.drawn) (hv : (h, v) ∈ w.shared.drawn) :
    u = v := congrArg Prod.snd (List.inj_on_of_nodup_map hw.recorded.shared.nodup hu hv rfl)

theorem Sound.rows_deleteAll (hw : Sound w) (hd : (h, u) ∈ w.shared.drawn) :
    (w.shared.deleteAllForUser u).rows.find? h = none := by
  simp only [Shared.deleteAllForUser, Table.find?_filter, Option.filter_eq_none_iff]
  intro row hr
  have howner := congrArg IdText.value (hw.owner_eq (hw.recorded.shared.rows h row hr) hd)
  rw [value_printed] at howner
  simp [howner]

theorem deleteAll_of_access (cfg : Config) {s s' : Shared} {x : Next Await Result}
    (hx : (s', x) ∈ cfg.access s (.deleteAll u)) :
    s' = s.deleteAllForUser u ∧ ((∃ k hs, x = .await (.evictAll k hs)) ∨ ∃ k, x = .done (.count k)) := by
  simp only [Config.access, List.mem_singleton, Prod.mk.injEq] at hx
  refine ⟨hx.1, ?_⟩
  rw [hx.2]
  cases s.sessionsOf u with
  | nil => exact .inr ⟨_, rfl⟩
  | cons y ys => exact .inl ⟨_, _, rfl⟩

theorem evictAll_of_access (cfg : Config) {s s' : Shared} {x : Next Await Result} {k : ℕ} {hs : List Hash}
    (hx : (s', x) ∈ cfg.access s (.evictAll k hs)) :
    s'.rows = s.rows ∧ ((∃ l, x = .await (.evictAll k l)) ∨ x = .done (.count k)) := by
  simp only [Config.access, List.mem_flatMap] at hx
  obtain ⟨y, -, hx⟩ := hx
  obtain ⟨hs', rfl⟩ := Config.failOpen_cases hx
  refine ⟨by rcases hs' with rfl | rfl <;> rfl, ?_⟩
  cases hs.erase y with
  | nil => exact .inr rfl
  | cons z zs => exact .inl ⟨_, rfl⟩

theorem RevokingAll.step (hw : RevokingAll u h n w) (hok : EpochSound w m) (hgate : GateSound w m)
    (hs : cfg.machine.step w m = some (w', r)) : RevokingAll u h n w' := by
  refine ⟨hw.sound.step hs, issued_of_step hs hw.issued,
    lt_of_lt_of_le hw.started (Machine.length_le_of_step hs), fun c hc => ?_⟩
  rcases Machine.call_cases hs hc with ⟨o, p, -, hn, -⟩ | ⟨k, d, p, rfl, hd, rfl, hmem⟩ | ⟨hc, -⟩
  · exact absurd hn (Nat.ne_of_lt hw.started)
  · rcases hw.phase d hd with hbump | ⟨hdel, hb⟩ | ⟨⟨k', hs', hev⟩, hb, hrow⟩
    · have hbehind : Behind u (fun x _ => x = h) w' := Behind.of_bump hok hs hd (by rw [hbump]; rfl)
      simp only [hbump, Config.machine, Config.access, List.mem_singleton, Prod.mk.injEq, Next.await.injEq] at hmem
      exact .inr (.inl ⟨hmem.2, hbehind⟩)
    · have hbehind := hb.step_of_issued hw.sound hw.issued hok hgate hs (.inr ⟨n, d, hd, hdel⟩)
      rw [hdel] at hmem
      obtain ⟨hs', ⟨k', l, hp⟩ | ⟨_, hp⟩⟩ := deleteAll_of_access cfg hmem
      · refine .inr (.inr ⟨⟨k', l, Next.await.inj hp⟩, hbehind, ?_⟩)
        rw [hs']
        exact hw.sound.rows_deleteAll (hw.sound.recorded.shared.issued _ hw.issued)
      · cases hp
    · have hbehind := hb.step_of_issued hw.sound hw.issued hok hgate hs (.inl hrow)
      rw [hev] at hmem
      obtain ⟨hrows, ⟨l, hp⟩ | hp⟩ := evictAll_of_access cfg hmem
      · exact .inr (.inr ⟨⟨k', l, Next.await.inj hp⟩, hbehind, by rw [hrows, hrow]⟩)
      · cases hp
  · rcases hw.phase c hc with hbump | ⟨hdel, hb⟩ | ⟨hev, hb, hrow⟩
    · exact .inl hbump
    · exact .inr (.inl ⟨hdel, hb.step_of_issued hw.sound hw.issued hok hgate hs (.inr ⟨n, c, hc, hdel⟩)⟩)
    · exact .inr (.inr ⟨hev, hb.step_of_issued hw.sound hw.issued hok hgate hs (.inl hrow),
        rows_none_of_step (hw.sound.unminted_of_issued hw.issued) hs hrow⟩)

/-- The session is over: its row is gone, what is left of it is behind, and the resolvers
that started since have let nothing through. -/
structure RevokedAll (u : UserId) (h : Hash) (n : ℕ) (w : World) : Prop where
  sound : Sound w
  issued : (h, u) ∈ w.shared.issued
  row : w.shared.rows.find? h = none
  behind : Behind u (fun x _ => x = h) w
  late : ∀ i c, n ≤ i → w.call i = some c → c.origin = .resolveSession h →
    ∃ now, c.await = .cacheGet h now ∨ (∃ e, c.await = .gateCached h now e) ∨ c.await = .evictRejected h now ∨
      c.await = .findRow h now ∨ c.await = .expireRow h ∨ c.await = .expireEvict h

theorem gateCached_of_ne {s s' : Shared} {now : Instant} {e : CacheEntry} {x : Next Await Result}
    (hx : (s', x) ∈ cfg.access s (.gateCached h now e)) (hne : e.value.epoch ≠ s.currentEpoch e.value.userId) :
    x = .done (.resolved none) ∨ x = .await (.evictRejected h now) := by
  simp only [Config.access, Config.userGate, List.mem_singleton, Prod.mk.injEq] at hx
  by_cases ho : cfg.isOfficialAccount e.value.userId <;> simp only [ho, Bool.false_eq_true, ↓reduceIte] at hx
  · exact .inl hx.2
  · cases hm : s.isMarked e.value.userId <;> simp only [hm, Bool.not_false, Bool.not_true, ↓reduceIte, hne] at hx
    · exact .inr hx.2
    · exact .inl hx.2

theorem Behind.gateCached {D : Hash → Option AccountStatus → Prop} (hb : Behind u D w) {i : ℕ} {c : Call Request Await}
    {now : Instant} {e : CacheEntry} (hc : w.call i = some c) (hp : c.await = .gateCached h now e)
    (hu : e.value.userId = u) (hD : D h (some e.value.accountStatus)) {s' : Shared} {x : Next Await Result}
    (hx : (s', x) ∈ cfg.access w.shared (.gateCached h now e)) :
    x = .done (.resolved none) ∨ x = .await (.evictRejected h now) := by
  refine gateCached_of_ne hx ?_
  rw [hu]
  exact hb ⟨h, e.value.userId, e.value.epoch, some e.value.accountStatus⟩ (.call hc (by rw [hp]; rfl)) hu hD

theorem RevokedAll.step (hw : RevokedAll u h n w) (hok : EpochSound w m) (hgate : GateSound w m)
    (hs : cfg.machine.step w m = some (w', r)) : RevokedAll u h n w' := by
  have hmint := hw.sound.unminted_of_issued hw.issued
  refine ⟨hw.sound.step hs, issued_of_step hs hw.issued, rows_none_of_step hmint hs hw.row,
    hw.behind.step_of_issued hw.sound hw.issued hok hgate hs (.inl hw.row), ?_⟩
  intro i c hi hc horigin
  rcases Machine.call_cases hs hc with ⟨o, p, -, -, rfl, he⟩ | ⟨k, d, p, rfl, hd, rfl, hmem⟩ | ⟨hc, -⟩
  · cases horigin
    simp only [Config.machine, Config.enter, Option.ite_none_left_eq_some, Option.some.injEq, Prod.mk.injEq] at he
    exact ⟨_, .inl he.2.2.symm⟩
  · obtain ⟨now, hp | ⟨e, hp⟩ | hp | hp | hp | hp⟩ := hw.late i d hi hd horigin
    · rw [hp] at hmem
      have hgoes : Config.Goes cfg w.shared (.cacheGet h now) _ := Config.goes_of_access hmem
      cases hgoes with
      | uncached => exact ⟨now, .inr (.inr (.inr (.inl rfl)))⟩
      | cached _ hc => exact ⟨now, .inr (.inl ⟨_, rfl⟩)⟩
      | stale => exact ⟨now, .inr (.inr (.inl rfl))⟩
      | cachedTooLong => exact ⟨now, .inr (.inr (.inr (.inr (.inl rfl))))⟩
    · have howner := (hw.sound.recorded.calls i d hd).held ⟨h, e.value.userId, e.value.epoch, _⟩ (by rw [hp]; rfl)
      have hu := hw.sound.owner_eq howner (hw.sound.recorded.shared.issued _ hw.issued)
      rw [hp] at hmem
      rcases hw.behind.gateCached hd hp hu rfl hmem with hx | hx
      · cases hx
      · exact ⟨now, .inr (.inr (.inl (Next.await.inj hx)))⟩
    · rw [hp] at hmem
      obtain ⟨-, hx⟩ := Config.failOpen_cases hmem
      exact ⟨now, .inr (.inr (.inr (.inl (Next.await.inj hx))))⟩
    · simp [hp, Config.machine, Config.access, Shared.findById, hw.row] at hmem
    · simp only [hp, Config.machine, Config.access, List.mem_singleton, Prod.mk.injEq, Next.await.injEq] at hmem
      exact ⟨now, .inr (.inr (.inr (.inr (.inr hmem.2))))⟩
    · rw [hp] at hmem
      cases (Config.failOpen_cases hmem).2
  · exact hw.late i c hi hc horigin

/-- A resolver that started after the end of the session has nothing to return. -/
theorem RevokedAll.resolves_none (hw : RevokedAll u h n w) {i l : ℕ} {q : Await} {x : Option ResolveResult}
    (hi : n ≤ i) (hc : w.call i = some ⟨.resolveSession h, q⟩)
    (hs : cfg.machine.step w (.access i l) = some (w', some (.resolved x))) : x = none := by
  obtain ⟨_, _, d, hm, hd, hmem⟩ := Machine.return_cases hs
  cases hm
  obtain rfl := Option.some.inj (hc.symm.trans hd)
  obtain ⟨now, hp | ⟨e, hp⟩ | hp | hp | hp | hp⟩ := hw.late i _ hi hc rfl
  · rw [hp] at hmem
    obtain ⟨-, hx⟩ := Prod.mk.inj (List.mem_singleton.mp hmem)
    split at hx
    · cases hx
    · split at hx
      · split at hx <;> cases hx
      · cases hx
  · have howner := (hw.sound.recorded.calls i _ hd).held ⟨h, e.value.userId, e.value.epoch, _⟩ (by rw [hp]; rfl)
    have hu := hw.sound.owner_eq howner (hw.sound.recorded.shared.issued _ hw.issued)
    have hgate := hw.behind.gateCached hd hp hu rfl (hp ▸ hmem)
    simpa using hgate
  · rw [hp] at hmem
    cases (Config.failOpen_cases hmem).2
  · simp only at hp
    simp only [hp, Config.machine, Config.access, Shared.findById, hw.row, Option.bind_none, List.mem_singleton,
      Prod.mk.injEq, Next.done.injEq, Result.resolved.injEq] at hmem
    exact hmem.2
  · simp only at hp
    simp [hp, Config.machine, Config.access] at hmem
  · rw [hp] at hmem
    exact Result.resolved.inj (Next.done.inj (Config.failOpen_cases hmem).2)

/-- When the call returns, the session is over. -/
theorem RevokingAll.returned {k : ℕ} {a : Result} (hw : RevokingAll u h n w)
    (hok : EpochSound w (.access n k)) (hgate : GateSound w (.access n k))
    (hs : cfg.machine.step w (.access n k) = some (w', some a)) : RevokedAll u h w'.calls.length w' := by
  have hover : w'.shared.rows.find? h = none ∧ Behind u (fun x _ => x = h) w' := by
    obtain ⟨_, _, c, hm, hc, hmem⟩ := Machine.return_cases hs
    cases hm
    rcases hw.phase _ hc with hp | ⟨hp, hb⟩ | ⟨-, hb, hrow⟩
    · simp [hp, Config.machine, Config.access] at hmem
    · refine ⟨?_, hb.step_of_issued hw.sound hw.issued hok hgate hs (.inr ⟨n, c, hc, hp⟩)⟩
      rw [hp] at hmem
      rw [(deleteAll_of_access cfg hmem).1]
      exact hw.sound.rows_deleteAll (hw.sound.recorded.shared.issued _ hw.issued)
    · exact ⟨rows_none_of_step (hw.sound.unminted_of_issued hw.issued) hs hrow,
        hb.step_of_issued hw.sound hw.issued hok hgate hs (.inl hrow)⟩
  exact ⟨hw.sound.step hs, issued_of_step hs hw.issued, hover.1, hover.2,
    fun i c hi hc => absurd (World.lt_of_call hc) (Nat.not_lt.mpr hi)⟩

/-- The moves under which revoking by the epoch works. -/
def RevocationSound (w : World) (m : Move) : Prop := EpochSound w m ∧ GateSound w m

instance (w : World) : DecidablePred (RevocationSound w) := fun _ => inferInstanceAs (Decidable (_ ∧ _))

/-- When signing out everywhere under the id as it is printed returns, no call that starts later
resolves a session of the user that was handed out before it was called. -/
theorem resolves_none_after_revokeAllForUser {v v₁ w₁ w₂ w₃ : World} {k i l : ℕ} {q : Await} {a : Result}
    {x : Option ResolveResult} {owner : UserId}
    (hbefore : Machine.Run cfg.machine (fun _ _ => True) (.initial .empty) v) (hcreated : (h, owner) ∈ v.shared.issued)
    (howner : owner.value = u.value) (hspelling : u.IsPrinted)
    (hstart : cfg.machine.step v (.start (.revokeAllForUser u)) = some (v₁, r))
    (hduring : Machine.Run cfg.machine RevocationSound v₁ w)
    (hok : RevocationSound w (.access v.calls.length k))
    (hreturn : cfg.machine.step w (.access v.calls.length k) = some (w₁, some a))
    (hafter : Machine.Run cfg.machine RevocationSound w₁ w₂)
    (hlate : w₁.calls.length ≤ i) (hcall : w₂.call i = some ⟨.resolveSession h, q⟩)
    (hresult : cfg.machine.step w₂ (.access i l) = some (w₃, some (.resolved x))) : x = none := by
  have hsound := sound_of_run hbefore sound_initial
  obtain rfl : owner = u :=
    (hsound.recorded.shared.spelling _ (hsound.recorded.shared.issued _ hcreated)).eq_of_value hspelling howner
  have hrevoking₁ : RevokingAll owner h v.calls.length v₁ := by
    refine ⟨hsound.step hstart, issued_of_step hstart hcreated, ?_, ?_⟩
    · simp only [Machine.step, Config.machine, Config.enter, Option.map_some, Option.some.injEq,
        Prod.mk.injEq] at hstart
      simp [← hstart.1, World.push]
    · intro c hc
      rcases Machine.call_cases hstart hc with ⟨o, p, ho, -, rfl, he⟩ | ⟨_, _, _, hm, -⟩ | ⟨hc, -⟩
      · cases ho
        simp only [Config.machine, Config.enter, Option.some.injEq, Prod.mk.injEq] at he
        exact .inl he.2.symm
      · cases hm
      · exact absurd (World.lt_of_call hc) (lt_irrefl _)
  have hrevoking : RevokingAll owner h v.calls.length w :=
    hduring.invariant hrevoking₁ (fun hv hok hs => hv.step hok.1 hok.2 hs)
  have hrevoked : RevokedAll owner h w₁.calls.length w₁ := hrevoking.returned hok.1 hok.2 hreturn
  have hrevoked₂ : RevokedAll owner h w₁.calls.length w₂ :=
    hafter.invariant hrevoked (fun hv hok hs => hv.step hok.1 hok.2 hs)
  exact hrevoked₂.resolves_none hlate hcall hresult

set_option synthInstance.maxSize 512 in
/-- The projection outlives the sign-out because its eviction fails; its epoch does not match. -/
theorem resolves_none_after_revokeAllForUser_sample :
    ∃ (v v₁ w w₁ w₂ w₃ : World) (q : Await) (x : Option ResolveResult),
      Machine.Run Config.default.machine (fun _ _ => True) (.initial .empty) v ∧ (10, 1) ∈ v.shared.issued ∧
      Config.default.machine.step v (.start (.revokeAllForUser 1)) = some (v₁, none) ∧
      Machine.Run Config.default.machine RevocationSound v₁ w ∧ RevocationSound w (.access v.calls.length 1) ∧
      Config.default.machine.step w (.access v.calls.length 1) = some (w₁, some (.count 1)) ∧
      Machine.Run Config.default.machine RevocationSound w₁ w₂ ∧ w₁.calls.length ≤ 2 ∧
      w₂.call 2 = some ⟨.resolveSession 10, q⟩ ∧
      Config.default.machine.step w₂ (.access 2 0) = some (w₃, some (.resolved x)) ∧ x = none := by
  have hrun : ∃ v ∈ Config.default.machine.perform (.initial .empty) signedIn, (10, 1) ∈ v.shared.issued ∧
      ∃ v₁ ∈ Config.default.machine.step v (.start (.revokeAllForUser 1)), v₁.2 = none ∧
      Machine.Allowed Config.default.machine RevocationSound v₁.1 [.access 1 0, .access 1 0] ∧
      ∃ w ∈ Config.default.machine.perform v₁.1 [.access 1 0, .access 1 0],
      RevocationSound w (.access v.calls.length 1) ∧
      ∃ w₁ ∈ Config.default.machine.step w (.access v.calls.length 1), w₁.2 = some (.count 1) ∧
      w₁.1.calls.length ≤ 2 ∧ Machine.Allowed Config.default.machine RevocationSound w₁.1
        [.start (.resolveSession 10), .access 2 0, .access 2 0, .access 2 0] ∧
      ∃ w₂ ∈ Config.default.machine.perform w₁.1 [.start (.resolveSession 10), .access 2 0, .access 2 0, .access 2 0],
        (w₂.call 2).map (·.origin) = some (.resolveSession 10) ∧
        ∃ y ∈ Config.default.machine.step w₂ (.access 2 0), y.2 = some (.resolved none) := by
    decide +kernel
  obtain ⟨v, hv, hcreated, ⟨v₁, _⟩, hstart, rfl, hokd, w, hw, hokr, ⟨w₁, _⟩, hreturn, rfl, hle, hoka, w₂, hw₂, hi,
    ⟨w₃, _⟩, hs₃, rfl⟩ := hrun
  obtain ⟨⟨o, q⟩, hq, rfl⟩ := Option.map_eq_some_iff.mp hi
  have hbefore := Machine.free_of_perform hv
  have hduring := Machine.run_of_perform hokd hw
  have hafter := Machine.run_of_perform hoka hw₂
  exact ⟨v, v₁, w, w₁, w₂, w₃, q, none, hbefore, hcreated, hstart, hduring, hokr, hreturn, hafter, hle, hq, hs₃,
    resolves_none_after_revokeAllForUser hbefore hcreated rfl rfl hstart hduring hokr hreturn hafter hle hq hs₃⟩

/-- A change of status makes the resolver (call 2) miss the cache and find the row. -/
def resolvingFromStore : List Move :=
  List.append signedIn [.start (.applyAccountStatus 1 .active), .access 1 0, .access 1 0, .start (.resolveSession 10),
    .access 2 0, .access 2 0, .access 2 0, .access 2 0]

/-- A resolver that found the row before it was deleted reads the epoch after it was bumped,
and brings the session back. -/
theorem not_resolves_none_after_revokeAllForUser :
    ¬ ∀ (cfg : Config) (u : UserId) (h : Hash) (v v₁ w w₁ w₂ w₃ : World) (r : Option Result) (k i l : ℕ) (q : Await)
      (a : Result) (x : Option ResolveResult), Machine.Run cfg.machine (fun _ _ => True) (.initial .empty) v →
      (h, u) ∈ v.shared.issued → cfg.machine.step v (.start (.revokeAllForUser u)) = some (v₁, r) →
      Machine.Run cfg.machine (fun _ _ => True) v₁ w →
      cfg.machine.step w (.access v.calls.length k) = some (w₁, some a) →
      Machine.Run cfg.machine (fun _ _ => True) w₁ w₂ → w₁.calls.length ≤ i →
      w₂.call i = some ⟨.resolveSession h, q⟩ →
      cfg.machine.step w₂ (.access i l) = some (w₃, some (.resolved x)) → x = none := by
  intro hclaim
  have hrun : ∃ v ∈ Config.default.machine.perform (.initial .empty) resolvingFromStore, (10, 1) ∈ v.shared.issued ∧
      ∃ v₁ ∈ Config.default.machine.step v (.start (.revokeAllForUser 1)),
      ∃ w ∈ Config.default.machine.perform v₁.1 [.access 3 0, .access 3 0],
      ∃ w₁ ∈ Config.default.machine.step w (.access v.calls.length 0), w₁.2 = some (.count 1) ∧
      w₁.1.calls.length ≤ 4 ∧
      ∃ w₂ ∈ Config.default.machine.perform w₁.1 [.access 2 0, .access 2 0, .start (.resolveSession 10),
        .access 4 0, .access 4 0, .access 4 0, .access 4 0],
        (w₂.call 4).map (·.origin) = some (.resolveSession 10) ∧
        ∃ y ∈ Config.default.machine.step w₂ (.access 4 0),
          y.2 = some (.resolved (some ⟨1, [.citizen], .active, .cache, 2592000000⟩)) := by
    decide +kernel
  obtain ⟨v, hv, hcreated, ⟨v₁, _⟩, hstart, w, hw, ⟨w₁, _⟩, hreturn, rfl, hle, w₂, hw₂, hi, ⟨w₃, _⟩, hs₃, rfl⟩ := hrun
  obtain ⟨⟨o, q⟩, hq, rfl⟩ := Option.map_eq_some_iff.mp hi
  have hnone := hclaim _ 1 10 v v₁ w w₁ w₂ w₃ _ 0 4 0 q _ _ (Machine.free_of_perform hv) hcreated hstart
    (Machine.free_of_perform hw) hreturn (Machine.free_of_perform hw₂)
    hle hq hs₃
  cases hnone

/-! ## Projections and bumps -/

/-- The projections that may be accepted: alive in the cache, or in the hands of a resolver. -/
inductive Pending (w : World) : CacheEntry → Prop where
  | cached {x : Hash} {e : CacheEntry} (hc : w.shared.cached x = some e) : Pending w e
  | read {i : ℕ} {c : Call Request Await} {e : CacheEntry} (hc : w.call i = some c) (he : c.await.entry = some e) :
      Pending w e

/-- No pending projection of the user from before the bump numbered `b` carries the value. -/
def Unmatched (w : World) (now : Instant) (u : UserId) (n b : ℕ) : Prop :=
  (∀ e ∈ w.shared.cache.rows, now < e.expiresAt → e.value.userId = u → e.bumpsBefore < b → e.value.epoch ≠ n) ∧
    ∀ o ∈ w.calls, ∀ c ∈ o, ∀ e ∈ c.await.entry, e.value.userId = u → e.bumpsBefore < b → e.value.epoch ≠ n

instance (w : World) (now : Instant) (u : UserId) (n b : ℕ) : Decidable (Unmatched w now u n b) :=
  inferInstanceAs (Decidable (_ ∧ _))

/-- The epoch never returns to a value that an older projection still carries. -/
def ProjectionSound (w : World) : Move → Prop
  | .access i _ => ∀ c ∈ w.call i, ∀ u ∈ c.await.bumps,
      Unmatched w w.shared.now u (w.shared.currentEpoch u + 1) (w.shared.bumps u + 1)
  | .environment (.tick now) => ∀ k ∈ w.shared.epochs.rows, w.shared.now < k.expiresAt → k.expiresAt ≤ now →
      Unmatched w now k.userId 0 (w.shared.bumps k.userId)
  | _ => True

instance (w : World) : DecidablePred (ProjectionSound w)
  | .access .. => inferInstanceAs (Decidable (∀ c ∈ _, ∀ u ∈ _, _))
  | .environment (.tick _) => inferInstanceAs (Decidable (∀ k ∈ _, _))
  | .start .. | .crash .. | .environment (.setUser _) => inferInstanceAs (Decidable True)

theorem Unmatched.ne {now : Instant} {b : ℕ} (hu : Unmatched w now u n b) {e : CacheEntry} (he : Pending w' e)
    (hcalls : w'.calls = w.calls) (hcache : w'.shared.cache = w.shared.cache) (hnow : w'.shared.now = now)
    (heu : e.value.userId = u) (hb : e.bumpsBefore < b) : e.value.epoch ≠ n := by
  cases he with
  | cached hc =>
    obtain ⟨hfind, hlive⟩ := Shared.cached_eq_some.mp hc
    rw [hcache] at hfind
    exact hu.1 e (Table.find?_eq_some hfind).1 (hnow ▸ hlive) heu hb
  | read hc he => exact hu.2 _ (hcalls ▸ World.mem_calls hc) _ rfl e he heu hb

/-- What is pending after a move was pending before, or was just written. -/
theorem Pending.of_step {e : CacheEntry} (he : Pending w' e) (hs : cfg.machine.step w m = some (w', r)) :
    Pending w e ∨ e.bumpsBefore = w'.shared.bumps e.value.userId := by
  cases he with
  | cached hcached =>
    rcases Machine.shared_cases hs with ⟨o, p, -, he⟩ | ⟨i, k, c, n, -, hc, hn⟩ | ⟨_, -, heq⟩ | ⟨ev, -, he, -⟩
    · exact .inl (.cached ((Config.same_of_enter he).cached _ ▸ hcached))
    · rcases (Config.effect_of_access hn).cached_cases hcached with hcached | ⟨-, hb, -⟩
      · exact .inl (.cached hcached)
      · exact .inr hb
    · exact .inl (.cached (heq ▸ hcached))
    · rcases Config.environment_cases he with ⟨now, -, hle, hs'⟩ | ⟨user, -, hs'⟩
      · exact .inl (.cached (Config.cached_tick hle (hs' ▸ hcached)))
      · rw [hs'] at hcached
        exact .inl (.cached hcached)
  | read hcall hentry =>
    rcases Machine.call_cases hs hcall with ⟨o, p, -, -, rfl, he⟩ | ⟨k, d, p, -, hd, rfl, hmem⟩ | ⟨hcall, -⟩
    · have hnone := (Config.held_of_enter he).1
      cases p <;> simp_all [Await.held, Await.entry]
    · exact .inl (.cached (Config.entry_of_access hmem hentry))
    · exact .inl (.read hcall hentry)

/-- A projection from before a bump does not carry the current epoch. -/
def Fenced (w : World) : Prop :=
  ∀ e, Pending w e → e.bumpsBefore < w.shared.bumps e.value.userId →
    e.value.epoch ≠ w.shared.currentEpoch e.value.userId

theorem Fenced.step (hw : Fenced w) (hok : ProjectionSound w m) (hs : cfg.machine.step w m = some (w', r)) :
    Fenced w' := by
  intro e he hb
  obtain hpend : Pending w e := by
    rcases he.of_step hs with he | heq
    · exact he
    · exact absurd heq (Nat.ne_of_lt hb)
  rcases Machine.shared_cases hs with ⟨o, p, -, hen⟩ | ⟨i, k, c, x, rfl, hc, hx⟩ | ⟨_, -, heq⟩ | ⟨ev, rfl, hen, hcalls⟩
  · rw [(Config.same_of_enter hen).bumps] at hb
    rw [(Config.same_of_enter hen).currentEpoch]
    exact hw e hpend hb
  · have heffect := Config.effect_of_access hx
    by_cases hu : c.await.bumps = some e.value.userId
    · rw [(Config.access_of_bumps hx hu).1]
      refine (hok c hc _ hu).ne hpend rfl rfl rfl rfl ?_
      rwa [← Config.bumps_of_access hx hu]
    · rw [heffect.bumps_eq hu] at hb
      rw [heffect.currentEpoch_eq hu]
      exact hw e hpend hb
  · rw [heq] at hb ⊢
    exact hw e hpend hb
  · rcases Config.environment_cases hen with ⟨now, rfl, hle, hs'⟩ | ⟨user, rfl, hs'⟩
    · rcases Config.currentEpoch_tick hle e.value.userId with heq | ⟨hzero, k, hk, hlive, hdead⟩
      · rw [hs'] at hb ⊢
        rw [heq]
        exact hw e hpend hb
      · have hfree := hok k (Table.find?_eq_some hk).1 hlive hdead
        rw [show k.userId = e.value.userId from Table.key_of_find? hk] at hfree
        rw [hs'] at hb ⊢
        rw [hzero]
        exact hfree.ne he hcalls (by rw [hs']) (by rw [hs']) rfl hb
    · rw [hs'] at hb ⊢
      exact hw e hpend hb

/-- A resolver that compares a projection from before a bump rejects it: it returns nothing,
or evicts the projection and goes on to the store. -/
theorem rejects_across_bump {i k : ℕ} {o : Request} {now : Instant} {e : CacheEntry}
    (hrun : Machine.Run cfg.machine ProjectionSound (.initial .empty) w)
    (hcall : w.call i = some ⟨o, .gateCached h now e⟩) (hold : e.bumpsBefore < w.shared.bumps e.value.userId)
    (hstep : cfg.machine.step w (.access i k) = some (w', r)) :
    r = some (.resolved none) ∨ (r = none ∧ w'.call i = some ⟨o, .evictRejected h now⟩) := by
  have hfenced : Fenced w := hrun.invariant
    (by rintro e (⟨hc⟩ | ⟨hc, -⟩) <;> exact nomatch hc) (fun hv hok hs => hv.step hok hs)
  have hne := hfenced e (.read hcall rfl) hold
  rcases Machine.step_cases hstep with ⟨_, _, _, hm, -⟩ | ⟨_, _, c, s', p, hm, hc, hx, rfl, rfl⟩ |
    ⟨_, _, c, s', a, hm, hc, hx, rfl, rfl⟩ | ⟨_, hm, -⟩ | ⟨_, _, hm, -⟩
  · cases hm
  · cases hm
    obtain rfl := Option.some.inj (hcall.symm.trans hc)
    rcases gateCached_of_ne hx hne with hp | hp
    · cases hp
    · cases hp
      exact .inr ⟨rfl, World.call_put_self s' hcall _⟩
  · cases hm
    obtain rfl := Option.some.inj (hcall.symm.trans hc)
    rcases gateCached_of_ne hx hne with ha | ha
    · cases ha
      exact .inl rfl
    · cases ha
  · cases hm
  · cases hm

def signOutUnevicted : List Move :=
  List.append signedIn [.start (.revokeAllForUser 1), .access 1 0, .access 1 0, .access 1 1,
    .start (.resolveSession 10), .access 2 0]

/-- The eviction of a sign-out everywhere fails, and the projection it leaves is rejected. -/
theorem rejects_across_bump_sample :
    ∃ (w w' : World) (r : Option Result) (o : Request) (now : Instant) (e : CacheEntry),
      Machine.Run Config.default.machine ProjectionSound (.initial .empty) w ∧
      w.call 2 = some ⟨o, .gateCached 10 now e⟩ ∧ e.bumpsBefore < w.shared.bumps e.value.userId ∧
      Config.default.machine.step w (.access 2 0) = some (w', r) ∧
      (r = some (.resolved none) ∨ (r = none ∧ w'.call 2 = some ⟨o, .evictRejected 10 now⟩)) := by
  have hrun : Machine.Allowed Config.default.machine ProjectionSound (.initial .empty) signOutUnevicted ∧
      ∃ w ∈ Config.default.machine.perform (.initial .empty) signOutUnevicted,
      ∃ c ∈ w.call 2, ∃ e ∈ c.await.entry, c.await = .gateCached 10 1728000000 e ∧
      e.bumpsBefore < w.shared.bumps e.value.userId ∧
      (Config.default.machine.step w (.access 2 0)).isSome := by
    decide +kernel
  obtain ⟨hok, w, hw, ⟨o, p⟩, hc, e, -, rfl, hold, hsome⟩ := hrun
  obtain ⟨⟨w', r⟩, hs⟩ := Option.isSome_iff_exists.mp hsome
  have hreach := Machine.run_of_perform hok hw
  exact ⟨w, w', r, o, _, e, hreach, hc, hold, hs, rejects_across_bump hreach hc hold hs⟩

/-- The key of the epoch expires while a projection that is two bumps old is still alive, and
the next bump brings back the epoch it was written under. -/
theorem not_rejects_across_bump :
    ¬ ∀ (cfg : Config) (h : Hash) (w w' : World) (r : Option Result) (i k : ℕ) (o : Request) (now : Instant)
      (e : CacheEntry), Machine.Run cfg.machine (fun _ _ => True) (.initial .empty) w →
      w.call i = some ⟨o, .gateCached h now e⟩ → e.bumpsBefore < w.shared.bumps e.value.userId →
      cfg.machine.step w (.access i k) = some (w', r) →
      r = some (.resolved none) ∨ (r = none ∧ w'.call i = some ⟨o, .evictRejected h now⟩) := by
  intro hclaim
  have hrun : ∃ w ∈ Config.default.machine.perform (.initial .empty)
        [.environment (.setUser ⟨1, .citizen, .active, false⟩), .start (.applyAccountStatus 1 .active), .access 0 0,
          .access 0 0, .environment (.tick 120000), .start (.createSession 10 1 [.citizen] true), .access 1 0,
          .access 1 0, .access 1 0, .access 1 0, .access 1 0, .start (.revokeAllForUser 1), .access 2 0, .access 2 0,
          .access 2 1, .environment (.tick 2592060000), .start (.applyAccountStatus 1 .active), .access 3 0,
          .access 3 0, .start (.resolveSession 10), .access 4 0],
      ∃ c ∈ w.call 4, ∃ e ∈ c.await.entry, c.await = .gateCached 10 2592060000 e ∧
      e.bumpsBefore < w.shared.bumps e.value.userId ∧
      ∃ y ∈ Config.default.machine.step w (.access 4 0), y.2 = none ∧
        ∀ d ∈ y.1.call 4, d.await ≠ .evictRejected 10 2592060000 := by
    decide +kernel
  obtain ⟨w, hw, ⟨o, p⟩, hc, e, -, rfl, hold, ⟨w', _⟩, hs, rfl, hne⟩ := hrun
  rcases hclaim _ 10 w w' none 4 0 o _ e (Machine.free_of_perform hw) hc hold hs with hr | ⟨-, hcall⟩
  · cases hr
  · exact hne _ hcall rfl

end Civfix.Sessions
