import Civfix.SessionEpochs

/-! # Suspension against sign-in

A suspension writes the status, then moves the epoch, then deletes the rows. A sign-in reads
the status and the epoch, inserts its row and looks at the epoch again. The two reads of the
sign-in are answered in either order, and the order in which the status comes first is not
safe: an epoch that moved in between goes unnoticed. -/
namespace Civfix.Sessions

open KeyedTables InterleavedCalls SpelledIds

variable {cfg : Config} {w w' : World} {m : Move} {r : Option Result} {u : UserId} {h : Hash} {n : ℕ}

/-- The user of a sign-in that found the account in good standing and reads the epoch next. -/
def Await.cleared : Await → Option UserId
  | .mintEpochSecond x status => if isMintRefused status then none else some x.userId
  | _ => none

/-- A sign-in that read the status first reads the epoch while the account may still sign in. -/
def MintSound (w : World) : Move → Prop
  | .access i _ => ∀ c ∈ w.call i, ∀ u ∈ c.await.cleared, isMintRefused (w.shared.accountStatus u) = false
  | _ => True

instance (w : World) : DecidablePred (MintSound w)
  | .access .. => inferInstanceAs (Decidable (∀ c ∈ _, ∀ u ∈ _, _))
  | .start .. | .crash .. | .environment .. => inferInstanceAs (Decidable True)

/-- The account is not reactivated. -/
def StaysRefused (u : UserId) : Move → Prop
  | .environment (.setUser user) => user.id = u.value → isMintRefused user.accountStatus
  | _ => True

instance (u : UserId) : DecidablePred (StaysRefused u)
  | .environment (.setUser _) => inferInstanceAs (Decidable (_ → _))
  | .start .. | .crash .. | .access .. | .environment (.tick _) => inferInstanceAs (Decidable True)

/-- The moves under which a suspension of `u` works. -/
structure SuspensionSound (u : UserId) (w : World) (m : Move) : Prop where
  epoch : EpochSound w m
  gate : GateSound w m
  mint : MintSound w m
  refused : StaysRefused u m

instance (u : UserId) (w : World) : DecidablePred (SuspensionSound u w) := fun m =>
  decidable_of_iff ((EpochSound w m ∧ GateSound w m) ∧ MintSound w m ∧ StaysRefused u m)
    ⟨fun h => ⟨h.1.1, h.1.2, h.2.1, h.2.2⟩, fun h => ⟨⟨h.epoch, h.gate⟩, h.mint, h.refused⟩⟩

theorem refused_of_step (hok : StaysRefused u m) (hs : cfg.machine.step w m = some (w', r))
    (hu : isMintRefused (w.shared.accountStatus u)) : isMintRefused (w'.shared.accountStatus u) := by
  have husers : w'.shared.users = w.shared.users ∨ ∃ user, m = .environment (.setUser user) ∧
      w'.shared.users = w.shared.users.put user := by
    rcases Machine.shared_cases hs with ⟨o, p, -, he⟩ | ⟨i, k, c, n, -, -, hn⟩ | ⟨_, -, heq⟩ | ⟨e, hm, he, -⟩
    · exact .inl (Config.same_of_enter he).users
    · exact .inl (Config.effect_of_access hn).users_eq
    · exact .inl (by rw [heq])
    · rcases Config.environment_cases he with ⟨now, -, -, hs'⟩ | ⟨user, rfl, hs'⟩
      · exact .inl (by rw [hs'])
      · exact .inr ⟨user, hm, by rw [hs']⟩
  unfold Shared.accountStatus at hu ⊢
  rcases husers with heq | ⟨user, rfl, heq⟩
  · rwa [heq]
  · rw [heq, Table.find?_put]
    split
    · next hid => exact hok hid.symm
    · exact hu

/-- A projection of the session in good standing, written or about to be. -/
def Standing (h : Hash) (x : Hash) (st : Option AccountStatus) : Prop :=
  x = h ∧ ∃ status, st = some status ∧ isMintRefused status = false

/-- A resolver that still has the row in good standing has a row that is gone. -/
def Ungated (u : UserId) (h : Hash) (w : World) : Prop :=
  ∀ i c now row, w.call i = some c → c.await = .gateRow h now row → row.userId = u →
    isMintRefused row.accountStatus = false → w.shared.rows.find? h = none

theorem Ungated.step (hw : Ungated u h w) (hsound : Sound w) (hu : isMintRefused (w.shared.accountStatus u))
    (hs : cfg.machine.step w m = some (w', r)) : Ungated u h w' := by
  intro i c now row hc hp hrow hst
  have hreads : c.await.reads = some (h, u, some row.accountStatus) := by rw [hp, ← hrow]; rfl
  rcases Machine.call_cases hs hc with ⟨o, p, -, -, rfl, he⟩ | ⟨k, d, p, rfl, hd, rfl, hmem⟩ | ⟨hc, -⟩
  · obtain ⟨x, hx, -⟩ := Config.reads_of_enter he hreads
    simp only at hp
    rw [hp] at hx
    cases hx
  · simp only at hp
    subst hp
    rcases Config.reads_of_access hmem hreads with ⟨x, hx, -⟩ | ⟨now', row', -, heq, hfind, -⟩
    · cases hx
    · cases heq
      obtain ⟨-, -, -, hstatus⟩ := Shared.findById_eq_some hfind
      rw [hstatus, hrow, hu] at hst
      cases hst
  · have htoken := (hsound.recorded.calls i c hc).token h (by rw [hp]; rfl)
    exact rows_none_of_step (hsound.unminted_of_presented htoken) hs (hw i c now row hc hp hrow hst)

/-- While the account is refused, nothing in good standing gets the current epoch. -/
theorem Behind.step_of_refused (hb : Behind u (Standing h) w) (hu : isMintRefused (w.shared.accountStatus u))
    (hok : SuspensionSound u w m) (hs : cfg.machine.step w m = some (w', r))
    (hgone : Ungated u h w ∨ ∃ i c, w.call i = some c ∧ c.await = .deleteAll u) : Behind u (Standing h) w' := by
  refine hb.step hok.epoch hs ?_ ?_
  · rintro x ⟨-, status, hst, href⟩
    cases hst
    simp [hu] at href
  · rintro i k c x st rfl hc hreads ⟨rfl, status, rfl, href⟩
    rcases Await.reads_cases hreads with ⟨now, row, hp, rfl, hst⟩ | ⟨y, -, -, rfl, hst | ⟨status', hp, hst⟩⟩
    · cases hst
      obtain ⟨hrow, hnone⟩ := hok.gate c hc row (by rw [hp]; rfl) x (by rw [hp]; rfl)
      rcases hgone with hgone | ⟨j, d, hd, hdel⟩
      · simp [hgone i c now row hc hp rfl href] at hrow
      · exact hnone.ne hd hdel
    · cases hst
    · cases hst
      have hclear := hok.mint c hc y.userId (by rw [hp]; simp [Await.cleared, href])
      simp [hu] at hclear

/-- The suspension of `u` has the number `n`; `h` is any session. -/
structure Suspending (u : UserId) (h : Hash) (n : ℕ) (w : World) : Prop where
  sound : Sound w
  refused : isMintRefused (w.shared.accountStatus u)
  started : n < w.calls.length
  phase : ∀ c, w.call n = some c →
    ((∃ st, isMintRefused st ∧ c.await = .targetRole u st) ∨ c.await = .markBanned u ∨
      c.await = .clearBan u .suspended ∨ c.await = .bumpEpoch u) ∨
    (c.await = .deleteAll u ∧ Behind u (Standing h) w) ∨
    ((∃ k hs, c.await = .evictAll k hs) ∧ Behind u (Standing h) w ∧ Ungated u h w)

theorem Sound.ungated_deleteAll (hw : Sound w) {i k : ℕ} {c : Call Request Await}
    (hs : cfg.machine.step w (.access i k) = some (w', r)) (hc : w.call i = some c) (hp : c.await = .deleteAll u) :
    Ungated u h w' := by
  have hs' : w'.shared = w.shared.deleteAllForUser u := by
    rcases Machine.shared_cases hs with ⟨_, _, hm, -⟩ | ⟨_, _, d, n, hm, hd, hn⟩ | ⟨_, hm, -⟩ | ⟨_, hm, -⟩
    · cases hm
    · cases hm
      obtain rfl := Option.some.inj (hc.symm.trans hd)
      rw [hp] at hn
      exact (deleteAll_of_access cfg hn).1
    · cases hm
    · cases hm
  intro j d now row hd hq hrow _
  have hdrawn := ((hw.step hs).recorded.calls j d hd).reads h u (some row.accountStatus) (by rw [hq, ← hrow]; rfl)
  rw [hs'] at hdrawn ⊢
  exact hw.rows_deleteAll hdrawn

theorem Suspending.step (hw : Suspending u h n w) (hok : SuspensionSound u w m)
    (hs : cfg.machine.step w m = some (w', r)) : Suspending u h n w' := by
  refine ⟨hw.sound.step hs, refused_of_step hok.refused hs hw.refused,
    lt_of_lt_of_le hw.started (Machine.length_le_of_step hs), fun c hc => ?_⟩
  rcases Machine.call_cases hs hc with ⟨o, p, -, hn, -⟩ | ⟨k, d, p, rfl, hd, rfl, hmem⟩ | ⟨hc, -⟩
  · exact absurd hn (Nat.ne_of_lt hw.started)
  · rcases hw.phase d hd with (⟨st, hst, hp⟩ | hp | hp | hp) | ⟨hp, hb⟩ | ⟨⟨k', l, hp⟩, hb, hu⟩
    · rw [hp] at hmem
      have hgoes : Config.Goes cfg w.shared (.targetRole u st) _ := Config.goes_of_access hmem
      cases hgoes
      cases st with
      | banned => exact .inl (.inr (.inl rfl))
      | suspended => exact .inl (.inr (.inr (.inl rfl)))
      | _ => cases hst
    · simp only [hp, Config.machine, Config.access, List.mem_singleton, Prod.mk.injEq, Next.await.injEq] at hmem
      exact .inl (.inr (.inr (.inr hmem.2)))
    · simp only [hp, Config.machine, Config.access, List.mem_singleton, Prod.mk.injEq, ↓reduceIte,
        Next.await.injEq] at hmem
      exact .inl (.inr (.inr (.inr hmem.2)))
    · have hb : Behind u (Standing h) w' := Behind.of_bump hok.epoch hs hd (by rw [hp]; rfl)
      simp only [hp, Config.machine, Config.access, List.mem_singleton, Prod.mk.injEq, Next.await.injEq] at hmem
      exact .inr (.inl ⟨hmem.2, hb⟩)
    · have hb := hb.step_of_refused hw.refused hok hs (.inr ⟨n, d, hd, hp⟩)
      have hu : Ungated u h w' := hw.sound.ungated_deleteAll hs hd hp
      rw [hp] at hmem
      obtain ⟨-, ⟨k', l, hq⟩ | ⟨_, hq⟩⟩ := deleteAll_of_access cfg hmem
      · exact .inr (.inr ⟨⟨k', l, Next.await.inj hq⟩, hb, hu⟩)
      · cases hq
    · have hb := hb.step_of_refused hw.refused hok hs (.inl hu)
      rw [hp] at hmem
      obtain ⟨-, ⟨l, hq⟩ | hq⟩ := evictAll_of_access cfg hmem
      · exact .inr (.inr ⟨⟨k', l, Next.await.inj hq⟩, hb, hu.step hw.sound hw.refused hs⟩)
      · cases hq
  · rcases hw.phase c hc with hp | ⟨hp, hb⟩ | ⟨hp, hb, hu⟩
    · exact .inl hp
    · exact .inr (.inl ⟨hp, hb.step_of_refused hw.refused hok hs (.inr ⟨n, c, hc, hp⟩)⟩)
    · exact .inr (.inr ⟨hp, hb.step_of_refused hw.refused hok hs (.inl hu), hu.step hw.sound hw.refused hs⟩)

/-- A resolver that has no status in hand but one that refuses. -/
def Await.Barred (h : Hash) : Await → Prop
  | .cacheGet x _ | .gateCached x _ _ | .evictRejected x _ | .findRow x _ | .markRevoked x _ | .expireRow x
  | .expireEvict x => x = h
  | .gateRow x _ row | .cacheRow x _ row _ => x = h ∧ isMintRefused row.accountStatus
  | .slideExpiry x _ _ result | .slideGet x _ _ result | .slideSet x _ _ _ result =>
    x = h ∧ isMintRefused result.accountStatus
  | _ => False

/-- What a barred resolver goes on with. -/
def BarredNext (h : Hash) : Next Await Result → Prop
  | .await q => q.Barred h
  | .done (.resolved x) => ∀ y ∈ x, isMintRefused y.accountStatus
  | .done _ => False

theorem barredNext_maybeSlide {a b c : Instant} {y : ResolveResult} (hy : isMintRefused y.accountStatus) :
    BarredNext h (cfg.maybeSlide h a b c y) := by
  unfold Config.maybeSlide
  split
  · simpa [BarredNext] using hy
  · exact ⟨rfl, hy⟩

/-- The suspension is over and stays in force. -/
structure Suspended (u : UserId) (h : Hash) (w : World) : Prop where
  sound : Sound w
  refused : isMintRefused (w.shared.accountStatus u)
  behind : Behind u (Standing h) w
  ungated : Ungated u h w

theorem Suspended.step (hw : Suspended u h w) (hok : SuspensionSound u w m)
    (hs : cfg.machine.step w m = some (w', r)) : Suspended u h w' :=
  ⟨hw.sound.step hs, refused_of_step hok.refused hs hw.refused,
    hw.behind.step_of_refused hw.refused hok hs (.inl hw.ungated), hw.ungated.step hw.sound hw.refused hs⟩

theorem Suspending.returned {k a : ℕ} (hw : Suspending u h n w) (hok : SuspensionSound u w (.access n k))
    (hs : cfg.machine.step w (.access n k) = some (w', some (.count a))) : Suspended u h w' := by
  obtain ⟨_, _, c, hm, hc, hmem⟩ := Machine.return_cases hs
  cases hm
  have hover : Behind u (Standing h) w' ∧ Ungated u h w' := by
    rcases hw.phase c hc with (⟨st, hst, hp⟩ | hp | hp | hp) | ⟨hp, hb⟩ | ⟨-, hb, hu⟩
    · rw [hp] at hmem
      obtain ⟨-, hx⟩ := Prod.mk.inj (List.mem_singleton.mp hmem)
      split at hx <;> cases hx
    all_goals try simp [hp, Config.machine, Config.access] at hmem
    · exact ⟨hb.step_of_refused hw.refused hok hs (.inr ⟨n, c, hc, hp⟩), hw.sound.ungated_deleteAll hs hc hp⟩
    · exact ⟨hb.step_of_refused hw.refused hok hs (.inl hu), hu.step hw.sound hw.refused hs⟩
  exact ⟨hw.sound.step hs, refused_of_step hok.refused hs hw.refused, hover.1, hover.2⟩

/-- A late resolver finds nothing in good standing. -/
theorem Suspended.barredNext (hw : Suspended u h w) (howner : (h, u) ∈ w.shared.drawn) {i : ℕ}
    {c : Call Request Await} (hc : w.call i = some c) (hp : c.await.Barred h) {s' : Shared} {x : Next Await Result}
    (hx : (s', x) ∈ cfg.access w.shared c.await) : BarredNext h x := by
  cases hq : c.await with
  | gateCached y now e =>
    rw [hq] at hx hp
    obtain rfl : y = h := hp
    cases hst : isMintRefused e.value.accountStatus with
    | true =>
      simp only [Config.access, List.mem_singleton, Prod.mk.injEq] at hx
      rw [hx.2]
      split
      · simp [BarredNext]
      · split
        · exact barredNext_maybeSlide hst
        · rfl
    | false =>
      have hheld := (hw.sound.recorded.calls i c hc).held ⟨y, e.value.userId, e.value.epoch, _⟩ (by rw [hq]; rfl)
      have hu := hw.sound.owner_eq hheld howner
      rcases hw.behind.gateCached hc hq hu ⟨rfl, _, rfl, hst⟩ hx with rfl | rfl
      · simp [BarredNext]
      · rfl
  | findRow y now =>
    rw [hq] at hx hp
    obtain rfl : y = h := hp
    simp only [Config.access, List.mem_singleton, Prod.mk.injEq] at hx
    rw [hx.2]
    cases hfind : w.shared.findById y with
    | none => simp [BarredNext]
    | some row =>
      obtain ⟨row₀, hrow, hu, hst⟩ := Shared.findById_eq_some hfind
      have hu := hw.sound.owner_eq (hu ▸ hw.sound.recorded.shared.rows y row₀ hrow) howner
      dsimp only
      split
      · rfl
      · exact ⟨rfl, by rw [hst, hu]; exact hw.refused⟩
  | evictRejected y now | markRevoked y v =>
    rw [hq] at hx hp
    rw [(Config.failOpen_cases hx).2]
    exact hp
  | expireEvict y =>
    rw [hq] at hx
    rw [(Config.failOpen_cases hx).2]
    simp [BarredNext]
  | cacheGet y now =>
    rw [hq] at hx hp
    rw [(Prod.mk.inj (List.mem_singleton.mp hx)).2]
    split
    · exact hp
    · split
      · split <;> exact hp
      · exact hp
  | gateRow y now row =>
    rw [hq] at hx hp
    rw [(Prod.mk.inj (List.mem_singleton.mp hx)).2]
    dsimp only
    split
    · simp [BarredNext]
    · split
      · exact hp.1
      · exact hp
  | slideGet y now e result =>
    rw [hq] at hx hp
    rw [(Prod.mk.inj (List.mem_singleton.mp hx)).2]
    split
    · simpa [BarredNext] using hp.2
    · exact hp
  | cacheRow y now row epoch =>
    rw [hq] at hx hp
    simp only [Config.access, List.mem_singleton, Prod.mk.injEq] at hx
    obtain ⟨rfl, hst⟩ := hp
    rw [hx.2]
    exact barredNext_maybeSlide hst
  | slideExpiry y now e result | expireRow y =>
    rw [hq] at hx hp
    simp only [Config.access, List.mem_singleton, Prod.mk.injEq] at hx
    rw [hx.2]
    exact hp
  | slideSet y now e v result =>
    rw [hq] at hx hp
    simp only [Config.access, List.mem_singleton, Prod.mk.injEq] at hx
    rw [hx.2]
    simpa [BarredNext] using hp.2
  | _ =>
    rw [hq] at hp
    exact hp.elim

/-- The resolvers of the session with a number from `n` on are barred. -/
structure Locked (u : UserId) (h : Hash) (n : ℕ) (w : World) : Prop where
  suspended : Suspended u h w
  created : (h, u) ∈ w.shared.issued
  late : ∀ i c, n ≤ i → w.call i = some c → c.origin = .resolveSession h → c.await.Barred h

theorem Locked.owner (hw : Locked u h n w) : (h, u) ∈ w.shared.drawn :=
  hw.suspended.sound.recorded.shared.issued _ hw.created

theorem Locked.step (hw : Locked u h n w) (hok : SuspensionSound u w m) (hs : cfg.machine.step w m = some (w', r)) :
    Locked u h n w' := by
  refine ⟨hw.suspended.step hok hs, issued_of_step hs hw.created, fun i c hi hc horigin => ?_⟩
  rcases Machine.call_cases hs hc with ⟨o, p, -, -, rfl, he⟩ | ⟨k, d, p, rfl, hd, rfl, hmem⟩ | ⟨hc, -⟩
  · cases horigin
    simp only [Config.machine, Config.enter, Option.ite_none_left_eq_some, Option.some.injEq, Prod.mk.injEq] at he
    rw [← he.2.2]
    rfl
  · exact hw.suspended.barredNext hw.owner hd (hw.late i d hi hd horigin) hmem
  · exact hw.late i c hi hc horigin

/-- Once a sign-in and a suspension of its user, under the id as it is printed, have both
returned, the token resolves to nobody, or to somebody whose status is not active. -/
theorem not_active_after_suspension {v v₁ w₁ w₂ w₃ w₄ : World} {st : AccountStatus} {k a i l : ℕ} {q : Await}
    {x : Option ResolveResult} {owner : UserId}
    (hbefore : Machine.Run cfg.machine (fun _ _ => True) (.initial .empty) v)
    (hwritten : isMintRefused (v.shared.accountStatus u)) (hst : isMintRefused st)
    (hspelling : u.IsPrinted)
    (hstart : cfg.machine.step v (.start (.applyAccountStatus u st)) = some (v₁, r))
    (hduring : Machine.Run cfg.machine (SuspensionSound u) v₁ w)
    (hok : SuspensionSound u w (.access v.calls.length k))
    (hreturn : cfg.machine.step w (.access v.calls.length k) = some (w₁, some (.count a)))
    (hafter : Machine.Run cfg.machine (SuspensionSound u) w₁ w₂) (hcreated : (h, owner) ∈ w₂.shared.issued)
    (howner : owner.value = u.value)
    (hlate : Machine.Run cfg.machine (SuspensionSound u) w₂ w₃) (hi : w₂.calls.length ≤ i)
    (hcall : w₃.call i = some ⟨.resolveSession h, q⟩)
    (hresult : cfg.machine.step w₃ (.access i l) = some (w₄, some (.resolved x))) :
    ∀ y ∈ x, y.accountStatus ≠ .active := by
  have hsuspending₁ : Suspending u h v.calls.length v₁ := by
    refine ⟨(sound_of_run hbefore sound_initial).step hstart,
      refused_of_step (m := .start _) trivial hstart hwritten, ?_, ?_⟩
    · simp only [Machine.step, Config.machine, Config.enter, Option.map_some, Option.some.injEq,
        Prod.mk.injEq] at hstart
      simp [← hstart.1, World.push]
    · intro c hc
      rcases Machine.call_cases hstart hc with ⟨o, p, ho, -, rfl, he⟩ | ⟨_, _, _, hm, -⟩ | ⟨hc, -⟩
      · cases ho
        simp only [Config.machine, Config.enter, hst, ↓reduceIte, Option.some.injEq, Prod.mk.injEq] at he
        exact .inl (.inl ⟨st, hst, he.2.symm⟩)
      · cases hm
      · exact absurd (World.lt_of_call hc) (lt_irrefl _)
  have hsuspending : Suspending u h v.calls.length w :=
    hduring.invariant hsuspending₁ (fun hv hok hs => hv.step hok hs)
  have hsuspended : Suspended u h w₂ :=
    hafter.invariant (hsuspending.returned hok hreturn) (fun hv hok hs => hv.step hok hs)
  have hrecorded := hsuspended.sound.recorded.shared
  obtain rfl : owner = u := (hrecorded.spelling _ (hrecorded.issued _ hcreated)).eq_of_value hspelling howner
  have hlocked₂ : Locked owner h w₂.calls.length w₂ :=
    ⟨hsuspended, hcreated, fun i c hi hc => absurd (World.lt_of_call hc) (Nat.not_lt.mpr hi)⟩
  have hlocked : Locked owner h w₂.calls.length w₃ := hlate.invariant hlocked₂ (fun hv hok hs => hv.step hok hs)
  obtain ⟨_, _, d, hm, hd, hmem⟩ := Machine.return_cases hresult
  cases hm
  obtain rfl := Option.some.inj (hcall.symm.trans hd)
  intro y hy hactive
  have hbarred := hlocked.suspended.barredNext hlocked.owner hd (hlocked.late i _ hi hcall rfl) hmem y hy
  rw [hactive] at hbarred
  cases hbarred

/-- User 1 is on file in good standing and starts to sign in, the status first; after the
given accesses the account is suspended. -/
def signingIn (accesses : ℕ) : List Move :=
  .environment (.setUser ⟨1, .citizen, .active, false⟩) :: .start (.createSession 10 1 [.citizen] false) ::
    List.append (List.replicate accesses (.access 0 0)) [.environment (.setUser ⟨1, .citizen, .suspended, false⟩)]

set_option synthInstance.maxSize 512 in
/-- The suspension overtakes a sign-in that has both reads behind it. -/
theorem not_active_after_suspension_sample :
    ∃ (v v₁ w w₁ w₂ w₃ w₄ : World) (q : Await) (x : Option ResolveResult),
      Machine.Run Config.default.machine (fun _ _ => True) (.initial .empty) v ∧
      isMintRefused (v.shared.accountStatus 1) ∧
      Config.default.machine.step v (.start (.applyAccountStatus 1 .suspended)) = some (v₁, none) ∧
      Machine.Run Config.default.machine (SuspensionSound 1) v₁ w ∧
      SuspensionSound 1 w (.access v.calls.length 1) ∧
      Config.default.machine.step w (.access v.calls.length 1) = some (w₁, some (.count 1)) ∧
      Machine.Run Config.default.machine (SuspensionSound 1) w₁ w₂ ∧ (10, 1) ∈ w₂.shared.issued ∧
      Machine.Run Config.default.machine (SuspensionSound 1) w₂ w₃ ∧ w₂.calls.length ≤ 2 ∧
      w₃.call 2 = some ⟨.resolveSession 10, q⟩ ∧
      Config.default.machine.step w₃ (.access 2 0) = some (w₄, some (.resolved x)) ∧
      ∀ y ∈ x, y.accountStatus ≠ .active := by
  have hrun : ∃ v ∈ Config.default.machine.perform (.initial .empty) (signingIn 2),
      isMintRefused (v.shared.accountStatus 1) ∧
      ∃ v₁ ∈ Config.default.machine.step v (.start (.applyAccountStatus 1 .suspended)), v₁.2 = none ∧
      Machine.Allowed Config.default.machine (SuspensionSound 1) v₁.1
        [.access 1 0, .access 1 0, .access 0 0, .access 0 0, .access 1 0, .access 1 0] ∧
      ∃ w ∈ Config.default.machine.perform v₁.1
        [.access 1 0, .access 1 0, .access 0 0, .access 0 0, .access 1 0, .access 1 0],
      SuspensionSound 1 w (.access v.calls.length 1) ∧
      ∃ w₁ ∈ Config.default.machine.step w (.access v.calls.length 1), w₁.2 = some (.count 1) ∧
      Machine.Allowed Config.default.machine (SuspensionSound 1) w₁.1 [.access 0 0] ∧
      ∃ w₂ ∈ Config.default.machine.perform w₁.1 [.access 0 0], (10, 1) ∈ w₂.shared.issued ∧ w₂.calls.length ≤ 2 ∧
      Machine.Allowed Config.default.machine (SuspensionSound 1) w₂
        [.start (.resolveSession 10), .access 2 0, .access 2 0, .access 2 0] ∧
      ∃ w₃ ∈ Config.default.machine.perform w₂ [.start (.resolveSession 10), .access 2 0, .access 2 0, .access 2 0],
        (w₃.call 2).map (·.origin) = some (.resolveSession 10) ∧
        ∃ y ∈ Config.default.machine.step w₃ (.access 2 0), y.2 = some (.resolved none) := by
    decide +kernel
  obtain ⟨v, hv, hwritten, ⟨v₁, _⟩, hstart, rfl, hokd, w, hw, hokr, ⟨w₁, _⟩, hreturn, rfl, hoka, w₂, hw₂, hcreated,
    hle, hokl, w₃, hw₃, hi, ⟨w₄, _⟩, hs₄, rfl⟩ := hrun
  obtain ⟨⟨o, q⟩, hq, rfl⟩ := Option.map_eq_some_iff.mp hi
  have hbefore := Machine.free_of_perform hv
  have hduring := Machine.run_of_perform hokd hw
  have hafter := Machine.run_of_perform hoka hw₂
  have hlate := Machine.run_of_perform hokl hw₃
  exact ⟨v, v₁, w, w₁, w₂, w₃, w₄, q, none, hbefore, hwritten, hstart, hduring, hokr, hreturn, hafter, hcreated, hlate,
    hle, hq, hs₄, not_active_after_suspension hbefore hwritten rfl rfl hstart hduring hokr hreturn hafter hcreated rfl hlate hle
      hq hs₄⟩

set_option synthInstance.maxSize 512 in
/-- A sign-in that read the status before the suspension reads the epoch after it, and finds
nothing to settle. -/
theorem not_not_active_after_suspension :
    ¬ ∀ (cfg : Config) (u : UserId) (h : Hash) (v v₁ w w₁ w₂ w₃ w₄ : World) (st : AccountStatus) (r : Option Result)
      (k a i l : ℕ) (q : Await) (x : Option ResolveResult),
      Machine.Run cfg.machine (fun _ _ => True) (.initial .empty) v → isMintRefused (v.shared.accountStatus u) →
      isMintRefused st → cfg.machine.step v (.start (.applyAccountStatus u st)) = some (v₁, r) →
      Machine.Run cfg.machine (fun _ m => StaysRefused u m) v₁ w →
      cfg.machine.step w (.access v.calls.length k) = some (w₁, some (.count a)) →
      Machine.Run cfg.machine (fun _ m => StaysRefused u m) w₁ w₂ → (h, u) ∈ w₂.shared.issued →
      Machine.Run cfg.machine (fun _ m => StaysRefused u m) w₂ w₃ → w₂.calls.length ≤ i →
      w₃.call i = some ⟨.resolveSession h, q⟩ →
      cfg.machine.step w₃ (.access i l) = some (w₄, some (.resolved x)) → ∀ y ∈ x, y.accountStatus ≠ .active := by
  intro hclaim
  have hrun : ∃ v ∈ Config.default.machine.perform (.initial .empty) (signingIn 1),
      isMintRefused (v.shared.accountStatus 1) ∧
      ∃ v₁ ∈ Config.default.machine.step v (.start (.applyAccountStatus 1 .suspended)),
      ∃ w ∈ Config.default.machine.perform v₁.1 [.access 1 0, .access 1 0, .access 1 0],
      ∃ w₁ ∈ Config.default.machine.step w (.access v.calls.length 0), w₁.2 = some (.count 0) ∧
      ∃ w₂ ∈ Config.default.machine.perform w₁.1 [.access 0 0, .access 0 0, .access 0 0, .access 0 0],
      (10, 1) ∈ w₂.shared.issued ∧ w₂.calls.length ≤ 2 ∧
      ∃ w₃ ∈ Config.default.machine.perform w₂ [.start (.resolveSession 10), .access 2 0],
        (w₃.call 2).map (·.origin) = some (.resolveSession 10) ∧
        ∃ y ∈ Config.default.machine.step w₃ (.access 2 0),
          y.2 = some (.resolved (some ⟨1, [.citizen], .active, .cache, 2592000000⟩)) := by
    decide +kernel
  have hstays {a b : World} {ms : List Move} (hms : Machine.Allowed Config.default.machine
      (fun _ m => StaysRefused 1 m) a ms) (h : Config.default.machine.perform a ms = some b) :
      Machine.Run Config.default.machine (fun _ m => StaysRefused 1 m) a b := Machine.run_of_perform hms h
  obtain ⟨v, hv, hwritten, ⟨v₁, _⟩, hstart, w, hw, ⟨w₁, _⟩, hreturn, rfl, w₂, hw₂, hcreated, hle, w₃, hw₃, hi,
    ⟨w₄, _⟩, hs₄, rfl⟩ := hrun
  obtain ⟨⟨o, q⟩, hq, rfl⟩ := Option.map_eq_some_iff.mp hi
  have hactive := hclaim _ 1 10 v v₁ w w₁ w₂ w₃ w₄ .suspended _ 0 _ 2 0 q _
    (Machine.free_of_perform hv) hwritten rfl hstart
    (hstays (by simp [Machine.Allowed, StaysRefused]) hw) hreturn (hstays (by simp [Machine.Allowed, StaysRefused]) hw₂)
    hcreated (hstays (by simp [Machine.Allowed, StaysRefused]) hw₃) hle hq hs₄
  exact hactive _ rfl rfl

end Civfix.Sessions
