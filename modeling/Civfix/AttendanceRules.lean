import Civfix.SeatReleases

/-! # Proof rules for attendance transactions

What a statement of a body may assume and must prove. A statement sees a view of the
database that its locks tie to the state at the commit point; `Views` leaves open how
tightly. Under `Views.locked` other transactions run in between and only the locks count;
under `Views.serial` a transaction runs alone and sees the state itself, which is where
the books can be exact. Every rule below holds for both. -/
namespace Civfix.Attendance

open KeyedTables LockedTransactions

/-! ## Ban safety -/

namespace Db

/-- The user has no place at the event. -/
structure NoPlace (s : Db) (cleanupId userId : Id) : Prop where
  registrations : s.registrations.All (fun r => ¬ r.PlaceOf cleanupId userId)
  waitlist : s.waitlist.All (fun w => ¬ w.PlaceOf cleanupId userId)
  slotClaims : s.slotClaims.All (fun c => ¬ c.PlaceOf cleanupId userId)

/-- No banned user with `D` has a place. -/
def SafeFor (D : Id → Id → Prop) (s : Db) : Prop := ∀ c u, D c u → s.isBanned c u → s.NoPlace c u

def BanSafe (s : Db) : Prop := s.SafeFor (fun _ _ => True)

/-- From `s` to `s'` nobody was banned and nobody got a place. -/
structure NoGain (s s' : Db) : Prop where
  bans : ∀ c, NoNewBans c s s'
  places : ∀ c, NoNewPlaces c s s'

variable {s s' : Db} {D : Id → Id → Prop}

theorem NoPlace.mono {c u : Id} (h : s.NoPlace c u) (hp : NoNewPlaces c s s') : s'.NoPlace c u :=
  ⟨(hp.registrations u).all_not h.registrations, (hp.waitlist u).all_not h.waitlist,
    (hp.slotClaims u).all_not h.slotClaims⟩

theorem isBanned_of_noNewBans {c u : Id} (h : NoNewBans c s s') (hb : s'.isBanned c u) : s.isBanned c u := by
  obtain ⟨b, hb⟩ := Option.isSome_iff_exists.mp hb
  have hk := Table.key_of_find? hb
  obtain ⟨b', hb', -⟩ := h (c, u) b hb (congrArg Prod.fst hk)
  exact Option.isSome_iff_exists.mpr ⟨b', hb'⟩

theorem SafeFor.mono (h : s.SafeFor D) (hg : NoGain s s') : s'.SafeFor D :=
  fun c u hD hcu => (h c u hD (isBanned_of_noNewBans (hg.bans c) hcu)).mono (hg.places c)

/-- A write that leaves the ban list as it is. -/
def KeepsBans (w : Write) : Prop := ∀ s : Db, (s.apply w).bans = s.bans

theorem noGain_quiet (s : Db) {w : Write} (hw : w.eventLock = []) : NoGain s (s.apply w) :=
  ⟨fun _ => noNewBans_of_lock s (by simp [hw]), fun _ => noNewPlaces_of_lock s (by simp [hw])⟩

theorem NoGain.trans {s'' : Db} (h : NoGain s s') (h' : NoGain s' s'') : NoGain s s'' := by
  refine ⟨fun c => (h.bans c).trans (h'.bans c), fun c => ?_⟩
  obtain ⟨hr, hw, hc⟩ := h.places c
  obtain ⟨hr', hw', hc'⟩ := h'.places c
  exact ⟨fun u => (hr u).trans (hr' u), fun u => (hw u).trans (hw' u), fun u => (hc u).trans (hc' u)⟩

theorem noGain_quietAll (s : Db) (ws : List Write) (hw : ∀ w ∈ ws, w.eventLock = []) :
    NoGain s (engine.applyAll s ws) := by
  induction ws generalizing s with
  | nil => exact ⟨fun _ => .refl _ _, fun _ => ⟨fun _ => .refl _ _, fun _ => .refl _ _, fun _ => .refl _ _⟩⟩
  | cons w ws ih =>
    exact (noGain_quiet s (hw w (by simp))).trans (ih (s.apply w) (fun x hx => hw x (by simp [hx])))

theorem bans_applyAll (s : Db) (ws : List Write) (h : ∀ w ∈ ws, KeepsBans w) :
    (engine.applyAll s ws).bans = s.bans := by
  induction ws generalizing s with
  | nil => rfl
  | cons w ws ih => exact (ih (s.apply w) (fun x hx => h x (by simp [hx]))).trans (h w (by simp) s)

theorem BanSafe.insertBan (h : s.BanSafe) (b : Ban) :
    (s.apply (.insertBan b)).SafeFor (fun c u => ¬ (c = b.cleanupId ∧ u = b.userId)) := by
  intro c u hne hb
  have hk : (c, u) ≠ (b.cleanupId, b.userId) := fun he => hne (Prod.mk.injEq .. ▸ he)
  simp only [isBanned, apply, Table.find?_insert, hk, ↓reduceIte] at hb
  obtain ⟨hg, hw, hc⟩ := h c u trivial hb
  exact ⟨hg, hw, hc⟩

theorem SafeFor.complete {c u : Id} (h : s.SafeFor (fun x y => ¬ (x = c ∧ y = u))) (hp : s.NoPlace c u) :
    s.BanSafe := by
  intro x y _ hb
  by_cases hxy : x = c ∧ y = u
  · obtain ⟨rfl, rfl⟩ := hxy
    exact hp
  · exact h x y hxy hb

theorem BanSafe.insertRegistration (h : s.BanSafe) {r : Registration}
    (hr : ∀ u, r.subject = .user u → s.isBanned r.cleanupId u = false) :
    (s.apply (.insertRegistration r)).BanSafe := by
  intro c u _ hb
  obtain ⟨hg, hw, hc⟩ := h c u trivial hb
  refine ⟨hg.insert ?_, hw, hc⟩
  rintro ⟨rfl, hu, -⟩
  exact Bool.false_ne_true ((hr u hu).symm.trans hb)

theorem BanSafe.insertWaitlist (h : s.BanSafe) {w : WaitlistEntry}
    (hw : ∀ u, w.subject = .user u → s.isBanned w.cleanupId u = false) :
    (s.apply (.insertWaitlist w)).BanSafe := by
  intro c u _ hb
  obtain ⟨hg, hq, hc⟩ := h c u trivial hb
  refine ⟨hg, hq.insert ?_, hc⟩
  rintro ⟨rfl, hu, -⟩
  exact Bool.false_ne_true ((hw u hu).symm.trans hb)

theorem BanSafe.claimSlot (h : s.BanSafe) {c u slot : Id} (hb : s.isBanned c u = false) :
    (s.apply (.claimSlot c u slot)).BanSafe := by
  intro c' u' _ hb'
  obtain ⟨hg, hq, hc⟩ := h c' u' trivial hb'
  refine ⟨hg, hq, (hc.remove (c, u)).insert ?_⟩
  rintro ⟨rfl, rfl⟩
  exact Bool.false_ne_true (hb.symm.trans hb')

end Db

/-! ## Batches -/

/-- A write that seats, bans and unbans nobody. -/
def Write.Quiet (w : Write) : Prop := w.eventLock = [] ∧ Db.KeepsBans w

theorem quiet_map {ρ : Type} (f : ρ → Write) (hf : ∀ r, (f r).Quiet) (rows : List ρ) :
    ∀ w ∈ rows.map f, w.Quiet := by
  intro w hw
  obtain ⟨r, -, rfl⟩ := List.mem_map.mp hw
  exact hf r

theorem quiet_append {ws us : List Write} (hw : ∀ w ∈ ws, w.Quiet) (hu : ∀ w ∈ us, w.Quiet) :
    ∀ w ∈ ws ++ us, w.Quiet := by
  intro w h
  rcases List.mem_append.mp h with h | h
  · exact hw w h
  · exact hu w h

theorem quiet_close (c : WaitlistClose) (es : List WaitlistEntry) :
    ∀ w ∈ es.map (fun e => Write.closeWaitlist e.id c), w.Quiet := quiet_map _ (fun _ => ⟨rfl, fun _ => rfl⟩) _

theorem quiet_cancel (now : Instant) (actorId : Option Id) (rs : List Registration) :
    ∀ w ∈ rs.map (fun r => Write.cancelRegistration r.id now actorId), w.Quiet :=
  quiet_map _ (fun _ => ⟨rfl, fun _ => rfl⟩) _

theorem quiet_joined (pick : Id → ℕ) (xs : List (Id × ℕ)) : ∀ w ∈ releaseJoined pick xs, w.Quiet :=
  quiet_map _ (fun _ => ⟨rfl, fun _ => rfl⟩) _

theorem quiet_grouped (xs : List (Id × ℕ)) : ∀ w ∈ releaseGrouped xs, w.Quiet :=
  quiet_map _ (fun _ => ⟨rfl, fun _ => rfl⟩) _

/-! ## Views -/

/-- How the view of a statement relates to the state at the commit point. `kept` names the
bans that nobody lifts. -/
structure Views where
  rel : List Lock → Db → Db → Prop
  exact : Prop
  kept : Id → Id → Prop
  agree : ∀ {held v s}, rel held v s → engine.Agree held v s
  strict : exact → ∀ {held v s}, rel held v s → v = s

namespace Views

/-- Other transactions interleave; the locks are all there is. -/
def locked (kept : Id → Id → Prop) : Views where
  rel := engine.Agree
  exact := False
  kept := kept
  agree h := h
  strict h := h.elim

/-- The transaction runs alone. -/
def serial : Views where
  rel _ v s := v = s
  exact := True
  kept _ _ := False
  agree := by
    rintro held v s rfl
    exact Engine.Agree.refl engine held v
  strict _ _ _ _ h := h

variable (V : Views)

/-- The books balance up to `owed`, no banned user has a place, and the kept bans stand. -/
structure Inv (owed : Id → ℤ) (s : Db) : Prop where
  books : s.Books V.exact owed
  bans : s.BanSafe
  kept : ∀ c u, V.kept c u → s.isBanned c u

variable {V} {α β : Type} {held : List Lock} {s : Db} {owed owed' : Id → ℤ}

theorem Inv.of_bans {s' : Db} (h : V.Inv owed s) (hb : s'.Books V.exact owed') (hsafe : s'.BanSafe)
    (hbans : s'.bans = s.bans) : V.Inv owed' s' :=
  ⟨hb, hsafe, fun c u hk => by simpa only [Db.isBanned, hbans] using h.kept c u hk⟩

theorem Inv.quietAll (h : V.Inv owed s) {ws : List Write} (hw : ∀ w ∈ ws, w.Quiet)
    (hb : (engine.applyAll s ws).Books V.exact owed') : V.Inv owed' (engine.applyAll s ws) :=
  h.of_bans hb (h.bans.mono (Db.noGain_quietAll s ws (fun w hx => (hw w hx).1)))
    (Db.bans_applyAll s ws (fun w hx => (hw w hx).2))

theorem Inv.quiet (h : V.Inv owed s) {w : Write} (hw : w.Quiet)
    (hb : (s.apply w).Books V.exact owed') : V.Inv owed' (s.apply w) :=
  h.of_bans hb (h.bans.mono (Db.noGain_quiet s hw.1)) (hw.2 s)

theorem Inv.congr (h : V.Inv owed s) (he : ∀ t, owed' t = owed t) : V.Inv owed' s :=
  ⟨h.books.congr he, h.bans, h.kept⟩

/-! ### What a held lock says about a view -/

section Held

variable {v : Db} {held' : List Lock} (h : V.rel held' v s)
include h

theorem registration_eq {id : Id} {m : LockMode} (hl : ⟨.registration id, m⟩ ∈ held') (hm : 1 ≤ m.rank) :
    v.registrations.find? id = s.registrations.find? id := (V.agree h).2 _ hl hm

theorem waitlist_eq {id : Id} {m : LockMode} (hl : ⟨.waitlist id, m⟩ ∈ held') (hm : 1 ≤ m.rank) :
    v.waitlist.find? id = s.waitlist.find? id := (V.agree h).2 _ hl hm

theorem ticketType_eq {id : Id} {m : LockMode} (hl : ⟨.ticketType id, m⟩ ∈ held') (hm : 1 ≤ m.rank) :
    v.ticketTypes.find? id = s.ticketTypes.find? id := ((V.agree h).2 _ hl).2.1 hm

theorem hasType {c t : Id} {m : LockMode} (hl : ⟨.ticketType t, m⟩ ∈ held') (ht : v.HasType c t) : s.HasType c t :=
  ht.mono ((V.agree h).2 _ hl).1

theorem noNewReferences {t : Id} {m : LockMode} (hl : ⟨.ticketType t, m⟩ ∈ held') (hm : 3 ≤ m.rank) :
    Db.NoNewReferences t v s := ((V.agree h).2 _ hl).2.2 hm

theorem noNewBans {c : Id} {m : LockMode} (hl : ⟨.event c, m⟩ ∈ held') (hm : 1 ≤ m.rank) : Db.NoNewBans c v s :=
  ((V.agree h).2 _ hl).1 hm

theorem noNewPlaces {c : Id} {m : LockMode} (hl : ⟨.event c, m⟩ ∈ held') (hm : 2 ≤ m.rank) :
    Db.NoNewPlaces c v s := ((V.agree h).2 _ hl).2 hm

theorem noNewIndexed {t : Id} {x : Subject} {m : LockMode} (hl : ⟨.activeWaitlist t x, m⟩ ∈ held') :
    Table.NoNew (WaitlistEntry.Indexed t x) v.waitlist s.waitlist := (V.agree h).2 _ hl

theorem sameEntry {id : Id} {w : WaitlistEntry} (hw : v.waitlist.find? id = some w) :
    ∃ w', s.waitlist.find? id = some w' ∧ w.SameEntry w' := (V.agree h).1 id w hw

end Held

section Batches

variable {v : Db} {held' : List Lock}

theorem registrations_batch (h : V.rel held' v s) {rs : List Registration} (hrs : ∀ r ∈ rs, r ∈ v.registrations.rows)
    {ws : List Write} (hrow : ∀ w ∈ ws, w.rowLocks ⊆ held')
    (hws : ∀ r ∈ rs, ∃ now actorId, Write.cancelRegistration r.id now actorId ∈ ws) :
    ∀ r ∈ rs, s.registrations.find? r.id = some r := by
  intro r hr
  obtain ⟨now, actorId, hm⟩ := hws r hr
  have hlock : ⟨.registration r.id, .noKeyUpdate⟩ ∈ held' := hrow _ hm (by simp [Write.rowLocks])
  rw [← registration_eq h hlock (by decide)]
  exact Table.mem_rows_iff.mp (hrs r hr)

theorem waitlist_batch (h : V.rel held' v s) {es : List WaitlistEntry} (hes : ∀ w ∈ es, w ∈ v.waitlist.rows)
    {ws : List Write} (hrow : ∀ w ∈ ws, w.rowLocks ⊆ held')
    (hws : ∀ w ∈ es, ∃ c, Write.closeWaitlist w.id c ∈ ws) : ∀ w ∈ es, s.waitlist.find? w.id = some w := by
  intro w hw
  obtain ⟨c, hm⟩ := hws w hw
  have hlock : ⟨.waitlist w.id, .noKeyUpdate⟩ ∈ held' := hrow _ hm (by simp [Write.rowLocks])
  rw [← waitlist_eq h hlock (by decide)]
  exact Table.mem_rows_iff.mp (hes w hw)

end Batches

/-! ### Statements -/

variable (V) in
abbrev wlp (held : List Lock) (s : Db) (p : Stmt α) (Q : List Lock → α → Db → Prop) : Prop :=
  engine.wlp V.rel held s p Q

theorem wlp_bind {p : Stmt α} {f : α → Stmt β} {Q : List Lock → β → Db → Prop}
    (h : V.wlp held s p (fun held' a s' => V.wlp held' s' (f a) Q)) : V.wlp held s (p >>= f) Q :=
  (engine.wlp_bind held s p f Q).mpr h

theorem wlp_pure {a : α} {Q : List Lock → α → Db → Prop} (h : Q held a s) : V.wlp held s (pure a) Q := h

variable (V) in
/-- The body leaves balanced books and no banned user with a place. -/
def Keeps (held : List Lock) (s : Db) (p : Stmt α) : Prop := V.wlp held s p (fun _ _ s' => V.Inv (fun _ => 0) s')

theorem wlp_mono {p : Stmt α} {Q R : List Lock → α → Db → Prop} (h : V.wlp held s p Q)
    (hQ : ∀ held' a s', Q held' a s' → R held' a s') : V.wlp held s p R := engine.wlp_mono hQ h

/-- The event-row locks that the writes ask for are held. -/
def Disciplined (held : List Lock) (ws : List Write) : Prop :=
  ∀ w ∈ ws, ∀ n ∈ w.eventLock, ∃ l ∈ held, engine.Covers l n

theorem disciplined_of_mem {w : Write} {k : LockKey} {m m' : LockMode} (h : ⟨k, m'⟩ ∈ held)
    (hw : w.eventLock = [⟨k, m⟩]) (hm : m.rank ≤ m'.rank) : Disciplined held [w] := by
  intro x hx n hn
  obtain rfl : x = w := by simpa using hx
  obtain rfl : n = ⟨k, m⟩ := by simpa [hw] using hn
  exact ⟨_, h, engine_covers hm⟩

theorem disciplined_of_quiet {ws : List Write} (h : ∀ w ∈ ws, w.eventLock = []) : Disciplined held ws := by
  intro w hw n hn
  simp [h w hw] at hn

private theorem covered {held' : List Lock} {ws : List Write} (hd : Disciplined held ws) (hsub : held ⊆ held')
    (hrow : ∀ w ∈ ws, w.rowLocks ⊆ held') : engine.Covered held' ws := by
  intro w hw n hn
  rcases List.mem_append.mp hn with hn | hn
  · exact ⟨n, hrow w hw hn, fun _ hx => hx⟩
  · obtain ⟨l, hl, hc⟩ := hd w hw n hn
    exact ⟨l, hsub hl, hc⟩

theorem wlp_statement {locks : Db → List Lock} {writes : Db → List Write} {returning : Db → α}
    {Q : List Lock → α → Db → Prop} (hd : ∀ v, Disciplined held (writes v))
    (h : ∀ v held', V.rel held' v s → held ⊆ held' → locks v ⊆ held' → (∀ w ∈ writes v, w.rowLocks ⊆ held') →
      Q held' (returning v) (engine.applyAll s (writes v))) :
    V.wlp held s (statement locks writes returning) Q := by
  intro v hv
  have hsub : held ⊆ held ++ (locks v ++ (writes v).flatMap Write.rowLocks) := List.subset_append_left _ _
  have hlock : locks v ⊆ held ++ (locks v ++ (writes v).flatMap Write.rowLocks) := by
    intro x hx
    simp [hx]
  have hrow : ∀ w ∈ writes v, w.rowLocks ⊆ held ++ (locks v ++ (writes v).flatMap Write.rowLocks) := by
    intro w hw x hx
    simp only [List.mem_append, List.mem_flatMap]
    exact .inr (.inr ⟨w, hw, hx⟩)
  exact ⟨covered (hd v) hsub hrow, h v _ hv hsub hlock hrow⟩

theorem wlp_select {f : Db → α} {Q : List Lock → α → Db → Prop}
    (h : ∀ v held', V.rel held' v s → held ⊆ held' → Q held' (f v) s) : V.wlp held s (select f) Q :=
  wlp_statement (fun _ => disciplined_of_quiet (by simp)) (fun v held' hv hsub _ _ => h v held' hv hsub)

theorem wlp_selectFor {locks : Db → List Lock} {f : Db → α} {Q : List Lock → α → Db → Prop}
    (h : ∀ v held', V.rel held' v s → held ⊆ held' → locks v ⊆ held' → Q held' (f v) s) :
    V.wlp held s (selectFor locks f) Q :=
  wlp_statement (fun _ => disciplined_of_quiet (by simp)) (fun v held' hv hsub hl _ => h v held' hv hsub hl)

theorem wlp_modifying {writes : Db → List Write} {Q : List Lock → Unit → Db → Prop}
    (hd : ∀ v, Disciplined held (writes v))
    (h : ∀ v held', V.rel held' v s → held ⊆ held' → (∀ w ∈ writes v, w.rowLocks ⊆ held') →
      Q held' () (engine.applyAll s (writes v))) :
    V.wlp held s (modifying writes) Q :=
  wlp_statement hd (fun v held' hv hsub _ hrow => h v held' hv hsub hrow)

/-- A one-row UPDATE or DELETE with a WHERE clause. -/
theorem wlp_guarded {guard : Db → Bool} {w : Write} {returning : Db → α} {Q : List Lock → α → Db → Prop}
    (hq : w.eventLock = [])
    (hyes : ∀ v held', V.rel held' v s → held ⊆ held' → w.rowLocks ⊆ held' → guard v = true →
      Q held' (returning v) (s.apply w))
    (hno : ∀ v held', V.rel held' v s → held ⊆ held' → guard v = false → Q held' (returning v) s) :
    V.wlp held s (statement (fun _ => []) (fun v => if guard v then [w] else []) returning) Q := by
  refine wlp_statement (fun v => disciplined_of_quiet ?_) (fun v held' hv hsub _ hrow => ?_)
  · intro x hx
    split at hx <;> simp_all
  · cases hg : guard v with
    | true =>
      simp only [hg, ↓reduceIte] at hrow
      simp only [↓reduceIte]
      exact hyes v held' hv hsub (hrow w (List.mem_singleton.mpr rfl)) hg
    | false => exact hno v held' hv hsub hg

/-- An accepted INSERT adds its row; an ignored one changes nothing. -/
theorem wlp_inserting {check : Db → InsertCheck} {write : Write} {Q : List Lock → Unit → Db → Prop}
    (hd : Disciplined held [write])
    (hok : ∀ v held', V.rel held' v s → held ⊆ held' → write.rowLocks ⊆ held' → check v = .ok →
      Q held' () (s.apply write))
    (hignored : ∀ v held', V.rel held' v s → held ⊆ held' → write.rowLocks ⊆ held' → check v = .ignored →
      Q held' () s) :
    V.wlp held s (inserting check write) Q := by
  intro v hv
  have hsub : held ⊆ held ++ write.rowLocks := List.subset_append_left _ _
  have hrow : write.rowLocks ⊆ held ++ write.rowLocks := List.subset_append_right _ _
  cases hc : check v with
  | ok =>
    simp only [hc, ↓reduceIte]
    exact ⟨covered hd hsub (by simp), hok v _ hv hsub hrow hc⟩
  | ignored =>
    simp only [hc, reduceCtorEq, ↓reduceIte]
    exact ⟨by simp [Engine.Covered], hignored v _ hv hsub hrow hc⟩
  | violated c =>
    simp only [hc, reduceCtorEq, ↓reduceIte]
    exact ⟨by simp [Engine.Covered], trivial⟩

theorem wlp_unlessRefused {gate : Stmt (Option α)} {k : Stmt α} {Q : List Lock → α → Db → Prop}
    (h : V.wlp held s gate (fun held' r s' => match r with
      | some a => Q held' a s'
      | none => V.wlp held' s' k Q)) : V.wlp held s (unlessRefused gate k) Q := by
  refine wlp_bind (wlp_mono h ?_)
  intro held' r s' hr
  cases r with
  | some a => exact hr
  | none => exact hr

end Views

end Civfix.Attendance
