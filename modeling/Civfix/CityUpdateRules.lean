import Civfix.CityUpdateTransactions

/-! # City updates apply once and only forward

What a committed city update has done, whatever ran beside it. The lock on the message makes its
claim unique, the lock on the filing keeps the filing that the plan was made from, and each guarded
write holds the lock of the row it judged. -/
namespace Civfix.CityUpdates

open KeyedTables LockedTransactions Filings

/-- The entry of a filing in the active index. -/
def activeIndex (f : Filing) : Option ReportId := if f.status.active then some f.reportId else none

theorem activeIndex_eq_some {f : Filing} {r : ReportId} : activeIndex f = some r ↔ ActiveOf r f := by
  unfold activeIndex ActiveOf
  split
  · next h => simp [h]
  · next h => simp [h]

/-- A filing names a report that is there, and a report has at most one active filing. -/
structure Consistent (s : Db) : Prop where
  report : Table.All (fun f => (s.reports.find? f.reportId).isSome) s.filings
  active : Table.Unique activeIndex s.filings

namespace Db

variable {s : Db} {r : ReportId} {id : FilingId}

theorem hasActive_eq_false : s.hasActive r = false ↔ ∀ k f, s.filings.find? k = some f → ¬ ActiveOf r f := by
  simp only [hasActive, List.any_eq_false, decide_eq_true_eq]
  constructor
  · intro h k f hf
    exact h f (Table.find?_eq_some hf).1
  · intro h f hf
    exact h f.id f (Table.mem_rows_iff.mp hf)

theorem otherActive_eq_false :
    s.otherActive r id = false ↔ ∀ k f, k ≠ id → s.filings.find? k = some f → ¬ ActiveOf r f := by
  simp only [otherActive, List.any_eq_false, Bool.and_eq_true, decide_eq_true_eq, not_and]
  constructor
  · intro h k f hk hf
    have hkey := Table.key_of_find? hf
    exact h f (Table.find?_eq_some hf).1 (hkey ▸ hk)
  · intro h f hf hne
    exact h f.id f hne (Table.mem_rows_iff.mp hf)

end Db

namespace Consistent

variable {s : Db}

theorem updateFiling (h : Consistent s) (id : FilingId) (r : ReportId) (now : Instant) (u : FilingUpdate)
    (hfree : u.activates → ∀ k f, k ≠ id → s.filings.find? k = some f → ¬ ActiveOf r f) :
    Consistent (s.apply (.updateFiling id r now u)) := by
  refine ⟨h.report.modify id _ (guarded_id r u now) (fun f hf => ?_), ?_⟩
  · rw [(guarded_sameReport r u now f).2]
    exact h.report id f hf
  · refine h.active.modify_of_free id _ (guarded_id r u now) (fun f b hf hb k y hk hy hyb => ?_)
    rw [activeIndex_eq_some, ActiveOf, (guarded_sameReport r u now f).2] at hb
    by_cases hact : ActiveOf b f
    · exact hk (h.active k id y f hy hf b hyb (activeIndex_eq_some.mpr hact))
    · -- The row was not active before, so the update made it active.
      have hfr : f.reportId = r := by
        by_contra hne
        rw [guarded, if_neg hne] at hb
        exact hact hb
      have hu : u.activates = true := by
        by_contra hu
        rw [guarded, if_pos hfr] at hb
        exact hact ⟨hb.1, FilingUpdate.active_of_apply (by simpa using hu) now hb.2⟩
      refine hfree hu k y hk hy ?_
      rw [← hfr, hb.1]
      exact activeIndex_eq_some.mp hyb

theorem insertFiling (h : Consistent s) {f : Filing} (hreport : (s.reports.find? f.reportId).isSome)
    (hfree : f.status.active → ∀ k x, s.filings.find? k = some x → ¬ ActiveOf f.reportId x) :
    Consistent (s.apply (.insertFiling f)) := by
  refine ⟨h.report.insert hreport, h.active.insert (fun k x b hx hb hfb => ?_)⟩
  rw [activeIndex_eq_some] at hb hfb
  exact hfree hfb.2 k x hx (hfb.1 ▸ hb)

theorem updateReport (h : Consistent s) (id : ReportId) (now : Instant) (u : ReportUpdate) :
    Consistent (s.apply (.updateReport id now u)) :=
  ⟨h.report.imp (fun f hf => (Db.evolves_write s (.updateReport id now u)).reports f.reportId ▸ hf), h.active⟩

theorem updateMessage (h : Consistent s) (id : MessageId) (now : Instant) (u : MessageUpdate) :
    Consistent (s.apply (.updateMessage id now u)) := ⟨h.report, h.active⟩

theorem insertMessage (h : Consistent s) (m : Message) : Consistent (s.apply (.insertMessage m)) := ⟨h.report, h.active⟩

theorem appendTimeline (h : Consistent s) (e : Entry) : Consistent (s.apply (.appendTimeline e)) := ⟨h.report, h.active⟩

end Consistent

/-! ## One rule per statement -/

section Rules

variable {α β : Type} {held : List Lock} {s : Db}

theorem covered_of_mem {w : Write} (h : ∀ n ∈ w.needs, n ∈ held) : engine.Covered held [w] := by
  intro x hx n hn
  rw [List.mem_singleton] at hx
  subst hx
  exact ⟨n, h n hn, fun _ hc => hc⟩

theorem wlp_updateWhere {lock : Lock} {found : Db → Option α} {write : Write} {Q : List Lock → Option α → Db → Prop}
    (hneeds : write.needs = [lock]) (hnone : Q held none s)
    (hsome : ∀ v a, engine.Agree (held ++ [lock]) v s → found v = some a → Q (held ++ [lock]) (some a)
    (s.apply write)) :
    engine.wlp engine.Agree held s (updateWhere lock found write) Q := by
  intro v hv
  cases hf : found v with
  | none =>
    simp only [hf, Option.isSome_none, Bool.false_eq_true, ↓reduceIte, List.append_nil] at hv ⊢
    exact ⟨by simp [Engine.Covered], hnone⟩
  | some a =>
    simp only [hf, Option.isSome_some, ↓reduceIte] at hv ⊢
    exact ⟨covered_of_mem (by simp [hneeds]), hsome v a hv hf⟩

theorem wlp_appendTimeline {e : Entry} {Q : List Lock → Unit → Db → Prop}
    (h : Q held () (s.apply (.appendTimeline e))) :
    engine.wlp engine.Agree held s (appendTimeline e) Q :=
  Engine.wlp_writing engine (fun _ _ => ⟨covered_of_mem (by simp [Write.needs]), h⟩)

/-- The filing that is updated is the one in the committed state, and one that becomes active is
then the only active filing of its report. -/
theorem wlp_updateFilingWhere {now : Instant} {id : FilingId} {found : Db → Option Filing} {u : FilingUpdate}
    {Q : List Lock → Option Filing → Db → Prop} (hid : ∀ v f, found v = some f → v.filings.find? id = some f)
    (hnone : Q held none s)
    (hsome : ∀ locks v f, engine.Agree (held ++ [.filing id]) v s → found v = some f → s.filings.find? id = some f →
      (u.activates → ∀ k x, k ≠ id → s.filings.find? k = some x → ¬ ActiveOf f.reportId x) →
      Q locks (some f) (s.apply (.updateFiling id f.reportId now u))) :
    engine.wlp engine.Agree held s (updateFilingWhere now id found u) Q := by
  refine (engine.wlp_bind _ _ _ _ _).mpr (Engine.wlp_selectFor engine (fun v hv => ?_))
  cases hf : found v with
  | none =>
    simp only [Option.isSome_none, Bool.false_eq_true, ↓reduceIte, List.append_nil]
    exact hnone
  | some f =>
    simp only [hf, Option.isSome_some, ↓reduceIte] at hv ⊢
    have hrow : s.filings.find? id = some f := (hv.2 (.filing id) (by simp)).symm.trans (hid v f hf)
    split
    · next hu =>
      intro v' hv'
      cases ho : v'.otherActive f.reportId id with
      | true =>
        simp only [ho, ↓reduceIte]
        exact ⟨by simp [Engine.Covered], trivial⟩
      | false =>
        simp only [ho, Bool.false_eq_true, ↓reduceIte]
        refine ⟨covered_of_mem (by simp [Write.needs, hu]), ?_⟩
        refine hsome _ v f hv hf hrow (fun _ k x hk hx hact => ?_)
        have hnew : Table.NoNew (ActiveOf f.reportId) v'.filings s.filings := hv'.2 (.active f.reportId) (by simp)
        obtain ⟨y, hy, hya⟩ := hnew k x hx hact
        exact Db.otherActive_eq_false.mp ho k y hk hy hya
    · next hu =>
      refine Engine.wlp_writing engine (fun v' hv' => ⟨covered_of_mem (by simp [Write.needs, hu]), ?_⟩)
      exact hsome _ v f hv hf hrow (fun h => absurd h hu)

end Rules

/-! ## Every transaction keeps the tables consistent -/

/-- The statements keep consistency at the commit point, for all views their locks allow. -/
def Sound {α : Type} (p : Stmt α) : Prop :=
  ∀ held s, Consistent s → engine.wlp engine.Agree held s p (fun _ _ s' => Consistent s')

namespace Sound

variable {α β : Type}

theorem commit (a : α) : Sound (.commit a) := fun _ _ hs => hs

theorem bind {p : Stmt α} {f : α → Stmt β} (hp : Sound p) (hf : ∀ a, Sound (f a)) : Sound (p >>= f) := by
  intro held s hs
  rw [Engine.wlp_bind]
  exact engine.wlp_mono (fun held' a s' hs' => hf a held' s' hs') (hp held s hs)

theorem select (f : Db → α) : Sound (Tx.select f : Stmt α) := fun _ _ hs => engine.wlp_select (fun _ _ => hs)

theorem selectFor (locks : Db → List Lock) (f : Db → α) : Sound (Tx.selectFor locks f : Stmt α) :=
  fun _ _ hs => Engine.wlp_selectFor engine (fun _ _ => hs)

theorem updateWhere {lock : Lock} (found : Db → Option α) {write : Write} (hneeds : write.needs = [lock])
    (hw : ∀ s, Consistent s → Consistent (s.apply write)) : Sound (updateWhere lock found write) :=
  fun _ s hs => wlp_updateWhere hneeds hs (fun _ _ _ _ => hw s hs)

theorem updateReport (r : ReportId) (found : Db → Option α) (now : Instant) (u : ReportUpdate) :
    Sound (CityUpdates.updateWhere (.report r) found (.updateReport r now u)) :=
  updateWhere found rfl (fun _ hs => hs.updateReport r now u)

theorem updateMessage (id : MessageId) (found : Db → Option α) (now : Instant) (u : MessageUpdate) :
    Sound (CityUpdates.updateWhere (.message id) found (.updateMessage id now u)) :=
  updateWhere found rfl (fun _ hs => hs.updateMessage id now u)

theorem appendTimeline (e : Entry) : Sound (appendTimeline e) :=
  fun _ _ hs => wlp_appendTimeline (hs.appendTimeline e)

theorem updateFilingWhere (now : Instant) (id : FilingId) {found : Db → Option Filing} (u : FilingUpdate)
    (hid : ∀ v f, found v = some f → v.filings.find? id = some f) : Sound (updateFilingWhere now id found u) :=
  fun _ _ hs => wlp_updateFilingWhere hid hs (fun _ _ f _ _ _ hfree => hs.updateFiling id f.reportId now u hfree)

theorem updateFiling (now : Instant) (id : FilingId) (p : Db → Filing → Bool) (u : FilingUpdate) :
    Sound (CityUpdates.updateFilingWhere now id (fun s => (s.filings.find? id).filter (p s)) u) :=
  updateFilingWhere now id u (fun _ _ h => (Option.filter_eq_some_iff.mp h).1)

theorem insertFilingRow (f : Filing) (nothing : Bool) : Sound (insertFilingRow f nothing) := by
  intro held s hs v hv
  by_cases hid : (v.filings.find? f.id).isSome
  · simp only [hid, true_or, ↓reduceIte]
    exact ⟨by simp [Engine.Covered], trivial⟩
  by_cases hrep : (v.reports.find? f.reportId).isNone
  · simp only [hid, hrep, true_or, or_true, ↓reduceIte]
    exact ⟨by simp [Engine.Covered], trivial⟩
  by_cases hact : f.status.active = true ∧ v.hasActive f.reportId = true
  · simp only [hid, hrep, hact, and_self, or_true, ↓reduceIte, Bool.false_eq_true]
    refine ⟨by simp [Engine.Covered], ?_⟩
    split
    · exact hs
    · trivial
  · simp only [hid, hrep, hact, or_self, ↓reduceIte, Bool.false_eq_true]
    refine ⟨covered_of_mem (fun n hn => List.mem_append_right _ hn), ?_⟩
    have hreport : (s.reports.find? f.reportId).isSome := by
      rw [← hv.1.reports f.reportId]
      simpa [Option.isNone_iff_eq_none, ← Option.ne_none_iff_isSome] using hrep
    refine hs.insertFiling hreport (fun ha k x hx hx' => ?_)
    have hnew : Table.NoNew (ActiveOf f.reportId) v.filings s.filings := hv.2 (.active f.reportId) (by simp [ha])
    obtain ⟨y, hy, hya⟩ := hnew k x hx hx'
    have hno : v.hasActive f.reportId = false := by
      cases hh : v.hasActive f.reportId with
      | true => exact absurd ⟨ha, hh⟩ hact
      | false => rfl
    exact Db.hasActive_eq_false.mp hno k y hy hya

theorem ended {p : Stmt α} (h : Sound p) : Sound (ended p) := h.bind (fun _ => .commit ())

theorem applyEffectIn (now : Instant) (f : Filing) (e : CityUpdateEffect) : Sound (applyEffectIn now f e) := by
  cases e with
  | none => exact .commit _
  | flag => exact .commit _
  | caseId caseId note =>
    refine (updateFiling now f.id _ _).bind (fun a => ?_)
    cases a with
    | none => exact .commit _
    | some x =>
      refine (select _).bind (fun b => ?_)
      cases b with
      | none => exact .commit _
      | some r => exact (appendTimeline _).bind (fun _ => .commit _)
  | reportStatus sources target note kind cityClosed =>
    refine (updateReport _ _ now _).bind (fun a => ?_)
    cases a with
    | none => exact .commit _
    | some x =>
      refine (appendTimeline _).bind (fun _ => ?_)
      split
      · exact (updateFilingWhere now f.id _ (fun _ _ h => h)).bind (fun _ => .commit _)
      · exact .commit _
  | needsInfo detail =>
    refine (updateFiling now f.id _ _).bind (fun a => ?_)
    cases a with
    | none => exact .commit _
    | some x => exact .commit _

theorem applyCityUpdate (x : CityUpdate) : Sound (applyCityUpdate x) := by
  refine (updateMessage _ _ x.now _).bind (fun a => ?_)
  cases a with
  | none => exact .commit _
  | some filingId =>
    refine (selectFor _ _).bind (fun b => ?_)
    cases b with
    | none => exact fun _ _ _ => trivial
    | some f =>
      refine (applyEffectIn _ _ _).bind (fun applied => ?_)
      split
      · exact (updateMessage _ _ x.now _).bind (fun _ => .commit _)
      · exact .commit _

theorem insertReopenFilingIn (now : Instant) (r : ReportId) (id : FilingId) :
    Sound (insertReopenFilingIn now r id) := by
  refine (select _).bind (fun a => ?_)
  cases a with
  | none => exact .commit _
  | some closed =>
    dsimp only
    split
    · exact .commit _
    · refine (select _).bind (fun b => ?_)
      split
      · exact .commit _
      · refine (insertFilingRow _ _).bind (fun c => ?_)
        split
        · exact .commit _
        · exact .commit _

theorem advanceStatusIfIn (now : Instant) (r : ReportId) (sources : List ReportStatus) (target : ReportStatus)
    (x : StatusNote) (id : FilingId) : Sound (advanceStatusIfIn now r sources target x id) := by
  refine (selectFor _ _).bind (fun locked => (updateReport _ _ now _).bind (fun a => ?_))
  cases a with
  | none => exact .commit _
  | some row =>
    refine (appendTimeline _).bind (fun _ => ?_)
    split
    · exact (insertReopenFilingIn now r id).bind (fun _ => .commit _)
    · exact .commit _

theorem setStatus (now : Instant) (r : ReportId) (st : ReportStatus) (x : StatusNote) :
    Sound (setStatus now r st x) := by
  refine (updateReport _ _ now _).bind (fun a => ?_)
  cases a with
  | none => exact .commit _
  | some row => exact (appendTimeline _).bind (fun _ => .commit _)

theorem resolveByOwner (now : Instant) (r : ReportId) (mine : Bool) (visible : ReportStatus → Bool)
    (target : ReportStatus)
    (note : String) (user : UserId) (id : FilingId) :
    Sound (resolveByOwner now r mine visible target note user id) := by
  refine (selectFor _ _).bind (fun a => ?_)
  cases a with
  | none => exact .commit _
  | some row =>
    dsimp only
    split
    · exact .commit _
    · refine (updateReport _ _ now _).bind (fun _ => (appendTimeline _).bind (fun _ => ?_))
      split
      · exact (insertReopenFilingIn now r id).bind (fun _ => .commit _)
      · exact .commit _

theorem setReportVerdict (now : Instant) (r : ReportId) (v : Verdict) (x : StatusNote) :
    Sound (setReportVerdict now r v x) := by
  refine (updateReport _ _ now _).bind (fun a => ?_)
  cases a with
  | none => exact .commit _
  | some row => exact (appendTimeline _).bind (fun _ => .commit _)

theorem applyReportSuccess (now : Instant) (r : ReportId) (note : String) (actor : Option UserId) :
    Sound (applyReportSuccess now r note actor) := by
  refine (selectFor _ _).bind (fun a => ?_)
  cases a with
  | none => exact .commit _
  | some report =>
    refine (updateReport _ _ now _).bind (fun b => ?_)
    cases b with
    | none => exact (appendTimeline _).bind (fun _ => .commit _)
    | some row => exact (appendTimeline _).bind (fun _ => .commit _)

theorem recordSuccess (now : Instant) (x : SuccessInput) (note : String) : Sound (recordSuccess now x note) := by
  refine (updateFiling now x.filingId _ _).bind (fun a => ?_)
  cases a with
  | none => exact .commit _
  | some f => exact (applyReportSuccess _ _ _ _).bind (fun _ => .commit _)

theorem recordNewSuccess (now : Instant) (f : Filing) (note : String) (actor : Option UserId) :
    Sound (recordNewSuccess now f note actor) :=
  (insertFilingRow _ _).bind (fun _ => (applyReportSuccess _ _ _ _).bind (fun _ => .commit _))

theorem insertMessage (m : Message) : Sound (insertMessage m) := by
  intro held s hs v hv
  by_cases hid : (v.messages.find? m.id).isSome
  · simp only [hid, true_or, ↓reduceIte]
    exact ⟨by simp [Engine.Covered], hs⟩
  by_cases hf : (v.filings.find? m.filingId).isNone
  · simp only [hid, hf, or_true, ↓reduceIte]
    exact ⟨by simp [Engine.Covered], trivial⟩
  · simp only [hid, hf, or_self, ↓reduceIte, Bool.false_eq_true]
    exact ⟨covered_of_mem (by simp [Write.needs]), hs.insertMessage m⟩

theorem program (o : Operation) : Sound (program o) := by
  cases o with
  | cityUpdate x => exact (applyCityUpdate x).ended
  | operatorStatus now r sources target x id => exact (advanceStatusIfIn now r sources target x id).ended
  | replyStatus now r st x => exact (setStatus now r st x).ended
  | ownerStatus now r mine visible target note user id =>
    exact (resolveByOwner now r mine visible target note user id).ended
  | verdict now r v x => exact (setReportVerdict now r v x).ended
  | createFiling f => exact (insertFilingRow f false).ended
  | transition now id g set => exact (updateFiling now id _ _).ended
  | claim now id attempt run => exact (updateFiling now id _ _).ended
  | recordSuccess now x note => exact (recordSuccess now x note).ended
  | recordNewSuccess now f note actor => exact (recordNewSuccess now f note actor).ended
  | insertMessage m => exact (insertMessage m).ended
  | flagMessage now id => exact (updateMessage _ _ now _).ended

end Sound

theorem program_keeps : engine.Keeps program Consistent := fun o s hs => Sound.program o [] s hs

end Civfix.CityUpdates
