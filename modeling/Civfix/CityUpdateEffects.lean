import Civfix.CityUpdateRules

/-! # What a city update leaves behind

A city update that commits has done nothing, or it has claimed its message and then applied the
effect that its classification plans for the filing, flagged the message, or, where there is nothing
to do, left it at that. -/
namespace Civfix.CityUpdates

open KeyedTables LockedTransactions Filings

/-- The message is open to a city update. -/
def Claimable (m : Message) : Prop := m.appliedAt = none ∧ m.trusted = true ∧ m.flagged = false

/-- The message carries the classification and is marked as applied; nothing else is written. -/
def claimed (x : CityUpdate) (s : Db) : Db := s.apply (.updateMessage x.messageId x.now (.claim x.classification))

/-- The message is marked as applied and flagged; nothing else is written. -/
def flagged (x : CityUpdate) (s : Db) : Db := (claimed x s).apply (.updateMessage x.messageId x.now .flag)

/-- The effects that show on the public timeline. -/
def showsOnTimeline : CityUpdateEffect → Bool
  | .caseId _ _ | .reportStatus _ _ _ _ _ => true
  | .none | .flag | .needsInfo _ => false

/-- What an applied effect writes, each under its guard. -/
inductive Applied (now : Instant) (f : Filing) (s : Db) : CityUpdateEffect → Db → Prop where
  | caseId (caseId note : String) (st : ReportStatus) (hf : f.caseId = none) :
      Applied now f s (.caseId caseId note)
        ((s.apply (.updateFiling f.id f.reportId now (.received caseId))).apply
          (.appendTimeline ⟨f.reportId, st, note, some .reply, none⟩))
  | reportStatus (sources : List ReportStatus) (target : ReportStatus) (note : String) (kind : TimelineKind)
      (cityClosed : Bool) (r : Report) (hr : s.reports.find? f.reportId = some r) (hlive : r.deletedAt = none)
      (hst : r.status ∈ sources) :
      Applied now f s (.reportStatus sources target note kind cityClosed)
        (let moved := (s.apply (.updateReport f.reportId now (.status target))).apply
          (.appendTimeline ⟨f.reportId, target, note, some (entryKind kind), none⟩)
        if cityClosed then moved.apply (.updateFiling f.id f.reportId now .closedByCity) else moved)
  | needsInfo (detail : String) (hf : f.status.successful = true)
      (hfree : ∀ k x, s.filings.find? k = some x → ¬ ActiveOf f.reportId x) :
      Applied now f s (.needsInfo detail) (s.apply (.updateFiling f.id f.reportId now (.askedByCity detail)))

/-- What a claimed message comes to. -/
inductive Settled (x : CityUpdate) (f : Filing) (s : Db) : Db → Prop where
  | nothing (h : x.plan f = .none) : Settled x f s (claimed x s)
  | flagged (h : x.plan f ≠ .none) : Settled x f s (flagged x s)
  | applied {s' : Db} (h : Applied x.now f (claimed x s) (x.plan f) s') : Settled x f s s'

/-- What a committed city update has done. -/
inductive CityUpdated (x : CityUpdate) (s : Db) : Db → Prop where
  | skipped : CityUpdated x s s
  | settled {s' : Db} (m : Message) (f : Filing) (hm : s.messages.find? x.messageId = some m) (hc : Claimable m)
      (hf : s.filings.find? m.filingId = some f) (h : Settled x f s s') : CityUpdated x s s'

theorem CityUpdated.cases {x : CityUpdate} {s s' : Db} (h : CityUpdated x s s') :
    s' = s ∨ ∃ m f, s.messages.find? x.messageId = some m ∧ Claimable m ∧ s.filings.find? m.filingId = some f ∧
      Settled x f s s' := by
  cases h with
  | skipped => exact .inl rfl
  | settled m f hm hc hf h => exact .inr ⟨m, f, hm, hc, hf, h⟩

/-! ## The transaction -/

theorem successful_not_active {st : Status} (h : st.successful = true) : ¬ st.active = true := by
  cases st <;> simp_all [Status.successful, Status.active]

/-- The effect is applied as a whole or not at all. -/
theorem wlp_applyEffectIn {now : Instant} {f : Filing} {held : List Lock} {s : Db} (hs : Consistent s)
    (hf : s.filings.find? f.id = some f) (hlock : Lock.filing f.id ∈ held) (e : CityUpdateEffect) :
    engine.wlp engine.Agree held s (applyEffectIn now f e)
      (fun _ applied s' => (applied = false ∧ s' = s) ∨ (applied = true ∧ Applied now f s e s')) := by
  cases e with
  | none => exact .inl ⟨rfl, rfl⟩
  | flag => exact .inl ⟨rfl, rfl⟩
  | caseId caseId note =>
    refine (engine.wlp_bind _ _ _ _ _).mpr (wlp_updateFilingWhere (fun _ _ h => (Option.filter_eq_some_iff.mp h).1)
      (.inl ⟨rfl, rfl⟩) (fun locks v x _ hfound hx _ => ?_))
    obtain rfl : f = x := Option.some.inj (hf.symm.trans hx)
    have hnull : f.caseId = none := by simpa using (Option.filter_eq_some_iff.mp hfound).2
    refine (engine.wlp_bind _ _ _ _ _).mpr (engine.wlp_select (fun v' hv' => ?_))
    -- The report of a filing is there in every view.
    obtain ⟨r, hr⟩ : ∃ r, v'.reports.find? f.reportId = some r := by
      have hsome : (s.reports.find? f.reportId).isSome := hs.report f.id f hf
      refine Option.isSome_iff_exists.mp ?_
      rw [hv'.1.reports f.reportId]
      exact hsome
    simp only [hr]
    exact (engine.wlp_bind _ _ _ _ _).mpr (wlp_appendTimeline (.inr ⟨rfl, .caseId caseId note r.status hnull⟩))
  | reportStatus sources target note kind cityClosed =>
    refine (engine.wlp_bind _ _ _ _ _).mpr (wlp_updateWhere rfl (.inl ⟨rfl, rfl⟩) (fun v r hv hfound => ?_))
    obtain ⟨hlive, hst⟩ := Option.filter_eq_some_iff.mp hfound
    obtain ⟨hrow, hdel⟩ := Option.filter_eq_some_iff.mp hlive
    have hr : s.reports.find? f.reportId = some r := (hv.2 (.report f.reportId) (by simp)).symm.trans hrow
    have happ : Applied now f s (.reportStatus sources target note kind cityClosed) _ :=
      .reportStatus sources target note kind cityClosed r hr (by simpa using hdel) (by simpa using hst)
    refine (engine.wlp_bind _ _ _ _ _).mpr (wlp_appendTimeline ?_)
    cases cityClosed with
    | false => exact .inr ⟨rfl, happ⟩
    | true =>
      refine (engine.wlp_bind _ _ _ _ _).mpr ?_
      refine (engine.wlp_bind _ _ _ _ _).mpr (Engine.wlp_selectFor engine (fun v' hv' => ?_))
      -- The filing has been locked since the plan was made, so the update finds it.
      have hsame : v'.filings.find? f.id = s.filings.find? f.id := hv'.2 (.filing f.id) (by simp [hlock])
      have hfound' : v'.filings.find? f.id = some f := hsame.trans hf
      simp only [hfound', Option.isSome_some, ↓reduceIte, FilingUpdate.activates, Bool.false_eq_true]
      refine Engine.wlp_writing engine (fun v'' hv'' =>
        ⟨covered_of_mem (by simp [Write.needs, FilingUpdate.activates]), ?_⟩)
      exact .inr ⟨rfl, happ⟩
  | needsInfo detail =>
    refine (engine.wlp_bind _ _ _ _ _).mpr (wlp_updateFilingWhere (fun _ _ h => (Option.filter_eq_some_iff.mp h).1)
      (.inl ⟨rfl, rfl⟩) (fun locks v x _ hfound hx hfree => ?_))
    obtain rfl : f = x := Option.some.inj (hf.symm.trans hx)
    have hsucc : f.status.successful = true := by
      have h2 := (Option.filter_eq_some_iff.mp hfound).2
      simp only [Bool.and_eq_true] at h2
      exact h2.1
    refine .inr ⟨rfl, .needsInfo detail hsucc (fun k y hy hact => ?_)⟩
    by_cases hk : k = f.id
    · subst hk
      obtain rfl : f = y := Option.some.inj (hf.symm.trans hy)
      exact successful_not_active hsucc hact.2
    · exact hfree rfl k y hk hy hact

theorem wlp_flagMessage {now : Instant} {id : MessageId} {held : List Lock} {s : Db} {m : Message}
    {Q : List Lock → Option Message → Db → Prop} (hm : s.messages.find? id = some m) (hlock : Lock.message id ∈ held)
    (h : ∀ locks a, Q locks a (s.apply (.updateMessage id now .flag))) :
    engine.wlp engine.Agree held s (flagMessage now id) Q := by
  intro v hv
  have hl : Lock.message id ∈ held ++ (if (v.messages.find? id).isSome then [Lock.message id] else []) :=
    List.mem_append_left _ hlock
  have hsame : v.messages.find? id = some m := (hv.2 (.message id) hl).trans hm
  simp only [hsame, Option.isSome_some, ↓reduceIte]
  exact ⟨covered_of_mem (by simp [Write.needs]), h _ _⟩

theorem wlp_applyCityUpdate (x : CityUpdate) {s : Db} (hs : Consistent s) :
    engine.wlp engine.Agree [] s (applyCityUpdate x) (fun _ _ s' => CityUpdated x s s') := by
  refine (engine.wlp_bind _ _ _ _ _).mpr (wlp_updateWhere rfl .skipped (fun v filingId hv hfound => ?_))
  obtain ⟨m, hmv, rfl⟩ := Option.map_eq_some_iff.mp hfound
  obtain ⟨hrow, hopen⟩ := Option.filter_eq_some_iff.mp hmv
  have hm : s.messages.find? x.messageId = some m := (hv.2 (.message x.messageId) (by simp)).symm.trans hrow
  have hc : Claimable m := by
    simp only [Bool.and_eq_true, Option.isNone_iff_eq_none, Bool.not_eq_true'] at hopen
    exact ⟨hopen.1.1, hopen.1.2, hopen.2⟩
  refine (engine.wlp_bind _ _ _ _ _).mpr (Engine.wlp_selectFor engine (fun v' hv' => ?_))
  cases hfv : v'.filings.find? m.filingId with
  | none => trivial
  | some f =>
    simp only [hfv, Option.isSome_some, ↓reduceIte] at hv' ⊢
    have hf : s.filings.find? m.filingId = some f := (hv'.2 (.filing m.filingId) (by simp)).symm.trans hfv
    have hid : f.id = m.filingId := Table.key_of_find? hf
    have hcl : (claimed x s).messages.find? x.messageId =
        some ((MessageUpdate.claim x.classification).apply x.now m) := by
      simp [claimed, Db.apply, Table.find?_modify, hm]
    have hcons := hs.updateMessage x.messageId x.now (.claim x.classification)
    have heff := @wlp_applyEffectIn x.now f [.message x.messageId, .filing m.filingId] _ hcons (hid ▸ hf)
      (by simp [hid]) (x.plan f)
    refine (engine.wlp_bind _ _ _ _ _).mpr (engine.wlp_mono ?_ (engine.wlp_held heff))
    rintro locks applied s' ⟨hsub, h⟩
    have hml : Lock.message x.messageId ∈ locks := hsub (by simp)
    rcases h with ⟨rfl, rfl⟩ | ⟨rfl, happ⟩
    · by_cases hplan : x.plan f = .none
      · simp only [hplan, reduceCtorEq, ne_eq, not_true_eq_false, false_and, or_self, ↓reduceIte]
        exact .settled m f hm hc hf (.nothing hplan)
      · simp only [hplan, ne_eq, not_false_eq_true, and_self, or_true, ↓reduceIte]
        exact (engine.wlp_bind _ _ _ _ _).mpr (wlp_flagMessage hcl hml
          (fun _ _ => .settled m f hm hc hf (.flagged hplan)))
    · have hflag : x.plan f ≠ .flag := by
        intro he
        rw [he] at happ
        cases happ
      simp only [hflag, Bool.true_eq_false, and_false, or_self, ↓reduceIte]
      exact .settled m f hm hc hf (.applied happ)

/-! ## What follows from it -/

namespace Applied

variable {now : Instant} {f : Filing} {s s' : Db} {e : CityUpdateEffect}

theorem messages (h : Applied now f s e s') : s'.messages = s.messages := by
  cases h with
  | caseId | needsInfo => rfl
  | reportStatus sources target note kind cityClosed => cases cityClosed <;> rfl

theorem timeline (h : Applied now f s e s') :
    ∃ rows, s'.timeline = s.timeline ++ rows ∧ rows.length = if showsOnTimeline e then 1 else 0 := by
  cases h with
  | caseId caseId note st hf => exact ⟨_, rfl, rfl⟩
  | reportStatus sources target note kind cityClosed => cases cityClosed <;> exact ⟨_, rfl, rfl⟩
  | needsInfo detail hf hfree => exact ⟨[], by simp [Db.apply], rfl⟩

theorem reports (h : Applied now f s e s') :
    s'.reports = s.reports ∨ ∃ sources target note kind cityClosed r,
      e = .reportStatus sources target note kind cityClosed ∧
      s.reports.find? f.reportId = some r ∧ r.status ∈ sources ∧
      s'.reports = (s.apply (.updateReport f.reportId now (.status target))).reports := by
  cases h with
  | caseId | needsInfo => exact .inl rfl
  | reportStatus sources target note kind cityClosed r hr hlive hst =>
    exact .inr ⟨sources, target, note, kind, cityClosed, r, rfl, hr, hst, by cases cityClosed <;> rfl⟩

/-- A filing keeps the case id it has. -/
theorem caseId_eq (h : Applied now f s e s') (hf : s.filings.find? f.id = some f) {k : FilingId} {a b : Filing}
    {c : String}
    (ha : s.filings.find? k = some a) (hb : s'.filings.find? k = some b) (hc : a.caseId = some c) :
    b.caseId = some c := by
  -- An update that leaves the column alone, or that is not made on a row with a case id.
  have hupdate : ∀ (u : FilingUpdate), ((u.apply now a).caseId = a.caseId ∨ k ≠ f.id) →
      (s.apply (.updateFiling f.id f.reportId now u)).filings.find? k = some b → b.caseId = some c := by
    intro u hu hrow
    simp only [Db.apply, Table.find?_modify] at hrow
    split at hrow
    · next hk =>
      rw [ha, Option.map_some, Option.some.injEq] at hrow
      have hkeep := hu.resolve_right (by simpa using hk)
      rw [← hrow, guarded]
      split
      · rw [hkeep, hc]
      · exact hc
    · rw [ha, Option.some.injEq] at hrow
      rw [← hrow, hc]
  cases h with
  | caseId caseId note st hnull =>
    refine hupdate (.received caseId) (.inr ?_) hb
    rintro rfl
    obtain rfl : f = a := Option.some.inj (hf.symm.trans ha)
    rw [hnull] at hc
    cases hc
  | reportStatus sources target note kind cityClosed r hr hlive hst =>
    cases cityClosed with
    | false =>
      obtain rfl : a = b := Option.some.inj (ha.symm.trans hb)
      exact hc
    | true => exact hupdate .closedByCity (.inl rfl) hb
  | needsInfo detail hsucc hfree => exact hupdate (.askedByCity detail) (.inl rfl) hb

end Applied

/-- The two moves of a report's status that a classification can plan. -/
theorem plan_reportStatus {x : CityUpdate} {f : Filing} {sources : List ReportStatus} {target : ReportStatus}
    {note : String}
    {kind : TimelineKind} {cityClosed : Bool} (h : x.plan f = .reportStatus sources target note kind cityClosed) :
    (sources = [.acknowledged] ∧ target = .inProgress) ∨
      (sources = [.acknowledged, .inProgress] ∧ target = .resolved) := by
  unfold CityUpdate.plan planCityUpdate at h
  split at h
  · cases h
  · split at h
    · cases h
    · split at h
      · split at h
        · cases h
        · split at h <;> cases h
      · split at h
        · cases h
        · cases h
          exact .inl ⟨rfl, rfl⟩
      · cases h
        exact .inr ⟨rfl, rfl⟩
      · cases h
      · cases h

/-- A report's status moves forward, and a filing keeps its case id. -/
structure Forward (s s' : Db) : Prop where
  status : ∀ r a b, s.reports.find? r = some a → s'.reports.find? r = some b → b.status ≠ a.status →
    (a.status = .acknowledged ∧ b.status = .inProgress) ∨
    ((a.status = .acknowledged ∨ a.status = .inProgress) ∧ b.status = .resolved)
  caseId : ∀ k a b c, s.filings.find? k = some a → s'.filings.find? k = some b → a.caseId = some c → b.caseId = some c

theorem Forward.of_same {s s' : Db} (hr : s'.reports = s.reports) (hf : s'.filings = s.filings) : Forward s s' := by
  refine ⟨fun r a b ha hb hne => ?_, fun k a b c ha hb hc => ?_⟩
  · rw [hr, ha, Option.some.injEq] at hb
    exact absurd (congrArg Report.status hb).symm hne
  · rw [hf, ha, Option.some.injEq] at hb
    exact hb ▸ hc

theorem Settled.forward {x : CityUpdate} {f : Filing} {s s' : Db} (h : Settled x f s s')
    (hf : s.filings.find? f.id = some f) : Forward s s' := by
  cases h with
  | nothing | flagged => exact .of_same rfl rfl
  | applied happ =>
    refine ⟨fun r a b ha hb hne => ?_, fun k a b c ha hb hc => happ.caseId_eq hf ha hb hc⟩
    rcases happ.reports with hsame | ⟨sources, target, note, kind, cityClosed, y, hplan, hy, hst, hrep⟩
    · rw [hsame] at hb
      have hab : a = b := Option.some.inj (ha.symm.trans hb)
      exact absurd (congrArg Report.status hab).symm hne
    · rw [hrep] at hb
      simp only [Db.apply, Table.find?_modify] at hb
      split at hb
      · next hr =>
        subst hr
        obtain rfl : a = y := Option.some.inj (ha.symm.trans hy)
        have hb' : b.status = target := by
          have hfind : s.reports.find? f.reportId = some a := ha
          rw [show (claimed x s).reports.find? f.reportId = some a from hfind, Option.map_some, Option.some.injEq] at hb
          rw [← hb]
          rfl
        rcases plan_reportStatus hplan with ⟨rfl, rfl⟩ | ⟨rfl, rfl⟩
        · exact .inl ⟨by simpa using hst, hb'⟩
        · exact .inr ⟨by simpa using hst, hb'⟩
      · have hab : a = b := Option.some.inj (ha.symm.trans hb)
        exact absurd (congrArg Report.status hab).symm hne

/-- The message is marked as applied, whatever its effect came to. -/
theorem Settled.appliedAt {x : CityUpdate} {f : Filing} {s s' : Db} {m : Message} (h : Settled x f s s')
    (hm : s.messages.find? x.messageId = some m) :
    ∃ m', s'.messages.find? x.messageId = some m' ∧ m'.appliedAt = some x.now := by
  have hclaimed : (claimed x s).messages.find? x.messageId =
      some ((MessageUpdate.claim x.classification).apply x.now m) := by
    simp [claimed, Db.apply, Table.find?_modify, hm]
  cases h with
  | nothing => exact ⟨_, hclaimed, rfl⟩
  | flagged =>
    refine ⟨MessageUpdate.flag.apply x.now ((MessageUpdate.claim x.classification).apply x.now m), ?_, rfl⟩
    simp [CityUpdates.flagged, claimed, Db.apply, Table.find?_modify, hm]
  | applied happ => exact ⟨_, (congrArg (fun t => Table.find? t x.messageId) happ.messages).trans hclaimed, rfl⟩

theorem Applied.not_flagged {x : CityUpdate} {f : Filing} {s s' : Db} {m : Message} {e : CityUpdateEffect}
    (h : Applied x.now f (claimed x s) e s') (hm : s.messages.find? x.messageId = some m) (hc : Claimable m) :
    ∃ m', s'.messages.find? x.messageId = some m' ∧ m'.flagged = false := by
  refine ⟨(MessageUpdate.claim x.classification).apply x.now m, ?_, hc.2.2⟩
  rw [h.messages]
  simp [claimed, Db.apply, Table.find?_modify, hm]

/-! ## Every run -/

abbrev World := Engine.World Db Write Lock Failure Operation Unit

/-- What a committed city update has done, whatever ran beside it. -/
theorem cityUpdated_of_step {w w' : World} {x : CityUpdate} (h : Engine.Reachable engine program Consistent w)
    (hs : Engine.Step engine program w (some (.cityUpdate x)) w') : CityUpdated x w.db w'.db := by
  refine h.commits (fun _ hc => hc) program_keeps hs (Q := fun o s s' => ∀ y, o = .cityUpdate y → CityUpdated y s s')
    ?_ x rfl
  intro o ho s hcons
  cases ho
  refine (engine.wlp_bind _ _ _ _ _).mpr (engine.wlp_mono (fun _ _ s' hx => ?_) (wlp_applyCityUpdate x hcons))
  intro y hy
  cases hy
  exact hx

theorem unchanged_of_applied {w w' : World} {x : CityUpdate} {m : Message}
    (h : Engine.Reachable engine program Consistent w) (hs : Engine.Step engine program w (some (.cityUpdate x)) w')
    (hm : w.db.messages.find? x.messageId = some m) (happ : m.appliedAt.isSome) : w'.db = w.db := by
  rcases (cityUpdated_of_step h hs).cases with hsame | ⟨n, f, hn, hc, -, -⟩
  · exact hsame
  · obtain rfl : m = n := Option.some.inj (hm.symm.trans hn)
    rw [hc.1] at happ
    cases happ

/-- For any order, repetition and concurrency of city updates with the other transactions: a report
never has two active filings; a city update that changes anything claimed its message and then
applied its effect with one timeline row if the effect shows there, or had nothing to do, or flagged
the message and wrote nothing else; reports move forward, case ids stay; and no later city update of
the message changes anything. -/
theorem city_updates_apply_once_and_forward :
    (∀ w : World, Engine.Reachable engine program Consistent w → Table.Unique activeIndex w.db.filings) ∧
    ∀ (w w' : World) (x : CityUpdate), Engine.Reachable engine program Consistent w →
      Engine.Step engine program w (some (.cityUpdate x)) w' →
      w'.db = w.db ∨ ∃ m f, w.db.messages.find? x.messageId = some m ∧ Claimable m ∧
        w.db.filings.find? m.filingId = some f ∧
        ((Applied x.now f (claimed x w.db) (x.plan f) w'.db ∧
            (∃ m', w'.db.messages.find? x.messageId = some m' ∧ m'.flagged = false) ∧
            ∃ rows, w'.db.timeline = w.db.timeline ++ rows ∧
              rows.length = if showsOnTimeline (x.plan f) then 1 else 0) ∨
          (x.plan f = .none ∧ w'.db = claimed x w.db) ∨ (x.plan f ≠ .none ∧ w'.db = flagged x w.db)) ∧
        Forward w.db w'.db ∧
        ∀ (v v' : World) (y : CityUpdate), Engine.Run engine program (fun _ => True) w' v →
          Engine.Step engine program v (some (.cityUpdate y)) v' → y.messageId = x.messageId → v'.db = v.db := by
  refine ⟨fun w h => (h.invariant (fun _ hc => hc) program_keeps).active, fun w w' x h hs => ?_⟩
  rcases (cityUpdated_of_step h hs).cases with hsame | ⟨m, f, hm, hc, hf, hset⟩
  · exact .inl hsame
  · have hf' : w.db.filings.find? f.id = some f := Table.key_of_find? hf ▸ hf
    refine .inr ⟨m, f, hm, hc, hf, ?_, hset.forward hf', fun v v' y hrun hstep hy => ?_⟩
    · generalize w'.db = s' at hset ⊢
      cases hset with
      | nothing hplan => exact .inr (.inl ⟨hplan, rfl⟩)
      | flagged hplan => exact .inr (.inr ⟨hplan, rfl⟩)
      | applied happ => exact .inl ⟨happ, happ.not_flagged hm hc, happ.timeline⟩
    · obtain ⟨m', hm', hat⟩ := hset.appliedAt hm
      have hev : Db.Evolves w'.db v.db := hrun.evolves
      obtain ⟨n, hn, hfol⟩ := hev.messages x.messageId m' hm'
      refine unchanged_of_applied ((h.step hs).run hrun) hstep (hy ▸ hn) (hfol.applied ?_)
      rw [hat]
      rfl

/-! ## A report with a message from its city -/

/-- A report that the city acknowledged, filed through the city's portal, with one message. -/
def acknowledgedFiling : Filing :=
  (NewFiling.mk 1 1 (some "4805000") "pothole" none
    (some .portal) none none "A pothole" none none).row 0 .submitted none none
    (some .script) none (some 0)

def oneMessage : Db where
  messages := (Table.empty _).insert ⟨1, 1, true, false, none, none, none⟩
  filings := (Table.empty _).insert acknowledgedFiling
  reports := (Table.empty _).insert ⟨1, .acknowledged, none, none⟩
  timeline := []

theorem consistent_oneMessage : Consistent oneMessage := by
  refine ⟨?_, ?_⟩
  · exact Table.All.insert (fun k f hf => by simp at hf) rfl
  · refine Table.Unique.insert (fun k k' f f' hf => by simp at hf) (fun k f b hf => by simp at hf)

/-- The city's message as it was read. -/
def cityUpdateOf (st : CityStatus) : CityUpdate := ⟨5, 1, some ⟨none, st, "", 1⟩, fun _ => none⟩

/-- The city closes the request: the report is resolved with one timeline row. -/
theorem closed_update_resolves :
    ∃ w w' : World, Engine.Reachable engine program Consistent w ∧
      Engine.Step engine program w (some (.cityUpdate (cityUpdateOf .closed))) w' ∧
      Forward w.db w'.db ∧ w'.db.timeline.length = 1 := by
  obtain ⟨w, s', hrun, hstep, hlen⟩ := Engine.Run.exists_commit_of_check engine program (fun _ => True)
    (.cityUpdate (cityUpdateOf .closed)) oneMessage
    (fun s => decide (s.timeline.length = 1)) (by decide +kernel)
  have hreach := (Engine.Reachable.init oneMessage consistent_oneMessage).run hrun
  refine ⟨w, _, hreach, hstep, ?_, of_decide_eq_true hlen⟩
  rcases city_updates_apply_once_and_forward.2 w _ _ hreach hstep with hsame | ⟨m, f, -, -, -, -, hfw, -⟩
  · rw [hsame]
    exact .of_same rfl rfl
  · exact hfw

/-- A message that says nothing of the request is claimed, and it is not flagged although no
effect of it was applied. -/
theorem other_update_is_not_flagged :
    ∃ w w' : World, Engine.Reachable engine program Consistent w ∧
      Engine.Step engine program w (some (.cityUpdate (cityUpdateOf .other))) w' ∧
      (w.db.messages.find? 1).map (·.appliedAt) = some none ∧
        (w'.db.messages.find? 1).map (·.appliedAt) = some (some 5) ∧
      w'.db.filings.rows = w.db.filings.rows ∧ w'.db.reports.rows = w.db.reports.rows ∧
      w'.db.timeline = w.db.timeline ∧ (w'.db.messages.find? 1).map (·.flagged) = some false := by
  obtain ⟨w, s', hrun, hstep, hcheck⟩ := Engine.Run.exists_commit_of_check engine program (fun _ => False)
    (.cityUpdate (cityUpdateOf .other)) oneMessage
    (fun s => decide ((oneMessage.messages.find? 1).map (·.appliedAt) = some none ∧
      (s.messages.find? 1).map (·.appliedAt) = some (some 5) ∧ s.filings.rows = oneMessage.filings.rows ∧
      s.reports.rows = oneMessage.reports.rows ∧ s.timeline = oneMessage.timeline ∧
      (s.messages.find? 1).map (·.flagged) = some false)) (by decide +kernel)
  have hdb : w.db = oneMessage := hrun.db_eq
  refine ⟨w, _, (Engine.Reachable.init oneMessage consistent_oneMessage).run hrun, hstep, ?_⟩
  rw [hdb]
  exact of_decide_eq_true hcheck

end Civfix.CityUpdates
