import Civfix.VolunteerHoursChanges

/-! # Every volunteer-hours transaction is a sequence of ledger changes

A body runs at its commit point against every view that its locks allow. The users' locks
make `writeEventCredits` read the credits it rewrites; the event's lock keeps the entry that
the reciprocity check read, where no other spelling of the event's id is another lock; and a void
finds its event through the columns that no statement rewrites. -/
namespace Civfix.VolunteerHours

open KeyedTables LockedTransactions SpelledIds

variable {byValue : Bool} {A : EventCreditWrite → CreditRow → Prop} {held : List Lock} {s v : Db}

/-- The body ends in `Q` at its commit point. -/
abbrev Meets (byValue : Bool) {α : Type} (held : List Lock) (s : Db) (p : Stmt α)
    (Q : List Lock → α → Db → Prop) : Prop :=
  (ledgerEngine byValue).wlp (ledgerEngine byValue).Agree held s p Q

theorem sameWhere_user (h : (ledgerEngine byValue).Agree held v s) {u : Id} (hu : Lock.user u ∈ held) :
    Table.SameWhere (fun e : Entry => e.userId = u) v.entries s.entries := h.2 _ hu

theorem sameWhere_event (h : (ledgerEngine true).Agree held v s) {t : IdText} (ht : Lock.event t ∈ held) :
    Table.SameWhere (fun e : Entry => e.cleanupId = some t.value) v.entries s.entries := h.2 _ ht rfl

theorem covered_of_name {ws : List Write}
    (h : ∀ w ∈ ws, ∀ n ∈ w.needs byValue, ∃ x ∈ held, x.name byValue = n.name byValue) :
    (ledgerEngine byValue).Covered held ws := by
  intro w hw n hn
  obtain ⟨x, hx, hname⟩ := h w hw n hn
  exact ⟨x, hx, fun y hy => hname.trans hy⟩

theorem name_of_eventNeeds {c : Option Id} {t : IdText} (hc : c = some t.value) {n : Lock}
    (hn : n ∈ eventNeeds byValue c) : (Lock.event t).name byValue = n.name byValue := by
  subst hc
  cases byValue with
  | false => cases hn
  | true =>
    obtain rfl := List.mem_singleton.mp hn
    rfl

theorem wlp_lockUserCredits {us : List Id} {Q : List Lock → Unit → Db → Prop}
    (h : ∀ held', held ⊆ held' → (∀ u ∈ us, Lock.user u ∈ held') → Q held' () s) :
    Meets byValue held s (lockUserCredits us) Q := by
  unfold lockUserCredits
  split
  · next hus => exact h held (fun _ hx => hx) (by simp [hus])
  · refine Engine.wlp_selectFor _ (fun v _ => h _ (List.subset_append_left _ _) fun u hu => ?_)
    refine List.mem_append_right _ (List.mem_map_of_mem ?_)
    rw [List.mem_mergeSort, List.mem_dedup]
    exact hu

theorem wlp_lockEventCredits {t : IdText} {us : List Id} {Q : List Lock → Unit → Db → Prop}
    (h : ∀ held', Lock.event t ∈ held' → (∀ u ∈ us, Lock.user u ∈ held') → Q held' () s) :
    Meets byValue held s (lockEventCredits t us) Q := by
  refine (Engine.wlp_bind _ _ _ _ _ _).mpr (Engine.wlp_selectFor _ fun v _ => ?_)
  exact wlp_lockUserCredits fun held' hsub hus => h held' (hsub (by simp)) hus

theorem wlp_orThrow {r : Except Failure Unit} {Q : List Lock → Unit → Db → Prop} (h : Q held () s) :
    Meets byValue held s (orThrow r) Q := by
  cases r with
  | ok u => exact h
  | error f => trivial

/-! ## `writeEventCredits` -/

namespace EventCreditWrite

variable {write : EventCreditWrite} {env : Surroundings} {es : List CreditRow} {ws : List Write}

theorem taken_spec {entries : List CreditRow} (h : write.taken v entries = .ok es) :
    es.Sublist entries ∧ (∀ e ∈ es, write.Takes v e) ∧ (es.map CreditRow.userId).Nodup := by
  induction entries generalizing es with
  | nil =>
    simp only [taken, Except.ok.injEq] at h
    subst h
    simp
  | cons x xs ih =>
    unfold taken at h
    split at h
    · next htakes =>
      split at h
      · cases h
      · next hany =>
        cases hxs : write.taken v xs with
        | error c => simp [hxs, Except.map] at h
        | ok ys =>
          simp only [hxs, Except.map, Except.ok.injEq] at h
          subst h
          obtain ⟨hsub, htake, hnodup⟩ := ih hxs
          refine ⟨hsub.cons_cons x, ?_, ?_⟩
          · simp only [List.forall_mem_cons]
            exact ⟨htakes, htake⟩
          · simp only [List.map_cons, List.nodup_cons]
            refine ⟨fun hmem => hany ?_, hnodup⟩
            obtain ⟨y, hy, hyx⟩ := List.mem_map.mp hmem
            exact List.any_eq_true.mpr ⟨y, hsub.subset hy, by simpa using hyx⟩
    · obtain ⟨hsub, htake, hnodup⟩ := ih h
      exact ⟨hsub.cons x, htake, hnodup⟩

structure Outcome (write : EventCreditWrite) (env : Surroundings) (v : Db) (es : List CreditRow)
    (ws : List Write) : Prop where
  writes : ws = es.flatMap (write.creditWrites env v)
  sub : es ⊆ write.entries
  takes : ∀ e ∈ es, write.Takes v e
  users : (es.map CreditRow.userId).Nodup
  hours : ∀ e ∈ es, 0 < e.hours
  ids : (ws.flatMap Write.newIds).Nodup
  free : ∀ id ∈ ws.flatMap Write.newIds, v.entries.find? id = none

theorem outcome_spec (h : write.outcome env v = .ok (es, ws)) : Outcome write env v es ws := by
  unfold outcome at h
  split at h
  · cases h
  · next hhours =>
    split at h
    · cases h
    · next ys hys =>
      obtain ⟨hsub, htakes, husers⟩ := taken_spec hys
      dsimp only at h
      split at h
      · cases h
      · next hids =>
        split at h
        · cases h
        · obtain ⟨rfl, rfl⟩ := Prod.mk.inj (Except.ok.inj h)
          rw [not_not] at hids
          refine ⟨rfl, hsub.subset, htakes, husers, fun e he => ?_, hids.1, hids.2⟩
          have hc := List.findSome?_eq_none_iff.mp hhours e (hsub.subset he)
          unfold hoursCheck at hc
          split at hc
          · cases hc
          · split at hc
            · cases hc
            · omega

theorem creditWrites_congr {e : CreditRow}
    (h : v.creditOf write.cleanupId e.userId = s.creditOf write.cleanupId e.userId) :
    write.creditWrites env v e = write.creditWrites env s e := by
  simp only [creditWrites, rowWrite, auditRow, deltas, delta, h]

theorem newIds_creditWrites (e : CreditRow) : (write.creditWrites env v e).flatMap Write.newIds =
    if v.creditOf write.cleanupId e.userId = none then [env.newId e.userId] else [] := by
  have hrest : ∀ ds : List (Geoid × ℤ), (ds.map (fun d => Write.addHours e.userId d.1 d.2)).flatMap Write.newIds =
    [] := by
    intro ds
    induction ds with
    | nil => rfl
    | cons d ds ih => simpa [Write.newIds] using ih
  cases hc : v.creditOf write.cleanupId e.userId with
  | none => simp [creditWrites, rowWrite, hc, Write.newIds, hrest, newEntry]
  | some p => simp [creditWrites, rowWrite, hc, Write.newIds, hrest]

theorem creditOf_credit_of_ne {e : CreditRow} (hs : s.Indexed)
    (hid : s.creditOf write.cleanupId e.userId = none → s.entries.find? (env.newId e.userId) = none)
    {c u : Id} (hu : u ≠ e.userId) :
    (engine.applyAll s (write.creditWrites env s e)).creditOf c u = s.creditOf c u := by
  rw [(puts_credit hid).creditOf hs, if_neg]
  exact fun hc => hu (hc.2.2.symm.trans (write.credited_userId env s e))

/-- The crediting user gains no credit of the event from anybody else. -/
theorem unreciprocated_credit {e x : CreditRow} (hs : s.Indexed)
    (hid : s.creditOf write.cleanupId e.userId = none → s.entries.find? (env.newId e.userId) = none)
    (h : write.Unreciprocated s x) : write.Unreciprocated (engine.applyAll s (write.creditWrites env s e)) x := by
  intro p hp
  rw [(puts_credit hid).creditOf hs] at hp
  split at hp
  · intro _ y hy hne
    obtain rfl := Option.some.inj hp
    -- The batch credits the crediting user: the row then names that user as its creditor.
    have hby : (write.credited env s e).loggedByUserId = some write.loggedByUserId := by
      unfold credited
      split <;> rfl
    rw [hby] at hy
    exact absurd (Option.some.inj hy).symm hne
  · exact h p hp

/-- What each credit keeps, a batch of credits to different users keeps. -/
theorem batch_keeps {I : Db → Prop} (hs : s.Indexed) (hI : I s)
    (hkeep : ∀ s, ∀ e ∈ es, s.Indexed → I s → write.Takes s e →
      (s.creditOf write.cleanupId e.userId = none → s.entries.find? (env.newId e.userId) = none) →
      I (engine.applyAll s (write.creditWrites env s e)))
    (htakes : ∀ e ∈ es, write.Takes v e) (husers : (es.map CreditRow.userId).Nodup)
    (hcredit : ∀ e ∈ es, v.creditOf write.cleanupId e.userId = s.creditOf write.cleanupId e.userId)
    (hids : ((es.flatMap (write.creditWrites env v)).flatMap Write.newIds).Nodup)
    (hfree : ∀ id ∈ (es.flatMap (write.creditWrites env v)).flatMap Write.newIds, s.entries.find? id = none) :
    I (engine.applyAll s (es.flatMap (write.creditWrites env v))) := by
  induction es generalizing s with
  | nil => exact hI
  | cons e es ih =>
    simp only [List.forall_mem_cons] at hkeep htakes hcredit
    simp only [List.map_cons, List.nodup_cons] at husers
    simp only [List.flatMap_cons, List.flatMap_append] at hids hfree ⊢
    rw [List.nodup_append] at hids
    simp only [List.mem_append] at hfree
    have hid : s.creditOf write.cleanupId e.userId = none → s.entries.find? (env.newId e.userId) = none := by
      intro hn
      refine hfree _ (.inl ?_)
      rw [newIds_creditWrites, hcredit.1, if_pos hn]
      simp
    have htk : write.Takes s e := by
      have h := htakes.1
      unfold Takes at h ⊢
      rwa [hcredit.1] at h
    rw [Engine.applyAll_append, creditWrites_congr hcredit.1]
    refine ih ((puts_credit hid).indexed hs) ((hkeep s).1 hs hI htk hid) (fun s => (hkeep s).2) htakes.2 husers.2 ?_
      hids.2.1 ?_
    · intro x hx
      have hne : x.userId ≠ e.userId := fun h => husers.1 (List.mem_map.mpr ⟨x, hx, h⟩)
      rw [creditOf_credit_of_ne hs hid hne]
      exact hcredit.2 x hx
    · intro id hmem
      rw [(puts_credit hid).find, if_neg]
      · exact hfree id (.inr hmem)
      · rintro rfl
        -- A row that was there already has another id than one that is still free.
        have hgone := hfree _ (.inr hmem)
        cases hc : s.creditOf write.cleanupId e.userId with
        | none =>
          refine hids.2.2 (env.newId e.userId) ?_ _ hmem ?_
          · rw [newIds_creditWrites, hcredit.1, if_pos hc]
            simp
          · simp only [credited, hc, newEntry]
        | some p =>
          have hp := (Db.find?_creditOf hc).1
          simp only [credited, hc, Entry.recredit] at hgone
          rw [hgone] at hp
          cases hp

/-- The whole batch, one credit after the other. -/
theorem changes_batch (hs : s.Indexed) (hA : ∀ e ∈ es, A write e)
    (htakes : ∀ e ∈ es, write.Takes v e) (hhours : ∀ e ∈ es, 0 < e.hours)
    (husers : (es.map CreditRow.userId).Nodup)
    (hcredit : ∀ e ∈ es, v.creditOf write.cleanupId e.userId = s.creditOf write.cleanupId e.userId)
    (hids : ((es.flatMap (write.creditWrites env v)).flatMap Write.newIds).Nodup)
    (hfree : ∀ id ∈ (es.flatMap (write.creditWrites env v)).flatMap Write.newIds, s.entries.find? id = none)
    (hrec : byValue = true → write.creditedByOperatorId = none → ∀ e ∈ es, write.Unreciprocated s e) :
    Changes byValue A s (engine.applyAll s (es.flatMap (write.creditWrites env v))) := by
  -- No credit of the batch makes another one of it reciprocal.
  have hbatch : Changes byValue A s (engine.applyAll s (es.flatMap (write.creditWrites env v))) ∧
      (byValue = true → write.creditedByOperatorId = none → ∀ e ∈ es,
        write.Unreciprocated (engine.applyAll s (es.flatMap (write.creditWrites env v))) e) := by
    refine batch_keeps (I := fun t => Changes byValue A s t ∧
      (byValue = true → write.creditedByOperatorId = none → ∀ e ∈ es, write.Unreciprocated t e))
      hs ⟨.refl, hrec⟩ ?_ htakes husers hcredit hids hfree
    rintro t e he ht ⟨hchanges, hun⟩ htk hid
    refine ⟨hchanges.tail (.credit env write e (hA e he) htk (hhours e he) hid (fun hb h => hun hb h e he)), ?_⟩
    exact fun hb h x hx => unreciprocated_credit ht hid (hun hb h x hx)
  exact hbatch.1

theorem needs_creditWrites {e : CreditRow} {w : Write} (hw : w ∈ write.creditWrites env v e) {n : Lock}
    (hn : n ∈ w.needs byValue) : n ∈ eventNeeds byValue (some write.cleanupId) ∨ n = .user e.userId ∨
      ∃ id ∈ w.newIds, n = .entryId id := by
  simp only [creditWrites, List.mem_cons, List.mem_map] at hw
  rcases hw with rfl | rfl | ⟨d, -, rfl⟩
  · unfold rowWrite at hn ⊢
    split at hn
    · simp only [Write.needs, newEntry, List.mem_cons] at hn
      rcases hn with rfl | rfl | hn
      · exact .inr (.inr ⟨env.newId e.userId, by simp [Write.newIds, newEntry], rfl⟩)
      · exact .inr (.inl rfl)
      · exact .inl hn
    · simp only [Write.needs, List.mem_cons] at hn
      rcases hn with rfl | hn
      · exact .inr (.inl rfl)
      · exact .inl hn
  · simp only [Write.needs, auditRow, List.mem_cons, List.mem_nil_iff, or_false] at hn
    exact .inr (.inl hn)
  · simp only [Write.needs, List.mem_cons, List.mem_nil_iff, or_false] at hn
    exact .inr (.inl hn)

end EventCreditWrite

/-- The shared statement, made under the event's lock and the users' locks. -/
theorem wlp_writeEventCredits {write : EventCreditWrite} {env : Surroundings}
    {Q : List Lock → List EventCreditChange → Db → Prop} (hs : s.Indexed) {t : IdText} (hevent : Lock.event t ∈ held)
    (ht : write.cleanupId = t.value) (husers : ∀ e ∈ write.entries, Lock.user e.userId ∈ held)
    (hA : ∀ e ∈ write.entries, A write e)
    (hrec : byValue = true → write.creditedByOperatorId = none → ∀ e ∈ write.entries, write.Unreciprocated s e)
    (hQ : ∀ held' a s', Changes byValue A s s' → Q held' a s') :
    Meets byValue held s (writeEventCredits env write) Q := by
  intro v hv
  cases ho : write.outcome env v with
  | error c =>
    simp only [ho]
    exact ⟨by simp [Engine.Covered], trivial⟩
  | ok r =>
    obtain ⟨es, ws⟩ := r
    simp only [ho] at hv ⊢
    obtain ⟨rfl, hsub, htakes, hnodup, hhours, hids, hfree⟩ := EventCreditWrite.outcome_spec ho
    constructor
    · refine covered_of_name fun w hw n hn => ?_
      obtain ⟨e, he, hwe⟩ := List.mem_flatMap.mp hw
      rcases EventCreditWrite.needs_creditWrites hwe hn with hn | rfl | ⟨id, hid, rfl⟩
      · exact ⟨.event t, List.mem_append_left _ hevent, name_of_eventNeeds (congrArg some ht) hn⟩
      · exact ⟨_, List.mem_append_left _ (husers e (hsub he)), rfl⟩
      · exact ⟨_, List.mem_append_right _ (List.mem_map_of_mem (List.mem_flatMap.mpr ⟨w, hw, hid⟩)), rfl⟩
    · refine hQ _ _ _ (EventCreditWrite.changes_batch hs (fun e he => hA e (hsub he)) htakes hhours hnodup ?_ hids ?_
        (fun hb h e he => hrec hb h e (hsub he)))
      · intro e he
        exact Db.creditOf_eq_of_sameWhere hs (sameWhere_user hv (List.mem_append_left _ (husers e (hsub he))))
      · intro id hid
        have hlock : (Lock.entryId id).Protects byValue v s :=
          hv.2 _ (List.mem_append_right _ (List.mem_map_of_mem hid))
        exact hlock.mp (hfree id hid)

/-! ## The four transactions -/

/-- The check reads the actor's own entry of the event, which the event's lock keeps. -/
theorem wlp_assertNoReciprocalCredit {args : LogEventHoursArgs} {userIds : List Id}
    {Q : List Lock → Unit → Db → Prop} (hevent : Lock.event args.cleanupId ∈ held)
    (hQ : (byValue = true → ∀ p, s.creditOf args.cleanupId.value args.actorId = some p → p.Live →
      ∀ x ∈ p.loggedByUserId, x ≠ args.actorId → x ∉ userIds) → Q held () s) :
    Meets byValue held s (assertNoReciprocalCredit args userIds) Q := by
  refine (Engine.wlp_bind _ _ _ _ _ _).mpr (Engine.wlp_select _ fun v hv => ?_)
  cases hany : v.entries.rows.any (reciprocalOf args userIds) with
  | true => trivial
  | false =>
    refine hQ fun hb p hp hlive x hx hne hmem => ?_
    subst hb
    obtain ⟨hp, hc⟩ := Db.find?_creditOf hp
    have hpv := (sameWhere_event hv hevent p.id p hc.2.1).mpr hp
    have hfalse := List.any_eq_false.mp hany p (Table.mem_rows_iff.mpr hpv)
    refine hfalse ?_
    simp only [reciprocalOf, decide_eq_true_eq]
    exact ⟨hc, hlive, x, hx, hne, hmem⟩

theorem wlp_detectHoursAnomalies {env : Surroundings} {args : LogEventHoursArgs} {userIds : List Id}
    {Q : List Lock → List Anomaly → Db → Prop} (hQ : ∀ a, Q held a s) :
    Meets byValue held s (detectHoursAnomalies env args userIds) Q := by
  refine (Engine.wlp_bind _ _ _ _ _ _).mpr (Engine.wlp_select _ fun v _ => ?_)
  refine (Engine.wlp_bind _ _ _ _ _ _).mpr (Engine.wlp_select _ fun v' _ => ?_)
  exact hQ _

theorem wlp_logEventHours {env : Surroundings} {args : LogEventHoursArgs} (hs : s.Indexed)
    (hA : ∀ e ∈ args.entries, A args.write e.row) :
    Meets byValue held s (logEventHours env args) (fun _ _ s' => Changes byValue A s s') := by
  unfold logEventHours
  split
  · exact Relation.ReflTransGen.refl
  · refine (Engine.wlp_bind _ _ _ _ _ _).mpr (wlp_lockEventCredits fun held hevent husers => ?_)
    refine (Engine.wlp_bind _ _ _ _ _ _).mpr (wlp_assertNoReciprocalCredit hevent fun hrec => ?_)
    refine (Engine.wlp_bind _ _ _ _ _ _).mpr (Engine.wlp_select _ fun v _ => ?_)
    refine (Engine.wlp_bind _ _ _ _ _ _).mpr (wlp_orThrow ?_)
    refine (Engine.wlp_bind _ _ _ _ _ _).mpr ?_
    have hrows : ∀ {P : CreditRow → Prop}, (∀ e ∈ args.entries, P e.row) → ∀ r ∈ args.write.entries, P r := by
      intro P hP r hr
      obtain ⟨e, he, rfl⟩ := List.mem_map.mp hr
      exact hP e he
    refine wlp_writeEventCredits hs hevent rfl (hrows fun e he => husers _ (List.mem_map_of_mem he)) (hrows hA) ?_ ?_
    · intro hb _
      refine hrows fun e he p hp hlive x hx hne hxe => ?_
      exact hrec hb p hp hlive x hx hne (List.mem_map.mpr ⟨e, he, hxe.symm⟩)
    · intro held' changed s' hch
      exact (Engine.wlp_bind _ _ _ _ _ _).mpr (wlp_detectHoursAnomalies fun _ => hch)

theorem wlp_creditEventAsOperator {env : Surroundings} {args : OperatorEventCreditArgs} (hs : s.Indexed)
    (hA : A args.write ⟨args.userId.value, args.hours⟩) :
    Meets byValue held s (creditEventAsOperator env args) (fun _ _ s' => Changes byValue A s s') := by
  refine (Engine.wlp_bind _ _ _ _ _ _).mpr (wlp_lockEventCredits fun held hevent husers => ?_)
  refine (Engine.wlp_bind _ _ _ _ _ _).mpr (Engine.wlp_select _ fun v _ => ?_)
  split
  · trivial
  · refine (Engine.wlp_bind _ _ _ _ _ _).mpr (Engine.wlp_select _ fun v _ => ?_)
    refine (Engine.wlp_bind _ _ _ _ _ _).mpr (wlp_orThrow ?_)
    refine (Engine.wlp_bind _ _ _ _ _ _).mpr ?_
    refine wlp_writeEventCredits (A := A) hs hevent rfl ?_ ?_ (by simp [OperatorEventCreditArgs.write]) ?_
    · simpa [OperatorEventCreditArgs.write] using husers
    · simpa [OperatorEventCreditArgs.write] using hA
    · intro held' changed s' hch
      refine (Engine.wlp_bind _ _ _ _ _ _).mpr (Engine.wlp_select _ fun v _ => ?_)
      split
      · exact hch
      · trivial

theorem wlp_insertManual {e : Entry} {hours : ℤ} {Q : List Lock → Unit → Db → Prop} (hcleanup : e.cleanupId = none)
    (huser : Lock.user e.userId ∈ held)
    (hQ : ∀ held', 0 < hours → s.entries.find? e.id = none → Q held' () (engine.applyAll s [.insertEntry e])) :
    Meets byValue held s (insertManual e hours) Q := by
  intro v hv
  dsimp only at hv ⊢
  have hlock : (Lock.entryId e.id).Protects byValue v s := hv.2 (.entryId e.id) (by simp)
  by_cases hok : hoursCheck hours = none ∧ v.entries.find? e.id = none
  · rw [if_pos hok]
    constructor
    · refine covered_of_name fun w hw n hn => ?_
      obtain rfl := List.mem_singleton.mp hw
      simp only [Write.needs, hcleanup, List.mem_cons] at hn
      rcases hn with rfl | rfl | hn
      · exact ⟨_, List.mem_append_right _ (by simp), rfl⟩
      · exact ⟨_, List.mem_append_left _ huser, rfl⟩
      · cases byValue <;> cases hn
    · simp only [hok.1, hok.2, ↓reduceIte]
      refine hQ _ ?_ (hlock.mp hok.2)
      have h := hok.1
      unfold hoursCheck at h
      split at h
      · cases h
      · split at h
        · cases h
        · omega
  · rw [if_neg hok]
    refine ⟨by simp [Engine.Covered], ?_⟩
    split
    · trivial
    · next hc =>
      split
      · next hf => exact absurd ⟨hc, hf⟩ hok
      · trivial

theorem wlp_creditManual {env : Surroundings} {args : OperatorManualCreditArgs} :
    Meets byValue held s (creditManual env args) (fun _ _ s' => Changes byValue A s s') := by
  refine (Engine.wlp_bind _ _ _ _ _ _).mpr (wlp_lockUserCredits fun held _ husers => ?_)
  refine (Engine.wlp_bind _ _ _ _ _ _).mpr (Engine.wlp_select _ fun v _ => ?_)
  dsimp only
  split
  · trivial
  · refine (Engine.wlp_bind _ _ _ _ _ _).mpr (Engine.wlp_select _ fun v _ => ?_)
    refine (Engine.wlp_bind _ _ _ _ _ _).mpr (wlp_orThrow ?_)
    refine (Engine.wlp_bind _ _ _ _ _ _).mpr (wlp_insertManual rfl (husers _ (by simp [manualEntry])) ?_)
    exact fun _ hhours hid => Relation.ReflTransGen.single (.manual env args hhours hid)

theorem voidable_spec {args : OperatorVoidArgs} {row : Entry} (h : v.voidable args = some row) :
    v.entries.find? args.entryId = some row ∧ row.userId = args.userId ∧ row.Live ∧ row.source ≠ .report := by
  simp only [Db.voidable, Db.ownEntry, Option.filter_eq_some_iff, decide_eq_true_eq] at h
  exact ⟨h.1.1, h.1.2, h.2⟩

theorem wlp_refuseUnvoidable {args : OperatorVoidArgs} {Q : List Lock → VoidedEntry → Db → Prop} :
    Meets byValue held s (refuseUnvoidable args) Q := by
  refine (Engine.wlp_bind _ _ _ _ _ _).mpr (Engine.wlp_select _ fun v _ => ?_)
  split
  · trivial
  · split <;> trivial

/-- A void under the locks of the entry's user and event. -/
theorem wlp_voidUnderLocks {env : Surroundings} {args : OperatorVoidArgs} (huser : Lock.user args.userId ∈ held)
    (hevent : ∀ row, s.entries.find? args.entryId = some row → ∀ c ∈ row.cleanupId, Lock.event (printed c) ∈ held) :
    Meets byValue held s (voidUnderLocks env args) (fun _ _ s' => Changes byValue A s s') := by
  refine (Engine.wlp_bind _ _ _ _ _ _).mpr (Engine.wlp_writing _ fun v hv => ?_)
  cases hrow : v.voidable args with
  | none =>
    simp only [Option.toList_none, List.map_nil]
    exact ⟨by simp [Engine.Covered], wlp_refuseUnvoidable⟩
  | some row =>
    obtain ⟨hfind, hown, hlive, hsource⟩ := voidable_spec hrow
    have hs := (sameWhere_user hv huser args.entryId row hown).mp hfind
    have hid : row.id = args.entryId := Table.key_of_find? hs
    have hlock : Lock.user row.userId ∈ held := hown ▸ huser
    simp only [Option.toList_some, List.map_cons, List.map_nil]
    constructor
    · refine covered_of_name fun w hw n hn => ?_
      obtain rfl := List.mem_singleton.mp hw
      simp only [Write.needs, List.mem_cons] at hn
      rcases hn with rfl | hn
      · exact ⟨_, hlock, rfl⟩
      · cases hc : row.cleanupId with
        | none =>
          rw [hc] at hn
          cases byValue <;> cases hn
        | some c => exact ⟨.event (printed c), hevent row hs c hc, name_of_eventNeeds hc hn⟩
    · refine (Engine.wlp_bind _ _ _ _ _ _).mpr (Engine.wlp_writing _ fun _ _ => ⟨?_, ?_⟩)
      · refine covered_of_name fun w hw n hn => ?_
        obtain ⟨c, -, rfl⟩ := List.mem_map.mp hw
        simp only [Write.needs, List.mem_cons, List.mem_nil_iff, or_false] at hn
        exact ⟨_, hlock, by rw [hn]⟩
      · refine (Engine.wlp_bind _ _ _ _ _ _).mpr (Engine.wlp_writing _ fun _ _ => ⟨?_, ?_⟩)
        · refine covered_of_name fun w hw n hn => ?_
          obtain ⟨g, -, rfl⟩ := List.mem_map.mp hw
          simp only [Write.needs, List.mem_cons, List.mem_nil_iff, or_false] at hn
          exact ⟨_, hlock, by rw [hn]⟩
        · have hch : Change byValue A s _ := .void env args row (hid.symm ▸ hs) hlive hsource
          rw [voidWrites, List.append_eq, Engine.applyAll_cons, Engine.applyAll_append] at hch
          exact Relation.ReflTransGen.single hch

theorem wlp_lockVoid {c : Option Id} {u : Id} {Q : List Lock → Unit → Db → Prop}
    (h : ∀ held', Lock.user u ∈ held' → (∀ x ∈ c, Lock.event (printed x) ∈ held') → Q held' () s) :
    Meets byValue held s (lockVoid c u) Q := by
  cases c with
  | none => exact wlp_lockUserCredits fun held' _ husers => h held' (husers u (by simp)) (by simp)
  | some x =>
    refine wlp_lockEventCredits fun held' hevent husers => h held' (husers u (by simp)) fun y hy => ?_
    exact Option.some.inj hy ▸ hevent

theorem wlp_voidEntry {env : Surroundings} {args : OperatorVoidArgs} :
    Meets byValue held s (voidEntry env args) (fun _ _ s' => Changes byValue A s s') := by
  refine (Engine.wlp_bind _ _ _ _ _ _).mpr (Engine.wlp_select _ fun v₀ hv₀ => ?_)
  cases hfound : v₀.ownEntry args with
  | none => trivial
  | some found =>
    simp only [Db.ownEntry, Option.filter_eq_some_iff, decide_eq_true_eq] at hfound
    refine (Engine.wlp_bind _ _ _ _ _ _).mpr (wlp_lockVoid fun held' huser hevent => ?_)
    refine wlp_voidUnderLocks huser fun row hrow c hc => ?_
    -- The event was read before any lock; the row it was read from keeps it.
    obtain ⟨r, hr, hsame⟩ := hv₀.1 args.entryId found hfound.1
    rw [hrow] at hr
    obtain rfl := Option.some.inj hr
    exact hevent c (hsame.cleanupId ▸ hc)

/-! ## Invariants of the ledger -/

/-- The credits that an operation may make. -/
def Operation.Credits (A : EventCreditWrite → CreditRow → Prop) : Operation → Prop
  | .logEventHours _ args => ∀ e ∈ args.entries, A args.write e.row
  | .creditEventAsOperator _ args => A args.write ⟨args.userId.value, args.hours⟩
  | .creditManual _ _ | .voidEntry _ _ => True

theorem wlp_program (o : Operation) (hA : o.Credits A) (hs : s.Indexed) :
    Meets byValue [] s (program o) (fun _ _ s' => Changes byValue A s s') := by
  cases o with
  | logEventHours env args =>
    exact (Engine.wlp_bind _ _ _ _ _ _).mpr (Engine.wlp_mono _ (fun _ _ _ h => h) (wlp_logEventHours hs hA))
  | creditEventAsOperator env args =>
    exact (Engine.wlp_bind _ _ _ _ _ _).mpr (Engine.wlp_mono _ (fun _ _ _ h => h) (wlp_creditEventAsOperator hs hA))
  | creditManual env args =>
    exact (Engine.wlp_bind _ _ _ _ _ _).mpr (Engine.wlp_mono _ (fun _ _ _ h => h) wlp_creditManual)
  | voidEntry env args =>
    exact (Engine.wlp_bind _ _ _ _ _ _).mpr (Engine.wlp_mono _ (fun _ _ _ h => h) wlp_voidEntry)

theorem Changes.keeps {I : Db → Prop} (hI : ∀ s s', Change byValue A s s' → I s → I s') {s s' : Db}
    (h : Changes byValue A s s') (hs : I s) : I s' := by
  induction h with
  | refl => exact hs
  | tail _ hstep ih => exact hI _ _ hstep ih

end Civfix.VolunteerHours
