import Civfix.VolunteerHoursService
import Mathlib.Logic.Relation

/-! # What a volunteer-hours transaction does to the ledger

Every transaction that commits makes a sequence of ledger changes, each judged against the
state at its commit point: it credits one user at one event, records one manual adjustment,
or voids one entry. The locks are what makes the row a statement read the row it changes. -/
namespace Civfix.VolunteerHours

open KeyedTables LockedTransactions

/-! ## The entry the event index holds -/

namespace Db

variable {s s' : Db} {c u : Id} {p q : Entry}

/-- `volunteer_hours_event_uidx`. -/
def Indexed (s : Db) : Prop :=
  ∀ c u p q, s.entries.find? p.id = some p → s.entries.find? q.id = some q → p.IsCredit c u → q.IsCredit c u → p = q

theorem find?_creditOf (h : s.creditOf c u = some p) : s.entries.find? p.id = some p ∧ p.IsCredit c u := by
  refine ⟨Table.mem_rows_iff.mp (List.mem_of_find?_eq_some h), ?_⟩
  simpa using List.find?_some h

theorem creditOf_eq_none : s.creditOf c u = none ↔ ∀ p, s.entries.find? p.id = some p → ¬ p.IsCredit c u := by
  simp only [creditOf, List.find?_eq_none, decide_eq_true_eq, ← Table.mem_rows_iff]

theorem creditOf_eq_some (hs : s.Indexed) :
    s.creditOf c u = some p ↔ s.entries.find? p.id = some p ∧ p.IsCredit c u := by
  constructor
  · exact find?_creditOf
  · rintro ⟨hp, hc⟩
    cases hq : s.creditOf c u with
    | none => exact absurd hc (creditOf_eq_none.mp hq p hp)
    | some q =>
      obtain ⟨hq', hc'⟩ := find?_creditOf hq
      rw [hs c u p q hp hq' hc hc']

theorem creditOf_eq_of_sameWhere {v : Db} (hs : s.Indexed)
    (h : Table.SameWhere (fun e : Entry => e.userId = u) v.entries s.entries) : v.creditOf c u = s.creditOf c u := by
  cases hv : v.creditOf c u with
  | some p =>
    obtain ⟨hp, hc⟩ := find?_creditOf hv
    exact ((creditOf_eq_some hs).mpr ⟨(h p.id p hc.2.2).mp hp, hc⟩).symm
  | none =>
    refine (creditOf_eq_none.mpr fun p hp hc => ?_).symm
    exact creditOf_eq_none.mp hv p ((h p.id p hc.2.2).mpr hp) hc

/-- `s'` is `s` with one entry put under its id, where it is new or a rewrite of what the id held. -/
structure Puts (s s' : Db) (row : Entry) : Prop where
  find : ∀ id, s'.entries.find? id = if id = row.id then some row else s.entries.find? id
  same : ∀ p, s.entries.find? row.id = some p → p.Same row
  new : s.entries.find? row.id = none → ∀ c u, row.IsCredit c u → s.creditOf c u = none
  total : ∀ f, s'.entries.total f + (s.entries.find? row.id).elim 0 f = s.entries.total f + f row

theorem isCredit_iff_of_same (h : p.Same q) : q.IsCredit c u ↔ p.IsCredit c u := by
  simp only [Entry.IsCredit, h.source, h.cleanupId, h.userId]

theorem Puts.eq_id {row : Entry} (h : Puts s s' row) (hs : s.Indexed) (hp : s.entries.find? p.id = some p)
    (hc : p.IsCredit c u) (hr : row.IsCredit c u) : p.id = row.id := by
  cases hold : s.entries.find? row.id with
  | none => exact absurd hc (creditOf_eq_none.mp (h.new hold c u hr) p hp)
  | some q =>
    have hq : q.IsCredit c u := (isCredit_iff_of_same (h.same q hold)).mp hr
    have hid : q.id = row.id := Table.key_of_find? hold
    have hqf : s.entries.find? q.id = some q := hid ▸ hold
    rw [hs c u p q hp hqf hc hq, hid]

theorem Puts.indexed {row : Entry} (h : Puts s s' row) (hs : s.Indexed) : s'.Indexed := by
  intro c u p q hp hq hcp hcq
  rw [h.find] at hp hq
  by_cases hpr : p.id = row.id
  · rw [if_pos hpr] at hp
    obtain rfl := Option.some.inj hp
    by_cases hqr : q.id = row.id
    · rw [if_pos hqr] at hq
      exact Option.some.inj hq
    · rw [if_neg hqr] at hq
      exact absurd (h.eq_id hs hq hcq hcp) hqr
  · rw [if_neg hpr] at hp
    by_cases hqr : q.id = row.id
    · rw [if_pos hqr] at hq
      obtain rfl := Option.some.inj hq
      exact absurd (h.eq_id hs hp hcp hcq) hpr
    · rw [if_neg hqr] at hq
      exact hs c u p q hp hq hcp hcq

/-- Only the index entry of the row that was put changes. -/
theorem Puts.creditOf {row : Entry} (h : Puts s s' row) (hs : s.Indexed) (c u : Id) :
    s'.creditOf c u = if row.IsCredit c u then some row else s.creditOf c u := by
  split
  · next hr =>
    refine (creditOf_eq_some (h.indexed hs)).mpr ⟨?_, hr⟩
    rw [h.find, if_pos rfl]
  · next hr =>
    ext p
    rw [creditOf_eq_some (h.indexed hs), creditOf_eq_some hs, h.find]
    by_cases hp : p.id = row.id
    · rw [if_pos hp]
      constructor
      · rintro ⟨he, hc⟩
        obtain rfl := Option.some.inj he
        exact absurd hc hr
      · rintro ⟨he, hc⟩
        exact absurd ((isCredit_iff_of_same (h.same p (hp ▸ he))).mpr hc) hr
    · rw [if_neg hp]

end Db

/-! ## The three changes -/

namespace EventCreditWrite

variable (write : EventCreditWrite) (env : Surroundings) (s : Db) (e : CreditRow)

/-- The row the upsert leaves behind. -/
def credited : Entry :=
  match s.creditOf write.cleanupId e.userId with
  | none => write.newEntry env e
  | some p => p.recredit (write.credit e) env.now

/-- Whoever writes the credit does not hold a live credit of the event from its user. -/
def Unreciprocated : Prop :=
  ∀ p ∈ s.creditOf write.cleanupId write.loggedByUserId, p.Live → ∀ x ∈ p.loggedByUserId,
    x ≠ write.loggedByUserId → x ≠ e.userId

end EventCreditWrite

/-- The three statements of a void, made on the row it found. -/
def voidWrites (env : Surroundings) (args : OperatorVoidArgs) (row : Entry) : List Write :=
  Write.voidEntry row.id row.userId row.cleanupId args.operatorId args.reason env.now ::
  List.append (row.journaled.toList.map (fun c => Write.insertAudit ⟨c, row.userId, args.operatorId,
    some row.hours, 0⟩))
    (row.jurisdictionGeoid.toList.map (fun g => Write.subtractHours row.userId g row.hours))

/-- One change of the ledger; `A` says which credits may be made. Only where all spellings of an
event's id are one lock does the check of a host still hold at the commit. -/
inductive Change (byValue : Bool) (A : EventCreditWrite → CreditRow → Prop) (s : Db) : Db → Prop where
  | credit (env : Surroundings) (write : EventCreditWrite) (e : CreditRow) (hA : A write e)
      (htakes : write.Takes s e) (hhours : 0 < e.hours)
      (hid : s.creditOf write.cleanupId e.userId = none → s.entries.find? (env.newId e.userId) = none)
      (hrec : byValue = true → write.creditedByOperatorId = none → write.Unreciprocated s e) :
      Change byValue A s (engine.applyAll s (write.creditWrites env s e))
  | manual (env : Surroundings) (args : OperatorManualCreditArgs) (hhours : 0 < args.hours)
      (hid : s.entries.find? (env.newId args.userId.value) = none) :
      Change byValue A s (engine.applyAll s [.insertEntry (manualEntry env args)])
  | void (env : Surroundings) (args : OperatorVoidArgs) (row : Entry) (hrow : s.entries.find? row.id = some row)
      (hlive : row.Live) (hsource : row.source ≠ .report) :
      Change byValue A s (engine.applyAll s (voidWrites env args row))

/-- The changes of one transaction, one after the other. -/
abbrev Changes (byValue : Bool) (A : EventCreditWrite → CreditRow → Prop) : Db → Db → Prop :=
  Relation.ReflTransGen (Change byValue A)

namespace Db

variable (s : Db)

@[simp] theorem entries_addHours (u : Id) (g : Geoid) (d : ℤ) : (s.addHours u g d).entries = s.entries := rfl

@[simp] theorem audit_addHours (u : Id) (g : Geoid) (d : ℤ) : (s.addHours u g d).audit = s.audit := rfl

end Db

namespace Db

theorem applyAll_addHours (s : Db) (u : Id) (ds : List (Geoid × ℤ)) :
    (engine.applyAll s (ds.map (fun d => .addHours u d.1 d.2))).entries = s.entries ∧
    (engine.applyAll s (ds.map (fun d => .addHours u d.1 d.2))).audit = s.audit ∧
    ∀ u' g, (engine.applyAll s (ds.map (fun d => .addHours u d.1 d.2))).hoursIn u' g =
      s.hoursIn u' g + if u' = u then ((ds.filter (fun d => decide (d.1 = g))).map Prod.snd).sum else 0 := by
  induction ds generalizing s with
  | nil => simp
  | cons d ds ih =>
    obtain ⟨he, ha, hh⟩ := ih (s.addHours u d.1 d.2)
    refine ⟨he, ha, fun u' g => (hh u' g).trans ?_⟩
    rw [hoursIn_addHours]
    by_cases hu : u' = u
    · by_cases hg : d.1 = g
      · simp [hu, hg, add_assoc]
      · have hg' : ¬ g = d.1 := fun h => hg h.symm
        simp [hu, hg, hg']
    · simp [hu]

end Db

namespace EventCreditWrite

variable (write : EventCreditWrite) (env : Surroundings) (s : Db) (e : CreditRow)

/-- What a held credit of the user counts for a jurisdiction. -/
def heldIn (p : Entry) (g : Geoid) : ℕ := if p.heldGeoid = some g then p.heldHours else 0

theorem sum_deltas (g : Geoid) : (((write.deltas s e).filter (fun d => decide (d.1 = g))).map Prod.snd).sum =
    ((if write.geoid = some g then e.hours.toNat else 0 : ℕ) : ℤ) -
      ((s.creditOf write.cleanupId e.userId).elim 0 (heldIn · g) : ℕ) := by
  cases hc : s.creditOf write.cleanupId e.userId with
  | none =>
    cases hg : write.geoid with
    | none => simp [deltas, hc, hg]
    | some g' => by_cases hgg : g' = g <;> simp [deltas, delta, hc, hg, hgg]
  | some p =>
    cases hh : p.heldGeoid with
    | none =>
      cases hg : write.geoid with
      | none => simp [deltas, hc, hg, hh, heldIn]
      | some g' => by_cases hgg : g' = g <;> simp [deltas, delta, hc, hg, hgg, hh, heldIn]
    | some h =>
      cases hg : write.geoid with
      | none => by_cases hhg : h = g <;> simp [deltas, hc, hg, hh, heldIn, hhg]
      | some g' =>
        by_cases hgg : g' = g
        · by_cases hhg : h = g'
          · simp [deltas, delta, hc, hg, hh, heldIn, hhg, hgg]
          · simp [deltas, delta, hc, hg, hh, heldIn, hgg, hgg ▸ hhg]
        · by_cases hhg : h = g'
          · simp [deltas, delta, hc, hg, hh, heldIn, hhg, hgg]
          · by_cases hhg' : h = g
            · subst hhg'
              simp [deltas, delta, hc, hg, hh, heldIn, hhg, hgg]
            · simp [deltas, delta, hc, hg, hh, heldIn, hhg, hgg, hhg']

/-! ### One credit: one row, one journal line, one move of the rollup -/

theorem credited_userId : (write.credited env s e).userId = e.userId := by
  unfold credited
  split
  · rfl
  · next p hp => exact (Db.find?_creditOf hp).2.2.2

theorem credited_isCredit : (write.credited env s e).IsCredit write.cleanupId e.userId := by
  unfold credited
  split
  · exact ⟨rfl, rfl, rfl⟩
  · next p hp => exact (Db.find?_creditOf hp).2

variable {write env s e}

theorem puts_credit
    (hid : s.creditOf write.cleanupId e.userId = none → s.entries.find? (env.newId e.userId) = none) :
    Db.Puts s (engine.applyAll s (write.creditWrites env s e)) (write.credited env s e) := by
  have hent : (engine.applyAll s (write.creditWrites env s e)).entries = (s.apply (write.rowWrite env s e)).entries :=
    (Db.applyAll_addHours _ e.userId (write.deltas s e)).1
  cases hc : s.creditOf write.cleanupId e.userId with
  | none =>
    have hnew : write.credited env s e = write.newEntry env e := by simp only [credited, hc]
    have hins : (s.apply (write.rowWrite env s e)).entries = s.entries.insert (write.newEntry env e) := by
      simp only [rowWrite, hc, Db.apply]
    have hfree : s.entries.find? (write.newEntry env e).id = none := hid hc
    rw [hnew]
    refine ⟨fun id => ?_, fun p hp => ?_, fun _ c u hcu => ?_, fun f => ?_⟩
    · rw [hent, hins, Table.find?_insert]
      split
      · next h => rw [h, hfree, Option.getD_none]
      · rfl
    · rw [hfree] at hp
      cases hp
    · obtain ⟨-, hcl, hus⟩ := hcu
      obtain rfl : write.cleanupId = c := Option.some.inj hcl
      obtain rfl : e.userId = u := hus
      exact hc
    · rw [hent, hins, Table.total_insert hfree, hfree, Option.elim_none, add_zero]
  | some p =>
    obtain ⟨hp, hpc⟩ := Db.find?_creditOf hc
    have hrow : write.credited env s e = p.recredit (write.credit e) env.now := by simp only [credited, hc]
    have hmod : (s.apply (write.rowWrite env s e)).entries = s.entries.modify p.id
        (.guarded e.userId write.cleanupId (.recredit (write.credit e) env.now))
        (Entry.guarded_recredit_id e.userId write.cleanupId (write.credit e) env.now) := by
      simp only [rowWrite, hc, Db.apply]
    have hguard : p.guarded e.userId write.cleanupId (.recredit (write.credit e) env.now) =
        p.recredit (write.credit e) env.now := if_pos ⟨hpc.2.2, hpc.2.1⟩
    have hid' : (p.recredit (write.credit e) env.now).id = p.id := rfl
    rw [hrow]
    refine ⟨fun id => ?_, fun q hq => ?_, fun hn => ?_, fun f => ?_⟩
    · rw [hent, hmod, Table.find?_modify, hid']
      split
      · next h => rw [h, hp, Option.map_some, hguard]
      · rfl
    · rw [hid', hp] at hq
      obtain rfl := Option.some.inj hq
      exact Entry.same_recredit _ _ _
    · rw [hid', hp] at hn
      cases hn
    · have h := s.entries.total_modify p.id _ (Entry.guarded_recredit_id e.userId write.cleanupId
        (write.credit e) env.now) f
      rw [hp, Option.elim_some, Option.elim_some, hguard] at h
      rw [hent, hmod, hid', hp, Option.elim_some]
      exact h

theorem audit_credit : (engine.applyAll s (write.creditWrites env s e)).audit = s.audit ++ [write.auditRow s e] := by
  refine (Db.applyAll_addHours _ e.userId (write.deltas s e)).2.1.trans ?_
  unfold rowWrite
  split <;> rfl

theorem hoursIn_credit (write : EventCreditWrite) (env : Surroundings) (s : Db) (e : CreditRow) (u : Id)
    (g : Geoid) : (engine.applyAll s (write.creditWrites env s e)).hoursIn u g =
    s.hoursIn u g + if u = e.userId then ((if write.geoid = some g then e.hours.toNat else 0 : ℕ) : ℤ) -
      ((s.creditOf write.cleanupId e.userId).elim 0 (heldIn · g) : ℕ) else 0 := by
  refine ((Db.applyAll_addHours _ e.userId (write.deltas s e)).2.2 u g).trans ?_
  rw [sum_deltas]
  congr 1
  unfold rowWrite
  split <;> rfl

end EventCreditWrite

/-! ### One void, one adjustment -/

section

variable {s : Db} {env : Surroundings}

/-- An UPDATE of a rollup row that is not there changes nothing. -/
theorem Db.hoursIn_subtractHours (u : Id) (g : Geoid) (h : ℕ) (u' : Id) (g' : Geoid) :
    (s.apply (.subtractHours u g h)).hoursIn u' g' = s.hoursIn u' g' -
      if (u', g') = (u, g) ∧ (s.jurisdictionHours.find? (u, g)).isSome then (h : ℤ) else 0 := by
  simp only [hoursIn, apply, Table.find?_modify]
  by_cases hk : (u', g') = (u, g)
  · rw [if_pos hk, hk]
    cases s.jurisdictionHours.find? (u, g) with
    | none => simp
    | some r => simp [JurisdictionHours.add, sub_eq_add_neg]
  · rw [if_neg hk, if_neg (fun h => hk h.1), sub_zero]

theorem applyAll_voidWrites (s : Db) (env : Surroundings) (args : OperatorVoidArgs) (row : Entry) :
    (engine.applyAll s (voidWrites env args row)).entries =
        (s.apply (.voidEntry row.id row.userId row.cleanupId args.operatorId args.reason env.now)).entries ∧
      (engine.applyAll s (voidWrites env args row)).audit =
        s.audit ++ row.journaled.toList.map (fun c => ⟨c, row.userId, args.operatorId, some row.hours, 0⟩) ∧
      ∀ u g, (engine.applyAll s (voidWrites env args row)).hoursIn u g = s.hoursIn u g -
        if u = row.userId ∧ row.jurisdictionGeoid = some g ∧ (s.jurisdictionHours.find? (u, g)).isSome
        then (row.hours : ℤ) else 0 := by
  have hrollup : ∀ s' : Db, s'.jurisdictionHours = s.jurisdictionHours → ∀ u g,
      (engine.applyAll s' (row.jurisdictionGeoid.toList.map
        (fun g => .subtractHours row.userId g row.hours))).hoursIn u g =
        s.hoursIn u g - if u = row.userId ∧ row.jurisdictionGeoid = some g ∧ (s.jurisdictionHours.find? (u, g)).isSome
          then (row.hours : ℤ) else 0 := by
    intro s' hs' u g
    have hin : s'.hoursIn u g = s.hoursIn u g := by rw [Db.hoursIn, Db.hoursIn, hs']
    cases hg : row.jurisdictionGeoid with
    | none => simpa using hin
    | some g' =>
      refine (Db.hoursIn_subtractHours row.userId g' row.hours u g).trans ?_
      rw [hin, hs']
      congr 1
      by_cases hk : (u, g) = (row.userId, g')
      · obtain ⟨rfl, rfl⟩ := Prod.mk.inj hk
        simp
      · have hk' : ¬ (u = row.userId ∧ some g' = some g ∧ (s.jurisdictionHours.find? (u, g)).isSome = true) :=
          fun h => hk (by rw [h.1, Option.some.inj h.2.1])
        rw [if_neg (fun h => hk h.1), if_neg hk']
  cases hj : row.journaled with
  | none =>
    simp only [voidWrites, hj, Option.toList_none, List.map_nil, List.append_eq, List.nil_append, Engine.applyAll_cons]
    refine ⟨?_, ?_, hrollup _ rfl⟩ <;> cases row.jurisdictionGeoid <;> simp [engine, ledgerEngine, Engine.applyAll, Db.apply]
  | some c =>
    simp only [voidWrites, hj, Option.toList_some, List.map_cons, List.map_nil, List.append_eq, List.cons_append,
      List.nil_append, Engine.applyAll_cons]
    refine ⟨?_, ?_, hrollup _ rfl⟩ <;> cases row.jurisdictionGeoid <;> simp [engine, ledgerEngine, Engine.applyAll, Db.apply]

theorem puts_void (env : Surroundings) (args : OperatorVoidArgs) {row : Entry}
    (hrow : s.entries.find? row.id = some row) :
    Db.Puts s (engine.applyAll s (voidWrites env args row)) (row.void args.operatorId args.reason env.now) := by
  have hent := (applyAll_voidWrites s env args row).1
  have hguard : row.guarded row.userId row.cleanupId (.void args.operatorId args.reason env.now) =
      row.void args.operatorId args.reason env.now := if_pos ⟨rfl, rfl⟩
  have hid : (row.void args.operatorId args.reason env.now).id = row.id := rfl
  refine ⟨fun id => ?_, fun q hq => ?_, fun hn => ?_, fun f => ?_⟩
  · rw [hent, Db.apply, Table.find?_modify, hid]
    split
    · next h => rw [h, hrow, Option.map_some, hguard]
    · rfl
  · rw [hid, hrow] at hq
    obtain rfl := Option.some.inj hq
    exact Entry.same_void _ _ _ _
  · rw [hid, hrow] at hn
    cases hn
  · have h := s.entries.total_modify row.id _
      (Entry.guarded_void_id row.userId row.cleanupId args.operatorId args.reason env.now) f
    rw [hrow, Option.elim_some, Option.elim_some, hguard] at h
    rw [hent, hid, hrow, Option.elim_some]
    exact h

theorem puts_manual {args : OperatorManualCreditArgs} (hid : s.entries.find? (env.newId args.userId.value) = none) :
    Db.Puts s (engine.applyAll s [.insertEntry (manualEntry env args)]) (manualEntry env args) := by
  have hfree : s.entries.find? (manualEntry env args).id = none := hid
  refine ⟨fun id => ?_, fun p hp => ?_, fun _ c u hcu => ?_, fun f => ?_⟩
  · refine (s.entries.find?_insert (manualEntry env args) id).trans ?_
    split
    · next h => rw [h, hfree, Option.getD_none]
    · rfl
  · rw [hfree] at hp
    cases hp
  · cases hcu.1
  · rw [hfree, Option.elim_none, add_zero]
    exact Table.total_insert hfree f

end

theorem Change.indexed {byValue : Bool} {A : EventCreditWrite → CreditRow → Prop} {s s' : Db}
    (h : Change byValue A s s') (hs : s.Indexed) : s'.Indexed := by
  cases h with
  | credit env write e _ _ _ hid _ => exact (EventCreditWrite.puts_credit hid).indexed hs
  | manual env args _ hid => exact (puts_manual hid).indexed hs
  | void env args row hrow _ _ => exact (puts_void env args hrow).indexed hs

end Civfix.VolunteerHours
