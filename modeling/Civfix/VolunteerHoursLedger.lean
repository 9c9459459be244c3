import Civfix.Schedules
import Civfix.VolunteerHoursRules

/-! # The volunteer-hours ledger over whole runs

Three invariants of every interleaving. The rollup of a user in a jurisdiction is the sum of
the user's live event entries there, so the total query counts every live entry once. The
journal of a credit is a chain whose last line is what the entry holds. And among the live
credits of an event that its hosts made, no two users credited each other, as long as the
transactions that are in progress at once spell the event's id alike: the first two rest on the
users' locks, the third on the lock of the event. -/
namespace Civfix.VolunteerHours

open KeyedTables LockedTransactions SpelledIds

abbrev World := Engine.World Db Write Lock Failure Operation Unit

namespace Db

/-- The tables as the current writers found them: report credits are void, the rollup of
their hours is zero, and no credit has been journaled. -/
structure Fresh (s : Db) : Prop where
  entries : ∀ e ∈ s.entries.rows, e.source = .report ∧ ¬ e.Live
  rollup : ∀ r ∈ s.jurisdictionHours.rows, r.totalHours = 0
  audit : s.audit = []

/-- The sum of hours over the live event entries of the user in the jurisdiction. -/
def liveEventHours (s : Db) (u : Id) (g : Geoid) : ℕ :=
  ((s.entries.rows.filter (fun e => decide (e.userId = u ∧ e.source = .event ∧ e.Live ∧
    e.jurisdictionGeoid = some g))).map Entry.hours).sum

/-- The sum of hours over every live entry of the user that the total query counts. -/
def liveHours (s : Db) (u : Id) : ℕ :=
  ((s.entries.rows.filter (fun e => decide (e.userId = u ∧ e.Live ∧ e.source ≠ .report))).map Entry.hours).sum

theorem Fresh.find? {s : Db} (h : s.Fresh) {id : Id} {e : Entry} (he : s.entries.find? id = some e) :
    e.source = .report ∧ ¬ e.Live := h.entries e (Table.find?_eq_some he).1

theorem Fresh.indexed {s : Db} (h : s.Fresh) : s.Indexed := by
  intro c u p q hp _ hc _
  have hr := (h.find? hp).1
  rw [hc.1] at hr
  cases hr

end Db

/-! ## The rollup -/

/-- What an entry counts for a user in a jurisdiction. -/
def Entry.weight (u : Id) (g : Geoid) (e : Entry) : ℕ :=
  if e.userId = u ∧ e.source = .event ∧ e.Live ∧ e.jurisdictionGeoid = some g then e.hours else 0

namespace Db

structure Exact (s : Db) : Prop where
  indexed : s.Indexed
  positive : s.entries.All (fun e => e.source ≠ .report → 0 < e.hours)
  manual : s.entries.All (fun e => e.source = .manual → e.jurisdictionGeoid = none)
  rollup : ∀ u g, s.hoursIn u g = s.entries.total (Entry.weight u g)

theorem liveEventHours_eq (s : Db) (u : Id) (g : Geoid) : s.liveEventHours u g = s.entries.total (Entry.weight u g) :=
  s.entries.sum_filter _ Entry.hours

theorem Puts.all {P : Entry → Prop} {s s' : Db} {row : Entry} (h : Puts s s' row) (hs : s.entries.All P)
    (hrow : P row) :
    s'.entries.All P := by
  intro id e he
  rw [h.find] at he
  split at he
  · exact Option.some.inj he ▸ hrow
  · exact hs id e he

theorem Fresh.exact {s : Db} (h : s.Fresh) : s.Exact := by
  refine ⟨h.indexed, ?_, ?_, ?_⟩
  · intro id e he hne
    exact absurd (h.find? he).1 hne
  · intro id e he hm
    rw [(h.find? he).1] at hm
    cases hm
  · intro u g
    have hzero : s.hoursIn u g = 0 := by
      unfold hoursIn
      cases hf : s.jurisdictionHours.find? (u, g) with
      | none => rfl
      | some r => exact h.rollup r (Table.find?_eq_some hf).1
    have htotal : s.entries.total (Entry.weight u g) = s.entries.total (fun _ => 0) := by
      refine Table.total_congr fun e he => ?_
      exact if_neg fun hw => (h.entries e he).2 hw.2.2.1
    rw [hzero, htotal]
    simp [Table.total]

end Db

namespace EventCreditWrite

variable {write : EventCreditWrite} {env : Surroundings} {s : Db} {e : CreditRow}

theorem weight_credited (u : Id) (g : Geoid) : (write.credited env s e).weight u g =
    if u = e.userId then (if write.geoid = some g then e.hours.toNat else 0) else 0 := by
  have hc := write.credited_isCredit env s e
  have hlive : (write.credited env s e).Live := by
    unfold credited
    split <;> rfl
  have hgeoid : (write.credited env s e).jurisdictionGeoid = write.geoid := by
    unfold credited
    split <;> rfl
  have hhours : (write.credited env s e).hours = e.hours.toNat := by
    unfold credited
    split <;> rfl
  unfold Entry.weight
  rw [hc.2.2, hc.1, hgeoid, hhours]
  by_cases hu : u = e.userId
  · simp [hu, hlive]
  · have hu' : ¬ e.userId = u := fun h => hu h.symm
    simp [hu, hu']

theorem weight_held {p : Entry} (hp : p.IsCredit write.cleanupId e.userId) (u : Id) (g : Geoid) :
    p.weight u g = if u = e.userId then heldIn p g else 0 := by
  unfold Entry.weight heldIn Entry.heldGeoid Entry.heldHours
  rw [hp.1, hp.2.2]
  by_cases hu : u = e.userId
  · by_cases hl : p.Live <;> simp [hu, hl]
  · have hu' : ¬ e.userId = u := fun h => hu h.symm
    simp [hu, hu']

theorem elim_weight (u : Id) (g : Geoid) : (s.creditOf write.cleanupId e.userId).elim 0 (Entry.weight u g) =
    if u = e.userId then (s.creditOf write.cleanupId e.userId).elim 0 (heldIn · g) else 0 := by
  cases hc : s.creditOf write.cleanupId e.userId with
  | none => simp
  | some p => exact weight_held (Db.find?_creditOf hc).2 u g

theorem find?_credited
    (hid : s.creditOf write.cleanupId e.userId = none → s.entries.find? (env.newId e.userId) = none) :
    s.entries.find? (write.credited env s e).id = s.creditOf write.cleanupId e.userId := by
  unfold credited
  split
  · next hc => exact (hid hc).trans hc.symm
  · next p hp => exact (Db.find?_creditOf hp).1.trans hp.symm

end EventCreditWrite

theorem Change.exact {byValue : Bool} {A : EventCreditWrite → CreditRow → Prop} {s s' : Db}
    (h : Change byValue A s s') (hs : s.Exact) : s'.Exact := by
  refine ⟨h.indexed hs.indexed, ?_, ?_, ?_⟩
  · cases h with
    | credit env write e _ _ hhours hid _ =>
      refine (EventCreditWrite.puts_credit hid).all hs.positive fun _ => ?_
      unfold EventCreditWrite.credited
      split <;> simpa [EventCreditWrite.newEntry, Entry.recredit, EventCreditWrite.credit] using hhours
    | manual env args hhours hid =>
      exact (puts_manual hid).all hs.positive fun _ => by simpa [manualEntry] using hhours
    | void env args row hrow _ _ => exact (puts_void env args hrow).all hs.positive (hs.positive row.id row hrow)
  · cases h with
    | credit env write e _ _ _ hid _ =>
      refine (EventCreditWrite.puts_credit hid).all hs.manual fun hm => ?_
      rw [(write.credited_isCredit env s e).1] at hm
      cases hm
    | manual env args _ hid => exact (puts_manual hid).all hs.manual fun _ => rfl
    | void env args row hrow _ _ => exact (puts_void env args hrow).all hs.manual (hs.manual row.id row hrow)
  · intro u g
    have hold := hs.rollup u g
    cases h with
    | credit env write e _ _ _ hid _ =>
      have htotal := (EventCreditWrite.puts_credit hid).total (Entry.weight u g)
      rw [EventCreditWrite.find?_credited hid, EventCreditWrite.elim_weight, EventCreditWrite.weight_credited] at htotal
      have hmove := write.hoursIn_credit env s e u g
      rw [hold] at hmove
      by_cases hu : u = e.userId
      · rw [if_pos hu, if_pos hu] at htotal
        rw [if_pos hu] at hmove
        generalize (if write.geoid = some g then e.hours.toNat else 0) = credited at htotal hmove
        omega
      · rw [if_neg hu, if_neg hu] at htotal
        rw [if_neg hu] at hmove
        omega
    | manual env args _ hid =>
      have htotal := (puts_manual hid).total (Entry.weight u g)
      have hfree : s.entries.find? (manualEntry env args).id = none := hid
      have hw : (manualEntry env args).weight u g = 0 := if_neg fun hw => by cases hw.2.1
      rw [hfree, Option.elim_none, hw] at htotal
      have hsame : (engine.applyAll s [Write.insertEntry (manualEntry env args)]).hoursIn u g = s.hoursIn u g := rfl
      rw [hsame, hold]
      omega
    | void env args row hrow hlive hsource =>
      have htotal := (puts_void env args hrow).total (Entry.weight u g)
      have hw : (row.void args.operatorId args.reason env.now).weight u g = 0 := if_neg fun hw => by cases hw.2.2.1
      have hfind : s.entries.find? (row.void args.operatorId args.reason env.now).id = some row := hrow
      rw [hfind, Option.elim_some, hw] at htotal
      rw [(applyAll_voidWrites s env args row).2.2 u g, hold]
      have hle := Table.le_total hrow (Entry.weight u g)
      by_cases hin : u = row.userId ∧ row.jurisdictionGeoid = some g
      · -- The entry is an event entry, and its hours make the rollup row positive.
        have hevent : row.source = .event := by
          cases hsrc : row.source with
          | event => rfl
          | report => exact absurd hsrc hsource
          | manual =>
            have hnone := hs.manual row.id row hrow hsrc
            rw [hin.2] at hnone
            cases hnone
        have hweight : row.weight u g = row.hours := if_pos ⟨hin.1.symm, hevent, hlive, hin.2⟩
        have hpos := hs.positive row.id row hrow hsource
        have hsome : (s.jurisdictionHours.find? (u, g)).isSome := by
          cases hf : s.jurisdictionHours.find? (u, g) with
          | some r => rfl
          | none =>
            simp only [Db.hoursIn, hf, Option.elim_none] at hold
            omega
        rw [if_pos ⟨hin.1, hin.2, hsome⟩]
        omega
      · have hweight : row.weight u g = 0 := if_neg fun hw => hin ⟨hw.1.symm, hw.2.2.2⟩
        rw [if_neg fun h => hin ⟨h.1, h.2.1⟩]
        omega

theorem program_keeps {I : Db → Prop} (hI : ∀ s s', Change false (fun _ _ => True) s s' → I s → I s')
    (hindexed : ∀ s, I s → s.Indexed) : engine.Keeps program I := by
  intro o s hs
  have hA : o.Credits (fun _ _ => True) := by
    cases o <;> simp [Operation.Credits]
  exact engine.wlp_mono (fun _ _ s' h => Changes.keeps hI h hs) (wlp_program o hA (hindexed s hs))

theorem exact_of_reachable {w : World} (h : Engine.Reachable engine program Db.Fresh w) : w.db.Exact :=
  h.invariant (fun _ hf => hf.exact) (program_keeps (fun _ _ hc hs => hc.exact hs) (fun _ hs => hs.indexed))

namespace Db

/-- The rows of the rollup that the query skips hold no hours. -/
theorem Exact.sum_positive {s : Db} (h : s.Exact) (u : Id) :
    ((s.jurisdictionHours.rows.filter (fun r => decide (r.userId = u ∧ 0 < r.totalHours))).map
        JurisdictionHours.totalHours).sum =
      ((((s.jurisdictionHours.rows.filter (fun r => decide (r.userId = u))).map JurisdictionHours.jurisdictionGeoid).map
        (fun g => s.entries.total (Entry.weight u g))).sum : ℕ) := by
  have hrow : ∀ r ∈ s.jurisdictionHours.rows, r.userId = u →
      r.totalHours = s.entries.total (Entry.weight u r.jurisdictionGeoid) := by
    intro r hr hu
    have hf : s.jurisdictionHours.find? (r.userId, r.jurisdictionGeoid) = some r := Table.mem_rows_iff.mp hr
    have hin := h.rollup u r.jurisdictionGeoid
    rw [hoursIn, ← hu, hf, Option.elim_some] at hin
    rw [← hu]
    exact hin
  generalize s.jurisdictionHours.rows = rows at hrow ⊢
  induction rows with
  | nil => rfl
  | cons r rs ih =>
    have hrs := ih fun x hx => hrow x (List.mem_cons_of_mem _ hx)
    by_cases hu : r.userId = u
    · have hr := hrow r (by simp) hu
      by_cases hpos : 0 < r.totalHours
      · simp only [List.filter_cons, hu, hpos, and_self, decide_true, ↓reduceIte, List.map_cons, List.sum_cons,
          Nat.cast_add]
        rw [hrs, hr]
      · simp only [List.filter_cons, hu, hpos, and_false, decide_false, decide_true, Bool.false_eq_true, ↓reduceIte,
          List.map_cons, List.sum_cons, Nat.cast_add]
        rw [hrs]
        omega
    · simp only [List.filter_cons, hu, false_and, decide_false, Bool.false_eq_true, ↓reduceIte]
      exact hrs

theorem nodup_geoids (s : Db) (u : Id) : ((s.jurisdictionHours.rows.filter (fun r => decide (r.userId = u))).map
    JurisdictionHours.jurisdictionGeoid).Nodup := by
  have hkeys := (List.filter_sublist (p := fun r => decide (r.userId = u))).map
    (fun r : JurisdictionHours => (r.userId, r.jurisdictionGeoid)) |>.nodup s.jurisdictionHours.nodup
  refine List.Nodup.of_map (fun g => (u, g)) ?_
  rw [List.map_map]
  refine (List.map_congr_left fun r hr => ?_) ▸ hkeys
  have hu : r.userId = u := by simpa using (List.mem_filter.mp hr).2
  simp [hu]

theorem Exact.totalHoursQuery {s : Db} (h : s.Exact) (u : Id) : s.totalHoursQuery u = s.liveHours u := by
  unfold Db.totalHoursQuery liveHours
  rw [h.sum_positive u, Table.sum_filter, Table.sum_filter]
  have hgroups := s.entries.sum_groups
    (fun e => if e.userId = u ∧ e.source = .event ∧ e.Live then e.jurisdictionGeoid else none) Entry.hours
    (s.nodup_geoids u)
  have hweight : ∀ g, s.entries.total (Entry.weight u g) = s.entries.total (fun e =>
      if (if e.userId = u ∧ e.source = .event ∧ e.Live then e.jurisdictionGeoid else none) = some g then e.hours
      else 0) := by
    intro g
    refine Table.total_congr fun e _ => ?_
    unfold Entry.weight
    by_cases hc : e.userId = u ∧ e.source = .event ∧ e.Live
    · simp [hc]
    · rw [if_neg fun hw => hc ⟨hw.1, hw.2.1, hw.2.2.1⟩, if_neg hc]
      simp
  simp only [hweight]
  rw [hgroups, ← Nat.cast_add, ← Table.total_add]
  congr 1
  refine Table.total_congr fun e he => ?_
  have hfind := Table.mem_rows_iff.mp he
  by_cases hlive : e.userId = u ∧ e.Live
  · obtain ⟨hu, hl⟩ := hlive
    cases hsrc : e.source with
    | report => simp
    | manual =>
      have hnone := h.manual _ e hfind hsrc
      simp [hu, hl, hnone]
    | event =>
      cases hg : e.jurisdictionGeoid with
      | none => simp [hu, hl]
      | some g =>
        -- The entry's hours are in the rollup, so the rollup has a row for its jurisdiction.
        have hin := h.rollup u g
        have hle := Table.le_total hfind (Entry.weight u g)
        have hw : e.weight u g = e.hours := if_pos ⟨hu, hsrc, hl, hg⟩
        have hpos := h.positive _ e hfind (by rw [hsrc]; simp)
        have hmem : g ∈ (s.jurisdictionHours.rows.filter (fun r => decide (r.userId = u))).map
            JurisdictionHours.jurisdictionGeoid := by
          cases hf : s.jurisdictionHours.find? (u, g) with
          | none =>
            rw [hoursIn, hf, Option.elim_none] at hin
            omega
          | some r =>
            obtain ⟨hr, hk⟩ := Table.find?_eq_some hf
            obtain ⟨hku, hkg⟩ := Prod.mk.inj hk
            refine List.mem_map.mpr ⟨r, List.mem_filter.mpr ⟨hr, by simpa using hku⟩, hkg⟩
        simp only [hu, hl, and_self, ↓reduceIte, Option.some.injEq]
        rw [if_pos ⟨g, hmem, rfl⟩]
        simp
  · have hno : ¬ (e.userId = u ∧ e.source = .event ∧ e.Live) := fun h => hlive ⟨h.1, h.2.2⟩
    have hno' : ¬ (e.userId = u ∧ e.Live ∧ e.source ≠ .report) := fun h => hlive ⟨h.1, h.2.1⟩
    have hno'' : ¬ (e.userId = u ∧ e.Live ∧ e.source ≠ .report ∧ e.jurisdictionGeoid = none) :=
      fun h => hlive ⟨h.1, h.2.1⟩
    rw [if_neg hno', if_neg hno'', if_neg hno]
    simp

end Db

/-- In every interleaving of credits, operator credits, adjustments and voids the rollup of a
user in a jurisdiction is the sum of the user's live event entries there, and the total
query returns the sum of the live entries it counts. -/
theorem rollup_exact {w : World} (h : Engine.Reachable engine program Db.Fresh w) (u : Id) (g : Geoid) :
    w.db.hoursIn u g = w.db.liveEventHours u g ∧ 0 ≤ w.db.hoursIn u g ∧
      w.db.totalHoursQuery u = w.db.liveHours u := by
  have hexact := exact_of_reachable h
  have hin : w.db.hoursIn u g = w.db.liveEventHours u g := by
    rw [Db.liveEventHours_eq]
    exact hexact.rollup u g
  exact ⟨hin, by rw [hin]; exact Int.natCast_nonneg _, hexact.totalHoursQuery u⟩

def sampleEnv (now base : ℕ) : Surroundings := ⟨now, fun u => base + u, fun _ => some 1⟩

/-- Two attendees are credited; one credit is voided; then the event has moved to another
jurisdiction and both are credited again, one of them with fewer hours. -/
def sampleOperations : List Operation :=
  Operation.logEventHours (sampleEnv 10 100) ⟨1, 5, some "06037", [⟨7, 300⟩, ⟨8, 200⟩], none, none⟩ ::
  Operation.voidEntry (sampleEnv 20 200) ⟨2, 7, 107, "wrong sheet"⟩ ::
  [Operation.logEventHours (sampleEnv 30 300) ⟨1, 5, some "06059", [⟨7, 250⟩, ⟨8, 200⟩], none, none⟩]

def emptyDb : Db := ⟨.empty _, .empty _, []⟩

theorem fresh_emptyDb : emptyDb.Fresh := ⟨by simp [emptyDb], by simp [emptyDb], rfl⟩

def sampleLedger : Db := sampleOperations.foldl (fun s o => (engine.exec (program o) s).2) emptyDb

theorem reachable_sampleLedger : Engine.Reachable engine program Db.Fresh (.quiet sampleLedger) :=
  (Engine.Reachable.init emptyDb fresh_emptyDb).serial sampleOperations

theorem rollup_exact_sampleLedger : sampleLedger.hoursIn 7 "06059" = 250 ∧
    sampleLedger.hoursIn 7 "06059" = sampleLedger.liveEventHours 7 "06059" ∧ 0 ≤ sampleLedger.hoursIn 7 "06059" ∧
      sampleLedger.totalHoursQuery 7 = sampleLedger.liveHours 7 :=
  ⟨by decide +kernel, rollup_exact reachable_sampleLedger 7 "06059"⟩

/-! ## The journal -/

/-- Journal lines in order of insertion: the first has no previous value, every other starts
where the one before it ended. -/
structure Chained (rows : List Audit) : Prop where
  null_iff : ∀ i r, rows[i]? = some r → (r.previousHours = none ↔ i = 0)
  link : ∀ i r r', rows[i]? = some r → rows[i + 1]? = some r' → r'.previousHours = some r.newHours

theorem Chained.nil : Chained [] := ⟨by simp, by simp⟩

theorem Chained.append {rows : List Audit} (h : Chained rows) {row : Audit}
    (hrow : row.previousHours = rows.getLast?.map Audit.newHours) : Chained (List.append rows [row]) := by
  rw [List.append_eq]
  have hlast : rows.getLast? = rows[rows.length - 1]? := List.getLast?_eq_getElem?
  constructor
  · intro i r hr
    rcases lt_or_ge i rows.length with hi | hi
    · rw [List.getElem?_append_left hi] at hr
      exact h.null_iff i r hr
    · rw [List.getElem?_append_right hi, List.getElem?_singleton] at hr
      split at hr
      · obtain rfl := Option.some.inj hr
        rw [hrow, hlast, Option.map_eq_none_iff, List.getElem?_eq_none_iff]
        omega
      · cases hr
  · intro i r r' hr hr'
    rcases lt_or_ge (i + 1) rows.length with hi | hi
    · rw [List.getElem?_append_left (by omega)] at hr
      rw [List.getElem?_append_left hi] at hr'
      exact h.link i r r' hr hr'
    · rw [List.getElem?_append_right hi, List.getElem?_singleton] at hr'
      split at hr'
      · obtain rfl := Option.some.inj hr'
        rw [List.getElem?_append_left (by omega)] at hr
        rw [hrow, hlast, show rows.length - 1 = i by omega, hr, Option.map_some]
      · cases hr'

namespace Db

/-- The lines of the journal about one credit. -/
def journal (s : Db) (c u : Id) : List Audit := s.audit.filter (fun a => decide (a.cleanupId = c ∧ a.userId = u))

/-- The hours a user holds for an event: none when the entry is void or absent. -/
def creditedHours (s : Db) (c u : Id) : ℕ := (s.creditOf c u).elim 0 Entry.heldHours

structure Journaled (s : Db) : Prop where
  indexed : s.Indexed
  chained : ∀ c u, Chained (s.journal c u)
  last : ∀ c u, (s.journal c u).getLast?.map Audit.newHours = (s.creditOf c u).map Entry.heldHours

variable {s s' : Db}

theorem Fresh.journaled (h : s.Fresh) : s.Journaled := by
  have hempty : ∀ c u, s.journal c u = [] := by
    intro c u
    rw [journal, h.audit, List.filter_nil]
  refine ⟨h.indexed, fun c u => hempty c u ▸ .nil, fun c u => ?_⟩
  have hnone : s.creditOf c u = none := creditOf_eq_none.mpr fun p hp hc => by
    have hr := (h.find? hp).1
    rw [hc.1] at hr
    cases hr
  rw [hempty, hnone]
  rfl

/-- A change that puts one credit and journals it keeps the journal. -/
theorem Journaled.put (h : s.Journaled) {row : Entry} {line : Audit} (hput : Puts s s' row)
    (haudit : s'.audit = s.audit ++ [line]) (hcredit : row.IsCredit line.cleanupId line.userId)
    (hprevious : line.previousHours = (s.creditOf line.cleanupId line.userId).map Entry.heldHours)
    (hnew : line.newHours = row.heldHours) : s'.Journaled := by
  have hjournal : ∀ c u, s'.journal c u =
      if line.cleanupId = c ∧ line.userId = u then List.append (s.journal c u) [line] else s.journal c u := by
    intro c u
    rw [journal, journal, haudit, List.filter_append]
    split
    · next hcu => simp [hcu]
    · next hcu => simp [hcu]
  have hiff : ∀ c u, row.IsCredit c u ↔ line.cleanupId = c ∧ line.userId = u := by
    intro c u
    constructor
    · exact fun hc => ⟨Option.some.inj (hcredit.2.1.symm.trans hc.2.1), hcredit.2.2.symm.trans hc.2.2⟩
    · rintro ⟨rfl, rfl⟩
      exact hcredit
  refine ⟨hput.indexed h.indexed, fun c u => ?_, fun c u => ?_⟩
  · rw [hjournal]
    split
    · next hcu =>
      obtain ⟨rfl, rfl⟩ := hcu
      exact (h.chained _ _).append (hprevious.trans (h.last _ _).symm)
    · exact h.chained c u
  · rw [hjournal, hput.creditOf h.indexed]
    by_cases hcu : line.cleanupId = c ∧ line.userId = u
    · rw [if_pos hcu, if_pos ((hiff c u).mpr hcu)]
      simp [hnew]
    · rw [if_neg hcu, if_neg (fun hc => hcu ((hiff c u).mp hc))]
      exact h.last c u

theorem Journaled.put_other (h : s.Journaled) {row : Entry} (hput : Puts s s' row) (haudit : s'.audit = s.audit)
    (hrow : ∀ c u, ¬ row.IsCredit c u) : s'.Journaled := by
  have hjournal : ∀ c u, s'.journal c u = s.journal c u := fun c u => by rw [journal, journal, haudit]
  refine ⟨hput.indexed h.indexed, fun c u => hjournal c u ▸ h.chained c u, fun c u => ?_⟩
  rw [hjournal, hput.creditOf h.indexed, if_neg (hrow c u)]
  exact h.last c u

end Db

theorem Change.journaled {byValue : Bool} {A : EventCreditWrite → CreditRow → Prop} {s s' : Db}
    (h : Change byValue A s s') (hs : s.Journaled) : s'.Journaled := by
  cases h with
  | credit env write e _ _ _ hid _ =>
    refine hs.put (EventCreditWrite.puts_credit hid) EventCreditWrite.audit_credit
      (write.credited_isCredit env s e) rfl ?_
    unfold EventCreditWrite.credited
    split <;> rfl
  | manual env args _ hid => exact hs.put_other (puts_manual hid) rfl fun c u hc => by cases hc.1
  | void env args row hrow hlive _ =>
    have haudit := (applyAll_voidWrites s env args row).2.1
    cases hj : row.journaled with
    | some c =>
      rw [hj] at haudit
      have hcredit : row.IsCredit c row.userId := by
        unfold Entry.journaled at hj
        split at hj
        · next hsrc => exact ⟨hsrc, hj, rfl⟩
        · cases hj
      refine hs.put (puts_void env args hrow) haudit hcredit ?_ rfl
      rw [(Db.creditOf_eq_some hs.indexed).mpr ⟨hrow, hcredit⟩, Option.map_some, Entry.heldHours, if_pos hlive]
    | none =>
      rw [hj, Option.toList_none, List.map_nil, List.append_nil] at haudit
      refine hs.put_other (puts_void env args hrow) haudit fun c u hc => ?_
      have hsome : row.journaled = some c := (if_pos hc.1).trans hc.2.1
      rw [hj] at hsome
      cases hsome

/-- In every interleaving the journal of a credit is a gapless chain that ends at what the
entry holds. -/
theorem journal_chained {w : World} (h : Engine.Reachable engine program Db.Fresh w) (c u : Id) :
    Chained (w.db.journal c u) ∧
      ((w.db.journal c u).getLast?.map Audit.newHours).getD 0 = w.db.creditedHours c u := by
  have hj : w.db.Journaled := h.invariant (fun _ hf => hf.journaled)
    (program_keeps (fun _ _ hc hs => hc.journaled hs) (fun _ hs => hs.indexed))
  refine ⟨hj.chained c u, ?_⟩
  rw [hj.last, Db.creditedHours]
  cases w.db.creditOf c u <;> rfl

theorem journal_chained_sampleLedger : (sampleLedger.journal 5 7).map Audit.newHours = [300, 0, 250] ∧
    Chained (sampleLedger.journal 5 7) ∧
      ((sampleLedger.journal 5 7).getLast?.map Audit.newHours).getD 0 = sampleLedger.creditedHours 5 7 :=
  ⟨by decide +kernel, journal_chained reachable_sampleLedger 5 7⟩

/-! ## Reciprocity -/

/-- Calls that reach the ledger when no operator credits an event: a host's request, which
the service checks first, and the operator's adjustments and voids. -/
inductive HostCall where
  | logEventHours (env : Surroundings) (lookup : HoursLookup) (input : HoursRequest)
  | creditManual (env : Surroundings) (args : OperatorManualCreditArgs)
  | voidEntry (env : Surroundings) (args : OperatorVoidArgs)

def hostProgram (k : Contract) : HostCall → Stmt Unit
  | .logEventHours env lookup input =>
    match Service.logEventHours k lookup input with
    | .error f => .abort f
    | .ok args => program (.logEventHours env args)
  | .creditManual env args => program (.creditManual env args)
  | .voidEntry env args => program (.voidEntry env args)

abbrev HostWorld := Engine.World Db Write Lock Failure HostCall Unit

/-- A credit to somebody else than its writer, on behalf of no operator. -/
def ByHost (write : EventCreditWrite) (e : CreditRow) : Prop :=
  write.creditedByOperatorId = none ∧ e.userId ≠ write.loggedByUserId

theorem wlp_hostProgram (byValue : Bool) (k : Contract) (o : HostCall) {s : Db} (hs : s.Indexed) :
    Meets byValue [] s (hostProgram k o) (fun _ _ s' => Changes byValue ByHost s s') := by
  cases o with
  | logEventHours env lookup input =>
    cases hargs : Service.logEventHours k lookup input with
    | error f =>
      simp only [hostProgram, hargs]
      trivial
    | ok args =>
      simp only [hostProgram, hargs]
      exact wlp_program (.logEventHours env args) (fun e he => ⟨rfl, Service.logEventHours_ne_actor hargs e he⟩) hs
  | creditManual env args => exact wlp_program (.creditManual env args) trivial hs
  | voidEntry env args => exact wlp_program (.voidEntry env args) trivial hs

namespace Db

/-- Nobody holds a live credit of their own making. -/
structure Selfless (s : Db) : Prop where
  indexed : s.Indexed
  selfless : ∀ c x p, s.creditOf c x = some p → p.Live → p.loggedByUserId ≠ some x

/-- No live credit of the event answers another; with `x = y`, nobody credited themselves. -/
structure Unanswered (s : Db) : Prop where
  indexed : s.Indexed
  unanswered : ∀ c x y p q, s.creditOf c x = some p → p.Live → p.loggedByUserId = some y →
    s.creditOf c y = some q → q.Live → q.loggedByUserId ≠ some x

variable {s s' : Db}

theorem Fresh.creditOf (h : s.Fresh) (c x : Id) : s.creditOf c x = none := by
  refine creditOf_eq_none.mpr fun p hp hc => ?_
  have hr := (h.find? hp).1
  rw [hc.1] at hr
  cases hr

theorem Fresh.selfless (h : s.Fresh) : s.Selfless :=
  ⟨h.indexed, fun c x p hp => by rw [h.creditOf] at hp; cases hp⟩

theorem Fresh.unanswered (h : s.Fresh) : s.Unanswered :=
  ⟨h.indexed, fun c x y p q hp => by rw [h.creditOf] at hp; cases hp⟩

theorem creditOf_put_other (hs : s.Indexed) {row : Entry} (hput : Puts s s' row)
    (hrow : ∀ c u, row.IsCredit c u → ¬ row.Live) {c x : Id} {p : Entry} (hp : s'.creditOf c x = some p)
    (hl : p.Live) : s.creditOf c x = some p := by
  rw [hput.creditOf hs] at hp
  split at hp
  · next hc =>
    obtain rfl := Option.some.inj hp
    exact absurd hl (hrow c x hc)
  · exact hp

theorem Selfless.put_other (h : s.Selfless) {row : Entry} (hput : Puts s s' row)
    (hrow : ∀ c u, row.IsCredit c u → ¬ row.Live) : s'.Selfless :=
  ⟨hput.indexed h.indexed, fun c x p hp hl => h.selfless c x p (creditOf_put_other h.indexed hput hrow hp hl) hl⟩

theorem Unanswered.put_other (h : s.Unanswered) {row : Entry} (hput : Puts s s' row)
    (hrow : ∀ c u, row.IsCredit c u → ¬ row.Live) : s'.Unanswered := by
  have hold : ∀ c x p, s'.creditOf c x = some p → p.Live → s.creditOf c x = some p :=
    fun _ _ _ => creditOf_put_other h.indexed hput hrow
  refine ⟨hput.indexed h.indexed, fun c x y p q hp hpl hpy hq hql => ?_⟩
  exact h.unanswered c x y p q (hold c x p hp hpl) hpl hpy (hold c y q hq hql) hql

end Db

section HostCredits

variable {byValue : Bool} {write : EventCreditWrite} {env : Surroundings} {e : CreditRow} {s s' : Db}

theorem EventCreditWrite.credited_loggedBy : (write.credited env s e).loggedByUserId = some write.loggedByUserId := by
  unfold EventCreditWrite.credited
  split <;> rfl

/-- A credit of an event is the new row, at its own event and user, or one of the old ones. -/
theorem creditOf_credit_cases (hs : s.Indexed)
    (hid : s.creditOf write.cleanupId e.userId = none → s.entries.find? (env.newId e.userId) = none) {c x : Id}
    {p : Entry} (hp : (engine.applyAll s (write.creditWrites env s e)).creditOf c x = some p) :
    (c = write.cleanupId ∧ x = e.userId ∧ p = write.credited env s e) ∨ s.creditOf c x = some p := by
  have hcredit := write.credited_isCredit env s e
  rw [(EventCreditWrite.puts_credit hid).creditOf hs] at hp
  split at hp
  · next hc =>
    refine .inl ⟨?_, hc.2.2.symm.trans hcredit.2.2, (Option.some.inj hp).symm⟩
    exact Option.some.inj (hc.2.1.symm.trans hcredit.2.1)
  · exact .inr hp

theorem Change.selfless (h : Change byValue ByHost s s') (hs : s.Selfless) : s'.Selfless := by
  cases h with
  | credit env write e hby _ _ hid _ =>
    refine ⟨(EventCreditWrite.puts_credit hid).indexed hs.indexed, fun c x p hp hl hx => ?_⟩
    rcases creditOf_credit_cases hs.indexed hid hp with ⟨rfl, rfl, rfl⟩ | hp
    · exact hby.2 (Option.some.inj (EventCreditWrite.credited_loggedBy.symm.trans hx)).symm
    · exact hs.selfless c x p hp hl hx
  | manual env args _ hid => exact hs.put_other (puts_manual hid) fun c u hc => by cases hc.1
  | void env args row hrow _ _ =>
    exact hs.put_other (puts_void env args hrow) fun c u _ hl => by cases hl

theorem Change.unanswered (h : Change true ByHost s s') (hs : s.Unanswered) : s'.Unanswered := by
  cases h with
  | credit env write e hby _ _ hid hrec =>
    refine ⟨(EventCreditWrite.puts_credit hid).indexed hs.indexed, fun c x y p q hp hpl hpy hq hql hqx => ?_⟩
    rcases creditOf_credit_cases hs.indexed hid hp with ⟨rfl, rfl, rfl⟩ | hp
    · obtain rfl : write.loggedByUserId = y := Option.some.inj (EventCreditWrite.credited_loggedBy.symm.trans hpy)
      rcases creditOf_credit_cases hs.indexed hid hq with ⟨-, hy, -⟩ | hq
      · exact hby.2 hy.symm
      · exact hrec rfl hby.1 q hq hql e.userId hqx hby.2 rfl
    · rcases creditOf_credit_cases hs.indexed hid hq with ⟨rfl, rfl, rfl⟩ | hq
      · obtain rfl : write.loggedByUserId = x := Option.some.inj (EventCreditWrite.credited_loggedBy.symm.trans hqx)
        exact hrec rfl hby.1 p hp hpl e.userId hpy hby.2 rfl
      · exact hs.unanswered c x y p q hp hpl hpy hq hql hqx
  | manual env args _ hid => exact hs.put_other (puts_manual hid) fun c u hc => by cases hc.1
  | void env args row hrow _ _ =>
    exact hs.put_other (puts_void env args hrow) fun c u _ hl => by cases hl

end HostCredits

theorem hostProgram_keeps (byValue : Bool) (k : Contract) {I : Db → Prop}
    (hI : ∀ s s', Change byValue ByHost s s' → I s → I s') (hindexed : ∀ s, I s → s.Indexed) :
    (ledgerEngine byValue).Keeps (hostProgram k) I := by
  intro o s hs
  exact Engine.wlp_mono _ (fun _ _ s' hch => Changes.keeps hI hch hs) (wlp_hostProgram byValue k o (hindexed s hs))

/-- Two transactions in progress that hold the lock of one event spell its id alike. -/
def SpelledAlike (w : HostWorld) : Prop :=
  ∀ i j, i ≠ j → ∀ t u, w.sessions i = some t → w.sessions j = some u → ∀ a b, Lock.event a ∈ t.held →
    Lock.event b ∈ u.held → a.value = b.value → a = b

/-- The locks of one event then exclude each other whatever their spelling. -/
theorem reachable_byValue {program : HostCall → Stmt Unit} {w : HostWorld}
    (h : Engine.ReachableWithin engine program Db.Fresh SpelledAlike w) :
    Engine.Reachable (ledgerEngine true) program Db.Fresh w := by
  have happly : (ledgerEngine true).apply = engine.apply := rfl
  refine h.transfer happly fun w hw i j hij t u ht hu x hx y hy hc => ?_
  cases x with
  | event a =>
    cases y with
    | event b =>
      have hname : printed a.value = printed b.value := Lock.event.inj hc
      have hvalue : a.value = b.value := by simpa using congrArg IdText.value hname
      exact congrArg Lock.event (hw i j hij t u ht hu a b hx hy hvalue)
    | user _ | entryId _ => cases hc
  | user _ | entryId _ => cases y <;> first | exact hc | cases hc

/-- In every interleaving of the hosts' requests no live entry of an event is a user's credit of
themselves; and where the transactions in progress spell an event's id alike, no two live entries
are two users' credits of each other. -/
theorem no_reciprocal_credit (k : Contract) {w : HostWorld} (h : Engine.Reachable engine (hostProgram k) Db.Fresh w)
    (cleanupId x y : Id) (p q : Entry) (hp : p ∈ w.db.entries.rows) (hq : q ∈ w.db.entries.rows)
    (hpc : p.IsCredit cleanupId x) (hqc : q.IsCredit cleanupId y) (hpl : p.Live) (hql : q.Live) :
    (Engine.ReachableWithin engine (hostProgram k) Db.Fresh SpelledAlike w →
      ¬ (p.loggedByUserId = some y ∧ q.loggedByUserId = some x)) ∧ p.loggedByUserId ≠ some x := by
  have hself : w.db.Selfless := h.invariant (fun _ hf => hf.selfless)
    (hostProgram_keeps false k (fun _ _ hc hs => hc.selfless hs) (fun _ hs => hs.indexed))
  have hps := (Db.creditOf_eq_some hself.indexed).mpr ⟨Table.mem_rows_iff.mp hp, hpc⟩
  have hqs := (Db.creditOf_eq_some hself.indexed).mpr ⟨Table.mem_rows_iff.mp hq, hqc⟩
  refine ⟨fun hwithin hpq => ?_, hself.selfless cleanupId x p hps hpl⟩
  have hu : w.db.Unanswered := (reachable_byValue hwithin).invariant (fun _ hf => hf.unanswered)
    (hostProgram_keeps true k (fun _ _ hc hs => hc.unanswered hs) (fun _ hs => hs.indexed))
  exact hu.unanswered cleanupId x y p q hps hpl hpq.1 hqs hql hpq.2

def sampleContract : Contract where
  minEventHours := 25
  maxEventHours := 2400
  maxEventHoursEntries := 100
  minEventDurationMinutes := 15
  canManageEvent := fun standing => decide (standing.eventRole = some .organizer ∨ standing.eventRole = some .cohost)
  hasEventEnded := fun _ _ endsAt now => decide (endsAt ≤ now)
  weeklyFlagHours := none

def sampleLookup : HoursLookup where
  cleanup := some ⟨.done, .public, some "06037", 0, 14400000, none⟩
  standing := ⟨some .cohost, none⟩
  memberIds := [1, 7, 8]
  now := 20000000

/-- The event's locks that two listed sessions hold are spelled alike. -/
def spelledAlike (st : Engine.Stage Db Write Lock Failure HostCall Unit) : Bool :=
  st.active.all fun x => st.active.all fun y => x.2.held.all fun l => y.2.held.all fun l' =>
    decide (l.name true = l'.name true → l = l')

theorem SpelledAlike.of_stage {st : Engine.Stage Db Write Lock Failure HostCall Unit} (h : spelledAlike st = true) :
    SpelledAlike st.world := by
  intro i j _ t u ht hu a b ha hb hvalue
  have hall := List.all_eq_true.mp h _ (Engine.Stage.mem_of_lookup ht)
  have hall := List.all_eq_true.mp hall _ (Engine.Stage.mem_of_lookup hu)
  have hall := of_decide_eq_true (List.all_eq_true.mp (List.all_eq_true.mp hall _ ha) _ hb)
  exact Lock.event.inj (hall (by simp [Lock.name, hvalue]))

instance : DecidableRel engine.conflict := fun k l => inferInstanceAs (Decidable (k.name false = l.name false))

/-- A host credits a co-host, and when that has committed the co-host credits an attendee. -/
def inTurn : List (Engine.Act HostCall) :=
  .start 0 (.logEventHours (sampleEnv 10 100) sampleLookup ⟨5, 1, [⟨7, 3⟩]⟩) :: List.append
    (List.replicate 8 (.next 0))
    (.start 0 (.logEventHours (sampleEnv 20 200) sampleLookup ⟨5, 7, [⟨8, 2⟩]⟩) :: List.replicate 8 (.next 0))

theorem no_reciprocal_credit_inTurn : ∃ w : HostWorld, ∃ p ∈ w.db.entries.rows, ∃ q ∈ w.db.entries.rows,
    p.IsCredit 5 7 ∧ q.IsCredit 5 8 ∧ q.loggedByUserId = some 7 ∧
      ¬ (p.loggedByUserId = some 8 ∧ q.loggedByUserId = some 7) ∧ p.loggedByUserId ≠ some 7 := by
  have hrun : ∃ st ∈ Engine.perform engine (hostProgram sampleContract) (fun _ _ st => spelledAlike st) inTurn
      ⟨emptyDb, []⟩, ∃ p ∈ st.db.entries.rows, ∃ q ∈ st.db.entries.rows,
      p.IsCredit 5 7 ∧ q.IsCredit 5 8 ∧ p.Live ∧ q.Live ∧ q.loggedByUserId = some 7 := by decide +kernel
  obtain ⟨st, hst, p, hp, q, hq, hpc, hqc, hpl, hql, hby⟩ := hrun
  have hwithin : Engine.ReachableWithin engine (hostProgram sampleContract) Db.Fresh SpelledAlike st.world :=
    Engine.perform_induct (fun _ _ _ h hs hc => h.step hs (.of_stage hc)) (.init emptyDb fresh_emptyDb) hst
  obtain ⟨hreciprocal, hself⟩ :=
    no_reciprocal_credit sampleContract hwithin.reachable 5 7 8 p q hp hq hpc hqc hpl hql
  exact ⟨st.world, p, hp, q, hq, hpc, hqc, hby, hreciprocal hwithin, hself⟩

/-- A host and a co-host credit each other at once, and one of them writes the event's id in capitals. -/
def crosswise : List (Engine.Act HostCall) :=
  .start 0 (.logEventHours (sampleEnv 10 100) sampleLookup ⟨5, 1, [⟨7, 3⟩]⟩) ::
  .start 1 (.logEventHours (sampleEnv 10 200) sampleLookup ⟨⟨5, 1⟩, 7, [⟨1, 2⟩]⟩) ::
  List.append (List.replicate 4 (.next 0)) (List.append (List.replicate 8 (.next 1)) (List.replicate 4 (.next 0)))

/-- Each takes a lock of its own and finds no credit by the other. -/
theorem capitals_reciprocate :
    ¬ ∀ (k : Contract) (w : HostWorld), Engine.Reachable engine (hostProgram k) Db.Fresh w →
      ∀ (cleanupId x y : Id) (p q : Entry), p ∈ w.db.entries.rows → q ∈ w.db.entries.rows → p.IsCredit cleanupId x →
        q.IsCredit cleanupId y → p.Live → q.Live →
        ¬ (p.loggedByUserId = some y ∧ q.loggedByUserId = some x) ∧ p.loggedByUserId ≠ some x := by
  intro hclaim
  have hrun : ∃ st ∈ Engine.perform engine (hostProgram sampleContract) (fun _ _ _ => true) crosswise ⟨emptyDb, []⟩,
      ∃ p ∈ st.db.entries.rows, ∃ q ∈ st.db.entries.rows, p.IsCredit 5 7 ∧ q.IsCredit 5 1 ∧ p.Live ∧ q.Live ∧
        p.loggedByUserId = some 1 ∧ q.loggedByUserId = some 7 := by decide +kernel
  obtain ⟨st, hst, p, hp, q, hq, hpc, hqc, hpl, hql, hpq⟩ := hrun
  exact (hclaim sampleContract st.world (Engine.reachable_of_perform fresh_emptyDb hst) 5 7 1 p q hp hq hpc hqc hpl
    hql).1 hpq

end Civfix.VolunteerHours
