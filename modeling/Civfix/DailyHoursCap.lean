import Civfix.CreditedDays
import Civfix.EventWindows

/-! # The daily cap on credited hours

The hours of a user on a day are a total over the ledger with the weight `onDay`, which dates event
entries by the dates that the events have now. A credit changes the total of its own user on its own
day only, and there it was checked; an edit that leaves the date of every credited event alone
changes nothing. An edit that moves the date of a credited event moves its hours to a day on which
nobody checked them: the time zone of an event can still be edited after the event has ended. And the
check looks the held hours up by the text of the user's id, and finds none under another spelling than
the database's. -/
namespace Civfix.CreditedDays

open KeyedTables InterleavedCalls
open SpelledIds
open VolunteerHours (Id Day Lock Entry Surroundings CreditRow EventHoursEntry EventCreditWrite LogEventHoursArgs
  OperatorEventCreditArgs OperatorManualCreditArgs OperatorVoidArgs engine dailyHoursCap creditedHoursOnDay)

/-! ## The weight of an entry on a day -/

section Weight

variable (date : Id → Option Day) (d : Day)

/-- The hours that an entry counts for the user on the day, the event `x` apart. -/
def onDay (x : Option Id) (u : Id) (e : Entry) : ℕ :=
  if e.userId = u ∧ e.Live ∧ ((e.source = .event ∧ e.cleanupId.bind date = some d ∧ e.cleanupId ≠ x) ∨
      (e.source = .manual ∧ e.serviceDate = some d)) then e.hours else 0

variable {date d} {x : Option Id} {u : Id} {e : Entry}

theorem creditedHoursOnDay_eq (env : Surroundings) (s : VolunteerHours.Db) :
    creditedHoursOnDay env (some d) x s u = s.entries.total (onDay env.localDate d x u) :=
  s.entries.sum_filter _ Entry.hours

theorem onDay_of_user_ne (h : e.userId ≠ u) : onDay date d x u e = 0 := if_neg fun hw => h hw.1

theorem onDay_of_not_live (h : ¬ e.Live) : onDay date d x u e = 0 := if_neg fun hw => h hw.2.1

theorem onDay_of_date_ne {c : Id} (hc : e.IsCredit c e.userId) (hd : date c ≠ some d) : onDay date d x u e = 0 := by
  refine if_neg fun hw => ?_
  rcases hw.2.2 with ⟨-, hdate, -⟩ | ⟨hm, -⟩
  · rw [hc.2.1] at hdate
    exact hd hdate
  · rw [hc.1] at hm
    cases hm

theorem onDay_excluded {c : Id} (hc : e.IsCredit c e.userId) : onDay date d (some c) u e = 0 := by
  refine if_neg fun hw => ?_
  rcases hw.2.2 with ⟨-, -, hne⟩ | ⟨hm, -⟩
  · exact hne hc.2.1
  · rw [hc.1] at hm
    cases hm

/-- Leaving out an event takes away the user's credit of it at most. -/
theorem onDay_le (c : Id) : onDay date d none u e ≤ onDay date d (some c) u e +
    if e.IsCredit c u then e.heldHours else 0 := by
  by_cases hw : e.userId = u ∧ e.Live ∧ ((e.source = .event ∧ e.cleanupId.bind date = some d ∧ e.cleanupId ≠ none) ∨
      (e.source = .manual ∧ e.serviceDate = some d))
  · have hnone : onDay date d none u e = e.hours := if_pos hw
    by_cases hc : e.IsCredit c u
    · rw [hnone, if_pos hc, Entry.heldHours, if_pos hw.2.1]
      exact Nat.le_add_left _ _
    · have hsome : onDay date d (some c) u e = e.hours := by
        refine if_pos ⟨hw.1, hw.2.1, hw.2.2.imp (fun ⟨he, hd, _⟩ => ⟨he, hd, fun hx => hc ⟨he, hx, hw.1⟩⟩) id⟩
      rw [hnone, hsome]
      exact Nat.le_add_right _ _
  · have hnone : onDay date d none u e = 0 := if_neg hw
    rw [hnone]
    exact Nat.zero_le _

/-- The weight reads the dates of live event entries only. -/
theorem onDay_congr {date' : Id → Option Day}
    (h : ∀ c, e.source = .event → e.Live → e.cleanupId = some c → date' c = date c) :
    onDay date' d x u e = onDay date d x u e := by
  have hbind : e.source = .event → e.Live → e.cleanupId.bind date' = e.cleanupId.bind date := by
    intro he hl
    cases hc : e.cleanupId with
    | none => rfl
    | some c => exact h c he hl hc
  refine if_congr ?_ rfl rfl
  refine and_congr_right fun _ => and_congr_right fun hl => or_congr_left ?_
  exact and_congr_right fun he => by rw [hbind he hl]

end Weight

section Totals

variable {s s' : VolunteerHours.Db} {date : Id → Option Day} {d : Day}

/-- A user's day is the day without the event, and the user's credit of the event. -/
theorem total_onDay_le (hs : s.Indexed) (date : Id → Option Day) (d : Day) (c u : Id) :
    s.entries.total (onDay date d none u) ≤
    s.entries.total (onDay date d (some c) u) + (s.creditOf c u).elim 0 Entry.heldHours := by
  have hle : s.entries.total (onDay date d none u) ≤ s.entries.total (onDay date d (some c) u) +
      s.entries.total (fun e => if e.IsCredit c u then e.heldHours else 0) := by
    rw [← Table.total_add]
    exact List.sum_le_sum fun e _ => onDay_le c
  have hcredit : s.entries.total (fun e => if e.IsCredit c u then e.heldHours else 0) ≤
      (s.creditOf c u).elim 0 Entry.heldHours := by
    cases hc : s.creditOf c u with
    | none =>
      rw [Table.total_congr (g := fun _ => 0)]
      · simp [Table.total]
      · intro e he
        exact if_neg (VolunteerHours.Db.creditOf_eq_none.mp hc e (Table.mem_rows_iff.mp he))
    | some p =>
      obtain ⟨hp, hpc⟩ := VolunteerHours.Db.find?_creditOf hc
      have hle := Table.total_le_single (t := s.entries) (r := p)
        (f := fun e => if e.IsCredit c u then e.heldHours else 0) (by
        intro e he hne
        have hec : e.IsCredit c u := by
          by_contra hn
          exact hne (if_neg hn)
        exact hs c u e p (Table.mem_rows_iff.mp he) hp hec hpc)
      simpa [hpc] using hle
  omega

/-- A put moves the total of its own user only. -/
theorem total_put_of_ne {row : Entry} (h : VolunteerHours.Db.Puts s s' row) {f : Entry → ℕ} {u : Id}
    (hu : row.userId ≠ u)
    (hf : ∀ e, e.userId ≠ u → f e = 0) : s'.entries.total f = s.entries.total f := by
  have htotal := h.total f
  rw [hf row hu] at htotal
  have hold : (s.entries.find? row.id).elim 0 f = 0 := by
    cases hr : s.entries.find? row.id with
    | none => rfl
    | some p => exact hf p (by rw [← (h.same p hr).userId]; exact hu)
  omega

theorem total_put_of_zero {row : Entry} (h : VolunteerHours.Db.Puts s s' row) {f : Entry → ℕ} (hrow : f row = 0) :
    s'.entries.total f ≤ s.entries.total f := by
  have htotal := h.total f
  omega

end Totals

/-! ## What the writers do to the totals -/

/-- No user has more than the cap on any day, with the dates as they are. -/
def DatedWithin (date : Id → Option Day) (s : VolunteerHours.Db) : Prop :=
  ∀ u d, (s.entries.total (onDay date d none u) : ℤ) ≤ dailyHoursCap

/-- The entries of every other user are as they were. -/
def OnlyUsers (users : List Id) (s s' : VolunteerHours.Db) : Prop :=
  ∀ u ∉ users, ∀ f : Entry → ℕ, (∀ e, e.userId ≠ u → f e = 0) → s'.entries.total f = s.entries.total f

structure Written (date : Id → Option Day) (users : List Id) (s s' : VolunteerHours.Db) : Prop where
  indexed : s'.Indexed
  within : DatedWithin date s'
  others : OnlyUsers users s s'

section Writers

variable {s : VolunteerHours.Db} {env : Surroundings}

/-- One credit of an event, under the cap on what the user holds beside the event. -/
theorem within_credit {write : EventCreditWrite} {e : CreditRow} {d : Day} (hs : s.Indexed)
    (hd : env.localDate write.cleanupId = some d) (hwithin : DatedWithin env.localDate s)
    (hcap : (s.entries.total (onDay env.localDate d (some write.cleanupId) e.userId) : ℤ) +
    e.hours.toNat ≤ dailyHoursCap)
    (hid : s.creditOf write.cleanupId e.userId = none → s.entries.find? (env.newId e.userId) = none) :
    DatedWithin env.localDate (engine.applyAll s (write.creditWrites env s e)) ∧
    ∀ d' u, (engine.applyAll s (write.creditWrites env s e)).entries.total
      (onDay env.localDate d' (some write.cleanupId) u) =
      s.entries.total (onDay env.localDate d' (some write.cleanupId) u) := by
  have hput := EventCreditWrite.puts_credit hid
  have hrow := write.credited_isCredit env s e
  have hcredit : (write.credited env s e).IsCredit write.cleanupId (write.credited env s e).userId :=
    ⟨hrow.1, hrow.2.1, rfl⟩
  -- The row that the credit replaces is of the same event.
  have hold : ∀ f : Entry → ℕ, (∀ x, x.IsCredit write.cleanupId x.userId → f x = 0) →
      (engine.applyAll s (write.creditWrites env s e)).entries.total f = s.entries.total f := by
    intro f hf
    have htotal := hput.total f
    have hzero : (s.entries.find? (write.credited env s e).id).elim 0 f = 0 := by
      cases hr : s.entries.find? (write.credited env s e).id with
      | none => rfl
      | some p =>
        have hsame := hput.same p hr
        exact hf p ⟨hsame.source ▸ hrow.1, hsame.cleanupId ▸ hrow.2.1, rfl⟩
    rw [hf _ hcredit] at htotal
    omega
  have hexcl : ∀ d' u, (engine.applyAll s (write.creditWrites env s e)).entries.total
      (onDay env.localDate d' (some write.cleanupId) u) =
        s.entries.total (onDay env.localDate d' (some write.cleanupId) u) :=
    fun d' u => hold (onDay env.localDate d' (some write.cleanupId) u) fun x hx => onDay_excluded hx
  refine ⟨fun u d' => ?_, hexcl⟩
  by_cases hday : d' = d
  · subst hday
    by_cases hu : e.userId = u
    · subst hu
      have hle := total_onDay_le (hput.indexed hs) env.localDate d' write.cleanupId e.userId
      have hheld : (write.credited env s e).heldHours = e.hours.toNat := by
        unfold EventCreditWrite.credited
        split <;> rfl
      rw [hput.creditOf hs, if_pos hrow, Option.elim_some, hheld, hexcl] at hle
      omega
    · rw [total_put_of_ne hput (by rw [hrow.2.2]; exact hu) fun x hx => onDay_of_user_ne hx]
      exact hwithin u d'
  · rw [hold _ fun x hx => onDay_of_date_ne hx (by rw [hd]; simpa using Ne.symm hday)]
    exact hwithin u d'

theorem written_credits (env : Surroundings) {write : EventCreditWrite} {d : Day} {es : List CreditRow}
    {ws : List VolunteerHours.Write}
    (hs : s.Indexed) (hd : env.localDate write.cleanupId = some d) (hwithin : DatedWithin env.localDate s)
    (hcap : ∀ e ∈ write.entries,
      (s.entries.total (onDay env.localDate d (some write.cleanupId) e.userId) : ℤ) + e.hours ≤ dailyHoursCap)
    (h : write.outcome env s = .ok (es, ws)) :
    Written env.localDate (write.entries.map CreditRow.userId) s (engine.applyAll s ws) := by
  have ho := EventCreditWrite.outcome_spec h
  have hbatch : (engine.applyAll s ws).Indexed ∧ Written env.localDate (write.entries.map CreditRow.userId) s
    (engine.applyAll s ws) ∧
      ∀ u, (engine.applyAll s ws).entries.total (onDay env.localDate d (some write.cleanupId) u) =
        s.entries.total (onDay env.localDate d (some write.cleanupId) u) := by
    rw [ho.writes]
    refine EventCreditWrite.batch_keeps (I := fun t => t.Indexed ∧
      Written env.localDate (write.entries.map CreditRow.userId) s t ∧
      ∀ u, t.entries.total (onDay env.localDate d (some write.cleanupId) u) =
        s.entries.total (onDay env.localDate d (some write.cleanupId) u))
      hs ⟨hs, ⟨hs, hwithin, fun _ _ _ _ => rfl⟩, fun _ => rfl⟩ ?_ ho.takes ho.users (fun _ _ => rfl)
        (ho.writes ▸ ho.ids)
      (ho.writes ▸ ho.free)
    rintro t e he ht ⟨-, hw, hexcl⟩ htk hid
    have hput := EventCreditWrite.puts_credit hid
    have hpos := ho.hours e he
    have hcap' : (t.entries.total (onDay env.localDate d (some write.cleanupId) e.userId) : ℤ) + e.hours.toNat ≤
        dailyHoursCap := by
      rw [hexcl]
      have := hcap e (ho.sub he)
      omega
    obtain ⟨hwithin', hexcl'⟩ := within_credit ht hd hw.within hcap' hid
    refine ⟨hput.indexed ht, ⟨hput.indexed ht, hwithin', fun u hu f hf => ?_⟩, fun u => (hexcl' d u).trans (hexcl u)⟩
    rw [← hw.others u hu f hf]
    refine total_put_of_ne hput ?_ hf
    rw [EventCreditWrite.credited_userId]
    rintro rfl
    exact hu (List.mem_map.mpr ⟨e, ho.sub he, rfl⟩)
  exact hbatch.2.1

theorem written_manual (env : Surroundings) {args : OperatorManualCreditArgs} (hs : s.Indexed)
    (hwithin : DatedWithin env.localDate s)
    (hcap : (s.entries.total (onDay env.localDate args.serviceDate none args.userId.value) : ℤ) + args.hours ≤ dailyHoursCap)
    (hpos : 0 ≤ args.hours) (hid : s.entries.find? (env.newId args.userId.value) = none) :
    Written env.localDate [args.userId.value] s
      (engine.applyAll s [.insertEntry (VolunteerHours.manualEntry env args)]) := by
  have hput := VolunteerHours.puts_manual hid
  refine ⟨hput.indexed hs, fun u d => ?_, fun u hu f hf => total_put_of_ne hput
    (fun h => hu (by simp [← h, VolunteerHours.manualEntry])) hf⟩
  have htotal := hput.total (onDay env.localDate d none u)
  have hfree : s.entries.find? (VolunteerHours.manualEntry env args).id = none := hid
  rw [hfree, Option.elim_none] at htotal
  have hw := hwithin u d
  by_cases hday : args.userId.value = u ∧ args.serviceDate = d
  · obtain ⟨rfl, rfl⟩ := hday
    have hweight : onDay env.localDate args.serviceDate none args.userId.value (VolunteerHours.manualEntry env args) =
        args.hours.toNat := if_pos ⟨rfl, rfl, .inr ⟨rfl, rfl⟩⟩
    omega
  · have hweight : onDay env.localDate d none u (VolunteerHours.manualEntry env args) = 0 := by
      refine if_neg fun h => hday ⟨h.1, ?_⟩
      rcases h.2.2 with ⟨he, -⟩ | ⟨-, hd⟩
      · cases he
      · exact Option.some.inj hd
    omega

theorem written_void (env : Surroundings) {args : OperatorVoidArgs} {row : Entry} {date : Id → Option Day}
    (hs : s.Indexed)
    (hwithin : DatedWithin date s) (hrow : s.entries.find? row.id = some row) :
    Written date [row.userId] s (engine.applyAll s (VolunteerHours.voidWrites env args row)) := by
  have hput := VolunteerHours.puts_void env args hrow
  refine ⟨hput.indexed hs, fun u d => ?_, fun u hu f hf => total_put_of_ne hput
    (fun h => hu (by simp [← h, Entry.void])) hf⟩
  have hle := total_put_of_zero hput (f := onDay date d none u) (onDay_of_not_live (by simp [Entry.void, Entry.Live]))
  have hw := hwithin u d
  omega

end Writers

/-! ## What an access does -/

/-- The live credited hours of the user that are dated to the day. -/
def Shared.dayHours (cfg : Config) (s : Shared) (d : Day) (u : Id) : ℕ :=
  VolunteerHours.hoursHeldOnServiceDate (s.surroundings cfg id) d s.ledger u

structure Shared.Capped (cfg : Config) (s : Shared) : Prop where
  indexed : s.ledger.Indexed
  within : ∀ u d, (s.dayHours cfg d u : ℤ) ≤ dailyHoursCap

/-- The cap check of the work, in the state that it will write to. -/
def Work.Fits (cfg : Config) (s : Shared) (t : Work) : Prop :=
  ∀ e ∈ t.credits, (t.heldByUser cfg s e.userId.value : ℤ) + e.hours ≤ dailyHoursCap

/-- The check of the work finds what its users hold: their ids are spelled as the database prints them,
or there is nothing to find. -/
def Work.Finds (cfg : Config) (s : Shared) (t : Work) : Prop :=
  ∀ e ∈ t.credits, e.userId.IsPrinted ∨ t.heldByUser cfg s e.userId.value = 0

instance (cfg : Config) (s : Shared) (t : Work) : Decidable (t.Finds cfg s) := inferInstanceAs (Decidable (∀ e ∈ _, _))

section Accesses

variable {cfg : Config} {s s' : Shared} {t : Work}

theorem dayHours_eq (d : Day) (u : Id) :
    s.dayHours cfg d u = s.ledger.entries.total (onDay (s.localDate cfg) d none u) :=
  creditedHoursOnDay_eq (s.surroundings cfg id) s.ledger

theorem Shared.Capped.dated (h : s.Capped cfg) : DatedWithin (s.localDate cfg) s.ledger := by
  intro u d
  rw [← dayHours_eq]
  exact h.within u d

theorem Written.refl (h : s.Capped cfg) (users : List Id) : Written (s.localDate cfg) users s.ledger s.ledger :=
  ⟨h.indexed, h.dated, fun _ _ _ _ => rfl⟩

theorem Written.capped {users : List Id} (h : Written (s.localDate cfg) users s.ledger s'.ledger)
    (hhost : s'.host = s.host) :
    s'.Capped cfg := by
  refine ⟨h.indexed, fun u d => ?_⟩
  have hdate : s'.localDate cfg = s.localDate cfg := by
    funext c
    rw [Shared.localDate, Shared.localDate, hhost]
  rw [dayHours_eq, hdate]
  exact h.within u d

theorem mem_userIds_of_credits {e : EventHoursEntry} (h : e ∈ t.credits) : e.userId.value ∈ t.userIds := by
  cases t with
  | logEventHours newId args => exact List.mem_map.mpr ⟨e, h, rfl⟩
  | creditEventAsOperator newId args | creditManual newId args =>
    rw [Work.credits, List.mem_singleton] at h
    simp [Work.userIds, h]
  | voidEntry args c => cases h

theorem sameDayEventHours_eq (env : Surroundings) {c : Id} {d : Day} (hd : env.localDate c = some d)
    (l : VolunteerHours.Db)
    (u : Id) : VolunteerHours.sameDayEventHours env c l u = l.entries.total (onDay env.localDate d (some c) u) := by
  rw [VolunteerHours.sameDayEventHours, hd]
  exact creditedHoursOnDay_eq env l

theorem written_writeCredits (hs : s.Capped cfg) (newId : Id → Id) (write : EventCreditWrite)
    (hfit : ∀ e ∈ write.entries,
      (VolunteerHours.sameDayEventHours (s.surroundings cfg newId) write.cleanupId s.ledger e.userId : ℤ) + e.hours ≤
        dailyHoursCap) :
    (s.writeCredits cfg newId write).1.host = s.host ∧
      Written (s.localDate cfg) (write.entries.map CreditRow.userId)
      s.ledger (s.writeCredits cfg newId write).1.ledger := by
  unfold Shared.writeCredits
  split
  · exact ⟨rfl, .refl hs _⟩
  · next e he =>
    split
    · exact ⟨rfl, .refl hs _⟩
    · next es ws ho =>
      have hd : s.localDate cfg write.cleanupId = some (cfg.eventDay e) := by
        rw [Shared.localDate, he, Option.map_some]
      refine ⟨rfl, written_credits (s.surroundings cfg newId) hs.indexed hd hs.dated (fun x hx => ?_) ho⟩
      rw [← sameDayEventHours_eq (s.surroundings cfg newId) hd]
      exact hfit x hx

/-- What a commit does, when the cap check still holds. -/
theorem written_commit (hs : s.Capped cfg) (hfit : t.Fits cfg s) :
    (t.commit cfg s).1.host = s.host ∧ Written (s.localDate cfg) t.userIds s.ledger (t.commit cfg s).1.ledger := by
  cases t with
  | logEventHours newId args =>
    have hwritten := written_writeCredits hs newId args.write fun r hr => by
      obtain ⟨e, he, rfl⟩ := List.mem_map.mp hr
      exact hfit e he
    rwa [VolunteerHours.LogEventHoursArgs.write, List.map_map] at hwritten
  | creditEventAsOperator newId args =>
    refine written_writeCredits hs newId args.write fun r hr => ?_
    obtain rfl := List.mem_singleton.mp hr
    exact hfit ⟨args.userId, args.hours⟩ (by simp [Work.credits])
  | creditManual newId args =>
    simp only [Work.commit, Shared.insertManual]
    split
    · exact ⟨rfl, .refl hs _⟩
    · next hhours =>
      split
      · next hid =>
        have hcap := hfit ⟨args.userId, args.hours⟩ (by simp [Work.credits])
        simp only [Work.heldByUser, VolunteerHours.hoursHeldOnServiceDate, creditedHoursOnDay_eq] at hcap
        have hpos : 0 ≤ args.hours := by
          unfold VolunteerHours.hoursCheck at hhours
          split at hhours
          · cases hhours
          · split at hhours
            · cases hhours
            · omega
        exact ⟨rfl, written_manual (s.surroundings cfg newId) hs.indexed hs.dated hcap hpos hid⟩
      · exact ⟨rfl, .refl hs _⟩
  | voidEntry args c =>
    simp only [Work.commit, Shared.voidEntry]
    split
    · exact ⟨rfl, .refl hs _⟩
    · next row hrow =>
      obtain ⟨hown, hlive⟩ := Option.filter_eq_some_iff.mp hrow
      obtain ⟨hfind, huser⟩ := Option.filter_eq_some_iff.mp hown
      have hself : s.ledger.entries.find? row.id = some row := by
        rw [Table.key_of_find? hfind]
        exact hfind
      have hw : Written (s.localDate cfg) [row.userId] s.ledger
          (engine.applyAll s.ledger (VolunteerHours.voidWrites (s.surroundings cfg id) args row)) :=
        written_void _ hs.indexed hs.dated hself
      rw [of_decide_eq_true huser] at hw
      exact ⟨rfl, hw⟩

/-- The check of a work reads the date of its event and the totals of its users. -/
theorem Work.Fits.congr (h : t.Fits cfg s)
    (hdate : ∀ c, t.cleanupId = some c → s'.localDate cfg c.value = s.localDate cfg c.value)
    (htotal : ∀ u ∈ t.userIds, ∀ d x, s'.ledger.entries.total (onDay (s'.localDate cfg) d x u) =
      s.ledger.entries.total (onDay (s.localDate cfg) d x u)) : t.Fits cfg s' := by
  have hevent : ∀ newId c u, t.cleanupId = some c → u ∈ t.userIds →
      VolunteerHours.sameDayEventHours (s'.surroundings cfg newId) c.value s'.ledger u =
        VolunteerHours.sameDayEventHours (s.surroundings cfg newId) c.value s.ledger u := by
    intro newId c u hc hu
    have hd : (s'.surroundings cfg newId).localDate c.value = (s.surroundings cfg newId).localDate c.value := hdate c hc
    unfold VolunteerHours.sameDayEventHours
    rw [hd]
    cases (s.surroundings cfg newId).localDate c.value with
    | none => rfl
    | some d =>
      rw [creditedHoursOnDay_eq, creditedHoursOnDay_eq]
      exact htotal u hu d (some c.value)
  have hheld : ∀ u ∈ t.userIds, t.heldByUser cfg s' u = t.heldByUser cfg s u := by
    intro u hu
    cases t with
    | logEventHours newId args => exact hevent newId _ u rfl hu
    | creditEventAsOperator newId args => exact hevent newId _ u rfl hu
    | creditManual newId args =>
      simp only [Work.heldByUser, VolunteerHours.hoursHeldOnServiceDate, creditedHoursOnDay_eq]
      exact htotal u hu args.serviceDate none
    | voidEntry args c => rfl
  intro e he
  rw [hheld _ (mem_userIds_of_credits he)]
  exact h e he

theorem Work.Fits.of_onlyUsers {users : List Id} (h : t.Fits cfg s) (hhost : s'.host = s.host)
    (hothers : OnlyUsers users s.ledger s'.ledger) (hdisjoint : ∀ u ∈ t.userIds, u ∉ users) : t.Fits cfg s' := by
  have hdate : s'.localDate cfg = s.localDate cfg := by
    funext c
    rw [Shared.localDate, Shared.localDate, hhost]
  refine h.congr (fun c _ => by rw [hdate]) (fun u hu d x => ?_)
  rw [hdate]
  exact hothers u (hdisjoint u hu) _ fun e he => onDay_of_user_ne he

theorem fits_of_withinDailyHoursCap {v : Unit} (hfinds : t.Finds cfg s)
    (h : VolunteerHours.withinDailyHoursCap t.credits (VolunteerHours.heldBy (t.heldByUser cfg s)) dailyHoursCap =
      .ok v) : t.Fits cfg s := by
  intro e he
  have hheld : VolunteerHours.heldBy (t.heldByUser cfg s) e.userId = t.heldByUser cfg s e.userId.value := by
    unfold VolunteerHours.heldBy
    split
    · rfl
    · next hcapital => exact ((hfinds e he).resolve_left hcapital).symm
  unfold VolunteerHours.withinDailyHoursCap at h
  split at h
  · cases h
  · next hnone =>
    have hle := List.find?_eq_none.mp hnone e he
    rw [hheld] at hle
    simpa using hle

/-! ## What an edit does to the dates -/

/-- An edit changes the date of an event at its write only. -/
theorem localDate_edit {a : EventEdits.Await} {h : EventEdits.Shared} {n : EventEdits.Step}
    (hmem : (h, n) ∈ EventEdits.access cfg.toConfig s.host a) (c : Id) :
    (h.events.find? c).map cfg.eventDay = s.localDate cfg c ∨
    ∃ r current listed ended e, a = .writing r current listed ended ∧ c = r.id ∧
      s.host.events.find? r.id = some e ∧ cfg.eventDay (r.patch.apply e) ≠ cfg.eventDay e := by
  cases a with
  | reading r | listing r current ended =>
    simp only [EventEdits.access, List.mem_cons, Prod.mk.injEq, List.mem_nil_iff, or_false] at hmem
    rcases hmem with ⟨rfl, -⟩ | ⟨rfl, -⟩
    · exact .inl rfl
    · exact .inl rfl
  | writing r current listed ended =>
    simp only [EventEdits.access, List.mem_cons, Prod.mk.injEq, List.mem_nil_iff, or_false] at hmem
    rcases hmem with ⟨rfl, -⟩ | ⟨rfl, -⟩
    · -- A rewrite of the event that leaves the patched times on it.
      have hmodify : ∀ e, s.host.events.find? r.id = some e → ∀ f : EventEdits.Event → EventEdits.Event,
          ∀ hf : ∀ x, (f x).id = x.id, cfg.eventDay (f e) = cfg.eventDay (r.patch.apply e) →
          ((s.host.events.modify r.id f hf).find? c).map cfg.eventDay = s.localDate cfg c ∨
            ∃ r' current' listed' ended' e', EventEdits.Await.writing r current listed ended =
              .writing r' current' listed' ended' ∧
              c = r'.id ∧ s.host.events.find? r'.id = some e' ∧ cfg.eventDay (r'.patch.apply e') ≠ cfg.eventDay e' := by
        intro e he f hf hday
        rw [Table.find?_modify]
        split
        · next hc =>
          subst hc
          by_cases hmove : cfg.eventDay (r.patch.apply e) = cfg.eventDay e
          · left
            rw [Shared.localDate, he, Option.map_some, Option.map_some, Option.map_some, hday, hmove]
          · exact .inr ⟨r, current, listed, ended, e, rfl, rfl, he, hmove⟩
        · exact .inl rfl
      unfold EventEdits.Shared.updateCleanupWithEdits
      split
      · exact .inl rfl
      · next e he =>
        split
        · exact .inl rfl
        · split
          · exact .inl rfl
          · split
            · exact .inl rfl
            · split
              · exact hmodify e he r.patch.apply (fun _ => rfl) rfl
              · next ds hslots =>
                split
                · exact .inl rfl
                · exact hmodify e he (fun x => { r.patch.apply x with slots :=
                    (EventEdits.reconcileSlots e.slots s.host.nextSlot ds).1 }) (fun _ => rfl) rfl
    · exact .inl rfl

theorem total_of_dates (hledger : s'.ledger = s.ledger) (hlive : ∀ c, s'.localDate cfg c ≠ s.localDate cfg c →
    ∀ x ∈ s.ledger.entries.rows, ¬ (x.source = .event ∧ x.Live ∧ x.cleanupId = some c)) (d : Day) (x : Option Id)
      (u : Id) :
    s'.ledger.entries.total (onDay (s'.localDate cfg) d x u) =
      s.ledger.entries.total (onDay (s.localDate cfg) d x u) := by
  rw [hledger]
  refine Table.total_congr fun e he => onDay_congr fun c hsource hl hc => ?_
  by_contra hne
  exact hlive c hne e he ⟨hsource, hl, hc⟩

theorem Shared.Capped.of_dates (hs : s.Capped cfg) (hledger : s'.ledger = s.ledger)
    (hlive : ∀ c, s'.localDate cfg c ≠ s.localDate cfg c →
      ∀ x ∈ s.ledger.entries.rows, ¬ (x.source = .event ∧ x.Live ∧ x.cleanupId = some c)) : s'.Capped cfg := by
  refine ⟨hledger ▸ hs.indexed, fun u d => ?_⟩
  rw [dayHours_eq, total_of_dates hledger hlive, ← dayHours_eq]
  exact hs.within u d

end Accesses

/-! ## Every run -/

/-- The event that a lock is about, in any spelling. -/
def eventOf : Lock → Option Id
  | .event t => some t.value
  | .user _ | .entryId _ => none

/-- An edit that moves the date of its event is written when the event has no live credit, and no
credit of it is on its way; a check of the cap finds what its users hold. -/
def SteadyAt (cfg : Config) (w : World) (i : ℕ) : Await → Prop
  | .edit (.writing r _ _ _) => ∀ e ∈ w.shared.host.events.find? r.id, cfg.eventDay (r.patch.apply e) ≠ cfg.eventDay e →
      (∀ x ∈ w.shared.ledger.entries.rows, ¬ (x.source = .event ∧ x.Live ∧ x.cleanupId = some r.id)) ∧
        w.Others i (fun d => ∀ l ∈ d.await.held, eventOf l ≠ some r.id)
  | .capping t => t.Finds cfg w.shared
  | _ => True

instance (cfg : Config) (w : World) (i : ℕ) : (a : Await) → Decidable (SteadyAt cfg w i a)
  | .edit (.writing ..) => inferInstanceAs (Decidable (∀ e ∈ _, _ → _ ∧ _))
  | .capping t => inferInstanceAs (Decidable (t.Finds cfg w.shared))
  | .edit (.reading _) | .edit (.listing ..) => inferInstanceAs (Decidable True)
  | .finding _ | .locking .. | .checking _ | .writing _ => inferInstanceAs (Decidable True)

/-- The same of a move. -/
def SteadyMove (cfg : Config) (w : World) : Move → Prop
  | .access i _ => ∀ c ∈ w.call i, SteadyAt cfg w i c.await
  | .start _ | .crash _ | .environment _ => True

instance (cfg : Config) (w : World) : (m : Move) → Decidable (SteadyMove cfg w m)
  | .access .. => inferInstanceAs (Decidable (∀ c ∈ _, _))
  | .start _ | .crash _ | .environment _ => inferInstanceAs (Decidable True)

/-- Locks are granted to one transaction at a time, dates of credited events stay, and checks find what
is held. -/
def Steady (cfg : Config) (w : World) (m : Move) : Prop := Granted w m ∧ SteadyMove cfg w m

instance (cfg : Config) (w : World) (m : Move) : Decidable (Steady cfg w m) := inferInstanceAs (Decidable (_ ∧ _))

/-- What is known of a call at each await. -/
def Await.Sound (cfg : Config) (s : Shared) : Await → Prop
  | .writing t => t.Fits cfg s
  | .edit _ | .finding _ | .locking .. | .checking _ | .capping _ => True

structure Inv (cfg : Config) (w : World) : Prop where
  holds : Machine.Holds (Shared.Capped cfg) (fun s _ c => c.await.Sound cfg s) w
  locks : Machine.Separate (fun c : Call Operation Await => c.await.held) w

section Steps

variable {cfg : Config} {s s' : Shared} {w w' : World}

theorem held_enter (o : Operation) : o.enter.held = [] := by
  cases o <;> simp [Operation.enter, Await.held]

/-- A call holds what it held and the lock that it waited for. -/
theorem held_access {a p : Await} (h : (s', .await p) ∈ access cfg s a) : ∀ l ∈ p.held, l ∈ a.held ∨
    a.wanted = some l := by
  have hother : ∀ x : Shared × Step, x ∈ [outcome cfg s a, (s, .done .failed)] → x.2 = .await p →
      (outcome cfg s a).2 = .await p := by
    intro x hx hp
    simp only [List.mem_cons, List.mem_nil_iff, or_false] at hx
    rcases hx with rfl | rfl
    · exact hp
    · cases hp
  cases a with
  | edit a =>
    simp only [access, List.mem_map, Prod.mk.injEq] at h
    obtain ⟨x, -, -, hx⟩ := h
    cases hn : x.2 with
    | done r => simp [hn, ofEdit] at hx
    | await b =>
      rw [hn, ofEdit, Next.await.injEq] at hx
      subst hx
      exact fun l hl => absurd hl (by simp [Await.held])
  | finding args =>
    have hp := hother _ h rfl
    simp only [outcome] at hp
    split at hp
    · cases hp
    · cases hp
      exact fun l hl => absurd hl (by simp [Await.held])
  | locking t n =>
    have hp := hother _ h rfl
    simp only [outcome, Next.await.injEq] at hp
    subst hp
    intro l hl
    split at hl
    · simp only [Await.held, List.take_add_one, List.mem_append, Option.mem_toList] at hl ⊢
      exact hl.imp id id
    · next hn =>
      left
      rw [Await.held, List.take_of_length_le (Nat.le_of_not_lt hn)]
      cases t <;> exact hl
  | checking t =>
    have hp := hother _ h rfl
    simp only [outcome] at hp
    split at hp
    · cases hp
    · cases hp
      exact fun l hl => .inl hl
  | capping t =>
    have hp := hother _ h rfl
    simp only [outcome] at hp
    split at hp
    · cases hp
    · cases hp
      exact fun l hl => .inl hl
  | writing t => cases hother _ h rfl

theorem enter_eq {o : Operation} {p : Await} (h : (machine cfg).enter s o = some (s', p)) : s' = s ∧ p = o.enter := by
  simp only [machine] at h
  split at h
  · split at h
    · cases h
    · cases h
      exact ⟨rfl, rfl⟩
  · cases h
    exact ⟨rfl, rfl⟩

theorem separate_step {m : Move} {r : Option Result} (hw : Inv cfg w) (hok : Granted w m)
    (hs : (machine cfg).step w m = some (w', r)) :
    Machine.Separate (fun c : Call Operation Await => c.await.held) w' := by
  refine hw.locks.step hs ?_ ?_
  · intro o s p _ he k hk
    simp [(enter_eq he).2, held_enter] at hk
  · intro i n c s p hm hc hmem k hk
    subst hm
    rcases held_access hmem k hk with hheld | hwanted
    · exact .inl hheld
    · exact .inr fun j d hj hd => (hok c hc k hwanted).call hj hd

theorem Await.Sound.imp {a : Await} (h : a.Sound cfg s) (hfits : ∀ t, a = .writing t → t.Fits cfg s → t.Fits cfg s') :
    a.Sound cfg s' := by
  cases a with
  | writing t => exact hfits t rfl h
  | edit _ | finding _ | locking _ _ | checking _ | capping _ => trivial

/-- An edit changes dates of events only where no total and no check depends on them. -/
theorem holds_edit (hw : Inv cfg w) {i : ℕ} {a : EventEdits.Await} (hok : SteadyAt cfg w i (.edit a))
    {h : EventEdits.Shared} {n : EventEdits.Step} (hmem : (h, n) ∈ EventEdits.access cfg.toConfig w.shared.host a) :
    Shared.Capped cfg { w.shared with host := h } ∧
    ∀ j d, j ≠ i → w.call j = some d → d.await.Sound cfg { w.shared with host := h } := by
  have hmoves : ∀ c, Shared.localDate cfg { w.shared with host := h } c ≠ w.shared.localDate cfg c →
      (∀ x ∈ w.shared.ledger.entries.rows, ¬ (x.source = .event ∧ x.Live ∧ x.cleanupId = some c)) ∧
        w.Others i (fun d => ∀ l ∈ d.await.held, eventOf l ≠ some c) := by
    intro c hne
    rcases localDate_edit hmem c with hsame | ⟨r, current, listed, ended, e, rfl, rfl, he, hmove⟩
    · exact absurd hsame hne
    · exact hok e he hmove
  refine ⟨hw.holds.shared.of_dates rfl fun c hc => (hmoves c hc).1, fun j d hj hd => ?_⟩
  refine (hw.holds.calls j d hd).imp fun t ht hfits => hfits.congr (fun c hc => ?_) fun u _ day x => ?_
  · by_contra hne
    refine (hmoves c.value hne).2.call hj hd (.event c) ?_ rfl
    rw [ht, Await.held, Work.mem_locks_event]
    exact hc
  · exact @total_of_dates cfg w.shared { w.shared with host := h } rfl (fun c hc => (hmoves c hc).1) day x u

/-- What a call knows after an access that only reads. -/
theorem sound_outcome {a p : Await} (hwriting : ∀ t, a ≠ .writing t) (hfinds : ∀ t, a = .capping t → t.Finds cfg s)
    (h : (outcome cfg s a).2 = .await p) :
    p.Sound cfg s := by
  cases a with
  | edit a => cases h
  | finding args =>
    simp only [outcome] at h
    split at h
    · cases h
    · cases h
      trivial
  | locking t n =>
    simp only [outcome, Next.await.injEq] at h
    subst h
    split
    · trivial
    · cases t with
      | voidEntry args c => exact fun e he => absurd he (by simp [Work.credits])
      | logEventHours _ _ | creditEventAsOperator _ _ | creditManual _ _ => trivial
  | checking t =>
    simp only [outcome] at h
    split at h
    · cases h
    · cases h
      trivial
  | capping t =>
    simp only [outcome] at h
    split at h
    · cases h
    · next v hv =>
      cases h
      exact fits_of_withinDailyHoursCap (hfinds t rfl) hv
  | writing t => exact absurd rfl (hwriting t)

theorem disjoint_users (hw : Inv cfg w) {i j : ℕ} {c d : Call Operation Await} {t t' : Work} (hc : w.call i = some c)
    (hd : w.call j = some d) (hj : j ≠ i) (ht : c.await = .writing t) (ht' : d.await = .writing t') :
    ∀ u ∈ t'.userIds, u ∉ t.userIds := by
  intro u hu hu'
  refine hj (hw.locks j i d c (Lock.user u) hd hc ?_ ?_)
  · simp only [ht', Await.held, Work.mem_locks_user]
    exact hu
  · simp only [ht, Await.held, Work.mem_locks_user]
    exact hu'

theorem holds_commit (hw : Inv cfg w) {i : ℕ} {c : Call Operation Await} (hc : w.call i = some c) {t : Work}
    (ht : c.await = .writing t) : (t.commit cfg w.shared).1.Capped cfg ∧
      ∀ j d, j ≠ i → w.call j = some d → d.await.Sound cfg (t.commit cfg w.shared).1 := by
  have hfits : t.Fits cfg w.shared := by
    have hsound := hw.holds.calls i c hc
    rw [ht] at hsound
    exact hsound
  obtain ⟨hhost, hwritten⟩ := written_commit hw.holds.shared hfits
  refine ⟨hwritten.capped hhost, fun j d hj hd => (hw.holds.calls j d hd).imp fun t' ht' h => ?_⟩
  exact h.of_onlyUsers hhost hwritten.others (disjoint_users hw hc hd hj ht ht')

theorem holds_access (hw : Inv cfg w) {i : ℕ} {c : Call Operation Await} (hc : w.call i = some c)
    (hok : SteadyAt cfg w i c.await) {n : Step} (hmem : (s', n) ∈ access cfg w.shared c.await) :
    s'.Capped cfg ∧ (∀ p, n = .await p → p.Sound cfg s') ∧ ∀ j d, j ≠ i → w.call j = some d → d.await.Sound cfg s' := by
  have hothers : ∀ j d, j ≠ i → w.call j = some d → d.await.Sound cfg w.shared :=
    fun j d _ hd => hw.holds.calls j d hd
  have hfinds : ∀ t, c.await = .capping t → t.Finds cfg w.shared := by
    intro t ht
    rw [ht] at hok
    exact hok
  -- Every await but that of an edit has its regular outcome and the failure.
  have hregular : (∀ t, c.await ≠ .writing t) → (outcome cfg w.shared c.await).1 = w.shared →
      (s', n) ∈ [outcome cfg w.shared c.await, (w.shared, .done .failed)] →
      s'.Capped cfg ∧ (∀ p, n = .await p → p.Sound cfg s') ∧ ∀ j d, j ≠ i → w.call j = some d →
        d.await.Sound cfg s' := by
    intro hwriting hread h
    simp only [List.mem_cons, List.mem_nil_iff, or_false] at h
    rcases h with h | h
    · obtain rfl : s' = w.shared := (congrArg Prod.fst h).trans hread
      refine ⟨hw.holds.shared, fun p hp => sound_outcome hwriting hfinds ?_, hothers⟩
      rw [← h]
      exact hp
    · obtain ⟨rfl, rfl⟩ := Prod.mk.inj h
      exact ⟨hw.holds.shared, fun p hp => (by cases hp), hothers⟩
  cases ha : c.await with
  | edit a =>
    rw [ha] at hok hmem
    simp only [access, List.mem_map, Prod.mk.injEq] at hmem
    obtain ⟨⟨h, x⟩, hx, rfl, rfl⟩ := hmem
    obtain ⟨hcapped, hedit⟩ := holds_edit hw hok hx
    refine ⟨hcapped, fun p hp => ?_, hedit⟩
    cases x with
    | done r => cases hp
    | await b =>
      cases hp
      trivial
  | finding args | locking t k | checking t | capping t =>
    rw [ha] at hmem hregular
    exact hregular (by simp) rfl hmem
  | writing t =>
    rw [ha] at hmem
    simp only [access, outcome, List.mem_cons, Prod.mk.injEq, List.mem_nil_iff, or_false] at hmem
    rcases hmem with ⟨rfl, rfl⟩ | ⟨rfl, rfl⟩
    · obtain ⟨hcapped, hcommit⟩ := holds_commit hw hc ha
      exact ⟨hcapped, fun p hp => (by cases hp), hcommit⟩
    · exact ⟨hw.holds.shared, fun p hp => (by cases hp), hothers⟩

/-- The clock and a cancellation leave every date. -/
theorem localDate_environment {e : Change} (h : environment cfg s e = some s') :
    s'.ledger = s.ledger ∧ ∀ c, s'.localDate cfg c = s.localDate cfg c := by
  cases e with
  | tick ms =>
    cases h
    exact ⟨rfl, fun _ => rfl⟩
  | cancel id =>
    cases h
    refine ⟨rfl, fun c => ?_⟩
    simp only [Shared.localDate, Table.find?_modify]
    split
    · rw [Option.map_map]
      rfl
    · rfl

theorem Inv.step {m : Move} {r : Option Result} (hw : Inv cfg w) (hok : Steady cfg w m)
    (hs : (machine cfg).step w m = some (w', r)) : Inv cfg w' := by
  refine ⟨hw.holds.step hs ?_ ?_ ?_, separate_step hw hok.1 hs⟩
  · intro o s p _ he
    obtain ⟨rfl, rfl⟩ := enter_eq he
    refine ⟨hw.holds.shared, ?_, hw.holds.calls⟩
    cases o <;> trivial
  · intro i k c s n hm hc hmem
    subst hm
    exact holds_access hw hc (hok.2 c hc) hmem
  · intro e s _ he
    obtain ⟨hledger, hdate⟩ := localDate_environment he
    have hlive : ∀ c, s.localDate cfg c ≠ w.shared.localDate cfg c →
        ∀ x ∈ w.shared.ledger.entries.rows, ¬ (x.source = .event ∧ x.Live ∧ x.cleanupId = some c) :=
      fun c hne => absurd (hdate c) hne
    refine ⟨hw.holds.shared.of_dates hledger hlive, fun i c hc => (hw.holds.calls i c hc).imp fun t _ hfits => ?_⟩
    exact hfits.congr (fun c _ => hdate c.value) fun u _ d x => total_of_dates hledger hlive d x u

end Steps

/-- In every run in which no edit moves the date of an event with credits, no user is credited more
than the cap on any day. -/
theorem daily_hours_within_cap (cfg : Config) {s : Shared} (hs : s.Capped cfg) {w : World}
    (h : (machine cfg).Run (Steady cfg) (.initial s) w) (u : Id) (d : Day) :
    (w.shared.dayHours cfg d u : ℤ) ≤ dailyHoursCap := by
  have hinv : Inv cfg w := by
    refine h.invariant ⟨⟨hs, by simp⟩, fun i j c d k hc => by simp at hc⟩ ?_
    intro v v' m r hv hok hstep
    exact hv.step hok hstep
  exact hinv.holds.shared.within u d

/-! ## An edit after the credit -/

def hour : ℕ := 60 * EventEdits.MS_PER_MINUTE

/-- Two time zones, counted from a day before. -/
def zoneOffset (zone : String) : ℕ := if zone = "Pacific/Auckland" then 36 * hour else 17 * hour

def sampleConfig : Config := { EventEdits.sampleConfig with dayIn := fun t zone => (t + zoneOffset zone) / (24 * hour) }

/-- An event that has ended, on the day 11 in Los Angeles and 12 in Auckland. -/
def sampleEvent : EventEdits.Event := ⟨5, .upcoming, 258 * hour, 266 * hour, none, none, none, .empty _⟩

def sampleState : Shared := ⟨⟨480 * hour, (Table.empty _).insert sampleEvent, 1⟩, ⟨.empty _, .empty _, []⟩⟩

theorem capped_sampleState : sampleState.Capped sampleConfig := by
  refine ⟨?_, fun u d => ?_⟩
  · intro c u p q hp
    simp [sampleState] at hp
  · simp [dayHours_eq, sampleState, dailyHoursCap]

/-- Eight hours for the event, then twenty hours for the day after. -/
def twoCredits : List Move :=
  .start (.creditEventAsOperator (fun _ => 100) ⟨1, 7, 5, none, 800, "roster", none⟩) :: List.append
    (List.replicate 6 (.access 0 0))
    (.start (.creditManual (fun _ => 101) ⟨1, 7, 2000, 12, "night shift", none⟩) :: List.replicate 5 (.access 1 0))

/-- The host then moves the event to another time zone. -/
def thenEdit : List Move :=
  List.append twoCredits [.start (.updateCleanup ⟨5, { timezone := some (some "Pacific/Auckland") }⟩), .access 2 0,
    .access 2 0]

theorem daily_hours_after_two_credits : ∃ w, (machine sampleConfig).Run (Steady sampleConfig) (.initial sampleState) w ∧
    w.shared.dayHours sampleConfig 11 7 = 800 ∧ (w.shared.dayHours sampleConfig 12 7 : ℤ) ≤ dailyHoursCap := by
  have hp : ((machine sampleConfig).perform (.initial sampleState) twoCredits).map
      (fun w => w.shared.dayHours sampleConfig 11 7) = some 800 := by decide +kernel
  obtain ⟨w, hw, hday⟩ := Option.map_eq_some_iff.mp hp
  have hrun : (machine sampleConfig).Run (Steady sampleConfig) (.initial sampleState) w :=
    Machine.run_of_perform (by decide +kernel) hw
  exact ⟨w, hrun, hday, daily_hours_within_cap sampleConfig capped_sampleState hrun 7 12⟩

theorem edited_time_zone_breaks_the_cap : ¬ ∀ (cfg : Config) (s : Shared) (w : World), s.Capped cfg →
    (machine cfg).Run Granted (.initial s) w → ∀ u d, (w.shared.dayHours cfg d u : ℤ) ≤ dailyHoursCap := by
  intro h
  have hp : ((machine sampleConfig).perform (.initial sampleState) thenEdit).map
      (fun w => w.shared.dayHours sampleConfig 12 7) = some 2800 := by decide +kernel
  obtain ⟨w, hw, hday⟩ := Option.map_eq_some_iff.mp hp
  have hle := h sampleConfig sampleState w capped_sampleState (Machine.run_of_perform (by decide +kernel) hw) 7 12
  rw [hday] at hle
  exact absurd hle (by decide)

end Civfix.CreditedDays
