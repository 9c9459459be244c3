import Civfix.RosterRules

/-! # Host edits of ticket types keep the ledger and the bans

The capacity of a ticket type is edited under `FOR UPDATE` on its row, so the seats it was
checked against are the seats it has. A deleted type had no row referring to it, and the
same lock keeps new ones out. -/
namespace Civfix.Attendance

open KeyedTables LockedTransactions

namespace Views

variable {V : Views} {held : List Lock} {s : Db}

/-! ## Ticket types -/

theorem ticketTypeCapacityFit_rule {c : Id} {eventCapacity nextCapacity excluded : Option ℕ}
    {Q : List Lock → Option TicketTypeWriteOutcome → Db → Prop} (h : ∀ held' r, held ⊆ held' → Q held' r s) :
    V.wlp held s (ticketTypeCapacityFit c eventCapacity nextCapacity excluded) Q := by
  unfold ticketTypeCapacityFit
  split
  · exact wlp_pure (h held _ (List.Subset.refl _))
  · exact wlp_select (fun v held' _ hsub => h held' _ hsub)

theorem insertType_rule {row : TicketType} (hrow : row.reservedSeats = 0) (hs : V.Inv (fun _ => 0) s)
    {Q : List Lock → Unit → Db → Prop} (h : ∀ held' s', held ⊆ held' → V.Inv (fun _ => 0) s' → Q held' () s') :
    V.wlp held s (inserting (Db.checkTicketType row) (.insertTicketType row)) Q := by
  refine wlp_inserting (disciplined_of_quiet (by simp [Write.eventLock])) ?_ ?_
  · intro v held' hv hsub hlock hok
    have hl : ⟨.ticketType row.id, .update⟩ ∈ held' := hlock (by simp [Write.rowLocks])
    have hnew : s.ticketTypes.find? row.id = none := by
      rw [← ticketType_eq hv hl (by decide)]
      unfold Db.checkTicketType at hok
      split at hok
      · cases hok
      · next hfree => simpa using hfree
    exact h held' _ hsub (hs.quiet ⟨rfl, fun _ => rfl⟩ (hs.books.insertType hnew hrow))
  · intro v held' _ _ _ hc
    unfold Db.checkTicketType at hc
    split_ifs at hc

theorem insertTicketTypeIn_keeps {args : TicketTypeWriteArgs} {id : Id} (hs : V.Inv (fun _ => 0) s) :
    V.Keeps held s (insertTicketTypeIn args id) := by
  refine wlp_bind (lockEvent_rule (fun held1 e _ _ => ?_))
  split
  · exact wlp_pure hs
  refine wlp_bind (wlp_select (fun _ held2 _ _ => ?_))
  split
  · exact wlp_pure hs
  refine wlp_unlessRefused (ticketTypeCapacityFit_rule (fun held3 r _ => ?_))
  cases r with
  | some _ => exact hs
  | none =>
    refine wlp_bind (wlp_select (fun _ held4 _ _ => ?_))
    refine wlp_bind (insertType_rule rfl hs (fun held5 s5 _ hs5 => ?_))
    refine wlp_bind (wlp_select (fun _ held6 _ _ => ?_))
    split
    · trivial
    · exact wlp_pure hs5

/-- A patch that passed its checks leaves room for the seats already reserved. -/
theorem capacityChangeRefusal_rule {c t : Id} {event : Event} {current : TicketType} {patch : TicketTypePatch}
    (hcurrent : ∀ n ∈ current.capacity, current.reservedSeats ≤ n)
    {Q : List Lock → Option TicketTypeWriteOutcome → Db → Prop}
    (h : ∀ held' r, held ⊆ held' →
      (r = none → ∀ n ∈ (patch.apply current.toTicketTypeColumns).capacity, current.reservedSeats ≤ n) →
      Q held' r s) :
    V.wlp held s (capacityChangeRefusal c t event current patch) Q := by
  unfold capacityChangeRefusal
  split
  · next hp =>
    refine wlp_pure (h held _ (List.Subset.refl _) (fun _ n hn => hcurrent n ?_))
    simpa [TicketTypePatch.apply, hp] using hn
  next capacity hp =>
  split
  · exact wlp_pure (h held _ (List.Subset.refl _) (by simp))
  next hroom =>
  refine ticketTypeCapacityFit_rule (fun held' r hsub => h held' r hsub (fun _ n hn => ?_))
  have hcap : capacity = some n := by simpa [TicketTypePatch.apply, hp] using hn
  simpa [hcap] using hroom

theorem updateTicketTypeIn_keeps {c t : Id} {patch : TicketTypePatch} (hs : V.Inv (fun _ => 0) s) :
    V.Keeps held s (updateTicketTypeIn c t patch) := by
  refine wlp_bind (lockEvent_rule (fun held1 e _ _ => ?_))
  split
  · exact wlp_pure hs
  refine wlp_bind (wlp_selectFor (fun v held2 hv _ hlock => ?_))
  split
  · exact wlp_pure hs
  next current hcurrent =>
  have hl : ⟨.ticketType t, .update⟩ ∈ held2 := hlock (by simp)
  have hrow : s.ticketTypes.find? t = some current := by
    rw [← ticketType_eq hv hl (by decide)]
    exact (Option.filter_eq_some_iff.mp hcurrent).1
  refine wlp_unlessRefused (capacityChangeRefusal_rule (hs.books.ticketTypes t current hrow)
    (fun held3 r _ hroom => ?_))
  cases r with
  | some _ => exact hs
  | none =>
    have hset : V.Inv (fun _ => 0) (s.apply (.setTicketType t (patch.apply current.toTicketTypeColumns))) := by
      refine hs.quiet ⟨rfl, fun _ => rfl⟩ (hs.books.setColumns (fun x hx n hn => ?_))
      obtain rfl : current = x := Option.some.inj (hrow.symm.trans hx)
      exact hroom rfl n hn
    refine wlp_bind (wlp_inserting (disciplined_of_quiet (by simp [Write.eventLock])) ?_ ?_)
    · intro _ held4 _ _ _ _
      refine wlp_bind (wlp_select (fun _ held5 _ _ => ?_))
      split
      · exact wlp_pure hset
      · exact wlp_pure hset
    · intro _ held4 _ _ _ hc
      split_ifs at hc

theorem deleteTicketType_keeps {c t : Id} (hs : V.Inv (fun _ => 0) s) :
    V.Keeps held s (deleteTicketType c t) := by
  refine wlp_bind (wlp_selectFor (fun v held1 hv _ hlock => ?_))
  split
  · exact wlp_pure hs
  next current hcurrent =>
  have hl : ⟨.ticketType t, .update⟩ ∈ held1 := hlock (by simp)
  obtain ⟨hfound, hc⟩ := Option.filter_eq_some_iff.mp hcurrent
  have hrow : s.ticketTypes.find? t = some current := by rw [← ticketType_eq hv hl (by decide), hfound]
  -- Rows of other events do not refer to the type, so the search by event misses none.
  have hevent : ∀ {c'}, s.HasType c' t → c' = c := by
    rintro c' ⟨x, hx, rfl⟩
    obtain rfl : current = x := Option.some.inj (hrow.symm.trans hx)
    simpa using hc
  refine wlp_bind (wlp_select (fun v2 held2 hv2 h2 => ?_))
  split
  · exact wlp_pure hs
  next hfree =>
  have hnone := noNewReferences hv2 (h2 hl) (by decide)
  simp only [Bool.or_eq_true, List.any_eq_true, Bool.and_eq_true, decide_eq_true_eq, not_or, not_exists,
    not_and] at hfree
  have hregs : s.registrations.All (fun r => r.ticketTypeId ≠ some t) := by
    intro k r hr ht
    obtain rfl := hevent (hs.books.registrations k r hr t ht)
    have hold := (hnone.registrations r.cleanupId).all_not
      (fun k' r' hr' hx => hfree.1 r' (Table.find?_eq_some hr').1 hx.1 hx.2)
    exact hold k r hr ⟨rfl, ht⟩
  have hqueue : s.waitlist.All (fun w => w.ticketTypeId ≠ t) := by
    intro k w hw ht
    subst ht
    obtain rfl := hevent (hs.books.waitlist k w hw).1
    have hold := (hnone.waitlist w.cleanupId).all_not
      (fun k' w' hw' hx => hfree.2 w' (Table.find?_eq_some hw').1 hx.1 hx.2)
    exact hold k w hw ⟨rfl, rfl⟩
  refine wlp_bind (wlp_modifying (fun _ => disciplined_of_quiet (by simp [Write.eventLock])) ?_)
  intro _ held3 _ _ _
  exact wlp_pure (hs.quiet ⟨rfl, fun _ => rfl⟩ (hs.books.deleteType hregs hqueue))

end Views

end Civfix.Attendance
