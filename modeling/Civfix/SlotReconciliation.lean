import Civfix.CursorPages
import Civfix.UniqueIndexes

/-! # Reconciling the slots of an event

The slots that the host left out are deleted, those with a new title or window are parked under their ids as titles, and
then the list is written slot by slot. A unique index on the title in lower case and the window is checked at every write,
so a slot that still waits, or is parked already, is in the way of a write of its key. -/
namespace Civfix.SlotReconciliation

open CodeUnits KeysetCursors CursorPages UniqueIndexes

/-- What Postgres and JavaScript make of titles. The text of an id has no upper case. -/
structure Platform where
  /-- `lower` of Postgres. -/
  lower : Text → Text
  toLowerCase : Text → Text
  lower_uuid : ∀ id : Uuid, lower id.text = id.text

/-- The window of a slot is set as a whole, and ends after it starts. Instants are milliseconds since the start of 1970. -/
structure Window where
  startsAt : ℕ
  endsAt : ℕ
  later : startsAt < endsAt
  deriving DecidableEq

/-- A row of `cleanup_slots`. -/
structure Slot where
  id : Uuid
  title : Text
  description : Option Text
  capacity : Option ℕ+
  window : Option Window
  sortOrder : ℤ
  deriving DecidableEq

structure DesiredSlot where
  id : Option Uuid
  title : Text
  description : Option Text
  capacity : Option ℕ+
  window : Option Window
  sortOrder : ℤ

/-- A row of `cleanup_slot_claims`. -/
structure Claim where
  slotId : Uuid
  userId : Uuid

structure SlotReport where
  slotId : Uuid
  title : Text
  claimantUserIds : List Uuid
  deriving DecidableEq

structure SlotReconcileResult where
  added : List Uuid
  updated : List Uuid
  removed : List SlotReport
  rescheduled : List SlotReport
  deriving DecidableEq

inductive Failure where
  | validation (field : String) (message : Text)
  | uniqueViolation
  deriving DecidableEq

def slotWindowKey (window : Option Window) : Text :=
  (window.elim [] fun w => decimal w.startsAt) ++ bar :: window.elim [] fun w => decimal w.endsAt

section

variable (env : Platform)

def slotIdentityKey (title : Text) (window : Option Window) : Text :=
  env.toLowerCase (trim title) ++ bar :: slotWindowKey window

/-- What `cleanup_slots_cleanup_title_window_uidx` indexes of the slots of one event. -/
def titleWindow (title : Text) (window : Option Window) : Text × Option Window := (env.lower title, window)

def indexKey (s : Slot) : Text × Option Window := titleWindow env s.title s.window

/-- The slots of an event, in the order of a scan. -/
structure Slots where
  rows : List Slot
  ids : (rows.map Slot.id).Nodup
  titles : (rows.map (indexKey env)).Nodup

def claimantsBySlot (claims : List Claim) (excludeUserId : Option Uuid) (slotId : Uuid) : List Uuid :=
  (claims.filter fun c => c.slotId = slotId && some c.userId ≠ excludeUserId).map Claim.userId

/-- The ids that the host named. -/
def keep (desired : List DesiredSlot) : List Uuid := desired.filterMap DesiredSlot.id

/-- The slots that are left when those out of the list are deleted. -/
def remaining (existing : List Slot) (desired : List DesiredSlot) : List Slot :=
  existing.filter fun s => s.id ∈ keep desired

/-- The slot is written with what `keyOf` tells apart. -/
def changed {κ : Type} [DecidableEq κ] (keyOf : Text → Option Window → κ) (desired : List DesiredSlot) (before : Slot) :
    Bool :=
  desired.any fun slot => slot.id = some before.id && keyOf before.title before.window ≠ keyOf slot.title slot.window

def park (s : Slot) : Slot := { s with title := s.id.text }

/-- The slots that are parked, in the order of the scan. -/
def rekeying (existing : List Slot) (desired : List DesiredSlot) : List Slot :=
  (remaining existing desired).filter (changed (slotIdentityKey env) desired)

def rekeySlotsInTx (existing : List Slot) (desired : List DesiredSlot) : Option (List Slot) :=
  writeAll Slot.id (indexKey env) (remaining existing desired) ((rekeying env existing desired).map park)

def removeSlotsInTx (existing : List Slot) (claims : List Claim) (desired : List DesiredSlot) (actorId : Option Uuid) :
    List SlotReport :=
  (existing.filter fun s => s.id ∉ keep desired).map fun s => ⟨s.id, s.title, claimantsBySlot claims actorId s.id⟩

def collectRescheduledInTx (existing : List Slot) (claims : List Claim) (desired : List DesiredSlot)
    (actorId : Option Uuid) : List SlotReport :=
  desired.filterMap fun slot => slot.id.bind fun id =>
    let userIds := claimantsBySlot claims actorId id
    if existing.any (fun s => s.id = id && changed (fun _ => slotWindowKey) desired s) && userIds ≠ [] then
      some ⟨id, slot.title, userIds⟩
    else none

def DesiredSlot.at' (d : DesiredSlot) (id : Uuid) : Slot :=
    ⟨id, d.title, d.description, d.capacity, d.window, d.sortOrder⟩

/-- What the list comes to in the table; `drawn` has an id for every slot, for those without one. -/
def wanted (desired : List DesiredSlot) (drawn : List Uuid) : List Slot :=
  List.zipWith (fun d id => d.at' (d.id.getD id)) desired drawn

def writeSlotsInTx (t : List Slot) (desired : List DesiredSlot) (drawn : List Uuid) : Option (List Slot) :=
  writeAll Slot.id (indexKey env) t (wanted desired drawn)

def reconcileSlotsInTx (existing : List Slot) (claims : List Claim) (desired : List DesiredSlot) (actorId : Option Uuid)
    (drawn : List Uuid) : Except Failure (List Slot × SlotReconcileResult) :=
  match (keep desired).find? fun id => id ∉ existing.map Slot.id with
  | some id => .error (.validation "slots" (text "unknown slot: " ++ id.text))
  | none =>
    match rekeySlotsInTx env existing desired with
    | none => .error .uniqueViolation
    | some parked =>
      match writeSlotsInTx env parked desired drawn with
      | none => .error .uniqueViolation
      | some final => .ok (final,
          ⟨((desired.zip drawn).filter fun d => d.1.id.isNone).map Prod.snd, keep desired,
            removeSlotsInTx existing claims desired actorId,
            collectRescheduledInTx existing claims desired actorId⟩)

/-- `ORDER BY sort_order, id`. -/
def Listed (a b : Slot) : Prop := toLex (a.sortOrder, a.id.text) ≤ toLex (b.sortOrder, b.id.text)

instance : DecidableRel Listed := fun a b =>
  inferInstanceAs (Decidable (toLex (a.sortOrder, a.id.text) ≤ toLex (b.sortOrder, b.id.text)))

/-! ## What is written -/

/-- What the service sees to before the list is reconciled, and ids that were never drawn before. -/
structure Given (existing : List Slot) (desired : List DesiredSlot) (drawn : List Uuid) : Prop where
  kept : (keep desired).Nodup
  known : ∀ id ∈ keep desired, id ∈ existing.map Slot.id
  keys : desired.Pairwise fun a b => slotIdentityKey env a.title a.window ≠ slotIdentityKey env b.title b.window
  length : drawn.length = desired.length
  fresh : (drawn ++ existing.map Slot.id).Nodup

variable {env} {existing : List Slot} {desired : List DesiredSlot} {drawn : List Uuid} {q r : Slot}

theorem mem_keep {id : Uuid} : id ∈ keep desired ↔ some id ∈ desired.map DesiredSlot.id := by
  rw [keep, List.mem_filterMap, List.mem_map]

theorem keep_cons (d : DesiredSlot) : keep (d :: desired) = d.id.toList ++ keep desired := by
  cases h : d.id with
  | none => rw [keep, List.filterMap_cons_none h, Option.toList_none, List.nil_append, keep]
  | some id => rw [keep, List.filterMap_cons_some h, Option.toList_some, List.singleton_append, keep]

theorem wanted_ids : (wanted desired drawn).map Slot.id = List.zipWith (fun d id => d.id.getD id) desired drawn := by
  rw [wanted, List.map_zipWith]
  rfl

theorem mem_zipWith_ids {id : Uuid} (hlen : drawn.length = desired.length) (hnot : id ∉ drawn) :
    id ∈ List.zipWith (fun (d : DesiredSlot) id => d.id.getD id) desired drawn ↔ id ∈ keep desired := by
  induction desired generalizing drawn with
  | nil => rfl
  | cons d desired ih =>
    cases drawn with
    | nil => cases hlen
    | cons x drawn =>
      rw [List.mem_cons, not_or] at hnot
      rw [List.zipWith_cons_cons, List.mem_cons, ih (Nat.succ.inj hlen) hnot.2, keep_cons, List.mem_append]
      refine or_congr_left ?_
      cases d.id with
      | none => exact iff_of_false hnot.1 List.not_mem_nil
      | some y => exact List.mem_singleton.symm

theorem mem_wanted_ids {id : Uuid} (hlen : drawn.length = desired.length) (hnot : id ∉ drawn) :
    id ∈ (wanted desired drawn).map Slot.id ↔ id ∈ keep desired := by
  rw [wanted_ids, mem_zipWith_ids hlen hnot]

theorem nodup_wanted_ids (hlen : drawn.length = desired.length) (hkept : (keep desired).Nodup) (hdrawn : drawn.Nodup)
    (hnew : ∀ id ∈ keep desired, id ∉ drawn) : ((wanted desired drawn).map Slot.id).Nodup := by
  rw [wanted_ids]
  induction desired generalizing drawn with
  | nil => exact List.nodup_nil
  | cons d desired ih =>
    cases drawn with
    | nil => cases hlen
    | cons x drawn =>
      rw [keep_cons] at hkept hnew
      rw [List.nodup_cons] at hdrawn
      have hrest : ∀ id ∈ keep desired, id ≠ x ∧ id ∉ drawn := fun id hid => by
        have hnot := hnew id (List.mem_append_right _ hid)
        rwa [List.mem_cons, not_or] at hnot
      rw [List.zipWith_cons_cons, List.nodup_cons]
      refine ⟨fun hmem => ?_, ih (Nat.succ.inj hlen) (List.nodup_append'.mp hkept).2.1 hdrawn.2 fun id hid =>
        (hrest id hid).2⟩
      cases hid : d.id with
      | none =>
        rw [hid] at hmem
        rw [Option.getD_none, mem_zipWith_ids (Nat.succ.inj hlen) hdrawn.1] at hmem
        exact (hrest x hmem).1 rfl
      | some y =>
        rw [hid] at hmem hkept hnew
        have hy := hnew y (List.mem_append_left _ (List.mem_singleton_self y))
        rw [List.mem_cons, not_or] at hy
        rw [Option.getD_some, mem_zipWith_ids (Nat.succ.inj hlen) hy.2] at hmem
        exact List.disjoint_of_nodup_append hkept (List.mem_singleton_self y) hmem

variable (env) in
theorem wanted_indexKeys (hlen : drawn.length = desired.length) :
    (wanted desired drawn).map (indexKey env) = desired.map fun d => titleWindow env d.title d.window := by
  induction desired generalizing drawn with
  | nil => rfl
  | cons d desired ih =>
    cases drawn with
    | nil => cases hlen
    | cons x drawn => exact congrArg _ (ih (Nat.succ.inj hlen))

theorem wanted_sortOrders (hlen : drawn.length = desired.length) :
    (wanted desired drawn).map Slot.sortOrder = desired.map DesiredSlot.sortOrder := by
  induction desired generalizing drawn with
  | nil => rfl
  | cons d desired ih =>
    cases drawn with
    | nil => cases hlen
    | cons x drawn => exact congrArg _ (ih (Nat.succ.inj hlen))

theorem take_wanted (k : ℕ) : (wanted desired drawn).take k = wanted (desired.take k) (drawn.take k) :=
    List.take_zipWith

/-! ## What is in the way -/

variable (env) in
/-- The slot while it waits for its own write. -/
def waiting (desired : List DesiredSlot) (q : Slot) : Slot :=
  if changed (slotIdentityKey env) desired q then park q else q

variable (env) in
/-- No slot that waits has the key of one that is parked or written, and the listed titles differ in lower case. -/
structure Unhindered (existing : List Slot) (desired : List DesiredSlot) : Prop where
  titles : desired.Pairwise fun a b => titleWindow env a.title a.window ≠ titleWindow env b.title b.window
  parking : ∀ i r, (rekeying env existing desired)[i]? = some r → ∀ q ∈ remaining existing desired,
    q.id ∉ ((rekeying env existing desired).take (i + 1)).map Slot.id → indexKey env q ≠ indexKey env (park r)
  writing : ∀ i d, desired[i]? = some d → ∀ q ∈ remaining existing desired,
    some q.id ∉ (desired.take (i + 1)).map DesiredSlot.id →
      indexKey env (waiting env desired q) ≠ titleWindow env d.title d.window

theorem waiting_id : (waiting env desired q).id = q.id := by
  unfold waiting
  split <;> rfl

theorem map_park_ids (l : List Slot) : (l.map park).map Slot.id = l.map Slot.id := by
  rw [List.map_map]
  rfl

theorem indexKey_park : indexKey env (park r) = (r.id.text, r.window) := Prod.ext (env.lower_uuid r.id) rfl

theorem parked_keys {l : List Slot} (h : (l.map Slot.id).Nodup) :
    (l.map park).Pairwise fun a b => indexKey env a ≠ indexKey env b := by
  rw [List.pairwise_map]
  refine (List.pairwise_map.mp h).imp fun hne hkey => hne ?_
  rw [indexKey_park, indexKey_park] at hkey
  exact Uuid.ext (congrArg Prod.fst hkey)

theorem remaining_ids_nodup (h : (existing.map Slot.id).Nodup) : ((remaining existing desired).map Slot.id).Nodup :=
  h.sublist (List.filter_sublist.map Slot.id)

variable (env desired) in
theorem rekeying_ids_nodup (h : (existing.map Slot.id).Nodup) : ((rekeying env existing desired).map Slot.id).Nodup :=
  (remaining_ids_nodup h).sublist (List.filter_sublist.map Slot.id)

theorem mem_rekeying : q ∈ rekeying env existing desired ↔
    q ∈ remaining existing desired ∧ changed (slotIdentityKey env) desired q = true := List.mem_filter

/-- When the parking is not refused. -/
theorem exists_rekeyed_iff (h : (existing.map Slot.id).Nodup) :
    (∃ parked, rekeySlotsInTx env existing desired = some parked) ↔
      ∀ i r, (rekeying env existing desired)[i]? = some r → ∀ q ∈ remaining existing desired,
        q.id ∉ ((rekeying env existing desired).take (i + 1)).map Slot.id → indexKey env q ≠ indexKey env (park r) := by
  have hids := rekeying_ids_nodup env desired h
  rw [rekeySlotsInTx, exists_writeAll_iff (by rwa [map_park_ids]), Clear, and_iff_right (parked_keys hids)]
  constructor
  · intro hclear i r hr q hq hnot
    refine hclear i (park r) (by rw [List.getElem?_map, hr]; rfl) q hq ?_
    rwa [← List.map_take, map_park_ids]
  · intro hclear i w hw q hq hnot
    rw [List.getElem?_map, Option.map_eq_some_iff] at hw
    obtain ⟨r, hr, rfl⟩ := hw
    rw [← List.map_take, map_park_ids] at hnot
    exact hclear i r hr q hq hnot

/-- Every slot that is left is in the table once, parked or as it was. -/
theorem mem_parked {parked : List Slot} (h : (existing.map Slot.id).Nodup)
    (hparked : rekeySlotsInTx env existing desired = some parked) :
    r ∈ parked ↔ ∃ q ∈ remaining existing desired, r = waiting env desired q := by
  have hids := rekeying_ids_nodup env desired h
  rw [mem_writeAll (by rwa [map_park_ids]) hparked, map_park_ids]
  constructor
  · rintro (hmem | ⟨hq, hnot⟩)
    · obtain ⟨q, hq, rfl⟩ := List.mem_map.mp hmem
      obtain ⟨hleft, hchanged⟩ := mem_rekeying.mp hq
      exact ⟨q, hleft, (if_pos hchanged).symm⟩
    · refine ⟨r, hq, (if_neg fun hchanged => hnot ?_).symm⟩
      exact List.mem_map_of_mem (mem_rekeying.mpr ⟨hq, hchanged⟩)
  · rintro ⟨q, hq, rfl⟩
    by_cases hchanged : changed (slotIdentityKey env) desired q = true
    · exact .inl (List.mem_map.mpr ⟨q, mem_rekeying.mpr ⟨hq, hchanged⟩, (if_pos hchanged).symm⟩)
    · have hsame : waiting env desired q = q := if_neg hchanged
      rw [hsame]
      refine .inr ⟨hq, fun hmem => hchanged ?_⟩
      obtain ⟨q', hq', hid⟩ := List.mem_map.mp hmem
      have heq : q' = q := List.inj_on_of_nodup_map (remaining_ids_nodup h) (mem_rekeying.mp hq').1 hq hid
      exact heq ▸ (mem_rekeying.mp hq').2

theorem parked_ids_nodup {parked : List Slot} (h : (existing.map Slot.id).Nodup)
    (hparked : rekeySlotsInTx env existing desired = some parked) : (parked.map Slot.id).Nodup :=
  nodup_writeAll (remaining_ids_nodup h) hparked

/-- When no slot of the list is refused. -/
theorem exists_written_iff {parked : List Slot} (hg : Given env existing desired drawn)
    (hparked : rekeySlotsInTx env existing desired = some parked) :
    (∃ final, writeSlotsInTx env parked desired drawn = some final) ↔
      desired.Pairwise (fun a b => titleWindow env a.title a.window ≠ titleWindow env b.title b.window) ∧
        ∀ i d, desired[i]? = some d → ∀ q ∈ remaining existing desired,
          some q.id ∉ (desired.take (i + 1)).map DesiredSlot.id →
            indexKey env (waiting env desired q) ≠ titleWindow env d.title d.window := by
  obtain ⟨hdrawn, hold, hdisj⟩ := List.nodup_append'.mp hg.fresh
  have hnew : ∀ id ∈ keep desired, id ∉ drawn := fun id hid hmem => hdisj hmem (hg.known id hid)
  have hids := nodup_wanted_ids hg.length hg.kept hdrawn hnew
  have hkeys := wanted_indexKeys env hg.length
  have htaken : ∀ k, ∀ q ∈ remaining existing desired,
      (q.id ∈ ((wanted desired drawn).take k).map Slot.id ↔ some q.id ∈ (desired.take k).map DesiredSlot.id) := by
    intro k q hq
    have hnot : q.id ∉ drawn.take k := fun hmem =>
      hdisj (List.mem_of_mem_take hmem) (List.mem_map_of_mem (List.mem_of_mem_filter hq))
    rw [take_wanted, mem_wanted_ids (by rw [List.length_take, List.length_take, hg.length]) hnot, mem_keep]
  rw [writeSlotsInTx, exists_writeAll_iff hids, Clear]
  refine and_congr ?_ ?_
  · rw [← List.pairwise_map (f := indexKey env) (R := (· ≠ ·)), hkeys, List.pairwise_map]
  constructor
  · intro hclear i d hd q hq hnot
    have hkey := congrArg (·[i]?) hkeys
    simp only [List.getElem?_map, hd, Option.map_some, Option.map_eq_some_iff] at hkey
    obtain ⟨w, hw, hwkey⟩ := hkey
    rw [← hwkey]
    refine hclear i w hw _ ((mem_parked hold hparked).mpr ⟨q, hq, rfl⟩) ?_
    rwa [waiting_id, htaken (i + 1) q hq]
  · intro hclear i w hw r hr hnot
    obtain ⟨q, hq, rfl⟩ := (mem_parked hold hparked).mp hr
    have hkey := congrArg (·[i]?) hkeys
    simp only [List.getElem?_map, hw, Option.map_some] at hkey
    obtain ⟨d, hd, hdkey⟩ := Option.map_eq_some_iff.mp hkey.symm
    rw [← hdkey]
    rw [waiting_id, htaken (i + 1) q hq] at hnot
    exact hclear i d hd q hq hnot

/-- The slots that are written are all there is in the end. -/
theorem perm_wanted {parked final : List Slot} (hg : Given env existing desired drawn)
    (hparked : rekeySlotsInTx env existing desired = some parked)
    (hfinal : writeSlotsInTx env parked desired drawn = some final) : final.Perm (wanted desired drawn) := by
  obtain ⟨hdrawn, hold, hdisj⟩ := List.nodup_append'.mp hg.fresh
  have hnew : ∀ id ∈ keep desired, id ∉ drawn := fun id hid hmem => hdisj hmem (hg.known id hid)
  have hids := nodup_wanted_ids hg.length hg.kept hdrawn hnew
  have hnodup := nodup_writeAll (parked_ids_nodup hold hparked) hfinal
  refine (List.perm_ext_iff_of_nodup hnodup.of_map hids.of_map).mpr fun w => ?_
  rw [mem_writeAll hids hfinal]
  refine or_iff_left fun hstays => hstays.2 ?_
  obtain ⟨q, hq, rfl⟩ := (mem_parked hold hparked).mp hstays.1
  obtain ⟨hmem, hkept⟩ := List.mem_filter.mp hq
  rw [waiting_id, mem_wanted_ids hg.length fun hid => hdisj hid (List.mem_map_of_mem hmem)]
  exact of_decide_eq_true hkept

theorem wanted_sorted (hlen : drawn.length = desired.length)
    (h : desired.Pairwise fun a b => a.sortOrder < b.sortOrder) :
    (wanted desired drawn).Pairwise fun a b => a.sortOrder < b.sortOrder := by
  rw [← List.pairwise_map (f := Slot.sortOrder) (R := (· < ·)), wanted_sortOrders hlen, List.pairwise_map]
  exact h

instance : Std.Total Listed where
  total a b := le_total (toLex (a.sortOrder, a.id.text)) (toLex (b.sortOrder, b.id.text))

instance : IsTrans Slot Listed where
  trans _ _ _ hab hbc := le_trans hab hbc

/-- Slots that were listed in ascending order are read in that order. -/
theorem insertionSort_of_perm {final ws : List Slot} (hperm : final.Perm ws)
    (hws : ws.Pairwise fun a b => a.sortOrder < b.sortOrder) : final.insertionSort Listed = ws := by
  have hlisted : ws.Pairwise Listed := hws.imp fun hlt => Prod.Lex.toLex_le_toLex.mpr (.inl hlt)
  refine ((List.perm_insertionSort Listed final).trans hperm).eq_of_pairwise (fun a b ha hb hab hba => ?_)
    (List.pairwise_insertionSort Listed final) hlisted
  have ha : a ∈ ws := hperm.subset ((List.mem_insertionSort Listed).mp ha)
  have hkey := congrArg ofLex (le_antisymm hab hba)
  have hsort : a.sortOrder = b.sortOrder := congrArg Prod.fst hkey
  have hdistinct : (ws.map Slot.sortOrder).Nodup := List.pairwise_map.mpr (hws.imp ne_of_lt)
  exact List.inj_on_of_nodup_map hdistinct ha hb hsort

variable (env) in
/-- The event ends with the listed slots alone, those that were kept under their ids, and they are read in their
order. -/
def Reconciled (existing : List Slot) (claims : List Claim) (desired : List DesiredSlot) (actorId : Option Uuid)
    (drawn : List Uuid) : Prop :=
  ∃ final result, reconcileSlotsInTx env existing claims desired actorId drawn = .ok (final, result) ∧
    final.Perm (wanted desired drawn) ∧
    ((desired.Pairwise fun a b => a.sortOrder < b.sortOrder) → final.insertionSort Listed = wanted desired drawn)

theorem reconcile_eq (hg : Given env existing desired drawn) (claims : List Claim) (actorId : Option Uuid)
    (final : List Slot) :
    (∃ result, reconcileSlotsInTx env existing claims desired actorId drawn = .ok (final, result)) ↔
      ∃ parked, rekeySlotsInTx env existing desired = some parked ∧
        writeSlotsInTx env parked desired drawn = some final := by
  have hknown : ((keep desired).find? fun id => id ∉ existing.map Slot.id) = none :=
    List.find?_eq_none.mpr fun id hid => by
      rw [decide_eq_true_eq, not_not]
      exact hg.known id hid
  unfold reconcileSlotsInTx
  rw [hknown]
  cases rekeySlotsInTx env existing desired with
  | none => exact iff_of_false (fun ⟨_, h⟩ => by cases h) fun ⟨_, h, _⟩ => by cases h
  | some parked =>
    simp only [Option.some.injEq, exists_eq_left']
    cases writeSlotsInTx env parked desired drawn with
    | none => exact iff_of_false (fun ⟨_, h⟩ => by cases h) fun h => by cases h
    | some t =>
      constructor
      · rintro ⟨_, h⟩
        rw [Except.ok.injEq, Prod.mk.injEq] at h
        rw [h.1]
      · intro h
        rw [Option.some.injEq] at h
        rw [h]
        exact ⟨_, rfl⟩

/-- When the list is reached. -/
theorem reconciled_iff (t : Slots env) (claims : List Claim) (actorId : Option Uuid)
    (hg : Given env t.rows desired drawn) :
    Reconciled env t.rows claims desired actorId drawn ↔ Unhindered env t.rows desired := by
  constructor
  · rintro ⟨final, result, hok, -, -⟩
    obtain ⟨parked, hparked, hfinal⟩ := (reconcile_eq hg claims actorId final).mp ⟨result, hok⟩
    have hrekeyed := (exists_rekeyed_iff t.ids).mp ⟨parked, hparked⟩
    obtain ⟨htitles, hwriting⟩ := (exists_written_iff hg hparked).mp ⟨final, hfinal⟩
    exact ⟨htitles, hrekeyed, hwriting⟩
  · rintro ⟨htitles, hparking, hwriting⟩
    obtain ⟨parked, hparked⟩ := (exists_rekeyed_iff t.ids).mpr hparking
    obtain ⟨final, hfinal⟩ := (exists_written_iff hg hparked).mpr ⟨htitles, hwriting⟩
    obtain ⟨result, hok⟩ := (reconcile_eq hg claims actorId final).mpr ⟨parked, hparked, hfinal⟩
    have hperm := perm_wanted hg hparked hfinal
    exact ⟨final, result, hok, hperm, fun hsorted => insertionSort_of_perm hperm (wanted_sorted hg.length hsorted)⟩

theorem exists_same_key (hq : q ∈ remaining existing desired) (hsame : changed (slotIdentityKey env) desired q ≠ true) :
    ∃ d ∈ desired, d.id = some q.id ∧ slotIdentityKey env q.title q.window = slotIdentityKey env d.title d.window := by
  obtain ⟨d, hd, hid⟩ := List.mem_filterMap.mp (of_decide_eq_true (List.mem_filter.mp hq).2)
  refine ⟨d, hd, hid, not_not.mp fun hne => hsame ?_⟩
  exact List.any_eq_true.mpr ⟨d, hd, Bool.and_eq_true_iff.mpr ⟨decide_eq_true hid, decide_eq_true hne⟩⟩

/-- Titles may be swapped, rotated or handed on when none reads as the id of a slot and the index tells them apart as
`slotIdentityKey` does. -/
theorem unhindered_of_titles (hg : Given env existing desired drawn)
    (hold : ∀ s ∈ existing, ∀ q ∈ existing, env.lower q.title ≠ s.id.text)
    (hnew : ∀ s ∈ existing, ∀ d ∈ desired, env.lower d.title ≠ s.id.text)
    (htitles : desired.Pairwise fun a b => titleWindow env a.title a.window ≠ titleWindow env b.title b.window)
    (hlower : ∀ q ∈ existing, ∀ d ∈ desired, indexKey env q = titleWindow env d.title d.window →
      slotIdentityKey env q.title q.window = slotIdentityKey env d.title d.window) :
    Unhindered env existing desired where
  titles := htitles
  parking i r hr q hq _ hkey := by
    rw [indexKey_park] at hkey
    have hr : r ∈ existing := List.mem_of_mem_filter (List.mem_of_mem_filter (List.mem_of_getElem? hr))
    exact hold r hr q (List.mem_of_mem_filter hq) (congrArg Prod.fst hkey)
  writing i d hd q hq hwaits hkey := by
    by_cases hsame : changed (slotIdentityKey env) desired q = true
    · rw [waiting, if_pos hsame, indexKey_park] at hkey
      exact hnew q (List.mem_of_mem_filter hq) d (List.mem_of_getElem? hd) (congrArg Prod.fst hkey).symm
    · rw [waiting, if_neg hsame] at hkey
      obtain ⟨d', hd', hid, hkeys⟩ := exists_same_key hq hsame
      obtain ⟨j, hj⟩ := List.mem_iff_getElem?.mp hd'
      have hlt : i < j := by
        by_contra hle
        refine hwaits (List.mem_map.mpr ⟨d', List.mem_of_getElem? (i := j) ?_, hid⟩)
        rw [List.getElem?_take_of_lt (by omega), hj]
      refine (List.pairwise_iff_getElem.mp hg.keys) i j (List.getElem?_eq_some_iff.mp hd).1
        (List.getElem?_eq_some_iff.mp hj).1 hlt ?_
      rw [(List.getElem?_eq_some_iff.mp hd).2, (List.getElem?_eq_some_iff.mp hj).2, ← hkeys]
      exact (hlower q (List.mem_of_mem_filter hq) d (List.mem_of_getElem? hd) hkey).symm

end

/-! ## A title that is an id -/

def firstSlot : Uuid := ⟨MIN_UUID, isUuid_minUuid, lower_minUuid⟩

def lastSlot : Uuid := ⟨MAX_UUID, isUuid_maxUuid, lower_maxUuid⟩

/-- Case is that of ASCII. -/
def asciiPlatform : Platform := ⟨(·.map CodeUnits.lower), (·.map CodeUnits.lower), Uuid.lower⟩

def untimed (id : Uuid) (title : Text) (sortOrder : ℤ) : Slot := ⟨id, title, none, none, none, sortOrder⟩

def listed (id : Option Uuid) (title : Text) (sortOrder : ℤ) : DesiredSlot := ⟨id, title, none, none, none, sortOrder⟩

def paintAndRake : Slots asciiPlatform :=
  ⟨[untimed firstSlot (text "Paint") 0, untimed lastSlot (text "Rake") 1], by decide, by decide⟩

/-- The two titles swapped. -/
def swapped : List DesiredSlot := [listed (some firstSlot) (text "Rake") 0, listed (some lastSlot) (text "Paint") 1]

def drawnTwo : List Uuid :=
  [⟨text "10000000-0000-0000-0000-000000000000", by decide, by decide⟩,
    ⟨text "20000000-0000-0000-0000-000000000000", by decide, by decide⟩]

theorem swapped_given : Given asciiPlatform paintAndRake.rows swapped drawnTwo where
  kept := by decide
  known := by decide
  keys := by decide
  length := rfl
  fresh := by decide

theorem swapped_reconciled : Reconciled asciiPlatform paintAndRake.rows [] swapped none drawnTwo :=
  (reconciled_iff paintAndRake [] none swapped_given).mpr
    (unhindered_of_titles swapped_given (by decide) (by decide) (by decide) (by decide))

/-- The last slot is titled with the id of the first. -/
def namedAfterFirst : Slots asciiPlatform :=
  ⟨[untimed firstSlot (text "Paint") 0, untimed lastSlot MIN_UUID 1], by decide, by decide⟩

/-- The first slot gets a new title. -/
def retitled : List DesiredSlot := [listed (some firstSlot) (text "Rake") 0, listed (some lastSlot) MIN_UUID 1]

theorem retitled_refused :
    Given asciiPlatform namedAfterFirst.rows retitled drawnTwo ∧
      reconcileSlotsInTx asciiPlatform namedAfterFirst.rows [] retitled none drawnTwo = .error .uniqueViolation ∧
      ¬Reconciled asciiPlatform namedAfterFirst.rows [] retitled none drawnTwo := by
  have hrefused : reconcileSlotsInTx asciiPlatform namedAfterFirst.rows [] retitled none drawnTwo =
      .error .uniqueViolation := by decide +kernel
  refine ⟨⟨by decide, by decide, by decide, rfl, by decide⟩, hrefused, ?_⟩
  rintro ⟨final, result, hok, -⟩
  rw [hrefused] at hok
  cases hok

end Civfix.SlotReconciliation
