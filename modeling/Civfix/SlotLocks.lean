import Civfix.AttendanceGuarantees

/-! # Claims of slots

`claimSlot` and a registration both hold the slot row while they count its claims and make their own. `slotEngine` is the
storage engine of the attendance tables seen from the slots: a claim is made under the row of its slot, and that row
keeps others from claiming it. -/
namespace Civfix.Attendance

open KeyedTables LockedTransactions

/-! ## The engine -/

/-- The row that a claim is counted under. -/
def Write.slotLock : Write → List Lock
  | .claimSlot _ _ slot => [⟨.slot slot, .update⟩]
  | _ => []

theorem Write.Quiet.slotLock {w : Write} (h : w.Quiet) : w.slotLock = [] := by
  cases w with
  | claimSlot c u slot => cases h.1
  | _ => rfl

namespace Db

/-- A slot on file stays on file. -/
def SlotsStay (a b : Db) : Prop := ∀ slot, Table.PersistAt Eq slot a.slots b.slots

def NoNewClaims (slot : Id) (a b : Db) : Prop :=
  Table.NoNew (fun c : SlotClaim => decide (c.slotId = slot) = true) a.slotClaims b.slotClaims

/-- The claims that `slotFull` counts. -/
def claimsOn (s : Db) (slot : Id) : ℕ := (s.slotClaims.rows.filter (fun c => decide (c.slotId = slot))).length

variable {a b c : Db} {slot : Id}

theorem SlotsStay.refl (a : Db) : SlotsStay a a := fun _ => .refl (fun _ => rfl) _ _

theorem SlotsStay.find? (h : SlotsStay a b) {x : Slot} (hx : a.slots.find? slot = some x) :
    b.slots.find? slot = some x := by
  obtain ⟨y, hy, rfl⟩ := h slot x hx
  exact hy

theorem SlotsStay.trans (h : SlotsStay a b) (h' : SlotsStay b c) : SlotsStay a c :=
  fun _ x hx => ⟨x, h'.find? (h.find? hx), rfl⟩

theorem slotsStay_write (s : Db) (w : Write) : SlotsStay s (s.apply w) := by
  intro slot
  cases w with
  | insertSlot x => exact .insert (fun _ => rfl) slot _ x
  | _ => exact .refl (fun _ => rfl) slot _

theorem NoNewClaims.claimsOn_le (h : NoNewClaims slot a b) : b.claimsOn slot ≤ a.claimsOn slot :=
  Table.NoNew.length_filter_le h

theorem noNewClaims_write (s : Db) {w : Write} (hw : ⟨.slot slot, .update⟩ ∉ w.slotLock) :
    NoNewClaims slot s (s.apply w) := by
  cases w with
  | claimSlot c u slot' =>
    refine (Table.NoNew.remove s.slotClaims (c, u)).trans (.insert _ _ fun hslot => hw ?_)
    rw [Write.slotLock, ← of_decide_eq_true hslot]
    exact List.mem_singleton_self _
  | deleteSlotClaim c u => exact .remove _ (c, u)
  | _ => exact .refl _ _

/-- One more claim at most. -/
theorem claimsOn_claimSlot (s : Db) (c u slot : Id) : (s.apply (.claimSlot c u slot)).claimsOn slot ≤ s.claimsOn slot + 1 := by
  have hnone : (s.slotClaims.remove (c, u)).find? ((⟨c, u, slot⟩ : SlotClaim).cleanupId, u) = none := by
    rw [Table.find?_remove, if_pos rfl]
  have hrows : (s.apply (.claimSlot c u slot)).slotClaims.rows = (s.slotClaims.remove (c, u)).rows ++ [⟨c, u, slot⟩] :=
    Table.insert_of_find?_none hnone
  have hle : ((s.slotClaims.remove (c, u)).rows.filter fun x => decide (x.slotId = slot)).length ≤ s.claimsOn slot :=
    Table.NoNew.length_filter_le (Table.NoNew.remove s.slotClaims (c, u))
  rw [claimsOn, hrows, List.filter_append, List.length_append]
  refine Nat.add_le_add hle ?_
  exact List.length_filter_le _ [(⟨c, u, slot⟩ : SlotClaim)]

end Db

/-- What the lock of a slot row keeps. -/
def Lock.KeepsSlot (l : Lock) (a b : Db) : Prop :=
  match l.key with
  | .slot slot => a.slots.find? slot = b.slots.find? slot ∧ Db.NoNewClaims slot a b
  | _ => True

namespace Lock

variable {l : Lock} {a b c : Db} {w : Write} {slot : Id}

theorem keepsSlot_refl (l : Lock) (a : Db) : l.KeepsSlot a a := by
  obtain ⟨key, mode⟩ := l
  cases key with
  | slot slot => exact ⟨rfl, .refl _ _⟩
  | _ => trivial

theorem KeepsSlot.trans (h : l.KeepsSlot a b) (h' : l.KeepsSlot b c) : l.KeepsSlot a c := by
  obtain ⟨key, mode⟩ := l
  cases key with
  | slot slot => exact ⟨h.1.trans h'.1, h.2.trans h'.2⟩
  | _ => trivial

theorem KeepsSlot.apply (w : Write) (h : l.KeepsSlot a b) : l.KeepsSlot (a.apply w) (b.apply w) := by
  obtain ⟨key, mode⟩ := l
  cases key with
  | slot slot =>
    refine ⟨?_, Db.slotClaims_noNew_apply h.2⟩
    cases w with
    | insertSlot x => simp only [Db.apply, Table.find?_insert, h.1]
    | _ => exact h.1
  | _ => trivial

/-- A row lock excludes every write that is made under it. -/
theorem keepsSlot_write (a : Db) (w : Write) (hw : ∀ n ∈ w.rowLocks ++ w.slotLock, ¬ n.Conflict l) :
    l.KeepsSlot a (a.apply w) := by
  obtain ⟨key, mode⟩ := l
  cases key with
  | slot slot =>
    have hnot : ⟨.slot slot, .update⟩ ∉ w.rowLocks ++ w.slotLock := fun hmem =>
      hw _ hmem ⟨rfl, decide_eq_true (Nat.le_add_right 3 _)⟩
    refine ⟨?_, Db.noNewClaims_write a fun hmem => hnot (List.mem_append_right _ hmem)⟩
    cases w with
    | insertSlot x =>
      have hne : slot ≠ x.id := by
        rintro rfl
        exact hnot (by simp [Write.rowLocks])
      simp only [Db.apply, Table.find?_insert, if_neg hne]
    | _ => rfl
  | _ => trivial

end Lock

theorem slotsStay_apply {a b : Db} (w : Write) (h : Db.SlotsStay a b)
    (hn : ∀ n ∈ w.rowLocks ++ w.slotLock, n.KeepsSlot a b) : Db.SlotsStay (a.apply w) (b.apply w) := by
  intro slot
  cases w with
  | insertSlot x =>
    have hrow : (⟨.slot x.id, .update⟩ : Lock).KeepsSlot a b := hn _ (by simp [Write.rowLocks])
    exact (h slot).insert_both (fun _ => rfl) x hrow.1
  | _ => exact h slot

def slotEngine : Engine Db Write Lock where
  apply := Db.apply
  conflict := Lock.Conflict
  needs w := w.rowLocks ++ w.slotLock
  evolves := Db.SlotsStay
  protects := Lock.KeepsSlot
  conflict_symm := Lock.Conflict.symm
  evolves_refl := Db.SlotsStay.refl
  evolves_trans := Db.SlotsStay.trans
  evolves_apply w h hn := slotsStay_apply w h hn
  evolves_write := Db.slotsStay_write
  protects_refl := Lock.keepsSlot_refl
  protects_trans := Lock.KeepsSlot.trans
  protects_apply w _ _ h := h.apply w
  protects_write := Lock.keepsSlot_write

end Civfix.Attendance
