import Mathlib.Data.List.Nodup
import Mathlib.Data.List.Perm.Basic

/-! # Writes under a unique index

The rows of a table have an id and a key, and a unique index refuses a write that would give a second row the key. The
index is checked at every write, so a row that waits for its own write still holds its old key. -/
namespace UniqueIndexes

variable {ρ ι κ : Type} [DecidableEq ι] [DecidableEq κ] {id : ρ → ι} {key : ρ → κ} {t ws : List ρ} {q w : ρ}

/-- UPDATE of the row with the id, or INSERT when there is none. -/
def put (id : ρ → ι) (t : List ρ) (w : ρ) : List ρ :=
  if id w ∈ t.map id then t.map fun q => if id q = id w then w else q else t ++ [w]

/-- The index refuses the write when another row has the key. -/
def write (id : ρ → ι) (key : ρ → κ) (t : List ρ) (w : ρ) : Option (List ρ) :=
  if t.any fun q => decide (id q ≠ id w) && decide (key q = key w) then none else some (put id t w)

/-- The writes one after another, until one is refused. -/
def writeAll (id : ρ → ι) (key : ρ → κ) : List ρ → List ρ → Option (List ρ)
  | t, [] => some t
  | t, w :: ws => (write id key t w).bind fun t' => writeAll id key t' ws

theorem mem_put : q ∈ put id t w ↔ q = w ∨ (q ∈ t ∧ id q ≠ id w) := by
  unfold put
  split
  · next hmem =>
    rw [List.mem_map]
    constructor
    · rintro ⟨q', hq', rfl⟩
      split
      · exact .inl rfl
      · next hne => exact .inr ⟨hq', hne⟩
    · rintro (rfl | ⟨hq, hne⟩)
      · obtain ⟨q', hq', hid⟩ := List.mem_map.mp hmem
        exact ⟨q', hq', if_pos hid⟩
      · exact ⟨q, hq, if_neg hne⟩
  · next hmem =>
    rw [List.mem_append, List.mem_singleton, or_comm]
    refine or_congr_right (and_iff_left_of_imp fun hq hid => ?_).symm
    exact hmem (hid ▸ List.mem_map_of_mem hq)

theorem nodup_put (h : (t.map id).Nodup) : ((put id t w).map id).Nodup := by
  unfold put
  split
  · have hids : (t.map fun q => if id q = id w then w else q).map id = t.map id := by
      rw [List.map_map]
      refine List.map_congr_left fun q _ => ?_
      rw [Function.comp_apply]
      split
      · next hid => exact hid.symm
      · rfl
    rwa [hids]
  · next hmem =>
    rw [List.map_append, List.map_singleton]
    exact List.nodup_append'.mpr ⟨h, List.nodup_singleton _, List.disjoint_singleton.mpr hmem⟩

theorem write_eq_some {t' : List ρ} :
    write id key t w = some t' ↔ (∀ q ∈ t, id q ≠ id w → key q ≠ key w) ∧ put id t w = t' := by
  unfold write
  split
  · next hany =>
    obtain ⟨q, hq, hboth⟩ := List.any_eq_true.mp hany
    rw [Bool.and_eq_true, decide_eq_true_eq, decide_eq_true_eq] at hboth
    exact iff_of_false (fun h => by cases h) fun h => h.1 q hq hboth.1 hboth.2
  · next hany =>
    rw [Option.some.injEq]
    refine (and_iff_right fun q hq hid hkey => hany ?_).symm
    exact List.any_eq_true.mpr ⟨q, hq, by rw [Bool.and_eq_true, decide_eq_true_eq, decide_eq_true_eq]; exact ⟨hid,
      hkey⟩⟩

theorem nodup_writeAll {t' : List ρ} (h : (t.map id).Nodup) (hw : writeAll id key t ws = some t') :
    (t'.map id).Nodup := by
  induction ws generalizing t with
  | nil =>
    cases hw
    exact h
  | cons w ws ih =>
    obtain ⟨t₁, hwrite, hrest⟩ := Option.bind_eq_some_iff.mp hw
    obtain ⟨-, rfl⟩ := write_eq_some.mp hwrite
    exact ih (nodup_put h) hrest

/-- The rows that were written, and those of the others that were there. -/
theorem mem_writeAll {t' : List ρ} (hids : (ws.map id).Nodup) (hw : writeAll id key t ws = some t') :
    q ∈ t' ↔ q ∈ ws ∨ (q ∈ t ∧ id q ∉ ws.map id) := by
  induction ws generalizing t with
  | nil =>
    cases hw
    simp only [List.not_mem_nil, List.map_nil, not_false_eq_true, and_true, false_or]
  | cons w ws ih =>
    obtain ⟨t₁, hwrite, hrest⟩ := Option.bind_eq_some_iff.mp hw
    obtain ⟨-, rfl⟩ := write_eq_some.mp hwrite
    rw [List.map_cons, List.nodup_cons] at hids
    rw [ih hids.2 hrest, mem_put, List.mem_cons, List.map_cons, List.mem_cons, not_or]
    constructor
    · rintro (hq | ⟨rfl | ⟨hq, hne⟩, hnot⟩)
      · exact .inl (.inr hq)
      · exact .inl (.inl rfl)
      · exact .inr ⟨hq, hne, hnot⟩
    · rintro ((rfl | hq) | ⟨hq, hne, hnot⟩)
      · exact .inr ⟨.inl rfl, hids.1⟩
      · exact .inl hq
      · exact .inr ⟨.inr ⟨hq, hne⟩, hnot⟩

/-- A write meets no row of its key: neither one that was written before it nor one that still waits. -/
def Clear (id : ρ → ι) (key : ρ → κ) (t ws : List ρ) : Prop :=
  ws.Pairwise (fun a b => key a ≠ key b) ∧
    ∀ i w, ws[i]? = some w → ∀ q ∈ t, id q ∉ (ws.take (i + 1)).map id → key q ≠ key w

omit [DecidableEq κ] in
theorem clear_cons (hids : ((w :: ws).map id).Nodup) :
    Clear id key t (w :: ws) ↔ (∀ q ∈ t, id q ≠ id w → key q ≠ key w) ∧ Clear id key (put id t w) ws := by
  rw [List.map_cons, List.nodup_cons] at hids
  constructor
  · rintro ⟨hpair, hwait⟩
    rw [List.pairwise_cons] at hpair
    refine ⟨fun q hq hne => hwait 0 w rfl q hq (List.not_mem_cons_of_ne_of_not_mem hne List.not_mem_nil), hpair.2,
      fun i w' hw' q hq hnot => ?_⟩
    rcases mem_put.mp hq with rfl | ⟨hq, hne⟩
    · exact hpair.1 w' (List.mem_of_getElem? hw')
    · exact hwait (i + 1) w' hw' q hq (List.not_mem_cons_of_ne_of_not_mem hne hnot)
  · rintro ⟨hhere, hpair, hwait⟩
    refine ⟨List.pairwise_cons.mpr ⟨fun w' hw' => ?_, hpair⟩, fun i w' hw' q hq hnot => ?_⟩
    · obtain ⟨i, hi⟩ := List.mem_iff_getElem?.mp hw'
      refine hwait i w' hi w (mem_put.mpr (.inl rfl)) fun hmem => hids.1 ?_
      obtain ⟨q, hq, hid⟩ := List.mem_map.mp hmem
      exact hid ▸ List.mem_map_of_mem (List.mem_of_mem_take hq)
    · cases i with
      | zero =>
        cases hw'
        exact hhere q hq fun hid => hnot (hid ▸ List.mem_cons_self)
      | succ i =>
        rw [List.take_succ_cons, List.map_cons, List.mem_cons, not_or] at hnot
        exact hwait i w' hw' q (mem_put.mpr (.inr ⟨hq, hnot.1⟩)) hnot.2

/-- When no write is refused. -/
theorem exists_writeAll_iff (hids : (ws.map id).Nodup) :
    (∃ t', writeAll id key t ws = some t') ↔ Clear id key t ws := by
  induction ws generalizing t with
  | nil =>
    exact iff_of_true ⟨t, rfl⟩ ⟨.nil, fun i w hw => (by cases hw)⟩
  | cons w ws ih =>
    have hids' := hids
    rw [List.map_cons, List.nodup_cons] at hids'
    rw [clear_cons hids, ← ih hids'.2]
    constructor
    · rintro ⟨t', hw⟩
      obtain ⟨t₁, hwrite, hrest⟩ := Option.bind_eq_some_iff.mp hw
      obtain ⟨hhere, rfl⟩ := write_eq_some.mp hwrite
      exact ⟨hhere, t', hrest⟩
    · rintro ⟨hhere, t', hrest⟩
      exact ⟨t', Option.bind_eq_some_iff.mpr ⟨_, write_eq_some.mpr ⟨hhere, rfl⟩, hrest⟩⟩

end UniqueIndexes
