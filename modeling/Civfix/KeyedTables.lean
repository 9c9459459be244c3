import Mathlib.Data.List.Nodup
import Mathlib.Data.List.Basic
import Mathlib.Data.List.Perm.Subperm
import Mathlib.Algebra.Order.BigOperators.Group.List
import Mathlib.Algebra.Order.Ring.Nat

/-! # Tables with a primary key

A table is a list of rows whose keys are pairwise distinct, so that a lookup by key
names at most one row. The three row operations are insertion of a new key, a
rewrite of one row that keeps its key, and deletion. Every column total is a
`List.sum` over the rows, and each operation changes it by the one row it touches. -/
namespace KeyedTables

variable {ρ κ : Type} [DecidableEq κ]

/-- Rows in storage order; no two of them share a key. -/
structure Table (key : ρ → κ) where
  rows : List ρ
  nodup : (rows.map key).Nodup

namespace Table

variable {key : ρ → κ}

def empty (key : ρ → κ) : Table key := ⟨[], by simp⟩

instance : Inhabited (Table key) := ⟨empty key⟩

def find? (t : Table key) (k : κ) : Option ρ := t.rows.find? (fun r => decide (key r = k))

/-- INSERT: a row whose key is taken leaves the table as it is. -/
def insert (t : Table key) (r : ρ) : Table key :=
  if h : key r ∈ t.rows.map key then t
  else ⟨t.rows ++ [r], by
    rw [List.map_append, List.nodup_append]
    refine ⟨t.nodup, by simp, ?_⟩
    intro a ha b hb
    simp only [List.map_cons, List.map_nil, List.mem_singleton] at hb
    rintro rfl
    exact h (hb ▸ ha)⟩

/-- UPDATE of the row with key `k` by a rewrite that keeps the key column. -/
def modify (t : Table key) (k : κ) (f : ρ → ρ) (hf : ∀ r, key (f r) = key r) : Table key :=
  ⟨t.rows.map (fun r => if key r = k then f r else r), by
    have he : (t.rows.map (fun r => if key r = k then f r else r)).map key = t.rows.map key := by
      rw [List.map_map]
      apply List.map_congr_left
      intro r _
      simp only [Function.comp]
      split
      · exact hf r
      · rfl
    rw [he]
    exact t.nodup⟩

/-- DELETE of the row with key `k`. -/
def remove (t : Table key) (k : κ) : Table key :=
  ⟨t.rows.filter (fun r => decide (key r ≠ k)), (List.filter_sublist.map key).nodup t.nodup⟩

/-- The total of one column. -/
def total (t : Table key) (f : ρ → ℕ) : ℕ := (t.rows.map f).sum

theorem find?_eq_some {t : Table key} {k : κ} {r : ρ} (h : t.find? k = some r) :
    r ∈ t.rows ∧ key r = k := by
  refine ⟨List.mem_of_find?_eq_some h, ?_⟩
  simpa using List.find?_some h

theorem key_of_find? {t : Table key} {k : κ} {r : ρ} (h : t.find? k = some r) : key r = k :=
  (find?_eq_some h).2

theorem find?_eq_none {t : Table key} {k : κ} : t.find? k = none ↔ k ∉ t.rows.map key := by
  simp only [find?, List.find?_eq_none, decide_eq_true_eq, List.mem_map, not_exists, not_and]

private theorem find?_of_mem_list (rows : List ρ) (hn : (rows.map key).Nodup) (r : ρ) (hr : r ∈ rows) :
    rows.find? (fun x => decide (key x = key r)) = some r := by
  induction rows with
  | nil => simp at hr
  | cons x xs ih =>
    simp only [List.map_cons, List.nodup_cons] at hn
    rcases List.mem_cons.mp hr with rfl | hr
    · simp
    · have hne : key x ≠ key r := fun he => hn.1 (he ▸ List.mem_map_of_mem hr)
      rw [List.find?_cons_of_neg (by simpa using hne)]
      exact ih hn.2 hr

/-- The rows of a table are exactly what its lookups return. -/
theorem mem_rows_iff {t : Table key} {r : ρ} : r ∈ t.rows ↔ t.find? (key r) = some r :=
  ⟨find?_of_mem_list t.rows t.nodup r, fun h => (find?_eq_some h).1⟩

@[simp] theorem find?_empty (k : κ) : (empty key).find? k = none := rfl

omit [DecidableEq κ] in
@[simp] theorem rows_empty : (empty key).rows = [] := rfl

omit [DecidableEq κ] in
@[simp] theorem total_empty (f : ρ → ℕ) : (empty key).total f = 0 := rfl

theorem insert_of_find?_none {t : Table key} {r : ρ} (h : t.find? (key r) = none) :
    (t.insert r).rows = t.rows ++ [r] := by
  rw [find?_eq_none] at h
  simp [insert, h]

theorem insert_of_find?_some {t : Table key} {r x : ρ} (h : t.find? (key r) = some x) :
    t.insert r = t := by
  have hm : key r ∈ t.rows.map key := by
    obtain ⟨hx, hk⟩ := find?_eq_some h
    exact hk ▸ List.mem_map_of_mem hx
  simp only [insert, hm, ↓reduceDIte]

/-- A key that is greater than all others is free. -/
theorem find?_succ_max {number : ρ → ℕ} (t : Table number) : t.find? ((t.rows.map number).foldr max 0 + 1) = none := by
  have hle : ∀ l : List ℕ, ∀ k ∈ l, k ≤ l.foldr max 0 := by
    intro l k hk
    induction l with
    | nil => cases hk
    | cons a l ih =>
      rcases List.mem_cons.mp hk with rfl | hk
      · exact Nat.le_max_left _ _
      · exact Nat.le_trans (ih hk) (Nat.le_max_right _ _)
  refine find?_eq_none.mpr fun hmem => ?_
  exact absurd (hle _ _ hmem) (Nat.not_le_of_lt (Nat.lt_succ_self _))

theorem find?_insert (t : Table key) (r : ρ) (k : κ) :
    (t.insert r).find? k = if k = key r then some ((t.find? k).getD r) else t.find? k := by
  cases h : t.find? (key r) with
  | some x =>
    rw [insert_of_find?_some h]
    split
    · next hk => subst hk; simp [h]
    · rfl
  | none =>
    rw [find?, insert_of_find?_none h, List.find?_append]
    by_cases hk : k = key r
    · subst hk
      have h' : t.rows.find? (fun x => decide (key x = key r)) = none := h
      simp [h', h]
    · have hk' : ¬ key r = k := fun he => hk he.symm
      simp [find?, hk, hk']

private theorem find?_map_modify (rows : List ρ) (k k' : κ) (f : ρ → ρ) (hf : ∀ r, key (f r) = key r) :
    (rows.map (fun r => if key r = k then f r else r)).find? (fun r => decide (key r = k')) =
      if k' = k then (rows.find? (fun r => decide (key r = k'))).map f
      else rows.find? (fun r => decide (key r = k')) := by
  induction rows with
  | nil => simp
  | cons x xs ih =>
    by_cases hx : key x = k
    · by_cases hk : k' = k
      · subst hk
        simp [hx, hf]
      · have hne : ¬ key x = k' := fun he => hk (he ▸ hx)
        simp only [List.map_cons, hx, ↓reduceIte, hk]
        rw [List.find?_cons_of_neg (by simpa [hf, hx] using fun he : k = k' => hk he.symm),
          List.find?_cons_of_neg (by simpa using hne), ih, if_neg hk]
    · by_cases hk' : key x = k'
      · have hne : ¬ k' = k := fun he => hx (hk'.trans he)
        simp [hk', hne]
      · simp only [List.map_cons, hx, ↓reduceIte]
        rw [List.find?_cons_of_neg (by simpa using hk'), List.find?_cons_of_neg (by simpa using hk'), ih]

theorem find?_modify (t : Table key) (k k' : κ) (f : ρ → ρ) (hf : ∀ r, key (f r) = key r) :
    (t.modify k f hf).find? k' = if k' = k then (t.find? k').map f else t.find? k' :=
  find?_map_modify t.rows k k' f hf

theorem find?_remove (t : Table key) (k k' : κ) :
    (t.remove k).find? k' = if k' = k then none else t.find? k' := by
  unfold find? remove
  rw [List.find?_filter]
  by_cases hk : k' = k
  · subst hk
    simp
  · rw [if_neg hk]
    congr 1
    funext r
    by_cases hr : key r = k'
    · simp [hr, hk]
    · simp [hr]

/-- SET of a key-value store: the row takes the place of the one with its key, if any. -/
def put (t : Table key) (r : ρ) : Table key := (t.remove (key r)).insert r

theorem find?_put (t : Table key) (r : ρ) (k : κ) :
    (t.put r).find? k = if k = key r then some r else t.find? k := by
  simp only [put, find?_insert, find?_remove]
  by_cases hk : k = key r
  · simp [hk]
  · simp [hk]

/-- DELETE of every row without `p`. -/
def filter (t : Table key) (p : ρ → Bool) : Table key :=
  ⟨t.rows.filter p, (List.filter_sublist.map key).nodup t.nodup⟩

theorem find?_filter (t : Table key) (p : ρ → Bool) (k : κ) : (t.filter p).find? k = (t.find? k).filter p := by
  ext r
  simp only [Option.filter_eq_some_iff]
  constructor
  · intro h
    obtain ⟨hmem, hk⟩ := find?_eq_some h
    rw [filter, List.mem_filter] at hmem
    exact ⟨hk ▸ mem_rows_iff.mp hmem.1, hmem.2⟩
  · rintro ⟨h, hp⟩
    obtain ⟨hmem, rfl⟩ := find?_eq_some h
    exact mem_rows_iff.mp (List.mem_filter.mpr ⟨hmem, hp⟩)

/-- UPDATE of the rows that satisfy `p`. -/
def update (t : Table key) (p : ρ → Bool) (f : ρ → ρ) (hf : ∀ r, key (f r) = key r) : Table key :=
  ⟨t.rows.map (fun r => if p r then f r else r), by
    have he : (t.rows.map (fun r => if p r then f r else r)).map key = t.rows.map key := by
      rw [List.map_map]
      apply List.map_congr_left
      intro r _
      simp only [Function.comp]
      split
      · exact hf r
      · rfl
    rw [he]
    exact t.nodup⟩

theorem find?_update (t : Table key) (p : ρ → Bool) (f : ρ → ρ) (hf : ∀ r, key (f r) = key r) (k : κ) :
    (t.update p f hf).find? k = (t.find? k).map (fun r => if p r then f r else r) := by
  unfold find? update
  rw [List.find?_map]
  congr 1
  refine congrArg (List.find? · t.rows) (funext fun r => ?_)
  simp only [Function.comp]
  split
  · rw [hf r]
  · rfl

theorem total_insert {t : Table key} {r : ρ} (h : t.find? (key r) = none) (f : ρ → ℕ) :
    (t.insert r).total f = t.total f + f r := by
  simp [total, insert_of_find?_none h]

private theorem sum_modify (rows : List ρ) (hn : (rows.map key).Nodup) (k : κ) (f : ρ → ρ) (g : ρ → ℕ) :
    ((rows.map (fun r => if key r = k then f r else r)).map g).sum +
        (rows.find? (fun r => decide (key r = k))).elim 0 g =
      (rows.map g).sum + (rows.find? (fun r => decide (key r = k))).elim 0 (fun r => g (f r)) := by
  induction rows with
  | nil => simp
  | cons x xs ih =>
    simp only [List.map_cons, List.nodup_cons] at hn
    have h := ih hn.2
    by_cases hx : key x = k
    · have htail : xs.map (fun r => if key r = k then f r else r) = xs := by
        conv_rhs => rw [← List.map_id xs]
        apply List.map_congr_left
        intro y hy
        have hne : ¬ key y = k := fun he => hn.1 (hx.trans he.symm ▸ List.mem_map_of_mem hy)
        simp [hne]
      simp only [List.map_cons, hx, ↓reduceIte, htail, List.sum_cons, decide_true, List.find?_cons_of_pos,
        Option.elim_some]
      omega
    · simp only [List.map_cons, hx, ↓reduceIte, List.sum_cons, decide_false, Bool.false_eq_true,
        not_false_eq_true, List.find?_cons_of_neg]
      omega

/-- A rewrite of one row moves a total by that row's old and new value. -/
theorem total_modify (t : Table key) (k : κ) (f : ρ → ρ) (hf : ∀ r, key (f r) = key r) (g : ρ → ℕ) :
    (t.modify k f hf).total g + (t.find? k).elim 0 g =
      t.total g + (t.find? k).elim 0 (fun r => g (f r)) :=
  sum_modify t.rows t.nodup k f g

omit [DecidableEq κ] in
theorem total_congr {t : Table key} {f g : ρ → ℕ} (h : ∀ r ∈ t.rows, f r = g r) :
    t.total f = t.total g := by
  unfold total
  rw [List.map_congr_left h]

omit [DecidableEq κ] in
theorem total_add (t : Table key) (f g : ρ → ℕ) : t.total (fun r => f r + g r) = t.total f + t.total g :=
  List.sum_map_add

omit [DecidableEq κ] in
/-- SUM over the rows that a WHERE clause selects. -/
theorem sum_filter (t : Table key) (p : ρ → Prop) [DecidablePred p] (f : ρ → ℕ) :
    ((t.rows.filter (fun r => decide (p r))).map f).sum = t.total (fun r => if p r then f r else 0) := by
  unfold total
  induction t.rows with
  | nil => rfl
  | cons r rs ih =>
    by_cases hr : p r
    · simp only [List.filter_cons, hr, decide_true, ↓reduceIte, List.map_cons, List.sum_cons, ih]
    · simp only [List.filter_cons, hr, decide_false, Bool.false_eq_true, ↓reduceIte, List.map_cons, List.sum_cons,
        ih, zero_add]

omit [DecidableEq κ] in
/-- The totals of the groups with keys in `ks` add up to the total of the rows in these groups. -/
theorem sum_groups {β : Type} [DecidableEq β] (t : Table key) (group : ρ → Option β) (f : ρ → ℕ) {ks : List β}
    (hks : ks.Nodup) : (ks.map (fun k => t.total (fun r => if group r = some k then f r else 0))).sum =
      t.total (fun r => if ∃ k ∈ ks, group r = some k then f r else 0) := by
  induction ks with
  | nil => simp [total]
  | cons k ks ih =>
    rw [List.nodup_cons] at hks
    rw [List.map_cons, List.sum_cons, ih hks.2, ← total_add]
    refine congrArg t.total (funext fun r => ?_)
    by_cases hr : group r = some k
    · have hnot : ¬ ∃ k' ∈ ks, group r = some k' := by
        rintro ⟨k', hk', he⟩
        rw [hr] at he
        exact hks.1 (Option.some.inj he ▸ hk')
      rw [if_pos hr, if_neg hnot, if_pos ⟨k, by simp, hr⟩, add_zero]
    · simp [hr]

/-- A row's own contribution is at most the total. -/
theorem le_total {t : Table key} {k : κ} {r : ρ} (h : t.find? k = some r) (f : ρ → ℕ) : f r ≤ t.total f :=
  List.single_le_sum (by simp) _ (List.mem_map_of_mem (find?_eq_some h).1)

omit [DecidableEq κ] in
/-- The total of a column that only one row has. -/
theorem total_le_single {t : Table key} {r : ρ} {f : ρ → ℕ} (h : ∀ x ∈ t.rows, f x ≠ 0 → x = r) : t.total f ≤ f r := by
  have hle : ∀ l : List ρ, l.Nodup → (∀ x ∈ l, f x ≠ 0 → x = r) → (l.map f).sum ≤ f r := by
    intro l hl hx
    induction l with
    | nil => simp
    | cons x l ih =>
      rw [List.nodup_cons] at hl
      rw [List.forall_mem_cons] at hx
      have hrest := ih hl.2 hx.2
      rw [List.map_cons, List.sum_cons]
      by_cases h0 : f x = 0
      · omega
      · -- The row is this one, so none of the others counts.
        obtain rfl := hx.1 h0
        have hzero : (l.map f).sum = 0 := by
          refine List.sum_eq_zero fun n hn => ?_
          obtain ⟨y, hy, rfl⟩ := List.mem_map.mp hn
          by_contra hne
          exact hl.1 (hx.2 y hy hne ▸ hy)
        omega
  exact hle t.rows (List.Nodup.of_map _ t.nodup) h

/-- One rewrite for every key of a list. -/
def modifyAll (t : Table key) (ks : List κ) (f : ρ → ρ) (hf : ∀ r, key (f r) = key r) : Table key :=
  ks.foldl (fun t k => t.modify k f hf) t

theorem find?_modifyAll (t : Table key) {ks : List κ} (hn : ks.Nodup) (f : ρ → ρ) (hf : ∀ r, key (f r) = key r)
    (k : κ) : (t.modifyAll ks f hf).find? k = if k ∈ ks then (t.find? k).map f else t.find? k := by
  induction ks generalizing t with
  | nil => simp [modifyAll]
  | cons x ks ih =>
    simp only [List.nodup_cons] at hn
    refine (ih (t.modify x f hf) hn.2).trans ?_
    by_cases hk : k = x
    · subst hk
      simp [hn.1, find?_modify]
    · simp [hk, find?_modify]

/-! ## Two versions of one table -/

/-- Every row of `b` with `P` has a row of `a` with `P` under its key. -/
def NoNew (P : ρ → Prop) (a b : Table key) : Prop :=
  ∀ k r, b.find? k = some r → P r → ∃ r', a.find? k = some r' ∧ P r'

/-- A row of `a` under `k` is in `b`, possibly rewritten within `S`. -/
def PersistAt (S : ρ → ρ → Prop) (k : κ) (a b : Table key) : Prop :=
  ∀ r, a.find? k = some r → ∃ r', b.find? k = some r' ∧ S r r'

theorem NoNew.refl (P : ρ → Prop) (a : Table key) : NoNew P a a := fun _ r h hp => ⟨r, h, hp⟩

theorem NoNew.trans {P : ρ → Prop} {a b c : Table key} (h : NoNew P a b) (h' : NoNew P b c) :
    NoNew P a c := by
  intro k r hr hp
  obtain ⟨x, hx, hpx⟩ := h' k r hr hp
  exact h k x hx hpx

/-- Two versions stay comparable when a change acts on one key where they are equal. -/
private theorem noNew_of_agree_off {P : ρ → Prop} {a b a' b' : Table key} (k : κ) (h : NoNew P a b)
    (hk : a'.find? k = b'.find? k) (ha : ∀ x, x ≠ k → a'.find? x = a.find? x)
    (hb : ∀ x, x ≠ k → b'.find? x = b.find? x) : NoNew P a' b' := by
  intro x r hr hp
  by_cases hx : x = k
  · subst hx
    exact ⟨r, hk.trans hr, hp⟩
  · rw [hb x hx] at hr
    rw [ha x hx]
    exact h x r hr hp

theorem NoNew.modify_both {P : ρ → Prop} {a b : Table key} (h : NoNew P a b) (k : κ) (f : ρ → ρ)
    (hf : ∀ r, key (f r) = key r) (hk : a.find? k = b.find? k) :
    NoNew P (a.modify k f hf) (b.modify k f hf) := by
  refine noNew_of_agree_off k h ?_ ?_ ?_
  · simp only [find?_modify, hk]
  · intro x hx
    simp only [find?_modify, hx, ↓reduceIte]
  · intro x hx
    simp only [find?_modify, hx, ↓reduceIte]

theorem NoNew.insert_both {P : ρ → Prop} {a b : Table key} (h : NoNew P a b) (r : ρ)
    (hk : a.find? (key r) = b.find? (key r)) : NoNew P (a.insert r) (b.insert r) := by
  refine noNew_of_agree_off (key r) h ?_ ?_ ?_
  · simp only [find?_insert, hk]
  · intro x hx
    simp only [find?_insert, hx, ↓reduceIte]
  · intro x hx
    simp only [find?_insert, hx, ↓reduceIte]

theorem NoNew.remove_both {P : ρ → Prop} {a b : Table key} (h : NoNew P a b) (k : κ) :
    NoNew P (a.remove k) (b.remove k) := by
  refine noNew_of_agree_off k h ?_ ?_ ?_
  · simp only [find?_remove, ↓reduceIte]
  · intro x hx
    simp only [find?_remove, hx, ↓reduceIte]
  · intro x hx
    simp only [find?_remove, hx, ↓reduceIte]

theorem NoNew.modify {P : ρ → Prop} (a : Table key) (k : κ) (f : ρ → ρ) (hf : ∀ r, key (f r) = key r)
    (hP : ∀ r, a.find? k = some r → P (f r) → P r) : NoNew P a (a.modify k f hf) := by
  intro x r hr hp
  rw [find?_modify] at hr
  split at hr
  · next hx =>
    subst hx
    obtain ⟨y, hy, rfl⟩ := Option.map_eq_some_iff.mp hr
    exact ⟨y, hy, hP y hy hp⟩
  · exact ⟨r, hr, hp⟩

theorem NoNew.insert {P : ρ → Prop} (a : Table key) (r : ρ) (hP : ¬ P r) : NoNew P a (a.insert r) := by
  intro x y hy hp
  rw [find?_insert] at hy
  split at hy
  · cases ha : a.find? x with
    | none =>
      simp only [ha, Option.getD_none, Option.some.injEq] at hy
      exact absurd (hy ▸ hp) hP
    | some z =>
      simp only [ha, Option.getD_some, Option.some.injEq] at hy
      exact ⟨z, rfl, hy ▸ hp⟩
  · exact ⟨y, hy, hp⟩

theorem NoNew.remove {P : ρ → Prop} (a : Table key) (k : κ) : NoNew P a (a.remove k) := by
  intro x r hr hp
  rw [find?_remove] at hr
  split at hr
  · cases hr
  · exact ⟨r, hr, hp⟩

theorem PersistAt.refl {S : ρ → ρ → Prop} (hS : ∀ r, S r r) (k : κ) (a : Table key) : PersistAt S k a a :=
  fun r h => ⟨r, h, hS r⟩

theorem PersistAt.trans {S : ρ → ρ → Prop} (hS : ∀ {x y z}, S x y → S y z → S x z) {k : κ} {a b c : Table key}
    (h : PersistAt S k a b) (h' : PersistAt S k b c) : PersistAt S k a c := by
  intro r hr
  obtain ⟨x, hx, hrx⟩ := h r hr
  obtain ⟨y, hy, hxy⟩ := h' x hx
  exact ⟨y, hy, hS hrx hxy⟩

theorem PersistAt.modify {S : ρ → ρ → Prop} (hS : ∀ r, S r r) (x : κ) (a : Table key) (k : κ) (f : ρ → ρ)
    (hf : ∀ r, key (f r) = key r) (hSf : ∀ r, S r (f r)) : PersistAt S x a (a.modify k f hf) := by
  intro r hr
  rw [find?_modify]
  split
  · exact ⟨f r, by simp [hr], hSf r⟩
  · exact ⟨r, hr, hS r⟩

theorem PersistAt.insert {S : ρ → ρ → Prop} (hS : ∀ r, S r r) (x : κ) (a : Table key) (r : ρ) :
    PersistAt S x a (a.insert r) := by
  intro y hy
  rw [find?_insert]
  split
  · exact ⟨y, by simp [hy], hS y⟩
  · exact ⟨y, hy, hS y⟩

theorem PersistAt.modify_both {S : ρ → ρ → Prop} {x : κ} {a b : Table key} (h : PersistAt S x a b) (k : κ)
    (f : ρ → ρ) (hf : ∀ r, key (f r) = key r) (hSf : ∀ r r', S r r' → S (f r) (f r')) :
    PersistAt S x (a.modify k f hf) (b.modify k f hf) := by
  intro r hr
  rw [find?_modify] at hr ⊢
  by_cases hx : x = k
  · rw [if_pos hx] at hr ⊢
    obtain ⟨y, hy, rfl⟩ := Option.map_eq_some_iff.mp hr
    obtain ⟨y', hy', hyy⟩ := h y hy
    exact ⟨f y', by rw [hy', Option.map_some], hSf y y' hyy⟩
  · rw [if_neg hx] at hr ⊢
    exact h r hr

theorem PersistAt.insert_both {S : ρ → ρ → Prop} (hS : ∀ r, S r r) {x : κ} {a b : Table key}
    (h : PersistAt S x a b) (r : ρ) (hk : a.find? (key r) = b.find? (key r)) :
    PersistAt S x (a.insert r) (b.insert r) := by
  intro y hy
  rw [find?_insert] at hy ⊢
  by_cases hx : x = key r
  · rw [if_pos hx] at hy ⊢
    rw [hx, ← hk, ← hx]
    exact ⟨y, hy, hS y⟩
  · rw [if_neg hx] at hy ⊢
    exact h y hy

theorem PersistAt.remove_both {S : ρ → ρ → Prop} {x : κ} {a b : Table key} (h : PersistAt S x a b) (k : κ) :
    PersistAt S x (a.remove k) (b.remove k) := by
  intro y hy
  rw [find?_remove] at hy ⊢
  split at hy
  · cases hy
  · next hx =>
    rw [if_neg hx]
    exact h y hy

theorem PersistAt.remove_of_ne {S : ρ → ρ → Prop} (hS : ∀ r, S r r) {x k : κ} (hx : x ≠ k) (a : Table key) :
    PersistAt S x a (a.remove k) := by
  intro y hy
  rw [find?_remove, if_neg hx]
  exact ⟨y, hy, hS y⟩

theorem PersistAt.update {S : ρ → ρ → Prop} (hS : ∀ r, S r r) (x : κ) (a : Table key) (p : ρ → Bool) (f : ρ → ρ)
    (hf : ∀ r, key (f r) = key r) (hSf : ∀ r, p r → S r (f r)) : PersistAt S x a (a.update p f hf) := by
  intro r hr
  rw [find?_update, hr, Option.map_some]
  refine ⟨_, rfl, ?_⟩
  split
  · next hp => exact hSf r hp
  · exact hS r

theorem NoNew.update {P : ρ → Prop} (a : Table key) (p : ρ → Bool) (f : ρ → ρ) (hf : ∀ r, key (f r) = key r)
    (hP : ∀ r, p r → P (f r) → P r) : NoNew P a (a.update p f hf) := by
  intro k r hr hPr
  rw [find?_update] at hr
  obtain ⟨x, hx, rfl⟩ := Option.map_eq_some_iff.mp hr
  refine ⟨x, hx, ?_⟩
  split at hPr
  · next hp => exact hP x hp hPr
  · exact hPr

/-- The two versions hold the same rows with `P`. -/
def SameWhere (P : ρ → Prop) (a b : Table key) : Prop :=
  ∀ k r, P r → (a.find? k = some r ↔ b.find? k = some r)

theorem SameWhere.refl (P : ρ → Prop) (a : Table key) : SameWhere P a a := fun _ _ _ => Iff.rfl

theorem SameWhere.trans {P : ρ → Prop} {a b c : Table key} (h : SameWhere P a b) (h' : SameWhere P b c) :
    SameWhere P a c := fun k r hr => (h k r hr).trans (h' k r hr)

theorem SameWhere.insert_both {P : ρ → Prop} {a b : Table key} (h : SameWhere P a b) (r : ρ)
    (hk : a.find? (key r) = none ↔ b.find? (key r) = none) : SameWhere P (a.insert r) (b.insert r) := by
  intro k x hx
  simp only [find?_insert]
  by_cases he : k = key r
  · subst he
    simp only [↓reduceIte]
    cases ha : a.find? (key r) with
    | none => rw [hk.mp ha]
    | some y =>
      cases hb : b.find? (key r) with
      | none => rw [hk.mpr hb] at ha; cases ha
      | some z =>
        have hxx := h (key r) x hx
        rw [ha, hb] at hxx
        exact hxx
  · simp only [if_neg he]
    exact h k x hx

theorem SameWhere.modify_both {P : ρ → Prop} {a b : Table key} (h : SameWhere P a b) (k : κ) (f : ρ → ρ)
    (hf : ∀ r, key (f r) = key r) (hP : ∀ r, P (f r) → P r) : SameWhere P (a.modify k f hf) (b.modify k f hf) := by
  intro x r hr
  simp only [find?_modify]
  split
  · simp only [Option.map_eq_some_iff]
    constructor
    · rintro ⟨y, hy, rfl⟩
      exact ⟨y, (h x y (hP y hr)).mp hy, rfl⟩
    · rintro ⟨y, hy, rfl⟩
      exact ⟨y, (h x y (hP y hr)).mpr hy, rfl⟩
  · exact h x r hr

theorem SameWhere.insert {P : ρ → Prop} (a : Table key) (r : ρ) (hP : ¬ P r) : SameWhere P a (a.insert r) := by
  intro k x hx
  rw [find?_insert]
  split
  · cases a.find? k with
    | none =>
      simp only [Option.getD_none, reduceCtorEq, Option.some.injEq, false_iff]
      rintro rfl
      exact hP hx
    | some y => rfl
  · rfl

theorem SameWhere.modify {P : ρ → Prop} (a : Table key) (k : κ) (f : ρ → ρ) (hf : ∀ r, key (f r) = key r)
    (hfix : ∀ r, P r → f r = r) (hP : ∀ r, P (f r) → P r) : SameWhere P a (a.modify k f hf) := by
  intro x r hr
  rw [find?_modify]
  split
  · rw [Option.map_eq_some_iff]
    constructor
    · exact fun h => ⟨r, h, hfix r hr⟩
    · rintro ⟨y, hy, rfl⟩
      rw [hfix y (hP y hr)]
      exact hy
  · rfl

/-! ## Row checks and partial unique indexes -/

/-- Every row of the table passes the check. -/
def All (P : ρ → Prop) (t : Table key) : Prop := ∀ k r, t.find? k = some r → P r

theorem All.imp {P Q : ρ → Prop} {t : Table key} (h : All P t) (hPQ : ∀ r, P r → Q r) : All Q t :=
  fun k r hr => hPQ r (h k r hr)

theorem All.insert {P : ρ → Prop} {t : Table key} (h : All P t) {r : ρ} (hr : P r) : All P (t.insert r) := by
  intro k x hx
  rw [find?_insert] at hx
  split at hx
  · cases hk : t.find? k with
    | none =>
      simp only [hk, Option.getD_none, Option.some.injEq] at hx
      exact hx ▸ hr
    | some y =>
      simp only [hk, Option.getD_some, Option.some.injEq] at hx
      exact hx ▸ h k y hk
  · exact h k x hx

theorem All.modify {P : ρ → Prop} {t : Table key} (h : All P t) (k : κ) (f : ρ → ρ)
    (hf : ∀ r, key (f r) = key r) (hP : ∀ r, t.find? k = some r → P (f r)) : All P (t.modify k f hf) := by
  intro x r hr
  rw [find?_modify] at hr
  split at hr
  · next hx =>
    obtain ⟨y, hy, rfl⟩ := Option.map_eq_some_iff.mp hr
    exact hP y (hx ▸ hy)
  · exact h x r hr

theorem All.remove {P : ρ → Prop} {t : Table key} (h : All P t) (k : κ) : All P (t.remove k) := by
  intro x r hr
  rw [find?_remove] at hr
  split at hr
  · cases hr
  · exact h x r hr

theorem NoNew.all_not {P : ρ → Prop} {a b : Table key} (h : NoNew P a b) (ha : All (fun r => ¬ P r) a) :
    All (fun r => ¬ P r) b := by
  intro k r hr hp
  obtain ⟨x, hx, hpx⟩ := h k r hr hp
  exact ha k x hx hpx

/-- At most one row is filed under each entry of a partial index. -/
def Unique {β : Type} (index : ρ → Option β) (t : Table key) : Prop :=
  ∀ k k' r r', t.find? k = some r → t.find? k' = some r' → ∀ b, index r = some b → index r' = some b → k = k'

theorem Unique.insert {β : Type} {index : ρ → Option β} {t : Table key} (h : Unique index t) {r : ρ}
    (hr : ∀ k x b, t.find? k = some x → index x = some b → index r ≠ some b) : Unique index (t.insert r) := by
  -- A row of the new table is the new one, under its own key, or one of the old rows.
  have hold : ∀ k x, (t.insert r).find? k = some x → t.find? k = some x ∨ (k = key r ∧ x = r) := by
    intro k x hx
    rw [find?_insert] at hx
    split at hx
    · next hk =>
      cases ht : t.find? k with
      | none =>
        simp only [ht, Option.getD_none, Option.some.injEq] at hx
        exact .inr ⟨hk, hx.symm⟩
      | some y =>
        simp only [ht, Option.getD_some] at hx
        exact .inl hx
    · exact .inl hx
  intro k k' x x' hx hx' b hb hb'
  rcases hold k x hx with h1 | ⟨rfl, rfl⟩ <;> rcases hold k' x' hx' with h2 | ⟨rfl, rfl⟩
  · exact h k k' x x' h1 h2 b hb hb'
  · exact absurd hb' (hr k x b h1 hb)
  · exact absurd hb (hr k' x' b h2 hb')
  · rfl

/-- A table that files nothing new under the index keeps it. -/
theorem Unique.of_old {β : Type} {index : ρ → Option β} {t t' : Table key} (h : Unique index t)
    (hold : ∀ k r b, t'.find? k = some r → index r = some b → ∃ y, t.find? k = some y ∧ index y = some b) :
    Unique index t' := by
  intro x x' r r' hr hr' b hb hb'
  obtain ⟨y, hy, hyb⟩ := hold x r b hr hb
  obtain ⟨y', hy', hyb'⟩ := hold x' r' b hr' hb'
  exact h x x' y y' hy hy' b hyb hyb'

theorem Unique.modify {β : Type} {index : ρ → Option β} {t : Table key} (h : Unique index t) (k : κ)
    (f : ρ → ρ) (hf : ∀ r, key (f r) = key r) (hi : ∀ r b, index (f r) = some b → index r = some b) :
    Unique index (t.modify k f hf) := by
  refine h.of_old (fun x r b hr hb => ?_)
  rw [find?_modify] at hr
  split at hr
  · obtain ⟨y, hy, rfl⟩ := Option.map_eq_some_iff.mp hr
    exact ⟨y, hy, hi y b hb⟩
  · exact ⟨r, hr, hb⟩

/-- A rewritten row may be filed anew where no other row is. -/
theorem Unique.modify_of_free {β : Type} {index : ρ → Option β} {t : Table key} (h : Unique index t) (k : κ)
    (f : ρ → ρ) (hf : ∀ r, key (f r) = key r)
    (hfree : ∀ r b, t.find? k = some r → index (f r) = some b → ∀ x y, x ≠ k → t.find? x = some y → index y ≠ some b) :
    Unique index (t.modify k f hf) := by
  have hother : ∀ x r, x ≠ k → (t.modify k f hf).find? x = some r → t.find? x = some r := by
    intro x r hx hr
    rwa [find?_modify, if_neg hx] at hr
  have hself : ∀ r, (t.modify k f hf).find? k = some r → ∃ y, t.find? k = some y ∧ f y = r := by
    intro r hr
    rw [find?_modify, if_pos rfl] at hr
    exact Option.map_eq_some_iff.mp hr
  intro x x' r r' hr hr' b hb hb'
  by_cases hx : x = k <;> by_cases hx' : x' = k
  · exact hx.trans hx'.symm
  · subst hx
    obtain ⟨y, hy, rfl⟩ := hself r hr
    exact absurd hb' (hfree y b hy hb x' r' hx' (hother x' r' hx' hr'))
  · subst hx'
    obtain ⟨y, hy, rfl⟩ := hself r' hr'
    exact absurd hb (hfree y b hy hb' x r hx (hother x r hx hr))
  · exact h x x' r r' (hother x r hx hr) (hother x' r' hx' hr') b hb hb'

/-- Without a new row of the kind there are no more of them. -/
theorem NoNew.length_filter_le {p : ρ → Bool} {a b : Table key} (h : NoNew (fun r => p r = true) a b) :
    (b.rows.filter p).length ≤ (a.rows.filter p).length := by
  have hnodup : ((b.rows.filter p).map key).Nodup := (List.filter_sublist.map key).nodup b.nodup
  have hsubset : (b.rows.filter p).map key ⊆ (a.rows.filter p).map key := by
    intro k hk
    obtain ⟨r, hr, rfl⟩ := List.mem_map.mp hk
    obtain ⟨hr, hp⟩ := List.mem_filter.mp hr
    obtain ⟨r', hr', hp'⟩ := h (key r) r (mem_rows_iff.mp hr) hp
    obtain ⟨hmem, hkey⟩ := find?_eq_some hr'
    exact List.mem_map.mpr ⟨r', List.mem_filter.mpr ⟨hmem, hp'⟩, hkey⟩
  have hle := (List.Nodup.subperm hnodup hsubset).length_le
  rwa [List.length_map, List.length_map] at hle

/-- No two rows of the table are of the kind. -/
def AtMostOne (P : ρ → Prop) (t : Table key) : Prop :=
  ∀ k k' r r', t.find? k = some r → t.find? k' = some r' → P r → P r' → k = k'

theorem AtMostOne.of_noNew {P : ρ → Prop} {a b : Table key} (h : AtMostOne P a) (hn : NoNew P a b) : AtMostOne P b := by
  intro k k' r r' hr hr' hp hp'
  obtain ⟨x, hx, hpx⟩ := hn k r hr hp
  obtain ⟨x', hx', hpx'⟩ := hn k' r' hr' hp'
  exact h k k' x x' hx hx' hpx hpx'

theorem AtMostOne.imp {P Q : ρ → Prop} {t : Table key} (h : AtMostOne P t) (hQP : ∀ r, Q r → P r) : AtMostOne Q t :=
  fun k k' r r' hr hr' hq hq' => h k k' r r' hr hr' (hQP r hq) (hQP r' hq')

/-- The first row of a kind is its only one. -/
theorem AtMostOne.insert_of_none {P : ρ → Prop} {t : Table key} (h : All (fun r => ¬ P r) t) (r : ρ) :
    AtMostOne P (t.insert r) := by
  have hnew : ∀ k x, (t.insert r).find? k = some x → P x → k = key r := by
    intro k x hx hp
    by_contra hk
    rw [find?_insert, if_neg hk] at hx
    exact h k x hx hp
  intro k k' x x' hx hx' hp hp'
  rw [hnew k x hx hp, hnew k' x' hx' hp']

theorem length_filter_le_one_iff (t : Table key) (p : ρ → Bool) :
    (t.rows.filter p).length ≤ 1 ↔ AtMostOne (fun r => p r = true) t := by
  have hmem : ∀ r, r ∈ t.rows.filter p ↔ t.find? (key r) = some r ∧ p r := by
    intro r
    rw [List.mem_filter, mem_rows_iff]
  have hnodup : ((t.rows.filter p).map key).Nodup := (List.filter_sublist.map key).nodup t.nodup
  constructor
  · intro hlen k k' r r' hr hr' hp hp'
    have hk := key_of_find? hr
    have hk' := key_of_find? hr'
    have h1 : r ∈ t.rows.filter p := (hmem r).mpr ⟨hk.symm ▸ hr, hp⟩
    have h2 : r' ∈ t.rows.filter p := (hmem r').mpr ⟨hk'.symm ▸ hr', hp'⟩
    have heq : r = r' := by
      rcases hl : t.rows.filter p with _ | ⟨a, _ | ⟨b, l⟩⟩
      · simp [hl] at h1
      · rw [hl, List.mem_singleton] at h1 h2
        exact h1.trans h2.symm
      · simp [hl] at hlen
    rw [← hk, ← hk', heq]
  · intro h
    by_contra hlen
    obtain ⟨a, b, l, hl⟩ : ∃ a b l, t.rows.filter p = a :: b :: l := by
      match hl : t.rows.filter p with
      | [] => simp [hl] at hlen
      | [a] => simp [hl] at hlen
      | a :: b :: l => exact ⟨a, b, l, rfl⟩
    obtain ⟨ha, hpa⟩ := (hmem a).mp (by rw [hl]; simp)
    obtain ⟨hb, hpb⟩ := (hmem b).mp (by rw [hl]; simp)
    rw [hl] at hnodup
    simp [h _ _ a b ha hb hpa hpb] at hnodup

end Table
end KeyedTables
