import Civfix.KeyedTables
import Civfix.RelyConditions
import Mathlib.Data.Sigma.Basic

/-! # Databases of keyed tables

A schema names the tables of a database, their primary keys, the entries their rows hold in unique
indexes, what a row may become (`Follows`), and which rows guard a cell: rows whose lock every write to
the cell is made under. A write changes one cell, a row or its absence, and names the index entries it may
put there.

A row's lock keeps that row and every cell it guards; an entry's lock keeps any other row from coming to
hold the entry. `engine` is the storage engine of a schema, so that a model only lists its tables and
statements. -/
namespace RelationalStores

open KeyedTables LockedTransactions

/-! ## One cell of a table -/

section Alter

variable {ρ κ : Type} [DecidableEq κ] {key : ρ → κ}

/-- What the cell holds is replaced by what `f` makes of it. -/
def alter (t : Table key) (k : κ) (f : Option ρ → Option ρ) : Table key :=
  match f (t.find? k) with
  | none => t.remove k
  | some r => t.put r

theorem find?_alter (t : Table key) (k : κ) {f : Option ρ → Option ρ} (hf : ∀ r ∈ f (t.find? k), key r = k) (k' : κ) :
    (alter t k f).find? k' = if k' = k then f (t.find? k) else t.find? k' := by
  unfold alter
  split
  · next h => rw [Table.find?_remove, h]
  · next r h => rw [Table.find?_put, hf r h, h]

private theorem total_remove (t : Table key) (k : κ) (g : ρ → ℕ) :
    (t.remove k).total g + (t.find? k).elim 0 g = t.total g := by
  obtain ⟨rows, hn⟩ := t
  simp only [Table.remove, Table.total, Table.find?]
  induction rows with
  | nil => rfl
  | cons r rs ih =>
    simp only [List.map_cons, List.nodup_cons] at hn
    have hrest := ih hn.2
    by_cases hr : key r = k
    · have hgone : rs.filter (fun x => decide (key x ≠ k)) = rs := by
        refine List.filter_eq_self.mpr (fun x hx => ?_)
        have hne : key x ≠ k := fun he => hn.1 (hr.trans he.symm ▸ List.mem_map_of_mem hx)
        simpa using hne
      rw [List.filter_cons_of_neg (by simpa using hr), List.find?_cons_of_pos (by simpa using hr), hgone]
      simp only [Option.elim_some, List.map_cons, List.sum_cons]
      omega
    · rw [List.filter_cons_of_pos (by simpa using hr), List.find?_cons_of_neg (by simpa using hr)]
      simp only [List.map_cons, List.sum_cons]
      omega

/-- A column total moves by what the one cell held and holds. -/
theorem total_alter (t : Table key) (k : κ) {f : Option ρ → Option ρ} (hf : ∀ r ∈ f (t.find? k), key r = k)
    (g : ρ → ℕ) :
    (alter t k f).total g + (t.find? k).elim 0 g = t.total g + (f (t.find? k)).elim 0 g := by
  have hrem := total_remove t k g
  unfold alter
  split
  · next h =>
    rw [h]
    exact hrem
  · next r h =>
    rw [h, Table.put, hf r h, Table.total_insert (by rw [Table.find?_remove, if_pos (hf r h)])]
    simp only [Option.elim_some]
    omega

end Alter

/-! ## Schemas -/

/-- `Follows` relates what a cell holds to what it may hold later. -/
structure Schema where
  Name : Type
  Key : Name → Type
  Row : Name → Type
  key : ∀ t, Row t → Key t
  Entry : Type
  entries : ∀ t, Row t → List Entry
  guards : ∀ t, Key t → List ((t : Name) × Key t)
  Follows : ∀ t, Option (Row t) → Option (Row t) → Prop
  follows_refl : ∀ t x, Follows t x x
  follows_trans : ∀ t x y z, Follows t x y → Follows t y z → Follows t x z
  decName : DecidableEq Name
  decKey : ∀ t, DecidableEq (Key t)
  decEntry : DecidableEq Entry

namespace Schema

variable (S : Schema)

instance : DecidableEq S.Name := S.decName

instance (t : S.Name) : DecidableEq (S.Key t) := S.decKey t

instance : DecidableEq S.Entry := S.decEntry

abbrev Cell : Type := (t : S.Name) × S.Key t

/-- The rows of every table. -/
abbrev Db : Type := ∀ t, Table (S.key t)

inductive Lock where
  | row (c : S.Cell)
  | entry (e : S.Entry)
  deriving DecidableEq

/-- One change of one cell; a row comes to hold no index entries but those of `moves`. -/
structure Write where
  name : S.Name
  key : S.Key name
  change : Option (S.Row name) → Option (S.Row name)
  moves : List S.Entry
  keyed : ∀ x, (∀ z ∈ x, S.key name z = key) → ∀ r ∈ change x, S.key name r = key
  follows : ∀ x, S.Follows name x (change x)
  moved : ∀ x, ∀ r ∈ change x, ∀ e ∈ S.entries name r, e ∈ moves ∨ ∃ z ∈ x, e ∈ S.entries name z

variable {S}

namespace Write

def cell (w : S.Write) : S.Cell := ⟨w.name, w.key⟩

/-- What the statement that makes the write locks by itself. -/
def locks (w : S.Write) : List S.Lock := .row w.cell :: w.moves.map .entry

/-- What the write is made under. -/
def needs (w : S.Write) : List S.Lock := w.locks ++ (S.guards w.name w.key).map .row

/-- INSERT of a row; a key that is taken leaves the table as it is. -/
def insert (t : S.Name) (r : S.Row t) (hf : S.Follows t none (some r)) : S.Write where
  name := t
  key := S.key t r
  change := fun x => some (x.getD r)
  moves := S.entries t r
  keyed := by
    intro x hx y hy
    cases x with
    | none => exact Option.some.inj hy ▸ rfl
    | some z => exact Option.some.inj hy ▸ hx z rfl
  follows := by
    intro x
    cases x with
    | none => exact hf
    | some z => exact S.follows_refl t (some z)
  moved := by
    intro x y hy e he
    cases x with
    | none =>
      obtain rfl : r = y := Option.some.inj hy
      exact .inl he
    | some z =>
      obtain rfl : z = y := Option.some.inj hy
      exact .inr ⟨z, rfl, he⟩

/-- UPDATE of the row with the key. -/
def update (t : S.Name) (k : S.Key t) (f : S.Row t → S.Row t) (moves : List S.Entry)
    (hkey : ∀ r, S.key t (f r) = S.key t r)
    (hf : ∀ r, S.Follows t (some r) (some (f r))) (hm : ∀ r, ∀ e ∈ S.entries t (f r), e ∈ moves ∨ e ∈ S.entries t r) :
    S.Write where
  name := t
  key := k
  change := Option.map f
  moves := moves
  keyed := by
    intro x hx y hy
    obtain ⟨z, hz, rfl⟩ := Option.map_eq_some_iff.mp hy
    exact (hkey z).trans (hx z hz)
  follows := by
    intro x
    cases x with
    | none => exact S.follows_refl t none
    | some z => exact hf z
  moved := by
    intro x y hy e he
    obtain ⟨z, hz, rfl⟩ := Option.map_eq_some_iff.mp hy
    exact (hm z e he).imp_right (fun h => ⟨z, hz, h⟩)

/-- DELETE of the row with the key. -/
def delete (t : S.Name) (k : S.Key t) (hf : ∀ x, S.Follows t x none) : S.Write where
  name := t
  key := k
  change := fun _ => none
  moves := []
  keyed := fun _ _ _ hy => nomatch hy
  follows := hf
  moved := fun _ _ hy => nomatch hy

end Write

namespace Db

def apply (s : S.Db) (w : S.Write) : S.Db := Function.update s w.name (alter (s w.name) w.key w.change)

theorem apply_self (s : S.Db) (w : S.Write) : s.apply w w.name = alter (s w.name) w.key w.change :=
    Function.update_self ..

theorem apply_of_ne {t : S.Name} (s : S.Db) (w : S.Write) (h : t ≠ w.name) : s.apply w t = s t :=
    Function.update_of_ne h ..

/-- What the changed cell holds has its key. -/
theorem change_keyed (s : S.Db) (w : S.Write) : ∀ r ∈ w.change ((s w.name).find? w.key), S.key w.name r = w.key :=
  w.keyed _ (fun _ hz => Table.key_of_find? hz)

theorem find?_apply_self (s : S.Db) (w : S.Write) :
    (s.apply w w.name).find? w.key = w.change ((s w.name).find? w.key) := by
  rw [apply_self, find?_alter _ _ (s.change_keyed w), if_pos rfl]

theorem find?_apply_of_ne (s : S.Db) (w : S.Write) {t : S.Name} {k : S.Key t} (h : (⟨t, k⟩ : S.Cell) ≠ w.cell) :
    (s.apply w t).find? k = (s t).find? k := by
  by_cases ht : t = w.name
  · subst ht
    have hk : k ≠ w.key := by
      rintro rfl
      exact h rfl
    rw [apply_self, find?_alter _ _ (s.change_keyed w), if_neg hk]
  · rw [apply_of_ne s w ht]

/-- The table of a write, cell by cell. -/
theorem find?_apply (s : S.Db) (w : S.Write) (k : S.Key w.name) :
    (s.apply w w.name).find? k = if k = w.key then w.change ((s w.name).find? w.key) else (s w.name).find? k := by
  rw [apply_self, find?_alter _ _ (s.change_keyed w)]

/-- A column total moves by what the written cell held and holds. -/
theorem total_apply (s : S.Db) (w : S.Write) (g : S.Row w.name → ℕ) :
    (s.apply w w.name).total g + ((s w.name).find? w.key).elim 0 g =
      (s w.name).total g + (w.change ((s w.name).find? w.key)).elim 0 g := by
  rw [apply_self]
  exact total_alter _ _ (s.change_keyed w) g

/-- What every cell holds, as `Follows` allows. -/
def Evolves (a b : S.Db) : Prop := ∀ t k, S.Follows t ((a t).find? k) ((b t).find? k)

/-- A cell that holds the same in both. -/
def SameAt (c : S.Cell) (a b : S.Db) : Prop := (b c.1).find? c.2 = (a c.1).find? c.2

/-- Two databases that agree on the written cell agree on it after the write. -/
theorem SameAt.apply {a b : S.Db} {c : S.Cell} {w : S.Write} (hw : SameAt w.cell a b) (hc : SameAt c a b) :
    SameAt c (a.apply w) (b.apply w) := by
  by_cases h : c = w.cell
  · subst h
    have hself : (b w.name).find? w.key = (a w.name).find? w.key := hw
    exact (find?_apply_self b w).trans (hself ▸ (find?_apply_self a w).symm)
  · exact (find?_apply_of_ne b w h).trans (Eq.trans hc (find?_apply_of_ne a w h).symm)

theorem evolves_apply {a b : S.Db} {w : S.Write} (hw : SameAt w.cell a b) (h : a.Evolves b) :
    (a.apply w).Evolves (b.apply w) := by
  intro t k
  by_cases hc : (⟨t, k⟩ : S.Cell) = w.cell
  · have hs : SameAt ⟨t, k⟩ (a.apply w) (b.apply w) := SameAt.apply hw (hc ▸ hw)
    have hsame : (b.apply w t).find? k = (a.apply w t).find? k := hs
    rw [hsame]
    exact S.follows_refl t _
  · rw [find?_apply_of_ne a w hc, find?_apply_of_ne b w hc]
    exact h t k

theorem evolves_write (a : S.Db) (w : S.Write) : a.Evolves (a.apply w) := by
  intro t k
  by_cases hc : (⟨t, k⟩ : S.Cell) = w.cell
  · obtain ⟨rfl, hk⟩ := Sigma.mk.inj hc
    obtain rfl := eq_of_heq hk
    rw [find?_apply_self]
    exact w.follows _
  · rw [find?_apply_of_ne a w hc]
    exact S.follows_refl t _

/-- No other row has come to hold the entry. -/
def NoNewHolder (e : S.Entry) (a b : S.Db) : Prop :=
  ∀ t k, ∀ r ∈ (b t).find? k, e ∈ S.entries t r → ∃ z ∈ (a t).find? k, e ∈ S.entries t z

end Db

namespace Lock

/-- The cells that a row's lock keeps. -/
def Keeps (c c' : S.Cell) : Prop := c' = c ∨ c ∈ S.guards c'.1 c'.2

/-- What the lock keeps as it is while it is held. -/
def Protects : S.Lock → S.Db → S.Db → Prop
  | .row c, a, b => ∀ c', Keeps c c' → Db.SameAt c' a b
  | .entry e, a, b => Db.NoNewHolder e a b

theorem Protects.refl (l : S.Lock) (a : S.Db) : l.Protects a a := by
  cases l with
  | row c => exact fun _ _ => rfl
  | entry e => exact fun t k r hr he => ⟨r, hr, he⟩

theorem Protects.trans {l : S.Lock} {a b c : S.Db} (h : l.Protects a b) (h' : l.Protects b c) : l.Protects a c := by
  cases l with
  | row x => exact fun y hy => Eq.trans (h' y hy) (h y hy)
  | entry e =>
    intro t k r hr he
    obtain ⟨z, hz, hze⟩ := h' t k r hr he
    exact h t k z hz hze

/-- A write's own lock says that both databases hold the same in its cell. -/
theorem sameAt_of_needs {a b : S.Db} {w : S.Write} (h : ∀ n ∈ w.needs, n.Protects a b) : Db.SameAt w.cell a b := by
  have hrow : Lock.Protects (.row w.cell) a b := h _ (by simp [Write.needs, Write.locks])
  exact hrow _ (.inl rfl)

theorem protects_apply {l : S.Lock} {a b : S.Db} {w : S.Write} (hn : ∀ n ∈ w.needs, n.Protects a b)
    (h : l.Protects a b) :
    l.Protects (a.apply w) (b.apply w) := by
  have hw := sameAt_of_needs hn
  cases l with
  | row c => exact fun c' hc' => Db.SameAt.apply hw (h c' hc')
  | entry e =>
    intro t k r hr he
    by_cases hc : (⟨t, k⟩ : S.Cell) = w.cell
    · have hs : Db.SameAt ⟨t, k⟩ (a.apply w) (b.apply w) := Db.SameAt.apply hw (hc ▸ hw)
      have hsame : (b.apply w t).find? k = (a.apply w t).find? k := hs
      exact ⟨r, hsame ▸ hr, he⟩
    · rw [Db.find?_apply_of_ne a w hc]
      rw [Db.find?_apply_of_ne b w hc] at hr
      exact h t k r hr he

theorem protects_write {l : S.Lock} (a : S.Db) (w : S.Write) (hw : l ∉ w.needs) : l.Protects a (a.apply w) := by
  cases l with
  | row c =>
    intro c' hc'
    refine Db.find?_apply_of_ne a w (fun he : c' = w.cell => ?_)
    subst he
    refine hw ?_
    simp only [Write.needs, Write.locks, List.mem_append, List.mem_cons, List.mem_map]
    rcases hc' with rfl | hg
    · exact .inl (.inl rfl)
    · exact .inr ⟨c, hg, rfl⟩
  | entry e =>
    intro t k r hr he
    by_cases hc : (⟨t, k⟩ : S.Cell) = w.cell
    · obtain ⟨rfl, hk⟩ := Sigma.mk.inj hc
      obtain rfl := eq_of_heq hk
      rw [Db.find?_apply_self] at hr
      rcases w.moved _ r hr e he with hm | hold
      · exact absurd (by simp [Write.needs, Write.locks, hm]) hw
      · exact hold
    · exact ⟨r, (Db.find?_apply_of_ne a w hc) ▸ hr, he⟩

end Lock

variable (S)

/-- The storage engine of a schema; its locks are exclusive. -/
def engine : Engine S.Db S.Write S.Lock where
  apply := Db.apply
  conflict := Eq
  needs := Write.needs
  evolves := Db.Evolves
  protects := fun l a b => l.Protects a b
  conflict_symm := Eq.symm
  evolves_refl := fun _ t _ => S.follows_refl t _
  evolves_trans := fun h h' t k => S.follows_trans t _ _ _ (h t k) (h' t k)
  evolves_apply := fun _ h hn => Db.evolves_apply (Lock.sameAt_of_needs hn) h
  evolves_write := Db.evolves_write
  protects_refl := Lock.Protects.refl
  protects_trans := Lock.Protects.trans
  protects_apply := fun _ _ hn h => Lock.protects_apply hn h
  protects_write := fun a w hw => Lock.protects_write a w (fun hl => hw _ hl rfl)

instance : DecidableRel S.engine.conflict := fun l l' => inferInstanceAs (Decidable (l = l'))

variable {S} {ε α β : Type}

/-! ## Statements -/

abbrev Transaction (S : Schema) (ε α : Type) : Type := Tx S.Db S.Write S.Lock ε α

/-- INSERT, UPDATE or DELETE: locks the rows it writes and the index entries it puts there. -/
def dml (writes : S.Db → List S.Write) (f : S.Db → α) : Transaction S ε α :=
  .stmt (fun v => (writes v).flatMap Write.locks) writes (fun v => .commit (f v))

variable {held : List S.Lock} {s v : S.Db}

/-- A held row is as it was read, and so are the cells it guards. -/
theorem same_of_held (h : S.engine.Agree held v s) {c : S.Cell} (hc : Lock.row c ∈ held) {t : S.Name} {k : S.Key t}
    (hk : Lock.Keeps c ⟨t, k⟩) : (s t).find? k = (v t).find? k := h.2 _ hc ⟨t, k⟩ hk

theorem row_of_held (h : S.engine.Agree held v s) {t : S.Name} {k : S.Key t} (hc : Lock.row ⟨t, k⟩ ∈ held) :
    (s t).find? k = (v t).find? k := same_of_held h hc (.inl rfl)

/-- A held index entry has come to no other row. -/
theorem holder_of_held (h : S.engine.Agree held v s) {e : S.Entry} (he : Lock.entry e ∈ held) : Db.NoNewHolder e v s :=
  h.2 _ he

theorem follows_of_agree (h : S.engine.Agree held v s) (t : S.Name) (k : S.Key t) :
    S.Follows t ((v t).find? k) ((s t).find? k) := h.1 t k

/-- The guards of the written cells are held, or locked by the statement itself. -/
theorem covered_of_guards {ls : List S.Lock} {ws : List S.Write} (hl : ∀ w ∈ ws, ∀ l ∈ w.locks, l ∈ ls)
    (hg : ∀ w ∈ ws, ∀ g ∈ S.guards w.name w.key, Lock.row g ∈ ls) : S.engine.Covered ls ws := by
  intro w hw n hn
  refine ⟨n, ?_, fun _ h => h⟩
  have hn' : n ∈ w.locks ∨ n ∈ (S.guards w.name w.key).map Lock.row := List.mem_append.mp hn
  rcases hn' with h | h
  · exact hl w hw n h
  · obtain ⟨g, hg', rfl⟩ := List.mem_map.mp h
    exact hg w hw g hg'

theorem covered_nil (ls : List S.Lock) : S.engine.Covered ls [] := by simp [Engine.Covered]

/-- A write after the locks of its own statement. -/
theorem covered_own {w : S.Write} (hg : ∀ g ∈ S.guards w.name w.key, Lock.row g ∈ held ++ w.locks) :
    S.engine.Covered (held ++ w.locks) [w] := by
  refine covered_of_guards (fun u hu l hl => ?_) (fun u hu g hgu => ?_)
  · obtain rfl := List.mem_singleton.mp hu
    exact List.mem_append_right _ hl
  · obtain rfl := List.mem_singleton.mp hu
    exact hg g hgu

theorem wlp_dml {writes : S.Db → List S.Write} {f : S.Db → α} {Q : List S.Lock → α → S.Db → Prop}
    (h : ∀ v, S.engine.Agree (held ++ (writes v).flatMap Write.locks) v s →
      (∀ w ∈ writes v, ∀ g ∈ S.guards w.name w.key, Lock.row g ∈ held ++ (writes v).flatMap Write.locks) ∧
        Q (held ++ (writes v).flatMap Write.locks) (f v) (S.engine.applyAll s (writes v))) :
    S.engine.wlp S.engine.Agree held s (dml writes f : Transaction S ε α) Q := by
  intro v hv
  refine ⟨covered_of_guards (fun w hw l hl => ?_) (h v hv).1, (h v hv).2⟩
  exact List.mem_append_right _ (List.mem_flatMap.mpr ⟨w, hw, hl⟩)

/-! ## Unique indexes -/

namespace Db

/-- No two rows of the table hold one index entry. -/
def UniqueAt (t : S.Name) (s : S.Db) : Prop :=
  ∀ k k', ∀ r ∈ (s t).find? k, ∀ r' ∈ (s t).find? k', ∀ e ∈ S.entries t r, e ∈ S.entries t r' → k = k'

/-- No row with another key holds one of the entries. -/
def FreeFor (s : S.Db) (t : S.Name) (k : S.Key t) (es : List S.Entry) : Prop :=
  ∀ r ∈ (s t).rows, S.key t r ≠ k → ∀ e ∈ es, e ∉ S.entries t r

instance (s : S.Db) (t : S.Name) (k : S.Key t) (es : List S.Entry) : Decidable (s.FreeFor t k es) :=
  inferInstanceAs (Decidable (∀ r ∈ (s t).rows, _ → ∀ e ∈ es, _))

theorem freeFor_nil (s : S.Db) (t : S.Name) (k : S.Key t) : s.FreeFor t k [] :=
  fun _ _ _ _ he => absurd he List.not_mem_nil

theorem UniqueAt.of_same {s s' : S.Db} {t : S.Name} (h : UniqueAt t s) (he : s' t = s t) : UniqueAt t s' := by
  intro k k' r hr r' hr'
  rw [he] at hr hr'
  exact h k k' r hr r' hr'

/-- A write whose new entries no other row holds keeps the index unique. -/
theorem unique_apply (w : S.Write) {s : S.Db} (h : UniqueAt w.name s) (hf : s.FreeFor w.name w.key w.moves) :
    UniqueAt w.name (s.apply w) := by
  -- a row of the new table beside the written one, and an entry it shares with the written one
  have hbeside : ∀ k, k ≠ w.key → ∀ r ∈ (s w.name).find? k, ∀ r' ∈ w.change ((s w.name).find? w.key),
      ∀ e ∈ S.entries w.name r, e ∉ S.entries w.name r' := by
    intro k hk r hr r' hr' e he he'
    rcases w.moved _ r' hr' e he' with hm | ⟨z, hz, hze⟩
    · obtain ⟨hmem, hkey⟩ := Table.find?_eq_some hr
      exact hf r hmem (hkey ▸ hk) e hm he
    · exact hk (h k w.key r hr z hz e he hze)
  intro k k' r hr r' hr' e he he'
  rw [find?_apply] at hr hr'
  split at hr
  · next hk =>
    split at hr'
    · next hk' => exact hk.trans hk'.symm
    · next hk' => exact absurd he (hbeside k' hk' r' hr' r hr e he')
  · next hk =>
    split at hr'
    · next hk' => exact absurd he' (hbeside k hk r hr r' hr' e he)
    · exact h k k' r hr r' hr' e he he'

/-- What no other row holds, and has come to no other row, no other row holds. -/
theorem freeFor_of_held (h : S.engine.Agree held v s) {t : S.Name} {k : S.Key t} {es : List S.Entry}
    (hf : v.FreeFor t k es)
    (he : ∀ e ∈ es, Lock.entry e ∈ held) : s.FreeFor t k es := by
  intro r hr hk e hes hre
  obtain ⟨z, hz, hze⟩ := holder_of_held h (he e hes) t (S.key t r) r (Table.mem_rows_iff.mp hr) hre
  obtain ⟨hmem, hkey⟩ := Table.find?_eq_some hz
  exact hf z hmem (hkey ▸ hk) e hes hze

end Db

/-- INSERT: false when the key or an index entry is taken. -/
def insertRow (w : S.Write) : Transaction S ε Bool :=
  .stmt (fun _ => w.locks) (fun v => if ((v w.name).find? w.key).isNone ∧ v.FreeFor w.name w.key w.moves then [w] else [])
    (fun v => .commit (decide (((v w.name).find? w.key).isNone ∧ v.FreeFor w.name w.key w.moves)))

theorem wlp_insertRow {w : S.Write} {Q : List S.Lock → Bool → S.Db → Prop}
    (hg : ∀ g ∈ S.guards w.name w.key, Lock.row g ∈ held ++ w.locks) (hfalse : Q (held ++ w.locks) false s)
    (htrue : (s w.name).find? w.key = none → s.FreeFor w.name w.key w.moves → Q (held ++ w.locks) true (s.apply w)) :
    S.engine.wlp S.engine.Agree held s (insertRow w : Transaction S ε Bool) Q := by
  intro v hv
  have hrow : (s w.name).find? w.key = (v w.name).find? w.key :=
    row_of_held hv (List.mem_append_right _ (List.mem_cons_self ..))
  by_cases hfree : ((v w.name).find? w.key).isNone ∧ v.FreeFor w.name w.key w.moves
  · refine ⟨?_, ?_⟩
    · simp only [if_pos hfree]
      exact covered_own hg
    · simp only [if_pos hfree, Engine.applyAll_cons, Engine.applyAll_nil, decide_eq_true hfree]
      refine htrue (by rw [hrow, ← Option.isNone_iff_eq_none]; exact hfree.1) (Db.freeFor_of_held hv hfree.2 ?_)
      exact fun e he => List.mem_append_right _ (List.mem_cons_of_mem _ (List.mem_map_of_mem he))
  · refine ⟨?_, ?_⟩
    · simp only [if_neg hfree]
      exact covered_nil _
    · simp only [if_neg hfree, Engine.applyAll_nil, decide_eq_false hfree]
      exact hfalse

/-- UPDATE of the row that the statement finds: none when it finds none, false when another row holds an
index entry that the row would get. -/
def updateFound (find : S.Db → Option β) (write : β → S.Write) : Transaction S ε (Option (β × Bool)) :=
  .stmt (fun v => (find v).elim [] (fun x => (write x).locks))
    (fun v => (find v).elim [] (fun x => if v.FreeFor (write x).name (write x).key
      (write x).moves then [write x] else []))
    (fun v => .commit ((find v).map (fun x => (x, decide (v.FreeFor (write x).name (write x).key (write x).moves)))))

theorem wlp_updateFound {find : S.Db → Option β} {write : β → S.Write}
    {Q : List S.Lock → Option (β × Bool) → S.Db → Prop}
    (hnone : ∀ v, S.engine.Agree held v s → find v = none → Q held none s)
    (hsome : ∀ v x, S.engine.Agree (held ++ (write x).locks) v s → find v = some x →
      (∀ g ∈ S.guards (write x).name (write x).key, Lock.row g ∈ held ++ (write x).locks) ∧
      (¬ v.FreeFor (write x).name (write x).key (write x).moves → Q (held ++ (write x).locks) (some (x, false)) s) ∧
      (s.FreeFor (write x).name (write x).key (write x).moves →
        Q (held ++ (write x).locks) (some (x, true)) (s.apply (write x)))) :
    S.engine.wlp S.engine.Agree held s (updateFound find write : Transaction S ε _) Q := by
  intro v hv
  cases hx : find v with
  | none =>
    simp only [hx, Option.elim_none, List.append_nil] at hv ⊢
    exact ⟨covered_nil _, hnone v hv hx⟩
  | some x =>
    simp only [hx, Option.elim_some] at hv ⊢
    obtain ⟨hg, hfalse, htrue⟩ := hsome v x hv hx
    by_cases hfree : v.FreeFor (write x).name (write x).key (write x).moves
    · refine ⟨?_, ?_⟩
      · simp only [if_pos hfree]
        exact covered_own hg
      · simp only [if_pos hfree, Engine.applyAll_cons, Engine.applyAll_nil, Option.map_some, decide_eq_true hfree]
        refine htrue (Db.freeFor_of_held hv hfree ?_)
        exact fun e he => List.mem_append_right _ (List.mem_cons_of_mem _ (List.mem_map_of_mem he))
    · refine ⟨?_, ?_⟩
      · simp only [if_neg hfree]
        exact covered_nil _
      · simp only [if_neg hfree, Engine.applyAll_nil, Option.map_some, decide_eq_false hfree]
        exact hfalse hfree

/-! ## Bodies of harmless writes -/

/-- Every write of the body is of the kind `φ`, is locked by its own statement and needs no guard. -/
def Plainly (φ : S.Write → Prop) (p : Transaction S ε α) : Prop :=
  p.Each (fun ls ws => ∀ w ∈ ws, φ w ∧ S.guards w.name w.key = [] ∧ ∀ l ∈ w.locks, l ∈ ls)

section Plainly

variable {φ : S.Write → Prop}

theorem plainly_pure (a : α) : Plainly φ (pure a : Transaction S ε α) := trivial

theorem plainly_abort (e : ε) : Plainly φ (.abort e : Transaction S ε α) := trivial

theorem Plainly.bind {p : Transaction S ε α} {f : α → Transaction S ε β} (h : Plainly φ p) (hf : ∀ a, Plainly φ (f a)) :
    Plainly φ (p >>= f) := Tx.Each.bind h hf

theorem plainly_ite {c : Prop} [Decidable c] {p q : Transaction S ε α} (hp : Plainly φ p) (hq : Plainly φ q) :
    Plainly φ (if c then p else q) := Tx.each_ite (fun _ => hp) (fun _ => hq)

theorem plainly_select (f : S.Db → α) : Plainly φ (Tx.select f : Transaction S ε α) :=
  fun _ => ⟨fun _ hw => absurd hw List.not_mem_nil, trivial⟩

theorem plainly_selectFor (locks : S.Db → List S.Lock) (f : S.Db → α) :
    Plainly φ (Tx.selectFor locks f : Transaction S ε α) := fun _ => ⟨fun _ hw => absurd hw List.not_mem_nil, trivial⟩

theorem plainly_dml {writes : S.Db → List S.Write} (h : ∀ d, ∀ w ∈ writes d, φ w ∧ S.guards w.name w.key = [])
    (f : S.Db → α) : Plainly φ (dml writes f : Transaction S ε α) :=
  fun d => ⟨fun w hw => ⟨(h d w hw).1, (h d w hw).2, fun _ hl => List.mem_flatMap.mpr ⟨w, hw, hl⟩⟩, trivial⟩

theorem plainly_insertRow {w : S.Write} (h : φ w) (hg : S.guards w.name w.key = []) :
    Plainly φ (insertRow w : Transaction S ε Bool) := by
  refine fun d => ⟨fun u hu => ?_, trivial⟩
  obtain ⟨-, rfl⟩ := List.mem_ite_nil_right.mp hu |>.imp_right List.mem_singleton.mp
  exact ⟨h, hg, fun _ hl => hl⟩

theorem plainly_updateFound {find : S.Db → Option β} {write : β → S.Write}
    (h : ∀ x, φ (write x) ∧ S.guards (write x).name (write x).key = []) :
    Plainly φ (updateFound find write : Transaction S ε _) := by
  refine fun d => ⟨fun u hu => ?_, trivial⟩
  cases hx : find d with
  | none => simp [hx] at hu
  | some x =>
    simp only [hx, Option.elim_some] at hu ⊢
    obtain ⟨-, rfl⟩ := List.mem_ite_nil_right.mp hu |>.imp_right List.mem_singleton.mp
    exact ⟨(h x).1, (h x).2, fun _ hl => hl⟩

/-- What each write of the kind keeps, the body keeps. -/
theorem wlp_plainly {Inv : S.Db → Prop} (hφ : ∀ d w, φ w → Inv d → Inv (d.apply w)) {p : Transaction S ε α}
    (hp : Plainly φ p) (hs : Inv s) : S.engine.wlp S.engine.Agree held s p (fun _ _ s' => Inv s') := by
  induction p generalizing held s with
  | commit a => exact hs
  | abort e => trivial
  | stmt l w k ih =>
    intro v hv
    refine ⟨covered_of_guards (fun u hu x hx => ?_) (fun u hu g hg => ?_), ih v (hp v).2 ?_⟩
    · exact List.mem_append_right _ (((hp v).1 u hu).2.2 x hx)
    · rw [((hp v).1 u hu).2.1] at hg
      exact absurd hg List.not_mem_nil
    · have hw : ∀ u ∈ w v, φ u := fun u hu => ((hp v).1 u hu).1
      clear hv hp ih
      generalize w v = ws at hw
      induction ws generalizing s with
      | nil => exact hs
      | cons u us ihu => exact ihu (hφ _ _ (hw u (by simp)) hs) (fun x hx => hw x (by simp [hx]))

end Plainly

end Schema
end RelationalStores
