import Civfix.InterleavedCalls

/-! # Reposts of one target

`repost` brings a deleted repost of the account back to life, and inserts a new one where there is none;
`unrepost` and the deletion of the post tombstone it. The index on live reposts leaves the account with
one live row at most, but says nothing about the deleted ones.

The rows are those of one account and one target, which is live throughout. A statement reads its snapshot
first and writes in a second access, which waits for an open transaction and checks the rows that it found
again. A row is changed when the transaction commits; until then every statement that would change a row
of the pair waits, since it meets either the changed row or its index entry. The repost count is written
between the two and is left out. -/
namespace Civfix.Reposts

open InterleavedCalls

abbrev PostId := ℕ
abbrev TxId := ℕ

structure Row where
  id : PostId
  live : Bool
  deriving DecidableEq

inductive Kind | repost | unrepost | delete deriving DecidableEq

/-- What a transaction has written and not committed. -/
inductive Change where
  | revived (id : PostId)
  | inserted (id : PostId)
  | removed (id : PostId)

/-- `openTx` has changed a row. `last` is the kind of the call that has committed last, and is kept for the
statements below. -/
structure Shared where
  rows : List Row
  openTx : Option TxId
  next : ℕ
  last : Option Kind

namespace Shared

variable (s : Shared)

def Live : Prop := ∃ r ∈ s.rows, r.live = true

instance : Decidable s.Live := inferInstanceAs (Decidable (∃ r ∈ s.rows, _))

/-- `deleted_at IS NOT NULL` of the pair. -/
def deleted : List PostId := (s.rows.filter (fun r => !r.live)).map Row.id

/-- The rows that an UPDATE has found and that still match when it gets to them. -/
def recheck (ids : List PostId) : List Row := s.rows.filter (fun r => decide (r.id ∈ ids ∧ r.live = false))

def setLive (id : PostId) (b : Bool) : List Row := s.rows.map (fun r => if r.id = id then { r with live := b } else r)

def write : Change → Shared
  | .revived id => { s with rows := s.setLive id true }
  | .inserted id => { s with rows := s.rows ++ [⟨id, true⟩] }
  | .removed id => { s with rows := s.setLive id false }

end Shared

/-! ## Calls -/

inductive Request where
  | repost
  | unrepost
  | delete (id : PostId)

inductive Await where
  | revive
  | reviveFound (ids : List PostId)
  | insert
  | unrepost
  | delete (id : PostId)
  | tombstone (k : Kind) (id : PostId)
  | commitUnchanged (k : Kind)
  | commit (k : Kind) (c : Change) (tx : TxId)

inductive Result where
  | committed (changed : Bool)
  | uniqueViolation
  | aborted
  deriving DecidableEq

abbrev World := InterleavedCalls.World Shared Request Await
abbrev Next := InterleavedCalls.Next Await Result

/-- The database ends the open transaction, as it does when the connection is lost. -/
inductive Event where
  | abort

abbrev Move := InterleavedCalls.Move Request Event

/-- The post that is deleted is a repost of the pair. -/
def enter (s : Shared) : Request → Option (Shared × Await)
  | .repost => some (s, .revive)
  | .unrepost => some (s, .unrepost)
  | .delete id => if ∃ r ∈ s.rows, r.id = id then some (s, .delete id) else none

/-- The statement has changed a row. -/
def Shared.begin (s : Shared) (k : Kind) (c : Change) : Shared × Next :=
  ({ s with openTx := some s.next, next := s.next + 1 }, .await (.commit k c s.next))

/-- A statement that has to wait has no outcome but to be given up, which any statement may be. -/
def access (s : Shared) : Await → List (Shared × Next)
  | .revive => [(s, .await (if s.deleted = [] then .insert else .reviveFound s.deleted)), (s, .done .aborted)]
  | .reviveFound ids =>
    if s.openTx.isSome then [(s, .done .aborted)]
    else
      [match s.recheck ids with
        | [] => (s, .await .insert)
        | r :: rs => if rs = [] ∧ ¬ s.Live then s.begin .repost (.revived r.id) else (s, .done .uniqueViolation),
        (s, .done .aborted)]
  | .insert =>
    if s.openTx.isSome then [(s, .done .aborted)]
    else [if s.Live then (s, .await (.commitUnchanged .repost)) else s.begin .repost (.inserted s.next),
      (s, .done .aborted)]
  | .unrepost =>
    [(s, .await (match s.rows.find? (fun r => r.live) with
      | some r => .tombstone .unrepost r.id
      | none => .commitUnchanged .unrepost)), (s, .done .aborted)]
  | .delete id =>
    [(s, .await (if ∃ r ∈ s.rows, r.id = id ∧ r.live = true then .tombstone .delete id
        else .commitUnchanged .delete)),
      (s, .done .aborted)]
  | .tombstone k id =>
    if s.openTx.isSome then [(s, .done .aborted)]
    else
      [if ∃ r ∈ s.rows, r.id = id ∧ r.live = true then s.begin k (.removed id) else (s, .await (.commitUnchanged k)),
        (s, .done .aborted)]
  | .commitUnchanged k => [({ s with last := some k }, .done (.committed false)), (s, .done .aborted)]
  | .commit k c tx =>
    if s.openTx = some tx then
      [({ s.write c with openTx := none, last := some k }, .done (.committed true)),
        ({ s with openTx := none }, .done .aborted)]
    else [(s, .done .aborted)]

def environment (s : Shared) : Event → Option Shared
  | .abort => if s.openTx.isSome then some { s with openTx := none } else none

def machine : Machine Shared Request Await Result Event := ⟨enter, access, environment⟩

def start : Shared := ⟨[], none, 0, none⟩

/-- Never more than one row of the pair, no unique violation, and the repost is live after all calls exactly
when the last one to commit was a repost. -/
def Idempotent (w : World) : Prop :=
  w.shared.rows.length ≤ 1 ∧ (∀ m w' r, machine.step w m = some (w', some r) → r ≠ .uniqueViolation) ∧
    ((∀ i, w.call i = none) → (w.shared.Live ↔ w.shared.last = some .repost))

/-! ## The condition on the statements -/

/-- The rows are as the call has found them before: no row is deleted when `repost` inserts, and a call that
has found nothing to change would still find nothing when it commits. -/
def AsFound (s : Shared) : Await → Prop
  | .insert => ∀ r ∈ s.rows, r.live = true
  | .commitUnchanged .repost => s.Live
  | .commitUnchanged .unrepost | .commitUnchanged .delete => ¬ s.Live
  | _ => True

instance (s : Shared) (p : Await) : Decidable (AsFound s p) :=
  match p with
  | .insert => inferInstanceAs (Decidable (∀ r ∈ s.rows, r.live = true))
  | .commitUnchanged .repost => inferInstanceAs (Decidable s.Live)
  | .commitUnchanged .unrepost | .commitUnchanged .delete => inferInstanceAs (Decidable (¬ s.Live))
  | .revive | .reviveFound _ | .unrepost | .delete _ | .tombstone _ _ | .commit _ _ _ => isTrue trivial

def Undisturbed (w : World) (m : Move) : Prop :=
  match m with
  | .access i k => k = 0 → ∀ c ∈ w.call i, AsFound w.shared c.await
  | _ => True

instance (w : World) (m : Move) : Decidable (Undisturbed w m) :=
  match m with
  | .access i k => inferInstanceAs (Decidable (k = 0 → ∀ c ∈ w.call i, AsFound w.shared c.await))
  | .start _ | .crash _ | .environment _ => isTrue trivial

variable {s s' : Shared} {w w' : World}

/-! ## Reposts -/

/-- One row, which is live after a repost. -/
structure Single (s : Shared) : Prop where
  length : s.rows.length ≤ 1
  live : s.Live ↔ s.last = some .repost

/-- What an open transaction has found under the locks that it holds. -/
def Fits (s : Shared) (k : Kind) : Change → Prop
  | .revived id => k = .repost ∧ ∃ r ∈ s.rows, r.id = id
  | .inserted _ => k = .repost ∧ s.rows = []
  | .removed id => k ≠ .repost ∧ ∃ r ∈ s.rows, r.id = id

/-- A transaction that is still open fits. -/
def Pending (s : Shared) : Await → Prop
  | .commit k c tx => tx < s.next ∧ (s.openTx = some tx → Fits s k c)
  | .tombstone k _ => k ≠ .repost
  | _ => True

theorem rows_of_length_le_one {α : Type} {l : List α} (h : l.length ≤ 1) {a : α} (ha : a ∈ l) : l = [a] := by
  cases l with
  | nil => exact absurd ha List.not_mem_nil
  | cons b l =>
    cases l with
    | nil => rw [List.mem_singleton.mp ha]
    | cons c l => simp at h

theorem live_setLive (h : s.rows.length ≤ 1) {id : PostId} (hid : ∃ r ∈ s.rows, r.id = id) (b : Bool) :
    (∃ r ∈ s.setLive id b, r.live = true) ↔ b = true := by
  obtain ⟨r, hr, rfl⟩ := hid
  have hrows := rows_of_length_le_one h hr
  simp only [Shared.setLive, hrows, List.map_cons, List.map_nil, if_true, List.mem_singleton, exists_eq_left]

/-- The change of an open transaction makes the repost live or not, as its kind says. -/
theorem live_write {k : Kind} {c : Change} (h : Single s) (hfit : Fits s k c) :
    (s.write c).rows.length ≤ 1 ∧ ((s.write c).Live ↔ k = .repost) := by
  cases c with
  | revived id =>
    refine ⟨by simpa only [Shared.write, Shared.setLive, List.length_map] using h.length, ?_⟩
    simp only [Shared.Live, Shared.write, live_setLive h.length hfit.2, hfit.1]
  | inserted id =>
    simp only [Shared.write, hfit.2, List.nil_append, List.length_singleton, le_refl, true_and, Shared.Live,
      hfit.1, iff_true]
    exact ⟨_, List.mem_singleton_self _, rfl⟩
  | removed id =>
    refine ⟨by simpa only [Shared.write, Shared.setLive, List.length_map] using h.length, ?_⟩
    simp only [Shared.Live, Shared.write, live_setLive h.length hfit.2, Bool.false_eq_true, false_iff]
    exact hfit.1

theorem single_of_commit {k : Kind} {c : Change} (h : Single s) (hfit : Fits s k c) :
    Single { s.write c with openTx := none, last := some k } := by
  obtain ⟨hlength, hlive⟩ := live_write h hfit
  exact ⟨hlength, hlive.trans (Option.some_inj).symm⟩

/-- No row of the pair is both found deleted and beside a live one. -/
theorem not_live_of_recheck (h : Single s) {ids : List PostId} {r : Row} {rs : List Row}
    (hr : s.recheck ids = r :: rs) :
    rs = [] ∧ ¬ s.Live ∧ r ∈ s.rows := by
  have hmem : r ∈ s.recheck ids := hr ▸ List.mem_cons_self ..
  obtain ⟨hrow, hdel⟩ := List.mem_filter.mp hmem
  have hrows := rows_of_length_le_one h.length hrow
  refine ⟨?_, ?_, hrow⟩
  · have hle : (s.recheck ids).length ≤ s.rows.length := List.length_filter_le ..
    rw [hr, hrows] at hle
    exact List.eq_nil_of_length_eq_zero (by simpa using hle)
  · rintro ⟨x, hx, hlive⟩
    rw [hrows, List.mem_singleton] at hx
    subst hx
    have hdead := (of_decide_eq_true hdel).2
    rw [hlive] at hdead
    cases hdead

theorem recheck_eq_nil_or (h : Single s) (ids : List PostId) :
    s.recheck ids = [] ∨ ∃ r ∈ s.rows, s.recheck ids = [r] ∧ ¬ s.Live := by
  cases hr : s.recheck ids with
  | nil => exact .inl rfl
  | cons r rs =>
    obtain ⟨rfl, hlive, hrow⟩ := not_live_of_recheck h hr
    exact .inr ⟨r, hrow, rfl, hlive⟩

/-- What an access does to the open transaction: it opens one, it ends one, or it leaves it. -/
inductive Changes (s s' : Shared) : Prop where
  | same (h : s' = s)
  | begun (hrows : s'.rows = s.rows) (hlast : s'.last = s.last) (htx : s'.openTx = some s.next)
    (hnext : s'.next = s.next + 1)
  | unchanged (k : Kind) (h : s' = { s with last := some k }) (hlive : s.Live ↔ k = .repost)
  | committed (k : Kind) (c : Change) (hfit : Fits s k c) (h : s' = { s.write c with openTx := none, last := some k })
  | aborted (h : s' = { s with openTx := none })

/-- An access whose change is one of these, and after which the call's own transaction fits. -/
structure Regular (s s' : Shared) (n : Next) : Prop where
  changes : Changes s s'
  pending : ∀ q, n = .await q → Pending s' q

theorem regular_await {q : Await} (h : Pending s q) : Regular s s (.await q) :=
  ⟨.same rfl, fun _ hq => Next.await.inj hq ▸ h⟩

theorem regular_aborted : Regular s s (.done .aborted) := ⟨.same rfl, by rintro _ ⟨⟩⟩

theorem regular_begin {k : Kind} {c : Change} (hfit : Fits s k c) : Regular s (s.begin k c).1 (s.begin k c).2 := by
  refine ⟨.begun rfl rfl rfl rfl, fun q hq => ?_⟩
  obtain rfl := Next.await.inj hq
  refine ⟨Nat.lt_succ_self _, fun _ => ?_⟩
  cases c <;> exact hfit

theorem regular_of_pair {i : ℕ} {x : Shared × Next} {n : Next} (hx : i = 0 → Regular s x.1 x.2)
    (hk : [x, (s, .done .aborted)][i]? = some (s', n)) : Regular s s' n := by
  cases i with
  | zero =>
    obtain rfl := Option.some.inj hk
    exact hx rfl
  | succ i =>
    cases i with
    | zero =>
      cases hk
      exact regular_aborted
    | succ i => cases hk

theorem regular_of_waiting {i : ℕ} {n : Next} (hk : [((s, .done .aborted) : Shared × Next)][i]? = some (s', n)) :
    Regular s s' n := by
  cases i with
  | zero =>
    cases hk
    exact regular_aborted
  | succ i => cases hk

/-- Every access that finds the rows as they were found before is regular. -/
theorem regular_of_access {p : Await} {n : Next} {i : ℕ} (h : Single s) (hp : Pending s p)
    (hk : (access s p)[i]? = some (s', n)) (hf : i = 0 → AsFound s p) : Regular s s' n := by
  cases p with
  | revive =>
    refine regular_of_pair (fun _ => regular_await ?_) hk
    split <;> trivial
  | reviveFound ids =>
    simp only [access] at hk
    split at hk
    · exact regular_of_waiting hk
    refine regular_of_pair (fun _ => ?_) hk
    rcases recheck_eq_nil_or h ids with hnil | ⟨r, hr, hone, hlive⟩
    · rw [hnil]
      exact regular_await trivial
    · simp only [hone, hlive, not_false_eq_true, and_self, if_true]
      exact regular_begin ⟨rfl, r, hr, rfl⟩
  | insert =>
    simp only [access] at hk
    split at hk
    · exact regular_of_waiting hk
    refine regular_of_pair (fun hi => ?_) hk
    split
    · exact regular_await trivial
    · next hlive =>
      refine regular_begin ⟨rfl, List.eq_nil_iff_forall_not_mem.mpr (fun r hr => ?_)⟩
      exact hlive ⟨r, hr, hf hi r hr⟩
  | unrepost =>
    refine regular_of_pair (fun _ => regular_await ?_) hk
    split
    · exact fun hkind => Kind.noConfusion hkind
    · trivial
  | delete id =>
    refine regular_of_pair (fun _ => regular_await ?_) hk
    split
    · exact fun hkind => Kind.noConfusion hkind
    · trivial
  | tombstone k id =>
    simp only [access] at hk
    split at hk
    · exact regular_of_waiting hk
    refine regular_of_pair (fun _ => ?_) hk
    split
    · next hrow =>
      obtain ⟨r, hr, hid, -⟩ := hrow
      exact regular_begin ⟨hp, r, hr, hid⟩
    · exact regular_await trivial
  | commitUnchanged k =>
    refine regular_of_pair (fun hi => ⟨.unchanged k rfl ?_, by rintro _ ⟨⟩⟩) hk
    cases k with
    | repost => exact iff_of_true (hf hi) rfl
    | unrepost | delete => exact iff_of_false (hf hi) (fun hkind => Kind.noConfusion hkind)
  | commit k c tx =>
    simp only [access] at hk
    split at hk
    · next htx =>
      cases i with
      | zero =>
        cases hk
        exact ⟨.committed k c (hp.2 htx) rfl, by rintro _ ⟨⟩⟩
      | succ i =>
        cases i with
        | zero =>
          cases hk
          exact ⟨.aborted rfl, by rintro _ ⟨⟩⟩
        | succ i => cases hk
    · exact regular_of_waiting hk

theorem Changes.single (h : Single s) (hc : Changes s s') : Single s' := by
  cases hc with
  | same h' => exact h' ▸ h
  | begun hrows hlast htx hnext => exact ⟨hrows ▸ h.length, by simpa only [Shared.Live, hrows, hlast] using h.live⟩
  | unchanged k h' hlive => exact h' ▸ ⟨h.length, hlive.trans Option.some_inj.symm⟩
  | committed k c hfit h' => exact h' ▸ single_of_commit h hfit
  | aborted h' => exact h' ▸ ⟨h.length, h.live⟩

/-- A pending transaction of another call still fits, since no other one is open. -/
theorem Changes.pending {p : Await} (hp : Pending s p) (hc : Changes s s') : Pending s' p := by
  cases p with
  | commit k c tx =>
    obtain ⟨hlt, hfit⟩ := hp
    cases hc with
    | same h' => exact h' ▸ ⟨hlt, hfit⟩
    | begun hrows hlast htx hnext =>
      refine ⟨hnext ▸ Nat.lt_succ_of_lt hlt, fun htx' => ?_⟩
      exact absurd (Option.some.inj (htx.symm.trans htx')) (Nat.ne_of_gt hlt)
    | unchanged k' h' hlive =>
      subst h'
      refine ⟨hlt, fun htx => ?_⟩
      cases c <;> exact hfit htx
    | committed k' c' hfit' h' =>
      subst h'
      refine ⟨?_, fun htx => by cases htx⟩
      cases c' <;> exact hlt
    | aborted h' =>
      subst h'
      exact ⟨hlt, fun htx => by cases htx⟩
  | tombstone k id => exact hp
  | revive | reviveFound _ | insert | unrepost | delete _ | commitUnchanged _ => trivial

/-- No statement fails on the unique index while there is one row. -/
theorem not_violation {p : Await} {r : Result} (h : Single s) (hmem : (s', .done r) ∈ access s p) :
    r ≠ .uniqueViolation := by
  rintro rfl
  cases p with
  | reviveFound ids =>
    simp only [access] at hmem
    split at hmem
    · simp at hmem
    rcases recheck_eq_nil_or h ids with hnil | ⟨x, -, hone, hlive⟩
    · simp [hnil] at hmem
    · simp [hone, hlive, Shared.begin] at hmem
  | revive | unrepost | delete id | commitUnchanged k => simp [access] at hmem
  | insert | tombstone k id =>
    simp only [access] at hmem
    split at hmem
    · simp at hmem
    split at hmem <;> simp [Shared.begin] at hmem
  | commit k c tx =>
    simp only [access] at hmem
    split at hmem <;> simp at hmem

def Sound (w : World) : Prop := Machine.Holds Single (fun s _ c => Pending s c.await) w

theorem Sound.step {m : Move} {r : Option Result} (h : Sound w) (hok : Undisturbed w m)
    (hs : machine.step w m = some (w', r)) : Sound w' := by
  refine Machine.Holds.step_outcome h hs ?_ ?_ ?_
  · intro o t p _ he
    have hstart : t = w.shared ∧ Pending t p := by
      cases o with
      | repost | unrepost =>
        cases he
        exact ⟨rfl, trivial⟩
      | delete id =>
        simp only [machine, enter] at he
        split at he <;> cases he
        exact ⟨rfl, trivial⟩
    obtain ⟨rfl, hpending⟩ := hstart
    exact ⟨h.shared, hpending, fun i c hc => h.calls i c hc⟩
  · intro i k c t n hm hc hk
    subst hm
    have hreg := regular_of_access h.shared (h.calls i c hc) hk (fun hi => hok hi c hc)
    exact ⟨hreg.changes.single h.shared, hreg.pending, fun j d _ hd => hreg.changes.pending (h.calls j d hd)⟩
  · intro e t _ he
    have hchange : Changes w.shared t := by
      simp only [machine, environment] at he
      split at he <;> cases he
      exact .aborted rfl
    exact ⟨hchange.single h.shared, fun i c hc => hchange.pending (h.calls i c hc)⟩

theorem sound_start : Sound (World.initial start) :=
  ⟨⟨Nat.zero_le _, iff_of_false (fun ⟨_, hr, _⟩ => absurd hr List.not_mem_nil) (fun hl => by cases hl)⟩,
    fun i c hc => by simp at hc⟩

/-- In every run in which the statements find the rows as their calls have found them before, the account
has one row at most, no call fails on the unique index, and the repost is live exactly when the last call to
commit was a repost. -/
theorem undisturbed_reposts_are_idempotent (w : World) (h : Machine.Run machine Undisturbed (World.initial start) w) :
    Idempotent w := by
  have hsound : Sound w := h.invariant sound_start (fun hw hok hs => hw.step hok hs)
  refine ⟨hsound.shared.length, fun m w' r hs => ?_, fun _ => hsound.shared.live⟩
  obtain ⟨i, k, c, -, -, hmem⟩ := Machine.return_cases hs
  exact not_violation hsound.shared hmem

/-! ## An unrepost between two statements -/

/-- The second repost has found no deleted row when the unrepost commits, and inserts another one. -/
def unrepostedMeanwhile : List Move :=
  (.start .repost : Move) :: List.replicate 3 (.access 0 0 : Move) ++ [(.start .repost : Move), .access 1 0] ++
    (.start .unrepost : Move) :: List.replicate 3 (.access 2 0 : Move) ++ List.replicate 2 (.access 1 0 : Move)

theorem unrepost_meanwhile_doubles :
    ¬ ∀ w, Machine.Run machine (fun _ _ => True) (World.initial start) w → Idempotent w := by
  intro hall
  have hruns : (machine.perform (World.initial start) unrepostedMeanwhile).any
      (fun w => decide (w.shared.rows = [⟨0, false⟩, ⟨2, true⟩])) = true := by decide +kernel
  obtain ⟨w, hw, hP⟩ := (Option.any_eq_true _ _).mp hruns
  have hrows := (hall w (Machine.free_of_perform hw)).1
  rw [of_decide_eq_true hP] at hrows
  exact absurd hrows (by decide)

/-- Every later repost then fails, once both rows are deleted. -/
example : ((machine.perform (World.initial start) (unrepostedMeanwhile ++
    (.start .unrepost : Move) :: List.replicate 3 (.access 3 0 :
    Move) ++ [(.start .repost : Move), .access 4 0])).any (fun w => decide (w.shared.deleted = [0, 2] ∧
      (machine.step w (.access 4 0)).any (fun x => x.2 = some .uniqueViolation)))) = true := by decide +kernel

/-- A repost, an unrepost and a deletion of the same row at once, and a repost that brings the row back. -/
def repostedAgain : List Move :=
  (.start .repost : Move) :: List.replicate 3 (.access 0 0 :
    Move) ++ [(.start .unrepost : Move), .access 1 0, .start (.delete 0),
    .access 2 0] ++
    List.replicate 2 (.access 1 0 : Move) ++ List.replicate 2 (.access 2 0 : Move) ++ (.start .repost :
      Move) :: List.replicate 3 (.access 3 0 : Move)

theorem reposted_again : ∃ w : World, w.shared.rows = [⟨0, true⟩] ∧ w.shared.last = some .repost ∧
    w.calls.length = 4 ∧ Idempotent w := by
  have hruns : (machine.perform (World.initial start) repostedAgain).any (fun w => decide (
      w.shared.rows = [⟨0, true⟩] ∧ w.shared.last = some .repost ∧ w.calls.length = 4)) = true := by decide +kernel
  obtain ⟨w, hw, hP⟩ := (Option.any_eq_true _ _).mp hruns
  obtain ⟨hrows, hlast, hcalls⟩ := of_decide_eq_true hP
  exact ⟨w, hrows, hlast, hcalls, undisturbed_reposts_are_idempotent w
    (Machine.run_of_perform (by decide +kernel) hw)⟩

end Civfix.Reposts
