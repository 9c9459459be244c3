import Mathlib.Data.List.TakeWhile
import Mathlib.Data.List.Forall2
import Mathlib.Data.List.Infix

/-! # Patterns

A pattern is matched at the start of a list, with backtracking: it tries its ways of matching in their order, longer
runs and earlier alternatives first, and hands what is left to a continuation. The first result is the match. -/
namespace Patterns

variable {α β γ : Type}

inductive Pattern (α : Type) where
  | done
  | one (p : α → Bool)
  | many (least : ℕ) (p : α → Bool)
  | seq (a b : Pattern α)
  | alt (a b : Pattern α)
  | notAhead (p : α → Bool)

/-- The ways of a run of at least `m`, the longest first. -/
def run (p : α → Bool) (k : List α → List β) : ℕ → List α → List β
  | 0, [] => k []
  | 0, c :: s => (if p c then run p k 0 s else []) ++ k (c :: s)
  | _ + 1, [] => []
  | m + 1, c :: s => if p c then run p k m s else []

def after : Pattern α → (List α → List β) → List α → List β
  | .done, k, s => k s
  | .one _, _, [] => []
  | .one p, k, c :: s => if p c then k s else []
  | .many m p, k, s => run p k m s
  | .seq a b, k, s => after a (after b k) s
  | .alt a b, k, s => after a k s ++ after b k s
  | .notAhead p, k, s => if s.head?.any p then [] else k s

/-- The elements of `w`, one after the other. -/
def literal (same : α → α → Bool) (w : List α) : Pattern α := w.foldr (fun c a => .seq (.one (same c)) a) .done

/-- A pattern with one group, whose text is the result. -/
structure Grouped (α : Type) where
  before : Pattern α
  group : Pattern α
  ahead : Pattern α

namespace Grouped

variable (g : Grouped α)

def groupWays (s : List α) : List (List α × List α) :=
  after g.group (fun r => after g.ahead (fun r' => [(s.take (s.length - r.length), r')]) r) s

/-- The texts of the group, each with what is left after the match. -/
def ways (s : List α) : List (List α × List α) := after g.before g.groupWays s

def exec (s : List α) : Option (List α × List α) := (g.ways s).head?

/-- A run of at least one. -/
def someOf (p : α → Bool) : Grouped α := ⟨.done, .many 1 p, .done⟩

end Grouped

/-- Whether the pattern matches somewhere in the list. -/
def test (a : Pattern α) (s : List α) : Bool := s.tails.any fun u => !(after a (fun _ => [()]) u).isEmpty

/-- Whether the pattern matches the whole list. -/
def testWhole (a : Pattern α) (s : List α) : Bool := !(after a (fun r => if r.isEmpty then [()] else []) s).isEmpty

/-- The patterns, one after the other. -/
def chain (as : List (Pattern α)) : Pattern α := as.foldr .seq .done

/-- At most `n` elements of a class. -/
def upTo (p : α → Bool) : ℕ → Pattern α
  | 0 => .done
  | n + 1 => .alt (.seq (.one p) (upTo p n)) .done

/-- Between `least` and `least + more` elements of a class. -/
def between (p : α → Bool) (least more : ℕ) : Pattern α := .seq (chain (List.replicate least (.one p))) (upTo p more)

/-- The matches from left to right, each one looked for after the last. -/
def scan (f : List α → Option (β × List α)) : ℕ → List α → List β
  | 0, _ => []
  | n + 1, s =>
    match f s with
    | some x => x.1 :: scan f n x.2
    | none =>
      match s with
      | [] => []
      | _ :: s => scan f n s

def matchAll (f : List α → Option (β × List α)) (s : List α) : List β := scan f (s.length + 1) s

variable {p : α → Bool} {k : List α → List β} {s x y : List α} {c : α} {m n : ℕ} {a : Pattern α}
  {same : α → α → Bool} {w : List α}

variable {κ : List α → List (β × List α)}

/-! ## Matches in a part of a list -/

/-- A pattern that does not look at what comes after it. -/
def Pattern.Plain : Pattern α → Prop
  | .done | .one _ | .many _ _ => True
  | .seq a b | .alt a b => a.Plain ∧ b.Plain
  | .notAhead _ => False

theorem plain_literal (w : List α) : (literal same w).Plain := by
  induction w with
  | nil => trivial
  | cons c w ih => exact ⟨trivial, ih⟩

theorem plain_chain {as : List (Pattern α)} (h : ∀ b ∈ as, b.Plain) : (chain as).Plain := by
  induction as with
  | nil => trivial
  | cons b as ih => exact ⟨h b List.mem_cons_self, ih fun c hc => h c (List.mem_cons_of_mem b hc)⟩

theorem plain_upTo (p : α → Bool) (n : ℕ) : (upTo p n).Plain := by
  induction n with
  | zero => trivial
  | succ n ih => exact ⟨⟨trivial, ih⟩, trivial⟩

theorem plain_between (p : α → Bool) (least more : ℕ) : (between p least more).Plain := by
  refine ⟨plain_chain fun b hb => ?_, plain_upTo p more⟩
  rw [List.eq_of_mem_replicate hb]
  trivial

section

variable {κ : List α → List β} {κ' : List α → List γ}

theorem run_append_ne_nil (hk : ∀ r, κ' r ≠ [] → κ (r ++ y) ≠ []) (h : run p κ' m s ≠ []) :
    run p κ m (s ++ y) ≠ [] := by
  induction s generalizing m with
  | nil =>
    cases m with
    | succ m => exact absurd rfl h
    | zero =>
      have hstop : κ y ≠ [] := hk [] h
      cases y with
      | nil => exact hstop
      | cons c y => exact fun hnil => hstop (List.append_eq_nil_iff.mp hnil).2
  | cons c s ih =>
    cases m with
    | succ m =>
      simp only [run, List.cons_append] at h ⊢
      split
      · next hc =>
        rw [if_pos hc] at h
        exact ih h
      · next hc => exact absurd (if_neg hc) h
    | zero =>
      simp only [run, List.cons_append] at h ⊢
      intro hnil
      obtain ⟨hmore, hstop⟩ := List.append_eq_nil_iff.mp hnil
      refine h (List.append_eq_nil_iff.mpr ⟨?_, ?_⟩)
      · by_contra hne
        split at hne
        · next hc =>
          rw [if_pos hc] at hmore
          exact ih hne hmore
        · exact hne rfl
      · by_contra hne
        exact hk (c :: s) hne hstop

/-- What matches at the start of a list matches at the start of a longer one. -/
theorem after_append_ne_nil (ha : a.Plain) (hk : ∀ r, κ' r ≠ [] → κ (r ++ y) ≠ []) (h : after a κ' s ≠ []) :
    after a κ (s ++ y) ≠ [] := by
  induction a generalizing κ κ' s with
  | done => exact hk s h
  | one q =>
    cases s with
    | nil => exact absurd rfl h
    | cons c s =>
      simp only [after, List.cons_append] at h ⊢
      split
      · next hc =>
        rw [if_pos hc] at h
        exact hk s h
      · next hc => exact absurd (if_neg hc) h
  | many m q => exact run_append_ne_nil hk h
  | seq a b iha ihb => exact iha ha.1 (fun r hr => ihb ha.2 hk hr) h
  | alt a b iha ihb =>
    intro hnil
    obtain ⟨hleft, hright⟩ := List.append_eq_nil_iff.mp hnil
    refine h (List.append_eq_nil_iff.mpr ⟨?_, ?_⟩)
    · by_contra hne
      exact iha ha.1 hk hne hleft
    · by_contra hne
      exact ihb ha.2 hk hne hright
  | notAhead q => exact ha.elim

end

theorem test_of_isInfix (ha : a.Plain) (hx : x <:+: s) (h : test a x = true) : test a s = true := by
  obtain ⟨before, rest, rfl⟩ := hx
  obtain ⟨u, hu, hmatch⟩ := List.any_eq_true.mp h
  obtain ⟨v, rfl⟩ := (List.mem_tails u x).mp hu
  refine List.any_eq_true.mpr ⟨u ++ rest, (List.mem_tails _ _).mpr ⟨before ++ v, by simp only [List.append_assoc]⟩, ?_⟩
  have hne : after a (fun _ => [()]) u ≠ [] := fun hnil => by simp [hnil] at hmatch
  have hlonger : after a (fun _ => [()]) (u ++ rest) ≠ [] :=
    after_append_ne_nil ha (fun _ _ => List.cons_ne_nil _ _) hne
  simpa using hlonger

/-! ## All matches -/

variable {f : List α → Option (β × List α)}

/-- A match takes something of the list. -/
def Advances (f : List α → Option (β × List α)) : Prop := ∀ s r, f s = some r → r.2.length < s.length

theorem Advances.nil (h : Advances f) : f [] = none := by
  cases hf : f [] with
  | none => rfl
  | some r => exact absurd (h [] r hf) (Nat.not_lt_zero _)

theorem scan_eq (h : Advances f) (hn : s.length < n) : scan f n s = matchAll f s := by
  suffices hfuel : ∀ m n s, s.length < m → s.length < n → scan f n s = scan f m s from
    hfuel (s.length + 1) n s (Nat.lt_succ_self _) hn
  intro m
  induction m with
  | zero => exact fun n s hm => absurd hm (Nat.not_lt_zero _)
  | succ m ih =>
    intro n s hm hn
    cases n with
    | zero => exact absurd hn (Nat.not_lt_zero _)
    | succ n =>
      simp only [scan]
      split
      · next r hr =>
        have hlt := h s r hr
        rw [ih n r.2 (by omega) (by omega)]
      · cases s with
        | nil => rfl
        | cons c s =>
          simp only [List.length_cons] at hm hn
          exact ih n s (by omega) (by omega)

theorem matchAll_some (h : Advances f) {r : β × List α} (hr : f s = some r) :
    matchAll f s = r.1 :: matchAll f r.2 := by
  simp only [matchAll, scan, hr]
  exact congrArg (r.1 :: ·) (scan_eq h (h s r hr))

theorem matchAll_none (hnone : f (c :: s) = none) : matchAll f (c :: s) = matchAll f s := by
  simp only [matchAll, List.length_cons, scan, hnone]

@[simp] theorem matchAll_nil (h : Advances f) : matchAll f [] = [] := by
  simp only [matchAll, scan, h.nil]

/-! ## Runs -/

/-- No element of the class is next to the part of the list. -/
def Delimited (p : α → Bool) (u s : List α) : Prop :=
  ∃ x y, s = x ++ (u ++ y) ∧ x.getLast?.any p = false ∧ y.head?.any p = false

theorem head?_run {k : List α → List β} (hk : ∀ s, k s ≠ []) (m : ℕ) (s : List α) :
    (run p k m s).head? = if m ≤ (s.takeWhile p).length then (k (s.dropWhile p)).head? else none := by
  induction s generalizing m with
  | nil => cases m <;> rfl
  | cons c s ih =>
    by_cases hc : p c = true
    · cases m with
      | zero =>
        obtain ⟨r, hr⟩ := Option.ne_none_iff_exists'.mp fun hnone => hk (s.dropWhile p) (List.head?_eq_none_iff.mp hnone)
        simp [run, hc, ih, hr, List.head?_append]
      | succ m => simp [run, hc, ih]
    · cases m with
      | zero => simp [run, hc]
      | succ m => simp [run, hc]

theorem exec_someOf (s : List α) : (Grouped.someOf p).exec s =
    if s.head?.any p then some (s.takeWhile p, s.dropWhile p) else none := by
  have htake : s.take (s.length - (s.dropWhile p).length) = s.takeWhile p := by
    have hlength : s.length - (s.dropWhile p).length = (s.takeWhile p).length := by
      have hsum := congrArg List.length (List.takeWhile_append_dropWhile (p := p) (l := s))
      rw [List.length_append] at hsum
      omega
    rw [hlength, ← List.prefix_iff_eq_take.mp (List.takeWhile_prefix p)]
  refine (head?_run (k := fun r => [(s.take (s.length - r.length), r)]) (fun _ => List.cons_ne_nil _ _) 1 s).trans ?_
  rw [htake]
  cases s with
  | nil => rfl
  | cons c s => by_cases hc : p c = true <;> simp [hc]

theorem advances_someOf : Advances (Grouped.someOf p).exec := by
  intro s r hr
  rw [exec_someOf] at hr
  split at hr
  · next hhead =>
    cases hr
    cases s with
    | nil => cases hhead
    | cons c s =>
      have hc : p c = true := hhead
      rw [List.dropWhile_cons_of_pos hc]
      exact Nat.lt_succ_of_le (List.dropWhile_sublist p).length_le
  · cases hr

/-- What stops a run is not in its class. -/
theorem head?_dropWhile (p : α → Bool) (s : List α) : (s.dropWhile p).head?.any p = false := by
  induction s with
  | nil => rfl
  | cons c s ih =>
    by_cases hc : p c = true
    · rw [List.dropWhile_cons_of_pos hc]
      exact ih
    · rw [List.dropWhile_cons_of_neg hc]
      exact Bool.eq_false_iff.mpr hc

theorem matchAll_someOf_cons (hc : p c = true) (s : List α) : matchAll (Grouped.someOf p).exec (c :: s) =
    (c :: s).takeWhile p :: matchAll (Grouped.someOf p).exec ((c :: s).dropWhile p) := by
  refine matchAll_some (r := ((c :: s).takeWhile p, (c :: s).dropWhile p)) advances_someOf ?_
  rw [exec_someOf, if_pos (show (c :: s).head?.any p = true from hc)]

theorem matchAll_someOf_skip (hc : p c = false) (s : List α) :
    matchAll (Grouped.someOf p).exec (c :: s) = matchAll (Grouped.someOf p).exec s := by
  refine matchAll_none ?_
  rw [exec_someOf, if_neg (Bool.eq_false_iff.mp (show (c :: s).head?.any p = false from hc))]

/-- A match of a run is a run with its ends. -/
theorem delimited_of_mem {u : List α} (hu : u ∈ matchAll (Grouped.someOf p).exec s) :
    (u ≠ [] ∧ ∀ c ∈ u, p c = true) ∧ Delimited p u s := by
  induction hn : s.length using Nat.strong_induction_on generalizing s with
  | _ n ih =>
    cases s with
    | nil =>
      rw [matchAll_nil advances_someOf] at hu
      cases hu
    | cons c s =>
      cases hc : p c with
      | false =>
        rw [matchAll_someOf_skip hc] at hu
        obtain ⟨hrun, x, y, rfl, hx, hy⟩ := ih s.length (by rw [← hn]; exact Nat.lt_succ_self _) hu rfl
        refine ⟨hrun, c :: x, y, rfl, ?_, hy⟩
        cases x with
        | nil => exact hc
        | cons d x => exact hx
      | true =>
        rw [matchAll_someOf_cons hc] at hu
        have hshort : ((c :: s).dropWhile p).length < n := by
          rw [← hn, List.dropWhile_cons_of_pos hc]
          exact Nat.lt_succ_of_le (List.dropWhile_sublist p).length_le
        rcases List.mem_cons.mp hu with rfl | hu
        · refine ⟨⟨?_, fun d hd => List.mem_takeWhile_imp hd⟩, [], (c :: s).dropWhile p, ?_, rfl, head?_dropWhile p _⟩
          · rw [List.takeWhile_cons_of_pos hc]
            exact List.cons_ne_nil _ _
          · exact (List.takeWhile_append_dropWhile (p := p) (l := c :: s)).symm
        · obtain ⟨hrun, x, y, hsplit, hx, hy⟩ := ih _ hshort hu rfl
          refine ⟨hrun, (c :: s).takeWhile p ++ x, y, ?_, ?_, hy⟩
          · rw [List.append_assoc, ← hsplit, List.takeWhile_append_dropWhile]
          · cases x with
            | nil =>
              -- A run does not start where another one has stopped.
              obtain ⟨d, v, rfl⟩ := List.exists_cons_of_ne_nil hrun.1
              have hstop := head?_dropWhile p (c :: s)
              rw [hsplit] at hstop
              exact absurd ((hrun.2 d List.mem_cons_self).symm.trans hstop) (by simp)
            | cons d x =>
              rw [List.getLast?_append_of_ne_nil _ (List.cons_ne_nil d x)]
              exact hx

theorem takeWhile_dropWhile_delimited {u y : List α} (hu : ∀ c ∈ u, p c = true) (hy : y.head?.any p = false) :
    (u ++ y).takeWhile p = u ∧ (u ++ y).dropWhile p = y := by
  rw [List.takeWhile_append_of_pos hu, List.dropWhile_append_of_pos hu]
  cases y with
  | nil => exact ⟨List.append_nil u, rfl⟩
  | cons c y =>
    have hc : ¬ p c = true := Bool.eq_false_iff.mp hy
    rw [List.takeWhile_cons_of_neg hc, List.dropWhile_cons_of_neg hc, List.append_nil]
    exact ⟨rfl, rfl⟩

theorem mem_of_delimited {u : List α} (hne : u ≠ []) (hu : ∀ c ∈ u, p c = true) (h : Delimited p u s) :
    u ∈ matchAll (Grouped.someOf p).exec s := by
  obtain ⟨x, y, rfl, hx, hy⟩ := h
  induction hn : x.length using Nat.strong_induction_on generalizing x with
  | _ n ih =>
    cases x with
    | nil =>
      obtain ⟨d, v, rfl⟩ := List.exists_cons_of_ne_nil hne
      obtain ⟨htake, -⟩ := takeWhile_dropWhile_delimited hu hy
      rw [List.nil_append, List.cons_append, matchAll_someOf_cons (hu d List.mem_cons_self), ← List.cons_append, htake]
      exact List.mem_cons_self
    | cons c x =>
      cases hc : p c with
      | false =>
        rw [List.cons_append, matchAll_someOf_skip hc]
        refine ih x.length (by rw [← hn]; exact Nat.lt_succ_self _) x ?_ rfl
        cases x with
        | nil => rfl
        | cons d x => exact hx
      | true =>
        -- The run at the front stops before the last element in front of `u`.
        have hstop : (c :: x).dropWhile p ≠ [] := by
          intro hnil
          have hall := List.dropWhile_eq_nil_iff.mp hnil
          have hlast : ((c :: x).getLast (List.cons_ne_nil c x)) ∈ c :: x := List.getLast_mem _
          rw [List.getLast?_eq_some_getLast (List.cons_ne_nil c x)] at hx
          exact absurd ((hall _ hlast).symm.trans hx) (by simp)
        have hdrop : (c :: x ++ (u ++ y)).dropWhile p = (c :: x).dropWhile p ++ (u ++ y) := by
          rw [List.dropWhile_append, if_neg (fun hempty => hstop (List.isEmpty_iff.mp hempty))]
        rw [List.cons_append, matchAll_someOf_cons hc, ← List.cons_append, hdrop]
        refine List.mem_cons_of_mem _ (ih _ ?_ ((c :: x).dropWhile p) ?_ rfl)
        · rw [← hn, List.dropWhile_cons_of_pos hc]
          exact Nat.lt_succ_of_le (List.dropWhile_sublist p).length_le
        · obtain ⟨z, hz⟩ : ∃ z, (c :: x) = z ++ (c :: x).dropWhile p :=
            ⟨(c :: x).takeWhile p, (List.takeWhile_append_dropWhile (p := p) (l := c :: x)).symm⟩
          rw [hz, List.getLast?_append_of_ne_nil _ hstop] at hx
          exact hx

end Patterns
