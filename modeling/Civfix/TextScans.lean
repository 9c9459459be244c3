import Civfix.CodeUnits

/-! # Scans of a text

A loop whose passes are counted, and what holds at its end; the place of a word in a text, the text between two places,
and the replacement of every match. -/
namespace TextScans

open CodeUnits

/-! ## Loops -/

/-- What a pass of a loop's body leaves: the state of the next pass, or the loop's result. -/
inductive Pass (σ β : Type*) where
  | again (s : σ)
  | done (b : β)

section

variable {σ β : Type*}

/-- The result of a loop of less than `n` passes; a pass has none when a loop in it has none. -/
def run (body : σ → Option (Pass σ β)) : ℕ → σ → Option β
  | 0, _ => none
  | n + 1, s =>
    match body s with
    | none => none
    | some (.done b) => some b
    | some (.again s') => run body n s'

/-- The states in which a loop begins a pass. -/
inductive Reaches (body : σ → Option (Pass σ β)) (s : σ) : σ → Prop where
  | start : Reaches body s s
  | again {s' s'' : σ} : Reaches body s s' → body s' = some (.again s'') → Reaches body s s''

theorem Reaches.invariant {body : σ → Option (Pass σ β)} {I : σ → Prop} {s s' : σ}
    (h : ∀ s s', I s → body s = some (.again s') → I s') (hs : I s) (hreach : Reaches body s s') : I s' := by
  induction hreach with
  | start => exact hs
  | again _ hpass ih => exact h _ _ ih hpass

/-- A pass ends the loop with what `Q` says, or leaves less to do in a state where `I` holds again. -/
def Ends (I : σ → Prop) (Q : β → Prop) (μ : σ → ℕ) (s : σ) : Option (Pass σ β) → Prop
  | none => False
  | some (.done b) => Q b
  | some (.again s') => I s' ∧ μ s' < μ s

/-- A loop ends when every pass leaves less to do. -/
theorem run_spec {body : σ → Option (Pass σ β)} {I : σ → Prop} {Q : β → Prop} {μ : σ → ℕ}
    (h : ∀ s, I s → Ends I Q μ s (body s)) {n : ℕ} {s : σ} (hs : I s) (hn : μ s < n) :
    ∃ b, run body n s = some b ∧ Q b := by
  induction n generalizing s with
  | zero => exact absurd hn (Nat.not_lt_zero _)
  | succ n ih =>
    have hbody := h s hs
    rw [run]
    cases hpass : body s with
    | none => rw [hpass] at hbody; exact hbody.elim
    | some p =>
      rw [hpass] at hbody
      cases p with
      | done b => exact ⟨b, rfl, hbody⟩
      | again s' =>
        obtain ⟨hs', hless⟩ := hbody
        exact ih hs' (by omega)

end

/-! ## Places in a text -/

/-- The text from the place `i` up to the place `j`. -/
def slice (t : Text) (i j : ℕ) : Text := (t.take j).drop i

/-- The first place of a word from the place `i` on. -/
def indexOf (w t : Text) (i : ℕ) : Option ℕ :=
  (List.range' i (t.length - i)).find? fun k => w.isPrefixOf (t.drop k)

def startsWith (w t : Text) (i : ℕ) : Bool := w.isPrefixOf (t.drop i)

section

variable {w t : Text} {c : CodeUnit} {i j k : ℕ}

theorem indexOf_some (h : indexOf w t i = some k) :
    i ≤ k ∧ k < t.length ∧ w <+: t.drop k ∧ ∀ j, i ≤ j → j < k → ¬w <+: t.drop j := by
  obtain ⟨hword, hmem, hfirst⟩ := List.find?_range'_eq_some.mp h
  rw [List.mem_range'_1] at hmem
  refine ⟨hmem.1, by omega, List.isPrefixOf_iff_prefix.mp hword, fun j hij hjk hstarts => ?_⟩
  have hnot := hfirst j hij hjk
  rw [List.isPrefixOf_iff_prefix.mpr hstarts] at hnot
  cases hnot

theorem prefix_drop_iff : [c] <+: t.drop k ↔ t[k]? = some c := by
  rw [← List.head?_drop]
  cases t.drop k with
  | nil => simp
  | cons d rest => simp [eq_comm]

/-- Before its first place a code unit does not stand. -/
theorem not_mem_slice_indexOf (h : indexOf [c] t i = some k) : c ∉ slice t i k := by
  intro hmem
  obtain ⟨n, hn⟩ := List.mem_iff_getElem?.mp hmem
  rw [slice, List.getElem?_drop, List.getElem?_take] at hn
  split at hn
  · next hless =>
    exact (indexOf_some h).2.2.2 (i + n) (Nat.le_add_right i n) hless (prefix_drop_iff.mpr hn)
  · cases hn

theorem not_mem_drop_of_indexOf_none (h : indexOf [c] t i = none) : c ∉ t.drop i := by
  intro hmem
  obtain ⟨n, hn⟩ := List.mem_iff_getElem?.mp hmem
  rw [List.getElem?_drop] at hn
  have hlen : i + n < t.length := (List.getElem?_eq_some_iff.mp hn).1
  refine absurd (List.isPrefixOf_iff_prefix.mpr (prefix_drop_iff.mpr hn)) ?_
  exact List.find?_eq_none.mp h (i + n) (List.mem_range'_1.mpr (by omega))

end

/-! ## What stands at a place -/

section

variable {t u rest : Text} {c : CodeUnit} {i : ℕ}

theorem drop_of_drop (h : t.drop i = u ++ rest) : t.drop (i + u.length) = rest := by
  rw [← List.drop_drop, h, List.drop_left]

theorem take_of_drop (h : t.drop i = u ++ rest) : t.take (i + u.length) = t.take i ++ u := by
  rw [List.take_add, h, List.take_left]

theorem slice_of_drop (h : t.drop i = u ++ rest) : slice t i (i + u.length) = u := by
  rw [slice, List.drop_take, h, Nat.add_sub_cancel_left, List.take_left]

theorem getElem?_of_drop (h : t.drop i = u ++ c :: rest) : t[i + u.length]? = some c := by
  rw [← List.getElem?_drop, h, List.getElem?_append_right (Nat.le_refl _), Nat.sub_self, List.getElem?_cons_zero]

theorem indexOf_of_drop (h : t.drop i = u ++ c :: rest) (hu : c ∉ u) : indexOf [c] t i = some (i + u.length) := by
  have hplace := getElem?_of_drop h
  have hlength := (List.getElem?_eq_some_iff.mp hplace).1
  refine List.find?_range'_eq_some.mpr ⟨List.isPrefixOf_iff_prefix.mpr (prefix_drop_iff.mpr hplace),
    List.mem_range'_1.mpr (by omega), fun j hij hj => ?_⟩
  rw [Bool.not_eq_true', Bool.eq_false_iff, ne_eq, List.isPrefixOf_iff_prefix, prefix_drop_iff]
  intro hc
  have hbefore : (t.drop i)[j - i]? = some c := by
    rw [List.getElem?_drop, Nat.add_sub_cancel' hij]
    exact hc
  rw [h, List.getElem?_append_left (by omega)] at hbefore
  exact hu (List.mem_of_getElem? hbefore)

theorem indexOf_none_of_drop (h : c ∉ t.drop i) : indexOf [c] t i = none := by
  cases hfound : indexOf [c] t i with
  | none => rfl
  | some k =>
    obtain ⟨hle, -, hstarts, -⟩ := indexOf_some hfound
    have hplace : (t.drop i)[k - i]? = some c := by
      rw [List.getElem?_drop, Nat.add_sub_cancel' hle]
      exact prefix_drop_iff.mp hstarts
    exact absurd (List.mem_of_getElem? hplace) h

end

/-! ## Replacing every match -/

/-- The text with every match replaced; `match?` gives what replaces a match at the front and the text after it. -/
def replaceAll (match? : Text → Option (Text × Text)) : ℕ → Text → Text
  | 0, _ => []
  | _ + 1, [] => []
  | n + 1, c :: t =>
    match match? (c :: t) with
    | some (r, rest) => r ++ replaceAll match? n rest
    | none => c :: replaceAll match? n t

def replace (match? : Text → Option (Text × Text)) (t : Text) : Text := replaceAll match? (t.length + 1) t

/-- The text with a code unit replaced everywhere. -/
def replaceUnit (c : CodeUnit) (w t : Text) : Text := t.flatMap fun d => if d = c then w else [d]

section

variable {match? : Text → Option (Text × Text)} {written : CodeUnit → Text} {t : Text} {n : ℕ}

/-- What was written unit by unit is read back, when every written unit is read as itself before whatever follows. -/
theorem replaceAll_flatMap (hne : ∀ c ∈ t, written c ≠ [])
    (hread : ∀ c ∈ t, ∀ rest, match? (written c ++ rest) = some ([c], rest) ∨
      written c = [c] ∧ match? (c :: rest) = none) (hn : (t.flatMap written).length < n) :
    replaceAll match? n (t.flatMap written) = t := by
  induction t generalizing n with
  | nil => cases n with
    | zero => rfl
    | succ n => rfl
  | cons c t ih =>
    rw [List.flatMap_cons, List.length_append] at hn
    have hpos : 0 < (written c).length := List.length_pos_iff.mpr (hne c List.mem_cons_self)
    cases n with
    | zero => exact absurd hn (Nat.not_lt_zero _)
    | succ n =>
      have htail : replaceAll match? n (t.flatMap written) = t :=
        ih (fun d hd => hne d (List.mem_cons_of_mem c hd)) (fun d hd => hread d (List.mem_cons_of_mem c hd)) (by omega)
      rw [List.flatMap_cons]
      rcases hread c List.mem_cons_self (t.flatMap written) with hmatch | ⟨hsame, hmatch⟩
      · obtain ⟨d, w, hw⟩ := List.exists_cons_of_ne_nil (hne c List.mem_cons_self)
        rw [hw, List.cons_append] at hmatch ⊢
        rw [replaceAll, hmatch]
        simp only [htail, List.singleton_append]
      · rw [hsame, List.singleton_append, replaceAll, hmatch]
        simp only [htail]

theorem replaceUnit_append (c : CodeUnit) (w t u : Text) :
    replaceUnit c w (t ++ u) = replaceUnit c w t ++ replaceUnit c w u := List.flatMap_append

end

end TextScans
