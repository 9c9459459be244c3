import Civfix.InboundHtmlSafe

/-! # The cursors of the closing tags

The sanitizer looks up closing tags with one cursor for each name, which all lookups of the name share and which only
moves forward. Since a scan asks for places that only grow, no lookup misses a closing tag. -/
namespace Civfix.CloseTagCursors

open CodeUnits TextScans TagTexts InboundHtml

/-- The smallest place after `lt`, or none. -/
def FirstAfter (slots : List ℕ) (lt : ℕ) : Option ℕ → Prop
  | none => ∀ k ∈ slots, k ≤ lt
  | some k => k ∈ slots ∧ lt < k ∧ ∀ k' ∈ slots, lt < k' → k ≤ k'

/-- The scan of a mail looks up the closing tag of `name` after `lt`. -/
def Asks (env : Platform) (html : Text) (index : CloseIndex) (cursors : Cursors) (name : Text) (lt : ℕ) : Prop :=
  indexCloseTags env html = some index ∧ ∃ s nameEnd,
    Reaches (scanPass env html index) ⟨0, fun _ => 0, []⟩ s ∧ s.cursors = cursors ∧
      nextStep env html s.i = .tag lt false name nameEnd ∧ name ∈ DROP_WITH_CONTENT

/-- What the cursors have passed stands before `i`. -/
def Passed (index : CloseIndex) (cursors : Cursors) (i : ℕ) : Prop :=
  ∀ name, ∀ j < cursors name, ∀ slot, (index name)[j]? = some slot → slot < i

section

variable {env : Platform} {html : Text} {index : CloseIndex} {cursors : Cursors} {s s' : Scan} {i lt nameEnd : ℕ}
  {close : Bool} {name : Text} {slots : List ℕ}

theorem Passed.mono {j : ℕ} (h : Passed index cursors i) (hle : i ≤ j) : Passed index cursors j :=
  fun name k hk slot hslot => (h name k hk slot hslot).trans_le hle

/-- Of sorted places the first one that is not passed is the smallest that is left. -/
theorem firstAfter_getElem? {k : ℕ} (hsorted : slots.Pairwise (· < ·))
    (hpassed : ∀ j < k, ∀ slot, slots[j]? = some slot → slot ≤ lt) (hslot : ∀ slot, slots[k]? = some slot → lt < slot) :
    FirstAfter slots lt slots[k]? := by
  cases hk : slots[k]? with
  | none =>
    intro slot hmem
    obtain ⟨j, hj⟩ := List.mem_iff_getElem?.mp hmem
    have hless := (List.getElem?_eq_some_iff.mp hj).1
    have hlength := List.getElem?_eq_none_iff.mp hk
    exact hpassed j (by omega) slot hj
  | some found =>
    refine ⟨List.mem_of_getElem? hk, hslot found hk, fun slot hmem hafter => ?_⟩
    obtain ⟨j, hj⟩ := List.mem_iff_getElem?.mp hmem
    rcases Nat.lt_trichotomy j k with hless | rfl | hless
    · exact absurd (hpassed j hless slot hj) (by omega)
    · rw [hk] at hj
      exact le_of_eq (Option.some.inj hj)
    · obtain ⟨hkl, hfound⟩ := List.getElem?_eq_some_iff.mp hk
      obtain ⟨hjl, hslot⟩ := List.getElem?_eq_some_iff.mp hj
      have hordered := List.pairwise_iff_getElem.mp hsorted k j hkl hjl hless
      omega

/-- A lookup past what the cursor has passed finds the first place, and passes no place after it. -/
theorem closeAfter_first (hsorted : (index name).Pairwise (· < ·)) (h : Passed index cursors i) (hle : i ≤ lt) :
    ∃ found cursors', closeAfter index cursors name lt = some (found, cursors') ∧ FirstAfter (index name) lt found ∧
      Passed index cursors' (lt + 1) := by
  have hpass : ∀ k, (∀ j < k, ∀ slot, (index name)[j]? = some slot → slot ≤ lt) →
      Ends (fun k => ∀ j < k, ∀ slot, (index name)[j]? = some slot → slot ≤ lt)
        (fun k => (∀ j < k, ∀ slot, (index name)[j]? = some slot → slot ≤ lt) ∧
          ∀ slot, (index name)[k]? = some slot → lt < slot)
        (fun k => (index name).length - k) k (cursorPass (index name) lt k) := by
    intro k hk
    rw [cursorPass]
    split
    · next hbefore =>
      refine ⟨fun j hj slot hslot => ?_, by simp only; omega⟩
      rcases Nat.lt_succ_iff_lt_or_eq.mp hj with hj | rfl
      · exact hk j hj slot hslot
      · rw [hslot, Option.getD_some] at hbefore
        exact hbefore.2
    · next hpast =>
      refine ⟨hk, fun slot hslot => ?_⟩
      obtain ⟨hlength, -⟩ := List.getElem?_eq_some_iff.mp hslot
      rw [hslot, Option.getD_some] at hpast
      omega
  rw [closeAfter]
  split
  · next hempty =>
    refine ⟨none, cursors, rfl, fun k hk => ?_, h.mono (hle.trans (Nat.le_succ lt))⟩
    rw [hempty] at hk
    cases hk
  · have hstart : ∀ j < cursors name, ∀ slot, (index name)[j]? = some slot → slot ≤ lt :=
      fun j hj slot hslot => (h name j hj slot hslot).le.trans hle
    obtain ⟨k, hrun, hpassed, hslot⟩ := run_spec hpass hstart (Nat.lt_succ_self _)
    rw [hrun]
    refine ⟨(index name)[k]?, _, rfl, firstAfter_getElem? hsorted hpassed hslot, fun name' j hj slot hj' => ?_⟩
    by_cases heq : name' = name
    · subst heq
      rw [Function.update_self] at hj
      exact Nat.lt_succ_of_le (hpassed j hj slot hj')
    · rw [Function.update_of_ne heq] at hj
      exact (h name' j hj slot hj').trans_le (hle.trans (Nat.le_succ lt))

/-- A tag that is kept or left out moves the scan past it. -/
theorem emitTag_passed (h : Passed index s.cursors (lt + 1))
    (hpass : emitTag html s lt close name nameEnd = some (.again s')) :
    Passed index s'.cursors s'.i := by
  rw [emitTag] at hpass
  cases hgt : indexOf [greaterThan] html (lt + 1) with
  | none =>
    rw [hgt] at hpass
    cases hpass
  | some gt =>
    have hafter := (indexOf_some hgt).1
    rw [hgt] at hpass
    simp only at hpass
    split at hpass
    · split at hpass
      · cases hpass
        exact h.mono (by simp only; omega)
      · obtain ⟨attrs, -, hsame⟩ := Option.map_eq_some_iff.mp hpass
        cases hsame
        exact h.mono (by simp only; omega)
    · cases hpass
      exact h.mono (by simp only; omega)

/-- A pass of the scan keeps the cursors behind its place. -/
theorem scanPass_passed (hsorted : ∀ name, (index name).Pairwise (· < ·)) (h : Passed index s.cursors s.i)
    (hpass : scanPass env html index s = some (.again s')) : Passed index s'.cursors s'.i := by
  have hstep := stepFrom_nextStep env html s.i
  rw [scanPass] at hpass
  cases hnext : nextStep env html s.i with
  | eof =>
    rw [hnext] at hpass
    cases hpass
  | tail lt =>
    rw [hnext] at hpass
    cases hpass
  | skip lt next =>
    rw [hnext] at hpass hstep
    obtain ⟨⟨hle, -⟩, hafter⟩ := hstep
    cases hpass
    exact h.mono (by simp only; omega)
  | stray lt =>
    rw [hnext] at hpass hstep
    obtain ⟨hle, -⟩ := hstep
    cases hpass
    exact h.mono (by simp only; omega)
  | tag lt close name nameEnd =>
    rw [hnext] at hpass hstep
    obtain ⟨⟨hle, -⟩, -⟩ := hstep
    simp only at hpass
    split at hpass
    · obtain ⟨found, cursors, hclose, hfirst, hpassed⟩ := closeAfter_first (hsorted name) h hle
      rw [hclose] at hpass
      cases found with
      | none =>
        simp only at hpass
        split at hpass
        · cases hpass
        · exact emitTag_passed hpassed hpass
      | some k =>
        simp only at hpass
        cases hgt : indexOf [greaterThan] html k with
        | none =>
          rw [hgt] at hpass
          cases hpass
        | some gt =>
          have hafter := (indexOf_some hgt).1
          have hk := hfirst.2.1
          rw [hgt] at hpass
          cases hpass
          exact hpassed.mono (by simp only; omega)
    · have hkept : Passed index s.cursors (lt + 1) := h.mono (hle.trans (Nat.le_succ lt))
      exact emitTag_passed (s := ⟨s.i, s.cursors, s.out ++ slice html s.i lt⟩) hkept hpass

end

/-- Every lookup of a scan finds the smallest recorded place after the tag, or none when there is none. -/
theorem closeAfter_finds_first (env : Platform) (html : Text) (index : CloseIndex) (cursors : Cursors)
    (name : Text) (lt : ℕ)
    (h : Asks env html index cursors name lt) :
    ∃ found cursors', closeAfter index cursors name lt = some (found, cursors') ∧ FirstAfter (index name) lt found := by
  obtain ⟨hindex, s, nameEnd, hreach, rfl, hnext, -⟩ := h
  obtain ⟨index', hindex', hsorted⟩ := indexCloseTags_spec env html
  rw [hindex] at hindex'
  cases hindex'
  have hstart : Passed index (fun _ => 0) 0 := fun _ j hj => absurd hj (Nat.not_lt_zero j)
  have hpassed : Passed index s.cursors s.i :=
    hreach.invariant (I := fun s => Passed index s.cursors s.i)
      (fun _ _ hs hpass => scanPass_passed hsorted hs hpass) hstart
  have hstep := stepFrom_nextStep env html s.i
  rw [hnext] at hstep
  obtain ⟨found, cursors', hclose, hfirst, -⟩ := closeAfter_first (hsorted name) hpassed hstep.1.1
  exact ⟨found, cursors', hclose, hfirst⟩

/-- Two dropped elements, the second after a lookup. -/
def twoDropped : Text := text "<svg></svg><svg>x</svg>y"

def twoPlaces : CloseIndex := ((CloseIndex.push (fun _ => []) (text "svg") 5).push (text "svg") 17)

/-- The scan after the first element. -/
def afterFirst : Scan := ⟨11, Function.update (fun _ => 0) (text "svg") 0, []⟩

theorem twoDropped_finds_second : Asks asciiPlatform twoDropped twoPlaces afterFirst.cursors (text "svg") 11 ∧
    ∃ found cursors', closeAfter twoPlaces afterFirst.cursors (text "svg") 11 = some (found, cursors') ∧
      FirstAfter (twoPlaces (text "svg")) 11 found := by
  have hasks : Asks asciiPlatform twoDropped twoPlaces afterFirst.cursors (text "svg") 11 := by
    refine ⟨rfl, afterFirst, 15, .again .start rfl, rfl, rfl, by decide⟩
  exact ⟨hasks, closeAfter_finds_first asciiPlatform twoDropped twoPlaces afterFirst.cursors (text "svg") 11 hasks⟩

end Civfix.CloseTagCursors
