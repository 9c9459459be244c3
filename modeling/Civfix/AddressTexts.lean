import Civfix.CodeUnits

/-! # Texts of internet addresses

The spellings of an IPv6 address: groups of hexadecimal digits of either case between colons, at most one double colon
for the zero groups left out, the last two groups written as a dotted quad or not, and a zone after a percent sign. A
spelling denotes sixteen bytes. -/
namespace AddressTexts

open CodeUnits

def colon : CodeUnit := 58

def percent : CodeUnit := 37

instance neZero_256 : NeZero 256 := ⟨by decide⟩

/-! ## Spellings of an IPv6 address -/

/-- One to four hexadecimal digits of either case. -/
structure Hextet where
  text : Text
  short : 0 < text.length ∧ text.length ≤ 4
  digits : ∀ c ∈ text, isHexDigit c = true

/-- The two bytes of a number of sixteen bits. -/
def twoBytes (n : ℕ) : List ℕ := [n / 256, n % 256]

def Hextet.bytes (h : Hextet) : List ℕ := twoBytes (hexValue h.text)

/-- Bytes in decimal digits between dots. -/
def dotted (bytes : List ℕ) : Text := [dot].intercalate (bytes.map decimal)

structure Quad where
  (a b c d : Fin 256)

def Quad.bytes (q : Quad) : List ℕ := [q.a, q.b, q.c, q.d]

/-- Groups between colons. -/
def joined (groups : List Text) : Text := [colon].intercalate groups

/-- Groups on both sides of the double colon, or no double colon. -/
def spelled : List Text × Option (List Text) → Text
  | (head, none) => joined head
  | (head, some tail) => joined head ++ colon :: colon :: joined tail

/-- What stands on both sides of the double colon, with as many `zero` between as fill a list of `width`. -/
def filled {α : Type*} (width : ℕ) (zero : α) (sides : List α × Option (List α)) : List α :=
  sides.1 ++ List.replicate (width - sides.1.length - (sides.2.getD []).length) zero ++ sides.2.getD []

/-- The number of groups that a dotted quad stands for. -/
def quadGroups (quad : Option Quad) : ℕ := if quad.isSome then 2 else 0

/-- Without a double colon there are eight groups, with one at least one group is left out. -/
def Complete (head : List Hextet) (gap : Option (List Hextet)) (quad : Option Quad) : Prop :=
  match gap with
  | none => head.length + quadGroups quad = 8
  | some tail => head.length + tail.length + quadGroups quad < 8

/-- A spelling of an IPv6 address: `gap` is what follows the double colon, and `quad` stands at the end. -/
structure Spelling where
  head : List Hextet
  gap : Option (List Hextet)
  quad : Option Quad
  zone : Option Text
  complete : Complete head gap quad

namespace Spelling

variable {α : Type*} (sp : Spelling)

/-- Both sides of the double colon, from what a group and the quad at the end become. -/
def sides (group : Hextet → List α) (quad : Quad → List α) : List α × Option (List α) :=
  match sp.gap with
  | none => (sp.head.flatMap group ++ sp.quad.toList.flatMap quad, none)
  | some tail => (sp.head.flatMap group, some (tail.flatMap group ++ sp.quad.toList.flatMap quad))

/-- The text before the zone. -/
def address : Text := spelled (sp.sides (fun h => [h.text]) (fun q => [dotted q.bytes]))

def text : Text := sp.address ++ sp.zone.elim [] (percent :: ·)

/-- The sixteen bytes of the address. -/
def bytes : List ℕ := filled 16 0 (sp.sides Hextet.bytes Quad.bytes)

end Spelling

/-! ## Groups between colons -/

section

variable {c : ℕ} {g w : Text} {gs : List Text}

theorem ne_colon_of_hexDigit (h : isHexDigit c = true) : c ≠ colon := by
  rintro rfl
  revert h
  decide

theorem ne_dot_of_hexDigit (h : isHexDigit c = true) : c ≠ dot := by
  rintro rfl
  revert h
  decide

theorem ne_percent_of_hexDigit (h : isHexDigit c = true) : c ≠ percent := by
  rintro rfl
  revert h
  decide

theorem joined_cons (h : gs ≠ []) : joined (g :: gs) = g ++ colon :: joined gs := by
  rw [joined, List.intercalate_cons_of_ne_nil h, List.append_assoc, List.singleton_append, joined]

theorem joined_concat (h : gs ≠ []) : joined (gs ++ [w]) = joined gs ++ colon :: w := by
  induction gs with
  | nil => exact absurd rfl h
  | cons g gs ih =>
    rcases eq_or_ne gs [] with rfl | hne
    · rw [List.cons_append, List.nil_append, joined_cons (List.cons_ne_nil w []), joined, joined,
        List.intercalate_singleton, List.intercalate_singleton]
    · rw [List.cons_append, joined_cons (by simp), ih hne, joined_cons hne, List.append_assoc, List.cons_append]

theorem map_joined {f : ℕ → ℕ} (hf : f colon = colon) (gs : List Text) :
    (joined gs).map f = joined (gs.map (List.map f)) := by
  induction gs with
  | nil => rfl
  | cons g gs ih =>
    rcases eq_or_ne gs [] with rfl | hne
    · rw [joined, List.intercalate_singleton, List.map_cons, List.map_nil, joined, List.intercalate_singleton]
    · rw [joined_cons hne, List.map_append, List.map_cons, hf, ih, List.map_cons,
        joined_cons (by simpa using hne)]

theorem mem_joined {c : ℕ} (h : c ∈ joined gs) : c = colon ∨ ∃ g ∈ gs, c ∈ g := by
  induction gs with
  | nil => cases h
  | cons g gs ih =>
    rcases eq_or_ne gs [] with rfl | hne
    · rw [joined, List.intercalate_singleton] at h
      exact .inr ⟨g, List.mem_singleton_self g, h⟩
    · rw [joined_cons hne, List.mem_append, List.mem_cons] at h
      rcases h with h | h | h
      · exact .inr ⟨g, List.mem_cons_self, h⟩
      · exact .inl h
      · rcases ih h with h | ⟨g', hg', h⟩
        · exact .inl h
        · exact .inr ⟨g', List.mem_cons_of_mem g hg', h⟩

end

theorem mem_dotted {c : ℕ} {bytes : List ℕ} (h : c ∈ dotted bytes) : isDigit c = true ∨ c = dot := by
  induction bytes with
  | nil => cases h
  | cons b bytes ih =>
    rcases eq_or_ne bytes [] with rfl | hne
    · rw [dotted, List.map_cons, List.map_nil, List.intercalate_singleton] at h
      exact .inl (isDigit_of_decimal h)
    · rw [dotted, List.map_cons, List.intercalate_cons_of_ne_nil (by simpa using hne), List.mem_append,
        List.mem_append, List.mem_singleton] at h
      rcases h with (h | h) | h
      · exact .inl (isDigit_of_decimal h)
      · exact .inr h
      · exact ih h

/-! ## Both sides of the double colon -/

section

variable {α β : Type*}

/-- Everything on either side replaced by what it stands for. -/
def expanded (f : α → List β) (sides : List α × Option (List α)) : List β × Option (List β) :=
  (sides.1.flatMap f, sides.2.map (List.flatMap f))

theorem map_spelled {f : ℕ → ℕ} (hf : f colon = colon) (sides : List Text × Option (List Text)) :
    (spelled sides).map f = spelled (expanded (fun g => [g.map f]) sides) := by
  obtain ⟨head, gap⟩ := sides
  cases gap with
  | none => rw [spelled, map_joined hf, List.map_eq_flatMap, expanded, Option.map_none, spelled]
  | some tail =>
    rw [spelled, List.map_append, List.map_cons, List.map_cons, map_joined hf, map_joined hf, hf, List.map_eq_flatMap,
      List.map_eq_flatMap, expanded, Option.map_some, spelled]

/-- Zeros fill the same place when everything stands for `k` entries. -/
theorem filled_expanded {f : α → List β} {k width : ℕ} {zero : α} {zero' : β} (hf : f zero = List.replicate k zero')
    {sides : List α × Option (List α)} (hhead : ∀ a ∈ sides.1, (f a).length = k)
    (htail : ∀ a ∈ sides.2.getD [], (f a).length = k) :
    (filled width zero sides).flatMap f = filled (width * k) zero' (expanded f sides) := by
  have hlength : ∀ l : List α, (∀ a ∈ l, (f a).length = k) → (l.flatMap f).length = l.length * k := by
    intro l hl
    rw [List.length_flatMap, List.map_congr_left hl, List.map_const', List.sum_replicate_nat]
  have hgetD : (expanded f sides).2.getD [] = (sides.2.getD []).flatMap f := by
    cases h : sides.2 <;> simp only [expanded, h, Option.map_none, Option.map_some, Option.getD_none, Option.getD_some,
      List.flatMap_nil]
  have hzeros : ∀ n, (List.replicate n zero).flatMap f = List.replicate (n * k) zero' := by
    intro n
    rw [List.flatMap_replicate, hf, List.flatten_replicate_replicate]
  rw [filled, List.flatMap_append, List.flatMap_append, hzeros, filled, hgetD, hlength _ htail,
    Nat.sub_mul, Nat.sub_mul]
  rw [show (expanded f sides).1 = sides.1.flatMap f from rfl, hlength _ hhead]

namespace Spelling

variable {sp : Spelling} {group : Hextet → List α} {quad : Quad → List α} {f : α → List β}

theorem expanded_sides : expanded f (sp.sides group quad) =
    sp.sides (fun h => (group h).flatMap f) (fun q => (quad q).flatMap f) := by
  cases hgap : sp.gap <;>
    simp only [expanded, sides, hgap, List.flatMap_append, List.flatMap_assoc, Option.map_none, Option.map_some]

theorem forall_sides {P : α → Prop} (hgroup : ∀ h : Hextet, ∀ a ∈ group h, P a) (hquad : ∀ q, ∀ a ∈ quad q, P a) :
    (∀ a ∈ (sp.sides group quad).1, P a) ∧ ∀ a ∈ (sp.sides group quad).2.getD [], P a := by
  have hgroups : ∀ hs : List Hextet, ∀ a ∈ hs.flatMap group, P a := by
    intro hs a ha
    obtain ⟨h, -, ha⟩ := List.mem_flatMap.mp ha
    exact hgroup h a ha
  have hquads : ∀ a ∈ sp.quad.toList.flatMap quad, P a := by
    intro a ha
    obtain ⟨q, -, ha⟩ := List.mem_flatMap.mp ha
    exact hquad q a ha
  cases hgap : sp.gap with
  | none =>
    simp only [sides, hgap, Option.getD_none, List.not_mem_nil, IsEmpty.forall_iff, implies_true, and_true,
      List.forall_mem_append]
    exact ⟨hgroups _, hquads⟩
  | some tail =>
    simp only [sides, hgap, Option.getD_some, List.forall_mem_append]
    exact ⟨hgroups _, hgroups _, hquads⟩

theorem forall_spelled_sides {P : ℕ → Prop} {group : Hextet → List Text} {quad : Quad → List Text} (hcolon : P colon)
    (hgroup : ∀ h, ∀ g ∈ group h, ∀ c ∈ g, P c) (hquad : ∀ q, ∀ g ∈ quad q, ∀ c ∈ g, P c) :
    ∀ c ∈ spelled (sp.sides group quad), P c := by
  have hjoined : ∀ gs : List Text, (∀ g ∈ gs, ∀ c ∈ g, P c) → ∀ c ∈ joined gs, P c := by
    intro gs hgs c hc
    rcases mem_joined hc with rfl | ⟨g, hg, hc⟩
    · exact hcolon
    · exact hgs g hg c hc
  obtain ⟨hhead, htail⟩ : (∀ g ∈ (sp.sides group quad).1, ∀ c ∈ g, P c) ∧
      ∀ g ∈ (sp.sides group quad).2.getD [], ∀ c ∈ g, P c := forall_sides hgroup hquad
  revert hhead htail
  rcases sp.sides group quad with ⟨head, gap⟩
  intro hhead htail c hc
  cases gap with
  | none => exact hjoined head hhead c hc
  | some tail =>
    rw [spelled, List.mem_append, List.mem_cons, List.mem_cons] at hc
    rcases hc with hc | rfl | rfl | hc
    · exact hjoined head hhead c hc
    · exact hcolon
    · exact hcolon
    · exact hjoined tail htail c hc

theorem sides_of_no_quad (h : sp.quad = none) (quad quad' : Quad → List α) :
    sp.sides group quad = sp.sides group quad' := by
  simp only [sides, h, Option.toList_none, List.flatMap_nil]

theorem sides_of_quad {q : Quad} (h : sp.quad = some q) (quad : Quad → List α) :
    sp.sides group quad = sp.sides group fun _ => quad q := by
  simp only [sides, h, Option.toList_some, List.flatMap_singleton]

theorem percent_not_mem_address : percent ∉ sp.address := by
  have hall : ∀ c ∈ sp.address, c ≠ percent := by
    refine forall_spelled_sides (by decide) (fun h g hg c hc => ?_) (fun q g hg c hc => ?_)
    · cases List.mem_singleton.mp hg
      exact ne_percent_of_hexDigit (h.digits c hc)
    · cases List.mem_singleton.mp hg
      rcases mem_dotted hc with hc | rfl
      · rintro rfl
        exact absurd hc (by decide)
      · decide
  exact fun hmem => hall percent hmem rfl

/-- Only a dotted quad has dots. -/
theorem dot_not_mem_address (h : sp.quad = none) : dot ∉ sp.address := by
  have hall : ∀ c ∈ sp.address, c ≠ dot := by
    rw [address, sides_of_no_quad h _ fun _ => []]
    refine forall_spelled_sides (by decide) (fun h g hg c hc => ?_) (fun _ g hg => by cases hg)
    cases List.mem_singleton.mp hg
    exact ne_dot_of_hexDigit (h.digits c hc)
  exact fun hmem => hall dot hmem rfl

/-- The dotted quad stands after a colon, and so would two groups in its place. -/
theorem exists_lead {q : Quad} (hquad : sp.quad = some q) (group : Hextet → Text) :
    ∃ lead, (∀ t, spelled (sp.sides (fun h => [group h]) (fun _ => [t])) = lead ++ colon :: t) ∧
      ∀ t u, spelled (sp.sides (fun h => [group h]) (fun _ => [t, u])) = lead ++ colon :: (t ++ colon :: u) := by
  have hpair : ∀ (gs : List Text) (t u : Text), joined (gs ++ [t, u]) = joined (gs ++ [t]) ++ colon :: u := by
    intro gs t u
    rw [← joined_concat (by simp), List.append_assoc, List.singleton_append]
  have htexts : ∀ hs : List Hextet, hs ≠ [] → hs.flatMap (fun h => [group h]) ≠ [] := by
    intro hs hne
    rw [← List.map_eq_flatMap]
    simpa using hne
  have hcomplete := sp.complete
  cases hgap : sp.gap with
  | none =>
    simp only [Complete, hgap, hquad, quadGroups, Option.isSome_some, if_true] at hcomplete
    have hne : sp.head ≠ [] := by
      intro hnil
      rw [hnil] at hcomplete
      exact absurd hcomplete (by decide)
    refine ⟨joined (sp.head.flatMap fun h => [group h]), fun t => ?_, fun t u => ?_⟩
    · simp only [sides, hgap, hquad, spelled, Option.toList_some, List.flatMap_singleton]
      exact joined_concat (htexts _ hne)
    · simp only [sides, hgap, hquad, spelled, Option.toList_some, List.flatMap_singleton]
      rw [hpair, joined_concat (htexts _ hne), List.append_assoc, List.cons_append]
  | some tail =>
    rcases eq_or_ne tail [] with rfl | hne
    · refine ⟨joined (sp.head.flatMap fun h => [group h]) ++ [colon], fun t => ?_, fun t u => ?_⟩
      · simp only [sides, hgap, hquad, spelled, Option.toList_some, List.flatMap_singleton, List.flatMap_nil,
          List.nil_append, joined, List.intercalate_singleton, List.append_assoc, List.singleton_append]
      · simp only [sides, hgap, hquad, spelled, Option.toList_some, List.flatMap_singleton, List.flatMap_nil,
          List.nil_append, joined, List.intercalate_cons_cons, List.intercalate_singleton, List.append_assoc,
          List.singleton_append]
    · refine ⟨joined (sp.head.flatMap fun h => [group h]) ++ colon :: colon :: joined (tail.flatMap fun h => [group h]),
        fun t => ?_, fun t u => ?_⟩
      · simp only [sides, hgap, hquad, spelled, Option.toList_some, List.flatMap_singleton,
          joined_concat (htexts _ hne), List.append_assoc, List.cons_append]
      · simp only [sides, hgap, hquad, spelled, Option.toList_some, List.flatMap_singleton, hpair,
          joined_concat (htexts _ hne), List.append_assoc, List.cons_append]

/-- As many groups as an address has, or at least one fewer around a double colon. -/
theorem length_sides (hgroup : ∀ h, (group h).length = 1) (hquad : ∀ q, (quad q).length = 2) :
    ((sp.sides group quad).2 = none → (sp.sides group quad).1.length = 8) ∧
      ((sp.sides group quad).2.isSome →
        (sp.sides group quad).1.length + ((sp.sides group quad).2.getD []).length < 8) := by
  have hgroups : ∀ hs : List Hextet, (hs.flatMap group).length = hs.length := by
    intro hs
    rw [List.length_flatMap, funext hgroup, List.map_const', List.sum_replicate_nat, Nat.mul_one]
  have hquads : (sp.quad.toList.flatMap quad).length = quadGroups sp.quad := by
    cases sp.quad with
    | none => rfl
    | some q => rw [Option.toList_some, List.flatMap_singleton, hquad q]; rfl
  have hcomplete := sp.complete
  cases hgap : sp.gap with
  | none =>
    simp only [Complete, hgap] at hcomplete
    simp only [sides, hgap, List.length_append, hgroups, hquads, hcomplete]
    exact ⟨fun _ => trivial, fun h => absurd h Bool.false_ne_true⟩
  | some tail =>
    simp only [Complete, hgap] at hcomplete
    simp only [sides, hgap, List.length_append, hgroups, hquads, Option.getD_some]
    exact ⟨fun h => absurd h (Option.some_ne_none _), fun _ => by omega⟩

end Spelling

end

end AddressTexts
