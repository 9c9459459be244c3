import Mathlib.Logic.Equiv.Basic
import Civfix.Utf8Texts

/-! # Ids for mails that come without one

A mail without a `Message-ID` gets an id from what it says: five fields are joined with bars and digested. The fields may
have bars themselves, and the digest is of bytes, which do not tell one surrogate without its pair from another. -/
namespace Civfix.DerivedIds

open CodeUnits JsonTexts Utf8Texts

def DERIVED_ID_BODY_PREFIX_CHARS : ℕ := 4096
def DERIVED_ID_PREFIX : Text := text "derived:"
def bar : CodeUnit := 124

/-- A parsed mail as far as its id depends on it. Its texts are of 16-bit units. -/
structure ParsedMail where
  fromAddress : Option Text
  headers : Text → Option Text
  subject : Option Text
  text : Option Text
  html : Option Text
  messageId : Option Text
  units : ∀ t, t ∈ fromAddress ∨ (∃ name, t ∈ headers name) ∨ t ∈ subject ∨ t ∈ text ∨ t ∈ html → ∀ c ∈ t, c < 65536

namespace ParsedMail

def body (mail : ParsedMail) : Text := (mail.text.or mail.html).getD []

/-- The sender, the date, the subject, the length of the body and the start of it. -/
def separating (mail : ParsedMail) : Text × Text × Text × ℕ × Text :=
  (mail.fromAddress.getD [], (mail.headers (CodeUnits.text "date")).getD [], mail.subject.getD [], mail.body.length,
    mail.body.take DERIVED_ID_BODY_PREFIX_CHARS)

def fields (mail : ParsedMail) : List Text :=
  [mail.fromAddress.getD [], (mail.headers (CodeUnits.text "date")).getD [], mail.subject.getD [],
    decimal mail.body.length,
    mail.body.take DERIVED_ID_BODY_PREFIX_CHARS]

def basis (mail : ParsedMail) : Text := [bar].intercalate mail.fields

end ParsedMail

/-- `sha256HexSync` on the bytes of the basis. -/
def resolveMessageId (sha256Hex : List ℕ → Text) (mail : ParsedMail) : Text :=
  match mail.messageId with
  | some id => if 0 < id.length then id else DERIVED_ID_PREFIX ++ sha256Hex (utf8 mail.basis)
  | none => DERIVED_ID_PREFIX ++ sha256Hex (utf8 mail.basis)

/-- The fields, each cut at its bars. -/
def cuts (mail : ParsedMail) : List (List Text) := mail.fields.map fun f => (toWellFormed f).splitOn bar

/-- What stands between bars, in one row. -/
def pieces (mail : ParsedMail) : List Text := (cuts mail).flatten

/-! ## Cutting at bars -/

section

variable {mail mail' : ParsedMail} {sha256Hex : List ℕ → Text}

theorem splitOn_injective : Function.Injective fun t : Text => t.splitOn bar := by
  intro t u h
  have hjoined : [bar].intercalate (t.splitOn bar) = [bar].intercalate (u.splitOn bar) := congrArg _ h
  rwa [List.intercalate_splitOn, List.intercalate_splitOn] at hjoined

theorem splitOn_intercalate_fields {fs : List Text} (hne : fs ≠ []) :
    (toWellFormed ([bar].intercalate fs)).splitOn bar = (fs.map fun f => (toWellFormed f).splitOn bar).flatten := by
  induction fs with
  | nil => exact absurd rfl hne
  | cons f fs ih =>
    cases fs with
    | nil =>
      rw [List.intercalate_singleton, List.map_singleton, List.flatten_singleton]
    | cons g fs =>
      rw [List.intercalate_cons_of_ne_nil (List.cons_ne_nil g fs), List.append_assoc, List.singleton_append,
        toWellFormed_append_cons rfl rfl, List.splitOn_append_cons_self, ih (List.cons_ne_nil g fs)]
      rfl

theorem toWellFormed_fields (hpieces : pieces mail = pieces mail')
    (hcounts : (cuts mail).map List.length = (cuts mail').map List.length) :
    mail.fields.map toWellFormed = mail'.fields.map toWellFormed := by
  have hcuts : cuts mail = cuts mail' := List.eq_iff_flatten_eq.2 ⟨hpieces, hcounts⟩
  refine List.map_injective_iff.2 splitOn_injective ?_
  rw [List.map_map, List.map_map]
  exact hcuts

/-! ## Ids -/

theorem basis_units (mail : ParsedMail) : ∀ c ∈ mail.basis, c < 65536 := by
  have hopt : ∀ o : Option Text, (∀ t ∈ o, ∀ c ∈ t, c < 65536) → ∀ c ∈ o.getD [], c < 65536 := by
    intro o ho
    cases o with
    | none => exact fun c hc => absurd hc List.not_mem_nil
    | some t => exact ho t rfl
  have hbody : ∀ c ∈ mail.body, c < 65536 := by
    refine hopt _ fun t ht => mail.units t ?_
    cases htext : mail.text with
    | none =>
      rw [htext, Option.none_or] at ht
      exact Or.inr (Or.inr (Or.inr (Or.inr ht)))
    | some u =>
      rw [htext, Option.some_or] at ht
      exact Or.inr (Or.inr (Or.inr (Or.inl ht)))
  have hfields : ∀ f ∈ mail.fields, ∀ c ∈ f, c < 65536 := by
    intro f hf
    simp only [ParsedMail.fields, List.mem_cons, List.not_mem_nil, or_false] at hf
    rcases hf with rfl | rfl | rfl | rfl | rfl
    · exact hopt _ fun t ht => mail.units t (Or.inl ht)
    · exact hopt _ fun t ht => mail.units t (Or.inr (Or.inl ⟨_, ht⟩))
    · exact hopt _ fun t ht => mail.units t (Or.inr (Or.inr (Or.inl ht)))
    · intro c hc
      have hdigit : ∀ c : ℕ, isDigit c = true → c < 65536 := by
        intro c hc
        have hrange := of_decide_eq_true hc
        omega
      exact hdigit c (isDigit_of_decimal hc)
    · exact fun c hc => hbody c (List.mem_of_mem_take hc)
  intro c hc
  have hjoined : ∀ fs : List Text, (∀ f ∈ fs, ∀ c ∈ f, c < 65536) → ∀ c ∈ [bar].intercalate fs, c < 65536 := by
    intro fs hfs
    induction fs with
    | nil => exact fun c hc => absurd hc List.not_mem_nil
    | cons f fs ih =>
      cases fs with
      | nil =>
        rw [List.intercalate_singleton]
        exact hfs f List.mem_cons_self
      | cons g fs =>
        rw [List.intercalate_cons_of_ne_nil (List.cons_ne_nil g fs)]
        intro c hc
        rcases List.mem_append.1 hc with hc | hc
        · rcases List.mem_append.1 hc with hc | hc
          · exact hfs f List.mem_cons_self c hc
          · rw [List.mem_singleton.1 hc]
            decide
        · exact ih (fun f hf => hfs f (List.mem_cons_of_mem _ hf)) c hc
  exact hjoined mail.fields hfields c hc

theorem resolveMessageId_of_none (h : mail.messageId.getD [] = []) :
    resolveMessageId sha256Hex mail = DERIVED_ID_PREFIX ++ sha256Hex (utf8 mail.basis) := by
  unfold resolveMessageId
  cases hid : mail.messageId with
  | none => rfl
  | some id =>
    rw [hid, Option.getD_some] at h
    subst h
    rfl

theorem resolveMessageId_eq_iff (hsha : Function.Injective sha256Hex) (h : mail.messageId.getD [] = [])
    (h' : mail'.messageId.getD [] = []) :
    resolveMessageId sha256Hex mail = resolveMessageId sha256Hex mail' ↔ pieces mail = pieces mail' := by
  have hpieces : ∀ m : ParsedMail, (toWellFormed m.basis).splitOn bar = pieces m :=
    fun m => splitOn_intercalate_fields (List.cons_ne_nil _ _)
  rw [resolveMessageId_of_none h, resolveMessageId_of_none h', List.append_right_inj, hsha.eq_iff,
    utf8_eq_iff (basis_units mail) (basis_units mail'), ← hpieces mail, ← hpieces mail']
  exact splitOn_injective.eq_iff.symm

theorem separating_eq_iff : mail.separating = mail'.separating ↔ mail.fields = mail'.fields := by
  have hdecimal : ∀ n m : ℕ, decimal n = decimal m → n = m := by
    intro n m h
    exact (decimal_append (x := bar) (y := bar) (u := []) (v := []) rfl rfl (by rw [h])).1
  simp only [ParsedMail.separating, ParsedMail.fields, Prod.mk.injEq, List.cons.injEq, and_true]
  constructor
  · rintro ⟨hsender, hdate, hsubject, hlength, hfront⟩
    exact ⟨hsender, hdate, hsubject, congrArg decimal hlength, hfront⟩
  · rintro ⟨hsender, hdate, hsubject, hlength, hfront⟩
    exact ⟨hsender, hdate, hsubject, hdecimal _ _ hlength, hfront⟩

/-- Exactly the mails whose fields have different pieces between their bars, or as many bars each and no difference
that a replaced surrogate hides, are kept apart when they differ. -/
theorem separated_iff (hsha : Function.Injective sha256Hex) (h : mail.messageId.getD [] = [])
    (h' : mail'.messageId.getD [] = []) :
    (mail.separating ≠ mail'.separating → resolveMessageId sha256Hex mail ≠ resolveMessageId sha256Hex mail') ↔
      pieces mail ≠ pieces mail' ∨
      (cuts mail).map List.length = (cuts mail').map List.length ∧
        (mail.fields.map toWellFormed = mail'.fields.map toWellFormed → mail.fields = mail'.fields) := by
  rw [Ne, Ne, separating_eq_iff, resolveMessageId_eq_iff hsha h h']
  constructor
  · intro hapart
    by_cases hpieces : pieces mail = pieces mail'
    · have hfields : mail.fields = mail'.fields := by
        by_contra hne
        exact hapart hne hpieces
      refine Or.inr ⟨?_, fun _ => hfields⟩
      rw [cuts, cuts, hfields]
    · exact Or.inl hpieces
  · rintro (hne | ⟨hcounts, hhidden⟩) hfields hpieces
    · exact hne hpieces
    · exact hfields (hhidden (toWellFormed_fields hpieces hcounts))

end

/-- A mail of a clerk, as far as it depends on its subject and text. -/
def clerkMail (subject body : Text) (hsubject : ∀ c ∈ subject, c < 65536) (hbody : ∀ c ∈ body, c < 65536) :
    ParsedMail where
  fromAddress := some (text "clerk@lacity.gov")
  headers name := if name = text "date" then some (text "2024-01-01T00:00:00.000Z") else none
  subject := some subject
  text := some body
  html := none
  messageId := none
  units := by
    rintro t (ht | ⟨name, ht⟩ | ht | ht | ht)
    · rw [← Option.mem_some.1 ht]
      decide +kernel
    · split at ht
      · rw [← Option.mem_some.1 ht]
        decide +kernel
      · cases ht
    · rwa [← Option.mem_some.1 ht]
    · rwa [← Option.mem_some.1 ht]
    · cases ht

/-- The digests of the bases of two mails with the text "hi" and the subjects "A" and "B". -/
def twoDigests : List ℕ ≃ Text :=
  (Equiv.swap (text "clerk@lacity.gov|2024-01-01T00:00:00.000Z|A|3|hi\n")
      (text "c01fe62d9433228292b0fa592457cdc2fed3d050ee86e2a071241872547f63b7")).trans
    (Equiv.swap (text "clerk@lacity.gov|2024-01-01T00:00:00.000Z|B|3|hi\n")
      (text "a1d738558d6cc469c08b3604451899ce916c0078fb1be8283f76159b930e752d"))

theorem subjects_separated :
    resolveMessageId twoDigests (clerkMail (text "A") (text "hi\n") (by decide) (by decide)) ≠
      resolveMessageId twoDigests (clerkMail (text "B") (text "hi\n") (by decide) (by decide)) := by
  refine (separated_iff twoDigests.injective rfl rfl).2 (Or.inl ?_) ?_
  · decide +kernel
  · decide +kernel

/-- The text of one mail reads like the end of the subject, the length and the text of the other. -/
theorem regrouped_collide :
    (clerkMail (text "A") (text "|3|hi\n") (by decide) (by decide)).separating ≠
        (clerkMail (text "A|6|") (text "hi\n") (by decide) (by decide)).separating ∧
      ∀ sha256Hex, resolveMessageId sha256Hex (clerkMail (text "A") (text "|3|hi\n") (by decide) (by decide)) =
        resolveMessageId sha256Hex (clerkMail (text "A|6|") (text "hi\n") (by decide) (by decide)) := by
  have hbasis : (clerkMail (text "A") (text "|3|hi\n") (by decide) (by decide)).basis =
      (clerkMail (text "A|6|") (text "hi\n") (by decide) (by decide)).basis := by decide +kernel
  refine ⟨by decide +kernel, fun sha256Hex => ?_⟩
  rw [resolveMessageId_of_none rfl, resolveMessageId_of_none rfl, hbasis]

end Civfix.DerivedIds
