import Civfix.CityUpdateTransactions
import Civfix.FilingService
import Civfix.FramingLines
import Mathlib.Data.List.Dedup
import Mathlib.Data.List.Perm.Subperm

/-! # City mail and its filing

A message of a city is matched with a filing by the code of a framing line, or else by the case ids among its tokens.
The reads see one state; a message without a framing line makes only one. -/
namespace Civfix.FilingCorrelator

open CodeUnits Patterns KeyedTables Filings FramingLines
open CityUpdates (CASE_ID_RE)

/-- How much of a city message is read for codes and case ids. -/
def CITY_TEXT_MAX_CHARS : ℕ := 20000

def CASE_TOKEN_MIN : ℕ := 5
def CASE_TOKEN_MAX : ℕ := 64
def FILING_CASE_TOKENS_MAX : ℕ := 500
def FILING_CASE_MATCH_MAX : ℕ := 50
def FILING_CASE_WINDOW_DAYS : ℕ := 180

/-- `[A-Za-z0-9-]`. -/
def isTokenUnit (c : ℕ) : Bool := isAlnum c || isHyphen c

def CASE_TOKEN_RE : Grouped CodeUnit := .someOf isTokenUnit

structure CityText where
  subject : Text
  text : Text

def readable (mail : CityText) : Text := mail.subject ++ newline :: mail.text.take CITY_TEXT_MAX_CHARS

/-- The length of a token that may be a case id. -/
def Sized (token : Text) : Prop := CASE_TOKEN_MIN ≤ token.length ∧ token.length ≤ CASE_TOKEN_MAX

instance (token : Text) : Decidable (Sized token) := inferInstanceAs (Decidable (_ ∧ _))

/-- The loop over the matches; `tokens` are those found so far. -/
def collect (tokens : List Text) : List Text → List Text
  | [] => tokens
  | token :: rest =>
    if ¬ Sized token then collect tokens rest
    else if FILING_CASE_TOKENS_MAX ≤ (tokens.insert token).length then tokens.insert token
    else collect (tokens.insert token) rest

def caseTokens (t : Text) : List Text := collect [] (matchAll CASE_TOKEN_RE.exec t)

/-- A successful filing submitted within the window. -/
def Recent (s : Shared) (f : Filing) : Prop :=
  f.status.successful = true ∧ ∃ t ∈ f.submittedAt, s.now ≤ t + FILING_CASE_WINDOW_DAYS * (24 * MS_PER_HOUR)

instance (s : Shared) (f : Filing) : Decidable (Recent s f) :=
  inferInstanceAs (Decidable (_ ∧ ∃ t ∈ f.submittedAt, _))

def CaseMatch (s : Shared) (tokens : List Text) (f : Filing) : Prop :=
  (∃ id ∈ f.caseId, CodeUnits.text id ∈ tokens) ∧ Recent s f

instance (s : Shared) (tokens : List Text) (f : Filing) : Decidable (CaseMatch s tokens f) :=
  inferInstanceAs (Decidable ((∃ id ∈ f.caseId, _) ∧ _))

/-- `ORDER BY submitted_at DESC, id DESC`. -/
def newestFirst (f g : Filing) : Bool := decide (toLex (g.submittedAt.getD 0, g.id) ≤ toLex (f.submittedAt.getD 0, f.id))

/-- `none` when there are too many tokens, where the source throws. -/
def findByCaseIds (s : Shared) (tokens : List Text) : Option (List Filing) :=
  if FILING_CASE_TOKENS_MAX < tokens.length then none
  else some (((s.filings.rows.filter (fun f => decide (CaseMatch s tokens f))).mergeSort newestFirst).take
    FILING_CASE_MATCH_MAX)

structure Found where
  filing : Filing
  byCode : Bool
  deriving DecidableEq

/-- `reports` finds the report with a reference code. -/
def byFramingLine (typeCodes : List Text) (reports : Text → Option ReportId) (s : Shared) (t : Text) : Option Filing :=
  match (framingCodes typeCodes t).eraseDups with
  | [code] => (reports code).bind s.getLatestSuccessfulForReport
  | _ => none

/-- `none` where the source throws. -/
def findFiling (typeCodes : List Text) (reports : Text → Option ReportId) (s : Shared) (t : Text) :
    Option (Option Found) :=
  match byFramingLine typeCodes reports s t with
  | some filing => some (some ⟨filing, true⟩)
  | none =>
    if caseTokens t = [] then some none
    else match findByCaseIds s (caseTokens t) with
      | none => none
      | some [filing] => some (some ⟨filing, false⟩)
      | some _ => some none

/-! ## Tokens -/

variable {typeCodes : List Text} {reports : Text → Option ReportId} {s : Shared} {t u : Text} {tokens rest : List Text}
  {f : Filing} {id : String}

theorem nodup_collect (h : tokens.Nodup) : (collect tokens rest).Nodup := by
  induction rest generalizing tokens with
  | nil => exact h
  | cons token rest ih =>
    rw [collect]
    split
    · exact ih h
    split
    · exact h.insert
    · exact ih h.insert

/-- Every token found is a match of an admissible length. -/
theorem mem_of_collect (hu : u ∈ collect tokens rest) : u ∈ tokens ∨ (u ∈ rest ∧ Sized u) := by
  induction rest generalizing tokens with
  | nil => exact .inl hu
  | cons token rest ih =>
    have hinsert : u ∈ tokens.insert token → Sized token → u ∈ tokens ∨ (u ∈ token :: rest ∧ Sized u) := by
      intro hmem hsized
      rcases List.mem_insert_iff.mp hmem with rfl | hmem
      · exact .inr ⟨List.mem_cons_self, hsized⟩
      · exact .inl hmem
    rw [collect] at hu
    split at hu
    · exact (ih hu).imp_right fun h => ⟨List.mem_cons_of_mem _ h.1, h.2⟩
    next hsized =>
    split at hu
    · exact hinsert hu (Decidable.not_not.mp hsized)
    · rcases ih hu with hmem | hrest
      · exact hinsert hmem (Decidable.not_not.mp hsized)
      · exact .inr ⟨List.mem_cons_of_mem _ hrest.1, hrest.2⟩

/-- The loop ends early only when it has seen all of them, if there are not too many. -/
theorem mem_collect {all : List Text} (hnodup : tokens.Nodup) (htokens : tokens ⊆ all)
    (hrest : ∀ v ∈ rest, Sized v → v ∈ all) (hcount : all.length ≤ FILING_CASE_TOKENS_MAX)
    (hu : u ∈ tokens ∨ (u ∈ rest ∧ Sized u)) : u ∈ collect tokens rest := by
  induction rest generalizing tokens with
  | nil =>
    rcases hu with hu | ⟨hu, -⟩
    · exact hu
    · cases hu
  | cons token rest ih =>
    have hrest' : ∀ v ∈ rest, Sized v → v ∈ all := fun v hv => hrest v (List.mem_cons_of_mem _ hv)
    have hnext : u ∈ tokens.insert token ∨ (u ∈ rest ∧ Sized u) := by
      rcases hu with hu | ⟨hu, hsized⟩
      · exact .inl (List.mem_insert_of_mem hu)
      · rcases List.mem_cons.mp hu with rfl | hu
        · exact .inl List.mem_insert_self
        · exact .inr ⟨hu, hsized⟩
    rw [collect]
    split
    · next hsized =>
      refine ih hnodup htokens hrest' ?_
      rcases hu with hu | ⟨hu, hu'⟩
      · exact .inl hu
      · rcases List.mem_cons.mp hu with rfl | hu
        · exact absurd hu' hsized
        · exact .inr ⟨hu, hu'⟩
    next hsized =>
    have hinsert : tokens.insert token ⊆ all := by
      intro v hv
      rcases List.mem_insert_iff.mp hv with rfl | hv
      · exact hrest v List.mem_cons_self (Decidable.not_not.mp hsized)
      · exact htokens hv
    split
    · next hfull =>
      have hperm : (tokens.insert token).Perm all :=
        (List.Nodup.subperm hnodup.insert hinsert).perm_of_length_le (Nat.le_trans hcount hfull)
      rcases hnext with hu | ⟨hu, hsized⟩
      · exact hu
      · exact hperm.mem_iff.mpr (hrest' u hu hsized)
    · exact ih hnodup.insert hinsert hrest' hnext

/-- The tokens whose length is admissible; runs of other lengths do not count. -/
def distinctTokens (t : Text) : List Text := ((matchAll CASE_TOKEN_RE.exec t).filter (Sized ·)).dedup

theorem mem_distinctTokens : u ∈ distinctTokens t ↔ u ∈ matchAll CASE_TOKEN_RE.exec t ∧ Sized u := by
  rw [distinctTokens, List.mem_dedup, List.mem_filter, decide_eq_true_iff]

theorem mem_caseTokens (hcount : (distinctTokens t).length ≤ FILING_CASE_TOKENS_MAX) :
    u ∈ caseTokens t ↔ u ∈ matchAll CASE_TOKEN_RE.exec t ∧ Sized u := by
  constructor
  · intro hu
    exact (mem_of_collect hu).resolve_left List.not_mem_nil
  · intro hu
    exact mem_collect List.nodup_nil (List.nil_subset (distinctTokens t))
      (fun _ hmem hsized => mem_distinctTokens.mpr ⟨hmem, hsized⟩) hcount (.inr hu)

theorem length_caseTokens_le (hcount : (distinctTokens t).length ≤ FILING_CASE_TOKENS_MAX) :
    (caseTokens t).length ≤ FILING_CASE_TOKENS_MAX := by
  have hsubset : caseTokens t ⊆ distinctTokens t := fun u hu =>
    mem_distinctTokens.mpr ((mem_caseTokens hcount).mp hu)
  exact Nat.le_trans (List.Nodup.subperm (nodup_collect List.nodup_nil) hsubset).length_le hcount

/-! ## Case ids -/

theorem length_text (id : String) : (CodeUnits.text id).length = id.length := by
  rw [CodeUnits.text, List.length_map, String.length_toList]

theorem length_le_of_CASE_ID_RE (h : CASE_ID_RE id = true) : id.length ≤ CASE_TOKEN_MAX := by
  rw [← String.length_toList]
  simp only [CASE_ID_RE] at h
  split at h
  · cases h
  · next c cs heq =>
    simp only [Bool.and_eq_true, decide_eq_true_eq] at h
    rw [heq, List.length_cons]
    exact Nat.succ_le_succ h.1.2

/-- The case ids that are tokens. -/
def TokenId (id : String) : Prop :=
  (∀ c ∈ CodeUnits.text id, isTokenUnit c = true) ∧ CASE_TOKEN_MIN ≤ id.length

instance (id : String) : Decidable (TokenId id) := inferInstanceAs (Decidable (_ ∧ _))

theorem eq_singleton_of_unique {α : Type} {l : List α} {a : α} (hnodup : l.Nodup) (ha : a ∈ l)
    (hall : ∀ b ∈ l, b = a) : l = [a] := by
  refine List.perm_singleton.mp ((List.perm_ext_iff_of_nodup hnodup (List.nodup_singleton a)).mpr fun b => ?_)
  exact ⟨fun hb => List.mem_singleton.mpr (hall b hb), fun hb => List.mem_singleton.mp hb ▸ ha⟩

theorem findByCaseIds_eq (hlength : tokens.length ≤ FILING_CASE_TOKENS_MAX) (hf : f ∈ s.filings.rows)
    (hmatch : CaseMatch s tokens f) (hone : ∀ g ∈ s.filings.rows, CaseMatch s tokens g → g = f) :
    findByCaseIds s tokens = some [f] := by
  have hfilter : s.filings.rows.filter (fun g => decide (CaseMatch s tokens g)) = [f] := by
    refine eq_singleton_of_unique ((List.Nodup.of_map _ s.filings.nodup).filter _) ?_ fun g hg => ?_
    · exact List.mem_filter.mpr ⟨hf, decide_eq_true hmatch⟩
    · exact hone g (List.mem_filter.mp hg).1 (of_decide_eq_true (List.mem_filter.mp hg).2)
  rw [findByCaseIds, if_neg (Nat.not_lt_of_le hlength), hfilter, List.mergeSort_singleton]
  rfl

theorem caseMatch_of_findByCaseIds {fs : List Filing} (h : findByCaseIds s tokens = some fs) (hf : f ∈ fs) :
    CaseMatch s tokens f := by
  rw [findByCaseIds] at h
  split at h
  · cases h
  · cases h
    have hmem := List.mem_mergeSort.mp (List.mem_of_mem_take hf)
    exact of_decide_eq_true (List.mem_filter.mp hmem).2

theorem byFramingLine_none (hline : framingCodes typeCodes t = []) : byFramingLine typeCodes reports s t = none := by
  simp [byFramingLine, hline]

/-- The message mentions the case id, with no letter, digit or hyphen next to it. -/
def Mentions (t : Text) (id : String) : Prop := Delimited isTokenUnit (CodeUnits.text id) t

theorem mentions_of_token (h : CodeUnits.text id ∈ matchAll CASE_TOKEN_RE.exec t) : Mentions t id :=
  (delimited_of_mem h).2

theorem token_of_mentions (hid : TokenId id) (h : Mentions t id) : CodeUnits.text id ∈ matchAll CASE_TOKEN_RE.exec t := by
  refine mem_of_delimited (fun hnil => ?_) hid.1 h
  have hlength := length_text id
  rw [hnil] at hlength
  have hmin : 5 ≤ id.length := hid.2
  rw [← hlength] at hmin
  exact absurd hmin (by decide)

theorem tokenId_of_token (h : CodeUnits.text id ∈ matchAll CASE_TOKEN_RE.exec t) (hsized : Sized (CodeUnits.text id)) :
    TokenId id := by
  refine ⟨(delimited_of_mem h).1.2, ?_⟩
  rw [← length_text]
  exact hsized.1

/-- A filing is found by its case id, if the id is a token, and by no other kind of case id. -/
theorem filing_found_by_case_id (typeCodes : List Text) (reports : Text → Option ReportId) (s : Shared)
    (mail : CityText) (f : Filing) (hf : f ∈ s.filings.rows) (id : String) (hid : f.caseId = some id)
    (hline : framingCodes typeCodes (readable mail) = []) :
    (TokenId id → CASE_ID_RE id = true → Recent s f → (∀ g ∈ s.filings.rows, g.caseId = some id → Recent s g → g = f) →
      Mentions (readable mail) id →
      (∀ g ∈ s.filings.rows, ∀ id', g.caseId = some id' → id' ≠ id → ¬ Mentions (readable mail) id') →
      (distinctTokens (readable mail)).length ≤ FILING_CASE_TOKENS_MAX →
      findFiling typeCodes reports s (readable mail) = some (some ⟨f, false⟩)) ∧
    (¬ TokenId id → ∀ byCode, findFiling typeCodes reports s (readable mail) ≠ some (some ⟨f, byCode⟩)) := by
  have hcode : byFramingLine typeCodes reports s (readable mail) = none := byFramingLine_none hline
  constructor
  · intro htoken hre hrecent hone hmentions hothers hcount
    have hmem : CodeUnits.text id ∈ caseTokens (readable mail) := by
      refine (mem_caseTokens hcount).mpr ⟨token_of_mentions htoken hmentions, ?_⟩
      rw [Sized, length_text]
      exact ⟨htoken.2, length_le_of_CASE_ID_RE hre⟩
    have hmatch : CaseMatch s (caseTokens (readable mail)) f := ⟨⟨id, hid, hmem⟩, hrecent⟩
    have hfound : findByCaseIds s (caseTokens (readable mail)) = some [f] := by
      refine findByCaseIds_eq (length_caseTokens_le hcount) hf hmatch fun g hg hgmatch => ?_
      obtain ⟨⟨id', hid', htoken'⟩, hrecent'⟩ := hgmatch
      have hsame : id' = id := by
        by_contra hne
        exact hothers g hg id' hid' hne (mentions_of_token ((mem_caseTokens hcount).mp htoken').1)
      exact hone g hg (hsame ▸ hid') hrecent'
    have hne : caseTokens (readable mail) ≠ [] := List.ne_nil_of_mem hmem
    simp only [findFiling, hcode, if_neg hne, hfound]
  · intro hnot byCode hfound
    simp only [findFiling, hcode] at hfound
    split at hfound
    · cases hfound
    split at hfound
    · cases hfound
    · next g hquery =>
      cases hfound
      obtain ⟨⟨id', hid', htoken⟩, -⟩ := caseMatch_of_findByCaseIds hquery (List.mem_singleton_self _)
      cases hid.symm.trans hid'
      obtain ⟨hmem, hsized⟩ := (mem_of_collect htoken).resolve_left List.not_mem_nil
      exact hnot (tokenId_of_token hmem hsized)
    · cases hfound

def someFiling (caseId : String) : Filing where
  id := 1
  reportId := 1
  geoid := some "0667000"
  category := "road"
  routeCategory := some "road"
  channel := some .portal
  portalHost := some "city.example.org"
  formUrl := none
  status := .submitted
  method := some .script
  reason := none
  reasonDetail := none
  caseId := some caseId
  caseUrl := none
  cityClosedAt := none
  attempts := 1
  runId := some 1
  nextAttemptAt := none
  aiWaitSince := none
  scriptVersion := none
  dryRun := false
  ticketText := "Pothole"
  note := none
  mailThreadId := none
  createdBy := none
  createdAt := 0
  updatedAt := 0
  submittedAt := some 0

def oneFiling (caseId : String) : Shared := { Shared.empty with filings := (Table.empty Filing.id).insert (someFiling caseId) }

/-- The characters of the pattern of case ids. -/
def isCaseUnit (c : ℕ) : Bool := isAlnum c || [32, 46, 95, 35, 47, 45].contains c

theorem mem_oneFiling {caseId : String} : f ∈ (oneFiling caseId).filings.rows ↔ f = someFiling caseId := List.mem_singleton

/-- The pattern of case ids has blanks and dots, the tokens have none. -/
theorem every_case_id_found : ¬ ∀ (typeCodes : List Text) (reports : Text → Option ReportId) (s : Shared)
    (mail : CityText) (f : Filing) (id : String), f ∈ s.filings.rows → f.caseId = some id → CASE_ID_RE id = true →
    Recent s f → (∀ g ∈ s.filings.rows, g.caseId = some id → Recent s g → g = f) →
    Delimited isCaseUnit (CodeUnits.text id) (readable mail) → framingCodes typeCodes (readable mail) = [] →
    (∀ g ∈ s.filings.rows, ∀ id', g.caseId = some id' → id' ≠ id →
      ¬ CodeUnits.text id' <:+: readable mail) →
    (distinctTokens (readable mail)).length ≤ FILING_CASE_TOKENS_MAX →
    findFiling typeCodes reports s (readable mail) = some (some ⟨f, false⟩) := by
  intro hall
  have hmail : readable ⟨text "Update", text "Your request (SR 1.2) is closed"⟩ =
      text "Update\nYour request (" ++ (text "SR 1.2" ++ text ") is closed") := by decide +kernel
  have hnone : findFiling [text "DU"] (fun _ => none) (oneFiling "SR 1.2")
      (readable ⟨text "Update", text "Your request (SR 1.2) is closed"⟩) = some none := by decide +kernel
  have hfound := hall [text "DU"] (fun _ => none) (oneFiling "SR 1.2")
    ⟨text "Update", text "Your request (SR 1.2) is closed"⟩ (someFiling "SR 1.2") "SR 1.2" (mem_oneFiling.mpr rfl) rfl
    (by decide) (by decide) (fun g hg _ _ => mem_oneFiling.mp hg)
    ⟨text "Update\nYour request (", text ") is closed", hmail, by decide, by decide⟩ (by decide +kernel)
    (fun g hg id' hid' hne => absurd (Option.some.inj ((mem_oneFiling.mp hg ▸ hid').symm)) hne) (by decide +kernel)
  rw [hnone] at hfound
  cases hfound

theorem dotted_and_plain_case_ids :
    findFiling [text "DU"] (fun _ => none) (oneFiling "SR-10042")
      (readable ⟨text "Update", text "Your request (SR-10042) is closed"⟩) =
        some (some ⟨someFiling "SR-10042", false⟩) ∧
    findFiling [text "DU"] (fun _ => none) (oneFiling "SR 1.2")
      (readable ⟨text "Update", text "Your request (SR 1.2) is closed"⟩) ≠ some (some ⟨someFiling "SR 1.2", false⟩) := by
  have hmail : readable ⟨text "Update", text "Your request (SR-10042) is closed"⟩ =
      text "Update\nYour request (" ++ (text "SR-10042" ++ text ") is closed") := by decide +kernel
  obtain ⟨hfound, -⟩ := filing_found_by_case_id [text "DU"] (fun _ => none) (oneFiling "SR-10042")
    ⟨text "Update", text "Your request (SR-10042) is closed"⟩ (someFiling "SR-10042") (mem_oneFiling.mpr rfl) "SR-10042"
    rfl (by decide +kernel)
  obtain ⟨-, hnever⟩ := filing_found_by_case_id [text "DU"] (fun _ => none) (oneFiling "SR 1.2")
    ⟨text "Update", text "Your request (SR 1.2) is closed"⟩ (someFiling "SR 1.2") (mem_oneFiling.mpr rfl) "SR 1.2"
    rfl (by decide +kernel)
  refine ⟨hfound (by decide) (by decide) (by decide) (fun g hg _ _ => mem_oneFiling.mp hg) ?_ ?_ (by decide +kernel),
    hnever (by decide) false⟩
  · exact ⟨text "Update\nYour request (", text ") is closed", hmail, by decide, by decide⟩
  · exact fun g hg id' hid' hne => absurd (Option.some.inj ((mem_oneFiling.mp hg ▸ hid').symm)) hne

end Civfix.FilingCorrelator
