import Civfix.JsonTexts
import Mathlib.Data.List.Sort

/-! # The transcript and the fingerprint of its ledger

A certificate prints the rows of a ledger with labels that are derived from other tables. Its fingerprint is a hash of
the holder, the totals, and the id, hours and instant of each row. -/
namespace Civfix.Transcripts

open CodeUnits JsonTexts

inductive Locale where
  | en
  | es
  | de
  | ko

def Locale.tag : Locale → Text
  | .en => text "en"
  | .es => text "es"
  | .de => text "de"
  | .ko => text "ko"

/-- `toLowerCase`, as far as it makes letters of ASCII. -/
def lowerUnit (c : ℕ) : ℕ := if isUpper c then c + 32 else if c = 8490 then 107 else c

def isSubtagSeparator (c : ℕ) : Bool := decide (c = 45 ∨ c = 95)

def resolveLocale (value : Text) : Locale :=
  let base := ((trim value).map lowerUnit).takeWhile fun c => !isSubtagSeparator c
  if base = Locale.es.tag then .es else if base = Locale.de.tag then .de else if base = Locale.ko.tag then .ko else .en

/-- The messages that the rows print. -/
structure CertificateTranslator where
  report : Text → Text
  manual : Text
  automatic : Text

def certificateTranslator : Locale → CertificateTranslator
  | .en => ⟨fun ref => text "Verified report " ++ ref, text "Adjustment", text "Automatic (report verified)"⟩
  | .es => ⟨fun ref => text "Reporte verificado " ++ ref, text "Ajuste", text "Automático (reporte verificado)"⟩
  | .de => ⟨fun ref => text "Verifizierte Meldung " ++ ref, text "Korrektur",
      text "Automatisch (Meldung verifiziert)"⟩
  | .ko => ⟨fun ref => text "확인된 제보 " ++ ref, text "조정", text "자동 (제보 확인)"⟩

/-- Numbers, dates, their formatting, and the limit of the contract. `hundredths n` is `Math.round(n * 100)`. -/
structure Platform where
  Number : Type
  zero : Number
  add : Number → Number → Number
  hundredths : Number → ℤ
  Moment : Type
  toIso : Moment → Text
  formatDate : Text → Locale → Text
  MAX_CERTIFICATE_ENTRIES : ℕ

inductive VolunteerHoursSource where
  | report
  | manual
  | event
  deriving DecidableEq

variable (pf : Platform)

structure TranscriptLedgerRow where
  id : Text
  source : VolunteerHoursSource
  hours : pf.Number
  occurredAt : pf.Moment
  eventTitle : Option Text
  eventReferenceCode : Option Text
  reportReferenceCode : Option Text
  jurisdictionName : Option Text
  creditedByName : Option Text

structure TranscriptHolder where
  userId : Text
  displayName : Text
  handle : Option Text

/-- The hours are in hundredths, as they are in `TranscriptModel`. -/
structure TranscriptModelRow where
  id : Text
  source : VolunteerHoursSource
  hours : ℤ
  occurredAt : Text
  dateLabel : Text
  activity : Text
  community : Text
  creditedBy : Text

structure TranscriptModel where
  locale : Locale
  holder : TranscriptHolder
  rows : List TranscriptModelRow
  entryCount : ℕ
  includedCount : ℕ
  truncated : Bool
  totalHours : ℤ
  periodStart : Option Text
  periodEnd : Option Text
  jurisdictions : List Text

structure Totals where
  entryCount : ℕ
  totalHours : pf.Number

structure BuildTranscriptModelInput where
  holder : TranscriptHolder
  rows : List (TranscriptLedgerRow pf)
  totals : Option (Totals pf)
  locale : Text
  t : Option CertificateTranslator

def EMPTY_VALUE : Text := text "–"

def firstNonEmpty (values : List (Option Text)) : Option Text :=
  (values.find? fun value => decide (value ≠ none ∧ value ≠ some [])).join

variable {pf}

def activityLabel (row : TranscriptLedgerRow pf) (t : CertificateTranslator) : Text :=
  match row.source with
  | .report => trim (t.report (row.reportReferenceCode.getD []))
  | .manual => t.manual
  | .event => (firstNonEmpty [row.eventTitle.map trim, row.eventReferenceCode.map trim]).getD EMPTY_VALUE

def creditedByLabel (row : TranscriptLedgerRow pf) (t : CertificateTranslator) : Text :=
  if row.source = .report then t.automatic
  else (firstNonEmpty [row.creditedByName.map trim]).getD t.automatic

def communityLabel (row : TranscriptLedgerRow pf) : Text :=
  (firstNonEmpty [row.jurisdictionName.map trim]).getD EMPTY_VALUE

/-- The order of the transcript: by instant, then by id. -/
def Precedes (a b : TranscriptLedgerRow pf) : Prop :=
  if pf.toIso a.occurredAt ≠ pf.toIso b.occurredAt then pf.toIso a.occurredAt < pf.toIso b.occurredAt else a.id ≤ b.id

instance : DecidableRel (@Precedes pf) := fun a b =>
  inferInstanceAs (Decidable (if pf.toIso a.occurredAt ≠ pf.toIso b.occurredAt
    then pf.toIso a.occurredAt < pf.toIso b.occurredAt else a.id ≤ b.id))

/-- The newest entries, when there are more than the document takes. -/
def included (rows : List (TranscriptLedgerRow pf)) : List (TranscriptLedgerRow pf) :=
  let sorted := rows.insertionSort Precedes
  if pf.MAX_CERTIFICATE_ENTRIES < sorted.length then sorted.drop (sorted.length - pf.MAX_CERTIFICATE_ENTRIES)
  else sorted

def modelRow (locale : Locale) (t : CertificateTranslator) (row : TranscriptLedgerRow pf) : TranscriptModelRow :=
  { id := row.id, source := row.source, hours := pf.hundredths row.hours, occurredAt := pf.toIso row.occurredAt,
    dateLabel := pf.formatDate (pf.toIso row.occurredAt) locale, activity := activityLabel row t,
    community := communityLabel row, creditedBy := creditedByLabel row t }

def jurisdictionsOf (rows : List TranscriptModelRow) : List Text :=
  rows.foldl (fun found row =>
    if row.community ≠ EMPTY_VALUE ∧ row.community ∉ found then found ++ [row.community] else found) []

def buildTranscriptModel (input : BuildTranscriptModelInput pf) : TranscriptModel :=
  let locale := resolveLocale input.locale
  let t := input.t.getD (certificateTranslator locale)
  let rows := (included input.rows).map (modelRow locale t)
  let entryCount := (input.totals.map Totals.entryCount).getD input.rows.length
  let sum := (input.rows.insertionSort Precedes).foldl (fun sum row => pf.add sum row.hours) pf.zero
  { locale, holder := input.holder, rows, entryCount, includedCount := rows.length
    truncated := decide (pf.MAX_CERTIFICATE_ENTRIES < input.rows.length ∨ rows.length < entryCount)
    totalHours := pf.hundredths ((input.totals.map Totals.totalHours).getD sum)
    periodStart := rows.head?.map TranscriptModelRow.occurredAt
    periodEnd := rows.getLast?.map TranscriptModelRow.occurredAt
    jurisdictions := jurisdictionsOf rows }

/-- `(n / 100).toFixed(2)` -/
def toFixed2 (n : ℤ) : Text :=
  (if n < 0 then text "-" else []) ++ decimal (n.natAbs / 100) ++ text "." ++ padStart 2 48 (decimal (n.natAbs % 100))

def TranscriptModelRow.fields (row : TranscriptModelRow) : List Text := [row.id, toFixed2 row.hours, row.occurredAt]

/-- The text that is hashed. -/
def TranscriptModel.basis (model : TranscriptModel) : Text :=
  text "\x7b\"v\":1,\"userId\":" ++ (quoted model.holder.userId ++ (text ",\"locale\":" ++ (quoted model.locale.tag ++
    (text ",\"name\":" ++ (quoted model.holder.displayName ++ (text ",\"handle\":" ++ (nullable model.holder.handle ++
    (text ",\"total\":" ++ (quoted (toFixed2 model.totalHours) ++ (text ",\"count\":" ++ (decimal model.entryCount ++
    (text ",\"rows\":" ++ (array (array quoted) (model.rows.map TranscriptModelRow.fields) ++
    text "\x7d")))))))))))))

/-- A hash without collisions. -/
structure Hash where
  hex : Text → Text
  injective : Function.Injective hex

def ledgerFingerprint (sha256 : Hash) (model : TranscriptModel) : Text := sha256.hex model.basis

/-! ## What is printed -/

structure PrintedRow where
  date : Text
  activity : Text
  community : Text
  hours : Text
  creditedBy : Text
  deriving DecidableEq

def TranscriptModelRow.printed (row : TranscriptModelRow) : PrintedRow :=
  ⟨row.dateLabel, row.activity, row.community, toFixed2 row.hours, row.creditedBy⟩

structure Printed where
  displayName : Text
  handle : Option Text
  totalHours : Text
  entryCount : ℕ
  rows : List PrintedRow
  deriving DecidableEq

def TranscriptModel.printed (model : TranscriptModel) : Printed :=
  ⟨model.holder.displayName, model.holder.handle, toFixed2 model.totalHours, model.entryCount,
    model.rows.map TranscriptModelRow.printed⟩

/-! ## What is asserted -/

/-- A row without the labels that are derived. -/
structure AssertedRow where
  id : Text
  hours : ℤ
  occurredAt : Text

def TranscriptModelRow.asserted (row : TranscriptModelRow) : AssertedRow := ⟨row.id, row.hours, row.occurredAt⟩

structure Asserted where
  locale : Locale
  holder : TranscriptHolder
  totalHours : ℤ
  entryCount : ℕ
  rows : List AssertedRow

def TranscriptModel.asserted (model : TranscriptModel) : Asserted :=
  ⟨model.locale, model.holder, model.totalHours, model.entryCount, model.rows.map TranscriptModelRow.asserted⟩

/-! ## The text tells what is asserted -/

theorem natAbs_of_hundredths {a b : ℕ} (h : decimal (a / 100) ++ text "." ++ padStart 2 48 (decimal (a % 100)) =
    decimal (b / 100) ++ text "." ++ padStart 2 48 (decimal (b % 100))) : a = b := by
  rw [List.append_assoc, List.append_assoc] at h
  obtain ⟨hunits, hrest⟩ := decimal_append (x := 46) (y := 46) (by decide) (by decide) h
  have hcents : a % 100 = b % 100 := by
    exact (value_padStart 2 (a % 100)).symm.trans
      ((congrArg value (List.cons.inj hrest).2).trans (value_padStart 2 (b % 100)))
  omega

theorem ne_negative (a : ℕ) (u v : Text) : decimal a ++ u ≠ text "-" ++ v := by
  intro h
  obtain ⟨c, t, hc⟩ := List.exists_cons_of_ne_nil (decimal_ne_nil a)
  have hdigit : isDigit c = true := isDigit_of_decimal (hc ▸ List.mem_cons_self)
  rw [hc] at h
  rw [(List.cons.inj h).1] at hdigit
  exact absurd hdigit (by decide)

theorem toFixed2_injective : Function.Injective toFixed2 := by
  intro n m h
  by_cases hn : n < 0
  · by_cases hm : m < 0
    · simp only [toFixed2, if_pos hn, if_pos hm, List.append_assoc] at h
      have habs := natAbs_of_hundredths (a := n.natAbs) (b := m.natAbs)
        (by simpa only [List.append_assoc] using List.append_cancel_left h)
      omega
    · simp only [toFixed2, if_pos hn, if_neg hm, List.nil_append, List.append_assoc] at h
      exact absurd h.symm (ne_negative _ _ _)
  · by_cases hm : m < 0
    · simp only [toFixed2, if_neg hn, if_pos hm, List.nil_append, List.append_assoc] at h
      exact absurd h (ne_negative _ _ _)
    · simp only [toFixed2, if_neg hn, if_neg hm, List.nil_append] at h
      have habs := natAbs_of_hundredths h
      omega

theorem tag_injective : Function.Injective Locale.tag := by
  intro l l' h
  cases l <;> cases l' <;> first | rfl | exact absurd h (by decide)

def AssertedRow.fields (row : AssertedRow) : List Text := [row.id, toFixed2 row.hours, row.occurredAt]

theorem AssertedRow.fields_injective : Function.Injective AssertedRow.fields := by
  intro r r' h
  simp only [AssertedRow.fields, List.cons.injEq, and_true] at h
  obtain ⟨hid, hhours, hat⟩ := h
  cases r
  cases r'
  cases hid
  cases toFixed2_injective hhours
  cases hat
  rfl

theorem map_fields (rows : List TranscriptModelRow) :
    rows.map TranscriptModelRow.fields = (rows.map TranscriptModelRow.asserted).map AssertedRow.fields := by
  rw [List.map_map]
  rfl

theorem basis_eq_iff (m m' : TranscriptModel) : m.basis = m'.basis ↔ m.asserted = m'.asserted := by
  constructor
  · intro h
    simp only [TranscriptModel.basis] at h
    obtain ⟨huser, h⟩ := selfDelimiting_quoted _ _ _ _ (List.append_cancel_left h)
    obtain ⟨hlocale, h⟩ := selfDelimiting_quoted _ _ _ _ (List.append_cancel_left h)
    obtain ⟨hname, h⟩ := selfDelimiting_quoted _ _ _ _ (List.append_cancel_left h)
    obtain ⟨hhandle, h⟩ := selfDelimiting_nullable _ _ _ _ (List.append_cancel_left h)
    obtain ⟨htotal, h⟩ := selfDelimiting_quoted _ _ _ _ (List.append_cancel_left h)
    obtain ⟨hcount, h⟩ := decimal_append (x := 44) (y := 44) (by decide) (by decide) (List.append_cancel_left h)
    obtain ⟨hrows, -⟩ := selfDelimiting_array (selfDelimiting_array selfDelimiting_quoted head_quoted)
      (head_array quoted) _ _ _ _ (@List.append_cancel_left _ (text ",\"rows\":") _ _ h)
    have hholder : m.holder = m'.holder := by
      cases hm : m.holder
      cases hm' : m'.holder
      rw [hm, hm'] at huser hname hhandle
      cases huser
      cases hname
      cases hhandle
      rfl
    rw [map_fields, map_fields] at hrows
    rw [TranscriptModel.asserted, TranscriptModel.asserted, tag_injective hlocale, hholder, toFixed2_injective htotal,
      hcount, List.map_injective_iff.mpr AssertedRow.fields_injective hrows]
  · intro h
    simp only [TranscriptModel.asserted, Asserted.mk.injEq] at h
    obtain ⟨hlocale, hholder, htotal, hcount, hrows⟩ := h
    simp only [TranscriptModel.basis, map_fields, hlocale, hholder, htotal, hcount, hrows]

/-! ## The labels -/

/-- The ledger row has the labels of the other. -/
structure SameLabels (a b : TranscriptLedgerRow pf) : Prop where
  source : a.source = b.source
  eventTitle : a.eventTitle = b.eventTitle
  eventReferenceCode : a.eventReferenceCode = b.eventReferenceCode
  reportReferenceCode : a.reportReferenceCode = b.reportReferenceCode
  jurisdictionName : a.jurisdictionName = b.jurisdictionName
  creditedByName : a.creditedByName = b.creditedByName

variable {a b : TranscriptLedgerRow pf} {x y : BuildTranscriptModelInput pf}

theorem printed_of_sameLabels (locale : Locale) (t : CertificateTranslator) (h : SameLabels a b)
    (heq : (modelRow locale t a).asserted = (modelRow locale t b).asserted) :
    (modelRow locale t a).printed = (modelRow locale t b).printed := by
  simp only [TranscriptModelRow.asserted, modelRow, AssertedRow.mk.injEq] at heq
  obtain ⟨-, hhours, hat⟩ := heq
  simp only [TranscriptModelRow.printed, modelRow, activityLabel, communityLabel, creditedByLabel, hhours, hat,
    h.source, h.eventTitle, h.eventReferenceCode, h.reportReferenceCode, h.jurisdictionName, h.creditedByName]

theorem mem_of_included {rows : List (TranscriptLedgerRow pf)} (h : a ∈ included rows) : a ∈ rows := by
  simp only [included] at h
  split at h
  · exact (List.mem_insertionSort Precedes).mp (List.mem_of_mem_drop h)
  · exact (List.mem_insertionSort Precedes).mp h

/-- Rows that are asserted alike and are labelled alike are printed alike. -/
theorem map_printed {locale : Locale} {t : CertificateTranslator} {l l' : List (TranscriptLedgerRow pf)}
    (hlabels : ∀ a ∈ l, ∀ b ∈ l', a.id = b.id → SameLabels a b)
    (h : l.map (fun r => (modelRow locale t r).asserted) = l'.map fun r => (modelRow locale t r).asserted) :
    l.map (fun r => (modelRow locale t r).printed) = l'.map fun r => (modelRow locale t r).printed := by
  induction l generalizing l' with
  | nil =>
    obtain rfl := List.map_eq_nil_iff.mp h.symm
    rfl
  | cons a l ih =>
    cases l' with
    | nil => cases h
    | cons b l' =>
      obtain ⟨hhead, htail⟩ := List.cons.inj h
      have hid : a.id = b.id := congrArg AssertedRow.id hhead
      have hsame := hlabels a List.mem_cons_self b List.mem_cons_self hid
      have hrest := ih (fun c hc d hd => hlabels c (List.mem_cons_of_mem a hc) d (List.mem_cons_of_mem b hd)) htail
      simp only [List.map_cons]
      rw [printed_of_sameLabels locale t hsame hhead, hrest]

theorem map_rows {β : Type} (f : TranscriptModelRow → β) (x : BuildTranscriptModelInput pf) :
    (buildTranscriptModel x).rows.map f = (included x.rows).map fun r => f (modelRow (resolveLocale x.locale)
      (x.t.getD (certificateTranslator (resolveLocale x.locale))) r) :=
  List.map_map

/-- A fingerprint stands for the holder, the totals, and the id, hours and instant of every row with the date label
that is made of them. The other labels are the same as long as they are the same in the ledger. -/
theorem ledgerFingerprint_eq_iff (sha256 : Hash) (x y : BuildTranscriptModelInput pf) :
    (ledgerFingerprint sha256 (buildTranscriptModel x) = ledgerFingerprint sha256 (buildTranscriptModel y) ↔
      (buildTranscriptModel x).asserted = (buildTranscriptModel y).asserted) ∧
    (ledgerFingerprint sha256 (buildTranscriptModel x) = ledgerFingerprint sha256 (buildTranscriptModel y) →
      (buildTranscriptModel x).rows.map TranscriptModelRow.dateLabel =
        (buildTranscriptModel y).rows.map TranscriptModelRow.dateLabel ∧
      (x.t = y.t → (∀ a ∈ x.rows, ∀ b ∈ y.rows, a.id = b.id → SameLabels a b) →
        (buildTranscriptModel x).printed = (buildTranscriptModel y).printed)) := by
  have hiff : ledgerFingerprint sha256 (buildTranscriptModel x) = ledgerFingerprint sha256 (buildTranscriptModel y) ↔
      (buildTranscriptModel x).asserted = (buildTranscriptModel y).asserted :=
    sha256.injective.eq_iff.trans (basis_eq_iff _ _)
  refine ⟨hiff, fun hfingerprint => ?_⟩
  have hasserted := hiff.mp hfingerprint
  simp only [TranscriptModel.asserted, Asserted.mk.injEq] at hasserted
  obtain ⟨hlocale, hholder, htotal, hcount, hrows⟩ := hasserted
  have hl : resolveLocale x.locale = resolveLocale y.locale := hlocale
  refine ⟨?_, fun ht hlabels => ?_⟩
  · have hdates := congrArg (List.map fun r => pf.formatDate r.occurredAt (resolveLocale x.locale)) hrows
    simp only [buildTranscriptModel, List.map_map] at hdates ⊢
    rw [hl] at hdates ⊢
    exact hdates
  · have hprinted := map_printed (t := x.t.getD (certificateTranslator (resolveLocale x.locale)))
      (fun a ha b hb => hlabels a (mem_of_included ha) b (mem_of_included hb))
      (by rw [map_rows, map_rows, ← hl, ← ht] at hrows; exact hrows)
    have hlist : (buildTranscriptModel x).rows.map TranscriptModelRow.printed =
        (buildTranscriptModel y).rows.map TranscriptModelRow.printed := by
      rw [map_rows, map_rows, ← hl, ← ht]
      exact hprinted
    simp only [TranscriptModel.printed, hholder, htotal, hcount, hlist]

/-! ## A ledger whose event is renamed -/

def plainPlatform : Platform where
  Number := ℤ
  zero := 0
  add := (· + ·)
  hundredths := id
  Moment := Text
  toIso := id
  formatDate := fun iso _ => iso.take 10
  MAX_CERTIFICATE_ENTRIES := 1000

def plainHash : Hash := ⟨id, Function.injective_id⟩

/-- Two hours at an event with a title. -/
def eventRow (id title : Text) : TranscriptLedgerRow plainPlatform :=
  { id, source := .event, hours := (200 : ℤ), occurredAt := text "2026-03-03T18:00:00.000Z", eventTitle := some title
    eventReferenceCode := none, reportReferenceCode := none, jurisdictionName := some (text "Los Angeles")
    creditedByName := some (text "Ada Host") }

def transcriptOf (rows : List (TranscriptLedgerRow plainPlatform)) : BuildTranscriptModelInput plainPlatform :=
  { holder := ⟨text "11111111", text "Jane Doe", some (text "jane")⟩, rows, totals := none, locale := text "en"
    t := none }

/-- The ledger is read in another order. -/
theorem ledgerFingerprint_eq_iff_reordered :
    (buildTranscriptModel (transcriptOf [eventRow (text "a") (text "Beach cleanup"),
      eventRow (text "b") (text "Park cleanup")])).printed =
    (buildTranscriptModel (transcriptOf [eventRow (text "b") (text "Park cleanup"),
      eventRow (text "a") (text "Beach cleanup")])).printed := by
  refine ((ledgerFingerprint_eq_iff plainHash _ _).2 (by decide +kernel)).2 rfl fun a ha b hb hid => ?_
  have hne : text "a" ≠ text "b" := by decide
  rcases List.mem_pair.mp ha with rfl | rfl <;> rcases List.mem_pair.mp hb with rfl | rfl
  · exact absurd hid hne
  · exact ⟨rfl, rfl, rfl, rfl, rfl, rfl⟩
  · exact ⟨rfl, rfl, rfl, rfl, rfl, rfl⟩
  · exact absurd hid hne.symm

/-- A certificate of the event under its old title has the fingerprint of one under its new title. -/
theorem renamed_event_same_fingerprint :
    ledgerFingerprint plainHash (buildTranscriptModel (transcriptOf [eventRow (text "a") (text "Beach cleanup")])) =
      ledgerFingerprint plainHash (buildTranscriptModel (transcriptOf [eventRow (text "a") (text "Harbor cleanup")])) ∧
    (buildTranscriptModel (transcriptOf [eventRow (text "a") (text "Beach cleanup")])).printed ≠
      (buildTranscriptModel (transcriptOf [eventRow (text "a") (text "Harbor cleanup")])).printed := by
  decide +kernel

end Civfix.Transcripts
