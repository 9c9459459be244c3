import Civfix.CodeUnits
import Mathlib.Data.List.Sort

/-! # Consent to legal documents

Each type of document has its versions in effect, oldest first, and a person has records of some of them. What is
required and what is only noticed is told by the newest version with a record. -/
namespace Civfix.Legal

open CodeUnits

abbrev Instant := ℕ
abbrev UserId := ℕ

/-- Rows of retired types stay in the table. -/
inductive LegalDocumentType where
  | terms
  | privacy
  | cookies
  | subprocessors
  | retired (name : String)
  deriving DecidableEq

def LegalDocumentType.name : LegalDocumentType → String
  | .terms => "terms"
  | .privacy => "privacy"
  | .cookies => "cookies"
  | .subprocessors => "subprocessors"
  | .retired name => name

inductive LegalAcceptAction where
  | accepted
  | acknowledged
  deriving DecidableEq

inductive ConsentSurface where
  | web_register
  | mobile_register
  | onboarding
  | signup
  | prompt
  | notice
  | event_registration
  deriving DecidableEq

inductive SubjectKind where
  | user
  | donor
  | organization
  deriving DecidableEq

/-- A row of `legal_documents` without its blocks. -/
structure LegalVersionRecord where
  type : LegalDocumentType
  version : Text
  sha256 : Text
  effectiveAt : Instant
  url : Text
  title : Option Text
  summary : Option Text
  material : Option Bool
  deriving DecidableEq

def LegalVersionRecord.key (d : LegalVersionRecord) : LegalDocumentType × Text := (d.type, d.version)

/-- The table, with its primary key. -/
structure LegalDocuments where
  rows : List LegalVersionRecord
  keys : (rows.map LegalVersionRecord.key).Nodup

/-- A row of `consent_records`. -/
structure ConsentRecord where
  subjectKind : SubjectKind
  userId : Option UserId
  documentType : LegalDocumentType
  documentVersion : Text
  documentSha256 : Text
  action : LegalAcceptAction
  surface : ConsentSurface
  acceptedAt : Instant
  deriving DecidableEq

structure VersionConsent extends LegalVersionRecord where
  acceptedAt : Option Instant
  acknowledgedAt : Option Instant

/-- The order of texts in the database. -/
structure Collation where
  le : Text → Text → Bool
  total : ∀ a b, le a b = true ∨ le b a = true
  trans : ∀ a b c, le a b = true → le b c = true → le a c = true
  antisymm : ∀ a b, le a b = true → le b a = true → a = b

/-- What is outside of this service: the types of the contract, and the order of texts. -/
structure Setting where
  SERVED_LEGAL_TYPES : List LegalDocumentType
  collation : Collation

/-! ## The rows of a person -/

variable (cfg : Setting)

/-- Oldest first. -/
def Older (a b : LegalVersionRecord) : Prop :=
  a.effectiveAt < b.effectiveAt ∨ (a.effectiveAt = b.effectiveAt ∧ (a.version.length < b.version.length ∨
    (a.version.length = b.version.length ∧ cfg.collation.le a.version b.version = true)))

/-- The order of the rows: by type as they are served, and oldest first within a type. -/
def Earlier (a b : LegalVersionRecord) : Prop :=
  cfg.SERVED_LEGAL_TYPES.idxOf a.type < cfg.SERVED_LEGAL_TYPES.idxOf b.type ∨
    (cfg.SERVED_LEGAL_TYPES.idxOf a.type = cfg.SERVED_LEGAL_TYPES.idxOf b.type ∧ Older cfg a b)

instance : DecidableRel (Older cfg) := fun a b =>
  inferInstanceAs (Decidable (a.effectiveAt < b.effectiveAt ∨ (a.effectiveAt = b.effectiveAt ∧
    (a.version.length < b.version.length ∨ (a.version.length = b.version.length ∧
      cfg.collation.le a.version b.version = true)))))

instance : DecidableRel (Earlier cfg) := fun a b =>
  inferInstanceAs (Decidable (cfg.SERVED_LEGAL_TYPES.idxOf a.type < cfg.SERVED_LEGAL_TYPES.idxOf b.type ∨
    (cfg.SERVED_LEGAL_TYPES.idxOf a.type = cfg.SERVED_LEGAL_TYPES.idxOf b.type ∧ Older cfg a b)))

def ofUser (user : UserId) (type : LegalDocumentType) (version : Text) (action : LegalAcceptAction)
    (r : ConsentRecord) : Bool :=
  decide (r.subjectKind = .user ∧ r.userId = some user ∧ r.documentType = type ∧ r.documentVersion = version ∧
    r.action = action)

/-- The latest record of the person for a version. -/
def latest (records : List ConsentRecord) (user : UserId) (d : LegalVersionRecord) (action : LegalAcceptAction) :
    Option Instant :=
  ((records.filter (ofUser user d.type d.version action)).map ConsentRecord.acceptedAt).max?

def consentOf (records : List ConsentRecord) (user : UserId) (d : LegalVersionRecord) : VersionConsent :=
  { d with acceptedAt := latest records user d .accepted, acknowledgedAt := latest records user d .acknowledged }

/-- The served versions in effect. -/
def inEffect (docs : LegalDocuments) (now : Instant) : List LegalVersionRecord :=
  (docs.rows.filter fun d => decide (d.type ∈ cfg.SERVED_LEGAL_TYPES ∧ d.effectiveAt ≤ now)).insertionSort (Earlier cfg)

def versionsFor (docs : LegalDocuments) (records : List ConsentRecord) (user : UserId) (now : Instant) :
    List VersionConsent :=
  (inEffect cfg docs now).map (consentOf records user)

/-! ## The status -/

/-- The documents that a person must accept. -/
def MUST_ACCEPT : List LegalDocumentType := [.terms, .privacy]

def lastIndexBelow {α : Type} (items : List α) (test : α → Bool) : ℕ → ℤ
  | 0 => -1
  | i + 1 => if items[i]?.any test then i else lastIndexBelow items test i

def lastIndexWhere {α : Type} (items : List α) (test : α → Bool) : ℤ := lastIndexBelow items test items.length

/-- `items[i]`, which is undefined before the first and after the last item. -/
def itemAt {α : Type} (items : List α) (i : ℤ) : Option α := if i < 0 then none else items[i.toNat]?

/-- `items.at(-k)` -/
def atEnd {α : Type} (items : List α) (k : ℕ) : Option α := itemAt items (items.length - k)

def hasRecord (v : VersionConsent) : Bool := v.acceptedAt.isSome || v.acknowledgedAt.isSome

structure LegalAcceptance where
  version : Text
  action : LegalAcceptAction
  recordedAt : Instant
  deriving DecidableEq

/-- The later record at a version. Accepting wins a tie. -/
def acceptanceOf (v : VersionConsent) : Option LegalAcceptance :=
  match v.acceptedAt, v.acknowledgedAt with
  | some accepted, none => some ⟨v.version, .accepted, accepted⟩
  | some accepted, some acknowledged =>
    if acknowledged ≤ accepted then some ⟨v.version, .accepted, accepted⟩
    else some ⟨v.version, .acknowledged, acknowledged⟩
  | none, none => none
  | none, some acknowledged => some ⟨v.version, .acknowledged, acknowledged⟩

structure TypeStatus where
  current : VersionConsent
  required : Bool
  notice : Bool
  latest : Option LegalAcceptance

def typeStatus (type : LegalDocumentType) (versions : List VersionConsent) : Option TypeStatus :=
  (atEnd versions 1).map fun current =>
    let lastAccepted := lastIndexWhere versions fun v => v.acceptedAt.isSome
    let lastRecorded := lastIndexWhere versions hasRecord
    let required := decide (type ∈ MUST_ACCEPT) && (decide (lastAccepted = -1) ||
      (versions.drop (lastAccepted + 1).toNat).any fun v => decide (v.material = some true))
    { current, required, notice := !required && decide (lastRecorded < versions.length - 1)
      latest := (itemAt versions lastRecorded).bind acceptanceOf }

structure MyLegalStatus where
  required : List LegalVersionRecord
  notices : List LegalVersionRecord
  accepted : List (LegalDocumentType × LegalAcceptance)
  deriving DecidableEq

def typeStatusOf (versions : List VersionConsent) (type : LegalDocumentType) : Option TypeStatus :=
  typeStatus type (versions.filter fun v => decide (v.type = type))

def metaOf (versions : List VersionConsent) (wanted : TypeStatus → Bool) (type : LegalDocumentType) :
    Option LegalVersionRecord :=
  ((typeStatusOf versions type).filter wanted).map fun s => s.current.toLegalVersionRecord

def legalStatusOf (versions : List VersionConsent) : MyLegalStatus where
  required := cfg.SERVED_LEGAL_TYPES.filterMap (metaOf versions TypeStatus.required)
  notices := cfg.SERVED_LEGAL_TYPES.filterMap (metaOf versions TypeStatus.notice)
  accepted := cfg.SERVED_LEGAL_TYPES.filterMap fun type =>
    ((typeStatusOf versions type).bind TypeStatus.latest).map fun a => (type, a)

/-! ## Accepting -/

structure LegalDocumentRef where
  type : LegalDocumentType
  version : Text
  sha256 : Text
  deriving DecidableEq

structure AcceptItem extends LegalDocumentRef where
  action : LegalAcceptAction

structure AcceptLegalRequest where
  items : List AcceptItem
  surface : Option ConsentSurface

inductive AppError where
  | internal (message : String)
  | outdated (message : String) (current : List LegalDocumentRef)
  | validation (fields : List (String × String))
  deriving DecidableEq

def refOf (d : LegalVersionRecord) : LegalDocumentRef := ⟨d.type, d.version, d.sha256⟩

def legalVersionOutdated (current : List LegalVersionRecord) : AppError :=
  if current = [] then .internal "No legal document is in effect"
  else .outdated
    "The terms shown to you have been updated. Reload the page and review them before continuing."
    (current.map refOf)

def DEFAULT_SURFACE : LegalAcceptAction → ConsentSurface
  | .accepted => .prompt
  | .acknowledged => .notice

/-- The newest version of a served type. -/
def currentOf (versions : List VersionConsent) (type : LegalDocumentType) : Option VersionConsent :=
  if type ∈ cfg.SERVED_LEGAL_TYPES then itemAt versions (lastIndexWhere versions fun v => decide (v.type = type))
  else none

def inServedOrder (items : List AcceptItem) : List AcceptItem :=
  cfg.SERVED_LEGAL_TYPES.flatMap fun type => items.filter fun item => decide (item.type = type)

def isStale (versions : List VersionConsent) (item : AcceptItem) : Bool :=
  (currentOf cfg versions item.type).all fun shown =>
    decide (shown.version ≠ item.version ∨ shown.sha256 ≠ item.sha256)

/-- The items that acknowledge what has to be accepted. -/
def wrongActions (status : MyLegalStatus) (items : List AcceptItem) : List (String × String) :=
  items.zipIdx.filterMap fun x =>
    if x.1.action = .acknowledged ∧ x.1.type ∈ status.required.map LegalVersionRecord.type then
      some ("items." ++ toString x.2 ++ ".action", "must be accepted: the " ++ x.1.type.name ++ " need accepting")
    else none

def isFresh (versions : List VersionConsent) (item : AcceptItem) : Bool :=
  ((currentOf cfg versions item.type).bind fun recorded =>
    match item.action with
    | .accepted => recorded.acceptedAt
    | .acknowledged => recorded.acknowledgedAt).isNone

def recordOf (user : UserId) (surface : Option ConsentSurface) (now : Instant) (item : AcceptItem) : ConsentRecord :=
  { subjectKind := .user, userId := some user, documentType := item.type, documentVersion := item.version
    documentSha256 := item.sha256, action := item.action
    surface := surface.getD (DEFAULT_SURFACE item.action), acceptedAt := now }

/-- The transaction that holds the person's lock. The records that it leaves are returned with the status. -/
def accept (docs : LegalDocuments) (user : UserId) (request : AcceptLegalRequest) (now : Instant)
    (records : List ConsentRecord) : Except AppError (List ConsentRecord × MyLegalStatus) :=
  let versions := versionsFor cfg docs records user now
  let status := legalStatusOf cfg versions
  if request.items.any (isStale cfg versions) then
    .error (legalVersionOutdated ((inServedOrder cfg request.items).filterMap fun item =>
      (currentOf cfg versions item.type).map VersionConsent.toLegalVersionRecord))
  else if request.surface = some .signup ∧ versions.any hasRecord then
    .error (.validation [("surface", "is only for a new account, before anything else is accepted")])
  else if wrongActions status request.items ≠ [] then .error (.validation (wrongActions status request.items))
  else
    let fresh := request.items.filter (isFresh cfg versions)
    if fresh = [] then .ok (records, status)
    else
      let records := records ++ fresh.map (recordOf user request.surface now)
      .ok (records, legalStatusOf cfg (versionsFor cfg docs records user now))

/-! ## Consent at an event -/

structure EventConsentClaim where
  termsVersion : Text
  disclosureVersion : Text

structure EventDocument where
  current : Option LegalVersionRecord
  matched : Option LegalVersionRecord

def acceptedForEvent (type : LegalDocumentType) (claimed : Text) (versions : List LegalVersionRecord) (now : Instant) :
    EventDocument :=
  let inEffect := versions.filter fun v => decide (v.type = type ∧ v.effectiveAt ≤ now)
  let current := atEnd inEffect 1
  let previous := atEnd inEffect 2
  if current.map LegalVersionRecord.version = some claimed then ⟨current, current⟩
  else if current.bind LegalVersionRecord.material = some false ∧
    previous.map LegalVersionRecord.version = some claimed then ⟨current, previous⟩
  else ⟨current, none⟩

def eventConsentDocuments (claim : EventConsentClaim) (now : Instant) (versions : List LegalVersionRecord) :
    Except AppError (List LegalDocumentRef) :=
  let terms := acceptedForEvent .terms claim.termsVersion versions now
  let privacy := acceptedForEvent .privacy claim.disclosureVersion versions now
  match terms.matched, privacy.matched with
  | some t, some p => .ok [refOf t, refOf p]
  | _, _ => .error (legalVersionOutdated (terms.current.toList ++ privacy.current.toList))

/-- What the registration writes for an account. -/
def eventRecord (user : UserId) (now : Instant) (ref : LegalDocumentRef) : ConsentRecord :=
  { subjectKind := .user, userId := some user, documentType := ref.type, documentVersion := ref.version
    documentSha256 := ref.sha256, action := .accepted, surface := .event_registration, acceptedAt := now }

end Civfix.Legal
