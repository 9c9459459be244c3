import Civfix.InterleavedCalls

/-! # Certificates of one holder

A document is stored before its row is inserted, and removed after its row is revoked. An issue over a ledger that has
a live certificate hands that one out, and renders its document again if the object is missing. -/
namespace Civfix.Certificates

open InterleavedCalls

abbrev CertificateId := ℕ
abbrev Code := ℕ
abbrev Model := ℕ
abbrev Fingerprint := ℕ
abbrev Bytes := ℕ
abbrev Sha := ℕ
abbrev Instant := ℕ

/-- `ledgerFingerprint`, `buildServiceHoursPdf` and `sha256HexSync`. -/
structure Rendering where
  fingerprint : Model → Fingerprint
  pdf : Model → Code → Instant → Bytes
  sha256 : Bytes → Sha

/-- A row of `service_hours_certificates`. The key of its object is made of the id. -/
structure Certificate where
  id : CertificateId
  code : Code
  fingerprint : Fingerprint
  issuedAt : Instant
  documentSha256 : Sha
  revoked : Bool

/-- `ledger` is what an issue would print now, if the holder has any hours. -/
structure Shared where
  ledger : Option Model
  rows : List Certificate
  objects : List (CertificateId × Bytes)
  next : CertificateId

namespace Shared

variable (s : Shared)

def object (id : CertificateId) : Option Bytes := (s.objects.find? (fun x => decide (x.1 = id))).map Prod.snd

def findLiveByFingerprint (fp : Fingerprint) : Option Certificate :=
  s.rows.find? (fun r => decide (r.fingerprint = fp) && !r.revoked)

def put (id : CertificateId) (b : Bytes) : Shared := { s with objects := (id, b) :: s.objects }

def deleteObject (id : CertificateId) : Shared := { s with objects := s.objects.filter (fun x => decide (x.1 ≠ id)) }

def insert (r : Certificate) : Shared := { s with rows := s.rows ++ [r] }

def revoke (code : Code) : Shared :=
  { s with rows := s.rows.map (fun r => if r.code = code then { r with revoked := true } else r) }

def markRegenerated (id : CertificateId) (sha : Sha) : Shared :=
  { s with rows := s.rows.map (fun r => if r.id = id then { r with documentSha256 := sha } else r) }

def newId : Shared := { s with next := s.next + 1 }

end Shared

/-- `codes` are those that the attempts of an issue would draw. -/
inductive Request where
  | issue (asOf : Instant) (codes : List Code)
  | revoke (code : Code)

inductive Await where
  | readLedger (asOf : Instant) (codes : List Code)
  | findLive (asOf : Instant) (codes : List Code) (model : Model)
  | head (model : Model) (row : Certificate)
  | putAgain (model : Model) (row : Certificate)
  | markRegenerated (model : Model) (row : Certificate)
  | put (id : CertificateId) (asOf : Instant) (codes : List Code) (model : Model)
  | insert (id : CertificateId) (asOf : Instant) (code : Code) (codes : List Code) (model : Model)
  | findWinner (id : CertificateId) (model : Model)
  | deleteOwn (id : CertificateId) (winner : Option Code)
  | revoke (code : Code)
  | deleteRevoked (id : CertificateId) (code : Code)

inductive Result where
  | issued (code : Code)
  | revoked (code : Code)
  | noHours
  | notFound
  | failed
  deriving DecidableEq

/-- The ledger changes. -/
inductive Event where
  | ledger (model : Option Model)

abbrev Next := InterleavedCalls.Next Await Result
abbrev Move := InterleavedCalls.Move Request Event
abbrev World := InterleavedCalls.World Shared Request Await

def enter (s : Shared) : Request → Option (Shared × Await)
  | .issue asOf codes => some (s, .readLedger asOf codes)
  | .revoke code => some (s, .revoke code)

/-- No access fails. The drawn code is not another holder's. -/
def serve (ren : Rendering) (s : Shared) : Await → Shared × Next
  | .readLedger asOf codes =>
    match s.ledger with
    | none => (s, .done .noHours)
    | some model => (s, .await (.findLive asOf codes model))
  | .findLive asOf codes model =>
    match s.findLiveByFingerprint (ren.fingerprint model) with
    | some row => (s, .await (.head model row))
    | none => (s.newId, .await (.put s.next asOf codes model))
  | .head model row =>
    if s.object row.id ≠ none then (s, .done (.issued row.code)) else (s, .await (.putAgain model row))
  | .putAgain model row => (s.put row.id (ren.pdf model row.code row.issuedAt), .await (.markRegenerated model row))
  | .markRegenerated model row =>
    (s.markRegenerated row.id (ren.sha256 (ren.pdf model row.code row.issuedAt)), .done (.issued row.code))
  | .put id _ [] _ => (s, .await (.deleteOwn id none))
  | .put id asOf (code :: codes) model => (s.put id (ren.pdf model code asOf),
    .await (.insert id asOf code codes model))
  | .insert id asOf code codes model =>
    if ∃ r ∈ s.rows, r.code = code then (s, .await (.put id asOf codes model))
    else if s.findLiveByFingerprint (ren.fingerprint model) ≠ none then (s, .await (.findWinner id model))
    else (s.insert ⟨id, code, ren.fingerprint model, asOf, ren.sha256 (ren.pdf model code asOf), false⟩,
      .done (.issued code))
  | .findWinner id model =>
    (s, .await (.deleteOwn id ((s.findLiveByFingerprint (ren.fingerprint model)).map Certificate.code)))
  | .deleteOwn id winner => (s.deleteObject id, .done ((winner.map Result.issued).getD .failed))
  | .revoke code =>
    match s.rows.find? (fun r => decide (r.code = code)) with
    | none => (s, .done .notFound)
    | some row => (s.revoke code, .await (.deleteRevoked row.id code))
  | .deleteRevoked id code => (s.deleteObject id, .done (.revoked code))

/-- The drawn code is another holder's. -/
def codeOfAnother (s : Shared) : Await → List (Shared × Next)
  | .insert id asOf _ codes model => [(s, .await (.put id asOf codes model))]
  | _ => []

def access (ren : Rendering) (s : Shared) (p : Await) : List (Shared × Next) := serve ren s p :: codeOfAnother s p

def environment (s : Shared) : Event → Option Shared
  | .ledger model => some { s with ledger := model }

def machine (ren : Rendering) : Machine Shared Request Await Result Event := ⟨enter, access ren, environment⟩

def holding (ledger : Option Model) : Shared := ⟨ledger, [], [], 0⟩

/-- No call is lost. -/
def Settling (_w : World) (m : Move) : Prop :=
  match m with
  | .crash _ => False
  | _ => True

/-- An issue that hands out a live certificate finds its object. -/
def AsFound (s : Shared) : Await → Prop
  | .head _ row => s.object row.id ≠ none
  | _ => True

instance (s : Shared) (p : Await) : Decidable (AsFound s p) :=
  match p with
  | .head _ _ => inferInstanceAs (Decidable (_ ≠ _))
  | .readLedger _ _ | .findLive _ _ _ | .putAgain _ _ | .markRegenerated _ _ | .put _ _ _ _ | .insert _ _ _ _ _
  | .findWinner _ _ | .deleteOwn _ _ | .revoke _ | .deleteRevoked _ _ => isTrue trivial

def Undisturbed (w : World) (m : Move) : Prop :=
  match m with
  | .access i _ => ∀ c ∈ w.call i, AsFound w.shared c.await
  | .crash _ => False
  | _ => True

instance (w : World) (m : Move) : Decidable (Undisturbed w m) :=
  match m with
  | .access i _ => inferInstanceAs (Decidable (∀ c ∈ w.call i, AsFound w.shared c.await))
  | .crash _ => isFalse id
  | .start _ | .environment _ => isTrue trivial

instance (w : World) (m : Move) : Decidable (Settling w m) :=
  match m with
  | .crash _ => isFalse id
  | .start _ | .access _ _ | .environment _ => isTrue trivial

variable {ren : Rendering} {s s' : Shared} {w w' : World} {p q : Await} {n : Next} {k : ℕ} {id : CertificateId}

/-! ## What an access does -/

inductive Outcome (ren : Rendering) (s : Shared) : Await → Shared → Next → Prop where
  | noHours (asOf : Instant) (codes : List Code) : Outcome ren s (.readLedger asOf codes) s (.done .noHours)
  | read (asOf : Instant) (codes : List Code) (model : Model) :
    Outcome ren s (.readLedger asOf codes) s (.await (.findLive asOf codes model))
  | found (asOf : Instant) (codes : List Code) (model : Model) (row : Certificate) (hrow : row ∈ s.rows)
    (hlive : row.revoked = false) : Outcome ren s (.findLive asOf codes model) s (.await (.head model row))
  | minting (asOf : Instant) (codes : List Code) (model : Model) :
    Outcome ren s (.findLive asOf codes model) s.newId (.await (.put s.next asOf codes model))
  | reused (model : Model) (row : Certificate) : Outcome ren s (.head model row) s (.done (.issued row.code))
  | missing (model : Model) (row : Certificate) (hnone : s.object row.id = none) :
    Outcome ren s (.head model row) s (.await (.putAgain model row))
  | restored (model : Model) (row : Certificate) :
    Outcome ren s (.putAgain model row) (s.put row.id (ren.pdf model row.code row.issuedAt))
      (.await (.markRegenerated model row))
  | regenerated (model : Model) (row : Certificate) (sha : Sha) :
    Outcome ren s (.markRegenerated model row) (s.markRegenerated row.id sha) (.done (.issued row.code))
  | exhausted (id : CertificateId) (asOf : Instant) (model : Model) :
    Outcome ren s (.put id asOf [] model) s (.await (.deleteOwn id none))
  | stored (id : CertificateId) (asOf : Instant) (code : Code) (codes : List Code) (model : Model) :
    Outcome ren s (.put id asOf (code :: codes) model) (s.put id (ren.pdf model code asOf))
      (.await (.insert id asOf code codes model))
  | codeTaken (id : CertificateId) (asOf : Instant) (code : Code) (codes : List Code) (model : Model) :
    Outcome ren s (.insert id asOf code codes model) s (.await (.put id asOf codes model))
  | lost (id : CertificateId) (asOf : Instant) (code : Code) (codes : List Code) (model : Model) :
    Outcome ren s (.insert id asOf code codes model) s (.await (.findWinner id model))
  | inserted (id : CertificateId) (asOf : Instant) (code : Code) (codes : List Code) (model : Model)
    (hcode : ∀ r ∈ s.rows, r.code ≠ code)
    (hfp : ∀ r ∈ s.rows, r.revoked = false → r.fingerprint ≠ ren.fingerprint model) :
    Outcome ren s (.insert id asOf code codes model)
      (s.insert ⟨id, code, ren.fingerprint model, asOf, ren.sha256 (ren.pdf model code asOf), false⟩)
      (.done (.issued code))
  | winnerFound (id : CertificateId) (model : Model) (winner : Option Code)
    (hwinner : ∀ code ∈ winner, ∃ r ∈ s.rows, r.code = code ∧ r.revoked = false) :
    Outcome ren s (.findWinner id model) s (.await (.deleteOwn id winner))
  | dropped (id : CertificateId) (winner : Option Code) :
    Outcome ren s (.deleteOwn id winner) (s.deleteObject id) (.done ((winner.map Result.issued).getD .failed))
  | unknown (code : Code) : Outcome ren s (.revoke code) s (.done .notFound)
  | revoked (row : Certificate) (hrow : row ∈ s.rows) :
    Outcome ren s (.revoke row.code) (s.revoke row.code) (.await (.deleteRevoked row.id row.code))
  | removed (id : CertificateId) (code : Code) :
    Outcome ren s (.deleteRevoked id code) (s.deleteObject id) (.done (.revoked code))

theorem Shared.findLive_some {fp : Fingerprint} {row : Certificate} (h : s.findLiveByFingerprint fp = some row) :
    row ∈ s.rows ∧ row.revoked = false := by
  unfold findLiveByFingerprint at h
  have hlive := List.find?_some h
  simp only [Bool.and_eq_true, Bool.not_eq_true'] at hlive
  exact ⟨List.mem_of_find?_eq_some h, hlive.2⟩

theorem Shared.findLive_none {fp : Fingerprint} (h : s.findLiveByFingerprint fp = none) :
    ∀ r ∈ s.rows, r.revoked = false → r.fingerprint ≠ fp := by
  unfold findLiveByFingerprint at h
  intro r hr hlive heq
  have hnot := List.find?_eq_none.mp h r hr
  simp [heq, hlive] at hnot

theorem outcome_of_codeOfAnother (h : (s', n) ∈ codeOfAnother s p) : Outcome ren s p s' n := by
  cases p with
  | insert id asOf code codes model =>
    cases List.mem_singleton.mp h
    exact .codeTaken id asOf code codes model
  | _ => cases h

theorem outcome_of_serve (h : (s', n) = serve ren s p) : Outcome ren s p s' n := by
  cases p with
  | readLedger asOf codes =>
    simp only [serve] at h
    split at h
    · cases h
      exact .noHours asOf codes
    · cases h
      exact .read asOf codes _
  | findLive asOf codes model =>
    simp only [serve] at h
    split at h
    · next row hfind =>
      cases h
      exact .found asOf codes model row (Shared.findLive_some hfind).1 (Shared.findLive_some hfind).2
    · cases h
      exact .minting asOf codes model
  | head model row =>
    simp only [serve] at h
    split at h
    · cases h
      exact .reused model row
    · next hnone =>
      cases h
      exact .missing model row (Decidable.not_not.mp hnone)
  | putAgain model row =>
    cases h
    exact .restored model row
  | markRegenerated model row =>
    cases h
    exact .regenerated model row _
  | put id asOf codes model =>
    cases codes with
    | nil =>
      cases h
      exact .exhausted id asOf model
    | cons code codes =>
      cases h
      exact .stored id asOf code codes model
  | insert id asOf code codes model =>
    simp only [serve] at h
    split at h
    · cases h
      exact .codeTaken id asOf code codes model
    next hcode =>
    split at h
    · cases h
      exact .lost id asOf code codes model
    · next hfp =>
      cases h
      exact .inserted id asOf code codes model (fun r hr heq => hcode ⟨r, hr, heq⟩)
        (Shared.findLive_none (Decidable.not_not.mp hfp))
  | findWinner id model =>
    cases h
    refine .winnerFound id model _ fun code hcode => ?_
    obtain ⟨row, hfind, rfl⟩ := Option.map_eq_some_iff.mp hcode
    exact ⟨row, (Shared.findLive_some hfind).1, rfl, (Shared.findLive_some hfind).2⟩
  | deleteOwn id winner =>
    cases h
    exact .dropped id winner
  | revoke code =>
    simp only [serve] at h
    split at h
    · cases h
      exact .unknown code
    · next row hfind =>
      cases h
      obtain rfl : row.code = code := by simpa using List.find?_some hfind
      exact .revoked row (List.mem_of_find?_eq_some hfind)
  | deleteRevoked id code =>
    cases h
    exact .removed id code

theorem outcome_of_access (hk : (access ren s p)[k]? = some (s', n)) : Outcome ren s p s' n := by
  rcases List.mem_cons.mp (List.mem_of_getElem? hk) with h | h
  · exact outcome_of_serve h
  · exact outcome_of_codeOfAnother h

end Civfix.Certificates
