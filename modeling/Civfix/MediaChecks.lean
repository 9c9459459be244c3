import Civfix.InterleavedCalls
import Mathlib.Logic.Function.Basic

/-! # The checks of an upload

One upload: its row of `media_assets`, the storage objects under the keys that are derived from its upload
key, and the tombstones of objects whose deletion has failed. Any number of `media.checks` runs work on it,
beside the stuck sweep, the delayed reap of the upload key and the orphan sweep. No other row has the key.

Each query and each call of the storage is one access. Any of them may fail, and a write that fails may have
taken effect all the same. An object is known by the ETag of the uploaded bytes that it is or was made from;
the payload of a run carries the ETag that was recorded at the finalization. -/
namespace Civfix.MediaChecks

open InterleavedCalls

abbrev Etag := ℕ

/-- The upload key and the keys that are derived from it. -/
inductive Key | raw | served | legacyImg | legacyMp4 | thumb deriving DecidableEq

inductive MediaStatus | validating | ready | held | rejected deriving DecidableEq

structure Asset where
  status : MediaStatus
  servedKey : Option Key
  thumbKey : Option Key

/-- `orphaned` says whether the row is bound to nothing and old enough for the orphan sweep. `left` counts how
often the status has left `validating`, and is kept for the statements below. -/
structure Shared where
  uploadEtag : Etag
  row : Option Asset
  objects : Key → Option Etag
  /-- `attempts` of the rows of `media_reap_tombstones`. -/
  tombstones : Key → Option ℕ
  orphaned : Bool
  left : ℕ

namespace Shared

variable (s : Shared)

def Validating : Prop := ∃ a ∈ s.row, a.status = .validating

/-- The row is rejected or deleted. -/
def Dead : Prop := ∀ a ∈ s.row, a.status = .rejected

instance : Decidable s.Validating := inferInstanceAs (Decidable (∃ a ∈ s.row, _))
instance : Decidable s.Dead := inferInstanceAs (Decidable (∀ a ∈ s.row, _))

/-! ## Writes -/

def put (k : Key) (e : Etag) : Shared := { s with objects := Function.update s.objects k (some e) }

def delete (k : Key) : Shared := { s with objects := Function.update s.objects k none }

/-- `UPDATE … WHERE status = 'validating' RETURNING`; `none` when no row matches. -/
def applyResult (patch : Asset → Asset) : Option Shared :=
  match s.row with
  | none => none
  | some a => if a.status = .validating then some { s with row := some (patch a), left := s.left + 1 } else none

def deleteRow : Shared := { s with row := none, left := if s.Validating then s.left + 1 else s.left }

/-- INSERT, or one attempt more. -/
def recordLeakedObjects (keys : List Key) : Shared :=
  { s with
    tombstones := fun k => if k ∈ keys then some ((s.tombstones k).elim 1 (fun n => n + 1)) else s.tombstones k }

def clearLeakedObject (k : Key) : Shared := { s with tombstones := Function.update s.tombstones k none }

/-- `adoptLegacyServedKeys`; `none` when the row is not such a row. -/
def adoptLegacyServedKey : Option Shared :=
  match s.row with
  | none => none
  | some a =>
    if a.status = .ready ∧ a.servedKey = none then some { s with row := some { a with servedKey := some .raw } }
    else none

end Shared

/-! ## Calls -/

/-- What a run makes of the bytes: the download is cut off at its limit, a tool cannot be started or the
worker stops, the processing fails or finds the upload not acceptable, or it yields bytes to publish, with
or without a thumbnail, and for review or not. -/
inductive Verdict where
  | tooLarge
  | interrupted
  | rejected
  | publishes (held thumb : Bool)

/-- The processed bytes, and the ETag of the download that they were made from. -/
structure Publication where
  held : Bool
  thumb : Bool
  etag : Etag

def Publication.keys (x : Publication) : List Key := .served :: if x.thumb then [.thumb] else []

def Publication.patch (x : Publication) (a : Asset) : Asset where
  status := if x.held then .held else .ready
  servedKey := some .served
  thumbKey := if x.thumb then some .thumb else a.thumbKey

def LEAK_RETRY_MAX_ATTEMPTS : ℕ := 5

inductive Request where
  | mediaChecks (v : Verdict)
  | giveUpOnStuck
  | uploadReap
  | orphanSweep
  | retryTombstonedLeak (k : Key)
  | adoptLegacyServedKeys

inductive Await where
  | load (v : Verdict)
  | download (v : Verdict)
  | uploadDriftBeforePublish (x : Publication)
  /-- `pending` are the puts that have not returned. -/
  | put (x : Publication) (pending : List Key)
  /-- A put that is still on its way when the other one has failed the run. -/
  | latePut (k : Key) (e : Etag)
  | insertAbuseFlag (x : Publication)
  | publish (x : Publication)
  | reject
  | reread (uploaded : Bool)
  | terminalizeStuck
  | loadForReap
  | reference (k : Key) (keys : List Key)
  | delete (k : Key) (keys leaked : List Key)
  | record (leaked : List Key)
  | deleteOrphan
  | referenceOfOrphan
  | deleteObjects (pending leaked : List Key)
  | retryDelete (k : Key)
  | retryClear (k : Key)
  | retryRecord (k : Key)
  | adopt

inductive Result | ended | failed

abbrev World := InterleavedCalls.World Shared Request Await
abbrev Next := InterleavedCalls.Next Await Result

/-- The client overwrites the upload, and the row is bound or ages. -/
inductive Event where
  | clientPut (e : Etag)
  | setOrphaned (b : Bool)

abbrev Move := InterleavedCalls.Move Request Event

def enter (s : Shared) : Request → Option (Shared × Await)
  | .mediaChecks v => some (s, .load v)
  | .giveUpOnStuck => some (s, .terminalizeStuck)
  | .uploadReap => some (s, .loadForReap)
  | .orphanSweep => some (s, .deleteOrphan)
  | .retryTombstonedLeak k =>
    if ∃ n ∈ s.tombstones k, n < LEAK_RETRY_MAX_ATTEMPTS then some (s, .retryDelete k) else none
  | .adoptLegacyServedKeys => some (s, .adopt)

def deleteSupersededUpload : Next := .await (.reference .raw [])

/-- The keys that the row carries beside are among these. -/
def deleteRejectedObjects : Next := .await (.reference .raw [.served, .thumb])

def derivedKeys : List Key := [.raw, .served, .legacyImg, .legacyMp4, .thumb]

/-- `uploadKeyIsDead`, or there is no row. -/
def uploadKeyIsDead (s : Shared) : Prop :=
  ∀ a ∈ s.row, a.status = .rejected ∨ (a.servedKey ≠ none ∧ a.servedKey ≠ some .raw)

instance (s : Shared) : Decidable (uploadKeyIsDead s) := inferInstanceAs (Decidable (∀ a ∈ s.row, _ ∨ _))

/-- A download that is cut off is rejected as it is, and one with another ETag before it is processed. -/
def afterDownload (uploadEtag e : Etag) : Verdict → Next
  | .tooLarge => .await .reject
  | .interrupted => if e = uploadEtag then .done .failed else .await .reject
  | .rejected => .await .reject
  | .publishes held thumb =>
    if e = uploadEtag then .await (.uploadDriftBeforePublish ⟨held, thumb, e⟩) else .await .reject

def afterPut (x : Publication) : List Key → Next
  | [] => if x.held then .await (.insertAbuseFlag x) else .await (.publish x)
  | k :: ks => .await (.put x (k :: ks))

def afterFailedPut (x : Publication) : List Key → Next
  | [] => .done .failed
  | k :: _ => .await (.latePut k x.etag)

def afterDelete (leaked : List Key) : List Key → Next
  | [] => if leaked = [] then .done .ended else .await (.record leaked)
  | k :: ks => .await (.delete k ks leaked)

def afterDeleteObjects (leaked : List Key) : List Key → Next
  | [] => if leaked = [] then .done .ended else .await (.record leaked)
  | k :: ks => .await (.deleteObjects (k :: ks) leaked)

/-- A call that only reads. -/
def read (s : Shared) (ok failed : Next) : List (Shared × Next) := [(s, ok), (s, failed)]

/-- A call that writes. -/
def write (s t : Shared) (ok failed : Next) : List (Shared × Next) := [(t, ok), (s, failed), (t, failed)]

def access (s : Shared) : Await → List (Shared × Next)
  | .load v => read s (if s.Validating then .await (.download v) else .done .ended) (.done .failed)
  | .download v =>
    match s.objects .raw with
    | none => [(s, .done .failed)]
    | some e =>
      read s (afterDownload s.uploadEtag e v) (.done .failed)
  | .uploadDriftBeforePublish x =>
    read s (if s.objects .raw = some x.etag then .await (.put x x.keys) else .await .reject) (.done .failed)
  | .put x pending =>
    pending.flatMap (fun k => write s (s.put k x.etag) (afterPut x (pending.erase k))
      (afterFailedPut x (pending.erase k)))
  | .latePut k e => write s (s.put k e) (.done .failed) (.done .failed)
  | .insertAbuseFlag x => read s (.await (.publish x)) (.done .failed)
  | .publish x =>
    match s.applyResult x.patch with
    | some t => write s t deleteSupersededUpload (.done .failed)
    | none => read s (.await (.reread true)) (.done .failed)
  | .reject =>
    match s.applyResult (fun a => { a with status := .rejected }) with
    | some t => write s t deleteRejectedObjects (.done .failed)
    | none => read s (.await (.reread false)) (.done .failed)
  | .reread uploaded => read s (if uploaded ∧ s.Dead then deleteRejectedObjects else .done .ended) (.done .ended)
  | .terminalizeStuck =>
    match s.applyResult (fun a => { a with status := .rejected }) with
    | some t => write s t deleteRejectedObjects (.done .failed)
    | none => read s (.done .ended) (.done .failed)
  | .loadForReap => read s (if uploadKeyIsDead s then .await (.reference .raw []) else .done .ended) (.done .failed)
  | .reference k keys => read s (.await (.delete k keys [])) (.done .ended)
  | .delete k keys leaked => write s (s.delete k) (afterDelete leaked keys) (afterDelete (leaked ++ [k]) keys)
  | .record leaked => write s (s.recordLeakedObjects leaked) (.done .ended) (.done .ended)
  | .deleteOrphan =>
    if s.row.isSome ∧ s.orphaned then write s s.deleteRow (.await .referenceOfOrphan) (.done .failed)
    else read s (.done .ended) (.done .failed)
  | .referenceOfOrphan => read s (.await (.deleteObjects derivedKeys [])) (.done .failed)
  | .deleteObjects pending leaked =>
    pending.flatMap (fun k => write s (s.delete k) (afterDeleteObjects leaked (pending.erase k))
      (afterDeleteObjects (leaked ++ [k]) (pending.erase k)))
  | .retryDelete k => write s (s.delete k) (.await (.retryClear k)) (.await (.retryRecord k))
  | .retryClear k => write s (s.clearLeakedObject k) (.done .ended) (.await (.retryRecord k))
  | .retryRecord k => write s (s.recordLeakedObjects [k]) (.done .ended) (.done .ended)
  | .adopt =>
    match s.adoptLegacyServedKey with
    | some t => write s t (.done .ended) (.done .failed)
    | none => read s (.done .ended) (.done .failed)

def environment (s : Shared) : Event → Option Shared
  | .clientPut e => some (s.put .raw e)
  | .setOrphaned b => some { s with orphaned := b }

def machine : Machine Shared Request Await Result Event := ⟨enter, access, environment⟩

/-- An upload that is finalized, whose object the client may already have overwritten or that is gone. -/
def finalized (uploadEtag : Etag) (raw : Option Etag) : Shared where
  uploadEtag := uploadEtag
  row := some ⟨.validating, none, none⟩
  objects := fun k => if k = .raw then raw else none
  tombstones := fun _ => none
  orphaned := false
  left := 0

end Civfix.MediaChecks
