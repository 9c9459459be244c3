import Civfix.FilingService
import Civfix.PortalFolders

/-! # What a run of a portal script ends as

The ending is told from the exit, the marker that the kit leaves before it clicks submit, and `out/result.json`. Evidence
files are left out. -/
namespace Civfix.CityFiler

open Filings CodeUnits

def REASON_DETAIL_MAX : ℕ := 500

def EVIDENCE_LISTED_MAX : ℕ := 200

/-- `exitedZero` is the test on the exit code. -/
structure ScriptRunResult where
  exitedZero : Bool
  timedOut : Bool
  sentinel : Bool
  marker : Bool

/-- Claude's `out/result.json` is judged as a cleanly exited script's would be. -/
def CLEAN_EXIT : ScriptRunResult := ⟨true, false, false, false⟩

inductive ResultOutcome where
  | submitted
  | linkedExisting
  | needsHuman
  deriving DecidableEq

structure ResultJson where
  outcome : ResultOutcome
  caseId : Option String
  caseUrl : Option String
  reason : Option Reason
  reasonDetail : Option String
  evidenceListed : ℕ

/-- What `RunResultFileSchema` checks beyond the types. -/
def ResultJson.valid (r : ResultJson) : Bool :=
  r.reason.all (fun reason => RunOutcome.needsHuman.allows (some reason)) &&
    r.reasonDetail.all (fun d => decide (d.length ≤ REASON_DETAIL_MAX)) && decide (r.evidenceListed ≤ EVIDENCE_LISTED_MAX)

/-- `out/result.json`: one that is missing, rejected or no JSON object of these types is unusable. -/
inductive ResultFile where
  | unusable
  | json (r : ResultJson)

/-- What is handed back, but for the run that it belongs to. -/
structure Ending where
  outcome : RunOutcome
  reason : Option Reason := none
  reasonDetail : Option String := none
  caseId : Option String := none
  caseUrl : Option String := none
  scriptVersion : Option String := none

def portalError : Ending := { outcome := .failed, reason := some .portalError }

def uncertain : Ending := { outcome := .failed, reason := some .uncertainSubmission }

/-- The API puts the filing back into its queue. -/
def Ending.repeats (e : Ending) : Bool :=
  decide (e.outcome = .failed) && (decide (e.reason = some .portalError) || decide (e.reason = some .aiUnavailable))

/-- Past the marker the submit may have reached the city, so a failure there is never retried. -/
def failedEnding (marker : Bool) : Ending := if marker then uncertain else portalError

/-- The ending of a finished script run. -/
def runEnding (cfg : Config) (host : Host) (dryRun : Bool) (run : ScriptRunResult) (file : ResultFile) : Ending :=
  if run.timedOut ∨ run.exitedZero = false then failedEnding run.marker
  else match file with
    | .unusable => failedEnding run.marker
    | .json r =>
      if r.valid = false then failedEnding run.marker
      else
        let caseIdOk := r.caseId.any cfg.caseIdPattern
        let caseUrl := r.caseUrl.bind fun url => portalCaseUrl cfg url (some host)
        if dryRun then
          { outcome := .needsHuman, reason := some .dryRun
            reasonDetail := if r.outcome = .linkedExisting ∧ caseIdOk then r.caseId.map ("Would link to " ++ ·) else none }
        else match r.outcome with
          | .submitted =>
            if r.caseId.isSome ∧ caseIdOk = false then uncertain
            else { outcome := .submitted, caseId := r.caseId, caseUrl := caseUrl }
          | .linkedExisting =>
            if caseIdOk then { outcome := .linkedExisting, caseId := r.caseId, caseUrl := caseUrl }
            else failedEnding run.marker
          | .needsHuman =>
            match r.reason with
            | none => failedEnding run.marker
            | some reason => { outcome := .needsHuman, reason := some reason, reasonDetail := r.reasonDetail }

/-- After a marker nothing is repeated. -/
theorem repeats_runEnding (cfg : Config) (host : Host) (dryRun : Bool) {run : ScriptRunResult} (hm : run.marker = true)
    (file : ResultFile) : (runEnding cfg host dryRun run file).repeats = false := by
  have hfailed : (failedEnding run.marker).repeats = false := by rw [hm]; rfl
  unfold runEnding
  split
  · exact hfailed
  split
  · exact hfailed
  split
  · exact hfailed
  dsimp only
  split
  · rfl
  split
  · split <;> rfl
  · split
    · rfl
    · exact hfailed
  · split
    · exact hfailed
    · rfl

end Civfix.CityFiler
