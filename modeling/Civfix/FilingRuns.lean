import Civfix.FilerOutput

/-! # Runs of portal filings

The `filing.run` handler after its claim, cut at its awaits, and the reconciliation at boot. `portals/` is changed by
filer processes alone: Claude, a portal script, git. While one of them runs, whatever stands there may change, lines may
be printed on its pipe, results written, and the records of confined hosts deleted. The processes of a filer that has died
are gone when the next one starts. Every step may throw, and the handler then looks for the marker.

`history` lists the script runs as they start and end, and `presses` the runs whose script has clicked submit, each with
the newest first; nothing reads them. Photos, packets, evidence and logs are left out. -/
namespace Civfix.CityFiler

open Filings CodeUnits

def DRY_RUN_SENTINEL : Text := text "CIVFIX_FILER_DRY_RUN_OK"

def SCRIPT_VERSION_HEX : ℕ := 12

/-- The line that a dry run of the script prints. -/
def sentinelLine (scriptSha256 : Text) : Text := DRY_RUN_SENTINEL ++ text " " ++ scriptSha256

structure OutDir where
  marker : Bool
  result : ResultFile

structure RunDir where
  out : Option OutDir := none
  outLive : Option OutDir := none
  outClaude : Option OutDir := none
  outProof : Option OutDir := none

structure RunKey where
  filingId : FilingId
  runId : RunId
  deriving DecidableEq

/-- A claimed run, with what its packet says about the portal. `dryRun` is the filer's setting. -/
structure Run extends RunKey where
  attempt : ℕ
  portalHost : Option Host
  formUrl : Option String
  dryRun : Bool

inductive Event where
  | started (host : Host) (dryRun : Bool) (scriptSha256 : Text) (tree : HostEntry)
  | ended (host : Host) (tree : HostEntry) (ran : ScriptRunResult) (lines : List Text)

structure Shared where
  portals : Host → HostEntry
  proved : Host → Option Text
  runs : RunKey → Option RunDir
  results : List Payload
  running : Bool
  stdout : List Text
  history : List Event
  presses : List RunKey

def Shared.empty (portals : Host → HostEntry) : Shared :=
  ⟨portals, fun _ => none, fun _ => none, [], false, [], [], []⟩

inductive ClaudeOutcome where
  | ok
  | failed (unavailable : Bool)

/-- How far the script of a live run has come in the kit's `submit()`. -/
inductive Submit where
  | none
  | marked
  | clicked
  deriving DecidableEq

/-- Which of the three script runs of an attempt it is; a proof has the fingerprint from before it. -/
inductive Purpose where
  | first
  | proof (folder : Text)
  | live

inductive Step where
  | fileable
  | packet
  | prepare (host : Host)
  | readScript (host : Host)
  | readRecord (host : Host) (script : Bytes)
  | readFolder (host : Host) (script : Bytes) (record : Text)
  | script (host : Host) (script : Bytes) (dryRun : Bool) (purpose : Purpose) (submit : Submit)
  | ending (host : Host) (script : Bytes) (dryRun : Bool) (purpose : Purpose) (ran : ScriptRunResult)
  | freshOutLive (host : Host) (script : Bytes)
  | head (host : Host) (before : PortalScript)
  | claude (host : Host) (before : PortalScript)
  | freshOutClaude (host : Host) (before : PortalScript) (claude : ClaudeOutcome)
  | claimed (host : Host) (before : PortalScript) (claude : ClaudeOutcome)
  | confine (host : Host) (before : PortalScript) (claude : ClaudeOutcome) (claimed : Ending)
  | readRepaired (host : Host) (before : PortalScript) (claimed : Ending)
  | repairedFolder (host : Host) (script : Bytes)
  | checkProof (host : Host) (script : Bytes) (folder : Text) (ending : Ending)
  | record (host : Host) (script : Bytes) (folder : Text) (ending : Ending)
  | freshOutProof (host : Host) (script : Bytes) (folder : Text)
  | readLive (host : Host) (script : Bytes) (folder : Text)
  | liveFolder (host : Host) (script : Bytes) (folder : Text) (live : PortalScript)
  | forget (host : Host) (ending : Ending)
  | evidence (script : Bytes) (ending : Ending)
  | caught
  | handBack (ending : Ending)

/-- A row of `listRunningFilings`. -/
structure RunningFiling where
  id : FilingId
  runId : Option RunId
  attempts : ℕ

inductive Request where
  | run (r : Run)
  | reconcile (dryRun : Bool) (filings : List RunningFiling)

inductive Await where
  | run (r : Run) (step : Step)
  | reconcile (dryRun : Bool) (filings : List RunningFiling)

abbrev Next := InterleavedCalls.Next Await Unit

/-- What filer processes do, and what confinement does to the records of hosts. -/
inductive Change where
  | portals (p : Host → HostEntry)
  | print (line : Text)
  | result (key : RunKey) (file : ResultFile)
  | forget (host : Host)

/-- `cfg` is the deployment's, for the checks on case ids and URLs. -/
structure Setup where
  cfg : Config
  sha256 : Sha256

/-! ## Proved records -/

/-- `SHA256_HEX` -/
def isSha256Hex (t : Text) : Bool :=
  decide (t.length = 64) && t.all fun c => isDigit c || decide (97 ≤ c ∧ c ≤ 102)

namespace Shared

variable (s : Shared)

def readProved (host : Host) : Option Text := ((s.proved host).map trim).filter isSha256Hex

def recordProved (host : Host) (fingerprint : Text) : Shared :=
  { s with proved := Function.update s.proved host (some (fingerprint ++ [newline])) }

def forgetProved (host : Host) : Shared := { s with proved := Function.update s.proved host none }

/-! ## Run directories and processes -/

def out (key : RunKey) : Option OutDir := (s.runs key).bind RunDir.out

/-- The `lstat` of the submit marker. -/
def marker (key : RunKey) : Bool := (s.out key).any OutDir.marker

def putRun (key : RunKey) (d : RunDir) : Shared := { s with runs := Function.update s.runs key (some d) }

def modifyOut (key : RunKey) (f : OutDir → OutDir) : Shared :=
  { s with runs := Function.update s.runs key ((s.runs key).map fun d => { d with out := d.out.map f }) }

/-- A filer process starts, or the last one has ended. -/
def begin : Shared := { s with running := true }

def halt : Shared := { s with running := false }

/-- `runScript`: the process starts with an empty pipe. -/
def spawn (host : Host) (dryRun : Bool) (scriptSha256 : Text) : Shared :=
  { s with
    running := true
    stdout := []
    history := .started host dryRun scriptSha256 (s.portals host) :: s.history }

def send (p : Option Payload) : Shared := { s with results := p.toList ++ s.results }

end Shared

namespace Run

variable (r : Run)

/-- The payload of `sendFilingResult`; one that does not pass its schema is not sent. -/
def payload (e : Ending) : Option Payload :=
  if h : 0 < r.attempt ∧ e.outcome.allows e.reason = true then
    some ⟨r.filingId, r.runId, r.attempt, e.outcome, e.reason, e.reasonDetail, e.caseId, e.caseUrl, e.scriptVersion,
      r.dryRun, [], h.1, h.2⟩
  else none

end Run

/-! ## One access -/

/-- A step that is awaited next. -/
def Run.go (r : Run) (s : Shared) (step : Step) : Shared × Next := (s, .await (.run r step))

/-- The body of the handler throws. -/
def Run.throws (r : Run) (s : Shared) : Shared × Next := r.go s .caught

/-- `withClaude`, up to its first git process. -/
def Run.withClaude (r : Run) (s : Shared) (host : Host) (before : PortalScript) : Shared × Next :=
  r.go s.begin (.head host before)

/-- What a read of the script may return. -/
def scriptReads (e : HostEntry) : List PortalScript := [readPortalScript e, .rejected]

/-- The fingerprint, or `none` for a folder that is rejected. -/
def folderReads (u : Setup) (e : HostEntry) : List (Option Text) :=
  [(fingerprintPortal u.sha256 e).toOption, none]

/-- `freshOut`: the renamed directory, with a fresh one unless the step throws in between. -/
def Run.freshOut (r : Run) (s : Shared) (move : RunDir → OutDir → RunDir) (next : Shared → Shared × Next) :
    List (Shared × Next) :=
  (match s.runs r.toRunKey with
    | some d => (match d.out with
      | some o => [next (s.putRun r.toRunKey { move d o with out := some ⟨false, .unusable⟩ }),
          r.throws (s.putRun r.toRunKey { move d o with out := none })]
      | none => [])
    | none => []) ++ [r.throws s]

/-- The script was changed if it is there and is not the one from before. -/
def untouched (u : Setup) (before script : PortalScript) : Bool :=
  match before, script with
  | _, .missing => true
  | .ok b, .ok b' => decide (u.sha256.hex b' = u.sha256.hex b)
  | _, _ => false

def passes (ran : ScriptRunResult) : Bool := !ran.timedOut && ran.exitedZero && ran.sentinel

/-- What follows a finished script run and the reading of its ending. -/
def Run.afterEnding (r : Run) (s : Shared) (host : Host) (script : Bytes) (purpose : Purpose) (ran : ScriptRunResult)
    (e : Ending) : Shared × Next :=
  match purpose with
  | .first =>
    if e.outcome = .failed ∧ e.reason = some .portalError then r.go s (.freshOutLive host script)
    else r.go s (.evidence script e)
  | .proof folder =>
    if passes ran then r.go s (.checkProof host script folder e) else r.go s (.forget host portalError)
  | .live => r.go s (.evidence script e)

/-- What the kit's `submit()` does next; a dry run never clicks. -/
def Run.submits (r : Run) (s : Shared) (dryRun : Bool) (submit : Submit) (next : Submit → Step) : List (Shared × Next) :=
  match dryRun, submit with
  | false, .none =>
    if (s.out r.toRunKey).isSome then [r.go (s.modifyOut r.toRunKey fun o => { o with marker := true }) (next .marked)]
    else []
  | false, .marked => [r.go { s with presses := r.toRunKey :: s.presses } (next .clicked)]
  | _, _ => []

/-- The process of a script has ended: by itself, with or without an error, or at its time limit. -/
def Run.scriptEnds (r : Run) (u : Setup) (s : Shared) (host : Host) (script : Bytes)
    (next : ScriptRunResult → Step) : List (Shared × Next) :=
  [(true, false), (false, false), (true, true), (false, true)].map fun x =>
    let ran : ScriptRunResult := ⟨x.1, x.2, decide (sentinelLine (u.sha256.hex script) ∈ s.stdout), s.marker r.toRunKey⟩
    r.go { s.halt with history := .ended host (s.portals host) ran s.stdout :: s.history } (next ran)

def Run.access (u : Setup) (s : Shared) (r : Run) : Step → List (Shared × Next)
  | .fileable => [r.go s .packet, r.go s (.handBack { outcome := .cancelled }), r.throws s]
  | .packet =>
    [match r.portalHost, r.formUrl with
      | some host, some _ => if isPortalHost host then r.go s (.prepare host) else r.go s (.handBack portalError)
      | _, _ => r.go s (.handBack portalError), r.throws s]
  | .prepare host =>
    match s.runs r.toRunKey with
    | some _ => [r.go s (.handBack portalError), r.throws s]
    | none => [r.go (s.putRun r.toRunKey { out := some ⟨false, .unusable⟩ }) (.readScript host),
        r.throws (s.putRun r.toRunKey {}), r.throws s]
  | .readScript host => r.throws s :: (scriptReads (s.portals host)).map fun
    | .rejected => r.go s (.handBack portalError)
    | .missing => r.withClaude s host .missing
    | .ok script => r.go s (.readRecord host script)
  | .readRecord host script => [s.readProved host, none].map fun
    | none => r.withClaude s host (.ok script)
    | some record => r.go s (.readFolder host script record)
  | .readFolder host script record => (folderReads u (s.portals host)).map fun folder =>
    if folder = some record then
      r.go (s.spawn host r.dryRun (u.sha256.hex script)) (.script host script r.dryRun .first .none)
    else r.withClaude s host (.ok script)
  | .script host script dryRun purpose submit =>
    r.submits s dryRun submit (.script host script dryRun purpose) ++
      r.scriptEnds u s host script (.ending host script dryRun purpose) ++ [r.throws s.halt]
  | .ending host script dryRun purpose ran =>
    r.throws s :: (if ran.exitedZero = true ∧ ran.timedOut = false then (s.out r.toRunKey).toList.flatMap fun o =>
        [o.result, .unusable] else [.unusable]).map fun file =>
      r.afterEnding s host script purpose ran (runEnding u.cfg host dryRun ran file)
  | .freshOutLive host script => r.freshOut s (fun d o => { d with outLive := some o }) fun s =>
    r.withClaude s host (.ok script)
  | .head host before => [r.go s (.claude host before), r.throws s.halt]
  | .claude host before =>
    r.throws s.halt :: [ClaudeOutcome.ok, .failed false, .failed true].flatMap fun claude =>
      [false, true].map fun marker =>
        r.go (s.halt.modifyOut r.toRunKey fun o => { o with marker := marker }) (.freshOutClaude host before claude)
  | .freshOutClaude host before claude => r.freshOut s (fun d o => { d with outClaude := some o }) fun s =>
    r.go s (.claimed host before claude)
  | .claimed host before claude =>
    r.throws s :: (((s.runs r.toRunKey).bind RunDir.outClaude).toList.flatMap fun o => [o.result, .unusable]).map
      fun file => r.go s.begin (.confine host before claude (runEnding u.cfg host false CLEAN_EXIT file))
  | .confine host before claude claimed =>
    [match claude with
      | .ok => r.go s.halt (.readRepaired host before claimed)
      | .failed false => r.go s.halt (.handBack portalError)
      | .failed true => r.go s.halt (.handBack { outcome := .failed, reason := some .aiUnavailable }),
      r.go s.halt (.handBack portalError), r.throws s.halt]
  | .readRepaired host before claimed => r.throws s :: (scriptReads (s.portals host)).map fun script =>
    if claimed.outcome = .needsHuman ∧ untouched u before script = true then r.go s (.handBack claimed)
    else match script with
      | .ok script => r.go s (.repairedFolder host script)
      | _ => r.go s (.handBack portalError)
  | .repairedFolder host script => (folderReads u (s.portals host)).map fun
    | none => r.go s (.forget host portalError)
    | some folder =>
      r.go (s.spawn host true (u.sha256.hex script)) (.script host script true (.proof folder) .none)
  | .checkProof host script folder e => (folderReads u (s.portals host)).map fun proved =>
    if proved = some folder then r.go s (.record host script folder e) else r.go s (.forget host portalError)
  | .record host script folder e =>
    [if r.dryRun then r.go (s.recordProved host folder) (.evidence script e)
      else r.go (s.recordProved host folder) (.freshOutProof host script folder),
      r.throws (s.recordProved host folder), r.throws s]
  | .freshOutProof host script folder => r.freshOut s (fun d o => { d with outProof := some o }) fun s =>
    r.go s (.readLive host script folder)
  | .readLive host script folder => r.throws s :: (scriptReads (s.portals host)).map fun live =>
    r.go s (.liveFolder host script folder live)
  | .liveFolder host script folder live => (folderReads u (s.portals host)).map fun liveFolder =>
    match live with
    | .ok bytes =>
      if u.sha256.hex bytes = u.sha256.hex script ∧ liveFolder = some folder then
        r.go (s.spawn host false (u.sha256.hex bytes)) (.script host bytes false .live .none)
      else r.go s (.handBack portalError)
    | _ => r.go s (.handBack portalError)
  | .forget host e => [r.go (s.forgetProved host) (.handBack e), r.throws (s.forgetProved host), r.throws s]
  | .evidence script e => [r.go s (.handBack { e with
      scriptVersion := some (String.ofList (((u.sha256.hex script).take SCRIPT_VERSION_HEX).map Char.ofNat)) }), r.throws s]
  | .caught => [r.go s (.handBack (failedEnding (s.marker r.toRunKey)))]
  | .handBack e => [(s.send (r.payload e), .done ()), (s, .done ())]

/-- The next running filing is reported, and one without a run is left as it is. -/
def reconcile (s : Shared) (dryRun : Bool) : List RunningFiling → List (Shared × Next)
  | [] => [(s, .done ())]
  | f :: rest =>
    match f.runId with
    | none => [(s, .await (.reconcile dryRun rest))]
    | some runId =>
      let r : Run := ⟨⟨f.id, runId⟩, f.attempts, none, none, dryRun⟩
      let sent := s.send (r.payload (failedEnding (s.marker r.toRunKey)))
      [(sent, .await (.reconcile dryRun rest)), (sent, .done ()), (s, .done ())]

def access (u : Setup) (s : Shared) : Await → List (Shared × Next)
  | .run r step => r.access u s step
  | .reconcile dryRun filings => reconcile s dryRun filings

def enter (s : Shared) : Request → Option (Shared × Await)
  | .run r => some (s.halt, .run r .fileable)
  | .reconcile dryRun filings => some (s.halt, .reconcile dryRun filings)

def environment (s : Shared) (e : Change) : Option Shared :=
  if s.running then
    match e with
    | .portals p => some { s with portals := p }
    | .print line => some { s with stdout := line :: s.stdout }
    | .result key file => some (s.modifyOut key fun o => { o with result := file })
    | .forget host => some (s.forgetProved host)
  else none

def Setup.machine (u : Setup) : InterleavedCalls.Machine Shared Request Await Unit Change where
  enter := enter
  access := access u
  environment := environment

abbrev World := InterleavedCalls.World Shared Request Await

abbrev Move := InterleavedCalls.Move Request Change

end Civfix.CityFiler
