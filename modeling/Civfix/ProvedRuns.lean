import Civfix.FilingRuns

/-! # Only proved scripts run live

A live run of a host's script is preceded by a dry run of the same folder that ended in time, without an error and with
the sentinel of the folder's script, and that left the folder as it was. A record vouches for the one folder that has its
fingerprint, whatever has happened since. -/
namespace Civfix.CityFiler

open InterleavedCalls CodeUnits

variable {u : Setup} {s s' : Shared} {r : Run} {st : Step} {host : Host} {tree : HostEntry} {x : Text}
  {history history' : List Event} {w w' : World}

/-! ## Proofs -/

/-- The last two events are a dry run of the tree that passed. -/
def Proves (u : Setup) (host : Host) (tree : HostEntry) : List Event → Prop
  | .ended host' after ran lines :: .started host'' dryRun _ before :: _ =>
    host' = host ∧ host'' = host ∧ dryRun = true ∧ before.Same tree ∧ after.Same tree ∧ ran.timedOut = false ∧
      ran.exitedZero = true ∧ ∃ script, readPortalScript tree = .ok script ∧ sentinelLine (u.sha256.hex script) ∈ lines
  | _ => False

/-- A dry run of the tree has passed. -/
def Passed (u : Setup) (host : Host) (tree : HostEntry) (history : List Event) : Prop :=
  ∃ earlier, earlier <:+ history ∧ Proves u host tree earlier

/-- Whatever has started live had passed before. -/
def Justified (u : Setup) (history : List Event) : Prop :=
  ∀ host sha tree earlier, .started host false sha tree :: earlier <:+ history → Passed u host tree earlier

/-- A tree with the fingerprint has passed. -/
def Vouched (u : Setup) (host : Host) (x : Text) (history : List Event) : Prop :=
  ∃ tree, fingerprintPortal u.sha256 tree = .ok x ∧ Passed u host tree history

theorem Passed.cons (h : Passed u host tree history) (e : Event) : Passed u host tree (e :: history) := by
  obtain ⟨earlier, hsuffix, hproves⟩ := h
  exact ⟨earlier, hsuffix.trans (List.suffix_cons e history), hproves⟩

theorem Vouched.cons (h : Vouched u host x history) (e : Event) : Vouched u host x (e :: history) := by
  obtain ⟨tree, hx, hpassed⟩ := h
  exact ⟨tree, hx, hpassed.cons e⟩

theorem Passed.same (h : Passed u host tree history) {tree' : HostEntry} (hsame : tree.Same tree') :
    Passed u host tree' history := by
  obtain ⟨earlier, hsuffix, hproves⟩ := h
  refine ⟨earlier, hsuffix, ?_⟩
  unfold Proves at hproves ⊢
  split at hproves
  · obtain ⟨hhost, hhost', hdry, hbefore, hafter, htime, hexit, script, hscript, hline⟩ := hproves
    exact ⟨hhost, hhost', hdry, HostEntry.Same.trans hbefore hsame, HostEntry.Same.trans hafter hsame, htime, hexit, script,
      readPortalScript_of_same hsame hscript, hline⟩
  · exact hproves.elim

theorem Vouched.passed (h : Vouched u host x history) (hx : fingerprintPortal u.sha256 tree = .ok x) :
    Passed u host tree history := by
  obtain ⟨tree', hx', hpassed⟩ := h
  exact hpassed.same (same_of_fingerprint hx' hx)

theorem Justified.ended (h : Justified u history) (host : Host) (tree : HostEntry) (ran : ScriptRunResult)
    (lines : List Text) : Justified u (.ended host tree ran lines :: history) := by
  intro host' sha tree' earlier hsuffix
  rcases List.suffix_cons_iff.mp hsuffix with heq | hsuffix
  · cases heq
  · exact h host' sha tree' earlier hsuffix

theorem Justified.started (h : Justified u history) {dryRun : Bool} (sha : Text)
    (hlive : dryRun = false → Passed u host tree history) : Justified u (.started host dryRun sha tree :: history) := by
  intro host' sha' tree' earlier hsuffix
  rcases List.suffix_cons_iff.mp hsuffix with heq | hsuffix
  · cases heq
    exact hlive rfl
  · exact h host' sha' tree' earlier hsuffix

/-! ## Records -/

theorem trim_record {t : Text} (h : ∀ c ∈ t, isSpace c = false) : trim (t ++ [newline]) = t := by
  have hlast : (t ++ [newline]).rdropWhile isSpace = t := by
    rw [List.rdropWhile_concat_pos _ _ _ (by decide)]
    cases t using List.reverseRecOn with
    | nil => rfl
    | append_singleton t c => exact List.rdropWhile_concat_neg _ _ _ (by simp [h c (by simp)])
  cases t with
  | nil => decide
  | cons c t =>
    rw [trim, List.cons_append, List.dropWhile_cons_of_neg (by simp [h c (by simp)]), ← List.cons_append]
    exact hlast

theorem isSpace_of_hex {c : ℕ} (h : isDigit c = true ∨ (97 ≤ c ∧ c ≤ 102)) : isSpace c = false := by
  refine isSpace_of_alnum (isAlnum_iff.mpr ?_)
  rcases h with h | h
  · exact .inl (of_decide_eq_true h)
  · exact .inr (.inr ⟨h.1, by omega⟩)

theorem readProved_recordProved {host' : Host} {sha256 : Sha256} (hx : fingerprintPortal sha256 tree = .ok x)
    {y : Text} (h : (s.recordProved host x).readProved host' = some y) :
    (host' = host ∧ y = x) ∨ s.readProved host' = some y := by
  by_cases hhost : host' = host
  · subst hhost
    obtain ⟨f, es, bytes, -, -, -, rfl⟩ := exists_entries_of_fingerprint hx
    have hspace : ∀ c ∈ sha256.hex bytes, isSpace c = false := fun c hc => isSpace_of_hex (sha256.hexadecimal bytes c hc)
    simp only [Shared.readProved, Shared.recordProved, Function.update_self, Option.map_some, trim_record hspace,
      Option.filter_eq_some_iff, Option.some.injEq] at h
    exact .inl ⟨rfl, h.1.symm⟩
  · refine .inr ?_
    simpa only [Shared.readProved, Shared.recordProved, Function.update_of_ne hhost] using h

theorem readProved_forgetProved {host' : Host} {y : Text} (h : (s.forgetProved host).readProved host' = some y) :
    s.readProved host' = some y := by
  by_cases hhost : host' = host
  · subst hhost
    simp [Shared.readProved, Shared.forgetProved] at h
  · simpa only [Shared.readProved, Shared.forgetProved, Function.update_of_ne hhost] using h

/-- Every record vouches for a tree, and so does whatever has run live. -/
structure Sound (u : Setup) (s : Shared) : Prop where
  records : ∀ host x, s.readProved host = some x → Vouched u host x s.history
  live : Justified u s.history

theorem Sound.of_eq (h : Sound u s) (hproved : s'.proved = s.proved) (hhistory : s'.history = s.history) :
    Sound u s' := by
  refine ⟨fun host x hx => ?_, hhistory ▸ h.live⟩
  rw [hhistory]
  refine h.records host x ?_
  rw [← hx, Shared.readProved, Shared.readProved, hproved]

theorem Sound.forgetProved (h : Sound u s) (host : Host) : Sound u (s.forgetProved host) :=
  ⟨fun host' y hy => h.records host' y (readProved_forgetProved hy), h.live⟩

theorem Sound.recordProved (h : Sound u s) (hx : Vouched u host x s.history) : Sound u (s.recordProved host x) := by
  refine ⟨fun host' y hy => ?_, h.live⟩
  obtain ⟨tree, htree, -⟩ := id hx
  rcases readProved_recordProved htree hy with ⟨rfl, rfl⟩ | hy
  · exact hx
  · exact h.records host' y hy

theorem Sound.spawn (h : Sound u s) {dryRun : Bool} (sha : Text)
    (hlive : dryRun = false → Passed u host (s.portals host) s.history) : Sound u (s.spawn host dryRun sha) :=
  ⟨fun host' y hy => (h.records host' y hy).cons _, h.live.started sha hlive⟩

/-! ## One access -/

/-- What the folder was when its proof started. -/
structure Started (u : Setup) (script : Bytes) (folder : Text) (before : HostEntry) : Prop where
  folder : fingerprintPortal u.sha256 before = .ok folder
  script : readPortalScript before = .ok script

/-- The proof has just ended, and nothing has changed since. -/
def Ended (u : Setup) (s : Shared) (host : Host) (script : Bytes) (folder : Text) (ran : ScriptRunResult) : Prop :=
  s.running = false ∧ ∃ before earlier lines sha, Started u script folder before ∧
    s.history = .ended host (s.portals host) ran lines :: .started host true sha before :: earlier ∧
    (ran.sentinel = true → sentinelLine (u.sha256.hex script) ∈ lines)

def Knows (u : Setup) (s : Shared) : Step → Prop
  | .readFolder host _ record => Vouched u host record s.history
  | .script host script dryRun (.proof folder) _ => dryRun = true ∧ ∃ before earlier sha, Started u script folder before ∧
      s.history = .started host true sha before :: earlier
  | .ending host script _ (.proof folder) ran => Ended u s host script folder ran
  | .readRepaired .. => s.running = false
  | .repairedFolder host script => s.running = false ∧ readPortalScript (s.portals host) = .ok script
  | .checkProof host script folder _ => ∃ ran, passes ran = true ∧ Ended u s host script folder ran
  | .record host _ folder _ | .freshOutProof host _ folder | .readLive host _ folder | .liveFolder host _ folder _ =>
    Vouched u host folder s.history
  | _ => True

/-- The assertions after an access. -/
def Good (u : Setup) (y : Shared × Next) : Prop :=
  Sound u y.1 ∧ ∀ r step, y.2 = .await (.run r step) → Knows u y.1 step

theorem good_go (h : Sound u s) (hk : Knows u s st) : Good u (r.go s st) := by
  refine ⟨h, fun r' step' heq => ?_⟩
  cases heq
  exact hk

theorem good_throws (h : Sound u s) : Good u (r.throws s) := good_go h trivial

theorem good_freshOut (h : Sound u s) {move : RunDir → OutDir → RunDir} {next : Shared → Shared × Next}
    (hnext : ∀ s', s'.proved = s.proved → s'.history = s.history → Good u (next s')) {y : Shared × Next}
    (hy : y ∈ r.freshOut s move next) : Good u y := by
  rcases List.mem_append.mp hy with hy | hy
  · split at hy
    · split at hy
      · rcases List.mem_cons.mp hy with rfl | hy
        · exact hnext _ rfl rfl
        · cases List.mem_singleton.mp hy
          exact good_throws (h.of_eq rfl rfl)
      · cases hy
    · cases hy
  · cases List.mem_singleton.mp hy
    exact good_throws h

theorem ok_of_mem_folderReads {e : HostEntry} (h : some x ∈ folderReads u e) : fingerprintPortal u.sha256 e = .ok x := by
  rcases List.mem_cons.mp h with h | h
  · cases hx : fingerprintPortal u.sha256 e with
    | error _ =>
      rw [hx] at h
      cases h
    | ok y =>
      rw [hx] at h
      cases h
      rfl
  · cases List.mem_singleton.mp h

theorem ok_of_mem_scriptReads {e : HostEntry} {script : Bytes} (h : PortalScript.ok script ∈ scriptReads e) :
    readPortalScript e = .ok script := by
  rcases List.mem_cons.mp h with h | h
  · exact h.symm
  · cases List.mem_singleton.mp h

theorem Ended.vouched {script : Bytes} {folder : Text} {ran : ScriptRunResult} (h : Ended u s host script folder ran)
    (hpasses : passes ran = true) (hfolder : fingerprintPortal u.sha256 (s.portals host) = .ok folder) :
    Vouched u host folder s.history := by
  obtain ⟨-, before, earlier, lines, sha, hstarted, hhistory, hsentinel⟩ := h
  simp only [passes, Bool.and_eq_true, Bool.not_eq_true'] at hpasses
  refine ⟨before, hstarted.folder, s.history, List.suffix_refl _, ?_⟩
  rw [hhistory]
  exact ⟨rfl, rfl, rfl, .refl _, same_of_fingerprint hfolder hstarted.folder, hpasses.1.1, hpasses.1.2, script,
    hstarted.script, hsentinel hpasses.2⟩

theorem good_submits (h : Sound u s) {dryRun : Bool} {submit : Submit} {next : Submit → Step}
    (hnext : dryRun = false → ∀ s' sub, s'.history = s.history → Knows u s' (next sub)) {y : Shared × Next}
    (hy : y ∈ r.submits s dryRun submit next) : Good u y := by
  unfold Run.submits at hy
  split at hy
  · split at hy
    · cases List.mem_singleton.mp hy
      exact good_go (h.of_eq rfl rfl) (hnext rfl _ _ rfl)
    · cases hy
  · cases List.mem_singleton.mp hy
    exact good_go (h.of_eq rfl rfl) (hnext rfl _ _ rfl)
  · cases hy

theorem good_scriptEnds (h : Sound u s) {script : Bytes} {next : ScriptRunResult → Step}
    (hnext : ∀ s' ran lines, s'.running = false → s'.portals = s.portals →
      s'.history = .ended host (s.portals host) ran lines :: s.history →
      (ran.sentinel = true → sentinelLine (u.sha256.hex script) ∈ lines) → Knows u s' (next ran)) {y : Shared × Next}
    (hy : y ∈ r.scriptEnds u s host script next) : Good u y := by
  obtain ⟨x, -, rfl⟩ := List.mem_map.mp hy
  have hsound : ∀ ran, Sound u { s.halt with history := .ended host (s.portals host) ran s.stdout :: s.history } :=
    fun ran => ⟨fun host' y hy => (h.records host' y hy).cons _, h.live.ended _ _ _ _⟩
  exact good_go (hsound _) (hnext _ _ _ rfl rfl rfl of_decide_eq_true)

theorem good_access (h : Sound u s) (hk : Knows u s st) {y : Shared × Next} (hy : y ∈ r.access u s st) :
    Good u y := by
  have hthrows : Good u (r.throws s) := good_throws h
  have hhalt : Sound u s.halt := h.of_eq rfl rfl
  have hbegin : Sound u s.begin := h.of_eq rfl rfl
  cases st with
  | fileable =>
    simp only [Run.access, List.mem_cons, List.not_mem_nil, or_false] at hy
    rcases hy with rfl | rfl | rfl
    · exact good_go h trivial
    · exact good_go h trivial
    · exact hthrows
  | packet =>
    simp only [Run.access, List.mem_cons, List.not_mem_nil, or_false] at hy
    rcases hy with rfl | rfl
    · split
      · split
        · exact good_go h trivial
        · exact good_go h trivial
      · exact good_go h trivial
    · exact hthrows
  | prepare host =>
    simp only [Run.access] at hy
    split at hy
    · simp only [List.mem_cons, List.not_mem_nil, or_false] at hy
      rcases hy with rfl | rfl
      · exact good_go h trivial
      · exact hthrows
    · simp only [List.mem_cons, List.not_mem_nil, or_false] at hy
      rcases hy with rfl | rfl | rfl
      · exact good_go (h.of_eq rfl rfl) trivial
      · exact good_throws (h.of_eq rfl rfl)
      · exact hthrows
  | readScript host =>
    rcases List.mem_cons.mp hy with rfl | hy
    · exact hthrows
    obtain ⟨script, -, rfl⟩ := List.mem_map.mp hy
    split
    · exact good_go h trivial
    · exact good_go hbegin trivial
    · exact good_go h trivial
  | readRecord host script =>
    obtain ⟨record, hrecord, rfl⟩ := List.mem_map.mp hy
    split
    · exact good_go hbegin trivial
    · rcases List.mem_cons.mp hrecord with heq | heq
      · exact good_go h (h.records host _ heq.symm)
      · cases List.mem_singleton.mp heq
  | readFolder host script record =>
    obtain ⟨folder, hfolder, rfl⟩ := List.mem_map.mp hy
    split
    · next heq =>
      -- The folder has the fingerprint of the record, so it is the one that was proved.
      subst heq
      exact good_go (h.spawn _ fun _ => hk.passed (ok_of_mem_folderReads hfolder)) trivial
    · exact good_go hbegin trivial
  | script host script dryRun purpose submit =>
    rcases List.mem_append.mp hy with hy | hy
    · rcases List.mem_append.mp hy with hy | hy
      · refine good_submits h (fun hlive s' sub hhistory => ?_) hy
        cases purpose with
        | first | live => trivial
        | proof folder => exact absurd (hlive.symm.trans hk.1) (by decide)
      · refine good_scriptEnds h (fun s' ran lines hrunning hportals hhistory hsentinel => ?_) hy
        cases purpose with
        | first | live => trivial
        | proof folder =>
          obtain ⟨-, before, earlier, sha, hstarted, hbefore⟩ := hk
          refine ⟨hrunning, before, earlier, lines, sha, hstarted, ?_, hsentinel⟩
          rw [hhistory, hbefore, hportals]
    · cases List.mem_singleton.mp hy
      exact good_throws hhalt
  | ending host script dryRun purpose ran =>
    rcases List.mem_cons.mp hy with rfl | hy
    · exact hthrows
    obtain ⟨file, -, rfl⟩ := List.mem_map.mp hy
    unfold Run.afterEnding
    split
    · split
      · exact good_go h trivial
      · exact good_go h trivial
    · split
      · next hpasses => exact good_go h ⟨ran, hpasses, hk⟩
      · exact good_go h trivial
    · exact good_go h trivial
  | freshOutLive host script =>
    simp only [Run.access] at hy
    refine good_freshOut h (fun s' hproved hhistory => ?_) hy
    exact good_go (s := s'.begin) (h.of_eq hproved hhistory) trivial
  | head host before =>
    simp only [Run.access, List.mem_cons, List.not_mem_nil, or_false] at hy
    rcases hy with rfl | rfl
    · exact good_go h trivial
    · exact good_throws hhalt
  | claude host before =>
    rcases List.mem_cons.mp hy with rfl | hy
    · exact good_throws hhalt
    obtain ⟨claude, -, hy⟩ := List.mem_flatMap.mp hy
    obtain ⟨marker, -, rfl⟩ := List.mem_map.mp hy
    exact good_go (h.of_eq rfl rfl) trivial
  | freshOutClaude host before claude =>
    simp only [Run.access] at hy
    refine good_freshOut h (fun s' hproved hhistory => ?_) hy
    exact good_go (h.of_eq hproved hhistory) trivial
  | claimed host before claude =>
    rcases List.mem_cons.mp hy with rfl | hy
    · exact hthrows
    obtain ⟨file, -, rfl⟩ := List.mem_map.mp hy
    exact good_go hbegin trivial
  | confine host before claude claimed =>
    simp only [Run.access, List.mem_cons, List.not_mem_nil, or_false] at hy
    rcases hy with rfl | rfl | rfl
    · split
      · exact good_go hhalt rfl
      · exact good_go hhalt trivial
      · exact good_go hhalt trivial
    · exact good_go hhalt trivial
    · exact good_throws hhalt
  | readRepaired host before claimed =>
    rcases List.mem_cons.mp hy with rfl | hy
    · exact hthrows
    obtain ⟨script, hscript, rfl⟩ := List.mem_map.mp hy
    split
    · exact good_go h trivial
    · split
      · exact good_go h ⟨hk, ok_of_mem_scriptReads hscript⟩
      · exact good_go h trivial
  | repairedFolder host script =>
    obtain ⟨folder, hfolder, rfl⟩ := List.mem_map.mp hy
    split
    · exact good_go h trivial
    · exact good_go (h.spawn _ fun hlive => by cases hlive) ⟨rfl, s.portals host, s.history, _,
        ⟨ok_of_mem_folderReads hfolder, hk.2⟩, rfl⟩
  | checkProof host script folder e =>
    obtain ⟨proved, hproved, rfl⟩ := List.mem_map.mp hy
    split
    · next heq =>
      subst heq
      obtain ⟨ran, hpasses, hended⟩ := hk
      exact good_go h (hended.vouched hpasses (ok_of_mem_folderReads hproved))
    · exact good_go h trivial
  | record host script folder e =>
    have hrecorded : Sound u (s.recordProved host folder) := h.recordProved hk
    simp only [Run.access, List.mem_cons, List.not_mem_nil, or_false] at hy
    rcases hy with rfl | rfl | rfl
    · split
      · exact good_go hrecorded trivial
      · exact good_go hrecorded hk
    · exact good_throws hrecorded
    · exact hthrows
  | freshOutProof host script folder =>
    simp only [Run.access] at hy
    refine good_freshOut h (fun s' hproved hhistory => good_go (h.of_eq hproved hhistory) ?_) hy
    change Vouched u host folder s'.history
    rw [hhistory]
    exact hk
  | readLive host script folder =>
    rcases List.mem_cons.mp hy with rfl | hy
    · exact hthrows
    obtain ⟨live, -, rfl⟩ := List.mem_map.mp hy
    exact good_go h hk
  | liveFolder host script folder live =>
    obtain ⟨liveFolder, hfolder, rfl⟩ := List.mem_map.mp hy
    split
    · split
      · next heq =>
        obtain ⟨-, rfl⟩ := heq
        exact good_go (h.spawn _ fun _ => hk.passed (ok_of_mem_folderReads hfolder)) trivial
      · exact good_go h trivial
    · exact good_go h trivial
  | forget host e =>
    simp only [Run.access, List.mem_cons, List.not_mem_nil, or_false] at hy
    rcases hy with rfl | rfl | rfl
    · exact good_go (h.forgetProved host) trivial
    · exact good_throws (h.forgetProved host)
    · exact hthrows
  | evidence script e =>
    simp only [Run.access, List.mem_cons, List.not_mem_nil, or_false] at hy
    rcases hy with rfl | rfl
    · exact good_go h trivial
    · exact hthrows
  | caught =>
    cases List.mem_singleton.mp hy
    exact good_go h trivial
  | handBack e =>
    simp only [Run.access, List.mem_cons, List.not_mem_nil, or_false] at hy
    rcases hy with rfl | rfl
    · exact ⟨h.of_eq rfl rfl, fun _ _ heq => by cases heq⟩
    · exact ⟨h, fun _ _ heq => by cases heq⟩

theorem good_reconcile (h : Sound u s) {dryRun : Bool} {filings : List RunningFiling} {y : Shared × Next}
    (hy : y ∈ reconcile s dryRun filings) : Good u y := by
  have hgood : ∀ {s' : Shared} {n : Next}, s'.proved = s.proved → s'.history = s.history →
      (∀ r step, n ≠ .await (.run r step)) → Good u (s', n) :=
    fun hproved hhistory hn => ⟨h.of_eq hproved hhistory, fun r step heq => absurd heq (hn r step)⟩
  unfold reconcile at hy
  split at hy
  · cases List.mem_singleton.mp hy
    exact hgood rfl rfl (by simp)
  split at hy
  · cases List.mem_singleton.mp hy
    exact hgood rfl rfl (by simp)
  · simp only [List.mem_cons, List.not_mem_nil, or_false] at hy
    rcases hy with rfl | rfl | rfl
    · exact hgood rfl rfl (by simp)
    · exact hgood rfl rfl (by simp)
    · exact hgood rfl rfl (by simp)

/-! ## Every run -/

/-- One call at a time: a call starts when all others have ended. -/
def OneAtATime (w : World) : Move → Prop
  | .start _ => ∀ c ∈ w.calls, c = none
  | _ => True

instance (w : World) : DecidablePred (OneAtATime w)
  | .start _ => inferInstanceAs (Decidable (∀ c ∈ w.calls, c = none))
  | .access .. | .crash _ | .environment _ => inferInstanceAs (Decidable True)

/-- What a call that is in progress knows. -/
def Pending (u : Setup) (s : Shared) (c : Call Request Await) : Prop := ∀ r step, c.await = .run r step → Knows u s step

structure Kept (u : Setup) (w : World) : Prop where
  holds : Machine.Holds (Sound u) (fun s _ c => Pending u s c) w
  alone : Machine.Exclusive (fun _ : Call Request Await => some ()) w

theorem not_call_of_start {o : Request} (hok : OneAtATime w (.start o)) (i : ℕ) (c : Call Request Await) :
    w.call i ≠ some c := by
  rw [World.call_eq_none hok i]
  exact (Option.some_ne_none c).symm

/-- Edits find no proof under way between the reads of its folder. -/
theorem pending_of_environment {e : Change} (he : environment s e = some s') {c : Call Request Await}
    (hc : Pending u s c) : Pending u s' c := by
  intro r step hstep
  have hk := hc r step hstep
  unfold environment at he
  split at he
  · next hrunning =>
    have hhistory : s'.history = s.history := by
      cases e <;> cases he <;> rfl
    cases step with
    | readFolder host script record | record host script folder e | freshOutProof host script folder
      | readLive host script folder | liveFolder host script folder live =>
      simp only [Knows] at hk ⊢
      rw [hhistory]
      exact hk
    | script host script dryRun purpose submit =>
      cases purpose with
      | first | live => trivial
      | proof folder =>
        simp only [Knows] at hk ⊢
        rw [hhistory]
        exact hk
    | ending host script dryRun purpose ran =>
      cases purpose with
      | first | live => trivial
      | proof folder => exact absurd (hk.1.symm.trans hrunning) (by decide)
    | readRepaired host before claimed => exact absurd (Eq.symm hk |>.trans hrunning) (by decide)
    | repairedFolder host script => exact absurd (hk.1.symm.trans hrunning) (by decide)
    | checkProof host script folder e =>
      obtain ⟨ran, -, hended⟩ := hk
      exact absurd (hended.1.symm.trans hrunning) (by decide)
    | _ => trivial
  · cases he

theorem sound_of_environment {e : Change} (he : environment s e = some s') (h : Sound u s) : Sound u s' := by
  unfold environment at he
  split at he
  · cases e with
    | portals p | print line | result key file =>
      cases he
      exact h.of_eq rfl rfl
    | forget host =>
      cases he
      exact h.forgetProved host
  · cases he

theorem Kept.step {m : Move} {o : Option Unit} (h : Kept u w) (hok : OneAtATime w m)
    (hs : u.machine.step w m = some (w', o)) : Kept u w' := by
  constructor
  · refine Machine.Holds.step h.holds hs ?_ ?_ ?_
    · intro q s p hm he
      subst hm
      refine ⟨?_, ?_, fun i c hc => absurd hc (not_call_of_start hok i c)⟩
      · cases q <;> cases he <;> exact h.holds.shared.of_eq rfl rfl
      · intro r step hstep
        cases q with
        | run r' =>
          cases he
          cases hstep
          trivial
        | reconcile dryRun filings =>
          cases he
          cases hstep
    · intro i k c s n _ hc hmem
      have hgood : Good u (s, n) := by
        change (s, n) ∈ access u w.shared c.await at hmem
        cases hawait : c.await with
        | run r step =>
          rw [hawait] at hmem
          exact good_access h.holds.shared (h.holds.calls i c hc r step hawait) hmem
        | reconcile dryRun filings =>
          rw [hawait] at hmem
          exact good_reconcile h.holds.shared hmem
      refine ⟨hgood.1, fun p hp r step hstep => hgood.2 r step (by rw [hp]; exact congrArg _ hstep), fun j d hj hd => ?_⟩
      exact absurd (h.alone j i d c () hd hc rfl rfl) hj
    · intro e s _ he
      exact ⟨sound_of_environment he h.holds.shared, fun i c hc => pending_of_environment he (h.holds.calls i c hc)⟩
  · refine h.alone.step_taking hs ?_ fun i n c s p _ hc _ => .inl rfl
    intro q s p hm _ _ _ i c hc
    subst hm
    exact absurd hc (not_call_of_start hok i c)

theorem kept_empty (u : Setup) (portals : Host → HostEntry) : Kept u (World.initial (Shared.empty portals)) := by
  refine ⟨⟨⟨fun host x hx => ?_, fun host sha tree earlier hsuffix => ?_⟩, fun i c hc => by simp at hc⟩,
    fun i j c d k hc => by simp at hc⟩
  · cases hx
  · exact absurd (List.suffix_nil.mp hsuffix) (List.cons_ne_nil _ _)

/-- Whatever Claude and the scripts do, and however the runs fail or crash, each script run that is not a dry run finds
the folder as it was before and after an earlier dry run that passed. -/
theorem live_runs_proved (u : Setup) (portals : Host → HostEntry) (w : World)
    (h : Machine.Run u.machine OneAtATime (World.initial (Shared.empty portals)) w) : Justified u w.shared.history :=
  (h.invariant (kept_empty u portals) fun hw hok hs => hw.step hok hs).holds.shared.live

/-! ## Two runs -/

/-- The bytes themselves, written in hexadecimal digits. -/
def hexBytes (bytes : Bytes) : Text := bytes.flatMap fun b => [hexDigit (b.toNat / 16), hexDigit (b.toNat % 16)]

theorem hexDigit_injective {n m : ℕ} (hn : n < 16) (hm : m < 16) (h : hexDigit n = hexDigit m) : n = m := by
  rw [← hexDigitValue_hexDigit hn, h, hexDigitValue_hexDigit hm]

theorem hexBytes_injective : Function.Injective hexBytes := by
  intro a b h
  induction a generalizing b with
  | nil =>
    cases b with
    | nil => rfl
    | cons y b => cases h
  | cons x a ih =>
    cases b with
    | nil => cases h
    | cons y b =>
      simp only [hexBytes, List.flatMap_cons, List.cons_append, List.nil_append, List.cons.injEq] at h
      obtain ⟨hhigh, hlow, hrest⟩ := h
      have hx := x.toNat_lt
      have hy := y.toNat_lt
      have hhigh := hexDigit_injective (by omega) (by omega) hhigh
      have hlow := hexDigit_injective (by omega) (by omega) hlow
      have hbyte : x.toNat = y.toNat := by omega
      rw [UInt8.toNat_inj.mp hbyte, ih hrest]

theorem hexBytes_hexadecimal (bytes : Bytes) :
    ∀ c ∈ hexBytes bytes, isDigit c = true ∨ (97 ≤ c ∧ c ≤ 102) := by
  intro c hc
  obtain ⟨b, -, hc⟩ := List.mem_flatMap.mp hc
  have hb := b.toNat_lt
  have hdigit : ∀ n < 16, isDigit (hexDigit n) = true ∨ (97 ≤ hexDigit n ∧ hexDigit n ≤ 102) := by decide
  simp only [List.mem_cons, List.not_mem_nil, or_false] at hc
  rcases hc with rfl | rfl
  · exact hdigit _ (by omega)
  · exact hdigit _ (by omega)

/-- A hash that never collides. -/
def plainSha256 : Sha256 where
  hex := hexBytes
  injective := hexBytes_injective
  hexadecimal := hexBytes_hexadecimal

def somePortal : Host → HostEntry := fun host =>
  if host = "a.example" then .folder ⟨.file (ascii "script.mjs") (ascii "hello") .nil, by decide, by decide⟩ else .missing

def someSetup : Setup := ⟨⟨true, fun _ => true, fun _ => none, fun _ => none⟩, plainSha256⟩

def someRun (n : ℕ) : Run := ⟨⟨n, n⟩, 1, some "a.example", some "https://a.example/form", false⟩

/-- The first run has its script proved, and presses submit; the second runs it by its record. -/
def provedTwice : List Move :=
  List.flatten [[.start (.run (someRun 1))], [0, 0, 0, 1, 0, 0, 1, 0, 1, 0, 1, 0].map (.access 0),
    [.environment (.print (sentinelLine (hexBytes (ascii "hello"))))],
    [0, 1, 0, 0, 0, 1, 0, 0, 0, 0, 1, 0, 0].map (.access 0),
    [.start (.run (someRun 2))], [0, 0, 0, 1, 0, 0].map (.access 1)]

def Event.isLive : Event → Bool
  | .started _ dryRun _ _ => !dryRun
  | .ended .. => false

theorem live_runs_proved_twice : ∃ w, Machine.Run someSetup.machine OneAtATime (World.initial (Shared.empty somePortal)) w ∧
    (w.shared.history.filter Event.isLive).length = 2 ∧ Justified someSetup w.shared.history := by
  have hmoves : Machine.Allowed someSetup.machine OneAtATime (World.initial (Shared.empty somePortal)) provedTwice ∧
      (someSetup.machine.perform (World.initial (Shared.empty somePortal)) provedTwice).any (fun w =>
        decide ((w.shared.history.filter Event.isLive).length = 2)) = true := by
    decide +kernel
  obtain ⟨hok, hmoves⟩ := hmoves
  obtain ⟨w, hw, hlive⟩ := (Option.any_eq_true _ _).mp hmoves
  have hrun := Machine.run_of_perform hok hw
  exact ⟨w, hrun, of_decide_eq_true hlive, live_runs_proved someSetup somePortal w hrun⟩

end Civfix.CityFiler
