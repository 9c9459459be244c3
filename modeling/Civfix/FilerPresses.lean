import Civfix.FilingRequeues
import Civfix.FilingRuns

/-! # What is known of a click

A run leaves its marker before it clicks submit. From the click on nothing that is handed back for it asks for another
run: not the ending of its script, not a throw, and not the next boot. `out/` is moved aside only before the click. -/
namespace Civfix.CityFiler

open Filings

variable {u : Setup} {s s' : Shared} {r : Run} {st : Step} {host : Host} {key : RunKey} {y : Shared × Next}

/-- How often the scripts of the run have clicked. -/
def Shared.pressed (s : Shared) (key : RunKey) : ℕ := s.presses.count key

/-- The run that a result is of. -/
def runOf (p : Payload) : RunKey := ⟨p.filingId, p.runId⟩

theorem pressed_of_eq (h : s'.presses = s.presses) (key : RunKey) : s'.pressed key = s.pressed key :=
  congrArg (List.count key) h

theorem marker_of_eq (h : s'.runs key = s.runs key) : s'.marker key = s.marker key := by
  simp only [Shared.marker, Shared.out, h]

theorem marker_modifyOut (key : RunKey) (f : OutDir → OutDir) :
    (s.modifyOut key f).marker key = (s.out key).any fun o => (f o).marker := by
  simp only [Shared.marker, Shared.out, Shared.modifyOut, Function.update_self]
  cases s.runs key with
  | none => rfl
  | some d =>
    simp only [Option.map_some, Option.bind_some]
    cases d.out <;> rfl

theorem runs_modifyOut_of_ne {key' : RunKey} (h : key' ≠ key) (f : OutDir → OutDir) :
    (s.modifyOut key f).runs key' = s.runs key' := Function.update_of_ne h _ _

theorem runs_putRun_of_ne {key' : RunKey} (h : key' ≠ key) (d : RunDir) : (s.putRun key d).runs key' = s.runs key' :=
  Function.update_of_ne h _ _

theorem payload_of_run {e : Ending} {p : Payload} (h : r.payload e = some p) :
    runOf p = r.toRunKey ∧ (p.AsksAgain → e.repeats = true) := by
  unfold Run.payload at h
  split at h
  · cases h
    refine ⟨rfl, fun hp => ?_⟩
    simp only [Ending.repeats, Bool.and_eq_true, Bool.or_eq_true, decide_eq_true_eq]
    exact hp
  · cases h

/-- No run clicks twice, a click has left its marker, and no result of it asks for another run. -/
structure Marked (s : Shared) : Prop where
  once : ∀ key, s.pressed key ≤ 1
  marker : ∀ key, s.pressed key ≠ 0 → s.marker key = true
  results : ∀ p ∈ s.results, p.AsksAgain → s.pressed (runOf p) = 0

theorem marked_empty (portals : Host → HostEntry) : Marked (Shared.empty portals) :=
  ⟨fun _ => Nat.zero_le 1, fun _ h => absurd rfl h, fun _ hp => absurd hp List.not_mem_nil⟩

theorem Marked.unpressed (h : Marked s) (hm : s.marker key = false) : s.pressed key = 0 := by
  by_contra hne
  rw [h.marker key hne] at hm
  cases hm

/-- What a run knows of its own click, step by step. -/
def Unpressed (s : Shared) (r : Run) : Step → Prop
  | .script _ _ dryRun purpose submit =>
    (submit ≠ .clicked → s.pressed r.toRunKey = 0) ∧ (submit = .marked → s.marker r.toRunKey = true) ∧
      ∀ folder, purpose = .proof folder → dryRun = true ∧ s.pressed r.toRunKey = 0
  | .ending _ _ _ purpose ran =>
    (ran.marker = false → s.pressed r.toRunKey = 0) ∧ ∀ folder, purpose = .proof folder → s.pressed r.toRunKey = 0
  | .evidence _ e | .handBack e => e.repeats = true → s.pressed r.toRunKey = 0
  | .caught => True
  | _ => s.pressed r.toRunKey = 0

theorem Unpressed.of_eq (h : Unpressed s r st) (hpresses : s'.presses = s.presses)
    (hmarker : s'.marker r.toRunKey = s.marker r.toRunKey) : Unpressed s' r st := by
  cases st with
  | caught => trivial
  | _ => simpa only [Unpressed, Shared.pressed, hpresses, hmarker] using h

/-- What an access of a run comes to. -/
inductive Safe (r : Run) (s : Shared) : Shared × Next → Prop where
  | goes {s' : Shared} {st : Step} (hpresses : s'.presses = s.presses) (hresults : s'.results = s.results)
      (hmarker : ∀ key, s.pressed key ≠ 0 → s'.marker key = s.marker key) (hk : Unpressed s' r st) :
        Safe r s (s', .await (.run r st))
  | clicks {st : Step} (hzero : s.pressed r.toRunKey = 0) (hmarker : s.marker r.toRunKey = true)
      (hk : Unpressed { s with presses := r.toRunKey :: s.presses } r st) :
        Safe r s ({ s with presses := r.toRunKey :: s.presses }, .await (.run r st))
  | sends {e : Ending} (he : e.repeats = true → s.pressed r.toRunKey = 0) : Safe r s (s.send (r.payload e), .done ())
  | ends : Safe r s (s, .done ())

theorem safe_go (hpresses : s'.presses = s.presses) (hresults : s'.results = s.results) (hruns : s'.runs = s.runs)
    (hk : Unpressed s' r st) : Safe r s (r.go s' st) :=
  .goes hpresses hresults (fun key _ => marker_of_eq (congrFun hruns key)) hk

theorem safe_stay (hk : Unpressed s r st) : Safe r s (r.go s st) := safe_go rfl rfl rfl hk

theorem safe_throws : Safe r s (r.throws s) := safe_stay trivial

theorem safe_own (hzero : s.pressed r.toRunKey = 0) (hpresses : s'.presses = s.presses)
    (hresults : s'.results = s.results) (hruns : ∀ key, key ≠ r.toRunKey → s'.runs key = s.runs key)
    (hk : Unpressed s' r st) : Safe r s (r.go s' st) := by
  refine .goes hpresses hresults (fun key hne => marker_of_eq (hruns key ?_)) hk
  rintro rfl
  exact hne hzero

theorem safe_freshOut (hzero : s.pressed r.toRunKey = 0) {move : RunDir → OutDir → RunDir}
    {next : Shared → Shared × Next}
    (hnext : ∀ s', s'.presses = s.presses → s'.results = s.results →
      (∀ key, key ≠ r.toRunKey → s'.runs key = s.runs key) → Safe r s (next s'))
    (hy : y ∈ r.freshOut s move next) : Safe r s y := by
  rcases List.mem_append.mp hy with hy | hy
  · split at hy
    · split at hy
      · rcases List.mem_cons.mp hy with rfl | hy
        · exact hnext _ rfl rfl fun _ hne => runs_putRun_of_ne hne _
        · cases List.mem_singleton.mp hy
          exact safe_own hzero rfl rfl (fun _ hne => runs_putRun_of_ne hne _) trivial
      · cases hy
    · cases hy
  · cases List.mem_singleton.mp hy
    exact safe_throws

theorem unpressed_script {script : Bytes} {dryRun : Bool} {purpose : Purpose} (hzero : s.pressed r.toRunKey = 0)
    (hdry : ∀ folder, purpose = .proof folder → dryRun = true) :
    Unpressed s r (.script host script dryRun purpose .none) :=
  ⟨fun _ => hzero, fun h => absurd h (by decide), fun folder hfolder => ⟨hdry folder hfolder, hzero⟩⟩

/-- The marker comes before the click, and the click is the last thing `submit()` does. -/
theorem safe_submits {script : Bytes} {dryRun : Bool} {purpose : Purpose} {submit : Submit}
    (hk : Unpressed s r (.script host script dryRun purpose submit))
    (hy : y ∈ r.submits s dryRun submit (.script host script dryRun purpose)) : Safe r s y := by
  obtain ⟨hzero, hmarker, hdry⟩ := hk
  unfold Run.submits at hy
  split at hy
  · have hzero := hzero (by decide)
    have hproof : ∀ folder, purpose = .proof folder → False := fun folder hfolder =>
      absurd (hdry folder hfolder).1 (by decide)
    split at hy
    · next hout =>
      cases List.mem_singleton.mp hy
      refine safe_own hzero rfl rfl (fun _ hne => runs_modifyOut_of_ne hne _) ⟨fun _ => hzero, fun _ => ?_,
        fun folder hfolder => (hproof folder hfolder).elim⟩
      obtain ⟨o, ho⟩ := Option.isSome_iff_exists.mp hout
      rw [marker_modifyOut, ho]
      rfl
    · cases hy
  · cases List.mem_singleton.mp hy
    exact .clicks (hzero (by decide)) (hmarker rfl) ⟨fun hne => absurd rfl hne, fun heq => absurd heq (by decide),
      fun folder hfolder => absurd (hdry folder hfolder).1 (by decide)⟩
  · cases hy

theorem safe_access (h : Marked s) (hk : Unpressed s r st) (hy : y ∈ r.access u s st) : Safe r s y := by
  cases st with
  | fileable =>
    simp only [Run.access, List.mem_cons, List.not_mem_nil, or_false] at hy
    rcases hy with rfl | rfl | rfl
    · exact safe_stay hk
    · exact safe_stay fun _ => hk
    · exact safe_throws
  | packet =>
    simp only [Run.access, List.mem_cons, List.not_mem_nil, or_false] at hy
    rcases hy with rfl | rfl
    · split
      · split
        · exact safe_stay hk
        · exact safe_stay fun _ => hk
      · exact safe_stay fun _ => hk
    · exact safe_throws
  | prepare host =>
    simp only [Run.access] at hy
    split at hy
    · simp only [List.mem_cons, List.not_mem_nil, or_false] at hy
      rcases hy with rfl | rfl
      · exact safe_stay fun _ => hk
      · exact safe_throws
    · simp only [List.mem_cons, List.not_mem_nil, or_false] at hy
      rcases hy with rfl | rfl | rfl
      · exact safe_own hk rfl rfl (fun _ hne => runs_putRun_of_ne hne _) hk
      · exact safe_own hk rfl rfl (fun _ hne => runs_putRun_of_ne hne _) trivial
      · exact safe_throws
  | readScript host =>
    rcases List.mem_cons.mp hy with rfl | hy
    · exact safe_throws
    obtain ⟨script, -, rfl⟩ := List.mem_map.mp hy
    split
    · exact safe_stay fun _ => hk
    · exact safe_go rfl rfl rfl hk
    · exact safe_stay hk
  | readRecord host script =>
    obtain ⟨record, -, rfl⟩ := List.mem_map.mp hy
    split
    · exact safe_go rfl rfl rfl hk
    · exact safe_stay hk
  | readFolder host script record =>
    obtain ⟨folder, -, rfl⟩ := List.mem_map.mp hy
    split
    · exact safe_go rfl rfl rfl (unpressed_script hk fun _ h => by cases h)
    · exact safe_go rfl rfl rfl hk
  | script host script dryRun purpose submit =>
    rcases List.mem_append.mp hy with hy | hy
    · rcases List.mem_append.mp hy with hy | hy
      · exact safe_submits hk hy
      · obtain ⟨x, -, rfl⟩ := List.mem_map.mp hy
        exact safe_go rfl rfl rfl ⟨fun hmarker => h.unpressed hmarker, fun folder hfolder => (hk.2.2 folder hfolder).2⟩
    · cases List.mem_singleton.mp hy
      exact safe_go rfl rfl rfl trivial
  | ending host script dryRun purpose ran =>
    rcases List.mem_cons.mp hy with rfl | hy
    · exact safe_throws
    obtain ⟨file, -, rfl⟩ := List.mem_map.mp hy
    -- An ending that asks for another run comes from a run without a marker.
    have hrepeats : (runEnding u.cfg host dryRun ran file).repeats = true → s.pressed r.toRunKey = 0 := by
      intro hrepeats
      refine hk.1 (Bool.eq_false_iff.mpr fun hmarker => ?_)
      rw [repeats_runEnding u.cfg host dryRun hmarker file] at hrepeats
      cases hrepeats
    unfold Run.afterEnding
    split
    · split
      · next hfailed => exact safe_stay (hrepeats (by simp [Ending.repeats, hfailed.1, hfailed.2]))
      · exact safe_stay hrepeats
    · split
      · exact safe_stay (hk.2 _ rfl)
      · exact safe_stay (hk.2 _ rfl)
    · exact safe_stay hrepeats
  | freshOutLive host script =>
    simp only [Run.access] at hy
    refine safe_freshOut hk (fun s' hpresses hresults hruns => ?_) hy
    have hbegun : s'.begin.presses = s.presses := hpresses
    exact safe_own hk hbegun hresults hruns ((pressed_of_eq hpresses _).trans hk)
  | head host before =>
    simp only [Run.access, List.mem_cons, List.not_mem_nil, or_false] at hy
    rcases hy with rfl | rfl
    · exact safe_stay hk
    · exact safe_go rfl rfl rfl trivial
  | claude host before =>
    rcases List.mem_cons.mp hy with rfl | hy
    · exact safe_go rfl rfl rfl trivial
    obtain ⟨claude, -, hy⟩ := List.mem_flatMap.mp hy
    obtain ⟨marker, -, rfl⟩ := List.mem_map.mp hy
    exact safe_own hk rfl rfl (fun _ hne => runs_modifyOut_of_ne hne _) hk
  | freshOutClaude host before claude =>
    simp only [Run.access] at hy
    refine safe_freshOut hk (fun s' hpresses hresults hruns => ?_) hy
    exact safe_own hk hpresses hresults hruns ((pressed_of_eq hpresses _).trans hk)
  | claimed host before claude =>
    rcases List.mem_cons.mp hy with rfl | hy
    · exact safe_throws
    obtain ⟨file, -, rfl⟩ := List.mem_map.mp hy
    exact safe_go rfl rfl rfl hk
  | confine host before claude claimed =>
    simp only [Run.access, List.mem_cons, List.not_mem_nil, or_false] at hy
    rcases hy with rfl | rfl | rfl
    · split
      · exact safe_go rfl rfl rfl hk
      · exact safe_go rfl rfl rfl fun _ => hk
      · exact safe_go rfl rfl rfl fun _ => hk
    · exact safe_go rfl rfl rfl fun _ => hk
    · exact safe_go rfl rfl rfl trivial
  | readRepaired host before claimed =>
    rcases List.mem_cons.mp hy with rfl | hy
    · exact safe_throws
    obtain ⟨script, -, rfl⟩ := List.mem_map.mp hy
    split
    · exact safe_stay fun _ => hk
    · split
      · exact safe_stay hk
      · exact safe_stay fun _ => hk
  | repairedFolder host script =>
    obtain ⟨folder, -, rfl⟩ := List.mem_map.mp hy
    split
    · exact safe_stay hk
    · exact safe_go rfl rfl rfl (unpressed_script hk fun _ _ => rfl)
  | checkProof host script folder e =>
    obtain ⟨proved, -, rfl⟩ := List.mem_map.mp hy
    split
    · exact safe_stay hk
    · exact safe_stay hk
  | record host script folder e =>
    simp only [Run.access, List.mem_cons, List.not_mem_nil, or_false] at hy
    rcases hy with rfl | rfl | rfl
    · split
      · exact safe_go rfl rfl rfl fun _ => hk
      · exact safe_go rfl rfl rfl hk
    · exact safe_go rfl rfl rfl trivial
    · exact safe_throws
  | freshOutProof host script folder =>
    simp only [Run.access] at hy
    refine safe_freshOut hk (fun s' hpresses hresults hruns => ?_) hy
    exact safe_own hk hpresses hresults hruns ((pressed_of_eq hpresses _).trans hk)
  | readLive host script folder =>
    rcases List.mem_cons.mp hy with rfl | hy
    · exact safe_throws
    obtain ⟨live, -, rfl⟩ := List.mem_map.mp hy
    exact safe_stay hk
  | liveFolder host script folder live =>
    obtain ⟨liveFolder, -, rfl⟩ := List.mem_map.mp hy
    split
    · split
      · exact safe_go rfl rfl rfl (unpressed_script hk fun _ h => by cases h)
      · exact safe_stay fun _ => hk
    · exact safe_stay fun _ => hk
  | forget host e =>
    simp only [Run.access, List.mem_cons, List.not_mem_nil, or_false] at hy
    rcases hy with rfl | rfl | rfl
    · exact safe_go rfl rfl rfl fun _ => hk
    · exact safe_go rfl rfl rfl trivial
    · exact safe_throws
  | evidence script e =>
    simp only [Run.access, List.mem_cons, List.not_mem_nil, or_false] at hy
    rcases hy with rfl | rfl
    · exact safe_stay hk
    · exact safe_throws
  | caught =>
    cases List.mem_singleton.mp hy
    refine safe_stay fun hrepeats => ?_
    refine h.unpressed (Bool.eq_false_iff.mpr fun hmarker => ?_)
    rw [hmarker] at hrepeats
    cases hrepeats
  | handBack e =>
    simp only [Run.access, List.mem_cons, List.not_mem_nil, or_false] at hy
    rcases hy with rfl | rfl
    · exact .sends hk
    · exact .ends

/-! ## What stays -/

theorem Safe.presses (hy : Safe r s y) :
    y.1.presses = s.presses ∨ (s.pressed r.toRunKey = 0 ∧ y.1.presses = r.toRunKey :: s.presses) := by
  cases hy with
  | goes hpresses => exact .inl hpresses
  | clicks hzero => exact .inr ⟨hzero, rfl⟩
  | sends => exact .inl rfl
  | ends => exact .inl rfl

theorem Safe.results (hy : Safe r s y) {p : Payload} (hp : p ∈ y.1.results) : p ∈ s.results ∨ runOf p = r.toRunKey := by
  cases hy with
  | goes _ hresults => exact .inl (hresults ▸ hp)
  | clicks => exact .inl hp
  | sends =>
    rcases List.mem_append.mp hp with hp | hp
    · exact .inr (payload_of_run (Option.mem_toList.mp hp)).1
    · exact .inl hp
  | ends => exact .inl hp

theorem Safe.older (hy : Safe r s y) {p : Payload} (hp : p ∈ s.results) : p ∈ y.1.results := by
  cases hy with
  | goes _ hresults => exact hresults ▸ hp
  | clicks => exact hp
  | sends => exact List.mem_append_right _ hp
  | ends => exact hp

/-- A run that goes on has handed nothing back. -/
theorem Safe.next (hy : Safe r s y) {p : Await} (hp : y.2 = .await p) :
    ∃ st, p = .run r st ∧ Unpressed y.1 r st ∧ y.1.results = s.results := by
  cases hy with
  | goes _ hresults _ hk =>
    cases hp
    exact ⟨_, rfl, hk, hresults⟩
  | clicks _ _ hk =>
    cases hp
    exact ⟨_, rfl, hk, rfl⟩
  | sends => cases hp
  | ends => cases hp

theorem Marked.of_eq (h : Marked s) (hpresses : s'.presses = s.presses)
    (hmarker : ∀ key, s.pressed key ≠ 0 → s'.marker key = s.marker key)
    (hresults : ∀ p ∈ s'.results, p.AsksAgain → p ∈ s.results ∨ s.pressed (runOf p) = 0) : Marked s' := by
  have hpressed := pressed_of_eq hpresses
  refine ⟨fun key => (hpressed key).le.trans (h.once key), fun key hne => ?_, fun p hp hasks => ?_⟩
  · rw [hpressed] at hne
    rw [hmarker key hne]
    exact h.marker key hne
  · rw [hpressed]
    rcases hresults p hp hasks with hold | hzero
    · exact h.results p hold hasks
    · exact hzero

/-- What has been handed back is of other runs. -/
theorem Safe.marked (hy : Safe r s y) (h : Marked s) (hsent : ∀ p ∈ s.results, runOf p ≠ r.toRunKey) : Marked y.1 := by
  cases hy with
  | goes hpresses hresults hmarker => exact h.of_eq hpresses hmarker fun p hp _ => .inl (hresults ▸ hp)
  | clicks hzero hmarker =>
    have hcount : ∀ key, Shared.pressed { s with presses := r.toRunKey :: s.presses } key =
        if key = r.toRunKey then 1 else s.pressed key := by
      intro key
      simp only [Shared.pressed, List.count_cons, beq_iff_eq]
      split
      · next heq =>
        subst heq
        rw [if_pos rfl, show s.presses.count r.toRunKey = 0 from hzero]
      · next hne => rw [if_neg (Ne.symm hne), Nat.add_zero]
    refine ⟨fun key => ?_, fun key hne => ?_, fun p hp hasks => ?_⟩
    · rw [hcount]
      split
      · exact Nat.le_refl 1
      · exact h.once key
    · rw [hcount] at hne
      split at hne
      · next heq => exact heq ▸ hmarker
      · exact h.marker key hne
    · rw [hcount, if_neg (hsent p hp)]
      exact h.results p hp hasks
  | sends he =>
    refine h.of_eq rfl (fun _ _ => rfl) fun p hp hasks => ?_
    rcases List.mem_append.mp hp with hp | hp
    · obtain ⟨hrun, hrepeats⟩ := payload_of_run (Option.mem_toList.mp hp)
      exact .inr (hrun ▸ he (hrepeats hasks))
    · exact .inl hp
  | ends => exact h

/-! ## The next boot, and what happens beside the filer -/

/-- The boot reports some of the runs it was told of, and goes by their markers. -/
structure Reported (s : Shared) (filings : List RunningFiling) (y : Shared × Next) : Prop where
  presses : y.1.presses = s.presses
  runs : y.1.runs = s.runs
  results : ∀ p ∈ y.1.results, p ∈ s.results ∨
    ((∃ f ∈ filings, f.runId = some p.runId) ∧ (p.AsksAgain → s.marker (runOf p) = false))
  older : ∀ p ∈ s.results, p ∈ y.1.results
  next : ∀ p, y.2 = .await p → ∃ dryRun rest, p = .reconcile dryRun rest ∧ ∀ f ∈ rest, f ∈ filings

theorem reported_reconcile {dryRun : Bool} {filings : List RunningFiling} (hy : y ∈ reconcile s dryRun filings) :
    Reported s filings y := by
  have hstay : ∀ {n : Next}, (∀ p, n = .await p → ∃ dryRun rest, p = .reconcile dryRun rest ∧ ∀ f ∈ rest, f ∈ filings) →
      Reported s filings (s, n) := fun hnext => ⟨rfl, rfl, fun p hp => .inl hp, fun p hp => hp, hnext⟩
  cases filings with
  | nil =>
    cases List.mem_singleton.mp hy
    exact hstay fun p hp => by cases hp
  | cons f rest =>
    have hrest : ∀ p, (InterleavedCalls.Next.await (Await.reconcile dryRun rest) : Next) = .await p →
        ∃ dryRun' rest', p = .reconcile dryRun' rest' ∧ ∀ g ∈ rest', g ∈ f :: rest := by
      intro p hp
      cases hp
      exact ⟨dryRun, rest, rfl, fun g hg => List.mem_cons_of_mem f hg⟩
    simp only [reconcile] at hy
    split at hy
    · cases List.mem_singleton.mp hy
      exact hstay hrest
    · next runId hrun =>
      have hsent : ∀ {n : Next},
          (∀ p, n = .await p → ∃ dryRun rest', p = .reconcile dryRun rest' ∧ ∀ g ∈ rest', g ∈ f :: rest) →
          Reported s (f :: rest) (s.send (Run.payload ⟨⟨f.id, runId⟩, f.attempts, none, none, dryRun⟩
            (failedEnding (s.marker ⟨f.id, runId⟩))), n) := by
        refine fun hnext => ⟨rfl, rfl, fun p hp => ?_, fun p hp => List.mem_append_right _ hp, hnext⟩
        rcases List.mem_append.mp hp with hp | hp
        · obtain ⟨hkey, hrepeats⟩ := payload_of_run (Option.mem_toList.mp hp)
          have hrunId : p.runId = runId := (RunKey.mk.inj hkey).2
          refine .inr ⟨⟨f, List.mem_cons_self, hrun.trans (congrArg some hrunId.symm)⟩, fun hasks => ?_⟩
          refine Bool.eq_false_iff.mpr fun hmarker => ?_
          have hfalse := hrepeats hasks
          rw [show (⟨f.id, runId⟩ : RunKey) = runOf p from hkey.symm, hmarker] at hfalse
          cases hfalse
        · exact .inl hp
      simp only [List.mem_cons, List.not_mem_nil, or_false] at hy
      rcases hy with rfl | rfl | rfl
      · exact hsent hrest
      · exact hsent fun p hp => by cases hp
      · exact hstay fun p hp => by cases hp

theorem Reported.marked {filings : List RunningFiling} (hy : Reported s filings y) (h : Marked s) : Marked y.1 := by
  refine h.of_eq hy.presses (fun key _ => marker_of_eq (congrFun hy.runs key)) fun p hp hasks => ?_
  rcases hy.results p hp with hold | ⟨-, hmarker⟩
  · exact .inl hold
  · exact .inr (h.unpressed (hmarker hasks))

/-- Nobody but the run's script leaves its marker. -/
theorem environment_keeps {e : Change} (he : environment s e = some s') :
    s'.presses = s.presses ∧ s'.results = s.results ∧ ∀ key, s'.marker key = s.marker key := by
  unfold environment at he
  split at he
  · cases e with
    | portals p | print line | forget host =>
      cases he
      exact ⟨rfl, rfl, fun key => rfl⟩
    | result key file =>
      cases he
      refine ⟨rfl, rfl, fun key' => ?_⟩
      by_cases hkey : key' = key
      · subst hkey
        exact marker_modifyOut key' _
      · exact marker_of_eq (runs_modifyOut_of_ne hkey _)
  · cases he

end Civfix.CityFiler
