import Civfix.CursorPages

/-! # Reports that an event is linked to

An edit of an event names the reports that it is to be linked to. Links to reports that the public does not see stay when
they are not named, and the timeline gets an entry for each link that came or went. -/
namespace Civfix.LinkedReports

open CodeUnits KeysetCursors CursorPages

/-- A row of `cleanup_reports`. -/
structure Link where
  cleanupId : Uuid
  reportId : Uuid
  linkedByUserId : Option Uuid

inductive Kind where
  | report_linked
  | report_unlinked

/-- A row of `cleanup_timeline`. -/
structure Entry where
  cleanupId : Uuid
  kind : Kind
  note : Text
  actorId : Option Uuid

inductive Failure where
  | validation (field : String) (message : Text)
  /-- The reference of `report_id` to `reports`. -/
  | foreignKey

def Link.key (l : Link) : Uuid × Uuid := (l.cleanupId, l.reportId)

/-- Rows in the order of a scan. -/
structure Db where
  reports : List Uuid
  links : List Link
  timeline : List Entry
  unique : (links.map Link.key).Nodup
  linked : ∀ l ∈ links, l.reportId ∈ reports

structure Diff where
  added : List Uuid
  removed : List Uuid

def MAX_EVENTS_PER_REPORT : ℕ := 50

def linkedReports (links : List Link) (cleanupId : Uuid) : List Uuid :=
  (links.filter fun l => l.cleanupId = cleanupId).map Link.reportId

/-! ## Rows that are written -/

/-- What an INSERT with ON CONFLICT DO NOTHING adds to the ids that are there. -/
def inserted : List Uuid → List Uuid → List Uuid
  | _, [] => []
  | there, id :: ids => if id ∈ there then inserted there ids else id :: inserted (id :: there) ids

theorem mem_inserted {there ids : List Uuid} {x : Uuid} : x ∈ inserted there ids ↔ x ∈ ids ∧ x ∉ there := by
  induction ids generalizing there with
  | nil => exact iff_of_false List.not_mem_nil fun h => List.not_mem_nil h.1
  | cons id ids ih =>
    unfold inserted
    split
    · next hthere =>
      rw [ih, List.mem_cons]
      exact and_congr_left fun hnot => (or_iff_right fun heq : x = id => hnot (heq ▸ hthere)).symm
    · next hnew =>
      rw [List.mem_cons, ih, List.mem_cons, List.mem_cons, not_or]
      by_cases heq : x = id
      · subst heq
        exact iff_of_true (.inl rfl) ⟨.inl rfl, hnew⟩
      · rw [or_iff_right heq, or_iff_right heq, and_iff_right heq]

theorem nodup_inserted (there ids : List Uuid) : (inserted there ids).Nodup := by
  induction ids generalizing there with
  | nil => exact List.nodup_nil
  | cons id ids ih =>
    unfold inserted
    split
    · exact ih there
    · refine List.nodup_cons.mpr ⟨fun hmem => ?_, ih (id :: there)⟩
      exact (mem_inserted.mp hmem).2 List.mem_cons_self

theorem mem_linkedReports {links : List Link} {cleanupId id : Uuid} :
    id ∈ linkedReports links cleanupId ↔ (cleanupId, id) ∈ links.map Link.key := by
  rw [linkedReports, List.mem_map, List.mem_map]
  refine exists_congr fun l => ?_
  rw [List.mem_filter, decide_eq_true_eq, and_assoc]
  exact and_congr_right fun _ => (Prod.mk.injEq _ _ _ _).symm.to_iff

theorem nodup_linkedReports {links : List Link} (h : (links.map Link.key).Nodup) (cleanupId : Uuid) :
    (linkedReports links cleanupId).Nodup := by
  have hpairs := List.pairwise_map.mp h
  refine List.pairwise_map.mpr ((hpairs.filter _).imp_of_mem fun hl hl' hne heq => hne ?_)
  have hl := of_decide_eq_true (List.mem_filter.mp hl).2
  have hl' := of_decide_eq_true (List.mem_filter.mp hl').2
  exact Prod.ext (hl.trans hl'.symm) heq

def newLinks (links : List Link) (cleanupId : Uuid) (ids : List Uuid) (actorId : Option Uuid) : List Link :=
  (inserted (linkedReports links cleanupId) ids).map fun id => ⟨cleanupId, id, actorId⟩

theorem unique_newLinks {links : List Link} (h : (links.map Link.key).Nodup) (cleanupId : Uuid) (ids : List Uuid)
    (actorId : Option Uuid) : ((links ++ newLinks links cleanupId ids actorId).map Link.key).Nodup := by
  have hnew : (newLinks links cleanupId ids actorId).map Link.key =
      (inserted (linkedReports links cleanupId) ids).map (Prod.mk cleanupId) := List.map_map
  rw [List.map_append, hnew]
  refine List.nodup_append'.mpr ⟨h, (nodup_inserted _ _).map fun _ _ heq => congrArg Prod.snd heq, ?_⟩
  intro key hold hmem
  obtain ⟨id, hid, rfl⟩ := List.mem_map.mp hmem
  exact (mem_inserted.mp hid).2 (mem_linkedReports.mpr hold)

/-- The links with ids that are reports. -/
def Db.link (db : Db) (cleanupId : Uuid) (ids : List Uuid) (actorId : Option Uuid)
    (h : ∀ id ∈ inserted (linkedReports db.links cleanupId) ids, id ∈ db.reports) : Db where
  reports := db.reports
  links := db.links ++ newLinks db.links cleanupId ids actorId
  timeline := db.timeline ++ (inserted (linkedReports db.links cleanupId) ids).map fun id =>
    ⟨cleanupId, .report_linked, text "Linked report " ++ id.text, actorId⟩
  unique := unique_newLinks db.unique cleanupId ids actorId
  linked l hl := by
    rcases List.mem_append.mp hl with hl | hl
    · exact db.linked l hl
    · obtain ⟨id, hid, rfl⟩ := List.mem_map.mp hl
      exact h id hid

def Db.unlink (db : Db) (cleanupId : Uuid) (ids : List Uuid) (actorId : Option Uuid) : Db where
  reports := db.reports
  links := db.links.filter fun l => !(l.cleanupId = cleanupId && l.reportId ∈ ids)
  timeline := db.timeline ++ ids.map fun id =>
    ⟨cleanupId, .report_unlinked, text "Unlinked report " ++ id.text, actorId⟩
  unique := db.unique.sublist (List.filter_sublist.map Link.key)
  linked l hl := db.linked l (List.mem_of_mem_filter hl)

/-! ## The functions of the repository -/

variable (publicReportFilter : Uuid → Bool)

def selectVisibleReportIds (db : Db) (reportIds : List Uuid) : List Uuid :=
  db.reports.filter fun id => id ∈ reportIds && publicReportFilter id

/-- The events other than this one that the report is linked to. -/
def otherEvents (db : Db) (cleanupId id : Uuid) : ℕ :=
  (db.links.filter fun l => l.reportId = id && l.cleanupId ≠ cleanupId).length

def overCap (db : Db) (cleanupId : Uuid) (reportIds : List Uuid) : List Uuid :=
  (db.links.map Link.reportId).dedup.filter fun id =>
    id ∈ reportIds && MAX_EVENTS_PER_REPORT ≤ otherEvents db cleanupId id

def linkReportsInTx (db : Db) (cleanupId : Uuid) (reportIds : List Uuid) (actorId : Option Uuid) :
    Except Failure (Db × List Uuid) :=
  if reportIds = [] then .ok (db, [])
  else if overCap db cleanupId reportIds ≠ [] then
    .error (.validation "linkedReportIds" (text "already linked to the maximum number of events: " ++
      (text ", ").intercalate ((overCap db cleanupId reportIds).map Uuid.text)))
  else if h : ∀ id ∈ inserted (linkedReports db.links cleanupId) reportIds, id ∈ db.reports then
    .ok (db.link cleanupId reportIds actorId h, inserted (linkedReports db.links cleanupId) reportIds)
  else .error .foreignKey

def toRemove (db : Db) (cleanupId : Uuid) (desiredIds : List Uuid) : List Uuid :=
  let droppable := (linkedReports db.links cleanupId).filter fun id => id ∉ desiredIds
  droppable.filter fun id => id ∈ selectVisibleReportIds publicReportFilter db droppable

/-- The links that go are chosen before links are added. -/
def reconcileLinkedReportsInTx (db : Db) (cleanupId : Uuid) (desiredIds : List Uuid) (actorId : Option Uuid) :
    Except Failure (Db × Diff) :=
  let toAdd := desiredIds.filter fun id => id ∉ linkedReports db.links cleanupId
  let toRemove := toRemove publicReportFilter db cleanupId desiredIds
  match linkReportsInTx db cleanupId toAdd actorId with
  | .error failure => .error failure
  | .ok (linked, added) =>
    if toRemove = [] then .ok (linked, ⟨added, toRemove⟩)
    else .ok (linked.unlink cleanupId toRemove actorId, ⟨added, toRemove⟩)

/-! ## What an edit leaves -/

variable {publicReportFilter} {db : Db} {cleanupId id : Uuid} {ids desiredIds : List Uuid} {actorId : Option Uuid}

theorem linkedReports_link (h : ∀ id ∈ inserted (linkedReports db.links cleanupId) ids, id ∈ db.reports) :
    linkedReports (db.link cleanupId ids actorId h).links cleanupId =
      linkedReports db.links cleanupId ++ inserted (linkedReports db.links cleanupId) ids := by
  have hall : (newLinks db.links cleanupId ids actorId).filter (fun l => l.cleanupId = cleanupId) =
      newLinks db.links cleanupId ids actorId := List.filter_eq_self.mpr fun l hl => by
    obtain ⟨x, -, rfl⟩ := List.mem_map.mp hl
    exact decide_eq_true rfl
  have hids : (newLinks db.links cleanupId ids actorId).map Link.reportId =
      inserted (linkedReports db.links cleanupId) ids := by
    rw [newLinks, List.map_map]
    exact List.map_id _
  rw [linkedReports, Db.link, List.filter_append, List.map_append, hall, hids, linkedReports]

theorem elsewhere_link (h : ∀ id ∈ inserted (linkedReports db.links cleanupId) ids, id ∈ db.reports) :
    (db.link cleanupId ids actorId h).links.filter (fun l => l.cleanupId ≠ cleanupId) =
      db.links.filter fun l => l.cleanupId ≠ cleanupId := by
  have hnone : (newLinks db.links cleanupId ids actorId).filter (fun l => l.cleanupId ≠ cleanupId) = [] :=
    List.filter_eq_nil_iff.mpr fun l hl => by
      obtain ⟨x, -, rfl⟩ := List.mem_map.mp hl
      exact fun hne => of_decide_eq_true hne rfl
  rw [Db.link, List.filter_append, hnone, List.append_nil]

theorem linkedReports_unlink :
    linkedReports (db.unlink cleanupId ids actorId).links cleanupId =
      (linkedReports db.links cleanupId).filter fun id => id ∉ ids := by
  rw [linkedReports, Db.unlink, List.filter_filter, linkedReports, List.filter_map, List.filter_filter]
  refine congrArg _ (List.filter_congr fun l _ => ?_)
  by_cases heq : l.cleanupId = cleanupId
  · simp only [heq, decide_true, Bool.true_and, Bool.and_true, Function.comp_apply, decide_not]
  · simp only [heq, decide_false, Bool.false_and, Bool.and_false]

theorem elsewhere_unlink :
    (db.unlink cleanupId ids actorId).links.filter (fun l => l.cleanupId ≠ cleanupId) =
      db.links.filter fun l => l.cleanupId ≠ cleanupId := by
  rw [Db.unlink, List.filter_filter]
  refine List.filter_congr fun l _ => ?_
  by_cases heq : l.cleanupId = cleanupId
  · simp only [heq, ne_eq, not_true_eq_false, decide_false, Bool.false_and]
  · simp only [heq, ne_eq, not_false_eq_true, decide_true, decide_false, Bool.false_and, Bool.not_false, Bool.and_true]

theorem unlink_nil : db.unlink cleanupId [] actorId = db := by
  have hlinks : (db.links.filter fun l => !(l.cleanupId = cleanupId && l.reportId ∈ ([] : List Uuid))) = db.links :=
    List.filter_eq_self.mpr fun l _ => by simp only [List.not_mem_nil, decide_false, Bool.and_false, Bool.not_false]
  unfold Db.unlink
  cases db
  simp only [List.map_nil, List.append_nil, Db.mk.injEq, true_and, and_true]
  exact hlinks

theorem mem_toRemove : id ∈ toRemove publicReportFilter db cleanupId desiredIds ↔
    id ∈ linkedReports db.links cleanupId ∧ id ∉ desiredIds ∧ publicReportFilter id = true := by
  simp only [toRemove, selectVisibleReportIds, List.mem_filter, decide_eq_true_eq, Bool.and_eq_true]
  refine ⟨fun h => ⟨h.1.1, h.1.2, h.2.2.2⟩, fun ⟨hlinked, hnot, hshown⟩ => ⟨⟨hlinked, hnot⟩, ?_, ⟨hlinked, hnot⟩,
    hshown⟩⟩
  obtain ⟨l, hl, hkey⟩ := List.mem_map.mp (mem_linkedReports.mp hlinked)
  have hreport : l.reportId = id := congrArg Prod.snd hkey
  exact hreport ▸ db.linked l hl

theorem nodup_toRemove : (toRemove publicReportFilter db cleanupId desiredIds).Nodup :=
  ((nodup_linkedReports db.unique cleanupId).filter _).filter _

/-- Ids that were filtered for those that are not linked are inserted as the whole list is. -/
theorem inserted_filter (there ids : List Uuid) :
    inserted there (ids.filter fun id => id ∉ there) = inserted there ids := by
  suffices h : ∀ seen : List Uuid, there ⊆ seen →
      inserted seen (ids.filter fun id => id ∉ there) = inserted seen ids from h there fun _ hx => hx
  induction ids with
  | nil => exact fun _ _ => rfl
  | cons id ids ih =>
    intro seen hseen
    by_cases hthere : id ∈ there
    · have hskip : ¬decide (id ∉ there) = true := fun h => of_decide_eq_true h hthere
      rw [List.filter_cons, if_neg hskip, ih seen hseen, inserted, if_pos (hseen hthere)]
    · have htake : decide (id ∉ there) = true := decide_eq_true hthere
      rw [List.filter_cons, if_pos htake, inserted, inserted, ih seen hseen,
        ih (id :: seen) fun _ hx => List.mem_cons_of_mem _ (hseen hx)]

theorem overCap_eq_nil : overCap db cleanupId ids = [] ↔
    ∀ id ∈ ids, otherEvents db cleanupId id < MAX_EVENTS_PER_REPORT := by
  rw [overCap, List.filter_eq_nil_iff]
  constructor
  · intro h id hid
    by_contra hcap
    have hmany : 0 < otherEvents db cleanupId id := Nat.lt_of_lt_of_le (by decide) (Nat.not_lt.mp hcap)
    obtain ⟨l, hl⟩ := List.exists_mem_of_length_pos hmany
    obtain ⟨hl, hboth⟩ := List.mem_filter.mp hl
    have hreport : l.reportId = id := of_decide_eq_true (Bool.and_eq_true_iff.mp hboth).1
    refine h id (List.mem_dedup.mpr (List.mem_map.mpr ⟨l, hl, hreport⟩)) ?_
    exact Bool.and_eq_true_iff.mpr ⟨decide_eq_true hid, decide_eq_true (Nat.not_lt.mp hcap)⟩
  · intro h id _ hboth
    obtain ⟨hid, hcap⟩ := Bool.and_eq_true_iff.mp hboth
    exact absurd (h id (of_decide_eq_true hid)) (Nat.not_lt.mpr (of_decide_eq_true hcap))

/-- Every report can be linked that is not linked yet. -/
def Linkable (db : Db) (cleanupId : Uuid) (desiredIds : List Uuid) : Prop :=
  ∀ id ∈ desiredIds, id ∈ linkedReports db.links cleanupId ∨
    (id ∈ db.reports ∧ otherEvents db cleanupId id < MAX_EVENTS_PER_REPORT)

variable (actorId) in
theorem link_congr {ids' : List Uuid}
    (heq : inserted (linkedReports db.links cleanupId) ids = inserted (linkedReports db.links cleanupId) ids')
    (h : ∀ id ∈ inserted (linkedReports db.links cleanupId) ids, id ∈ db.reports)
    (h' : ∀ id ∈ inserted (linkedReports db.links cleanupId) ids', id ∈ db.reports) :
    db.link cleanupId ids actorId h = db.link cleanupId ids' actorId h' := by
  simp only [Db.link, newLinks, heq]

theorem link_of_inserted_nil (hnil : inserted (linkedReports db.links cleanupId) ids = [])
    (h : ∀ id ∈ inserted (linkedReports db.links cleanupId) ids, id ∈ db.reports) :
    db.link cleanupId ids actorId h = db := by
  cases db
  simp only [Db.link, newLinks, hnil, List.map_nil, List.append_nil]

variable (db cleanupId actorId ids) in
theorem linkReportsInTx_eq_ok (r : Db × List Uuid) : linkReportsInTx db cleanupId ids actorId = .ok r ↔
    (∀ id ∈ ids, otherEvents db cleanupId id < MAX_EVENTS_PER_REPORT) ∧
      ∃ h : ∀ id ∈ inserted (linkedReports db.links cleanupId) ids, id ∈ db.reports,
        (db.link cleanupId ids actorId h, inserted (linkedReports db.links cleanupId) ids) = r := by
  unfold linkReportsInTx
  split
  · next hnil =>
    subst hnil
    rw [Except.ok.injEq, and_iff_right fun id hid => absurd hid List.not_mem_nil]
    constructor
    · rintro rfl
      exact ⟨fun id hid => absurd hid List.not_mem_nil, congrArg (·, _) (link_of_inserted_nil rfl _)⟩
    · rintro ⟨h, rfl⟩
      exact congrArg (·, _) (link_of_inserted_nil rfl _).symm
  · split
    · next hover => exact iff_of_false (fun h => by cases h) fun h => hover (overCap_eq_nil.mpr h.1)
    · next hover =>
      rw [and_iff_right (overCap_eq_nil.mp (not_not.mp hover))]
      split
      · next h => exact ⟨fun heq => ⟨h, Except.ok.inj heq⟩, fun ⟨_, heq⟩ => congrArg _ heq⟩
      · next h => exact iff_of_false (fun heq => by cases heq) fun ⟨h', _⟩ => h h'

/-- What is linked and unlinked when nothing is refused. -/
theorem reconcile_eq_ok {r : Db × Diff} :
    reconcileLinkedReportsInTx publicReportFilter db cleanupId desiredIds actorId = .ok r ↔
      (∀ id ∈ desiredIds, id ∉ linkedReports db.links cleanupId →
        otherEvents db cleanupId id < MAX_EVENTS_PER_REPORT) ∧
      ∃ h : ∀ id ∈ inserted (linkedReports db.links cleanupId) desiredIds, id ∈ db.reports,
        ((db.link cleanupId desiredIds actorId h).unlink cleanupId
          (toRemove publicReportFilter db cleanupId desiredIds) actorId,
          ⟨inserted (linkedReports db.links cleanupId) desiredIds,
            toRemove publicReportFilter db cleanupId desiredIds⟩) = r := by
  have hadd := inserted_filter (linkedReports db.links cleanupId) desiredIds
  have hcap : (∀ id ∈ desiredIds.filter fun id => id ∉ linkedReports db.links cleanupId,
        otherEvents db cleanupId id < MAX_EVENTS_PER_REPORT) ↔
      ∀ id ∈ desiredIds, id ∉ linkedReports db.links cleanupId →
        otherEvents db cleanupId id < MAX_EVENTS_PER_REPORT := by
    simp only [List.mem_filter, decide_eq_true_eq, and_imp]
  have hlink := linkReportsInTx_eq_ok db cleanupId (desiredIds.filter fun id => id ∉ linkedReports db.links cleanupId) actorId
  unfold reconcileLinkedReportsInTx
  dsimp only
  cases hres : linkReportsInTx db cleanupId (desiredIds.filter fun id => id ∉ linkedReports db.links cleanupId) actorId with
  | error failure =>
    refine iff_of_false (fun h => by cases h) fun ⟨hlow, h, _⟩ => ?_
    have hok := (hlink _).mpr ⟨hcap.mpr hlow, hadd ▸ h, rfl⟩
    rw [hres] at hok
    cases hok
  | ok linked =>
    obtain ⟨hlow, h, rfl⟩ := (hlink linked).mp hres
    have h' : ∀ id ∈ inserted (linkedReports db.links cleanupId) desiredIds, id ∈ db.reports := hadd ▸ h
    have hsame := link_congr actorId hadd h h'
    rw [and_iff_right (hcap.mp hlow)]
    rw [hsame, hadd]
    dsimp only
    constructor
    · intro hr
      refine ⟨h', ?_⟩
      split at hr
      · next hnil => rw [← Except.ok.inj hr, hnil, unlink_nil]
      · exact Except.ok.inj hr
    · rintro ⟨_, rfl⟩
      split
      · next hnil => rw [hnil, unlink_nil]
      · rfl

/-! ## Reconciling -/

variable (publicReportFilter) in
/-- The event ends with the named links and those that the public does not see; the timeline gets an entry for each link
that came or went, in no other event anything changes, and the same edit made again changes nothing. -/
structure Reconciled (db : Db) (cleanupId : Uuid) (desiredIds : List Uuid) (actorId : Option Uuid) (db' : Db)
    (diff : Diff) : Prop where
  links : ∀ id, id ∈ linkedReports db'.links cleanupId ↔
    id ∈ desiredIds ∨ (id ∈ linkedReports db.links cleanupId ∧ publicReportFilter id = false)
  elsewhere : db'.links.filter (fun l => l.cleanupId ≠ cleanupId) = db.links.filter fun l => l.cleanupId ≠ cleanupId
  timeline : db'.timeline = db.timeline ++
    (diff.added.map fun id => ⟨cleanupId, .report_linked, text "Linked report " ++ id.text, actorId⟩) ++
    diff.removed.map fun id => ⟨cleanupId, .report_unlinked, text "Unlinked report " ++ id.text, actorId⟩
  once : diff.added.Nodup ∧ diff.removed.Nodup
  added : ∀ id, id ∈ diff.added ↔
    id ∈ linkedReports db'.links cleanupId ∧ id ∉ linkedReports db.links cleanupId
  removed : ∀ id, id ∈ diff.removed ↔
    id ∈ linkedReports db.links cleanupId ∧ id ∉ linkedReports db'.links cleanupId
  again : ∀ actorId', reconcileLinkedReportsInTx publicReportFilter db' cleanupId desiredIds actorId' =
    .ok (db', ⟨[], []⟩)

theorem inserted_eq_nil {there : List Uuid} (h : ids ⊆ there) : inserted there ids = [] := by
  refine List.eq_nil_iff_forall_not_mem.mpr fun x hx => ?_
  obtain ⟨hmem, hnot⟩ := mem_inserted.mp hx
  exact hnot (h hmem)

/-- An edit that names what is linked, and drops no link that the public sees, changes nothing. -/
theorem reconcile_settled (hnamed : desiredIds ⊆ linkedReports db.links cleanupId)
    (hshown : ∀ id ∈ linkedReports db.links cleanupId, id ∉ desiredIds → publicReportFilter id = false) :
    reconcileLinkedReportsInTx publicReportFilter db cleanupId desiredIds actorId = .ok (db, ⟨[], []⟩) := by
  have hnone := inserted_eq_nil hnamed
  have hkept : toRemove publicReportFilter db cleanupId desiredIds = [] :=
    List.eq_nil_iff_forall_not_mem.mpr fun id hid => by
      obtain ⟨hlinked, hnot, hseen⟩ := mem_toRemove.mp hid
      rw [hshown id hlinked hnot] at hseen
      cases hseen
  refine reconcile_eq_ok.mpr ⟨fun id hid hnot => absurd (hnamed hid) hnot, ?_⟩
  have hreports : ∀ id ∈ inserted (linkedReports db.links cleanupId) desiredIds, id ∈ db.reports := fun id hid => by
    rw [hnone] at hid
    cases hid
  exact ⟨hreports, by rw [hkept, hnone, link_of_inserted_nil hnone, unlink_nil]⟩

variable (publicReportFilter actorId id) in
/-- The links that an edit leaves: those that were dropped are not among the named. -/
theorem mem_links_after (h : ∀ id ∈ inserted (linkedReports db.links cleanupId) desiredIds, id ∈ db.reports) :
    id ∈ linkedReports ((db.link cleanupId desiredIds actorId h).unlink cleanupId
        (toRemove publicReportFilter db cleanupId desiredIds) actorId).links cleanupId ↔
      id ∈ desiredIds ∨ (id ∈ linkedReports db.links cleanupId ∧ publicReportFilter id = false) := by
  rw [linkedReports_unlink, linkedReports_link, List.mem_filter, List.mem_append, mem_inserted, decide_eq_true_eq,
    mem_toRemove]
  by_cases hlinked : id ∈ linkedReports db.links cleanupId
  · by_cases hnamed : id ∈ desiredIds
    · simp only [hlinked, hnamed, true_or, not_true_eq_false, false_and, and_false, not_false_eq_true, and_self]
    · simp only [hlinked, hnamed, true_or, not_false_eq_true, true_and, false_or, Bool.not_eq_true]
  · simp only [hlinked, false_or, not_false_eq_true, and_true, false_and, or_false]

/-- An edit is refused when a report that is not linked yet is missing or is linked to too many other events, and
otherwise reconciles the links. -/
theorem reconcile_exact (publicReportFilter : Uuid → Bool) (db : Db) (cleanupId : Uuid) (desiredIds : List Uuid)
    (actorId : Option Uuid) :
    ((∃ r, reconcileLinkedReportsInTx publicReportFilter db cleanupId desiredIds actorId = .ok r) ↔
      Linkable db cleanupId desiredIds) ∧
    ∀ db' diff, reconcileLinkedReportsInTx publicReportFilter db cleanupId desiredIds actorId = .ok (db', diff) →
      Reconciled publicReportFilter db cleanupId desiredIds actorId db' diff := by
  constructor
  · constructor
    · rintro ⟨r, hr⟩ id hid
      obtain ⟨hlow, h, -⟩ := reconcile_eq_ok.mp hr
      by_cases hlinked : id ∈ linkedReports db.links cleanupId
      · exact .inl hlinked
      · exact .inr ⟨h id (mem_inserted.mpr ⟨hid, hlinked⟩), hlow id hid hlinked⟩
    · intro h
      refine ⟨_, reconcile_eq_ok.mpr ⟨fun id hid hnot => ((h id hid).resolve_left hnot).2, fun id hid => ?_, rfl⟩⟩
      obtain ⟨hnamed, hnot⟩ := mem_inserted.mp hid
      exact ((h id hnamed).resolve_left hnot).1
  · intro db' diff hr
    obtain ⟨-, h, heq⟩ := reconcile_eq_ok.mp hr
    obtain ⟨rfl, rfl⟩ := Prod.mk.injEq _ _ _ _ ▸ heq
    have hafter := fun id => mem_links_after publicReportFilter id actorId h
    exact {
      links := hafter
      elsewhere := elsewhere_unlink.trans (elsewhere_link h)
      timeline := rfl
      once := ⟨nodup_inserted _ _, nodup_toRemove⟩
      added := fun id => by
        rw [mem_inserted, hafter]
        refine and_congr_left fun hnot => (or_iff_left fun hlinked => hnot hlinked.1).symm
      removed := fun id => by
        rw [mem_toRemove, hafter, not_or]
        refine and_congr_right fun hlinked => and_congr_right fun _ => ?_
        rw [and_iff_right hlinked, Bool.not_eq_false]
      again := fun actorId' => reconcile_settled (fun id hid => (hafter id).mpr (.inl hid)) fun id hid hnot =>
        (((hafter id).mp hid).resolve_left hnot).2 }

/-! ## A report of many events -/

/-- Fifty events. -/
def numbered (n : Fin 50) : Uuid where
  text := padStart 8 48 (decimal n) ++ MIN_UUID.drop 8
  isUuid := by decide +revert +kernel
  lower := by decide +revert +kernel

def litter : Uuid := ⟨MAX_UUID, isUuid_maxUuid, lower_maxUuid⟩

def newEvent : Uuid := ⟨MAX_UUID.take 35 ++ [48], by decide, by decide⟩

/-- The report is linked to fifty events. -/
def fiftyEvents : Db where
  reports := [litter]
  links := (List.finRange 50).map fun n => ⟨numbered n, litter, none⟩
  timeline := []
  unique := by decide +kernel
  linked l hl := by
    obtain ⟨n, -, rfl⟩ := List.mem_map.mp hl
    exact List.mem_singleton_self litter

theorem fiftyFirst_refused : ¬∃ db' diff, reconcileLinkedReportsInTx
    (fun _ => true) fiftyEvents newEvent [litter] none =
    .ok (db', diff) ∧ Reconciled (fun _ => true) fiftyEvents newEvent [litter] none db' diff := by
  rintro ⟨db', diff, hok, -⟩
  have hlow := (reconcile_eq_ok.mp hok).1 litter (List.mem_singleton_self litter) (by decide +kernel)
  have hfifty : otherEvents fiftyEvents newEvent litter = 50 := by decide +kernel
  rw [hfifty] at hlow
  exact absurd hlow (by decide)

end Civfix.LinkedReports
