import Civfix.FilingRepository
import Civfix.LockedTransactions

/-! # Tables, writes and locks of the city updates

The rows that a city update and the changes beside it read and write: the messages linked to a
filing, the filings, the reports and their public timeline. A statement that updates a row takes
the row's lock, and one that makes a filing active takes the report's entry of
`report_filings_active_report_key`. No statement adds or removes a report here, so a view has the
reports of the committed state. -/
namespace Civfix.CityUpdates

open KeyedTables LockedTransactions Filings

/-- `kind` of `report_timeline`. -/
inductive EntryKind | submit | route | reply | status | done | remove deriving DecidableEq

/-- A row of `report_timeline`; the table is kept in insertion order. -/
structure Entry where
  reportId : ReportId
  status : ReportStatus
  note : String
  kind : Option EntryKind
  actorId : Option UserId
  deriving DecidableEq

structure Db where
  messages : Table Message.id
  filings : Table Filing.id
  reports : Table Report.id
  timeline : List Entry

/-- What a statement sets on a message. -/
inductive MessageUpdate where
  | claim (c : Option Classification)
  | flag

def MessageUpdate.apply (now : Instant) : MessageUpdate → Message → Message
  | .claim c, m => { m with appliedAt := some now, classification := c, summary := c.map (·.summary) }
  | .flag, m => { m with flagged := true }

/-- What a statement sets on a filing. -/
inductive FilingUpdate where
  | set (x : FilingSet)
  | claim (attempt : ℕ) (run : RunId)
  | received (caseId : String)
  | closedByCity
  | askedByCity (detail : String)

def FilingUpdate.apply (now : Instant) : FilingUpdate → Filing → Filing
  | .set x, f => x.apply now f
  | .claim n run, f => { f with status := .running, attempts := n, runId := some run, updatedAt := now }
  | .received caseId, f => f.received now caseId
  | .closedByCity, f => f.closedByCity now
  | .askedByCity detail, f => f.askedByCity now detail

/-- The new row has an active status, so it is filed in the active index. -/
def FilingUpdate.activates : FilingUpdate → Bool
  | .set x => x.status.any Status.active
  | .claim _ _ | .askedByCity _ => true
  | .received _ | .closedByCity => false

/-- What a statement sets on a report. A removed report keeps the time of its first removal. -/
inductive ReportUpdate where
  | status (st : ReportStatus)
  | reject
  | verdict (v : Verdict)

def ReportUpdate.apply (now : Instant) : ReportUpdate → Report → Report
  | .status st, r => { r with status := st }
  | .reject, r => { r with status := .rejected, deletedAt := some (r.deletedAt.getD now) }
  | .verdict v, r => { r with verificationVerdict := some v }

inductive Write where
  | insertMessage (m : Message)
  | updateMessage (id : MessageId) (now : Instant) (u : MessageUpdate)
  | insertFiling (f : Filing)
  | updateFiling (id : FilingId) (report : ReportId) (now : Instant) (u : FilingUpdate)
  | updateReport (id : ReportId) (now : Instant) (u : ReportUpdate)
  | appendTimeline (e : Entry)

/-- The columns that no statement rewrites. -/
def SameReport (f f' : Filing) : Prop := f'.id = f.id ∧ f'.reportId = f.reportId

/-- A message stays with its filing, and once it is applied or flagged it stays so. -/
structure Follows (m m' : Message) : Prop where
  id : m'.id = m.id
  filingId : m'.filingId = m.filingId
  trusted : m'.trusted = m.trusted
  applied : m.appliedAt.isSome → m'.appliedAt.isSome
  flagged : m.flagged → m'.flagged

/-- An active filing of the report, as the active index files it. -/
def ActiveOf (r : ReportId) (f : Filing) : Prop := f.reportId = r ∧ f.status.active

instance (r : ReportId) (f : Filing) : Decidable (ActiveOf r f) := inferInstanceAs (Decidable (_ ∧ _))

/-- A rewrite that reaches the row only when it is of the given report. -/
def guarded (r : ReportId) (g : Filing → Filing) (f : Filing) : Filing := if f.reportId = r then g f else f

theorem SameReport.refl (f : Filing) : SameReport f f := ⟨rfl, rfl⟩

theorem SameReport.trans {f g h : Filing} (x : SameReport f g) (y : SameReport g h) : SameReport f h :=
  ⟨y.1.trans x.1, y.2.trans x.2⟩

theorem Follows.refl (m : Message) : Follows m m := ⟨rfl, rfl, rfl, fun h => h, fun h => h⟩

theorem Follows.trans {l m n : Message} (x : Follows l m) (y : Follows m n) : Follows l n :=
  ⟨y.1.trans x.1, y.2.trans x.2, y.3.trans x.3, fun h => y.4 (x.4 h), fun h => y.5 (x.5 h)⟩

theorem MessageUpdate.follows (u : MessageUpdate) (now : Instant) (m : Message) : Follows m (u.apply now m) := by
  cases u with
  | claim c => exact ⟨rfl, rfl, rfl, fun _ => rfl, fun h => h⟩
  | flag => exact ⟨rfl, rfl, rfl, fun h => h, fun _ => rfl⟩

theorem MessageUpdate.follows_both (u : MessageUpdate) (now : Instant) {m m' : Message} (h : Follows m m') :
    Follows (u.apply now m) (u.apply now m') := by
  cases u with
  | claim c => exact ⟨h.1, h.2, h.3, fun _ => rfl, h.5⟩
  | flag => exact ⟨h.1, h.2, h.3, h.4, fun _ => rfl⟩

theorem FilingUpdate.sameReport (u : FilingUpdate) (now : Instant) (f : Filing) : SameReport f (u.apply now f) := by
  cases u <;> exact ⟨rfl, rfl⟩

theorem guarded_sameReport (r : ReportId) (u : FilingUpdate) (now : Instant) (f : Filing) :
    SameReport f (guarded r (u.apply now) f) := by
  unfold guarded
  split
  · exact u.sameReport now f
  · exact .refl f

theorem guarded_id (r : ReportId) (u : FilingUpdate) (now : Instant) (f : Filing) :
    (guarded r (u.apply now) f).id = f.id := (guarded_sameReport r u now f).1

theorem ReportUpdate.apply_id (u : ReportUpdate) (now : Instant) (r : Report) : (u.apply now r).id = r.id := by
  cases u <;> rfl

/-- A filing becomes active only by an update that says so. -/
theorem FilingUpdate.active_of_apply {u : FilingUpdate} (hu : u.activates = false) (now : Instant) {f : Filing}
    (h : (u.apply now f).status.active = true) : f.status.active = true := by
  cases u with
  | set x =>
    cases hx : x.status with
    | none => simpa [FilingUpdate.apply, FilingSet.apply, hx] using h
    | some st =>
      simp only [activates, hx, Option.any_some] at hu
      simp only [FilingUpdate.apply, FilingSet.apply, hx, Option.getD_some, hu] at h
      exact absurd h (by decide)
  | received caseId => exact h
  | closedByCity => exact h
  | claim n run => cases hu
  | askedByCity detail => cases hu

namespace Db

variable (s : Db)

def apply : Write → Db
  | .insertMessage m => { s with messages := s.messages.insert m }
  | .updateMessage id now u => { s with messages := s.messages.modify id (u.apply now) (fun m => (u.follows now m).id) }
  | .insertFiling f => { s with filings := s.filings.insert f }
  | .updateFiling id r now u => { s with filings := s.filings.modify id (guarded r (u.apply now)) (guarded_id r u now) }
  | .updateReport id now u => { s with reports := s.reports.modify id (u.apply now) (u.apply_id now) }
  | .appendTimeline e => { s with timeline := s.timeline ++ [e] }

end Db

/-! ## Locks -/

/-- `active` is the entry of a report in the index of active filings. -/
inductive Lock where
  | message (id : MessageId)
  | filing (id : FilingId)
  | report (id : ReportId)
  | active (id : ReportId)

def Write.needs : Write → List Lock
  | .insertMessage m => [.message m.id]
  | .updateMessage id _ _ => [.message id]
  | .insertFiling f => .filing f.id :: if f.status.active then [.active f.reportId] else []
  | .updateFiling id r _ u => .filing id :: if u.activates then [.active r] else []
  | .updateReport id _ _ => [.report id]
  | .appendTimeline _ => []

/-- What a lock keeps of the state `a` in which it was taken, at a later state `b`. -/
def Lock.Protects (a b : Db) : Lock → Prop
  | .message id => a.messages.find? id = b.messages.find? id
  | .filing id => a.filings.find? id = b.filings.find? id
  | .report id => a.reports.find? id = b.reports.find? id
  | .active r => Table.NoNew (ActiveOf r) a.filings b.filings

/-- What every committed write respects, whatever it locks. -/
structure Db.Evolves (a b : Db) : Prop where
  messages : ∀ id, Table.PersistAt Follows id a.messages b.messages
  filings : ∀ id, Table.PersistAt SameReport id a.filings b.filings
  reports : ∀ id, (a.reports.find? id).isSome = (b.reports.find? id).isSome

namespace Db

variable {a b : Db} {w : Write}

theorem Evolves.refl (a : Db) : Evolves a a := ⟨fun _ => .refl .refl _ _, fun _ => .refl .refl _ _, fun _ => rfl⟩

theorem Evolves.trans {a b c : Db} (h : Evolves a b) (h' : Evolves b c) : Evolves a c :=
  ⟨fun id => (h.messages id).trans .trans (h'.messages id), fun id => (h.filings id).trans .trans (h'.filings id),
    fun id => (h.reports id).trans (h'.reports id)⟩

theorem evolves_write (s : Db) (w : Write) : Evolves s (s.apply w) := by
  refine ⟨fun id => ?_, fun id => ?_, fun id => ?_⟩
  · cases w with
    | insertMessage m => exact .insert .refl id _ m
    | updateMessage x now u => exact .modify .refl id _ x _ (fun m => (u.follows now m).id) (u.follows now)
    | insertFiling | updateFiling | updateReport | appendTimeline => exact .refl .refl id _
  · cases w with
    | insertFiling f => exact .insert .refl id _ f
    | updateFiling x r now u => exact .modify .refl id _ x _ (guarded_id r u now) (guarded_sameReport r u now)
    | insertMessage | updateMessage | updateReport | appendTimeline => exact .refl .refl id _
  · cases w with
    | updateReport x now u =>
      simp only [apply, Table.find?_modify]
      split <;> simp
    | insertMessage | updateMessage | insertFiling | updateFiling | appendTimeline => rfl

theorem evolves_apply (hn : ∀ n ∈ w.needs, n.Protects a b) (h : Evolves a b) : Evolves (a.apply w) (b.apply w) := by
  refine ⟨fun id => ?_, fun id => ?_, fun id => ?_⟩
  · cases w with
    | insertMessage m => exact (h.messages id).insert_both .refl m (hn (.message m.id) (by simp [Write.needs]))
    | updateMessage x now u =>
      exact (h.messages id).modify_both x _ (fun m => (u.follows now m).id) (fun _ _ hm => u.follows_both now hm)
    | insertFiling | updateFiling | updateReport | appendTimeline => exact h.messages id
  · cases w with
    | insertFiling f => exact (h.filings id).insert_both .refl f (hn (.filing f.id) (by simp [Write.needs]))
    | updateFiling x r now u =>
      refine (h.filings id).modify_both x _ (guarded_id r u now) (fun f f' hf => ?_)
      have h1 := guarded_sameReport r u now f
      have h2 := guarded_sameReport r u now f'
      exact ⟨by rw [h2.1, h1.1, hf.1], by rw [h2.2, h1.2, hf.2]⟩
    | insertMessage | updateMessage | updateReport | appendTimeline => exact h.filings id
  · cases w with
    | updateReport x now u =>
      simp only [apply, Table.find?_modify]
      split
      · simpa using h.reports id
      · exact h.reports id
    | insertMessage | updateMessage | insertFiling | updateFiling | appendTimeline => exact h.reports id

theorem protects_apply (hn : ∀ n ∈ w.needs, n.Protects a b) {l : Lock} (h : l.Protects a b) :
    l.Protects (a.apply w) (b.apply w) := by
  cases l with
  | message id =>
    simp only [Lock.Protects] at h ⊢
    cases w with
    | insertMessage m => simp only [apply, Table.find?_insert, h]
    | updateMessage x now u => simp only [apply, Table.find?_modify, h]
    | insertFiling | updateFiling | updateReport | appendTimeline => exact h
  | filing id =>
    simp only [Lock.Protects] at h ⊢
    cases w with
    | insertFiling f => simp only [apply, Table.find?_insert, h]
    | updateFiling x r now u => simp only [apply, Table.find?_modify, h]
    | insertMessage | updateMessage | updateReport | appendTimeline => exact h
  | report id =>
    simp only [Lock.Protects] at h ⊢
    cases w with
    | updateReport x now u => simp only [apply, Table.find?_modify, h]
    | insertMessage | updateMessage | insertFiling | updateFiling | appendTimeline => exact h
  | active r =>
    simp only [Lock.Protects] at h ⊢
    cases w with
    | insertFiling f => exact h.insert_both f (hn (.filing f.id) (by simp [Write.needs]))
    | updateFiling x r' now u => exact h.modify_both x _ (guarded_id r' u now) (hn (.filing x) (by simp [Write.needs]))
    | insertMessage | updateMessage | updateReport | appendTimeline => exact h

/-- An update of another report's filing, or one that makes nothing active, adds no active filing. -/
theorem noNew_updateFiling (s : Db) {r r' : ReportId} {u : FilingUpdate} (id : FilingId) (now : Instant)
    (h : u.activates = true → r' ≠ r) : Table.NoNew (ActiveOf r) s.filings
    (s.apply (.updateFiling id r' now u)).filings := by
  refine .modify _ id _ (guarded_id r' u now) ?_
  intro f _ hact
  by_cases hf : f.reportId = r'
  · rw [guarded, if_pos hf, ActiveOf, (u.sameReport now f).2] at hact
    cases hu : u.activates with
    | true => exact absurd (hf.symm.trans hact.1) (h hu)
    | false => exact ⟨hact.1, FilingUpdate.active_of_apply hu now hact.2⟩
  · rwa [guarded, if_neg hf] at hact

theorem protects_write {l : Lock} (s : Db) (w : Write) (hw : ∀ n ∈ w.needs, ¬ n = l) : l.Protects s (s.apply w) := by
  cases l with
  | message id =>
    cases w with
    | insertMessage m =>
      have hne : ¬ id = m.id := fun he => hw (.message m.id) (by simp [Write.needs]) (by rw [he])
      simp only [Lock.Protects, apply, Table.find?_insert, if_neg hne]
    | updateMessage x now u =>
      have hne : ¬ id = x := fun he => hw (.message x) (by simp [Write.needs]) (by rw [he])
      simp only [Lock.Protects, apply, Table.find?_modify, if_neg hne]
    | insertFiling | updateFiling | updateReport | appendTimeline => rfl
  | filing id =>
    cases w with
    | insertFiling f =>
      have hne : ¬ id = f.id := fun he => hw (.filing f.id) (by simp [Write.needs]) (by rw [he])
      simp only [Lock.Protects, apply, Table.find?_insert, if_neg hne]
    | updateFiling x r now u =>
      have hne : ¬ id = x := fun he => hw (.filing x) (by simp [Write.needs]) (by rw [he])
      simp only [Lock.Protects, apply, Table.find?_modify, if_neg hne]
    | insertMessage | updateMessage | updateReport | appendTimeline => rfl
  | report id =>
    cases w with
    | updateReport x now u =>
      have hne : ¬ id = x := fun he => hw (.report x) (by simp [Write.needs]) (by rw [he])
      simp only [Lock.Protects, apply, Table.find?_modify, if_neg hne]
    | insertMessage | updateMessage | insertFiling | updateFiling | appendTimeline => rfl
  | active r =>
    cases w with
    | insertFiling f =>
      refine .insert _ f ?_
      rintro ⟨rfl, hact⟩
      exact hw (.active f.reportId) (by simp [Write.needs, hact]) rfl
    | updateFiling x r' now u =>
      refine noNew_updateFiling s x now (fun hu he => hw (.active r') ?_ (by rw [he]))
      simp [Write.needs, hu]
    | insertMessage | updateMessage | updateReport | appendTimeline => exact .refl _ _

end Db

/-- The storage engine under the city updates. Row locks and index entries are exclusive. -/
def engine : Engine Db Write Lock where
  apply := Db.apply
  conflict := (· = ·)
  needs := Write.needs
  evolves := Db.Evolves
  protects := fun l a b => l.Protects a b
  conflict_symm := Eq.symm
  evolves_refl := Db.Evolves.refl
  evolves_trans := Db.Evolves.trans
  evolves_apply := fun _ h hn => Db.evolves_apply hn h
  evolves_write := Db.evolves_write
  protects_refl := fun l a => by
    cases l with
    | message | filing | report => rfl
    | active r => exact .refl _ _
  protects_trans := fun {l} {_ _ _} h h' => by
    cases l with
    | message | filing | report => exact Eq.trans h h'
    | active r => exact Table.NoNew.trans h h'
  protects_apply := fun _ _ hn h => Db.protects_apply hn h
  protects_write := fun a w hw => Db.protects_write a w hw

end Civfix.CityUpdates
