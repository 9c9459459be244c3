import Civfix.LegalConsents

/-! # What consent settles

Records are only added. The version that the last accepted one counts for moves forward with them, so what was not
required stays so, and a record of the current version leaves nothing to ask. -/
namespace Civfix.Legal

open CodeUnits

variable {α : Type} {items : List α} {test : α → Bool}

/-! ## The last index -/

/-- The loop stops at the last item below the bound that passes. -/
theorem lastIndexBelow_spec (items : List α) (test : α → Bool) (n : ℕ) :
    -1 ≤ lastIndexBelow items test n ∧ lastIndexBelow items test n < n ∧
    (∀ i < n, ∀ a, items[i]? = some a → test a = true → (i : ℤ) ≤ lastIndexBelow items test n) ∧
    (lastIndexBelow items test n = -1 ∨
      ∃ i a, lastIndexBelow items test n = (i : ℕ) ∧ items[i]? = some a ∧ test a = true) := by
  induction n with
  | zero => exact ⟨le_refl _, show (-1 : ℤ) < 0 by omega, fun i hi => absurd hi (Nat.not_lt_zero i), Or.inl rfl⟩
  | succ n ih =>
    obtain ⟨hge, hlt, hbound, hcase⟩ := ih
    rw [lastIndexBelow]
    split
    · next hany =>
      obtain ⟨a, ha, hpass⟩ := (Option.any_eq_true _ _).mp hany
      exact ⟨by omega, by omega, fun i hi a _ _ => by omega, Or.inr ⟨n, a, rfl, ha, hpass⟩⟩
    · next hany =>
      refine ⟨hge, by omega, fun i hi a ha hpass => ?_, hcase⟩
      rcases Nat.lt_succ_iff_lt_or_eq.mp hi with hi | rfl
      · exact hbound i hi a ha hpass
      · exact absurd ((Option.any_eq_true _ _).mpr ⟨a, ha, hpass⟩) hany

theorem lt_length {i : ℕ} {a : α} (h : items[i]? = some a) : i < items.length :=
  (List.getElem?_eq_some_iff.mp h).1

theorem le_lastIndexWhere {i : ℕ} {a : α} (h : items[i]? = some a) (hpass : test a = true) :
    (i : ℤ) ≤ lastIndexWhere items test :=
  (lastIndexBelow_spec items test items.length).2.2.1 i (lt_length h) a h hpass

theorem lastIndexWhere_cases (items : List α) (test : α → Bool) : lastIndexWhere items test = -1 ∨
    ∃ i a, lastIndexWhere items test = (i : ℕ) ∧ items[i]? = some a ∧ test a = true :=
  (lastIndexBelow_spec items test items.length).2.2.2

theorem lastIndexWhere_bounds (items : List α) (test : α → Bool) :
    -1 ≤ lastIndexWhere items test ∧ lastIndexWhere items test < items.length :=
  ⟨(lastIndexBelow_spec items test items.length).1, (lastIndexBelow_spec items test items.length).2.1⟩

theorem lastIndexWhere_eq_neg_one : lastIndexWhere items test = -1 ↔ ∀ a ∈ items, test a = false := by
  constructor
  · intro h a ha
    obtain ⟨i, hi⟩ := List.getElem?_of_mem ha
    rw [Bool.eq_false_iff]
    intro hpass
    have hle := le_lastIndexWhere hi hpass
    omega
  · intro h
    rcases lastIndexWhere_cases items test with hnone | ⟨i, a, -, ha, hpass⟩
    · exact hnone
    · rw [h a (List.mem_of_getElem? ha)] at hpass
      cases hpass

theorem atEnd_eq {k : ℕ} (hk : k ≤ items.length) : atEnd items k = items[items.length - k]? := by
  rw [atEnd, itemAt, if_neg (by omega)]
  congr 1
  omega

theorem atEnd_eq_some {k : ℕ} {a : α} (hat : atEnd items k = some a) :
    k ≤ items.length ∧ items[items.length - k]? = some a := by
  have hk : k ≤ items.length := by
    by_contra hlt
    rw [atEnd, itemAt, if_pos (by omega)] at hat
    cases hat
  exact ⟨hk, (atEnd_eq hk).symm.trans hat⟩

theorem atEnd_one (items : List α) : atEnd items 1 = items.getLast? := by
  rw [List.getLast?_eq_getElem?]
  cases items with
  | nil => rfl
  | cons a l => exact atEnd_eq (Nat.succ_le_succ (Nat.zero_le _))

/-- The item at the last index is the last of those that pass. -/
theorem itemAt_lastIndexBelow (items : List α) (test : α → Bool) (n : ℕ) :
    itemAt items (lastIndexBelow items test n) = ((items.take n).filter test).getLast? := by
  induction n with
  | zero => rfl
  | succ n ih =>
    rw [lastIndexBelow, List.take_add_one, List.filter_append]
    split
    · next hany =>
      obtain ⟨a, ha, hpass⟩ := (Option.any_eq_true _ _).mp hany
      have hlast : itemAt items (n : ℤ) = some a := by
        rw [itemAt, if_neg (by omega), Int.toNat_natCast, ha]
      rw [hlast, ha, Option.toList_some, List.filter_singleton, hpass, cond_true, List.getLast?_concat]
    · next hany =>
      have hnone : items[n]?.toList.filter test = [] := by
        rw [List.filter_eq_nil_iff]
        intro a ha hpass
        exact hany ((Option.any_eq_true _ _).mpr ⟨a, Option.mem_toList.mp ha, hpass⟩)
      rw [ih, hnone, List.append_nil]

theorem itemAt_lastIndexWhere (items : List α) (test : α → Bool) :
    itemAt items (lastIndexWhere items test) = atEnd (items.filter test) 1 := by
  rw [lastIndexWhere, itemAt_lastIndexBelow, List.take_length, atEnd_one]

/-! ## Required and noticed -/

/-- No record is needed if an accepted version has no material one after it. -/
structure Required (type : LegalDocumentType) (versions : List VersionConsent) : Prop where
  must : type ∈ MUST_ACCEPT
  unsettled : (∀ v ∈ versions, v.acceptedAt = none) ∨ ∃ (i : ℕ) (v : VersionConsent), versions[i]? = some v ∧
    v.material = some true ∧ ∀ (j : ℕ) (w : VersionConsent), i ≤ j → versions[j]? = some w → w.acceptedAt = none

variable {type : LegalDocumentType} {versions : List VersionConsent} {s : TypeStatus}

theorem isSome_eq_false {β : Type} {o : Option β} : o.isSome = false ↔ o = none := by
  cases o <;> simp

theorem required_iff (h : typeStatus type versions = some s) : s.required = true ↔ Required type versions := by
  obtain ⟨current, -, rfl⟩ := Option.map_eq_some_iff.mp h
  simp only [Bool.and_eq_true, Bool.or_eq_true, decide_eq_true_eq, List.any_eq_true]
  have hbounds := lastIndexWhere_bounds versions fun v => v.acceptedAt.isSome
  constructor
  · rintro ⟨hmust, hnone | ⟨v, hv, hmaterial⟩⟩
    · exact ⟨hmust, Or.inl fun v hv => isSome_eq_false.mp (lastIndexWhere_eq_neg_one.mp hnone v hv)⟩
    · obtain ⟨i, hi⟩ := List.getElem?_of_mem hv
      rw [List.getElem?_drop] at hi
      refine ⟨hmust, Or.inr ⟨_, v, hi, hmaterial, fun j w hj hw => ?_⟩⟩
      rw [← isSome_eq_false, Bool.eq_false_iff]
      intro hpass
      have hle : (j : ℤ) ≤ lastIndexWhere _ fun v : VersionConsent => v.acceptedAt.isSome := le_lastIndexWhere hw hpass
      omega
  · rintro ⟨hmust, hnone | ⟨i, v, hi, hmaterial, hafter⟩⟩
    · exact ⟨hmust, Or.inl (lastIndexWhere_eq_neg_one.mpr fun v hv => isSome_eq_false.mpr (hnone v hv))⟩
    · refine ⟨hmust, Or.inr ⟨v, ?_, hmaterial⟩⟩
      -- The last accepted version stands before the material one.
      have hlt : lastIndexWhere versions (fun v => v.acceptedAt.isSome) < i := by
        rcases lastIndexWhere_cases versions fun v => v.acceptedAt.isSome with hnone | ⟨j, w, hj, hw, hpass⟩
        · omega
        · by_contra hge
          rw [hafter j w (by omega) hw] at hpass
          cases hpass
      refine List.mem_of_getElem? (i := i - (lastIndexWhere versions (fun v => v.acceptedAt.isSome) + 1).toNat) ?_
      rw [List.getElem?_drop, ← hi]
      congr 1
      omega

theorem current_mem (h : typeStatus type versions = some s) : atEnd versions 1 = some s.current := by
  obtain ⟨current, hcurrent, rfl⟩ := Option.map_eq_some_iff.mp h
  exact hcurrent

theorem notice_iff (h : typeStatus type versions = some s) :
    s.notice = true ↔ s.required = false ∧ hasRecord s.current = false := by
  obtain ⟨current, hcurrent, rfl⟩ := Option.map_eq_some_iff.mp h
  obtain ⟨hpos, hlast⟩ := atEnd_eq_some hcurrent
  have hbounds := lastIndexWhere_bounds versions hasRecord
  have hrecorded : lastIndexWhere versions hasRecord < versions.length - 1 ↔ hasRecord current = false := by
    constructor
    · intro hlt
      rw [Bool.eq_false_iff]
      intro hrec
      have hle := le_lastIndexWhere hlast hrec
      omega
    · intro hrec
      rcases lastIndexWhere_cases versions hasRecord with hnone | ⟨i, v, hi, hv, hpass⟩
      · omega
      · by_contra hge
        have hi' : i = versions.length - 1 := by omega
        rw [hi', hlast] at hv
        obtain rfl := Option.some.inj hv
        rw [hrec] at hpass
        cases hpass
  simp only [Bool.and_eq_true, Bool.not_eq_true', decide_eq_true_eq, hrecorded]

/-! ## The documents of one type -/

variable (cfg : Setting) {docs : LegalDocuments} {records records' : List ConsentRecord} {user : UserId}
  {now : Instant} {d : LegalVersionRecord} {action : LegalAcceptAction}

/-- The versions of a type in effect, oldest first. -/
def docsOf (docs : LegalDocuments) (now : Instant) (type : LegalDocumentType) : List LegalVersionRecord :=
  (inEffect cfg docs now).filter fun d => decide (d.type = type)

def Recorded (records : List ConsentRecord) (user : UserId) (type : LegalDocumentType) (version : Text)
    (action : LegalAcceptAction) : Prop :=
  ∃ r ∈ records, ofUser user type version action r = true

theorem Recorded.mono {version : Text} (h : Recorded records user type version action) (hsub : records ⊆ records') :
    Recorded records' user type version action := by
  obtain ⟨r, hr, hof⟩ := h
  exact ⟨r, hsub hr, hof⟩

theorem latest_eq_none : latest records user d action = none ↔ ¬ Recorded records user d.type d.version action := by
  rw [latest, List.max?_eq_none_iff, List.map_eq_nil_iff, List.filter_eq_nil_iff]
  constructor
  · rintro h ⟨r, hr, hof⟩
    exact h r hr hof
  · intro h r hr hof
    exact h ⟨r, hr, hof⟩

theorem latest_isSome : (latest records user d action).isSome = true ↔
    Recorded records user d.type d.version action := by
  rw [← Option.ne_none_iff_isSome, ne_eq, latest_eq_none, not_not]

theorem versionsFor_filter (type : LegalDocumentType) :
    (versionsFor cfg docs records user now).filter (fun v => decide (v.type = type)) =
      (docsOf cfg docs now type).map (consentOf records user) :=
  List.filter_map

theorem typeStatusOf_versionsFor (type : LegalDocumentType) :
    typeStatusOf (versionsFor cfg docs records user now) type =
      typeStatus type ((docsOf cfg docs now type).map (consentOf records user)) := by
  rw [typeStatusOf, versionsFor_filter]

/-- More records settle no less. -/
theorem Required.of_subset {l : List LegalVersionRecord} (hsub : records ⊆ records')
    (h : Required type (l.map (consentOf records' user))) : Required type (l.map (consentOf records user)) := by
  have hnone : ∀ {d : LegalVersionRecord}, (consentOf records' user d).acceptedAt = none →
      (consentOf records user d).acceptedAt = none := by
    intro d hd
    exact latest_eq_none.mpr fun hrecorded => latest_eq_none.mp hd (hrecorded.mono hsub)
  obtain ⟨hmust, hall | ⟨i, v, hi, hmaterial, hafter⟩⟩ := h
  · refine ⟨hmust, Or.inl fun v hv => ?_⟩
    obtain ⟨d, hd, rfl⟩ := List.mem_map.mp hv
    exact hnone (hall _ (List.mem_map_of_mem hd))
  · rw [List.getElem?_map, Option.map_eq_some_iff] at hi
    obtain ⟨d, hd, rfl⟩ := hi
    refine ⟨hmust, Or.inr ⟨i, consentOf records user d, ?_, hmaterial, fun j w hj hw => ?_⟩⟩
    · rw [List.getElem?_map, hd]
      rfl
    · rw [List.getElem?_map, Option.map_eq_some_iff] at hw
      obtain ⟨e, he, rfl⟩ := hw
      refine hnone (hafter j _ hj ?_)
      rw [List.getElem?_map, he]
      rfl

/-- An accepted version without a material one after it settles its type. -/
theorem not_required_of_accepted {l : List LegalVersionRecord} {k : ℕ} (hk : l[k]? = some d)
    (haccepted : Recorded records user d.type d.version .accepted)
    (hafter : ∀ (i : ℕ) (e : LegalVersionRecord), k < i → l[i]? = some e → e.material ≠ some true) :
    ¬ Required type (l.map (consentOf records user)) := by
  have hat : (l.map (consentOf records user))[k]? = some (consentOf records user d) := by
    rw [List.getElem?_map, hk]
    rfl
  rintro ⟨-, hall | ⟨i, v, hi, hmaterial, hnone⟩⟩
  · exact latest_eq_none.mp (hall _ (List.mem_of_getElem? hat)) haccepted
  · by_cases hle : i ≤ k
    · exact latest_eq_none.mp (hnone k _ hle hat) haccepted
    · rw [List.getElem?_map, Option.map_eq_some_iff] at hi
      obtain ⟨e, he, rfl⟩ := hi
      exact hafter i e (by omega) he hmaterial

/-! ## The status -/

theorem mem_metaOf {wanted : TypeStatus → Bool} {vs : List VersionConsent} :
    metaOf vs wanted type = some d ↔
      ∃ s, typeStatusOf vs type = some s ∧ wanted s = true ∧ s.current.toLegalVersionRecord = d := by
  simp only [metaOf, Option.map_eq_some_iff, Option.filter_eq_some_iff, and_assoc]

theorem mem_required : d ∈ (legalStatusOf cfg (versionsFor cfg docs records user now)).required ↔
    ∃ type ∈ cfg.SERVED_LEGAL_TYPES, ∃ s, typeStatusOf (versionsFor cfg docs records user now) type = some s ∧
      s.required = true ∧ s.current.toLegalVersionRecord = d := by
  simp only [legalStatusOf, List.mem_filterMap, mem_metaOf]

theorem mem_notices : d ∈ (legalStatusOf cfg (versionsFor cfg docs records user now)).notices ↔
    ∃ type ∈ cfg.SERVED_LEGAL_TYPES, ∃ s, typeStatusOf (versionsFor cfg docs records user now) type = some s ∧
      s.notice = true ∧ s.current.toLegalVersionRecord = d := by
  simp only [legalStatusOf, List.mem_filterMap, mem_metaOf]

/-- The status of a type is about its newest version in effect. -/
theorem current_of_typeStatus {s : TypeStatus}
    (h : typeStatusOf (versionsFor cfg docs records user now) type = some s) :
    ∃ d, atEnd (docsOf cfg docs now type) 1 = some d ∧ s.current = consentOf records user d ∧ d.type = type := by
  rw [typeStatusOf_versionsFor] at h
  obtain ⟨hpos, hlast⟩ := atEnd_eq_some (current_mem h)
  rw [List.length_map] at hpos hlast
  rw [List.getElem?_map, Option.map_eq_some_iff] at hlast
  obtain ⟨d, hd, hcurrent⟩ := hlast
  refine ⟨d, (atEnd_eq hpos).trans hd, hcurrent.symm, ?_⟩
  exact of_decide_eq_true (List.mem_filter.mp (List.mem_of_getElem? hd)).2

/-- The same document has a status before and after records are added. -/
theorem typeStatus_of_records {s : TypeStatus} (records : List ConsentRecord)
    (h : typeStatusOf (versionsFor cfg docs records' user now) type = some s) :
    ∃ s₀, typeStatusOf (versionsFor cfg docs records user now) type = some s₀ ∧
      s₀.current.toLegalVersionRecord = s.current.toLegalVersionRecord := by
  obtain ⟨d, hd, hcurrent, -⟩ := current_of_typeStatus cfg h
  obtain ⟨hpos, hlast⟩ := atEnd_eq_some hd
  have hat : atEnd ((docsOf cfg docs now type).map (consentOf records user)) 1 = some (consentOf records user d) := by
    rw [atEnd_eq (by rw [List.length_map]; exact hpos), List.length_map, List.getElem?_map, hlast]
    rfl
  refine ⟨_, (typeStatusOf_versionsFor cfg type).trans (Option.map_eq_some_iff.mpr ⟨_, hat, rfl⟩), ?_⟩
  rw [hcurrent]
  rfl

theorem required_subset (hsub : records ⊆ records') :
    (legalStatusOf cfg (versionsFor cfg docs records' user now)).required ⊆
      (legalStatusOf cfg (versionsFor cfg docs records user now)).required := by
  intro d hd
  obtain ⟨type, htype, s, hs, hrequired, hdoc⟩ := (mem_required cfg).mp hd
  obtain ⟨s₀, hs₀, hsame⟩ := typeStatus_of_records cfg records hs
  refine (mem_required cfg).mpr ⟨type, htype, s₀, hs₀, ?_, hsame.trans hdoc⟩
  rw [typeStatusOf_versionsFor] at hs hs₀
  exact (required_iff hs₀).mpr (((required_iff hs).mp hrequired).of_subset hsub)

theorem hasRecord_consentOf : hasRecord (consentOf records user d) = true ↔
    Recorded records user d.type d.version .accepted ∨ Recorded records user d.type d.version .acknowledged := by
  simp only [hasRecord, consentOf, Bool.or_eq_true, latest_isSome]

/-! ## Accepting -/

variable {request : AcceptLegalRequest} {item : AcceptItem}

/-- The newest version that an item is compared with is the one of its type's status. -/
theorem currentOf_versionsFor (type : LegalDocumentType) (shown : VersionConsent)
    (h : currentOf cfg (versionsFor cfg docs records user now) type = some shown) :
    ∃ d, atEnd (docsOf cfg docs now type) 1 = some d ∧ shown = consentOf records user d ∧ d.type = type := by
  rw [currentOf] at h
  split at h
  · rw [itemAt_lastIndexWhere, versionsFor_filter, atEnd_one, List.getLast?_map, Option.map_eq_some_iff] at h
    obtain ⟨d, hd, hshown⟩ := h
    exact ⟨d, (atEnd_one _).trans hd, hshown.symm,
      of_decide_eq_true (List.mem_filter.mp (List.mem_of_getLast? hd)).2⟩
  · cases h

theorem not_stale {vs : List VersionConsent} (h : isStale cfg vs item = false) :
    ∃ shown, currentOf cfg vs item.type = some shown ∧ shown.version = item.version := by
  rw [isStale, Option.all_eq_false] at h
  obtain ⟨shown, hshown, hsame⟩ := h
  refine ⟨shown, hshown, ?_⟩
  by_contra hne
  exact absurd (of_decide_eq_false hsame) (not_not.mpr (Or.inl hne))

theorem isFresh_iff (hstale : isStale cfg (versionsFor cfg docs records user now) item = false) :
    isFresh cfg (versionsFor cfg docs records user now) item = true ↔
      ¬ Recorded records user item.type item.version item.action := by
  obtain ⟨shown, hshown, hversion⟩ := not_stale cfg hstale
  obtain ⟨d, -, rfl, htype⟩ := currentOf_versionsFor cfg item.type shown hshown
  have hd : d.version = item.version := hversion
  rw [isFresh, hshown, Option.bind_some, Option.isNone_iff_eq_none, ← htype, ← hd]
  cases item.action <;> exact latest_eq_none

/-- What an accepted request leaves: the records of before and one for each item. -/
structure Accepts (docs : LegalDocuments) (user : UserId) (request : AcceptLegalRequest) (now : Instant)
    (records records' : List ConsentRecord) (status : MyLegalStatus) : Prop where
  kept : records ⊆ records'
  recorded : ∀ item ∈ request.items, Recorded records' user item.type item.version item.action
  shown : ∀ item ∈ request.items, isStale cfg (versionsFor cfg docs records user now) item = false
  actions : wrongActions (legalStatusOf cfg (versionsFor cfg docs records user now)) request.items = []
  idle : (∀ item ∈ request.items, Recorded records user item.type item.version item.action) → records' = records
  status : status = legalStatusOf cfg (versionsFor cfg docs records' user now)

theorem ofUser_recordOf (user : UserId) (surface : Option ConsentSurface) (now : Instant) (item : AcceptItem) :
    ofUser user item.type item.version item.action (recordOf user surface now item) = true :=
  decide_eq_true ⟨rfl, rfl, rfl, rfl, rfl⟩

theorem accept_ok {status : MyLegalStatus} (h : accept cfg docs user request now records = .ok (records', status)) :
    Accepts cfg docs user request now records records' status := by
  simp only [accept] at h
  split at h
  · cases h
  next hstale =>
  split at h
  · cases h
  split at h
  · cases h
  next hactions =>
  have hshown : ∀ item ∈ request.items, isStale cfg (versionsFor cfg docs records user now) item = false := by
    intro item hitem
    rw [Bool.eq_false_iff]
    exact fun hold => hstale (List.any_eq_true.mpr ⟨item, hitem, hold⟩)
  have hdone : ∀ item ∈ request.items, ¬ isFresh cfg (versionsFor cfg docs records user now) item = true →
      Recorded records user item.type item.version item.action := fun item hitem hfresh =>
    not_not.mp ((isFresh_iff cfg (hshown item hitem)).not.mp hfresh)
  split at h
  · next hfresh =>
    cases h
    refine ⟨List.Subset.refl _, fun item hitem => ?_, hshown, not_not.mp hactions, fun _ => rfl, rfl⟩
    exact hdone item hitem fun hnew => (List.filter_eq_nil_iff.mp hfresh) item hitem hnew
  · next hfresh =>
    cases h
    refine ⟨List.subset_append_left _ _, fun item hitem => ?_, hshown, not_not.mp hactions, fun hall => ?_, rfl⟩
    · by_cases hnew : isFresh cfg (versionsFor cfg docs records user now) item = true
      · exact ⟨_, List.mem_append_right _ (List.mem_map_of_mem (List.mem_filter.mpr ⟨hitem, hnew⟩)),
          ofUser_recordOf user request.surface now item⟩
      · exact (hdone item hitem hnew).mono (List.subset_append_left _ _)
    · refine absurd (List.filter_eq_nil_iff.mpr fun item hitem hnew => ?_) hfresh
      exact (isFresh_iff cfg (hshown item hitem)).mp hnew (hall item hitem)

/-- An item that only acknowledges is not about a required document. -/
theorem action_of_required {status : MyLegalStatus} (h : wrongActions status request.items = [])
    (hitem : item ∈ request.items) (hrequired : item.type ∈ status.required.map LegalVersionRecord.type) :
    item.action = .accepted := by
  obtain ⟨i, hi⟩ := List.getElem?_of_mem hitem
  cases haction : item.action with
  | accepted => rfl
  | acknowledged =>
    have hnone := List.filterMap_eq_nil_iff.mp h (item, i) (List.mem_zipIdx_iff_getElem?.mpr hi)
    rw [if_pos ⟨haction, hrequired⟩] at hnone
    cases hnone

/-- A type of which the newest version is recorded in the way that was asked has nothing to ask. -/
theorem settled_of_accepts {status : MyLegalStatus} {s : TypeStatus}
    (h : Accepts cfg docs user request now records records' status)
    (hcovers : ∀ d ∈ (legalStatusOf cfg (versionsFor cfg docs records user now)).required ++
      (legalStatusOf cfg (versionsFor cfg docs records user now)).notices, ∃ item ∈ request.items, item.type = d.type)
    (htype : type ∈ cfg.SERVED_LEGAL_TYPES)
    (hs : typeStatusOf (versionsFor cfg docs records' user now) type = some s) :
    s.required = false ∧ s.notice = false := by
  obtain ⟨s₀, hs₀, -⟩ := typeStatus_of_records cfg records hs
  obtain ⟨d, hd, hcurrent, hdtype⟩ := current_of_typeStatus cfg hs₀
  obtain ⟨d', hd', hcurrent', -⟩ := current_of_typeStatus cfg hs
  obtain rfl : d' = d := Option.some.inj (hd'.symm.trans hd)
  have hlast := (atEnd_eq_some hd).2
  have hdoc : s₀.current.toLegalVersionRecord = d' := by
    rw [hcurrent]
    rfl
  -- An item for this type names its newest version.
  have hitem : ∀ item ∈ request.items, item.type = d'.type →
      Recorded records' user d'.type d'.version item.action := by
    intro item hmem heq
    obtain ⟨shown, hshown, hversion⟩ := not_stale cfg (h.shown item hmem)
    obtain ⟨e, he, rfl, -⟩ := currentOf_versionsFor cfg item.type shown hshown
    rw [heq, hdtype, hd] at he
    obtain rfl := Option.some.inj he
    have hrecorded := h.recorded item hmem
    rw [heq, ← hversion] at hrecorded
    exact hrecorded
  rw [typeStatusOf_versionsFor] at hs hs₀
  have hmustnot : s.required = false := by
    by_cases hrequired : s₀.required = true
    · have hmem : d' ∈ (legalStatusOf cfg (versionsFor cfg docs records user now)).required :=
        (mem_required cfg).mpr ⟨type, htype, s₀, (typeStatusOf_versionsFor cfg type).trans hs₀, hrequired, hdoc⟩
      obtain ⟨item, hmem', heq⟩ := hcovers d' (List.mem_append_left _ hmem)
      have haction := action_of_required h.actions hmem' (List.mem_map.mpr ⟨d', hmem, heq.symm⟩)
      have haccepted := hitem item hmem' heq
      rw [haction] at haccepted
      rw [Bool.eq_false_iff, ne_eq, required_iff hs]
      refine not_required_of_accepted hlast haccepted fun i e hi he => ?_
      have hlt := lt_length he
      omega
    · rw [Bool.eq_false_iff, ne_eq, required_iff hs]
      intro hrequired'
      exact hrequired ((required_iff hs₀).mpr (hrequired'.of_subset h.kept))
  refine ⟨hmustnot, ?_⟩
  rw [Bool.eq_false_iff, ne_eq, notice_iff hs, hcurrent']
  rintro ⟨-, hnorecord⟩
  rw [Bool.eq_false_iff, ne_eq, hasRecord_consentOf] at hnorecord
  have hbefore : hasRecord s₀.current = false := by
    rw [Bool.eq_false_iff, ne_eq, hcurrent, hasRecord_consentOf]
    rintro (hold | hold)
    · exact hnorecord (Or.inl (hold.mono h.kept))
    · exact hnorecord (Or.inr (hold.mono h.kept))
  have hcovered : d' ∈ (legalStatusOf cfg (versionsFor cfg docs records user now)).required ++
      (legalStatusOf cfg (versionsFor cfg docs records user now)).notices := by
    by_cases hrequired : s₀.required = true
    · exact List.mem_append_left _
        ((mem_required cfg).mpr ⟨type, htype, s₀, (typeStatusOf_versionsFor cfg type).trans hs₀, hrequired, hdoc⟩)
    · refine List.mem_append_right _
        ((mem_notices cfg).mpr ⟨type, htype, s₀, (typeStatusOf_versionsFor cfg type).trans hs₀, ?_, hdoc⟩)
      exact (notice_iff hs₀).mpr ⟨Bool.eq_false_iff.mpr hrequired, hbefore⟩
  obtain ⟨item, hmem, heq⟩ := hcovers d' hcovered
  have hrecorded := hitem item hmem heq
  cases haction : item.action with
  | accepted =>
    rw [haction] at hrecorded
    exact hnorecord (Or.inl hrecorded)
  | acknowledged =>
    rw [haction] at hrecorded
    exact hnorecord (Or.inr hrecorded)

/-! ## Consent at an event -/

/-- The list holds the same versions of the type as the table, in the order of the table's rows. -/
structure SameVersions (docs : LegalDocuments) (versions : List LegalVersionRecord) (type : LegalDocumentType) :
    Prop where
  perm : (versions.filter fun d => decide (d.type = type)).Perm (docs.rows.filter fun d => decide (d.type = type))
  ordered : (versions.filter fun d => decide (d.type = type)).Pairwise (Older cfg)

instance : IsTrans LegalVersionRecord (Earlier cfg) := ⟨fun a b c hab hbc => by
  have hversion := cfg.collation.trans a.version b.version c.version
  unfold Earlier Older at *
  grind⟩

instance : Std.Total (Earlier cfg) := ⟨fun a b => by
  have hversion := cfg.collation.total a.version b.version
  unfold Earlier Older
  grind⟩

theorem Older.antisymm {a b : LegalVersionRecord} (hab : Older cfg a b) (hba : Older cfg b a) :
    a.version = b.version := by
  have hversion := cfg.collation.antisymm a.version b.version
  unfold Older at hab hba
  grind

theorem mem_docsOf : d ∈ docsOf cfg docs now type ↔
    d ∈ docs.rows ∧ d.type ∈ cfg.SERVED_LEGAL_TYPES ∧ d.effectiveAt ≤ now ∧ d.type = type := by
  simp only [docsOf, inEffect, List.mem_filter, List.mem_insertionSort, decide_eq_true_eq, and_assoc]

/-- There is one way to list the versions of a type oldest first. -/
theorem docsOf_eq {versions : List LegalVersionRecord} (hserved : type ∈ cfg.SERVED_LEGAL_TYPES)
    (h : SameVersions cfg docs versions type) (now : Instant) :
    (versions.filter fun d => decide (d.type = type ∧ d.effectiveAt ≤ now)) = docsOf cfg docs now type := by
  have hsplit : (versions.filter fun d => decide (d.type = type ∧ d.effectiveAt ≤ now)) =
      (versions.filter fun d => decide (d.type = type)).filter fun d => decide (d.effectiveAt ≤ now) := by
    rw [List.filter_filter]
    exact List.filter_congr fun d _ => by simp only [Bool.decide_and, Bool.and_comm]
  have hperm : (docsOf cfg docs now type).Perm
      ((docs.rows.filter fun d => decide (d.type = type)).filter fun d => decide (d.effectiveAt ≤ now)) := by
    refine ((List.perm_insertionSort (Earlier cfg) _).filter _).trans ?_
    rw [List.filter_filter, List.filter_filter]
    refine List.Perm.of_eq (List.filter_congr fun d _ => ?_)
    by_cases htype : d.type = type
    · simp only [htype, hserved, true_and, decide_true, Bool.true_and, Bool.and_true]
    · simp only [htype, decide_false, Bool.false_and, Bool.and_false]
  have hsorted : (docsOf cfg docs now type).Pairwise (Earlier cfg) :=
    (List.pairwise_insertionSort (Earlier cfg) _).filter _
  rw [hsplit]
  refine ((h.perm.filter _).trans hperm.symm).eq_of_pairwise (fun a b ha hb hab hba => ?_) (h.ordered.filter _) ?_
  · have hmem : ∀ {d}, d ∈ (versions.filter fun d => decide (d.type = type)).filter
        (fun d => decide (d.effectiveAt ≤ now)) → d ∈ docsOf cfg docs now type := fun hd =>
      (((h.perm.filter _).trans hperm.symm).mem_iff).mp hd
    obtain ⟨harow, -, -, hatype⟩ := (mem_docsOf cfg).mp (hmem ha)
    obtain ⟨hbrow, -, -, hbtype⟩ := (mem_docsOf cfg).mp hb
    exact List.inj_on_of_nodup_map docs.keys harow hbrow
      (Prod.ext (hatype.trans hbtype.symm) (Older.antisymm cfg hab hba))
  · refine hsorted.imp_of_mem fun ha hb hab => ?_
    have hsame := ((mem_docsOf cfg).mp ha).2.2.2.trans ((mem_docsOf cfg).mp hb).2.2.2.symm
    rcases hab with hlt | ⟨-, holder⟩
    · rw [hsame] at hlt
      exact absurd hlt (Nat.lt_irrefl _)
    · exact holder

/-- A version that an event takes is of its type, and no material version has replaced it. -/
theorem matched_spec {versions : List LegalVersionRecord} {claimed : Text}
    (h : (acceptedForEvent type claimed versions now).matched = some d) :
    ∃ k, (versions.filter fun v => decide (v.type = type ∧ v.effectiveAt ≤ now))[k]? = some d ∧ d.type = type ∧
      ∀ (i : ℕ) (e : LegalVersionRecord), k < i →
        (versions.filter fun v => decide (v.type = type ∧ v.effectiveAt ≤ now))[i]? = some e →
          e.material ≠ some true := by
  have htype : ∀ {k : ℕ} {e : LegalVersionRecord},
      (versions.filter fun v => decide (v.type = type ∧ v.effectiveAt ≤ now))[k]? = some e →
      e.type = type := fun he => (of_decide_eq_true (List.mem_filter.mp (List.mem_of_getElem? he)).2).1
  simp only [acceptedForEvent] at h
  split at h
  · have hd := (atEnd_eq_some h).2
    refine ⟨_, hd, htype hd, fun i e hi he => ?_⟩
    have hlt := lt_length he
    omega
  · split at h
    · next hminor =>
      obtain ⟨hpos, hd⟩ := atEnd_eq_some h
      refine ⟨_, hd, htype hd, fun i e hi he => ?_⟩
      -- Only the current version follows the one before it.
      have hlt := lt_length he
      obtain ⟨current, hcurrent, hmaterial⟩ := Option.bind_eq_some_iff.mp hminor.1
      have hlast := (atEnd_eq_some hcurrent).2
      rw [show (versions.filter fun v => decide (v.type = type ∧ v.effectiveAt ≤ now)).length - 1 = i by omega, he]
        at hlast
      obtain rfl := Option.some.inj hlast
      rw [hmaterial]
      decide
    · cases h

theorem not_required_of_matched {versions : List LegalVersionRecord} {claimed : Text}
    (hserved : type ∈ cfg.SERVED_LEGAL_TYPES) (h : SameVersions cfg docs versions type)
    (hmatched : (acceptedForEvent type claimed versions now).matched = some d)
    (haccepted : Recorded records user type d.version .accepted) {s : TypeStatus}
    (hs : typeStatusOf (versionsFor cfg docs records user now) type = some s) : s.required = false := by
  obtain ⟨k, hk, htype, hafter⟩ := matched_spec hmatched
  rw [docsOf_eq cfg hserved h] at hk hafter
  rw [typeStatusOf_versionsFor] at hs
  rw [Bool.eq_false_iff, ne_eq, required_iff hs]
  rw [← htype] at haccepted
  exact not_required_of_accepted hk haccepted hafter

theorem ofUser_eventRecord (user : UserId) (now : Instant) (ref : LegalDocumentRef) :
    ofUser user ref.type ref.version .accepted (eventRecord user now ref) = true :=
  decide_eq_true ⟨rfl, rfl, rfl, rfl, rfl⟩

theorem matched_of_eventConsent {claim : EventConsentClaim} {versions : List LegalVersionRecord}
    {refs : List LegalDocumentRef} (h : eventConsentDocuments claim now versions = .ok refs) :
    ∃ t p, (acceptedForEvent .terms claim.termsVersion versions now).matched = some t ∧
      (acceptedForEvent .privacy claim.disclosureVersion versions now).matched = some p ∧
        refs = [refOf t, refOf p] := by
  simp only [eventConsentDocuments] at h
  split at h
  · next t p ht hp => exact ⟨t, p, ht, hp, (Except.ok.inj h).symm⟩
  · cases h

/-- Neither document is required after the pair that an event took is recorded. -/
theorem not_required_of_event {claim : EventConsentClaim} {versions : List LegalVersionRecord}
    {refs : List LegalDocumentRef} (hversions : ∀ type ∈ MUST_ACCEPT, SameVersions cfg docs versions type)
    (h : eventConsentDocuments claim now versions = .ok refs) :
    ∀ d ∈ (legalStatusOf cfg (versionsFor cfg docs (records ++ refs.map (eventRecord user now)) user now)).required,
      d.type ∉ MUST_ACCEPT := by
  intro d hd hmust
  obtain ⟨type, hserved, s, hs, hrequired, hdoc⟩ := (mem_required cfg).mp hd
  obtain ⟨e, -, hcurrent, hetype⟩ := current_of_typeStatus cfg hs
  have htype : d.type = type := by
    rw [← hdoc, hcurrent]
    exact hetype
  rw [htype] at hmust
  obtain ⟨t, p, ht, hp, rfl⟩ := matched_of_eventConsent h
  have hrecorded : ∀ ref ∈ [refOf t, refOf p], Recorded (records ++ [refOf t, refOf p].map (eventRecord user now)) user
      ref.type ref.version .accepted := fun ref href =>
    ⟨_, List.mem_append_right _ (List.mem_map_of_mem href), ofUser_eventRecord user now ref⟩
  have hfalse : s.required = false := by
    rcases List.mem_pair.mp hmust with rfl | rfl
    · have haccepted := hrecorded (refOf t) List.mem_cons_self
      obtain ⟨-, -, hof, -⟩ := matched_spec ht
      refine not_required_of_matched cfg hserved (hversions _ hmust) ht ?_ hs
      rw [← hof]
      exact haccepted
    · have haccepted := hrecorded (refOf p) (List.mem_cons_of_mem _ List.mem_cons_self)
      obtain ⟨-, -, hof, -⟩ := matched_spec hp
      refine not_required_of_matched cfg hserved (hversions _ hmust) hp ?_ hs
      rw [← hof]
      exact haccepted
  rw [hfalse] at hrequired
  cases hrequired

/-- A record never makes a document required. An accepted request that names the required and the noticed documents
leaves nothing to ask, and is never written again. What an event takes leaves neither terms nor privacy required. -/
theorem consent_settles (docs : LegalDocuments) (user : UserId) (now : Instant) (records : List ConsentRecord) :
    (∀ r, (legalStatusOf cfg (versionsFor cfg docs (records ++ [r]) user now)).required ⊆
      (legalStatusOf cfg (versionsFor cfg docs records user now)).required) ∧
    (∀ request records' status, accept cfg docs user request now records = .ok (records', status) →
      (∀ d ∈ (legalStatusOf cfg (versionsFor cfg docs records user now)).required ++
        (legalStatusOf cfg (versionsFor cfg docs records user now)).notices,
        ∃ item ∈ request.items, item.type = d.type ∧ item.version = d.version) →
      status = legalStatusOf cfg (versionsFor cfg docs records' user now) ∧ status.required = [] ∧
        status.notices = []) ∧
    (∀ request records' status, accept cfg docs user request now records = .ok (records', status) →
      ∀ docs' now' records₁ records₂ status', records' ⊆ records₁ →
        accept cfg docs' user request now' records₁ = .ok (records₂, status') → records₂ = records₁) ∧
    (∀ claim versions refs, (∀ type ∈ MUST_ACCEPT, SameVersions cfg docs versions type) →
      eventConsentDocuments claim now versions = .ok refs →
      ∀ d ∈ (legalStatusOf cfg (versionsFor cfg docs (records ++ refs.map (eventRecord user now)) user now)).required,
        d.type ≠ .terms ∧ d.type ≠ .privacy) := by
  refine ⟨fun r => required_subset cfg (List.subset_append_left _ _), fun request records' status h hcovers => ?_,
    fun request records' status h docs' now' records₁ records₂ status' hsub h' => ?_,
    fun claim versions refs hversions h d hd => ?_⟩
  · have haccepts := accept_ok cfg h
    have hsettled : ∀ type ∈ cfg.SERVED_LEGAL_TYPES, ∀ s,
        typeStatusOf (versionsFor cfg docs records' user now) type = some s → s.required = false ∧ s.notice = false :=
      fun type htype s hs => settled_of_accepts cfg haccepts
        (fun d hd => (hcovers d hd).imp fun item hitem => ⟨hitem.1, hitem.2.1⟩) htype hs
    refine ⟨haccepts.status, ?_, ?_⟩
    · rw [haccepts.status, List.eq_nil_iff_forall_not_mem]
      intro d hd
      obtain ⟨type, htype, s, hs, hrequired, -⟩ := (mem_required cfg).mp hd
      rw [(hsettled type htype s hs).1] at hrequired
      cases hrequired
    · rw [haccepts.status, List.eq_nil_iff_forall_not_mem]
      intro d hd
      obtain ⟨type, htype, s, hs, hnotice, -⟩ := (mem_notices cfg).mp hd
      rw [(hsettled type htype s hs).2] at hnotice
      cases hnotice
  · exact (accept_ok cfg h').idle fun item hitem => ((accept_ok cfg h).recorded item hitem).mono hsub
  · have hmust := not_required_of_event cfg hversions h d hd
    refine ⟨fun heq => hmust ?_, fun heq => hmust ?_⟩
    · rw [heq]
      decide
    · rw [heq]
      decide

/-! ## A person who accepts the first documents -/

/-- Texts are compared by their code units. -/
def byCodeUnits : Collation where
  le a b := decide (a ≤ b)
  total a b := (le_total a b).imp decide_eq_true decide_eq_true
  trans _ _ _ hab hbc := decide_eq_true (le_trans (of_decide_eq_true hab) (of_decide_eq_true hbc))
  antisymm _ _ hab hba := le_antisymm (of_decide_eq_true hab) (of_decide_eq_true hba)

def exampleSetting : Setting := ⟨[.terms, .privacy, .cookies, .subprocessors], byCodeUnits⟩

def exampleVersion (type : LegalDocumentType) (version : Text) (effectiveAt : Instant) (material : Option Bool) :
    LegalVersionRecord :=
  { type, version, sha256 := version, effectiveAt, url := type.name.toList.map Char.toNat, title := none
    summary := none, material }

/-- The second version of the terms is not material. -/
def exampleDocuments : LegalDocuments where
  rows := [exampleVersion .terms (text "2026-09-06") 10 none, exampleVersion .privacy (text "2026-09-06") 10 none,
    exampleVersion .terms (text "2026-10-26") 20 (some false)]
  keys := by decide

def exampleRequest : AcceptLegalRequest :=
  ⟨[⟨⟨.terms, text "2026-10-26", text "2026-10-26"⟩, .accepted⟩,
    ⟨⟨.privacy, text "2026-09-06", text "2026-09-06"⟩, .accepted⟩], none⟩

/-- The terms of before, and the privacy notice, are accepted at an event. -/
theorem consent_settles_example :
    (legalStatusOf exampleSetting (versionsFor exampleSetting exampleDocuments
      (exampleRequest.items.map (recordOf 7 none 30)) 7 30)).required = [] ∧
    (∀ x, accept exampleSetting exampleDocuments 7 exampleRequest 40 (exampleRequest.items.map (recordOf 7 none 30)) =
      .ok x → x.1 = exampleRequest.items.map (recordOf 7 none 30)) ∧
    (∀ d ∈ (legalStatusOf exampleSetting (versionsFor exampleSetting exampleDocuments
      ([] ++ [⟨.terms, text "2026-09-06", text "2026-09-06"⟩, ⟨.privacy, text "2026-09-06", text "2026-09-06"⟩].map
        (eventRecord 7 30)) 7 30)).required, d.type ≠ .terms ∧ d.type ≠ .privacy) := by
  have h := consent_settles exampleSetting exampleDocuments 7 30 []
  have hsame : ∀ type ∈ MUST_ACCEPT, SameVersions exampleSetting exampleDocuments exampleDocuments.rows type := by
    intro type htype
    rcases List.mem_pair.mp htype with rfl | rfl
    · exact ⟨List.Perm.refl _, by decide +kernel⟩
    · exact ⟨List.Perm.refl _, by decide +kernel⟩
  have haccept : accept exampleSetting exampleDocuments 7 exampleRequest 30 [] =
      .ok (exampleRequest.items.map (recordOf 7 none 30), ⟨[], [],
        [(.terms, ⟨text "2026-10-26", .accepted, 30⟩), (.privacy, ⟨text "2026-09-06", .accepted, 30⟩)]⟩) := by
    decide +kernel
  refine ⟨?_, fun x hx => h.2.2.1 _ _ _ haccept _ _ _ _ _ (List.Subset.refl _) hx,
    h.2.2.2 ⟨text "2026-09-06", text "2026-09-06"⟩ exampleDocuments.rows _ hsame (by decide +kernel)⟩
  have hsettled := h.2.1 _ _ _ haccept (by decide +kernel)
  rw [← hsettled.1]

end Civfix.Legal
