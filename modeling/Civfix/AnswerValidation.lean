import Civfix.CursorPages
import Civfix.UniqueIndexes

/-! # Answers to the questions of an event

A registration answers the questions of an event. A question may hang on the answer to another one, and is left out when
that answer is a different one. What is wrong is gathered by question, and the answers are taken when nothing is. -/
namespace Civfix.AnswerValidation

open CodeUnits KeysetCursors CursorPages UniqueIndexes

/-- The bounds of the shared contract. -/
structure Limits where
  MAX_SHORT_TEXT_ANSWER : ℕ
  MAX_LONG_TEXT_ANSWER : ℕ
  MAX_QUESTION_OPTIONS : ℕ

inductive QuestionKind | short_text | long_text | single_select | multi_select | checkbox | consent
  deriving DecidableEq

inductive Equals where
  | text (t : Text)
  | bool (b : Bool)

/-- Stored as `jsonb`, so the id is any text. -/
structure EventQuestionCondition where
  questionId : Text
  equals : Equals

/-- The columns of a question that its answers are checked by; an option is its value. -/
structure QuestionRecord where
  id : Uuid
  kind : QuestionKind
  required : Bool
  options : List Text
  maxSelections : Option ℕ
  showIf : Option EventQuestionCondition
  archivedAt : Option ℕ

/-- What came in the request; an entry of a list that is no text is `none`. -/
inductive AnswerValue where
  | text (t : Text)
  | list (entries : List (Option Text))
  | bool (b : Bool)
  | other

structure EventAnswerInput where
  questionId : Text
  value : AnswerValue

structure AnswerWrite where
  questionId : Uuid
  valueText : Option Text
  valueJson : Option AnswerValue

/-- Messages by field, each field once. -/
abbrev Fields := List (Text × Text)

def proto : Text := text "__proto__"

/-- `fields[key] = message`. A text that is set as the prototype of an object is dropped. -/
def Fields.set (fields : Fields) (key message : Text) : Fields :=
  if key = proto then fields else put Prod.fst fields (key, message)

/-- `Map` keeps the place of the first entry under a key and the value of the last. -/
def mapById (questions : List QuestionRecord) : List QuestionRecord := questions.foldl (put QuestionRecord.id) []

def liveQuestions (questions : List QuestionRecord) : List QuestionRecord :=
  mapById (questions.filter fun q => q.archivedAt.isNone)

def answerTo (submitted : List EventAnswerInput) (id : Text) : Option EventAnswerInput :=
  submitted.find? fun a => a.questionId = id

def meets (value : AnswerValue) : Equals → Bool
  | .bool b =>
    match value with
    | .bool v => decide (v = b)
    | _ => false
  | .text t =>
    match value with
    | .text v => decide (v = t)
    | .list entries => entries.contains (some t)
    | _ => false

def conditionSatisfied (question : QuestionRecord) (byId : List EventAnswerInput) : Bool :=
  match question.showIf with
  | none => true
  | some condition => (answerTo byId condition.questionId).any fun source => meets source.value condition.equals

def REQUIRED : Text := text "required"

section Checks

variable (limits : Limits) (question : QuestionRecord)

def maxText : ℕ :=
  if question.kind = .short_text then limits.MAX_SHORT_TEXT_ANSWER else limits.MAX_LONG_TEXT_ANSWER

def checkTextAnswer : AnswerValue → Except Text AnswerWrite
  | .text value =>
    let trimmed := trim value
    if maxText limits question < trimmed.length then
      .error (text "must be at most " ++ decimal (maxText limits question) ++ text " characters")
    else if question.required && trimmed.length = 0 then .error REQUIRED
    else .ok ⟨question.id, some trimmed, none⟩
  | _ => .error (text "must be text")

def checkSingleSelect : AnswerValue → Except Text AnswerWrite
  | .text value =>
    if value ∈ question.options then .ok ⟨question.id, some value, none⟩
    else .error (text "must be one of the offered options")
  | _ => .error (text "must be one of the offered options")

def checkMultiSelect : AnswerValue → Except Text AnswerWrite
  | .list value =>
    if limits.MAX_QUESTION_OPTIONS < value.length then .error (text "too many selections")
    else if value.any fun entry => entry.all fun v => v ∉ question.options then
      .error (text "must be a list of offered options")
    else if ¬value.Nodup then .error (text "lists the same option twice")
    else if question.maxSelections.any (· < value.length) then
      .error (text "select at most " ++ decimal (question.maxSelections.getD 0))
    else if question.required && value.length = 0 then .error REQUIRED
    else .ok ⟨question.id, none, some (.list value)⟩
  | _ => .error (text "must be a list of offered options")

def checkBooleanAnswer : AnswerValue → Except Text AnswerWrite
  | .bool value =>
    if question.required && !value then .error REQUIRED else .ok ⟨question.id, none, some (.bool value)⟩
  | _ => .error (text "must be true or false")

def checkAnswer (value : AnswerValue) : Except Text AnswerWrite :=
  match question.kind with
  | .short_text | .long_text => checkTextAnswer limits question value
  | .single_select => checkSingleSelect question value
  | .multi_select => checkMultiSelect limits question value
  | .checkbox | .consent => checkBooleanAnswer question value

end Checks

def indexSubmitted (live : List QuestionRecord) :
    List EventAnswerInput → Fields → List EventAnswerInput → Fields × List EventAnswerInput
  | [], fields, submitted => (fields, submitted)
  | answer :: answers, fields, submitted =>
    if answer.questionId ∉ live.map fun q => q.id.text then
      indexSubmitted live answers (fields.set answer.questionId (text "unknown question")) submitted
    else if answer.questionId ∈ submitted.map EventAnswerInput.questionId then
      indexSubmitted live answers (fields.set answer.questionId (text "answered more than once")) submitted
    else indexSubmitted live answers fields (submitted ++ [answer])

/-- The loop over the live questions. -/
def judge (limits : Limits) (submitted : List EventAnswerInput) :
    List QuestionRecord → Fields → List AnswerWrite → Fields × List AnswerWrite
  | [], fields, writes => (fields, writes)
  | question :: live, fields, writes =>
    let applies := conditionSatisfied question submitted
    match answerTo submitted question.id.text with
    | none =>
      if question.required && applies then judge limits submitted live (fields.set question.id.text REQUIRED) writes
      else judge limits submitted live fields writes
    | some answer =>
      if !applies then
        judge limits submitted live
          (fields.set question.id.text (text "not applicable to the other answers given")) writes
      else
        match checkAnswer limits question answer.value with
        | .error message => judge limits submitted live (fields.set question.id.text message) writes
        | .ok write => judge limits submitted live fields (writes ++ [write])

def validateAnswers (limits : Limits) (questions : List QuestionRecord) (answers : List EventAnswerInput) :
    Except Fields (List AnswerWrite) :=
  let live := liveQuestions questions
  let (fields, submitted) := indexSubmitted live answers [] []
  let (fields, writes) := judge limits submitted live fields []
  if fields ≠ [] then .error fields else .ok writes

/-! ## What an answer has to be -/

variable {limits : Limits} {question q : QuestionRecord} {value : AnswerValue} {live : List QuestionRecord}
  {answers submitted : List EventAnswerInput} {fields : Fields} {writes : List AnswerWrite}

/-- The value has the shape of the question and keeps to its limits and choices. -/
def Fits (limits : Limits) (question : QuestionRecord) (value : AnswerValue) : Prop :=
  match question.kind with
  | .short_text | .long_text => ∃ t, value = .text t ∧ (trim t).length ≤ maxText limits question
  | .single_select => ∃ t ∈ question.options, value = .text t
  | .multi_select => ∃ ts : List Text, value = .list (ts.map some) ∧ ts.length ≤ limits.MAX_QUESTION_OPTIONS ∧
      (∀ t ∈ ts, t ∈ question.options) ∧ ts.Nodup ∧ ∀ m ∈ question.maxSelections, ts.length ≤ m
  | .checkbox | .consent => ∃ b, value = .bool b

/-- The question is not left blank. -/
def Filled (question : QuestionRecord) (value : AnswerValue) : Prop :=
  match question.kind with
  | .short_text | .long_text => ∀ t, value = .text t → trim t ≠ []
  | .single_select => True
  | .multi_select => value ≠ .list []
  | .checkbox | .consent => value ≠ .bool false

theorem checkTextAnswer_eq_ok {w : AnswerWrite} : checkTextAnswer limits question value = .ok w ↔
    (∃ t, value = .text t ∧ (trim t).length ≤ maxText limits question ∧ (question.required = true → trim t ≠ []) ∧
      ⟨question.id, some (trim t), none⟩ = w) := by
  cases value with
  | text t =>
    simp only [checkTextAnswer, AnswerValue.text.injEq, exists_eq_left', Bool.and_eq_true, decide_eq_true_eq,
      List.length_eq_zero_iff]
    split
    · next hlong => exact iff_of_false (fun h => by cases h) fun h => absurd h.1 (Nat.not_le.mpr hlong)
    · next hshort =>
      rw [and_iff_right (Nat.not_lt.mp hshort)]
      split
      · next hblank => exact iff_of_false (fun h => by cases h) fun h => h.1 hblank.1 hblank.2
      · next hfilled =>
        rw [Except.ok.injEq, and_iff_right fun hreq hnil => hfilled ⟨hreq, hnil⟩]
  | list entries => exact iff_of_false (fun h => by cases h) fun ⟨t, h, _⟩ => by cases h
  | bool b => exact iff_of_false (fun h => by cases h) fun ⟨t, h, _⟩ => by cases h
  | other => exact iff_of_false (fun h => by cases h) fun ⟨t, h, _⟩ => by cases h

theorem checkSingleSelect_eq_ok {w : AnswerWrite} : checkSingleSelect question value = .ok w ↔
    ∃ t ∈ question.options, value = .text t ∧ ⟨question.id, some t, none⟩ = w := by
  cases value with
  | text t =>
    simp only [checkSingleSelect, AnswerValue.text.injEq]
    split
    · next hmem =>
      rw [Except.ok.injEq]
      exact ⟨fun h => ⟨t, hmem, rfl, h⟩, by rintro ⟨_, _, rfl, h⟩; exact h⟩
    · next hnot => exact iff_of_false (fun h => by cases h) fun ⟨u, hu, heq, _⟩ => hnot (heq ▸ hu)
  | list entries => exact iff_of_false (fun h => by cases h) fun ⟨t, _, h, _⟩ => by cases h
  | bool b => exact iff_of_false (fun h => by cases h) fun ⟨t, _, h, _⟩ => by cases h
  | other => exact iff_of_false (fun h => by cases h) fun ⟨t, _, h, _⟩ => by cases h

/-- A list of entries that are offered is a list of texts. -/
theorem offered_iff {entries : List (Option Text)} {options : List Text} :
    (entries.any fun entry => entry.all fun v => v ∉ options) = false ↔
      ∃ ts : List Text, entries = ts.map some ∧ ∀ t ∈ ts, t ∈ options := by
  rw [List.any_eq_false]
  constructor
  · intro h
    have hsome : ∀ entry ∈ entries, ∃ t ∈ options, some t = entry := by
      intro entry hmem
      have hentry := h entry hmem
      cases entry with
      | none => exact absurd rfl hentry
      | some t =>
        rw [Option.all_some, decide_eq_true_eq, not_not] at hentry
        exact ⟨t, hentry, rfl⟩
    induction entries with
    | nil => exact ⟨[], rfl, fun t ht => absurd ht List.not_mem_nil⟩
    | cons entry entries ih =>
      obtain ⟨t, ht, rfl⟩ := hsome entry List.mem_cons_self
      obtain ⟨ts, rfl, hts⟩ := ih (fun e he => h e (List.mem_cons_of_mem _ he)) fun e he =>
        hsome e (List.mem_cons_of_mem _ he)
      exact ⟨t :: ts, rfl, List.forall_mem_cons.mpr ⟨ht, hts⟩⟩
  · rintro ⟨ts, rfl, hts⟩ entry hmem
    obtain ⟨t, ht, rfl⟩ := List.mem_map.mp hmem
    rw [Option.all_some, decide_eq_true_eq, not_not]
    exact hts t ht

theorem checkMultiSelect_eq_ok {w : AnswerWrite} : checkMultiSelect limits question value = .ok w ↔
    ∃ ts : List Text, value = .list (ts.map some) ∧ ts.length ≤ limits.MAX_QUESTION_OPTIONS ∧
      (∀ t ∈ ts, t ∈ question.options) ∧ ts.Nodup ∧ (∀ m ∈ question.maxSelections, ts.length ≤ m) ∧
      (question.required = true → ts ≠ []) ∧ ⟨question.id, none, some value⟩ = w := by
  cases value with
  | list entries =>
    simp only [checkMultiSelect, AnswerValue.list.injEq]
    by_cases hmany : limits.MAX_QUESTION_OPTIONS < entries.length
    · rw [if_pos hmany]
      refine iff_of_false (fun h => by cases h) ?_
      rintro ⟨ts, rfl, hle, -⟩
      rw [List.length_map] at hmany
      exact absurd hle (Nat.not_le.mpr hmany)
    rw [if_neg hmany]
    cases hoffered : entries.any fun entry => entry.all fun v => v ∉ question.options with
    | true =>
      rw [if_pos rfl]
      refine iff_of_false (fun h => by cases h) ?_
      rintro ⟨ts, rfl, -, hts, -⟩
      rw [offered_iff.mpr ⟨ts, rfl, hts⟩] at hoffered
      cases hoffered
    | false =>
      obtain ⟨ts, rfl, hts⟩ := offered_iff.mp hoffered
      have hinj : ∀ us : List Text, ts.map some = us.map some ↔ ts = us := fun us =>
        (List.map_injective_iff.mpr (Option.some_injective Text)).eq_iff
      rw [List.length_map] at hmany
      simp only [Bool.false_eq_true, if_false, hinj, exists_eq_left', List.length_map,
        List.nodup_map_iff (Option.some_injective Text), Option.any_eq_true, decide_eq_true_eq, Bool.and_eq_true,
        List.length_eq_zero_iff]
      rw [and_iff_right (Nat.not_lt.mp hmany), and_iff_right hts]
      by_cases hdistinct : ts.Nodup
      · rw [if_neg (not_not.mpr hdistinct), and_iff_right hdistinct]
        split
        · next hmax =>
          obtain ⟨m, hm, hlt⟩ := hmax
          exact iff_of_false (fun h => by cases h) fun h => absurd (h.1 m hm) (Nat.not_le.mpr hlt)
        · next hmax =>
          have hall : ∀ m ∈ question.maxSelections, ts.length ≤ m := fun m hm =>
            Nat.not_lt.mp fun hlt => hmax ⟨m, hm, hlt⟩
          rw [and_iff_right hall]
          split
          · next hblank => exact iff_of_false (fun h => by cases h) fun h => h.1 hblank.1 hblank.2
          · next hfilled => rw [Except.ok.injEq, and_iff_right fun hreq hnil => hfilled ⟨hreq, hnil⟩]
      · rw [if_pos hdistinct]
        exact iff_of_false (fun h => by cases h) fun h => hdistinct h.1
  | text t => exact iff_of_false (fun h => by cases h) fun ⟨t, h, _⟩ => by cases h
  | bool b => exact iff_of_false (fun h => by cases h) fun ⟨t, h, _⟩ => by cases h
  | other => exact iff_of_false (fun h => by cases h) fun ⟨t, h, _⟩ => by cases h

theorem checkBooleanAnswer_eq_ok {w : AnswerWrite} : checkBooleanAnswer question value = .ok w ↔
    ∃ b, value = .bool b ∧ (question.required = true → b = true) ∧ ⟨question.id, none, some value⟩ = w := by
  cases value with
  | bool b =>
    simp only [checkBooleanAnswer, AnswerValue.bool.injEq, exists_eq_left', Bool.and_eq_true, Bool.not_eq_true']
    split
    · next hblank => exact iff_of_false (fun h => by cases h) fun h => by rw [h.1 hblank.1] at hblank; cases hblank.2
    · next hfilled =>
      rw [Except.ok.injEq, and_iff_right fun hreq => (Bool.not_eq_false b).mp fun hfalse => hfilled ⟨hreq, hfalse⟩]
  | text t => exact iff_of_false (fun h => by cases h) fun ⟨t, h, _⟩ => by cases h
  | list entries => exact iff_of_false (fun h => by cases h) fun ⟨t, h, _⟩ => by cases h
  | other => exact iff_of_false (fun h => by cases h) fun ⟨t, h, _⟩ => by cases h

/-- An answer is taken when it fits and does not leave blank what is required. -/
theorem exists_checkAnswer_iff : (∃ w, checkAnswer limits question value = .ok w) ↔
    Fits limits question value ∧ (question.required = true → Filled question value) := by
  unfold checkAnswer Fits Filled
  cases question.kind with
  | short_text | long_text =>
    simp only [checkTextAnswer_eq_ok]
    constructor
    · rintro ⟨w, t, rfl, hle, hfilled, -⟩
      refine ⟨⟨t, rfl, hle⟩, fun hreq u hu => ?_⟩
      cases hu
      exact hfilled hreq
    · rintro ⟨⟨t, rfl, hle⟩, hfilled⟩
      exact ⟨_, t, rfl, hle, fun hreq => hfilled hreq t rfl, rfl⟩
  | single_select =>
    simp only [checkSingleSelect_eq_ok, implies_true, and_true]
    exact ⟨fun ⟨w, t, ht, hv, _⟩ => ⟨t, ht, hv⟩, fun ⟨t, ht, hv⟩ => ⟨_, t, ht, hv, rfl⟩⟩
  | multi_select =>
    simp only [checkMultiSelect_eq_ok]
    constructor
    · rintro ⟨w, ts, rfl, hle, hts, hdistinct, hmax, hfilled, -⟩
      refine ⟨⟨ts, rfl, hle, hts, hdistinct, hmax⟩, fun hreq hnil => hfilled hreq ?_⟩
      rw [AnswerValue.list.injEq, List.map_eq_nil_iff] at hnil
      exact hnil
    · rintro ⟨⟨ts, rfl, hle, hts, hdistinct, hmax⟩, hfilled⟩
      refine ⟨_, ts, rfl, hle, hts, hdistinct, hmax, fun hreq hnil => hfilled hreq ?_, rfl⟩
      rw [hnil, List.map_nil]
  | checkbox | consent =>
    simp only [checkBooleanAnswer_eq_ok]
    constructor
    · rintro ⟨w, b, rfl, hticked, -⟩
      refine ⟨⟨b, rfl⟩, fun hreq hfalse => ?_⟩
      rw [hticked hreq] at hfalse
      cases hfalse
    · rintro ⟨⟨b, rfl⟩, hfilled⟩
      refine ⟨_, b, rfl, fun hreq => (Bool.not_eq_false b).mp fun hfalse => hfilled hreq ?_, rfl⟩
      rw [hfalse]

theorem checkAnswer_questionId {w : AnswerWrite} (h : checkAnswer limits question value = .ok w) :
    w.questionId = question.id := by
  unfold checkAnswer at h
  split at h
  · obtain ⟨t, -, -, -, rfl⟩ := checkTextAnswer_eq_ok.mp h
    rfl
  · obtain ⟨t, -, -, -, rfl⟩ := checkTextAnswer_eq_ok.mp h
    rfl
  · obtain ⟨t, -, -, rfl⟩ := checkSingleSelect_eq_ok.mp h
    rfl
  · obtain ⟨ts, -, -, -, -, -, -, rfl⟩ := checkMultiSelect_eq_ok.mp h
    rfl
  · obtain ⟨b, -, -, rfl⟩ := checkBooleanAnswer_eq_ok.mp h
    rfl
  · obtain ⟨b, -, -, rfl⟩ := checkBooleanAnswer_eq_ok.mp h
    rfl

/-! ## The two loops -/

theorem uuid_ne_proto (id : Uuid) : id.text ≠ proto := fun h => by
  have hid := id.isUuid
  rw [h] at hid
  exact absurd hid (by decide)

theorem set_proto {message : Text} : fields.set proto message = fields := if_pos rfl

theorem set_ne_nil {key message : Text} (hkey : key ≠ proto) : fields.set key message ≠ [] := by
  rw [Fields.set, if_neg hkey]
  intro hnil
  have hmem : (key, message) ∈ put Prod.fst fields (key, message) := mem_put.mpr (.inl rfl)
  rw [hnil] at hmem
  cases hmem

theorem set_ne_nil_of_ne_nil {key message : Text} (h : fields ≠ []) : fields.set key message ≠ [] := by
  by_cases hkey : key = proto
  · rwa [hkey, set_proto]
  · exact set_ne_nil hkey

/-- The answers whose question has a name that an object can hold. -/
def named (answers : List EventAnswerInput) : List EventAnswerInput := answers.filter fun a => a.questionId ≠ proto

theorem proto_not_live : proto ∉ live.map fun q => q.id.text := fun h => by
  obtain ⟨q, -, hq⟩ := List.mem_map.mp h
  exact uuid_ne_proto q.id hq

theorem indexSubmitted_faulty (h : fields ≠ []) : (indexSubmitted live answers fields submitted).1 ≠ [] := by
  induction answers generalizing fields submitted with
  | nil => exact h
  | cons a answers ih =>
    unfold indexSubmitted
    split
    · exact ih (set_ne_nil_of_ne_nil h)
    · split
      · exact ih (set_ne_nil_of_ne_nil h)
      · exact ih h

/-- The answers that are gathered when none of them is unknown or a second one. -/
theorem indexSubmitted_eq (hknown : ∀ a ∈ named answers, a.questionId ∈ live.map fun q => q.id.text)
    (honce : ((submitted ++ named answers).map EventAnswerInput.questionId).Nodup) :
    indexSubmitted live answers [] submitted = ([], submitted ++ named answers) := by
  induction answers generalizing submitted with
  | nil => rw [indexSubmitted, named, List.filter_nil, List.append_nil]
  | cons a answers ih =>
    unfold indexSubmitted
    by_cases hproto : a.questionId = proto
    · have hnamed : named (a :: answers) = named answers :=
        List.filter_cons_of_neg fun h => of_decide_eq_true h hproto
      rw [hnamed] at hknown honce ⊢
      rw [hproto, if_pos proto_not_live, set_proto]
      exact ih hknown honce
    · have hnamed : named (a :: answers) = a :: named answers := List.filter_cons_of_pos (decide_eq_true hproto)
      rw [hnamed] at hknown honce ⊢
      have hnew : a.questionId ∉ submitted.map EventAnswerInput.questionId := fun hmem => by
        rw [List.map_append, List.map_cons] at honce
        exact List.disjoint_of_nodup_append honce hmem List.mem_cons_self
      rw [if_neg (not_not.mpr (hknown a List.mem_cons_self)), if_neg hnew,
        ih (fun b hb => hknown b (List.mem_cons_of_mem a hb)) (by rwa [List.append_assoc, List.singleton_append]),
        List.append_assoc, List.singleton_append]

theorem indexSubmitted_clean (h : (indexSubmitted live answers fields submitted).1 = [])
    (honce : (submitted.map EventAnswerInput.questionId).Nodup) :
    (∀ a ∈ named answers, a.questionId ∈ live.map fun q => q.id.text) ∧
      ((submitted ++ named answers).map EventAnswerInput.questionId).Nodup := by
  induction answers generalizing fields submitted with
  | nil => exact ⟨fun a ha => absurd ha List.not_mem_nil, by rwa [named, List.filter_nil, List.append_nil]⟩
  | cons a answers ih =>
    unfold indexSubmitted at h
    by_cases hproto : a.questionId = proto
    · have hnamed : named (a :: answers) = named answers :=
        List.filter_cons_of_neg fun h => of_decide_eq_true h hproto
      rw [hproto, if_pos proto_not_live] at h
      rw [hnamed]
      exact ih h honce
    · have hnamed : named (a :: answers) = a :: named answers := List.filter_cons_of_pos (decide_eq_true hproto)
      split at h
      · exact absurd h (indexSubmitted_faulty (set_ne_nil hproto))
      · next hknown =>
        split at h
        · exact absurd h (indexSubmitted_faulty (set_ne_nil hproto))
        · next hnew =>
          have honce' : ((submitted ++ [a]).map EventAnswerInput.questionId).Nodup := by
            rw [List.map_append, List.map_singleton]
            exact List.nodup_append'.mpr ⟨honce, List.nodup_singleton _, List.disjoint_singleton.mpr hnew⟩
          obtain ⟨hrest, hids⟩ := ih h honce'
          rw [hnamed]
          refine ⟨List.forall_mem_cons.mpr ⟨not_not.mp hknown, hrest⟩, ?_⟩
          rwa [List.append_assoc, List.singleton_append] at hids

/-- The question is left out where it may be, and answered as it should where it is not. -/
def Fine (limits : Limits) (submitted : List EventAnswerInput) (q : QuestionRecord) : Prop :=
  match answerTo submitted q.id.text with
  | none => ¬(q.required = true ∧ conditionSatisfied q submitted = true)
  | some a => conditionSatisfied q submitted = true ∧ ∃ w, checkAnswer limits q a.value = .ok w

/-- What the question adds to the writes. -/
def writeOf (limits : Limits) (submitted : List EventAnswerInput) (q : QuestionRecord) : Option AnswerWrite :=
  (answerTo submitted q.id.text).bind fun a => (checkAnswer limits q a.value).toOption

theorem judge_faulty (h : fields ≠ []) : (judge limits submitted live fields writes).1 ≠ [] := by
  induction live generalizing fields writes with
  | nil => exact h
  | cons q live ih =>
    unfold judge
    dsimp only
    split
    · split
      · exact ih (set_ne_nil_of_ne_nil h)
      · exact ih h
    · split
      · exact ih (set_ne_nil_of_ne_nil h)
      · split
        · exact ih (set_ne_nil_of_ne_nil h)
        · exact ih h

theorem judge_clean : (judge limits submitted live [] writes).1 = [] ↔ ∀ q ∈ live, Fine limits submitted q := by
  induction live generalizing writes with
  | nil => exact iff_of_true rfl fun q hq => absurd hq List.not_mem_nil
  | cons q live ih =>
    rw [List.forall_mem_cons, judge, Fine]
    have hfaulty : ∀ message : Text, (judge limits submitted live (Fields.set [] q.id.text message) writes).1 ≠ [] :=
      fun message => judge_faulty (set_ne_nil (uuid_ne_proto q.id))
    cases answerTo submitted q.id.text with
    | none =>
      dsimp only
      simp only [Bool.and_eq_true]
      split
      · next hmissing => exact iff_of_false (hfaulty _) fun h => h.1 hmissing
      · next hleft => rw [and_iff_right hleft, ih]
    | some a =>
      dsimp only
      cases conditionSatisfied q submitted with
      | false => exact iff_of_false (hfaulty _) fun h => by cases h.1.1
      | true =>
        rw [Bool.not_true, if_neg Bool.false_ne_true, and_iff_right rfl]
        cases hcheck : checkAnswer limits q a.value with
        | error message => exact iff_of_false (hfaulty _) fun h => by obtain ⟨w, hw⟩ := h.1; cases hw
        | ok w =>
          dsimp only
          rw [ih, and_iff_right ⟨w, rfl⟩]

theorem judge_writes (hfine : ∀ q ∈ live, Fine limits submitted q) :
    (judge limits submitted live [] writes).2 = writes ++ live.filterMap (writeOf limits submitted) := by
  induction live generalizing writes with
  | nil => rw [judge, List.filterMap_nil, List.append_nil]
  | cons q live ih =>
    obtain ⟨hq, hrest⟩ := List.forall_mem_cons.mp hfine
    rw [Fine] at hq
    rw [judge]
    cases hanswer : answerTo submitted q.id.text with
    | none =>
      rw [hanswer] at hq
      have hnone : writeOf limits submitted q = none := by rw [writeOf, hanswer, Option.bind_none]
      dsimp only
      rw [if_neg fun h => hq (Bool.and_eq_true_iff.mp h), ih hrest, List.filterMap_cons_none hnone]
    | some a =>
      rw [hanswer] at hq
      obtain ⟨hshown, w, hw⟩ := hq
      have hsome : writeOf limits submitted q = some w := by
        rw [writeOf, hanswer, Option.bind_some, hw]
        rfl
      dsimp only
      rw [hshown, Bool.not_true, if_neg Bool.false_ne_true, hw]
      dsimp only
      rw [ih hrest, List.filterMap_cons_some hsome, List.append_assoc, List.singleton_append]

/-! ## Answers that are taken -/

/-- The question is shown with these answers. -/
def Shown (answers : List EventAnswerInput) (q : QuestionRecord) : Prop :=
  ∀ c ∈ q.showIf, ∃ a ∈ answers, a.questionId = c.questionId ∧ meets a.value c.equals = true

/-- What answers have to be; a required question that is left blank is not answered. -/
structure Valid (limits : Limits) (questions : List QuestionRecord) (answers : List EventAnswerInput) : Prop where
  distinct : (answers.map EventAnswerInput.questionId).Nodup
  known : ∀ a ∈ answers, a.questionId ∈ (liveQuestions questions).map fun q => q.id.text
  fitting : ∀ q ∈ liveQuestions questions, ∀ a ∈ answers, a.questionId = q.id.text → Fits limits q a.value
  shown : ∀ q ∈ liveQuestions questions, ∀ a ∈ answers, a.questionId = q.id.text → Shown answers q
  answered : ∀ q ∈ liveQuestions questions, q.required = true → Shown answers q →
    ∃ a ∈ answers, a.questionId = q.id.text ∧ Filled q a.value

theorem answerTo_eq_some {a : EventAnswerInput} {id : Text}
    (hdistinct : (answers.map EventAnswerInput.questionId).Nodup) :
    answerTo answers id = some a ↔ a ∈ answers ∧ a.questionId = id := by
  constructor
  · intro h
    have hid := List.find?_some (p := fun b : EventAnswerInput => decide (b.questionId = id)) h
    exact ⟨List.mem_of_find?_eq_some h, of_decide_eq_true hid⟩
  · rintro ⟨hmem, hid⟩
    cases h : answerTo answers id with
    | none => exact absurd (decide_eq_true hid) (List.find?_eq_none.mp h a hmem)
    | some b =>
      have hb := List.find?_some (p := fun b : EventAnswerInput => decide (b.questionId = id)) h
      exact congrArg some (List.inj_on_of_nodup_map hdistinct (List.mem_of_find?_eq_some h) hmem
        ((of_decide_eq_true hb).trans hid.symm))

theorem answerTo_eq_none {id : Text} : answerTo answers id = none ↔ ∀ a ∈ answers, a.questionId ≠ id := by
  rw [answerTo, List.find?_eq_none]
  simp only [decide_eq_true_eq]

theorem conditionSatisfied_iff (hdistinct : (answers.map EventAnswerInput.questionId).Nodup) :
    conditionSatisfied q answers = true ↔ Shown answers q := by
  unfold conditionSatisfied Shown
  cases q.showIf with
  | none => exact iff_of_true rfl fun c hc => by cases hc
  | some c =>
    simp only [Option.mem_some_iff, forall_eq', Option.any_eq_true, answerTo_eq_some hdistinct, and_assoc]

/-- A question is fine when it is answered as it should be, or left out where it may be. -/
theorem fine_iff (hdistinct : (answers.map EventAnswerInput.questionId).Nodup) : Fine limits answers q ↔
    (∀ a ∈ answers, a.questionId = q.id.text → Fits limits q a.value ∧ Shown answers q) ∧
      (q.required = true → Shown answers q → ∃ a ∈ answers, a.questionId = q.id.text ∧ Filled q a.value) := by
  rw [Fine, conditionSatisfied_iff hdistinct]
  cases hanswer : answerTo answers q.id.text with
  | none =>
    rw [answerTo_eq_none] at hanswer
    constructor
    · intro hleft
      exact ⟨fun a ha hid => absurd hid (hanswer a ha), fun hreq hshown => absurd ⟨hreq, hshown⟩ hleft⟩
    · rintro ⟨-, hanswered⟩ ⟨hreq, hshown⟩
      obtain ⟨a, ha, hid, -⟩ := hanswered hreq hshown
      exact hanswer a ha hid
  | some a =>
    obtain ⟨ha, hid⟩ := (answerTo_eq_some hdistinct).mp hanswer
    have honly : ∀ b ∈ answers, b.questionId = q.id.text → b = a := fun b hb hb' =>
      List.inj_on_of_nodup_map hdistinct hb ha (hb'.trans hid.symm)
    dsimp only
    rw [exists_checkAnswer_iff]
    constructor
    · rintro ⟨hshown, hfits, hfilled⟩
      refine ⟨fun b hb hb' => ?_, fun hreq _ => ⟨a, ha, hid, hfilled hreq⟩⟩
      rw [honly b hb hb']
      exact ⟨hfits, hshown⟩
    · rintro ⟨heach, hanswered⟩
      obtain ⟨hfits, hshown⟩ := heach a ha hid
      refine ⟨hshown, hfits, fun hreq => ?_⟩
      obtain ⟨b, hb, hb', hfilled⟩ := hanswered hreq hshown
      rwa [honly b hb hb'] at hfilled

theorem nodup_mapById (questions : List QuestionRecord) : ((mapById questions).map QuestionRecord.id).Nodup := by
  suffices h : ∀ acc : List QuestionRecord, (acc.map QuestionRecord.id).Nodup →
      ((questions.foldl (put QuestionRecord.id) acc).map QuestionRecord.id).Nodup from h [] List.nodup_nil
  induction questions with
  | nil => exact fun _ h => h
  | cons q questions ih => exact fun acc h => ih _ (nodup_put h)

/-- What the loops leave is judged by the answers under names that an object can hold. -/
theorem validateAnswers_eq_ok {questions : List QuestionRecord} :
    validateAnswers limits questions answers = .ok writes ↔
    Valid limits questions (named answers) ∧
      (liveQuestions questions).filterMap (writeOf limits (named answers)) = writes := by
  unfold validateAnswers
  dsimp only
  constructor
  · intro h
    by_cases hclean : (indexSubmitted (liveQuestions questions) answers [] []).1 = []
    · obtain ⟨hknown, hdistinct⟩ := indexSubmitted_clean hclean List.nodup_nil
      have hindex : indexSubmitted (liveQuestions questions) answers [] [] = ([], [] ++ named answers) :=
        indexSubmitted_eq hknown hdistinct
      rw [List.nil_append] at hdistinct hindex
      rw [hindex] at h
      dsimp only at h
      split at h
      · cases h
      · next hjudge =>
        have hfine := judge_clean.mp (not_not.mp hjudge)
        rw [judge_writes hfine, List.nil_append, Except.ok.injEq] at h
        have hall := fun q hq => (fine_iff hdistinct).mp (hfine q hq)
        exact ⟨⟨hdistinct, hknown, fun q hq a ha hid => ((hall q hq).1 a ha hid).1,
          fun q hq a ha hid => ((hall q hq).1 a ha hid).2, fun q hq => (hall q hq).2⟩, h⟩
    · rw [if_pos (judge_faulty hclean)] at h
      cases h
  · rintro ⟨hvalid, rfl⟩
    have hindex : indexSubmitted (liveQuestions questions) answers [] [] = ([], [] ++ named answers) :=
      indexSubmitted_eq hvalid.known hvalid.distinct
    rw [List.nil_append] at hindex
    have hfine : ∀ q ∈ liveQuestions questions, Fine limits (named answers) q := fun q hq =>
      (fine_iff hvalid.distinct).mpr ⟨fun a ha hid => ⟨hvalid.fitting q hq a ha hid, hvalid.shown q hq a ha hid⟩,
        hvalid.answered q hq⟩
    rw [hindex]
    dsimp only
    rw [if_neg (not_not.mpr (judge_clean.mpr hfine)), judge_writes hfine, List.nil_append]

theorem writeOf_eq_some {w : AnswerWrite} (h : writeOf limits submitted q = some w) :
    w.questionId = q.id ∧ ∃ a, answerTo submitted q.id.text = some a := by
  obtain ⟨a, ha, hcheck⟩ := Option.bind_eq_some_iff.mp h
  refine ⟨?_, a, ha⟩
  cases hres : checkAnswer limits q a.value with
  | error message =>
    rw [hres] at hcheck
    cases hcheck
  | ok w' =>
    rw [hres] at hcheck
    obtain rfl : w' = w := Option.some.inj hcheck
    exact checkAnswer_questionId hres

/-- Each answered question is written once. -/
theorem writes_perm {questions : List QuestionRecord} (h : Valid limits questions answers) :
    (((liveQuestions questions).filterMap (writeOf limits answers)).map fun w => w.questionId.text).Perm
      (answers.map EventAnswerInput.questionId) := by
  have hlive := nodup_mapById (questions.filter fun q => q.archivedAt.isNone)
  have hnodup : (((liveQuestions questions).filterMap
    (writeOf limits answers)).map fun w => w.questionId.text).Nodup := by
    refine List.pairwise_map.mpr (List.pairwise_filterMap.mpr ((List.pairwise_map.mp hlive).imp ?_))
    intro q q' hne w hw w' hw' htext
    refine hne ?_
    rw [← (writeOf_eq_some hw).1, ← (writeOf_eq_some hw').1]
    exact Uuid.ext htext
  refine (List.perm_ext_iff_of_nodup hnodup h.distinct).mpr fun id => ?_
  rw [List.mem_map, List.mem_map]
  constructor
  · rintro ⟨w, hw, rfl⟩
    obtain ⟨q, -, hq⟩ := List.mem_filterMap.mp hw
    obtain ⟨hid, a, ha⟩ := writeOf_eq_some hq
    obtain ⟨hmem, ha⟩ := (answerTo_eq_some h.distinct).mp ha
    exact ⟨a, hmem, by rw [ha, hid]⟩
  · rintro ⟨a, ha, rfl⟩
    obtain ⟨q, hq, hid⟩ := List.mem_map.mp (h.known a ha)
    have hanswer := (answerTo_eq_some h.distinct).mpr ⟨ha, hid.symm⟩
    have hfilled : q.required = true → Filled q a.value := fun hreq => by
      obtain ⟨b, hb, hb', hfilled⟩ := h.answered q hq hreq (h.shown q hq a ha hid.symm)
      rwa [List.inj_on_of_nodup_map h.distinct hb ha (hb'.trans hid)] at hfilled
    obtain ⟨w, hw⟩ := exists_checkAnswer_iff.mpr ⟨h.fitting q hq a ha hid.symm, hfilled⟩
    refine ⟨w, List.mem_filterMap.mpr ⟨q, hq, ?_⟩, ?_⟩
    · rw [writeOf, hanswer, Option.bind_some, hw]
      rfl
    · rw [checkAnswer_questionId hw, hid]

/-- The answers are taken exactly when they are valid, and then each of them is written once. -/
def Judged (limits : Limits) (questions : List QuestionRecord) (answers : List EventAnswerInput) : Prop :=
  ((∃ writes, validateAnswers limits questions answers = .ok writes) ↔ Valid limits questions answers) ∧
    ∀ writes, validateAnswers limits questions answers = .ok writes →
      (writes.map fun w => w.questionId.text).Perm (answers.map EventAnswerInput.questionId)

theorem named_of_forall (h : ∀ a ∈ answers, a.questionId ≠ proto) : named answers = answers :=
  List.filter_eq_self.mpr fun a ha => decide_eq_true (h a ha)

theorem not_proto_of_valid {questions : List QuestionRecord} (h : Valid limits questions answers) :
    ∀ a ∈ answers, a.questionId ≠ proto := fun a ha heq => proto_not_live (heq ▸ h.known a ha)

/-- Answers are judged as they should be, unless the only fault is an unknown question of the name of a prototype. -/
theorem judged_iff (limits : Limits) (questions : List QuestionRecord) (answers : List EventAnswerInput) :
    Judged limits questions answers ↔
      (∀ a ∈ answers, a.questionId ≠ proto) ∨ ¬Valid limits questions (named answers) := by
  constructor
  · intro h
    by_contra hboth
    obtain ⟨hproto, hvalid⟩ := not_or.mp hboth
    have hok := validateAnswers_eq_ok.mpr ⟨not_not.mp hvalid, rfl⟩
    exact hproto (not_proto_of_valid (h.1.mp ⟨_, hok⟩))
  · rintro (hnone | hfault)
    · have hnamed := named_of_forall hnone
      constructor
      · constructor
        · rintro ⟨writes, hok⟩
          have hvalid := (validateAnswers_eq_ok.mp hok).1
          rwa [hnamed] at hvalid
        · intro hvalid
          exact ⟨_, validateAnswers_eq_ok.mpr ⟨by rwa [hnamed], rfl⟩⟩
      · intro writes hok
        obtain ⟨hvalid, rfl⟩ := validateAnswers_eq_ok.mp hok
        rw [hnamed] at hvalid ⊢
        exact writes_perm hvalid
    · have hnot : ∀ writes, validateAnswers limits questions answers ≠ .ok writes := fun writes hok =>
        hfault (validateAnswers_eq_ok.mp hok).1
      refine ⟨iff_of_false (fun ⟨writes, hok⟩ => hnot writes hok) fun hvalid => hfault ?_, fun writes hok =>
        absurd hok (hnot writes)⟩
      rwa [named_of_forall (not_proto_of_valid hvalid)]

/-- An answer to no question, which nobody is told of. -/
def prototypeAnswer : EventAnswerInput := ⟨proto, .bool true⟩

theorem prototype_taken (limits : Limits) : validateAnswers limits [] [prototypeAnswer] = .ok [] := rfl

theorem prototype_misjudged : ¬Judged ⟨200, 2000, 30⟩ [] [prototypeAnswer] := fun h =>
  not_proto_of_valid (h.1.mp ⟨[], prototype_taken _⟩) prototypeAnswer (List.mem_singleton_self _) rfl

end Civfix.AnswerValidation
