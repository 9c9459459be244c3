import Civfix.InboundHtml

/-! # What the sanitizer lets through

Each branch of the scan writes text without `<` or an allowed tag, and moves on; so the scan ends, and every `<` of what
it wrote begins an allowed tag whose links are safe. -/
namespace Civfix.InboundHtml

open CodeUnits TextScans TagTexts

/-! ## The grammar -/

/-- A link of an allowed scheme, whose letters may be of either case. -/
def HasScheme (t : Text) : Prop := ∃ scheme ∈ ["http:", "https:", "mailto:"], text scheme <+: t.map lower

/-- The value decoded once and cleaned as a browser cleans a URL, whichever of the two cleanings comes first. -/
def SafeHref (value : Text) : Prop :=
  HasScheme (withoutUrlEdges (withoutUrlBreaks (decodeEntities value))) ∧
    HasScheme (withoutUrlBreaks (withoutUrlEdges (decodeEntities value)))

theorem lessThan_not_mem_allowedAttrs (tag name : Text) (h : name ∈ (ALLOWED_ATTRS tag).getD []) : lessThan ∉ name := by
  rw [ALLOWED_ATTRS] at h
  split_ifs at h
  · rw [Option.getD_some] at h
    rcases List.mem_pair.mp h with rfl | rfl <;> decide
  · rw [Option.getD_some] at h
    rcases List.mem_pair.mp h with rfl | rfl <;> decide
  · cases h

/-- The allowed tags with their attributes, and links that `safeHref` accepts. -/
def linkGrammar (safeHref : Text → Prop) : Grammar where
  tags := ALLOWED_TAGS
  attrs tag := (ALLOWED_ATTRS tag).getD []
  safe name value := name = text "href" → safeHref value
  plainTags := by decide
  plainAttrs := lessThan_not_mem_allowedAttrs

def safeGrammar : Grammar := linkGrammar SafeHref

/-! ## Values -/

section

variable {c : CodeUnit} {t v : Text}

theorem escapeAttr_append (t u : Text) : escapeAttr (t ++ u) = escapeAttr t ++ escapeAttr u := by
  simp only [escapeAttr, replaceUnit_append]

theorem escapeAttr_eq_flatMap (t : Text) : escapeAttr t = t.flatMap fun c => escapeAttr [c] := by
  induction t with
  | nil => rfl
  | cons c t ih => rw [← List.singleton_append, escapeAttr_append, ih, List.flatMap_append, List.flatMap_singleton]

theorem escapeAttr_of_plain (hamp : c ≠ 38) (hquote : c ≠ doubleQuote) (hlt : c ≠ lessThan) (hgt : c ≠ greaterThan) :
    escapeAttr [c] = [c] := by
  simp only [escapeAttr, replaceUnit, List.flatMap_singleton, if_neg hamp, if_neg hquote, if_neg hlt, if_neg hgt]

/-- One unit is written so that no tag ends in it, and that it is read back before whatever follows. -/
theorem escapeAttr_unit (c : CodeUnit) : Enclosed (escapeAttr [c]) ∧ escapeAttr [c] ≠ [] ∧
    ∀ rest, entityAt (escapeAttr [c] ++ rest) = some ([c], rest) ∨
      escapeAttr [c] = [c] ∧ entityAt (c :: rest) = none := by
  rcases eq_or_ne c 38 with rfl | hamp
  · exact ⟨by decide, by decide, fun rest => .inl rfl⟩
  rcases eq_or_ne c doubleQuote with rfl | hquote
  · exact ⟨by decide, by decide, fun rest => .inl rfl⟩
  rcases eq_or_ne c lessThan with rfl | hlt
  · exact ⟨by decide, by decide, fun rest => .inl rfl⟩
  rcases eq_or_ne c greaterThan with rfl | hgt
  · exact ⟨by decide, by decide, fun rest => .inl rfl⟩
  have hsame := escapeAttr_of_plain hamp hquote hlt hgt
  rw [hsame]
  refine ⟨?_, List.cons_ne_nil c [], fun rest => .inr ⟨rfl, if_pos hamp⟩⟩
  simp only [Enclosed, List.mem_singleton]
  exact ⟨hquote.symm, hlt.symm, hgt.symm⟩

theorem enclosed_escapeAttr (t : Text) : Enclosed (escapeAttr t) := by
  rw [escapeAttr_eq_flatMap]
  refine ⟨fun hmem => ?_, fun hmem => ?_, fun hmem => ?_⟩ <;> obtain ⟨c, -, hc⟩ := List.mem_flatMap.mp hmem
  · exact (escapeAttr_unit c).1.1 hc
  · exact (escapeAttr_unit c).1.2.1 hc
  · exact (escapeAttr_unit c).1.2.2 hc

theorem decodeEntities_escapeAttr (t : Text) : decodeEntities (escapeAttr t) = t.filter fun c => !isAttrControl c := by
  have hread : replace entityAt (escapeAttr t) = t := by
    rw [replace, escapeAttr_eq_flatMap]
    exact replaceAll_flatMap (fun c _ => (escapeAttr_unit c).2.1) (fun c _ => (escapeAttr_unit c).2.2)
      (Nat.lt_succ_self _)
  rw [decodeEntities, hread]

theorem withoutUrlEdges_idem (t : Text) : withoutUrlEdges (withoutUrlEdges t) = withoutUrlEdges t := by
  have hfront : (withoutUrlEdges t).dropWhile isUrlNoise = withoutUrlEdges t := by
    cases h : withoutUrlEdges t with
    | nil => rfl
    | cons c v =>
      have hstarts : c :: v <+: t.dropWhile isUrlNoise := by
        rw [← h, withoutUrlEdges]
        exact List.rdropWhile_prefix _ _
      obtain ⟨rest, hrest⟩ := hstarts
      have hhead : isUrlNoise c = false := by
        have hnot := List.head?_dropWhile_not isUrlNoise t
        rw [← hrest] at hnot
        simpa using hnot
      rw [List.dropWhile_cons_of_neg (by rw [hhead]; exact Bool.false_ne_true)]
  rw [withoutUrlEdges, hfront, withoutUrlEdges, List.rdropWhile_idempotent]

theorem withoutUrlBreaks_of_subset {u : Text} (h : v ⊆ withoutUrlBreaks u) : withoutUrlBreaks v = v :=
  List.filter_eq_self.mpr fun _ hc => (List.mem_filter.mp (h hc)).2

theorem withoutUrlEdges_subset (t : Text) : withoutUrlEdges t ⊆ t :=
  List.Subset.trans (List.rdropWhile_prefix _ _).subset (List.dropWhile_suffix _).subset

theorem isSafeUrl_iff : isSafeUrl t = true ↔ HasScheme t := by
  simp only [isSafeUrl, HasScheme, List.any_eq_true, List.isPrefixOf_iff_prefix]

theorem normalizeUrlAttr_subset (t : Text) : normalizeUrlAttr t ⊆ t :=
  List.Subset.trans (withoutUrlEdges_subset _) List.filter_sublist.subset

theorem withoutUrlBreaks_of_normalized (h : normalizeUrlAttr v = v) : withoutUrlBreaks v = v := by
  have hunits : v ⊆ withoutUrlBreaks v := by
    have hedges := withoutUrlEdges_subset (withoutUrlBreaks v)
    rwa [← normalizeUrlAttr, h] at hedges
  exact withoutUrlBreaks_of_subset hunits

theorem normalizeUrlAttr_idem (t : Text) : normalizeUrlAttr (normalizeUrlAttr t) = normalizeUrlAttr t := by
  have hbreaks : withoutUrlBreaks (normalizeUrlAttr t) = normalizeUrlAttr t :=
    withoutUrlBreaks_of_subset (withoutUrlEdges_subset _)
  have hedges : withoutUrlEdges (normalizeUrlAttr t) = normalizeUrlAttr t := withoutUrlEdges_idem _
  rw [normalizeUrlAttr, hbreaks, hedges]

theorem isAttrControl_of_mem_decoded (h : c ∈ decodeEntities t) : isAttrControl c = false := by
  simpa using (List.mem_filter.mp h).2

/-- A value as it is written: escaped, without control characters, and for a link cleaned and of a safe scheme. -/
def KeptValue (name value : Text) : Prop :=
  ∃ v, value = escapeAttr v ∧ (∀ c ∈ v, isAttrControl c = false) ∧
    (name = text "href" → normalizeUrlAttr v = v ∧ isSafeUrl v = true)

theorem keptValue_of_decoded {name : Text} (raw : Text) (hname : name ≠ text "href") :
    KeptValue name (escapeAttr (decodeEntities raw)) :=
  ⟨_, rfl, fun _ hc => isAttrControl_of_mem_decoded hc, fun heq => absurd heq hname⟩

theorem keptValue_of_link (raw : Text) (h : isSafeUrl (normalizeUrlAttr (decodeEntities raw)) = true) :
    KeptValue (text "href") (escapeAttr (normalizeUrlAttr (decodeEntities raw))) :=
  ⟨_, rfl, fun _ hc => isAttrControl_of_mem_decoded (normalizeUrlAttr_subset _ hc),
    fun _ => ⟨normalizeUrlAttr_idem _, h⟩⟩

/-- A link that passed the check is the one that a browser reads. -/
theorem KeptValue.safeHref {value : Text} (h : KeptValue (text "href") value) : SafeHref value := by
  obtain ⟨v, rfl, hcontrol, hlink⟩ := h
  obtain ⟨hnormal, hsafe⟩ := hlink rfl
  have hdecoded : decodeEntities (escapeAttr v) = v := by
    rw [decodeEntities_escapeAttr, List.filter_eq_self]
    intro c hc
    rw [hcontrol c hc]
    rfl
  have hbreaks := withoutUrlBreaks_of_normalized hnormal
  have hedges : withoutUrlEdges v = v := by
    rwa [normalizeUrlAttr, hbreaks] at hnormal
  rw [SafeHref, hdecoded, hbreaks, hedges, hbreaks]
  exact ⟨isSafeUrl_iff.mp hsafe, isSafeUrl_iff.mp hsafe⟩

end

/-! ## Attributes -/

/-- The attributes written so far, of names that were seen, each once. -/
def Written (allowed seen : List Text) (out : List Text) : Prop :=
  ∃ attrs : List (Text × Text), out = attrs.map (fun a => attrText a.1 a.2) ∧ (attrs.map Prod.fst).Nodup ∧
    attrs.map Prod.fst ⊆ seen ∧
    ∀ a ∈ attrs, a.1 ∈ allowed ∧ KeptValue a.1 a.2

section

variable {allowed seen out : List Text} {name value raw : Text} {i : ℕ}

theorem Written.mono (h : Written allowed seen out) (name : Text) : Written allowed (seen ++ [name]) out := by
  obtain ⟨attrs, hout, hnodup, hseen, hall⟩ := h
  exact ⟨attrs, hout, hnodup, List.Subset.trans hseen (List.subset_append_left _ _), hall⟩

theorem Written.add (h : Written allowed seen out) (hallowed : name ∈ allowed) (hnew : name ∉ seen)
    (hvalue : KeptValue name value) :
    Written allowed (seen ++ [name]) (out ++ [attrText name value]) := by
  obtain ⟨attrs, hout, hnodup, hseen, hall⟩ := h
  refine ⟨attrs ++ [(name, value)], ?_, ?_, ?_, ?_⟩
  · rw [hout, List.map_append, List.map_cons, List.map_nil]
  · rw [List.map_append, List.map_cons, List.map_nil, List.nodup_append_comm, List.singleton_append, List.nodup_cons]
    exact ⟨fun hmem => hnew (hseen hmem), hnodup⟩
  · rw [List.map_append, List.map_cons, List.map_nil]
    exact List.append_subset.mpr ⟨List.Subset.trans hseen (List.subset_append_left _ _), List.subset_append_right _ _⟩
  · intro a ha
    rcases List.mem_append.mp ha with ha | ha
    · exact hall a ha
    · cases List.mem_singleton.mp ha
      exact ⟨hallowed, hvalue⟩

theorem lt_attrValueAt (raw : Text) (i : ℕ) : i < (attrValueAt raw i).2 := by
  simp only [attrValueAt]
  split
  · next hquote =>
    have h : i < raw.length := by
      refine Nat.lt_of_not_le fun hle => ?_
      rw [List.getElem?_eq_none hle] at hquote
      exact absurd hquote (by decide)
    cases hfound : indexOf [raw[i]?.getD 0] raw (i + 1) with
    | none => exact h
    | some last =>
      have hafter := (indexOf_some hfound).1
      change i < last + 1
      omega
  · split
    · exact Nat.lt_succ_self i
    · next hne =>
      have hpos := List.length_pos_iff.mpr hne
      exact Nat.lt_add_of_pos_right hpos

theorem le_skipSpace (raw : Text) (i : ℕ) : i ≤ skipSpace raw i := Nat.le_add_right _ _

/-- A pass writes an allowed attribute, or nothing, and moves on. -/
theorem attributePass_spec (raw : Text) (s : Attributes) (h : Written allowed s.seen s.out) :
    Ends (fun s => Written allowed s.seen s.out) (fun out => ∃ seen, Written allowed seen out)
      (fun s => raw.length - s.i) s (attributePass allowed raw s) := by
  rw [attributePass]
  split
  · exact ⟨s.seen, h⟩
  next hless =>
  rw [not_le] at hless
  have hmoves : ∀ {s' : Attributes}, s.i < s'.i → raw.length - s'.i < raw.length - s.i := by
    intro s' hlt
    omega
  cases hname : attrNameAt raw s.i with
  | none => exact ⟨h, hmoves (Nat.lt_succ_self s.i)⟩
  | some nameMatch =>
    simp only
    split
    · refine ⟨h, hmoves ?_⟩
      have hle := le_skipSpace raw (s.i + nameMatch.length)
      simp only
      split <;> omega
    have hafter : s.i < (attrValueAt raw (skipSpace raw (skipSpace raw (s.i + nameMatch.length) + 1))).2 := by
      have hfirst := le_skipSpace raw (s.i + nameMatch.length)
      have hsecond := le_skipSpace raw (skipSpace raw (s.i + nameMatch.length) + 1)
      have hvalue := lt_attrValueAt raw (skipSpace raw (skipSpace raw (s.i + nameMatch.length) + 1))
      omega
    split
    · exact ⟨h, hmoves hafter⟩
    next hnew =>
    rw [not_or, not_not] at hnew
    by_cases hhref : nameMatch.map lower = text "href"
    · simp only [hhref, true_and, if_true]
      split
      · exact ⟨h.mono _, hmoves hafter⟩
      next hsafe =>
      rw [hhref] at hnew
      refine ⟨h.add hnew.1 hnew.2 (keptValue_of_link _ ?_), hmoves hafter⟩
      simpa using hsafe
    · simp only [hhref, false_and, if_false]
      exact ⟨h.add hnew.1 hnew.2 (keptValue_of_decoded _ hhref), hmoves hafter⟩

theorem flatMap_cons_eq_intercalate (sep : CodeUnit) (ts : List Text) :
    ts.flatMap (sep :: ·) = if ts = [] then [] else sep :: [sep].intercalate ts := by
  induction ts with
  | nil => rfl
  | cons t ts ih =>
    rw [if_neg (List.cons_ne_nil t ts), List.flatMap_cons, ih]
    split
    · next hnil => rw [hnil, List.intercalate_singleton, List.append_nil]
    · next hne => rw [List.intercalate_cons_of_ne_nil hne, List.append_assoc, List.singleton_append, List.cons_append]

/-- A tag as it is written. -/
def Kept : Tag → Prop
  | .opening name attrs => name ∈ ALLOWED_TAGS ∧ (attrs.map Prod.fst).Nodup ∧
      ∀ a ∈ attrs, a.1 ∈ (ALLOWED_ATTRS name).getD [] ∧ KeptValue a.1 a.2
  | .closing name => name ∈ ALLOWED_TAGS ∧ name ∉ VOID_TAGS

theorem Kept.isAllowed {tag : Tag} (h : Kept tag) : tag.Allowed safeGrammar := by
  cases tag with
  | closing name => exact h.1
  | opening name attrs =>
    obtain ⟨hname, hnodup, hattrs⟩ := h
    refine ⟨hname, hnodup, fun a ha => ?_⟩
    obtain ⟨hallowed, hvalue⟩ := hattrs a ha
    refine ⟨hallowed, ?_, fun hhref => ?_⟩
    · obtain ⟨v, hv, -⟩ := hvalue
      rw [hv]
      exact enclosed_escapeAttr v
    · rw [hhref] at hvalue
      exact hvalue.safeHref

/-- The attributes of an allowed tag are written so that the tag is kept. -/
theorem sanitizeAttributes_spec (hname : name ∈ ALLOWED_TAGS) (raw : Text) : ∃ attrs : List (Text × Text),
    sanitizeAttributes name raw = some (attrs.flatMap fun a => 32 :: attrText a.1 a.2) ∧
      Kept (.opening name attrs) := by
  have hnone : Kept (.opening name []) := ⟨hname, List.nodup_nil, fun _ ha => by cases ha⟩
  rw [sanitizeAttributes]
  cases hallowed : ALLOWED_ATTRS name with
  | none => exact ⟨[], rfl, hnone⟩
  | some allowed =>
    simp only
    split
    · exact ⟨[], rfl, hnone⟩
    · have hempty : Written allowed [] [] := ⟨[], rfl, List.nodup_nil, List.Subset.refl _, fun _ ha => by cases ha⟩
      obtain ⟨out, hrun, seen, attrs, hout, hnodup, -, hall⟩ :=
        run_spec (attributePass_spec raw) (s := ⟨0, [], []⟩) hempty (Nat.lt_succ_self _)
      refine ⟨attrs, ?_, hname, hnodup, fun a ha => ?_⟩
      · rw [Nat.sub_zero] at hrun
        rw [hrun, Option.map_some, hout, ← flatMap_cons_eq_intercalate, List.flatMap_map]
      · rw [hallowed]
        exact hall a ha

end

/-! ## The next markup -/

section

variable (env : Platform) (html : Text)

/-- `lt` is the place of the first `<` from `i` on. -/
def Found (i lt : ℕ) : Prop := i ≤ lt ∧ lt < html.length ∧ lessThan ∉ slice html i lt

/-- What a step finds from `i` on; it goes on after `<`. -/
def StepFrom (i : ℕ) : MarkupStep → Prop
  | .eof => lessThan ∉ html.drop i
  | .skip lt next => Found html i lt ∧ lt < next
  | .stray lt => Found html i lt
  | .tail lt => Found html i lt
  | .tag lt _ _ nameEnd => Found html i lt ∧ lt < nameEnd

variable {env html} {i lt k : ℕ} {name : Text} {parsed : TagName}

theorem le_skipPast (hlt : lt < html.length) (hle : lt < i) (terminator : Text) : lt < skipPast html i terminator := by
  rw [skipPast]
  cases hfound : indexOf terminator html i with
  | none => exact hlt
  | some k =>
    have hafter := (indexOf_some hfound).1
    change lt < k + terminator.length
    omega

theorem lt_of_readTagName (h : readTagName env html i = some parsed) : i < parsed.last := by
  rw [readTagName] at h
  cases hdrop : html.drop i with
  | nil => rw [hdrop] at h; cases h
  | cons c rest =>
    rw [hdrop] at h
    simp only at h
    split at h
    · cases h
      simp only [List.length_cons]
      omega
    · cases h

theorem stepFrom_markupAt (h : Found html i lt) : StepFrom html i (markupAt env html lt) := by
  rw [markupAt]
  split
  · split
    · exact ⟨h, le_skipPast h.2.1 (by omega) _⟩
    · split
      · exact ⟨h, le_skipPast h.2.1 (by omega) _⟩
      · cases hfound : indexOf [greaterThan] html (lt + 2) with
        | none => exact h
        | some gt =>
          have hafter := (indexOf_some hfound).1
          exact ⟨h, by omega⟩
  · simp only
    split
    · exact h
    · next parsed hread =>
      have hafter := lt_of_readTagName hread
      have hstart : lt < if html[lt + 1]? = some slash then lt + 2 else lt + 1 := by split <;> omega
      refine ⟨h, ?_⟩
      simp only [decide_eq_true_eq] at hafter
      omega

theorem stepFrom_nextStep (env : Platform) (html : Text) (i : ℕ) : StepFrom html i (nextStep env html i) := by
  rw [nextStep]
  cases hfound : indexOf [lessThan] html i with
  | none => exact not_mem_drop_of_indexOf_none hfound
  | some lt =>
    have hplace := indexOf_some hfound
    exact stepFrom_markupAt ⟨hplace.1, hplace.2.1, not_mem_slice_indexOf hfound⟩

end

/-! ## The closing tags -/

section

variable (env : Platform) (html : Text)

theorem rawTextCloseAt_spec (name : Text) (i : ℕ) :
    ∃ k, rawTextCloseAt env html name i = some k ∧ (i ≤ k ∨ k = html.length) := by
  have hpass : ∀ j, i ≤ j → Ends (fun j => i ≤ j) (fun k => i ≤ k ∨ k = html.length) (fun j => html.length - j) j
      (rawTextPass env html name j) := by
    intro j hj
    rw [rawTextPass]
    cases hfound : indexOf [lessThan, slash] html j with
    | none => exact .inr rfl
    | some k =>
      obtain ⟨hle, hlt, -⟩ := indexOf_some hfound
      have hagain : i ≤ k + 2 ∧ html.length - (k + 2) < html.length - j := by omega
      simp only
      cases readTagName env html (k + 2) with
      | none => exact hagain
      | some parsed =>
        simp only
        split
        · exact .inl (hj.trans hle)
        · exact hagain
  exact run_spec hpass (Nat.le_refl i) (Nat.lt_succ_self _)

/-- The places that are recorded stand in order and before the next markup. -/
def Recorded (s : ℕ × CloseIndex) : Prop := ∀ name, (s.2 name).Pairwise (· < ·) ∧ ∀ k ∈ s.2 name, k < s.1

theorem Recorded.move {i j : ℕ} {index : CloseIndex} (h : Recorded (i, index)) (hle : i ≤ j) : Recorded (j, index) :=
  fun name => ⟨(h name).1, fun k hk => ((h name).2 k hk).trans_le hle⟩

theorem Recorded.push {i j lt : ℕ} {index : CloseIndex} (h : Recorded (i, index)) (name : Text) (hle : i ≤ lt)
    (hlt : lt < j) :
    Recorded (j, index.push name lt) := by
  intro name'
  obtain ⟨hsorted, hbefore⟩ := h name'
  simp only [CloseIndex.push]
  by_cases heq : name' = name
  · subst heq
    rw [Function.update_self, List.pairwise_append]
    refine ⟨⟨hsorted, List.pairwise_singleton _ _, fun k hk k' hk' => ?_⟩, fun k hk => ?_⟩
    · rw [List.mem_singleton.mp hk']
      exact (hbefore k hk).trans_le hle
    · rcases List.mem_append.mp hk with hk | hk
      · have hless := hbefore k hk
        simp only at hless ⊢
        omega
      · rw [List.mem_singleton.mp hk]
        exact hlt
  · rw [Function.update_of_ne heq]
    exact ⟨hsorted, fun k hk => ((hbefore k hk).trans_le hle).trans hlt⟩

theorem indexCloseTags_spec :
    ∃ index, indexCloseTags env html = some index ∧ ∀ name, (index name).Pairwise (· < ·) := by
  have hpass : ∀ s : ℕ × CloseIndex, Recorded s → Ends Recorded (fun index => ∀ name, (index name).Pairwise (· < ·))
      (fun s => html.length - s.1) s (indexPass env html s) := by
    rintro ⟨i, index⟩ hrecorded
    have hstep := stepFrom_nextStep env html i
    rw [indexPass]
    cases hnext : nextStep env html i with
    | eof => exact fun name => (hrecorded name).1
    | tail lt => exact fun name => (hrecorded name).1
    | skip lt next =>
      rw [hnext] at hstep
      obtain ⟨⟨hle, hlt, -⟩, hafter⟩ := hstep
      exact ⟨hrecorded.move (by omega), by simp only; omega⟩
    | stray lt =>
      rw [hnext] at hstep
      obtain ⟨hle, hlt, -⟩ := hstep
      exact ⟨hrecorded.move (by omega), by simp only; omega⟩
    | tag lt close name nameEnd =>
      rw [hnext] at hstep
      obtain ⟨⟨hle, hlt, -⟩, hafter⟩ := hstep
      simp only
      split
      · refine ⟨?_, by simp only; omega⟩
        split
        · exact hrecorded.push name hle (by omega)
        · exact hrecorded.move (by omega)
      · split
        · obtain ⟨k, hk, hafter'⟩ := rawTextCloseAt_spec env html name nameEnd
          rw [hk]
          exact ⟨hrecorded.move (by omega), by simp only; omega⟩
        · exact ⟨hrecorded.move (by omega), by simp only; omega⟩
  have hnone : Recorded (0, fun _ => []) := fun _ => ⟨List.Pairwise.nil, fun k hk => absurd hk List.not_mem_nil⟩
  exact run_spec hpass hnone (Nat.lt_succ_self _)

theorem indexCloseTags_ends : ∃ index, indexCloseTags env html = some index := by
  obtain ⟨index, hindex, -⟩ := indexCloseTags_spec env html
  exact ⟨index, hindex⟩

/-- The closing tag that is found stands after `lt`. -/
theorem closeAfter_spec (index : CloseIndex) (cursors : Cursors) (name : Text) (lt : ℕ) :
    ∃ r, closeAfter index cursors name lt = some r ∧ ∀ k, r.1 = some k → lt < k := by
  have hpass : ∀ k : ℕ, True → Ends (fun _ => True) (fun k => ∀ slot, (index name)[k]? = some slot → lt < slot)
      (fun k => (index name).length - k) k (cursorPass (index name) lt k) := by
    intro k _
    rw [cursorPass]
    split
    · next hbefore => exact ⟨trivial, by simp only; omega⟩
    · next hpast =>
      intro slot hslot
      obtain ⟨hlength, -⟩ := List.getElem?_eq_some_iff.mp hslot
      rw [hslot, Option.getD_some] at hpast
      omega
  rw [closeAfter]
  split
  · exact ⟨_, rfl, fun k hk => by cases hk⟩
  · obtain ⟨k, hrun, hslot⟩ := run_spec hpass (s := cursors name) trivial (Nat.lt_succ_self _)
    rw [hrun]
    exact ⟨_, rfl, hslot⟩

end

/-! ## The scan -/

section

variable {env : Platform} {html : Text} {s : Scan} {lt nameEnd : ℕ} {close : Bool} {name : Text}

theorem lessThan_not_mem_escapedTail (html : Text) (i : ℕ) : lessThan ∉ escapedTail html i := by
  rw [escapedTail, replaceUnit, List.mem_flatMap]
  rintro ⟨c, -, hc⟩
  split at hc
  · exact absurd hc (by decide)
  · next hne => exact hne (List.mem_singleton.mp hc).symm

/-- A pass adds to the output what is kept and moves on. -/
abbrev Scans (html : Text) (s : Scan) : Option (Pass Scan Text) → Prop :=
  Ends (fun s => Made Kept s.out) (Made Kept) (fun s => html.length - s.i) s

theorem emitTag_scans (h : Made Kept s.out) (hle : s.i ≤ lt) (hlt : lt < html.length) :
    Scans html s (emitTag html s lt close name nameEnd) := by
  rw [emitTag]
  cases hfound : indexOf [greaterThan] html (lt + 1) with
  | none => exact h.plain (lessThan_not_mem_escapedTail html lt)
  | some gt =>
    have hafter := (indexOf_some hfound).1
    have hmoves : html.length - (gt + 1) < html.length - s.i := by omega
    simp only
    split
    · next hallowed =>
      split
      · refine ⟨?_, hmoves⟩
        split
        · exact h.plain List.not_mem_nil
        · next hvoid =>
          have hkept : Kept (.closing name) := ⟨hallowed, hvoid⟩
          exact h.tag hkept
      · obtain ⟨attrs, hattrs, htag⟩ := sanitizeAttributes_spec hallowed (slice html nameEnd gt)
        rw [hattrs]
        exact ⟨h.tag htag, hmoves⟩
    · exact ⟨h, hmoves⟩

theorem scanPass_scans (env : Platform) (html : Text) (index : CloseIndex) (h : Made Kept s.out) :
    Scans html s (scanPass env html index s) := by
  have hstep := stepFrom_nextStep env html s.i
  rw [scanPass]
  cases hnext : nextStep env html s.i with
  | eof =>
    rw [hnext] at hstep
    exact h.plain hstep
  | tail lt =>
    rw [hnext] at hstep
    exact (h.plain hstep.2.2).plain (lessThan_not_mem_escapedTail html lt)
  | skip lt next =>
    rw [hnext] at hstep
    obtain ⟨⟨hle, hlt, hplain⟩, hafter⟩ := hstep
    exact ⟨h.plain hplain, by simp only; omega⟩
  | stray lt =>
    rw [hnext] at hstep
    obtain ⟨hle, hlt, hplain⟩ := hstep
    exact ⟨(h.plain hplain).plain (by decide), by simp only; omega⟩
  | tag lt close name nameEnd =>
    rw [hnext] at hstep
    obtain ⟨⟨hle, hlt, hplain⟩, -⟩ := hstep
    have hout := h.plain hplain
    simp only
    split
    · obtain ⟨⟨found, cursors⟩, hclose, hfound⟩ := closeAfter_spec index s.cursors name lt
      rw [hclose]
      cases found with
      | none =>
        simp only
        split
        · exact hout
        · exact emitTag_scans (s := ⟨s.i, cursors, s.out ++ slice html s.i lt⟩) hout hle hlt
      | some k =>
        have hk := hfound k rfl
        simp only
        cases hgt : indexOf [greaterThan] html k with
        | none => exact hout
        | some gt =>
          have hafter := (indexOf_some hgt).1
          exact ⟨hout, by simp only; omega⟩
    · exact emitTag_scans (s := ⟨s.i, s.cursors, s.out ++ slice html s.i lt⟩) hout hle hlt

theorem run_scanPass_made (env : Platform) (html : Text) (index : CloseIndex) :
    ∃ out, run (scanPass env html index) (html.length + 1) ⟨0, fun _ => 0, []⟩ = some out ∧ Made Kept out :=
  run_spec (fun _ hs => scanPass_scans env html index hs) Made.nil (Nat.lt_succ_self _)

theorem made_of_sanitized {html : Option Text} {out : Text} (h : sanitizeInboundHtml env html = some (some out)) :
    Made Kept out := by
  cases html with
  | none => cases h
  | some html =>
    obtain ⟨index, hindex⟩ := indexCloseTags_ends env html
    obtain ⟨out', hrun, hout⟩ := run_scanPass_made env html index
    rw [sanitizeInboundHtml] at h
    split_ifs at h
    · cases h
    · cases h
    · rw [hindex, Option.bind_some, hrun] at h
      cases h
      exact hout

/-- The sanitizer ends on every mail that is not too long. Every `<` of what it writes begins a tag of `ALLOWED_TAGS`,
closing or with attributes of the tag, each at most once and enclosed in double quotes, and every link has a safe
scheme. -/
theorem sanitizeInboundHtml_safe (env : Platform) (html : Text) (h : html.length ≤ INBOUND_HTML_MAX_CHARS) :
    ∃ result, sanitizeInboundHtml env (some html) = some result ∧ (result = none ↔ html = []) ∧
      ∀ out, result = some out → ∀ k, out[k]? = some lessThan →
        ∃ tag : Tag, tag.Allowed safeGrammar ∧ tag.text <+: out.drop k := by
  rw [sanitizeInboundHtml]
  by_cases hempty : html = []
  · rw [if_pos (by rw [hempty]; rfl)]
    exact ⟨none, rfl, iff_of_true rfl hempty, fun out hout => by cases hout⟩
  · obtain ⟨index, hindex⟩ := indexCloseTags_ends env html
    obtain ⟨out, hrun, hout⟩ := run_scanPass_made env html index
    rw [if_neg (by rwa [List.length_eq_zero_iff]), if_neg (by omega), hindex, Option.bind_some, hrun, Option.map_some]
    refine ⟨some out, rfl, iff_of_false (Option.some_ne_none out) hempty, fun out' hsame k hk => ?_⟩
    cases hsame
    exact (hout.emits fun _ => Kept.isAllowed).tag_at hk

/-- The lower case of ASCII. -/
def asciiPlatform : Platform := ⟨List.map lower⟩

def exampleMail : Text := text "<A href=&#106;s:x title=t>y<script>"

theorem sanitizeInboundHtml_safe_example :
    sanitizeInboundHtml asciiPlatform (some exampleMail) = some (some (text "<a title=\"t\">y")) ∧
      ∃ tag : Tag, tag.Allowed safeGrammar ∧ tag.text <+: text "<a title=\"t\">y" := by
  have hresult : sanitizeInboundHtml asciiPlatform (some exampleMail) =
      some (some (text "<a title=\"t\">y")) := by
    decide +kernel
  obtain ⟨result, hsame, -, hsafe⟩ := sanitizeInboundHtml_safe asciiPlatform exampleMail (by decide +kernel)
  rw [hresult] at hsame
  exact ⟨hresult, hsafe _ (Option.some.inj hsame).symm 0 (by decide +kernel)⟩

/-! ## Schemes in capital letters -/

/-- The scheme in small letters. -/
def LiteralHref (value : Text) : Prop :=
  ∃ scheme ∈ ["http:", "https:", "mailto:"],
    text scheme <+: withoutUrlEdges (withoutUrlBreaks (decodeEntities value))

theorem eq_of_enclosed {v w t u : Text} (hv : doubleQuote ∉ v) (hw : doubleQuote ∉ w)
    (h : v ++ doubleQuote :: t = w ++ doubleQuote :: u) : v = w := by
  have hcut : ∀ x y : Text, doubleQuote ∉ x → (x ++ doubleQuote :: y).takeWhile (· != doubleQuote) = x := by
    intro x y hx
    have hall : ∀ c ∈ x, (c != doubleQuote) = true := by
      intro c hc
      rw [bne_iff_ne]
      rintro rfl
      exact hx hc
    rw [List.takeWhile_append_of_pos hall]
    exact List.append_nil x
  rw [← hcut v t hv, h, hcut w u hw]

/-- The scheme is let through in the letters it was written in. -/
theorem sanitizeInboundHtml_capital_scheme :
    ∃ out, sanitizeInboundHtml asciiPlatform (some (text "<a href=HTTP:x>")) = some (some out) ∧
      out[0]? = some lessThan ∧
      ¬∃ tag : Tag, tag.Allowed (linkGrammar LiteralHref) ∧ tag.text <+: out.drop 0 := by
  refine ⟨text "<a href=\"HTTP:x\">", by decide +kernel, by decide, ?_⟩
  rintro ⟨tag, htag, rest, hrest⟩
  cases tag with
  | closing name => exact absurd (List.cons.inj (List.cons.inj hrest).2).1 (by decide)
  | opening name attrs =>
    obtain ⟨hname, -, hattrs⟩ := htag
    have hbody : name ++ (attrs.flatMap (fun a => 32 :: attrText a.1 a.2) ++ greaterThan :: rest) =
        text "a" ++ text " href=\"HTTP:x\">" := by
      have htext : (Tag.opening name attrs).text ++ rest =
          lessThan :: (name ++ (attrs.flatMap (fun a => 32 :: attrText a.1 a.2) ++ greaterThan :: rest)) := by
        simp only [Tag.text, Tag.body, List.append_assoc, List.cons_append, List.nil_append]
      rw [htext] at hrest
      exact List.tail_eq_of_cons_eq hrest
    have hnames : ∀ name ∈ ALLOWED_TAGS, name <+: text "a href=\"HTTP:x\">" → name = text "a" := by decide
    obtain rfl := hnames name hname ⟨_, hbody⟩
    have hattrText := List.append_cancel_left hbody
    cases attrs with
    | nil => exact absurd (List.cons.inj hattrText).1 (by decide)
    | cons a attrs =>
      obtain ⟨attr, value⟩ := a
      obtain ⟨hattr, ⟨hvalue, -, -⟩, hsafe⟩ := hattrs (attr, value) List.mem_cons_self
      have hwritten : attr ++ equalsSign :: doubleQuote :: (value ++ doubleQuote ::
          (attrs.flatMap (fun a => 32 :: attrText a.1 a.2) ++ greaterThan :: rest)) = text "href=\"HTTP:x\">" := by
        rw [List.flatMap_cons, List.append_assoc, List.cons_append] at hattrText
        simp only [attrText, List.append_assoc, List.cons_append, List.nil_append] at hattrText ⊢
        exact List.tail_eq_of_cons_eq hattrText
      rcases List.mem_pair.mp hattr with rfl | rfl
      · have hquoted := List.append_cancel_left (hwritten.trans
          (show _ = text "href" ++ equalsSign :: doubleQuote :: (text "HTTP:x" ++ doubleQuote :: text ">") by decide))
        have hsame : value = text "HTTP:x" :=
          eq_of_enclosed hvalue (by decide) (List.tail_eq_of_cons_eq (List.tail_eq_of_cons_eq hquoted))
        have hliteral : ¬LiteralHref (text "HTTP:x") := by
          have hclean : withoutUrlEdges (withoutUrlBreaks (decodeEntities (text "HTTP:x"))) = text "HTTP:x" := by
            decide +kernel
          rw [LiteralHref, hclean]
          decide
        exact hliteral (hsame ▸ hsafe rfl)
      · exact absurd (List.cons.inj hwritten).1 (by decide)

end

end Civfix.InboundHtml
