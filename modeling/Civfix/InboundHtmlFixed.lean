import Civfix.InboundHtmlSafe

/-! # A sanitized mail is sanitized to itself

The scan reads back each tag that it writes: the name ends at a space or at `>`, no value holds `>` or a double quote,
and what was escaped is decoded to what it was. -/
namespace Civfix.InboundHtml

open CodeUnits TextScans TagTexts

/-! ## Names -/

/-- The names of attributes begin and go on as attribute names do, in small letters. -/
def IsAttrName (name : Text) : Prop :=
  (∃ c w, name = c :: w ∧ isAttrNameStart c = true ∧ ∀ d ∈ w, isAttrNameUnit d = true) ∧ name.map lower = name

theorem isAttrName_allowed {tag name : Text} (h : name ∈ (ALLOWED_ATTRS tag).getD []) : IsAttrName name := by
  have hall : ∀ name ∈ [text "href", text "title", text "alt"], IsAttrName name := by
    intro name hname
    simp only [List.mem_cons, List.not_mem_nil, or_false] at hname
    rcases hname with rfl | rfl | rfl <;> exact ⟨⟨_, _, rfl, by decide, by decide⟩, by decide⟩
  refine hall name ?_
  rw [ALLOWED_ATTRS] at h
  split_ifs at h
  · rcases List.mem_pair.mp h with rfl | rfl <;> decide
  · rcases List.mem_pair.mp h with rfl | rfl <;> decide
  · cases h

/-- The names of tags begin with a letter, are short and hold no end of a name. -/
def IsTagName (name : Text) : Prop :=
  ∃ c w, name = c :: w ∧ isLetter c = true ∧ w.length < MAX_TAG_NAME_CHARS ∧
    ∀ d ∈ w, (isSpace d || d == slash || d == greaterThan) = false

theorem isTagName_allowed {name : Text} (h : name ∈ ALLOWED_TAGS) : IsTagName name ∧ (∀ c ∈ name, c < 128) ∧
    name.map lower = name ∧ name ∉ DROP_WITH_CONTENT ∧ greaterThan ∉ name := by
  have hall : ∀ name ∈ ALLOWED_TAGS, (name.head?.any isLetter = true ∧ name.tail.length < MAX_TAG_NAME_CHARS ∧
      ∀ d ∈ name.tail, (isSpace d || d == slash || d == greaterThan) = false) ∧ (∀ c ∈ name, c < 128) ∧
      name.map lower = name ∧ name ∉ DROP_WITH_CONTENT ∧ greaterThan ∉ name := by decide +kernel
  obtain ⟨⟨hhead, hshort, htail⟩, hrest⟩ := hall name h
  refine ⟨?_, hrest⟩
  cases name with
  | nil => cases hhead
  | cons c w => exact ⟨c, w, rfl, hhead, hshort, htail⟩

/-! ## Attributes -/

section

variable {raw name value rest : Text} {i : ℕ}

theorem attrNameAt_of_drop (hname : IsAttrName name) (h : raw.drop i = name ++ equalsSign :: rest) :
    attrNameAt raw i = some name := by
  obtain ⟨⟨c, w, rfl, hc, hw⟩, -⟩ := hname
  rw [attrNameAt, h, List.cons_append]
  simp only [hc, if_true]
  rw [List.takeWhile_append_of_pos hw]
  exact congrArg (fun w' => some (c :: w')) (List.append_nil w)

theorem skipSpace_of_drop {c : CodeUnit} (hc : SPACE_CHARS.contains c = false) (h : raw.drop i = c :: rest) :
    skipSpace raw i = i := by
  rw [skipSpace, h, List.takeWhile_cons_of_neg (by rw [hc]; exact Bool.false_ne_true)]
  rfl

theorem attrValueAt_of_drop (hvalue : doubleQuote ∉ value)
    (h : raw.drop i = doubleQuote :: (value ++ doubleQuote :: rest)) :
    attrValueAt raw i = (value, i + value.length + 2) := by
  have hquote : raw[i]? = some doubleQuote := by
    rw [← List.head?_drop, h, List.head?_cons]
  have hafter : raw.drop (i + 1) = value ++ doubleQuote :: rest := by
    rw [← List.tail_drop, h, List.tail_cons]
  rw [attrValueAt, hquote, Option.getD_some]
  simp only [true_or, if_true, indexOf_of_drop hafter hvalue, slice_of_drop hafter]
  rw [show i + 1 + value.length + 1 = i + value.length + 2 by omega]

/-- A written value is read as what it stands for. -/
theorem KeptValue.read (h : KeptValue name value) : ∃ v, value = escapeAttr v ∧
    (if name = text "href" then normalizeUrlAttr (decodeEntities value) else decodeEntities value) = v ∧
    ¬(name = text "href" ∧ (!isSafeUrl v) = true) := by
  obtain ⟨v, rfl, hcontrol, hlink⟩ := h
  have hdecoded : decodeEntities (escapeAttr v) = v := by
    rw [decodeEntities_escapeAttr, List.filter_eq_self]
    intro c hc
    rw [hcontrol c hc]
    rfl
  refine ⟨v, rfl, ?_, fun ⟨hname, hunsafe⟩ => ?_⟩
  · rw [hdecoded]
    split
    · next hname => exact (hlink hname).1
    · rfl
  · rw [(hlink hname).2] at hunsafe
    cases hunsafe

theorem KeptValue.enclosed (h : KeptValue name value) : Enclosed value := by
  obtain ⟨v, rfl, -⟩ := h
  exact enclosed_escapeAttr v

theorem greaterThan_not_mem_attrText (hname : IsAttrName name) (hvalue : KeptValue name value) :
    greaterThan ∉ attrText name value := by
  have hplain : greaterThan ∉ name := by
    obtain ⟨⟨c, w, rfl, hc, hw⟩, -⟩ := hname
    intro hmem
    rcases List.mem_cons.mp hmem with rfl | hmem
    · exact absurd hc (by decide)
    · exact absurd (hw _ hmem) (by decide)
  rw [attrText, List.append_assoc, List.mem_append, List.mem_append, List.mem_cons, List.mem_cons, List.mem_singleton]
  rintro (hmem | (hmem | hmem | hmem) | hmem)
  · exact hplain hmem
  · exact absurd hmem (by decide)
  · exact absurd hmem (by decide)
  · exact hvalue.enclosed.2.2 hmem
  · exact absurd hmem (by decide)

theorem attributePass_space {allowed out seen : List Text} (h : raw.drop i = 32 :: rest) :
    attributePass allowed raw ⟨i, out, seen⟩ = some (.again ⟨i + 1, out, seen⟩) := by
  have hlength : ¬raw.length ≤ i := by
    rw [← List.drop_eq_nil_iff, h]
    exact List.cons_ne_nil _ _
  have hnone : attrNameAt raw i = none := by
    rw [attrNameAt, h]
    rfl
  rw [attributePass, if_neg hlength, hnone]

/-- A written attribute is read and written again. -/
theorem attributePass_attr {allowed out seen : List Text} (hname : IsAttrName name) (hallowed : name ∈ allowed)
    (hnew : name ∉ seen) (hvalue : KeptValue name value) (h : raw.drop i = attrText name value ++ rest) :
    attributePass allowed raw ⟨i, out, seen⟩ =
      some (.again ⟨i + (attrText name value).length, out ++ [attrText name value], seen ++ [name]⟩) := by
  have hwritten : raw.drop i = name ++ equalsSign :: (doubleQuote :: (value ++ doubleQuote :: rest)) := by
    rw [h, attrText]
    simp only [List.append_assoc, List.cons_append, List.nil_append]
  have hlength : ¬raw.length ≤ i := by
    obtain ⟨⟨c, w, rfl, -⟩, -⟩ := hname
    rw [← List.drop_eq_nil_iff, hwritten]
    exact List.cons_ne_nil _ _
  have hequals : raw.drop (i + name.length) = equalsSign :: (doubleQuote :: (value ++ doubleQuote :: rest)) :=
    drop_of_drop hwritten
  have hquote : raw.drop (i + name.length + 1) = doubleQuote :: (value ++ doubleQuote :: rest) := by
    rw [← List.tail_drop, hequals, List.tail_cons]
  have hsign : raw[i + name.length]? = some equalsSign := getElem?_of_drop hwritten
  obtain ⟨v, hv, hread, hsafe⟩ := hvalue.read
  have hskip : ¬(name ∉ allowed ∨ name ∈ seen) := by
    rw [not_or, not_not]
    exact ⟨hallowed, hnew⟩
  rw [attributePass, if_neg hlength, attrNameAt_of_drop hname hwritten]
  simp only
  rw [skipSpace_of_drop (by decide) hequals, hsign, if_neg (not_not.mpr rfl), skipSpace_of_drop (by decide) hquote,
    attrValueAt_of_drop hvalue.enclosed.1 hquote, hname.2]
  simp only
  rw [if_neg hskip, hread, if_neg hsafe, ← hv]
  have hplace : i + name.length + 1 + value.length + 2 = i + (attrText name value).length := by
    simp only [attrText, List.length_append, List.length_cons, List.length_nil]
    omega
  rw [hplace]

/-- Attributes with new names that were written are read and written again. -/
theorem run_attributePass {allowed : List Text} {attrs : List (Text × Text)}
    (hattrs : ∀ a ∈ attrs, IsAttrName a.1 ∧ a.1 ∈ allowed ∧ KeptValue a.1 a.2) (hnodup : (attrs.map Prod.fst).Nodup)
    {i n : ℕ} {out seen : List Text} (hseen : ∀ a ∈ attrs, a.1 ∉ seen)
    (h : raw.drop i = attrs.flatMap fun a => 32 :: attrText a.1 a.2) (hn : raw.length - i < n) :
    run (attributePass allowed raw) n ⟨i, out, seen⟩ = some (out ++ attrs.map fun a => attrText a.1 a.2) := by
  induction attrs generalizing i n out seen with
  | nil =>
    obtain ⟨n, rfl⟩ := Nat.exists_eq_add_one_of_ne_zero (Nat.ne_zero_of_lt hn)
    rw [run, attributePass, if_pos (List.drop_eq_nil_iff.mp h), List.map_nil, List.append_nil]
  | cons a attrs ih =>
    obtain ⟨hname, hallowed, hvalue⟩ := hattrs a List.mem_cons_self
    rw [List.flatMap_cons, List.cons_append] at h
    have hnext : raw.drop (i + 1) = attrText a.1 a.2 ++ attrs.flatMap fun a => 32 :: attrText a.1 a.2 := by
      rw [← List.tail_drop, h, List.tail_cons]
    have hpos : 0 < (attrText a.1 a.2).length := by
      simp only [attrText, List.length_append, List.length_cons]
      omega
    have hlength := congrArg List.length hnext
    rw [List.length_drop, List.length_append] at hlength
    rw [List.map_cons, List.nodup_cons] at hnodup
    obtain ⟨m, rfl⟩ : ∃ m, n = m + 2 := ⟨n - 2, by omega⟩
    rw [run, attributePass_space h]
    simp only
    rw [run, attributePass_attr hname hallowed (hseen a List.mem_cons_self) hvalue hnext]
    simp only
    rw [ih (fun b hb => hattrs b (List.mem_cons_of_mem a hb)) hnodup.2 ?_ (drop_of_drop hnext) (by omega),
      List.append_assoc, List.singleton_append, List.map_cons]
    intro b hb hmem
    rcases List.mem_append.mp hmem with hmem | hmem
    · exact hseen b (List.mem_cons_of_mem a hb) hmem
    · exact hnodup.1 (List.mem_singleton.mp hmem ▸ List.mem_map_of_mem hb)

/-- The attributes of a kept tag are read back. -/
theorem sanitizeAttributes_kept {attrs : List (Text × Text)} (h : Kept (.opening name attrs)) :
    sanitizeAttributes name (attrs.flatMap fun a => 32 :: attrText a.1 a.2) =
      some (attrs.flatMap fun a => 32 :: attrText a.1 a.2) := by
  obtain ⟨-, hnodup, hattrs⟩ := h
  have hjoined : (attrs.flatMap fun a => 32 :: attrText a.1 a.2) =
      if attrs.map (fun a => attrText a.1 a.2) = [] then []
      else 32 :: [32].intercalate (attrs.map fun a => attrText a.1 a.2) := by
    rw [← flatMap_cons_eq_intercalate, List.flatMap_map]
  rw [sanitizeAttributes]
  cases hallowed : ALLOWED_ATTRS name with
  | none =>
    cases attrs with
    | nil => rfl
    | cons a attrs =>
      have hmem := (hattrs a List.mem_cons_self).1
      rw [hallowed] at hmem
      cases hmem
  | some allowed =>
    simp only
    split
    · next hblank =>
      cases attrs with
      | nil => rfl
      | cons a attrs =>
        have hequals : equalsSign ∈ (a :: attrs).flatMap fun a => 32 :: attrText a.1 a.2 := by
          rw [List.flatMap_cons]
          refine List.mem_append_left _ (List.mem_cons_of_mem _ ?_)
          rw [attrText, List.append_assoc]
          exact List.mem_append_right _ List.mem_cons_self
        exact absurd (List.all_eq_true.mp hblank _ hequals) (by decide)
    · have hread : ∀ a ∈ attrs, IsAttrName a.1 ∧ a.1 ∈ allowed ∧ KeptValue a.1 a.2 := by
        intro a ha
        obtain ⟨hmem, hvalue⟩ := hattrs a ha
        refine ⟨isAttrName_allowed hmem, ?_, hvalue⟩
        rwa [hallowed] at hmem
      rw [run_attributePass hread hnodup (fun _ _ => List.not_mem_nil) (List.drop_zero) (by omega), Option.map_some,
        List.nil_append, ← hjoined]

end

/-! ## Tags -/

section

variable {env : Platform} {html name rest : Text} {i lt : ℕ} {tag : Tag}

/-- The name of an allowed tag is read back up to the space or `>` after it. -/
theorem readTagName_of_drop {c : CodeUnit} (hlower : ∀ t, (∀ c ∈ t, c < 128) → env.toLowerCase t = t.map lower)
    (hname : name ∈ ALLOWED_TAGS) (hc : (isSpace c || c == slash || c == greaterThan) = true)
    (h : html.drop i = name ++ c :: rest) : readTagName env html i = some ⟨name, i + name.length⟩ := by
  obtain ⟨⟨d, w, rfl, hd, hshort, hw⟩, hascii, hsmall, -⟩ := isTagName_allowed hname
  have htake : ((w ++ c :: rest).take MAX_TAG_NAME_CHARS).takeWhile
      (fun c => !(isSpace c || c == slash || c == greaterThan)) = w := by
    obtain ⟨k, hk⟩ := Nat.exists_eq_add_of_lt hshort
    have hroom : MAX_TAG_NAME_CHARS - w.length = k + 1 := by omega
    rw [List.take_append, List.take_of_length_le hshort.le, hroom, List.take_succ_cons,
      List.takeWhile_append_of_pos fun d hd => by rw [hw d hd]; rfl, List.takeWhile_cons_of_neg (by rw [hc]; decide),
      List.append_nil]
  rw [readTagName, h, List.cons_append]
  simp only [hd, if_true, htake]
  rw [hlower _ hascii, hsmall]

theorem head?_of_tagName {name t : Text} (h : name ∈ ALLOWED_TAGS) :
    ∃ c, (name ++ t).head? = some c ∧ c ≠ 33 ∧ c ≠ slash := by
  obtain ⟨⟨c, w, rfl, hc, -⟩, -⟩ := isTagName_allowed h
  refine ⟨c, rfl, ?_, ?_⟩
  · rintro rfl
    exact absurd hc (by decide)
  · rintro rfl
    exact absurd hc (by decide)

theorem markupAt_opening {attrs : List (Text × Text)}
    (hlower : ∀ t, (∀ c ∈ t, c < 128) → env.toLowerCase t = t.map lower) (hname : name ∈ ALLOWED_TAGS)
    (h : html.drop (lt + 1) = name ++ ((attrs.flatMap fun a => 32 :: attrText a.1 a.2) ++ greaterThan :: rest)) :
    markupAt env html lt = .tag lt false name (lt + 1 + name.length) := by
  obtain ⟨c, hc, hmark, hslash⟩ := head?_of_tagName (t := (attrs.flatMap fun a => 32 :: attrText a.1 a.2) ++
    greaterThan :: rest) hname
  have hfirst : html[lt + 1]? = some c := by
    rw [← List.head?_drop, h, hc]
  have hopen : decide (some c = some slash) = false := decide_eq_false fun heq => hslash (Option.some.inj heq)
  have hread : readTagName env html (lt + 1) = some ⟨name, lt + 1 + name.length⟩ := by
    cases attrs with
    | nil => exact readTagName_of_drop hlower hname (by decide) h
    | cons a attrs => exact readTagName_of_drop hlower hname (by decide) h
  rw [markupAt, hfirst, if_neg fun heq => hmark (Option.some.inj heq)]
  simp only [hopen, Bool.false_eq_true, if_false, hread]

theorem markupAt_closing (hlower : ∀ t, (∀ c ∈ t, c < 128) → env.toLowerCase t = t.map lower)
    (hname : name ∈ ALLOWED_TAGS)
    (h : html.drop (lt + 1) = slash :: (name ++ greaterThan :: rest)) :
    markupAt env html lt = .tag lt true name (lt + 2 + name.length) := by
  have hfirst : html[lt + 1]? = some slash := by
    rw [← List.head?_drop, h, List.head?_cons]
  have hsecond : html.drop (lt + 2) = name ++ greaterThan :: rest := by
    rw [← List.tail_drop, h, List.tail_cons]
  have hread : readTagName env html (lt + 2) = some ⟨name, lt + 2 + name.length⟩ :=
    readTagName_of_drop hlower hname (by decide) hsecond
  rw [markupAt, hfirst, if_neg (by decide)]
  simp only [decide_true, if_true, hread]

/-- A kept tag is written again, and the scan goes on after it. -/
theorem emitTag_kept (hlower : ∀ t, (∀ c ∈ t, c < 128) → env.toLowerCase t = t.map lower) (htag : Kept tag)
    (h : html.drop lt = tag.text ++ rest) : ∃ close name nameEnd, markupAt env html lt = .tag lt close name nameEnd ∧
      name ∉ DROP_WITH_CONTENT ∧ ∀ s : Scan,
        emitTag html s lt close name nameEnd = some (.again ⟨lt + tag.text.length, s.cursors, s.out ++ tag.text⟩) := by
  cases tag with
  | closing name =>
    obtain ⟨hname, hvoid⟩ := htag
    obtain ⟨-, -, -, hdrop, hplain⟩ := isTagName_allowed hname
    have hafter : html.drop (lt + 1) = slash :: (name ++ greaterThan :: rest) := by
      rw [← List.tail_drop, h]
      simp only [Tag.text, Tag.body, List.cons_append, List.append_assoc, List.nil_append, List.tail_cons]
    have hgt : indexOf [greaterThan] html (lt + 1) = some (lt + 1 + (slash :: name).length) := by
      have hfront : html.drop (lt + 1) = (slash :: name) ++ greaterThan :: rest := hafter
      refine indexOf_of_drop hfront fun hmem => ?_
      rcases List.mem_cons.mp hmem with heq | hmem
      · exact absurd heq (by decide)
      · exact hplain hmem
    refine ⟨true, name, _, markupAt_closing hlower hname hafter, hdrop, fun s => ?_⟩
    rw [emitTag, hgt]
    simp only [hname, if_true, if_neg hvoid]
    have hplace : lt + 1 + (slash :: name).length + 1 = lt + (Tag.closing name).text.length := by
      simp only [Tag.text, Tag.body, List.length_append, List.length_cons, List.length_nil]
      omega
    rw [hplace]
  | opening name attrs =>
    obtain ⟨⟨c, w, hcons, -⟩, -, -, hdrop, hplain⟩ := isTagName_allowed htag.1
    have hafter : html.drop (lt + 1) = name ++ ((attrs.flatMap fun a => 32 :: attrText a.1 a.2) ++ greaterThan :: rest) := by
      rw [← List.tail_drop, h]
      simp only [Tag.text, Tag.body, List.cons_append, List.append_assoc, List.nil_append, List.tail_cons]
    have hattrs : greaterThan ∉ attrs.flatMap fun a => 32 :: attrText a.1 a.2 := by
      intro hmem
      obtain ⟨a, ha, hmem⟩ := List.mem_flatMap.mp hmem
      obtain ⟨hallowed, hvalue⟩ := htag.2.2 a ha
      rcases List.mem_cons.mp hmem with heq | hmem
      · exact absurd heq (by decide)
      · exact greaterThan_not_mem_attrText (isAttrName_allowed hallowed) hvalue hmem
    have hbody : html.drop (lt + 1) = (name ++ attrs.flatMap fun a => 32 :: attrText a.1 a.2) ++ greaterThan :: rest := by
      rw [hafter, List.append_assoc]
    have hgt : indexOf [greaterThan] html (lt + 1) =
        some (lt + 1 + (name ++ attrs.flatMap fun a => 32 :: attrText a.1 a.2).length) :=
      indexOf_of_drop hbody fun hmem => (List.mem_append.mp hmem).elim hplain hattrs
    have hslice : slice html (lt + 1 + name.length)
        (lt + 1 + (name ++ attrs.flatMap fun a => 32 :: attrText a.1 a.2).length) =
          attrs.flatMap fun a => 32 :: attrText a.1 a.2 := by
      rw [List.length_append, ← Nat.add_assoc]
      exact slice_of_drop (drop_of_drop hafter)
    refine ⟨false, name, _, markupAt_opening hlower htag.1 hafter, hdrop, fun s => ?_⟩
    rw [emitTag, hgt]
    simp only [htag.1, if_true, Bool.false_eq_true, if_false, hslice, sanitizeAttributes_kept htag, Option.map_some]
    have hplace : lt + 1 + (name ++ attrs.flatMap fun a => 32 :: attrText a.1 a.2).length + 1 =
        lt + (Tag.opening name attrs).text.length := by
      simp only [Tag.text, Tag.body, List.length_append, List.length_cons, List.length_nil]
      omega
    rw [hplace]
    rfl

/-! ## The scan -/

/-- A text of tags that are kept, from its front. -/
inductive Settled : Text → Prop
  | plain {u : Text} (hu : lessThan ∉ u) : Settled u
  | tag {u rest : Text} (hu : lessThan ∉ u) {tag : Tag} (htag : Kept tag) (h : Settled rest) :
    Settled (u ++ (tag.text ++ rest))

theorem Settled.prepend {u t : Text} (hu : lessThan ∉ u) (h : Settled t) : Settled (u ++ t) := by
  cases h with
  | plain hu' => exact .plain fun hmem => (List.mem_append.mp hmem).elim hu hu'
  | tag hu' htag h =>
    rw [← List.append_assoc]
    exact .tag (fun hmem => (List.mem_append.mp hmem).elim hu hu') htag h

theorem settled_of_made {t u : Text} (h : Made Kept t) (hu : Settled u) : Settled (t ++ u) := by
  induction h generalizing u with
  | nil => exact hu
  | plain _ hplain ih =>
    rw [List.append_assoc]
    exact ih (hu.prepend hplain)
  | tag _ htag ih =>
    rw [List.append_assoc]
    exact ih (.tag List.not_mem_nil htag hu)

/-- The scan of a settled text writes it as it is. -/
theorem run_scanPass_settled (hlower : ∀ t, (∀ c ∈ t, c < 128) → env.toLowerCase t = t.map lower) (index : CloseIndex)
    {cursors : Cursors} {n : ℕ} {t : Text} (ht : Settled t) (h : html.drop i = t) (hn : html.length - i < n) :
    run (scanPass env html index) n ⟨i, cursors, html.take i⟩ = some html := by
  obtain ⟨n, rfl⟩ := Nat.exists_eq_add_one_of_ne_zero (Nat.ne_zero_of_lt hn)
  induction ht generalizing i cursors n with
  | plain hu =>
    have hnone : nextStep env html i = .eof := by
      rw [nextStep, indexOf_none_of_drop (h ▸ hu)]
    rw [run, scanPass, hnone]
    simp only
    rw [List.take_append_drop]
  | @tag u rest hu tag htag hrest ih =>
    have hplace : html.drop (i + u.length) = tag.text ++ rest := drop_of_drop h
    obtain ⟨close, name, nameEnd, hmarkup, hdrop, hemit⟩ := emitTag_kept hlower htag hplace
    have hfront : html.drop i = u ++ lessThan :: (tag.body ++ rest) := h
    have hfound : indexOf [lessThan] html i = some (i + u.length) := indexOf_of_drop hfront hu
    have hnext : nextStep env html i = .tag (i + u.length) close name nameEnd := by
      rw [nextStep, hfound]
      exact hmarkup
    have hkept : html.take i ++ slice html i (i + u.length) = html.take (i + u.length) := by
      rw [slice_of_drop h, take_of_drop h]
    rw [run, scanPass, hnext]
    simp only
    rw [if_neg fun hboth => hdrop hboth.2, hemit, hkept, ← take_of_drop hplace]
    have hlength := congrArg List.length hplace
    rw [List.length_drop, List.length_append] at hlength
    have hpos : 0 < tag.text.length := Nat.succ_pos _
    cases n with
    | zero => omega
    | succ n => exact ih (drop_of_drop hplace) n (by omega)

end

/-- What the sanitizer wrote it writes again as it is. -/
theorem sanitizeInboundHtml_idempotent (env : Platform)
    (hlower : ∀ t, (∀ c ∈ t, c < 128) → env.toLowerCase t = t.map lower)
    (html : Option Text) (s : Text) (h : sanitizeInboundHtml env html = some (some s)) (hne : s ≠ [])
    (hlength : s.length ≤ INBOUND_HTML_MAX_CHARS) : sanitizeInboundHtml env (some s) = some (some s) := by
  have hmade : Made Kept s := made_of_sanitized h
  have hsettled : Settled s := by
    have happended := settled_of_made hmade (.plain List.not_mem_nil)
    rwa [List.append_nil] at happended
  obtain ⟨index, hindex⟩ := indexCloseTags_ends env s
  have hrun : run (scanPass env s index) (s.length + 1) ⟨0, fun _ => 0, []⟩ = some s :=
    run_scanPass_settled hlower index (i := 0) hsettled List.drop_zero (Nat.lt_succ_self _)
  rw [sanitizeInboundHtml, if_neg (by rwa [List.length_eq_zero_iff]), if_neg (by omega), hindex, Option.bind_some, hrun,
    Option.map_some]

/-- A mail with a link in capital letters, a void closing tag and a dropped element. -/
def untidyMail : Text := text "x<A HREF=' HTTPS://a?b&c' id=1>y</a></br><svg>z</svg>"

def tidyMail : Text := text "x<a href=\"HTTPS://a?b&amp;c\">y</a>"

theorem untidyMail_settles : sanitizeInboundHtml asciiPlatform (some untidyMail) = some (some tidyMail) ∧
    sanitizeInboundHtml asciiPlatform (some tidyMail) = some (some tidyMail) := by
  have htidy : sanitizeInboundHtml asciiPlatform (some untidyMail) = some (some tidyMail) := by
    decide +kernel
  exact ⟨htidy, sanitizeInboundHtml_idempotent asciiPlatform (fun _ _ => rfl) (some untidyMail) tidyMail htidy
    (by decide +kernel) (by decide +kernel)⟩

end Civfix.InboundHtml
