import Civfix.CodeUnits

/-! # Texts with tags

A grammar names the tags of a text, the attributes of each and what an attribute's value must be. A text is emitted by
it when it is put together from text without `<` and allowed tags, so every `<` in it begins an allowed tag. -/
namespace TagTexts

open CodeUnits

def slash : CodeUnit := 47

def lessThan : CodeUnit := 60

def equalsSign : CodeUnit := 61

def greaterThan : CodeUnit := 62

/-- A value that double quotes enclose, and that no tag ends in. -/
def Enclosed (v : Text) : Prop := doubleQuote ∉ v ∧ lessThan ∉ v ∧ greaterThan ∉ v

instance (v : Text) : Decidable (Enclosed v) :=
  inferInstanceAs (Decidable (doubleQuote ∉ v ∧ lessThan ∉ v ∧ greaterThan ∉ v))

structure Grammar where
  tags : List Text
  attrs : Text → List Text
  /-- What the value of an attribute must be. -/
  safe : Text → Text → Prop
  plainTags : ∀ name ∈ tags, lessThan ∉ name
  plainAttrs : ∀ tag, ∀ name ∈ attrs tag, lessThan ∉ name

inductive Tag where
  | opening (name : Text) (attrs : List (Text × Text))
  | closing (name : Text)

def attrText (name value : Text) : Text := name ++ equalsSign :: doubleQuote :: value ++ [doubleQuote]

/-- What stands after `<`. -/
def Tag.body : Tag → Text
  | .opening name attrs => name ++ attrs.flatMap (fun a => 32 :: attrText a.1 a.2) ++ [greaterThan]
  | .closing name => slash :: name ++ [greaterThan]

def Tag.text (tag : Tag) : Text := lessThan :: tag.body

/-- A tag of the grammar, with each attribute at most once. -/
def Tag.Allowed (G : Grammar) : Tag → Prop
  | .opening name attrs => name ∈ G.tags ∧ (attrs.map Prod.fst).Nodup ∧
      ∀ a ∈ attrs, a.1 ∈ G.attrs name ∧ Enclosed a.2 ∧ G.safe a.1 a.2
  | .closing name => name ∈ G.tags

inductive Emits (G : Grammar) : Text → Prop
  | nil : Emits G []
  | plain {t u : Text} (h : Emits G t) (hu : lessThan ∉ u) : Emits G (t ++ u)
  | tag {t : Text} (h : Emits G t) {tag : Tag} (htag : tag.Allowed G) : Emits G (t ++ tag.text)

/-- A text put together from text without `<` and tags with a property. -/
inductive Made (P : Tag → Prop) : Text → Prop
  | nil : Made P []
  | plain {t u : Text} (h : Made P t) (hu : lessThan ∉ u) : Made P (t ++ u)
  | tag {t : Text} (h : Made P t) {tag : Tag} (htag : P tag) : Made P (t ++ tag.text)

variable {G : Grammar} {tag : Tag} {t : Text} {k : ℕ} {P : Tag → Prop}

theorem Made.emits (h : Made P t) (hallowed : ∀ tag, P tag → tag.Allowed G) : Emits G t := by
  induction h with
  | nil => exact .nil
  | plain _ hu ih => exact ih.plain hu
  | tag _ htag ih => exact ih.tag (hallowed _ htag)

theorem Tag.Allowed.lessThan_not_mem_body (h : tag.Allowed G) : lessThan ∉ tag.body := by
  cases tag with
  | closing name =>
    rw [Tag.body, List.cons_append, List.mem_cons, List.mem_append, List.mem_singleton]
    rintro (hmem | hmem | hmem)
    · exact absurd hmem (by decide)
    · exact G.plainTags name h hmem
    · exact absurd hmem (by decide)
  | opening name attrs =>
    obtain ⟨hname, -, hattrs⟩ := h
    rw [Tag.body, List.mem_append, List.mem_append, List.mem_singleton, List.mem_flatMap]
    rintro ((hmem | ⟨a, ha, hmem⟩) | hmem)
    · exact G.plainTags name hname hmem
    · obtain ⟨hattr, ⟨-, hvalue, -⟩, -⟩ := hattrs a ha
      rw [attrText, List.mem_cons, List.mem_append, List.mem_append, List.mem_cons, List.mem_cons,
        List.mem_singleton] at hmem
      rcases hmem with hmem | (hmem | hmem | hmem | hmem) | hmem
      · exact absurd hmem (by decide)
      · exact G.plainAttrs name a.1 hattr hmem
      · exact absurd hmem (by decide)
      · exact absurd hmem (by decide)
      · exact hvalue hmem
      · exact absurd hmem (by decide)
    · exact absurd hmem (by decide)

/-- Every `<` of an emitted text begins an allowed tag. -/
theorem Emits.tag_at (h : Emits G t) (hk : t[k]? = some lessThan) :
    ∃ tag : Tag, tag.Allowed G ∧ tag.text <+: t.drop k := by
  have hearlier : ∀ {t u : Text}, k < t.length → (t ++ u)[k]? = some lessThan →
      (t[k]? = some lessThan → ∃ tag : Tag, tag.Allowed G ∧ tag.text <+: t.drop k) →
      ∃ tag : Tag, tag.Allowed G ∧ tag.text <+: (t ++ u).drop k := by
    intro t u hlt hk ih
    rw [List.getElem?_append_left hlt] at hk
    obtain ⟨tag, htag, hstarts⟩ := ih hk
    rw [List.drop_append_of_le_length (Nat.le_of_lt hlt)]
    exact ⟨tag, htag, hstarts.trans (List.prefix_append _ _)⟩
  induction h with
  | nil => cases hk
  | @plain t u h hu ih =>
    rcases Nat.lt_or_ge k t.length with hlt | hge
    · exact hearlier hlt hk ih
    · rw [List.getElem?_append_right hge] at hk
      exact absurd (List.mem_of_getElem? hk) hu
  | @tag t h tag htag ih =>
    rcases Nat.lt_or_ge k t.length with hlt | hge
    · exact hearlier hlt hk ih
    · rw [List.getElem?_append_right hge, Tag.text, List.getElem?_cons] at hk
      split at hk
      · next hzero =>
        have hlength : k = t.length := by omega
        rw [hlength, List.drop_left]
        exact ⟨tag, htag, List.prefix_refl _⟩
      · exact absurd (List.mem_of_getElem? hk) htag.lessThan_not_mem_body

end TagTexts
