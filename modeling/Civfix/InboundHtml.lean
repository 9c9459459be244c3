import Civfix.TagTexts
import Civfix.TextScans

/-! # The sanitizer of inbound mail

`inbound-html-sanitizer.ts` scans the HTML of a received mail from left to right and writes out what it keeps: text, and
the allowed tags with their allowed attributes. Places are offsets into the mail's text, and every loop counts its
passes. -/
namespace Civfix.InboundHtml

open CodeUnits TextScans TagTexts

/-! ## Names -/

def DROP_WITH_CONTENT : List Text :=
  ["script", "style", "iframe", "frame", "frameset", "object", "embed", "applet", "svg", "math", "template", "noscript",
    "form", "button", "select", "textarea", "option", "title", "head"].map text

def RAW_TEXT_DROP : List Text := ["script", "style", "title", "textarea", "noscript"].map text

def ALLOWED_TAGS : List Text :=
  ["a", "b", "blockquote", "br", "code", "dd", "div", "dl", "dt", "em", "h1", "h2", "h3", "h4", "h5", "h6", "hr", "i",
    "img", "li", "ol", "p", "pre", "s", "small", "span", "strong", "sub", "sup", "u", "ul"].map text

def VOID_TAGS : List Text := ["br", "hr", "img"].map text

def ALLOWED_ATTRS (tag : Text) : Option (List Text) :=
  if tag = text "a" then some [text "href", text "title"]
  else if tag = text "img" then some [text "alt", text "title"]
  else none

def INBOUND_HTML_MAX_CHARS : ℕ := 512 * 1024

def MAX_TAG_NAME_CHARS : ℕ := 16

def CDATA_OPEN : Text := text "[cdata["

/-- Some letters outside ASCII have an ASCII letter as their lower case, so the lower case of a tag's name is left to
the platform; where only ASCII can stand, `lower` is it. -/
structure Platform where
  toLowerCase : Text → Text

variable (env : Platform) (html : Text)

/-! ## The markup from a place on -/

def isLetter (c : CodeUnit) : Bool := isUpper c || isLower c

structure TagName where
  name : Text
  last : ℕ

/-- The match of `TAG_NAME_RE` at a place. -/
def readTagName (at_ : ℕ) : Option TagName :=
  match html.drop at_ with
  | [] => none
  | c :: rest =>
    if isLetter c then
      let raw := c :: (rest.take MAX_TAG_NAME_CHARS).takeWhile fun c => !(isSpace c || c == slash || c == greaterThan)
      some ⟨env.toLowerCase raw, at_ + raw.length⟩
    else none

def skipPast (i : ℕ) (terminator : Text) : ℕ :=
  match indexOf terminator html i with
  | none => html.length
  | some k => k + terminator.length

def isCdataOpen (lt : ℕ) : Bool :=
  env.toLowerCase (slice html (lt + 2) (lt + 2 + CDATA_OPEN.length)) == CDATA_OPEN

inductive MarkupStep where
  | eof
  | skip (lt next : ℕ)
  | stray (lt : ℕ)
  | tail (lt : ℕ)
  | tag (lt : ℕ) (close : Bool) (name : Text) (nameEnd : ℕ)

/-- The markup at `<`: a comment, a CDATA section, a declaration, or a tag. -/
def markupAt (lt : ℕ) : MarkupStep :=
  if html[lt + 1]? = some 33 then
    if startsWith (text "--") html (lt + 2) then .skip lt (skipPast html (lt + 4) (text "-->"))
    else if isCdataOpen env html lt then .skip lt (skipPast html (lt + 2 + CDATA_OPEN.length) (text "]]>"))
    else
      match indexOf [greaterThan] html (lt + 2) with
      | none => .tail lt
      | some gt => .skip lt (gt + 1)
  else
    let close := decide (html[lt + 1]? = some slash)
    match readTagName env html (if close then lt + 2 else lt + 1) with
    | none => .stray lt
    | some parsed => .tag lt close parsed.name parsed.last

def nextStep (i : ℕ) : MarkupStep :=
  match indexOf [lessThan] html i with
  | none => .eof
  | some lt => markupAt env html lt

/-! ## The closing tags of what is dropped -/

def rawTextPass (name : Text) (i : ℕ) : Option (Pass ℕ ℕ) :=
  match indexOf [lessThan, slash] html i with
  | none => some (.done html.length)
  | some k =>
    match readTagName env html (k + 2) with
    | some parsed => if parsed.name = name then some (.done k) else some (.again (k + 2))
    | none => some (.again (k + 2))

def rawTextCloseAt (name : Text) (i : ℕ) : Option ℕ := run (rawTextPass env html name) (html.length - i + 1) i

/-- The places of the closing tags, by name; a name without any has no slots. -/
abbrev CloseIndex := Text → List ℕ

def CloseIndex.push (index : CloseIndex) (name : Text) (lt : ℕ) : CloseIndex :=
  Function.update index name (index name ++ [lt])

def indexPass (s : ℕ × CloseIndex) : Option (Pass (ℕ × CloseIndex) CloseIndex) :=
  match nextStep env html s.1 with
  | .eof => some (.done s.2)
  | .skip _ next => some (.again (next, s.2))
  | .tail _ => some (.done s.2)
  | .stray lt => some (.again (lt + 1, s.2))
  | .tag lt close name nameEnd =>
    if close then some (.again (lt + 2, if name ∈ DROP_WITH_CONTENT then s.2.push name lt else s.2))
    else if name ∈ RAW_TEXT_DROP then (rawTextCloseAt env html name nameEnd).map fun k => .again (k, s.2)
    else some (.again (lt + 1, s.2))

def indexCloseTags : Option CloseIndex := run (indexPass env html) (html.length + 1) (0, fun _ => [])

abbrev Cursors := Text → ℕ

def cursorPass (slots : List ℕ) (lt k : ℕ) : Option (Pass ℕ ℕ) :=
  if k < slots.length ∧ slots[k]?.getD 0 ≤ lt then some (.again (k + 1)) else some (.done k)

/-- The first closing tag of the name after `lt`, and the cursor left at it. -/
def closeAfter (index : CloseIndex) (cursors : Cursors) (name : Text) (lt : ℕ) : Option (Option ℕ × Cursors) :=
  let slots := index name
  if slots = [] then some (none, cursors)
  else
    (run (cursorPass slots lt) (slots.length - cursors name + 1) (cursors name)).map fun k =>
      (slots[k]?, Function.update cursors name k)

def escapedTail (i : ℕ) : Text := replaceUnit lessThan (text "&lt;") (html.drop i)

/-! ## Attribute values -/

def NAMED_ENTITIES : List (Text × Text) :=
  [(text "amp", [38]), (text "quot", [doubleQuote]), (text "apos", [39]), (text "lt", [lessThan]),
    (text "gt", [greaterThan]), (text "nbsp", [160]), (text "tab", [9]), (text "newline", [10])]

def MAX_CODE_POINT : ℕ := 0x10ffff

/-- The code units of a code point, a surrogate's own included. -/
def safeFromCodePoint (code : ℕ) : Text :=
  if MAX_CODE_POINT < code then []
  else if code < 0x10000 then [code]
  else [0xd800 + (code - 0x10000) / 0x400, 0xdc00 + (code - 0x10000) % 0x400]

/-- Past a semicolon at the front. -/
def skipSemicolon (t : Text) : Text := if t.head? = some 59 then t.tail else t

/-- A match of `ENTITY_RE` at the front, of hexadecimal digits, of decimal ones or of a name. -/
def entityAt (t : Text) : Option (Text × Text) :=
  match t with
  | [] => none
  | c :: t =>
    if c ≠ 38 then none
    else
      let hex := (t.drop 2).takeWhile isHexDigit
      let dec := (t.drop 1).takeWhile isDigit
      if t.head? = some 35 ∧ t[1]?.map lower = some 120 ∧ hex ≠ [] then
        some (safeFromCodePoint (hexValue hex), skipSemicolon (t.drop (2 + hex.length)))
      else if t.head? = some 35 ∧ dec ≠ [] then
        some (safeFromCodePoint (value dec), skipSemicolon (t.drop (1 + dec.length)))
      else
        (NAMED_ENTITIES.find? fun e => (e.1 ++ [59]).isPrefixOf (t.map lower)).map fun e =>
          (e.2, t.drop (e.1.length + 1))

/-- A code unit that `ATTR_CONTROL_CHARS_RE` removes. -/
def isAttrControl (c : CodeUnit) : Bool := decide (c ≤ 8 ∨ c = 11 ∨ c = 12 ∨ (14 ≤ c ∧ c ≤ 31))

def decodeEntities (t : Text) : Text := (replace entityAt t).filter fun c => !isAttrControl c

/-- Tab, line feed and carriage return. -/
def isUrlBreak (c : CodeUnit) : Bool := c == 9 || c == 10 || c == 13

/-- A C0 control or the space. -/
def isUrlNoise (c : CodeUnit) : Bool := decide (c ≤ 32)

def withoutUrlBreaks (t : Text) : Text := t.filter fun c => !isUrlBreak c

/-- `URL_EDGE_NOISE_RE` matches the run at the front and the run at the end. -/
def withoutUrlEdges (t : Text) : Text := (t.dropWhile isUrlNoise).rdropWhile isUrlNoise

def normalizeUrlAttr (t : Text) : Text := withoutUrlEdges (withoutUrlBreaks t)

/-- `SAFE_URL_RE`, which takes the letters of a scheme in either case. -/
def isSafeUrl (t : Text) : Bool :=
  ["http:", "https:", "mailto:"].any fun scheme => (text scheme).isPrefixOf (t.map lower)

def escapeAttr (t : Text) : Text :=
  replaceUnit greaterThan (text "&gt;") (replaceUnit lessThan (text "&lt;")
    (replaceUnit doubleQuote (text "&quot;") (replaceUnit 38 (text "&amp;") t)))

/-! ## Attributes -/

def isAttrNameStart (c : CodeUnit) : Bool := isLetter c || c == 95 || c == 58

def isAttrNameUnit (c : CodeUnit) : Bool := isAttrNameStart c || isDigit c || c == 45 || c == 46

/-- The match of `ATTR_NAME_RE` at a place. -/
def attrNameAt (raw : Text) (i : ℕ) : Option Text :=
  match raw.drop i with
  | [] => none
  | c :: rest => if isAttrNameStart c then some (c :: rest.takeWhile isAttrNameUnit) else none

def SPACE_CHARS : List CodeUnit := [32, 9, 10, 13, 12, 11]

def skipSpace (raw : Text) (i : ℕ) : ℕ := i + ((raw.drop i).takeWhile SPACE_CHARS.contains).length

/-- The value at a place, and where it ends: between quotes, or what `UNQUOTED_VALUE_RE` matches. -/
def attrValueAt (raw : Text) (i : ℕ) : Text × ℕ :=
  let quote := raw[i]?.getD 0
  if quote = doubleQuote ∨ quote = 39 then
    match indexOf [quote] raw (i + 1) with
    | none => (raw.drop (i + 1), raw.length)
    | some last => (slice raw (i + 1) last, last + 1)
  else
    let plain := (raw.drop i).takeWhile fun c => !(isSpace c || c == doubleQuote || c == 39 || c == greaterThan)
    if plain = [] then ([], i + 1) else (plain, i + plain.length)

structure Attributes where
  i : ℕ
  out : List Text
  seen : List Text

/-- One pass over the attributes, from the place of the next one. -/
def attributePass (allowed : List Text) (raw : Text) (s : Attributes) : Option (Pass Attributes (List Text)) :=
  if raw.length ≤ s.i then some (.done s.out)
  else
    match attrNameAt raw s.i with
    | none => some (.again { s with i := s.i + 1 })
    | some nameMatch =>
      let name := nameMatch.map lower
      let i := skipSpace raw (s.i + nameMatch.length)
      if raw[i]? ≠ some equalsSign then some (.again { s with i := if i = s.i then s.i + 1 else i })
      else
        let rawValue := attrValueAt raw (skipSpace raw (i + 1))
        if name ∉ allowed ∨ name ∈ s.seen then some (.again { s with i := rawValue.2 })
        else
          let decoded := decodeEntities rawValue.1
          let value := if name = text "href" then normalizeUrlAttr decoded else decoded
          if name = text "href" ∧ !isSafeUrl value then
            some (.again { s with i := rawValue.2, seen := s.seen ++ [name] })
          else
            some (.again ⟨rawValue.2, s.out ++ [attrText name (escapeAttr value)], s.seen ++ [name]⟩)

def sanitizeAttributes (tag raw : Text) : Option Text :=
  match ALLOWED_ATTRS tag with
  | none => some []
  | some allowed =>
    if raw.all isSpace then some []
    else (run (attributePass allowed raw) (raw.length + 1) ⟨0, [], []⟩).map fun out =>
      if out = [] then [] else 32 :: [32].intercalate out

/-! ## The scan -/

structure Scan where
  i : ℕ
  cursors : Cursors
  out : Text

/-- The tag at `lt` as it is kept, from its name's end on. -/
def emitTag (s : Scan) (lt : ℕ) (close : Bool) (name : Text) (nameEnd : ℕ) : Option (Pass Scan Text) :=
  match indexOf [greaterThan] html (lt + 1) with
  | none => some (.done (s.out ++ escapedTail html lt))
  | some gt =>
    if name ∈ ALLOWED_TAGS then
      if close then
        some (.again ⟨gt + 1, s.cursors, s.out ++ if name ∈ VOID_TAGS then [] else (Tag.closing name).text⟩)
      else
        (sanitizeAttributes name (slice html nameEnd gt)).map fun attrs =>
          .again ⟨gt + 1, s.cursors, s.out ++ lessThan :: (name ++ attrs ++ [greaterThan])⟩
    else some (.again ⟨gt + 1, s.cursors, s.out⟩)

/-- What stands before the markup is written out first. -/
def scanPass (index : CloseIndex) (s : Scan) : Option (Pass Scan Text) :=
  match nextStep env html s.i with
  | .eof => some (.done (s.out ++ html.drop s.i))
  | .skip lt next => some (.again ⟨next, s.cursors, s.out ++ slice html s.i lt⟩)
  | .tail lt => some (.done (s.out ++ slice html s.i lt ++ escapedTail html lt))
  | .stray lt => some (.again ⟨lt + 1, s.cursors, s.out ++ slice html s.i lt ++ text "&lt;"⟩)
  | .tag lt close name nameEnd =>
    let out := s.out ++ slice html s.i lt
    if !close ∧ name ∈ DROP_WITH_CONTENT then
      match closeAfter index s.cursors name lt with
      | none => none
      | some (some k, cursors) =>
        match indexOf [greaterThan] html k with
        | none => some (.done out)
        | some gt => some (.again ⟨gt + 1, cursors, out⟩)
      | some (none, cursors) =>
        if name ∈ RAW_TEXT_DROP then some (.done out)
        else emitTag html ⟨s.i, cursors, out⟩ lt close name nameEnd
    else emitTag html ⟨s.i, s.cursors, out⟩ lt close name nameEnd

/-- The sanitized mail, or null; none where a loop does not end within its passes. -/
def sanitizeInboundHtml (html : Option Text) : Option (Option Text) :=
  match html with
  | none => some none
  | some html =>
    if html.length = 0 then some none
    else if INBOUND_HTML_MAX_CHARS < html.length then some none
    else
      (indexCloseTags env html).bind fun index =>
        (run (scanPass env html index) (html.length + 1) ⟨0, fun _ => 0, []⟩).map some

end Civfix.InboundHtml
