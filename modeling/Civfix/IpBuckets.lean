import Civfix.PushAddresses

/-! # Rate limit buckets of addresses

`normalizeIp` names the bucket that an address is counted in: an IPv4 address by itself, plain or mapped, and an IPv6
address by its first four groups. -/
namespace Civfix.IpBuckets

open CodeUnits AddressTexts PushAddresses

section

variable {t u : Text} {c : ℕ}

end

/-! ## Groups without leading zeros -/

section

variable {g : Text}

end

/-! ## Spellings -/

/-- The spelling of an address: an IPv4 address has one, an IPv6 address many. -/
inductive AddressText where
  | ipv4 (q : Quad)
  | ipv6 (sp : Spelling) (zone : ∀ z ∈ sp.zone, ∀ c ∈ z, 32 < c ∧ c < 127)

def AddressText.text : AddressText → Text
  | ipv4 q => dotted q.bytes
  | ipv6 sp _ => sp.text

/-- What a bucket is for: an IPv4 address, or an IPv6 network of 64 bits. -/
inductive Denoted where
  | ipv4 (bytes : List ℕ)
  | network (bytes : List ℕ)
  deriving DecidableEq

/-- Bytes in pairs, as numbers. -/
def pairs : List ℕ → List ℕ
  | a :: b :: bytes => (a * 256 + b) :: pairs bytes
  | _ => []

/-- The name of a bucket: four decimal numbers, or four groups without leading zeros. -/
def Denoted.bucket : Denoted → Text
  | ipv4 bytes => dotted bytes
  | network bytes => joined ((pairs bytes).map hexText) ++ CodeUnits.text "::/64"

/-- A group in lower case. -/
def low (g : Hextet) : Text := g.text.map lower

/-- A zone with its percent sign and in lower case, cut at its colons up to its first double colon. -/
def zonePieces (z : Text) : List Text := ((splitDouble (percent :: z.map lower)).headD []).splitOn colon

/-- Pieces that follow groups without a colon between them. -/
def glued (groups pieces : List Text) : List Text :=
  groups.dropLast ++ (groups.getLastD [] ++ pieces.headD []) :: pieces.tail

/-- The pieces between colons after the double colon: a dotted quad is one, and a zone belongs to the last of them and
is cut at its own colons. -/
def piecesAfter (sp : Spelling) (tail : List Hextet) : List Text :=
  let groups := tail.map low ++ sp.quad.toList.map fun q => dotted q.bytes
  match sp.zone with
  | none => groups
  | some z => glued groups (zonePieces z)

/-- A piece without its leading zeros. -/
def bare (t : Text) : Text := t.dropWhile fun c => decide (c = 48)

/-- The piece at a place of a spelling: the pieces after the double colon take the last of eight places, or the places
right after the head if they are too many, and zeros stand between. -/
def pieceAt (sp : Spelling) (i : ℕ) : Text :=
  match sp.gap with
  | none => (sp.head.map low)[i]?.getD []
  | some tail =>
    let start := max sp.head.length (8 - (piecesAfter sp tail).length)
    if i < sp.head.length then (sp.head.map low)[i]?.getD []
    else if i < start then [48] else (piecesAfter sp tail)[i - start]?.getD []

/-- The pieces at the four places of the network, without leading zeros. -/
def AddressText.counted : AddressText → List Text
  | ipv4 _ => []
  | ipv6 sp _ => (List.range 4).map fun i => bare (pieceAt sp i)

/-- The four groups of a network, without leading zeros. -/
def Denoted.groups : Denoted → Option (List Text)
  | ipv4 _ => none
  | network bytes => some ((pairs bytes).map fun n => bare (hexText n))

section

variable {α : Type*} {z : α} {p g : ℕ → α} {h k m w : ℕ}

/-- A list of eight that starts with `h` entries of its own and ends with `k` entries `p`, from place `h` on. -/
def placed (z : α) (h k : ℕ) (p : ℕ → α) (q : ℕ) : α := if q < h + (8 - h - k) then z else p (q - h - (8 - h - k))

end

/-! ## The groups that are read -/

section

variable {sp : Spelling} {gs : List Text} {u : Text} {i : ℕ}

/-- The groups as they are written, in lower case and with a dotted quad as one of them. -/
def writtenGroups (sp : Spelling) : List Text × Option (List Text) :=
  sp.sides (fun h => [low h]) fun q => [dotted q.bytes]

/-- The zone with its percent sign, in lower case. -/
def zoneText (sp : Spelling) : Text := sp.zone.elim [] fun z => percent :: z.map lower

theorem map_lower_text (sp : Spelling) : sp.text.map lower = spelled (writtenGroups sp) ++ zoneText sp := by
  rw [Spelling.text, List.map_append, map_lower_address, zoneText]
  cases sp.zone <;> rfl

theorem writtenGroups_of_some {tail : List Hextet} (h : sp.gap = some tail) :
    writtenGroups sp = (sp.head.map low, some (tail.map low ++ sp.quad.toList.map fun q => dotted q.bytes)) := by
  rw [writtenGroups, Spelling.sides, h]
  simp only [List.map_eq_flatMap]

/-- A spelling `::g:a.b.c.d`. -/
def Shape (sp : Spelling) (g : Hextet) (q : Quad) : Prop :=
  sp.head = [] ∧ sp.gap = some [g] ∧ sp.quad = some q ∧ sp.zone = none

theorem Shape.bytes {g : Hextet} {q : Quad} (h : Shape sp g q) :
    sp.bytes = List.replicate 10 0 ++ g.bytes ++ q.bytes := by
  obtain ⟨hhead, hgap, hquad, -⟩ := h
  rw [Spelling.bytes, Spelling.sides, hhead, hgap, hquad]
  rfl

theorem Shape.text {g : Hextet} {q : Quad} (h : Shape sp g q) :
    sp.text.map lower = colon :: colon :: (g.text.map lower ++ colon :: dotted q.bytes) := by
  obtain ⟨hhead, hgap, hquad, hzone⟩ := h
  have hjoined : joined [low g, dotted q.bytes] = g.text.map lower ++ colon :: dotted q.bytes := by
    rw [joined_cons (List.cons_ne_nil _ _), joined, List.intercalate_singleton, low]
  rw [map_lower_text, writtenGroups_of_some hgap, hhead, hquad, zoneText, hzone, Option.elim_none, List.append_nil,
    ← hjoined]
  rfl

variable {toLowerCase : Text → Text} {a b : AddressText}

end

end Civfix.IpBuckets
