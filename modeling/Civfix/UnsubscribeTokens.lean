import Mathlib.Data.Rat.Floor
import Mathlib.Logic.Equiv.List
import Civfix.Base64Url
import Civfix.JsonValues
import Civfix.Utf8Texts

/-! # Unsubscribe tokens

A token is a version, a body and a signature, with dots between them. The body is the JSON of a capability in base64, and the
signature is a keyed digest of version and body. -/
namespace Civfix.UnsubscribeTokens

open CodeUnits
open JsonTexts JsonValues Utf8Texts

def UNSUBSCRIBE_TOKEN_VERSION : Text := text "u1"
def TOKEN_PAYLOAD_VERSION : ℤ := 1
def MS_PER_SECOND : ℚ := 1000
inductive UnsubscribeSubjectKind where
  | user
  | guest
  deriving DecidableEq

def SUBJECT_KINDS : List UnsubscribeSubjectKind := [.user, .guest]

def UnsubscribeSubjectKind.text : UnsubscribeSubjectKind → Text
  | user => CodeUnits.text "user"
  | guest => CodeUnits.text "guest"

structure UnsubscribeCapability where
  subjectKind : UnsubscribeSubjectKind
  subjectId : Text
  cleanupId : Text
  expiresAtMs : ℚ
  deriving DecidableEq

/-- `createHmac("sha256", signingKey).update(bytes).digest()`. -/
abbrev Hmac := Text → List ℕ → List ℕ

def expirySeconds (capability : UnsubscribeCapability) : ℤ := ⌊capability.expiresAtMs / MS_PER_SECOND⌋

/-- `JSON.stringify(payload)`. -/
def payloadText (capability : UnsubscribeCapability) : Text :=
  objectText [(text "v", integerText TOKEN_PAYLOAD_VERSION), (text "s", quoted capability.subjectKind.text),
    (text "i", quoted capability.subjectId), (text "e", quoted capability.cleanupId),
    (text "x", integerText (expirySeconds capability))]

def encode (value : Text) : Text := Base64Url.encode (utf8 value)

def sign (hmac : Hmac) (body signingKey : Text) : Text :=
  Base64Url.encode (hmac signingKey (utf8 (UNSUBSCRIBE_TOKEN_VERSION ++ dot :: body)))

/-- A body under its signature. -/
def tokenOf (hmac : Hmac) (body signingKey : Text) : Text :=
  UNSUBSCRIBE_TOKEN_VERSION ++ dot :: (body ++ dot :: sign hmac body signingKey)

def mintUnsubscribeToken (hmac : Hmac) (capability : UnsubscribeCapability) (signingKey : Text) : Text :=
  tokenOf hmac (encode (payloadText capability)) signingKey

/-- The bytes of both texts are compared. -/
def constantTimeStringEqual (a b : Text) : Bool := decide (utf8 a = utf8 b)

def field (parsed : JsonValue) (name : String) : Option JsonValue :=
  match parsed with
  | .object members => lookup members (text name)
  | _ => none

def versionOf (parsed : JsonValue) : Option ℚ :=
  match field parsed "v" with
  | some (.number q) => some q
  | _ => none

def kindOf (parsed : JsonValue) : Option UnsubscribeSubjectKind :=
  match field parsed "s" with
  | some (.string t) => SUBJECT_KINDS.find? fun kind => decide (kind.text = t)
  | _ => none

/-- A string that is not empty. -/
def idOf (parsed : JsonValue) (name : String) : Option Text :=
  match field parsed name with
  | some (.string t) => if t.length = 0 then none else some t
  | _ => none

/-- A number is exact here, so `Number.isFinite` holds of it; one past the largest double is not refused. -/
def secondsOf (parsed : JsonValue) : Option ℚ :=
  match field parsed "x" with
  | some (.number q) => some q
  | _ => none

/-- The checks of a payload, in their order. -/
def readCapability (nowMs : ℚ) (parsed : JsonValue) : Option UnsubscribeCapability :=
  if versionOf parsed = some (TOKEN_PAYLOAD_VERSION : ℚ) then
    (kindOf parsed).bind fun subjectKind => (idOf parsed "i").bind fun subjectId =>
      (idOf parsed "e").bind fun cleanupId =>
      (secondsOf parsed).bind fun x =>
        let expiresAtMs := x * MS_PER_SECOND
        if expiresAtMs ≤ nowMs then none else some ⟨subjectKind, subjectId, cleanupId, expiresAtMs⟩
  else none

def verifyUnsubscribeToken (hmac : Hmac) (token signingKey : Text) (nowMs : ℚ) : Option UnsubscribeCapability :=
  match token.splitOn dot with
  | [version, body, signature] =>
    if version ≠ UNSUBSCRIBE_TOKEN_VERSION then none
    else if body.length = 0 ∨ signature.length = 0 then none
    else if constantTimeStringEqual signature (sign hmac body signingKey) = false then none
    else (parse (fromUtf8 (Base64Url.decode body))).bind (readCapability nowMs)
  | _ => none

/-! ## Payloads -/

section

variable {hmac : Hmac} {capability c : UnsubscribeCapability} {signingKey signingKey' token body : Text} {nowMs : ℚ}

/-- The ids are texts of 16-bit units. -/
def UnsubscribeCapability.Units (capability : UnsubscribeCapability) : Prop :=
  (∀ u ∈ capability.subjectId, u < 65536) ∧ ∀ u ∈ capability.cleanupId, u < 65536

instance (capability : UnsubscribeCapability) : Decidable capability.Units :=
  inferInstanceAs (Decidable (_ ∧ _))

/-- The capability with its expiry floored to whole seconds. -/
def UnsubscribeCapability.floored (capability : UnsubscribeCapability) : UnsubscribeCapability :=
  { capability with expiresAtMs := expirySeconds capability * MS_PER_SECOND }

def payloadMembers (capability : UnsubscribeCapability) : List (Text × JsonValue) :=
  [(text "v", .number (TOKEN_PAYLOAD_VERSION : ℤ)), (text "s", .string capability.subjectKind.text),
    (text "i", .string capability.subjectId), (text "e", .string capability.cleanupId),
    (text "x", .number (expirySeconds capability : ℤ))]

theorem parse_payloadText (capability : UnsubscribeCapability) :
    parse (payloadText capability) = some (.object (payloadMembers capability)) := by
  have hversion : Writes (integerText TOKEN_PAYLOAD_VERSION) (.number (TOKEN_PAYLOAD_VERSION : ℤ)) :=
    writes_integerText _
  have hseconds : Writes (integerText (expirySeconds capability)) (.number (expirySeconds capability : ℤ)) :=
    writes_integerText _
  refine parse_objectText ?_ (List.cons_ne_nil _ _)
  exact .cons ⟨rfl, hversion⟩ (.cons ⟨rfl, writes_quoted _⟩ (.cons ⟨rfl, writes_quoted _⟩
    (.cons ⟨rfl, writes_quoted _⟩ (.cons ⟨rfl, hseconds⟩ .nil))))

theorem kindOf_payload (capability : UnsubscribeCapability) :
    kindOf (.object (payloadMembers capability)) = some capability.subjectKind := by
  have hfield : field (.object (payloadMembers capability)) "s" = some (.string capability.subjectKind.text) := rfl
  rw [kindOf, hfield]
  cases capability.subjectKind <;> rfl

/-- A payload is read back unless an id is empty or the expiry has come. -/
theorem readCapability_payload (capability : UnsubscribeCapability) (nowMs : ℚ) :
    readCapability nowMs (.object (payloadMembers capability)) =
      if capability.subjectId ≠ [] ∧ capability.cleanupId ≠ [] ∧ nowMs < capability.floored.expiresAtMs then
        some capability.floored
      else none := by
  have hversion : versionOf (.object (payloadMembers capability)) = some (TOKEN_PAYLOAD_VERSION : ℚ) := rfl
  have hsubject : idOf (.object (payloadMembers capability)) "i" =
      if capability.subjectId.length = 0 then none else some capability.subjectId := rfl
  have hcleanup : idOf (.object (payloadMembers capability)) "e" =
      if capability.cleanupId.length = 0 then none else some capability.cleanupId := rfl
  have hseconds : secondsOf (.object (payloadMembers capability)) = some (expirySeconds capability : ℚ) := rfl
  have hfloored : capability.floored.expiresAtMs = expirySeconds capability * MS_PER_SECOND := rfl
  rw [readCapability, if_pos hversion, kindOf_payload, Option.bind_some, hsubject, hcleanup, hseconds, hfloored]
  by_cases hs : capability.subjectId = []
  · rw [if_pos (List.length_eq_zero_iff.2 hs), if_neg fun h : _ ≠ _ ∧ _ => h.1 hs]
    rfl
  have hslength : ¬capability.subjectId.length = 0 := fun h => hs (List.length_eq_zero_iff.1 h)
  by_cases hc : capability.cleanupId = []
  · rw [if_neg hslength, if_pos (List.length_eq_zero_iff.2 hc), if_neg fun h : _ ∧ _ ≠ _ ∧ _ => h.2.1 hc]
    rfl
  have hclength : ¬capability.cleanupId.length = 0 := fun h => hc (List.length_eq_zero_iff.1 h)
  rw [if_neg hslength, if_neg hclength]
  simp only [Option.bind_some, ne_eq, hs, hc, not_false_eq_true, true_and]
  by_cases hnow : (expirySeconds capability : ℚ) * MS_PER_SECOND ≤ nowMs
  · rw [if_pos hnow, if_neg (not_lt.2 hnow)]
  · rw [if_neg hnow, if_pos (not_le.1 hnow)]
    rfl

theorem complete_integerText (n : ℤ) : Complete (integerText n) := by
  have hdecimal : ∀ m : ℕ, Complete (decimal m) := by
    intro m
    refine complete_of_ascii fun c hc => ?_
    have hascii : ∀ c : ℕ, isDigit c = true → c < 128 := by
      intro c hc
      have hrange := of_decide_eq_true hc
      omega
    exact hascii c (isDigit_of_decimal hc)
  unfold integerText
  split
  · exact (hdecimal _).cons (by decide) rfl rfl
  · exact hdecimal _

theorem complete_membersText {ms : List (Text × Text)} (h : ∀ m ∈ ms, Complete (quoted m.1) ∧ Complete m.2) :
    Complete (membersText ms) := by
  induction ms using membersText.induct with
  | case1 => exact complete_nil
  | case2 m =>
    obtain ⟨hname, hvalue⟩ := h m List.mem_cons_self
    exact hname.append (hvalue.cons (by decide) rfl rfl)
  | case3 m m' ms ih =>
    obtain ⟨hname, hvalue⟩ := h m List.mem_cons_self
    have hrest := ih fun x hx => h x (List.mem_cons_of_mem _ hx)
    exact hname.append ((hvalue.append (hrest.cons (by decide) rfl rfl)).cons (by decide) rfl rfl)

theorem wellFormed_payloadText (h : capability.Units) : WellFormed (payloadText capability) := by
  have hmembers : Complete (membersText [(text "v", integerText TOKEN_PAYLOAD_VERSION),
      (text "s", quoted capability.subjectKind.text), (text "i", quoted capability.subjectId),
      (text "e", quoted capability.cleanupId), (text "x", integerText (expirySeconds capability))]) := by
    have hname : ∀ name ∈ [text "v", text "s", text "i", text "e", text "x"], ∀ u ∈ name, u < 65536 := by decide
    have hkind : ∀ u ∈ capability.subjectKind.text, u < 65536 := by
      cases capability.subjectKind <;> decide
    have hversion := complete_integerText TOKEN_PAYLOAD_VERSION
    have hseconds := complete_integerText (expirySeconds capability)
    refine complete_membersText fun m hm => ?_
    simp only [List.mem_cons, List.not_mem_nil, or_false] at hm
    rcases hm with rfl | rfl | rfl | rfl | rfl
    · exact ⟨complete_quoted (hname _ (by simp)), hversion⟩
    · exact ⟨complete_quoted (hname _ (by simp)), complete_quoted hkind⟩
    · exact ⟨complete_quoted (hname _ (by simp)), complete_quoted h.1⟩
    · exact ⟨complete_quoted (hname _ (by simp)), complete_quoted h.2⟩
    · exact ⟨complete_quoted (hname _ (by simp)), hseconds⟩
  exact ((hmembers.append (complete_of_ascii (by decide))).cons (by decide) rfl rfl).wellFormed

theorem fromUtf8_decode_encode (h : capability.Units) :
    fromUtf8 (Base64Url.decode (encode (payloadText capability))) = payloadText capability := by
  have hwell := wellFormed_payloadText h
  rw [encode, Base64Url.decode_encode fun b hb => lt_of_mem_utf8 hwell.units hb, fromUtf8_utf8 hwell]

/-! ## Tokens -/

theorem encode_no_dot (bytes : List ℕ) : dot ∉ Base64Url.encode bytes := by
  intro h
  obtain ⟨n, hn, heq⟩ := Base64Url.exists_of_mem_encode h
  exact (Base64Url.letter_spec n hn).2.1 heq.symm

theorem encode_ascii (bytes : List ℕ) : ∀ c ∈ Base64Url.encode bytes, c < 128 := by
  intro c h
  obtain ⟨n, hn, rfl⟩ := Base64Url.exists_of_mem_encode h
  exact (Base64Url.letter_spec n hn).2.2.2

theorem sign_no_dot (hmac : Hmac) (body signingKey : Text) : dot ∉ sign hmac body signingKey := encode_no_dot _

theorem payload_no_dot (capability : UnsubscribeCapability) : dot ∉ encode (payloadText capability) := encode_no_dot _

theorem splitOn_tokenOf (hbody : dot ∉ body) (hmac : Hmac) (signingKey : Text) :
    (tokenOf hmac body signingKey).splitOn dot = [UNSUBSCRIBE_TOKEN_VERSION, body, sign hmac body signingKey] := by
  have hversion : dot ∉ UNSUBSCRIBE_TOKEN_VERSION := by decide
  rw [tokenOf, List.splitOn_append_cons_self_of_not_mem hversion, List.splitOn_append_cons_self_of_not_mem hbody,
    List.splitOn_eq_singleton (sign_no_dot _ _ _)]

/-- Of a signed body only the payload is left to check. -/
theorem verify_tokenOf (hne : ∀ key bytes, hmac key bytes ≠ []) (hdot : dot ∉ body) (hbody : body ≠ []) :
    verifyUnsubscribeToken hmac (tokenOf hmac body signingKey) signingKey nowMs =
      (parse (fromUtf8 (Base64Url.decode body))).bind (readCapability nowMs) := by
  have hsignature : sign hmac body signingKey ≠ [] := Base64Url.encode_ne_nil (hne _ _)
  have hlengths : ¬(body.length = 0 ∨ (sign hmac body signingKey).length = 0) := by
    rw [List.length_eq_zero_iff, List.length_eq_zero_iff, not_or]
    exact ⟨hbody, hsignature⟩
  have hequal : ¬constantTimeStringEqual (sign hmac body signingKey) (sign hmac body signingKey) = false := by
    rw [constantTimeStringEqual, decide_eq_true rfl]
    decide
  rw [verifyUnsubscribeToken, splitOn_tokenOf hdot]
  dsimp only
  rw [if_neg (not_not.2 rfl), if_neg hlengths, if_neg hequal]

theorem verify_mint (hne : ∀ key bytes, hmac key bytes ≠ []) (h : capability.Units) (signingKey : Text) (nowMs : ℚ) :
    verifyUnsubscribeToken hmac (mintUnsubscribeToken hmac capability signingKey) signingKey nowMs =
      if capability.subjectId ≠ [] ∧ capability.cleanupId ≠ [] ∧ nowMs < capability.floored.expiresAtMs then
        some capability.floored
      else none := by
  have hbody : encode (payloadText capability) ≠ [] := by
    refine Base64Url.encode_ne_nil fun hnil => ?_
    have hread := fromUtf8_utf8 (wellFormed_payloadText h)
    rw [hnil] at hread
    cases hread
  rw [mintUnsubscribeToken, verify_tokenOf hne (payload_no_dot _) hbody, fromUtf8_decode_encode h, parse_payloadText,
    Option.bind_some, readCapability_payload]

/-- A token that is accepted has the signature of its body. -/
theorem eq_tokenOf_of_verify (h : verifyUnsubscribeToken hmac token signingKey nowMs = some c) :
    ∃ body, dot ∉ body ∧ token = tokenOf hmac body signingKey ∧
      (parse (fromUtf8 (Base64Url.decode body))).bind (readCapability nowMs) = some c := by
  unfold verifyUnsubscribeToken at h
  split at h
  · next version body signature hsplit =>
    split at h
    · cases h
    · next hversion =>
      split at h
      · cases h
      · split at h
        · cases h
        · next hequal =>
          have hsame : signature = sign hmac body signingKey := by
            have hbytes : utf8 signature = utf8 (sign hmac body signingKey) := by
              simpa [constantTimeStringEqual] using hequal
            exact eq_of_utf8_eq_ascii (encode_ascii _) hbytes
          have hjoined : [dot].intercalate (token.splitOn dot) = token := List.intercalate_splitOn dot
          have hbody : dot ∉ body := not_mem_of_mem_splitOn (hsplit ▸ List.mem_cons_of_mem _ List.mem_cons_self)
          refine ⟨body, hbody, ?_, h⟩
          rw [← hjoined, hsplit, not_not.1 hversion, hsame, tokenOf,
            List.intercalate_cons_of_ne_nil (List.cons_ne_nil _ _),
            List.intercalate_cons_of_ne_nil (List.cons_ne_nil _ _), List.intercalate_singleton, List.append_assoc,
            List.append_assoc, List.singleton_append, List.singleton_append]
  · cases h

/-- The part of a token after its last dot. -/
def signatureOf (token : Text) : Option Text := (token.splitOn dot)[2]?

theorem signatureOf_tokenOf (hbody : dot ∉ body) :
    signatureOf (tokenOf hmac body signingKey) = some (sign hmac body signingKey) := by
  rw [signatureOf, splitOn_tokenOf hbody]
  rfl

/-- A signature belongs to one body and one key. -/
theorem sign_injective {body' : Text} (hinj : ∀ k m k' m', hmac k m = hmac k' m' → k = k' ∧ m = m')
    (hbytes : ∀ k m, ∀ b ∈ hmac k m, b < 256) (hascii : ∀ c ∈ body', c < 128)
    (h : sign hmac body signingKey = sign hmac body' signingKey') : body = body' ∧ signingKey = signingKey' := by
  have hdigest := Base64Url.encode_injective (hbytes _ _) (hbytes _ _) h
  obtain ⟨hkey, hmessage⟩ := hinj _ _ _ _ hdigest
  have hsigned : ∀ u ∈ UNSUBSCRIBE_TOKEN_VERSION ++ dot :: body', u < 128 := by
    intro u hu
    rcases List.mem_append.1 hu with hu | hu
    · exact (show ∀ u ∈ UNSUBSCRIBE_TOKEN_VERSION, u < 128 by decide) u hu
    · rcases List.mem_cons.1 hu with rfl | hu
      · decide
      · exact hascii u hu
  have hwhole := eq_of_utf8_eq_ascii hsigned hmessage
  exact ⟨(List.cons.inj (List.append_cancel_left hwhole)).2, hkey⟩

/-- A minted token gives back its capability until it expires; what is accepted is signed over what it is read from, and a
minted signature is accepted under its minted token only. -/
theorem tokens_round_trip (hmac : Hmac) (hinj : ∀ k m k' m', hmac k m = hmac k' m' → k = k' ∧ m = m')
    (hbytes : ∀ k m, ∀ b ∈ hmac k m, b < 256) (hne : ∀ k m, hmac k m ≠ []) :
    (∀ (capability : UnsubscribeCapability) (signingKey : Text) (nowMs : ℚ), capability.Units →
      verifyUnsubscribeToken hmac (mintUnsubscribeToken hmac capability signingKey) signingKey nowMs =
        if capability.subjectId ≠ [] ∧ capability.cleanupId ≠ [] ∧ nowMs < capability.floored.expiresAtMs then
          some capability.floored
        else none) ∧
    ∀ (token signingKey : Text) (nowMs : ℚ) (c : UnsubscribeCapability),
      verifyUnsubscribeToken hmac token signingKey nowMs = some c →
        (∃ body, token = tokenOf hmac body signingKey ∧
          (parse (fromUtf8 (Base64Url.decode body))).bind (readCapability nowMs) = some c) ∧
        ∀ (capability : UnsubscribeCapability) (signingKey' : Text), capability.Units →
          signatureOf token = signatureOf (mintUnsubscribeToken hmac capability signingKey') →
            token = mintUnsubscribeToken hmac capability signingKey' ∧ signingKey = signingKey' ∧
              c = capability.floored := by
  refine ⟨fun capability signingKey nowMs hunits => verify_mint hne hunits signingKey nowMs,
    fun token signingKey nowMs c hverify => ?_⟩
  obtain ⟨body, hbody, rfl, hread⟩ := eq_tokenOf_of_verify hverify
  refine ⟨⟨body, rfl, hread⟩, fun capability signingKey' hunits hsignature => ?_⟩
  rw [mintUnsubscribeToken, signatureOf_tokenOf hbody, signatureOf_tokenOf (payload_no_dot _),
    Option.some.injEq] at hsignature
  have hascii : ∀ u ∈ encode (payloadText capability), u < 128 := encode_ascii _
  obtain ⟨rfl, rfl⟩ := sign_injective hinj hbytes hascii hsignature
  refine ⟨rfl, rfl, ?_⟩
  rw [fromUtf8_decode_encode hunits, parse_payloadText, Option.bind_some, readCapability_payload] at hread
  split at hread
  · exact (Option.some.inj hread).symm
  · cases hread

end

/-! ## A signer -/

def sampleKey : Text := text "signing-key"

def sampleBody : Text := text "eyJ2IjoxLCJzIjoiZ3Vlc3QiLCJpIjoiNyIsImUiOiI5IiwieCI6MX0"

/-- The HMAC of the sample body under the sample key. -/
def sampleDigest : List ℕ :=
  [93, 161, 91, 116, 89, 31, 221, 85, 206, 254, 202, 54, 184, 10, 33, 8,
    128, 95, 49, 89, 124, 246, 48, 79, 202, 148, 36, 198, 148, 13, 150, 199]

/-- A key and a message as one list of bytes. -/
def keyedBytes (key : Text) (message : List ℕ) : List ℕ := Nat.digits 256 (Encodable.encode (key, message) + 1)

def sampleHmac : Hmac := fun key message =>
  Equiv.swap (keyedBytes sampleKey (utf8 (UNSUBSCRIBE_TOKEN_VERSION ++ dot :: sampleBody))) sampleDigest
    (keyedBytes key message)

theorem keyedBytes_injective {k k' : Text} {m m' : List ℕ} (h : keyedBytes k m = keyedBytes k' m') :
    k = k' ∧ m = m' := by
  have hnumber := Nat.digits.injective 256 h
  exact Prod.mk.inj (Encodable.encode_injective (Nat.succ.inj hnumber))

theorem sampleHmac_injective (k : Text) (m : List ℕ) (k' : Text) (m' : List ℕ) (h : sampleHmac k m = sampleHmac k' m') :
    k = k' ∧ m = m' :=
  keyedBytes_injective ((Equiv.swap _ _).injective h)

theorem sampleHmac_cases (k : Text) (m : List ℕ) :
    sampleHmac k m = sampleDigest ∨ ∃ k' m', sampleHmac k m = keyedBytes k' m' := by
  rw [sampleHmac, Equiv.swap_apply_def]
  split
  · exact .inl rfl
  · split
    · exact .inr ⟨_, _, rfl⟩
    · exact .inr ⟨_, _, rfl⟩

theorem sampleHmac_bytes (k : Text) (m : List ℕ) : ∀ b ∈ sampleHmac k m, b < 256 := by
  intro b hb
  rcases sampleHmac_cases k m with h | ⟨k', m', h⟩
  · rw [h] at hb
    exact (show ∀ b ∈ sampleDigest, b < 256 by decide) b hb
  · rw [h] at hb
    exact Nat.digits_lt_base (by decide) hb

theorem sampleHmac_ne_nil (k : Text) (m : List ℕ) : sampleHmac k m ≠ [] := by
  rcases sampleHmac_cases k m with h | ⟨k', m', h⟩
  · rw [h]
    decide
  · rw [h]
    exact Nat.digits_ne_nil_iff_ne_zero.2 (Nat.succ_ne_zero _)

/-- A guest whose capability ends half a second after the first. -/
def sampleCapability : UnsubscribeCapability := ⟨.guest, text "7", text "9", 1500⟩

/-- The sample token, and what it is read as just before the first second and at it. -/
theorem sample_round_trip :
    mintUnsubscribeToken sampleHmac sampleCapability sampleKey =
        UNSUBSCRIBE_TOKEN_VERSION ++ dot :: (sampleBody ++ dot :: text "XaFbdFkf3VXO_so2uAohCIBfMVl89jBPypQkxpQNlsc") ∧
      verifyUnsubscribeToken sampleHmac (mintUnsubscribeToken sampleHmac sampleCapability sampleKey) sampleKey 999 =
        some ⟨.guest, text "7", text "9", 1000⟩ ∧
      verifyUnsubscribeToken sampleHmac (mintUnsubscribeToken sampleHmac sampleCapability sampleKey) sampleKey 1000 = none := by
  have hbody : encode (payloadText sampleCapability) = sampleBody := by decide +kernel
  have hdigest : sampleHmac sampleKey (utf8 (UNSUBSCRIBE_TOKEN_VERSION ++ dot :: sampleBody)) = sampleDigest :=
    Equiv.swap_apply_left _ _
  have hletters : Base64Url.encode sampleDigest = text "XaFbdFkf3VXO_so2uAohCIBfMVl89jBPypQkxpQNlsc" := by decide +kernel
  have hround := (tokens_round_trip sampleHmac sampleHmac_injective sampleHmac_bytes sampleHmac_ne_nil).1 sampleCapability
    sampleKey
  refine ⟨?_, (hround 999 (by decide +kernel)).trans (by decide +kernel),
    (hround 1000 (by decide +kernel)).trans (by decide +kernel)⟩
  rw [mintUnsubscribeToken, hbody, tokenOf, sign, hdigest, hletters]

def namelessCapability : UnsubscribeCapability := { sampleCapability with subjectId := [] }

/-- The sample payload with a space before its last value. -/
def spacedBody : Text := text "eyJ2IjoxLCJzIjoiZ3Vlc3QiLCJpIjoiNyIsImUiOiI5IiwieCI6IDF9"

/-- The token of a capability without a subject is never accepted, and a payload that is spelled differently but
signed is. -/
theorem nameless_refused_spaced_accepted :
    (verifyUnsubscribeToken sampleHmac (mintUnsubscribeToken sampleHmac namelessCapability sampleKey) sampleKey 999 = none ∧
        999 < namelessCapability.floored.expiresAtMs) ∧
      verifyUnsubscribeToken sampleHmac (tokenOf sampleHmac spacedBody sampleKey) sampleKey 999 =
        some sampleCapability.floored ∧
      ∀ signingKey, tokenOf sampleHmac spacedBody sampleKey ≠
        mintUnsubscribeToken sampleHmac sampleCapability.floored signingKey := by
  refine ⟨⟨?_, by decide +kernel⟩, ?_, fun signingKey heq => ?_⟩
  · rw [verify_mint sampleHmac_ne_nil (by decide +kernel)]
    exact if_neg fun h => h.1 rfl
  · rw [verify_tokenOf sampleHmac_ne_nil (by decide +kernel) (by decide +kernel)]
    decide +kernel
  · have hbody : encode (payloadText sampleCapability.floored) = sampleBody := by decide +kernel
    have hsplit := congrArg (List.splitOn dot) heq
    rw [mintUnsubscribeToken, hbody, splitOn_tokenOf (by decide +kernel), splitOn_tokenOf (by decide +kernel)] at hsplit
    injection hsplit with _ hrest
    injection hrest with hsame _
    exact absurd hsame (by decide +kernel)

end Civfix.UnsubscribeTokens
