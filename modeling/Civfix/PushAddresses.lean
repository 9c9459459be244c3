import Civfix.AddressTexts

/-! # Addresses that a push may be sent to

The guard of `push-token-policy.ts` against internal hosts: an address is read into its bytes, and the bytes decide
whether it is public. `expandIpv6Hextets` of `net-ipv6.ts` writes out the groups that a double colon leaves out and
checks nothing. -/
namespace Civfix.PushAddresses

open CodeUnits AddressTexts

/-- `Number` of a text, where it is a whole number from zero on. -/
structure Numbers where
  number : Text → Option ℕ
  number_decimal : ∀ n < 256, number (decimal n) = some n

/-! ## Groups of an address -/

/-- The pieces between double colons. -/
def splitDouble : Text → List Text
  | [] => [[]]
  | [c] => [[c]]
  | c :: d :: t =>
    if c = colon ∧ d = colon then [] :: splitDouble t else (splitDouble (d :: t)).modifyHead (c :: ·)

structure Ipv6Expansion where
  hextets : List Text
  runs : ℕ
  fill : ℤ

def hextetsOf (raw : Text) : List Text := if raw = [] then [] else raw.splitOn colon

def expandIpv6Hextets (addr : Text) : Ipv6Expansion :=
  let halves := splitDouble addr
  let runs := halves.length - 1
  let head := hextetsOf (halves.headD [])
  if runs = 0 then ⟨head, runs, 0⟩
  else
    let tail := hextetsOf (halves[1]?.getD [])
    let fill : ℤ := 8 - head.length - tail.length
    ⟨head ++ List.replicate fill.toNat [48] ++ tail, runs, fill⟩

/-! ## Bytes of an address -/

/-- The place of the last occurrence. -/
def lastIndexOf (c : CodeUnit) (t : Text) : Option ℕ := (t.reverse.idxOf? c).map (t.length - 1 - ·)

def isOctet (n : ℕ) : Bool := decide (n ≤ 255)

/-- Four octets between dots. -/
def octets (N : Numbers) (t : Text) : Option (ℕ × ℕ × ℕ × ℕ) :=
  match (t.splitOn dot).map N.number with
  | [some a, some b, some c, some d] =>
    if isOctet a && isOctet b && isOctet c && isOctet d then some (a, b, c, d) else none
  | _ => none

/-- Two groups for the dotted quad after the last colon. -/
def embedQuad (N : Numbers) (s : Text) : Option Text :=
  match lastIndexOf colon s with
  | none => none
  | some cut =>
    match octets N (s.drop (cut + 1)) with
    | none => none
    | some (n0, n1, n2, n3) =>
      some (s.take (cut + 1) ++ hexText (n0 <<< 8 ||| n1) ++ colon :: hexText (n2 <<< 8 ||| n3))

def isHextet (g : Text) : Bool := decide (1 ≤ g.length ∧ g.length ≤ 4) && g.all isLowerHex

def hextetBytes (g : Text) : Option (List ℕ) :=
  if isHextet g then some [(hexValue g >>> 8) &&& 0xff, hexValue g &&& 0xff] else none

/-- The bytes of exactly eight groups. -/
def expansionBytes (e : Ipv6Expansion) : Option (List ℕ) :=
  if 1 < e.runs then none
  else if e.runs = 1 ∧ e.fill < 1 then none
  else if e.hextets.length ≠ 8 then none
  else (e.hextets.mapM hextetBytes).map List.flatten

def ipv6ToBytes (N : Numbers) (input : Text) : Option (List ℕ) :=
  let s := ((input.map lower).splitOn percent).headD []
  if s.contains dot then (embedQuad N s).bind fun s => expansionBytes (expandIpv6Hextets s)
  else expansionBytes (expandIpv6Hextets s)

/-! ## Public addresses -/

def isPublicIpv4 (N : Numbers) (host : Text) : Bool :=
  match octets N host with
  | none => false
  | some (a, b, c, _) =>
    if a = 0 ∨ a = 127 then false
    else if a = 10 then false
    else if a = 172 ∧ 16 ≤ b ∧ b ≤ 31 then false
    else if a = 192 ∧ b = 168 then false
    else if a = 169 ∧ b = 254 then false
    else if a = 100 ∧ 64 ≤ b ∧ b ≤ 127 then false
    else if a = 192 ∧ b = 0 ∧ c = 0 then false
    else if 224 ≤ a then false
    else true

def first10Zero (b : List ℕ) : Bool := (b.take 10).all (· == 0)

/-- The verdict on sixteen bytes. -/
def isPublicBytes (N : Numbers) (b : List ℕ) : Bool :=
  match b with
  | first :: second :: _ =>
    if b.all (· == 0) then false
    else if first10Zero b ∧ b[10]? = some 0xff ∧ b[11]? = some 0xff then isPublicIpv4 N (dotted (b.drop 12))
    else if first10Zero b ∧ b[10]? = some 0 ∧ b[11]? = some 0 then isPublicIpv4 N (dotted (b.drop 12))
    else if b[0]? = some 0 ∧ b[1]? = some 0x64 ∧ b[2]? = some 0xff ∧ b[3]? = some 0x9b ∧
        ((b.take 12).drop 4).all (· == 0) then
      isPublicIpv4 N (dotted (b.drop 12))
    else if first = 0xfe ∧ second &&& 0xc0 = 0x80 then false
    else if first &&& 0xfe = 0xfc then false
    else if first = 0xff then false
    else true
  | _ => false

def isPublicIpv6 (N : Numbers) (addr : Text) : Bool :=
  match ipv6ToBytes N addr with
  | none => false
  | some b => isPublicBytes N b

/-- The verdict on an address, by the family that `isIP` finds. -/
def isPublicAddress (N : Numbers) (isIP : Text → ℕ) (addr : Text) : Bool :=
  if isIP addr = 4 then isPublicIpv4 N addr
  else if isIP addr = 6 then isPublicIpv6 N addr
  else false

/-! ## The groups of a spelling -/

section

variable {g t : Text} {gs : List Text}

theorem splitDouble_cons {c : ℕ} (h : c ≠ colon) (t : Text) :
    splitDouble (c :: t) = (splitDouble t).modifyHead (c :: ·) := by
  cases t with
  | nil => rfl
  | cons d t => rw [splitDouble, if_neg fun hboth => h hboth.1]

theorem splitDouble_colon (h : t.head? ≠ some colon) :
    splitDouble (colon :: t) = (splitDouble t).modifyHead (colon :: ·) := by
  cases t with
  | nil => rfl
  | cons d t =>
    rw [splitDouble, if_neg]
    rintro ⟨-, rfl⟩
    exact h rfl

theorem splitDouble_prepend (h : colon ∉ g) (t : Text) :
    splitDouble (g ++ t) = (splitDouble t).modifyHead (g ++ ·) := by
  induction g with
  | nil => exact (congrFun List.modifyHead_id (splitDouble t)).symm
  | cons c g ih =>
    have hc : c ≠ colon := fun heq => h (heq ▸ List.mem_cons_self)
    rw [List.cons_append, splitDouble_cons hc, ih fun hmem => h (List.mem_cons_of_mem c hmem),
      List.modifyHead_modifyHead]
    rfl

theorem head?_joined (h : g ≠ []) : (joined (g :: gs)).head? = g.head? := by
  rcases eq_or_ne gs [] with rfl | hne
  · rw [joined, List.intercalate_singleton]
  · rw [joined_cons hne, List.head?_append_of_ne_nil _ h]

theorem joined_ne_nil (h : g ≠ []) : joined (g :: gs) ≠ [] := by
  intro hnil
  have hhead : (joined (g :: gs)).head? = g.head? := head?_joined h
  rw [hnil, List.head?_nil] at hhead
  exact h (List.head?_eq_none_iff.mp hhead.symm)

/-- A group that can stand between colons. -/
def Plain (g : Text) : Prop := g ≠ [] ∧ colon ∉ g

/-- Groups between colons hold no double colon, and do not make one with what follows. -/
theorem splitDouble_joined (h : ∀ g ∈ gs, Plain g) (t : Text) :
    splitDouble (joined gs ++ t) = (splitDouble t).modifyHead (joined gs ++ ·) := by
  induction gs with
  | nil => exact (congrFun List.modifyHead_id (splitDouble t)).symm
  | cons g gs ih =>
    obtain ⟨-, hcolon⟩ := h g List.mem_cons_self
    rcases eq_or_ne gs [] with rfl | hne
    · rw [joined, List.intercalate_singleton]
      exact splitDouble_prepend hcolon t
    · have hhead : (joined gs ++ t).head? ≠ some colon := by
        obtain ⟨g', rest, rfl⟩ := List.exists_cons_of_ne_nil hne
        obtain ⟨hg', hcolon'⟩ := h g' (List.mem_cons_of_mem g List.mem_cons_self)
        rw [List.head?_append_of_ne_nil _ (joined_ne_nil hg'), head?_joined hg']
        exact fun hhead => hcolon' (List.mem_of_head? hhead)
      rw [joined_cons hne, List.append_assoc, splitDouble_prepend hcolon, List.cons_append, splitDouble_colon hhead,
        ih fun g hg => h g (List.mem_cons_of_mem _ hg), List.modifyHead_modifyHead, List.modifyHead_modifyHead]
      simp only [Function.comp_def, List.append_assoc, List.cons_append]

theorem splitDouble_groups (h : ∀ g ∈ gs, Plain g) : splitDouble (joined gs) = [joined gs] := by
  have hsplit := splitDouble_joined h []
  rwa [List.append_nil, splitDouble, List.modifyHead_cons, List.append_nil] at hsplit

theorem splitDouble_gap (h : ∀ g ∈ gs, Plain g) (t : Text) :
    splitDouble (joined gs ++ colon :: colon :: t) = joined gs :: splitDouble t := by
  rw [splitDouble_joined h, splitDouble, if_pos ⟨rfl, rfl⟩, List.modifyHead_cons, List.append_nil]

theorem hextetsOf_joined (h : ∀ g ∈ gs, Plain g) : hextetsOf (joined gs) = gs := by
  cases gs with
  | nil => rfl
  | cons g gs =>
    rw [hextetsOf, if_neg (joined_ne_nil (h g List.mem_cons_self).1), joined]
    exact List.splitOn_intercalate colon (fun g hg => (h g hg).2) (List.cons_ne_nil g gs)

/-- The expansion of plain groups on both sides of a double colon. -/
theorem expandIpv6Hextets_spelled {sides : List Text × Option (List Text)} (hhead : ∀ g ∈ sides.1, Plain g)
    (htail : ∀ g ∈ sides.2.getD [], Plain g)
    (hfull : sides.2 = none → sides.1.length = 8) :
    (expandIpv6Hextets (spelled sides)).hextets = filled 8 [48] sides ∧
      (expandIpv6Hextets (spelled sides)).runs = sides.2.toList.length ∧
      (sides.2.isSome → (expandIpv6Hextets (spelled sides)).fill = 8 - sides.1.length - (sides.2.getD []).length) := by
  obtain ⟨head, gap⟩ := sides
  cases gap with
  | none =>
    have hlength : head.length = 8 := hfull rfl
    simp only [spelled, expandIpv6Hextets, splitDouble_groups hhead, List.length_singleton, Nat.sub_self, if_true,
      List.headD_cons, hextetsOf_joined hhead, filled, Option.getD_none, List.length_nil, hlength,
      List.replicate_zero, List.append_nil]
    exact ⟨trivial, rfl, fun h => absurd h (by decide)⟩
  | some tail =>
    have htail : ∀ g ∈ tail, Plain g := htail
    have hsplit : splitDouble (joined head ++ colon :: colon :: joined tail) = [joined head, joined tail] := by
      rw [splitDouble_gap hhead, splitDouble_groups htail]
    have hfill : ((8 : ℤ) - head.length - tail.length).toNat = 8 - head.length - tail.length := by omega
    simp only [spelled, expandIpv6Hextets, hsplit, List.length_cons, List.length_nil, Nat.zero_add, Nat.add_one_sub_one,
      Nat.one_ne_zero, if_false, List.headD_cons, List.getElem?_cons_succ, List.getElem?_cons_zero, Option.getD_some,
      hextetsOf_joined hhead, hextetsOf_joined htail, filled, hfill]
    exact ⟨trivial, rfl, fun _ => trivial⟩

end

/-! ## The bytes of a spelling -/

theorem isHextet_of (g : Text) (hne : g ≠ []) (hshort : g.length ≤ 4) (hdigits : ∀ c ∈ g, isLowerHex c = true) :
    isHextet g = true := by
  rw [isHextet, Bool.and_eq_true, decide_eq_true_eq, List.all_eq_true]
  exact ⟨⟨List.length_pos_iff.mpr hne, hshort⟩, hdigits⟩

theorem plain_of_isHextet {g : Text} (h : isHextet g = true) : Plain g := by
  rw [isHextet, Bool.and_eq_true, decide_eq_true_eq, List.all_eq_true] at h
  refine ⟨List.ne_nil_of_length_pos h.1.1, fun hmem => ?_⟩
  exact ne_colon_of_hexDigit (isHexDigit_of_lowerHex (h.2 colon hmem)) rfl

theorem hextetBytes_of_isHextet {g : Text} (h : isHextet g = true) : hextetBytes g = some (twoBytes (hexValue g)) := by
  have hall := h
  rw [isHextet, Bool.and_eq_true, decide_eq_true_eq, List.all_eq_true] at hall
  obtain ⟨⟨-, hshort⟩, hdigits⟩ := hall
  have hlt : hexValue g < 65536 := calc
    hexValue g < 16 ^ g.length := hexValue_lt fun c hc => isHexDigit_of_lowerHex (hdigits c hc)
    _ ≤ 16 ^ 4 := Nat.pow_le_pow_right (by omega) hshort
  have hmask : ∀ n : ℕ, n &&& 0xff = n % 256 := fun n => Nat.and_two_pow_sub_one_eq_mod n 8
  rw [hextetBytes, if_pos h, hmask, hmask, Nat.shiftRight_eq_div_pow, twoBytes, Nat.mod_eq_of_lt (by omega)]

theorem twoBytes_octets (a b : Fin 256) : twoBytes ((a : ℕ) <<< 8 ||| b) = [(a : ℕ), (b : ℕ)] ∧
    (a : ℕ) <<< 8 ||| b < 65536 := by
  have hsum : (a : ℕ) <<< 8 ||| b = a * 256 + b := by
    rw [← Nat.shiftLeft_add_eq_or_of_lt (show (b : ℕ) < 2 ^ 8 from b.isLt), Nat.shiftLeft_eq]
  have ha := a.isLt
  have hb := b.isLt
  rw [hsum, twoBytes]
  refine ⟨?_, by omega⟩
  rw [show ((a : ℕ) * 256 + b) / 256 = a by omega, show ((a : ℕ) * 256 + b) % 256 = b by omega]

theorem mapM_of_forall {α β : Type*} {f : α → Option β} {g : α → β} {l : List α} (h : ∀ a ∈ l, f a = some (g a)) :
    l.mapM f = some (l.map g) := by
  induction l with
  | nil => rfl
  | cons a l ih =>
    rw [List.mapM_cons, h a List.mem_cons_self, ih fun b hb => h b (List.mem_cons_of_mem a hb)]
    rfl

/-- The groups of a spelling in lower case, with two groups for the quad. -/
def lowGroups (sp : Spelling) : List Text × Option (List Text) :=
  sp.sides (fun h => [h.text.map lower]) fun q =>
    [hexText ((q.a : ℕ) <<< 8 ||| q.b), hexText ((q.c : ℕ) <<< 8 ||| q.d)]

variable {sp : Spelling}

theorem isHextet_lowGroups :
    (∀ g ∈ (lowGroups sp).1, isHextet g = true) ∧ ∀ g ∈ (lowGroups sp).2.getD [], isHextet g = true := by
  refine Spelling.forall_sides (fun h g hg => ?_) (fun q g hg => ?_)
  · cases List.mem_singleton.mp hg
    refine isHextet_of _ ?_ ?_ ?_
    · simpa using List.ne_nil_of_length_pos h.short.1
    · rw [List.length_map]
      exact h.short.2
    · intro c hc
      obtain ⟨d, hd, rfl⟩ := List.mem_map.mp hc
      exact h.digits d hd
  · have hhex : ∀ n < 65536, isHextet (hexText n) = true := by
      intro n hn
      exact isHextet_of _ (hexText_ne_nil n) (length_hexText_le hn) fun c hc => isLowerHex_of_hexText hc
    rcases List.mem_pair.mp hg with rfl | rfl
    · exact hhex _ (twoBytes_octets q.a q.b).2
    · exact hhex _ (twoBytes_octets q.c q.d).2

theorem length_lowGroups (sp : Spelling) : ((lowGroups sp).2 = none → (lowGroups sp).1.length = 8) ∧
    ((lowGroups sp).2.isSome → (lowGroups sp).1.length + ((lowGroups sp).2.getD []).length < 8) :=
  Spelling.length_sides (fun _ => rfl) fun _ => rfl

theorem length_filled_lowGroups : (filled 8 [48] (lowGroups sp)).length = 8 := by
  obtain ⟨hnone, hsome⟩ := length_lowGroups sp
  simp only [filled, List.length_append, List.length_replicate]
  cases h : (lowGroups sp).2 with
  | none => simp only [hnone h, Option.getD_none, List.length_nil]
  | some tail =>
    have hless := hsome (by rw [h]; rfl)
    rw [h] at hless
    omega

theorem isHextet_filled_lowGroups {g : Text} (h : g ∈ filled 8 [48] (lowGroups sp)) : isHextet g = true := by
  rw [filled, List.mem_append, List.mem_append] at h
  rcases h with (h | h) | h
  · exact isHextet_lowGroups.1 g h
  · rw [List.eq_of_mem_replicate h]
    decide
  · exact isHextet_lowGroups.2 g h

/-- The groups of a spelling stand for the bytes of its address. -/
theorem bytes_lowGroups : (filled 8 [48] (lowGroups sp)).flatMap (fun g => twoBytes (hexValue g)) = sp.bytes := by
  have hbytes : expanded (fun g => twoBytes (hexValue g)) (lowGroups sp) = sp.sides Hextet.bytes Quad.bytes := by
    rw [lowGroups, Spelling.expanded_sides]
    congr 1
    · funext h
      rw [List.flatMap_singleton, hexValue_lower, Hextet.bytes]
    · funext q
      rw [List.flatMap_cons, List.flatMap_singleton, hexValue_hexText, hexValue_hexText, (twoBytes_octets q.a q.b).1,
        (twoBytes_octets q.c q.d).1, Quad.bytes]
      rfl
  have hfilled : (filled 8 [48] (lowGroups sp)).flatMap (fun g => twoBytes (hexValue g)) =
      filled (8 * 2) 0 (expanded (fun g => twoBytes (hexValue g)) (lowGroups sp)) :=
    filled_expanded (f := fun g => twoBytes (hexValue g)) (k := 2) rfl (fun _ _ => rfl) fun _ _ => rfl
  rw [hfilled, hbytes, Spelling.bytes]

/-- Written out in groups, a spelling has the bytes of its address. -/
theorem expansionBytes_lowGroups :
    expansionBytes (expandIpv6Hextets (spelled (lowGroups sp))) = some sp.bytes := by
  obtain ⟨hfull, hless⟩ := length_lowGroups sp
  obtain ⟨hhextets, hruns, hfill⟩ := expandIpv6Hextets_spelled
    (fun g hg => plain_of_isHextet (isHextet_lowGroups.1 g hg))
    (fun g hg => plain_of_isHextet (isHextet_lowGroups.2 g hg)) hfull
  have hone : ¬1 < (expandIpv6Hextets (spelled (lowGroups sp))).runs := by
    rw [hruns]
    cases (lowGroups sp).2 <;> simp
  have hfilled : ¬((expandIpv6Hextets (spelled (lowGroups sp))).runs = 1 ∧
      (expandIpv6Hextets (spelled (lowGroups sp))).fill < 1) := by
    rw [hruns]
    cases h : (lowGroups sp).2 with
    | none => exact fun hboth => absurd hboth.1 (by decide)
    | some tail =>
      have hgap : (lowGroups sp).2.isSome := by rw [h]; rfl
      have hfits := hless hgap
      rw [hfill hgap]
      omega
  have hall : ∀ g ∈ filled 8 [48] (lowGroups sp), hextetBytes g = some (twoBytes (hexValue g)) :=
    fun g hg => hextetBytes_of_isHextet (isHextet_filled_lowGroups hg)
  rw [expansionBytes, if_neg hone, if_neg hfilled, hhextets, length_filled_lowGroups, if_neg (by decide),
    mapM_of_forall hall, Option.map_some, ← List.flatMap_def, bytes_lowGroups]

/-! ## Reading a spelling -/

theorem lastIndexOf_append {c : ℕ} {t : Text} (h : c ∉ t) (lead : Text) :
    lastIndexOf c (lead ++ c :: t) = some lead.length := by
  have hfound : (lead ++ c :: t).reverse.idxOf? c = some t.length := by
    rw [List.reverse_append, List.reverse_cons, List.append_assoc, List.singleton_append, List.idxOf?,
      List.findIdx?_append, ← List.idxOf?, List.idxOf?_eq_none_iff.mpr (List.mem_reverse.not.mpr h), Option.none_or,
      List.idxOf?_cons, beq_self_eq_true, if_pos rfl, Option.map_some, List.length_reverse, Nat.zero_add]
  rw [lastIndexOf, hfound, Option.map_some, List.length_append, List.length_cons]
  congr 1
  omega

variable (N : Numbers)

theorem octets_dotted (q : Quad) : octets N (dotted q.bytes) =
    some ((q.a : ℕ), (q.b : ℕ), (q.c : ℕ), (q.d : ℕ)) := by
  have hsplit : (dotted q.bytes).splitOn dot = q.bytes.map decimal := by
    refine List.splitOn_intercalate dot (fun t ht => ?_) (List.cons_ne_nil _ _)
    obtain ⟨n, -, rfl⟩ := List.mem_map.mp ht
    exact fun hmem => absurd (isDigit_of_decimal hmem) (by decide)
  have hoctet : ∀ n : Fin 256, isOctet n = true := fun n => decide_eq_true (Nat.le_of_lt_succ n.isLt)
  rw [octets.eq_def, hsplit]
  simp only [Quad.bytes, List.map_cons, List.map_nil, N.number_decimal _ (Fin.isLt _), hoctet, Bool.and_self, if_true]

theorem colon_not_mem_dotted (bytes : List ℕ) : colon ∉ dotted bytes := by
  intro hmem
  rcases mem_dotted hmem with h | h
  · exact absurd h (by decide)
  · exact absurd h (by decide)

theorem embedQuad_lead (lead : Text) (q : Quad) : embedQuad N (lead ++ colon :: dotted q.bytes) =
    some (lead ++ colon :: (hexText ((q.a : ℕ) <<< 8 ||| q.b) ++ colon :: hexText ((q.c : ℕ) <<< 8 ||| q.d))) := by
  have htake : (lead ++ colon :: dotted q.bytes).take (lead.length + 1) = lead ++ [colon] := by
    rw [List.take_length_add_append, List.take_succ_cons, List.take_zero]
  have hdrop : (lead ++ colon :: dotted q.bytes).drop (lead.length + 1) = dotted q.bytes := by
    rw [List.drop_length_add_append, List.drop_succ_cons, List.drop_zero]
  simp only [embedQuad, lastIndexOf_append (colon_not_mem_dotted _), htake, hdrop, octets_dotted, List.append_assoc,
    List.cons_append, List.nil_append]

/-- The zone is cut off and the address is read in lower case. -/
theorem cut_zone (sp : Spelling) : ((sp.text.map lower).splitOn percent).headD [] = sp.address.map lower := by
  have hnot : percent ∉ sp.address.map lower := by
    intro hmem
    obtain ⟨c, hc, heq⟩ := List.mem_map.mp hmem
    exact Spelling.percent_not_mem_address (eq_of_lower_eq (by decide) heq ▸ hc)
  rw [Spelling.text]
  cases sp.zone with
  | none => rw [Option.elim_none, List.append_nil, List.splitOn_eq_singleton hnot, List.headD_cons]
  | some z =>
    rw [Option.elim_some, List.map_append, List.map_cons, show lower percent = percent from rfl,
      List.splitOn_append_cons_self_of_not_mem hnot, List.headD_cons]

theorem map_lower_address (sp : Spelling) : sp.address.map lower =
    spelled (sp.sides (fun h => [h.text.map lower]) fun q => [dotted q.bytes]) := by
  have hdotted : ∀ q : Quad, (dotted q.bytes).map lower = dotted q.bytes := by
    intro q
    refine (List.map_congr_left fun c hc => ?_).trans (List.map_id _)
    rcases mem_dotted hc with h | rfl
    · exact lower_of_digit h
    · rfl
  rw [Spelling.address, map_spelled (show lower colon = colon from rfl), Spelling.expanded_sides]
  simp only [List.flatMap_singleton, hdotted]

/-- Every spelling is read as the bytes of its address. -/
theorem ipv6ToBytes_text (sp : Spelling) : ipv6ToBytes N sp.text = some sp.bytes := by
  rw [ipv6ToBytes]
  simp only [cut_zone]
  cases hquad : sp.quad with
  | none =>
    have hdot : ¬(sp.address.map lower).contains dot = true := by
      rw [List.contains_iff_mem]
      intro hmem
      obtain ⟨c, hc, heq⟩ := List.mem_map.mp hmem
      exact Spelling.dot_not_mem_address hquad (eq_of_lower_eq (by decide) heq ▸ hc)
    rw [if_neg hdot, map_lower_address, Spelling.sides_of_no_quad hquad, ← lowGroups, expansionBytes_lowGroups]
  | some q =>
    obtain ⟨lead, hone, htwo⟩ := Spelling.exists_lead hquad fun h => h.text.map lower
    have hlow : spelled (lowGroups sp) = lead ++ colon ::
        (hexText ((q.a : ℕ) <<< 8 ||| q.b) ++ colon :: hexText ((q.c : ℕ) <<< 8 ||| q.d)) := by
      rw [lowGroups, Spelling.sides_of_quad hquad, htwo]
    have haddress : sp.address.map lower = lead ++ colon :: dotted q.bytes := by
      rw [map_lower_address, Spelling.sides_of_quad hquad, hone]
    have hdot : (sp.address.map lower).contains dot = true := by
      rw [haddress, List.contains_iff_mem]
      simp [dotted, Quad.bytes]
    rw [if_pos hdot, haddress, embedQuad_lead, Option.bind_some, ← hlow, expansionBytes_lowGroups]

/-! ## The verdict on a spelling -/

/-- An IPv4 address inside sixteen bytes: mapped, compatible, or under `64:ff9b::/96`. -/
def Embeds (b : List ℕ) (q : Quad) : Prop :=
  b = List.replicate 10 0 ++ [0xff, 0xff] ++ q.bytes ∨ b = List.replicate 12 0 ++ q.bytes ∨
    b = [0, 0x64, 0xff, 0x9b] ++ List.replicate 8 0 ++ q.bytes

theorem isPublicIpv6_text (sp : Spelling) : isPublicIpv6 N sp.text = isPublicBytes N sp.bytes := by
  rw [isPublicIpv6, ipv6ToBytes_text]

theorem isPublicBytes_zero {b : List ℕ} (h : ∀ n ∈ b, n = 0) : isPublicBytes N b = false := by
  rw [isPublicBytes.eq_def]
  split
  · next first second rest =>
    have hall : (first :: second :: rest).all (· == 0) = true := by simpa using h
    rw [if_pos hall]
  · rfl

/-- The octets after the embedding's mark decide, all zeros included. -/
theorem isPublicBytes_embeds {b : List ℕ} {q : Quad} (h : Embeds b q) :
    isPublicBytes N b = isPublicIpv4 N (dotted q.bytes) := by
  rcases h with rfl | rfl | rfl
  · simp [isPublicBytes, first10Zero, List.replicate, Quad.bytes]
  · rcases Decidable.em (∀ n ∈ q.bytes, n = 0) with hzero | hzero
    · have hfirst : (q.a : ℕ) = 0 := hzero q.a List.mem_cons_self
      have hall : ∀ n ∈ List.replicate 12 0 ++ q.bytes, n = 0 := by
        intro n hn
        rcases List.mem_append.mp hn with hn | hn
        · exact List.eq_of_mem_replicate hn
        · exact hzero n hn
      rw [isPublicBytes_zero N hall, isPublicIpv4, octets_dotted]
      simp only [hfirst, true_or, if_true]
    · have hall : (List.replicate 12 0 ++ q.bytes).all (· == 0) = false := by
        rw [List.all_append, Bool.and_eq_false_iff]
        exact .inr (by simpa using hzero)
      simp only [isPublicBytes, List.replicate, List.cons_append, List.nil_append] at hall ⊢
      rw [hall]
      simp [first10Zero]
  · simp [isPublicBytes, first10Zero, List.replicate, Quad.bytes]

/-- Every spelling of an IPv6 address, as `isIP` accepts them, is read as the sixteen bytes it denotes, so the verdict
depends on them alone: an embedded IPv4 address gets the verdict of `isPublicIpv4`, and the address zero is refused. -/
theorem isPublicIpv6_reads_address (isIP : Text → ℕ) (sp : Spelling) :
    ipv6ToBytes N sp.text = some sp.bytes ∧ sp.bytes.length = 16 ∧
      (∀ sp' : Spelling, sp'.bytes = sp.bytes → isPublicIpv6 N sp'.text = isPublicIpv6 N sp.text) ∧
      (∀ q, Embeds sp.bytes q → isPublicIpv6 N sp.text = isPublicIpv4 N (dotted q.bytes)) ∧
      ((∀ n ∈ sp.bytes, n = 0) → isPublicIpv6 N sp.text = false) ∧
      (isIP sp.text = 6 → isPublicAddress N isIP sp.text = isPublicBytes N sp.bytes) := by
  refine ⟨ipv6ToBytes_text N sp, ?_, fun sp' hsame => ?_, fun q hembeds => ?_, fun hzero => ?_, fun hfamily => ?_⟩
  · have htwo : ∀ g : Text, (twoBytes (hexValue g)).length = 2 := fun _ => rfl
    rw [← bytes_lowGroups, List.length_flatMap]
    simp only [htwo, List.map_const', List.sum_replicate_nat, length_filled_lowGroups]
  · rw [isPublicIpv6_text, isPublicIpv6_text, hsame]
  · rw [isPublicIpv6_text, isPublicBytes_embeds N hembeds]
  · rw [isPublicIpv6_text, isPublicBytes_zero N hzero]
  · rw [isPublicAddress, if_neg (by omega), if_pos hfamily, isPublicIpv6_text]

/-- `Number` of decimal digits. -/
def digitNumbers : Numbers where
  number t := if t ≠ [] ∧ t.all isDigit then some (value t) else none
  number_decimal n _ := by
    rw [if_pos ⟨decimal_ne_nil n, List.all_eq_true.mpr fun c hc => isDigit_of_decimal hc⟩, value_decimal]

/-- `::FFFF:169.254.0.1%eth0`. -/
def mappedLinkLocal : Spelling where
  head := []
  gap := some [⟨text "FFFF", by decide, by decide⟩]
  quad := some ⟨169, 254, 0, 1⟩
  zone := some (text "eth0")
  complete := show 0 + 1 + 2 < 8 by decide

theorem isPublicIpv6_reads_mappedLinkLocal : mappedLinkLocal.text = text "::FFFF:169.254.0.1%eth0" ∧
    isPublicAddress digitNumbers (fun _ => 6) mappedLinkLocal.text = isPublicBytes digitNumbers mappedLinkLocal.bytes ∧
    isPublicIpv6 digitNumbers mappedLinkLocal.text = isPublicIpv4 digitNumbers (dotted [169, 254, 0, 1]) ∧
    isPublicIpv4 digitNumbers (dotted [169, 254, 0, 1]) = false := by
  have h := isPublicIpv6_reads_address digitNumbers (fun _ => 6) mappedLinkLocal
  exact ⟨by decide +kernel, h.2.2.2.2.2 rfl, h.2.2.2.1 ⟨169, 254, 0, 1⟩ (.inl (by decide +kernel)), by decide +kernel⟩

end Civfix.PushAddresses
