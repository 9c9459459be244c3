import Civfix.Certificates
import Mathlib.Data.List.Nodup
import Mathlib.Data.Nat.Pairing

/-! # The objects of certificates

A document is stored under an id that no row has yet, and is removed by the call that minted the id or revoked the
row. So a document belongs to a live row or to a call in progress, unless an issue renders the document of a revoked
row again. -/
namespace Civfix.Certificates

open InterleavedCalls

variable {ren : Rendering} {s s' : Shared} {w w' : World} {p q : Await} {n : Next} {k : ℕ} {id id' : CertificateId}
  {code : Code} {r : Certificate} {b : Bytes}

/-! ## Rows and objects -/

def Shared.live (s : Shared) : List Certificate := s.rows.filter (fun r => !r.revoked)

theorem mem_live : r ∈ s.live ↔ r ∈ s.rows ∧ r.revoked = false := by
  simp only [Shared.live, List.mem_filter, Bool.not_eq_true']

theorem live_insert (hr : r.revoked = false) : (s.insert r).live = s.live ++ [r] := by
  simp only [Shared.live, Shared.insert, List.filter_append, List.filter_cons, hr, Bool.not_false, if_true,
    List.filter_nil]

theorem live_revoke (s : Shared) (code : Code) :
    (s.revoke code).live = s.live.filter (fun r => decide (r.code ≠ code)) := by
  simp only [Shared.live, Shared.revoke]
  induction s.rows with
  | nil => rfl
  | cons r rows ih =>
    rw [List.map_cons, List.filter_cons, List.filter_cons, ih]
    by_cases hcode : r.code = code <;> by_cases hr : r.revoked = true <;> simp [hcode, hr]

theorem map_revoke {f : Certificate → ℕ} (hf : ∀ r : Certificate, f { r with revoked := true } = f r) (s : Shared)
    (code : Code) : (s.revoke code).rows.map f = s.rows.map f := by
  simp only [Shared.revoke, List.map_map]
  refine List.map_congr_left fun r _ => ?_
  by_cases hcode : r.code = code
  · simp only [Function.comp_apply, if_pos hcode, hf]
  · simp only [Function.comp_apply, if_neg hcode]

theorem object_put_self (s : Shared) (id : CertificateId) (b : Bytes) : (s.put id b).object id = some b := by
  simp [Shared.object, Shared.put]

theorem object_put_of_ne (h : id ≠ id') (b : Bytes) : (s.put id' b).object id = s.object id := by
  simp only [Shared.object, Shared.put, List.find?_cons]
  rw [decide_eq_false (Ne.symm h)]

theorem object_deleteObject_self (s : Shared) (id : CertificateId) : (s.deleteObject id).object id = none := by
  simp [Shared.object, Shared.deleteObject, List.find?_filter]

theorem object_deleteObject_of_ne (h : id ≠ id') : (s.deleteObject id').object id = s.object id := by
  have hsame : (fun x : CertificateId × Bytes => decide (decide (x.1 ≠ id') = true ∧ decide (x.1 = id) = true)) =
      fun x => decide (x.1 = id) := by
    funext x
    by_cases hx : x.1 = id <;> simp [hx, h]
  simp only [Shared.object, Shared.deleteObject, List.find?_filter]
  exact congrArg (fun f => (s.objects.find? f).map Prod.snd) hsame

/-! ## Consistent states -/

/-- The live rows have their documents. -/
structure Consistent (ren : Rendering) (s : Shared) : Prop where
  ids : ∀ r ∈ s.rows, r.id < s.next
  oneId : (s.rows.map Certificate.id).Nodup
  oneCode : (s.rows.map Certificate.code).Nodup
  single : (s.live.map Certificate.fingerprint).Nodup
  documents : ∀ r ∈ s.live, ∃ b, s.object r.id = some b ∧ ren.sha256 b = r.documentSha256

/-- A certificate has the code, and no live one. -/
structure Withdrawn (s : Shared) (code : Code) : Prop where
  row : ∃ r ∈ s.rows, r.code = code
  revoked : ∀ r ∈ s.live, r.code ≠ code

/-- An id that no row has yet. -/
structure Fresh (s : Shared) (id : CertificateId) : Prop where
  lt : id < s.next
  none : ∀ r ∈ s.rows, r.id ≠ id

/-- The id that an issue has drawn. -/
def Await.mints : Await → Option CertificateId
  | .put id _ _ _ | .insert id _ _ _ _ | .findWinner id _ | .deleteOwn id _ => some id
  | _ => none

/-- The id whose object the call is going to remove, unless it inserts a row for it. -/
def Await.removes : Await → Option CertificateId
  | .deleteRevoked id _ => some id
  | p => p.mints

/-- No issue renders the document of an existing row. -/
def Pending (ren : Rendering) (s : Shared) : Await → Prop
  | .readLedger _ _ | .findLive _ _ _ | .head _ _ | .revoke _ => True
  | .putAgain _ _ | .markRegenerated _ _ => False
  | .put id _ _ _ | .findWinner id _ | .deleteOwn id _ => Fresh s id
  | .insert id asOf code _ model => Fresh s id ∧ s.object id = some (ren.pdf model code asOf)
  | .deleteRevoked id code => Withdrawn s code ∧ ∃ r ∈ s.rows, r.id = id ∧ r.code = code

theorem Pending.fresh (h : Pending ren s p) (hmints : p.mints = some id) : Fresh s id := by
  cases p with
  | put | findWinner | deleteOwn =>
    cases hmints
    exact h
  | insert =>
    cases hmints
    exact h.1
  | readLedger | findLive | head | putAgain | markRegenerated | revoke | deleteRevoked => cases hmints

theorem revoked_of_withdrawn (h : Consistent ren s) (hcode : Withdrawn s code)
    (hrow : ∃ r ∈ s.rows, r.id = id ∧ r.code = code) : ∀ r ∈ s.live, r.id ≠ id := by
  obtain ⟨r, hr, rfl, rfl⟩ := hrow
  intro r' hr' heq
  obtain rfl := List.inj_on_of_nodup_map h.oneId (mem_live.mp hr').1 hr heq
  exact hcode.revoked r' hr' rfl

theorem withdrawn_revoke (hr : r ∈ s.rows) : Withdrawn (s.revoke r.code) r.code := by
  refine ⟨?_, fun r' hr' => ?_⟩
  · have hmem : r.code ∈ s.rows.map Certificate.code := List.mem_map_of_mem hr
    rw [← map_revoke (fun _ => rfl) s r.code] at hmem
    exact List.mem_map.mp hmem
  · rw [live_revoke] at hr'
    exact of_decide_eq_true (List.mem_filter.mp hr').2

theorem Outcome.next_le (ho : Outcome ren s p s' n) : s.next ≤ s'.next := by
  cases ho with
  | minting => exact Nat.le_succ _
  | _ => exact Nat.le_refl _

/-- Only the call that has drawn an id inserts a row with it. -/
theorem Outcome.fresh (ho : Outcome ren s p s' n) (h : Fresh s id) (hmints : p.mints ≠ some id) : Fresh s' id := by
  refine ⟨Nat.lt_of_lt_of_le h.lt ho.next_le, ?_⟩
  cases ho with
  | inserted id' asOf code codes model =>
    intro r hr
    rcases List.mem_append.mp hr with hr | hr
    · exact h.none r hr
    · cases List.mem_singleton.mp hr
      exact fun heq => hmints (congrArg some heq)
  | revoked row hrow =>
    intro r hr
    obtain ⟨old, hold, rfl⟩ := List.mem_map.mp hr
    split <;> exact h.none old hold
  | regenerated model row sha =>
    intro r hr
    obtain ⟨old, hold, rfl⟩ := List.mem_map.mp hr
    split <;> exact h.none old hold
  | _ => exact h.none

/-- A row keeps its id and its code. -/
theorem Outcome.row (ho : Outcome ren s p s' n) (hr : ∃ r ∈ s.rows, r.id = id ∧ r.code = code) :
    ∃ r ∈ s'.rows, r.id = id ∧ r.code = code := by
  obtain ⟨r, hr, hid, hcode⟩ := hr
  cases ho with
  | inserted => exact ⟨r, List.mem_append_left _ hr, hid, hcode⟩
  | revoked row hrow =>
    refine ⟨_, List.mem_map_of_mem hr, ?_, ?_⟩
    · split <;> exact hid
    · split <;> exact hcode
  | regenerated model row sha =>
    refine ⟨_, List.mem_map_of_mem hr, ?_, ?_⟩
    · split <;> exact hid
    · split <;> exact hcode
  | _ => exact ⟨r, hr, hid, hcode⟩

/-- A live row was live before, or its code is new. -/
theorem Outcome.live (ho : Outcome ren s p s' n) (hr : r ∈ s'.live) :
    (∃ old ∈ s.live, old.code = r.code) ∨ ∀ old ∈ s.rows, old.code ≠ r.code := by
  cases ho with
  | inserted id asOf code codes model hcode =>
    rw [live_insert rfl] at hr
    rcases List.mem_append.mp hr with hr | hr
    · exact .inl ⟨r, hr, rfl⟩
    · cases List.mem_singleton.mp hr
      exact .inr hcode
  | revoked row hrow =>
    rw [live_revoke] at hr
    exact .inl ⟨r, List.mem_of_mem_filter hr, rfl⟩
  | regenerated model row sha =>
    obtain ⟨hmem, hlive⟩ := mem_live.mp hr
    obtain ⟨old, hold, rfl⟩ := List.mem_map.mp hmem
    refine .inl ⟨old, mem_live.mpr ⟨hold, ?_⟩, ?_⟩
    · split at hlive <;> exact hlive
    · split <;> rfl
  | _ => exact .inl ⟨r, hr, rfl⟩

theorem Outcome.withdrawn (ho : Outcome ren s p s' n) (h : Withdrawn s code) : Withdrawn s' code := by
  obtain ⟨row, hrow, hcode⟩ := h.row
  refine ⟨?_, fun r hr heq => ?_⟩
  · obtain ⟨r, hr, -, hr'⟩ := ho.row ⟨row, hrow, rfl, hcode⟩
    exact ⟨r, hr, hr'⟩
  · rcases ho.live hr with ⟨old, hold, hsame⟩ | hnew
    · exact h.revoked old hold (hsame.trans heq)
    · exact hnew row hrow (hcode.trans heq.symm)

theorem Outcome.object (ho : Outcome ren s p s' n) (hp : Pending ren s p) (h : p.removes ≠ some id) :
    s'.object id = s.object id := by
  have hne : ∀ {id'}, p.removes = some id' → id ≠ id' := fun hid heq => h (heq ▸ hid)
  cases ho with
  | restored => exact hp.elim
  | stored => exact object_put_of_ne (hne rfl) _
  | dropped | removed => exact object_deleteObject_of_ne (hne rfl)
  | _ => rfl

theorem consistent_of_outcome (ho : Outcome ren s p s' n) (h : Consistent ren s) (hp : Pending ren s p) :
    Consistent ren s' := by
  cases ho with
  | restored | regenerated => exact hp.elim
  | noHours | read | found | reused | missing | exhausted | codeTaken | lost | winnerFound | unknown => exact h
  | minting => exact ⟨fun r hr => Nat.lt_succ_of_lt (h.ids r hr), h.oneId, h.oneCode, h.single, h.documents⟩
  | stored id asOf code codes model =>
    have hfresh : Fresh s id := hp
    refine ⟨h.ids, h.oneId, h.oneCode, h.single, fun r hr => ?_⟩
    obtain ⟨b, hobject, hsha⟩ := h.documents r hr
    exact ⟨b, (object_put_of_ne (hfresh.none r (mem_live.mp hr).1) _).trans hobject, hsha⟩
  | inserted id asOf code codes model hcode hfp =>
    obtain ⟨hfresh, hstored⟩ := hp
    refine ⟨fun r hr => ?_, ?_, ?_, ?_, fun r hr => ?_⟩
    · rcases List.mem_append.mp hr with hr | hr
      · exact h.ids r hr
      · cases List.mem_singleton.mp hr
        exact hfresh.lt
    · exact nodup_map_concat h.oneId hfresh.none
    · exact nodup_map_concat h.oneCode hcode
    · rw [live_insert rfl]
      exact nodup_map_concat h.single fun r hr => hfp r (mem_live.mp hr).1 (mem_live.mp hr).2
    · rw [live_insert rfl] at hr
      rcases List.mem_append.mp hr with hr | hr
      · exact h.documents r hr
      · cases List.mem_singleton.mp hr
        exact ⟨_, hstored, rfl⟩
  | dropped id winner =>
    have hfresh : Fresh s id := hp
    refine ⟨h.ids, h.oneId, h.oneCode, h.single, fun r hr => ?_⟩
    obtain ⟨b, hobject, hsha⟩ := h.documents r hr
    exact ⟨b, (object_deleteObject_of_ne (hfresh.none r (mem_live.mp hr).1)).trans hobject, hsha⟩
  | revoked row hrow =>
    refine ⟨fun r hr => ?_, ?_, ?_, ?_, fun r hr => ?_⟩
    · obtain ⟨old, hold, rfl⟩ := List.mem_map.mp hr
      split <;> exact h.ids old hold
    · rw [map_revoke fun _ => rfl]
      exact h.oneId
    · rw [map_revoke fun _ => rfl]
      exact h.oneCode
    · rw [live_revoke]
      exact h.single.sublist (List.filter_sublist.map _)
    · rw [live_revoke] at hr
      exact h.documents r (List.mem_of_mem_filter hr)
  | removed id code =>
    have hrevoked := revoked_of_withdrawn h hp.1 hp.2
    refine ⟨h.ids, h.oneId, h.oneCode, h.single, fun r hr => ?_⟩
    obtain ⟨b, hobject, hsha⟩ := h.documents r hr
    exact ⟨b, (object_deleteObject_of_ne (hrevoked r hr)).trans hobject, hsha⟩

theorem pending_of_outcome (ho : Outcome ren s p s' (.await q)) (hp : Pending ren s p)
    (hids : ∀ r ∈ s.rows, r.id < s.next)
    (hfound : AsFound s p) : Pending ren s' q := by
  generalize hn : (InterleavedCalls.Next.await q : Next) = n at ho
  cases ho with
  | noHours | reused | regenerated | inserted | dropped | unknown | removed => cases hn
  | restored => exact hp.elim
  | missing model row hnone => exact absurd hnone hfound
  | read | found =>
    cases hn
    exact trivial
  | minting =>
    cases hn
    exact ⟨Nat.lt_succ_self _, fun r hr => Nat.ne_of_lt (hids r hr)⟩
  | exhausted | winnerFound =>
    cases hn
    exact hp
  | stored id asOf code codes model =>
    cases hn
    have hfresh : Fresh s id := hp
    exact ⟨⟨hfresh.lt, hfresh.none⟩, object_put_self s id _⟩
  | codeTaken | lost =>
    cases hn
    exact hp.1
  | revoked row hrow =>
    cases hn
    have hrevoked : Outcome ren s (.revoke row.code) (s.revoke row.code) (.await (.deleteRevoked row.id row.code)) :=
      .revoked row hrow
    exact ⟨withdrawn_revoke hrow, hrevoked.row ⟨row, hrow, rfl, rfl⟩⟩

/-- What another call relies on is left, if the two have not drawn the same id. -/
theorem Pending.keeps (h : Pending ren s q) (ho : Outcome ren s p s' n) (hp : Pending ren s p)
    (hother : ∀ id, q.mints = some id → p.mints ≠ some id) : Pending ren s' q := by
  have hfresh : ∀ {id}, q.mints = some id → Fresh s' id := fun hid => ho.fresh (h.fresh hid) (hother _ hid)
  cases q with
  | readLedger | findLive | head | revoke => exact trivial
  | putAgain | markRegenerated => exact h
  | put | findWinner | deleteOwn => exact hfresh rfl
  | insert id asOf code codes model =>
    refine ⟨hfresh rfl, (ho.object hp fun hremoves => ?_).trans h.2⟩
    cases p with
    | deleteRevoked id' code' =>
      cases hremoves
      obtain ⟨r, hr, hid, -⟩ := hp.2
      exact h.1.none r hr hid
    | _ => exact hother id rfl hremoves
  | deleteRevoked id code => exact ⟨ho.withdrawn h.1, ho.row h.2⟩

theorem Consistent.ledger (h : Consistent ren s) (model : Option Model) :
    Consistent ren { s with ledger := model } := ⟨h.ids, h.oneId, h.oneCode, h.single, h.documents⟩

theorem Pending.ledger (h : Pending ren s p) (model : Option Model) : Pending ren { s with ledger := model } p := by
  cases p with
  | readLedger | findLive | head | revoke => exact trivial
  | putAgain | markRegenerated => exact h
  | put | findWinner | deleteOwn =>
    have hfresh : Fresh s _ := h
    exact ⟨hfresh.lt, hfresh.none⟩
  | insert => exact ⟨⟨h.1.lt, h.1.none⟩, h.2⟩
  | deleteRevoked => exact ⟨⟨h.1.row, h.1.revoked⟩, h.2⟩

/-! ## Objects without a row -/

/-- The object belongs to no live row. -/
structure Owes (s : Shared) (id : CertificateId) : Prop where
  object : s.object id ≠ none
  row : ∀ r ∈ s.live, r.id ≠ id

theorem attended_of_same (h : Owes s id) (hq : q.removes = p.removes) :
    (Owes s id ∧ p.removes ≠ some id) ∨ ∃ q', (InterleavedCalls.Next.await q : Next) = .await q' ∧
    q'.removes = some id := by
  by_cases hid : p.removes = some id
  · exact .inr ⟨q, rfl, hq.trans hid⟩
  · exact .inl ⟨h, hid⟩

theorem attended_of_outcome (ho : Outcome ren s p s' n) (h : Consistent ren s) (hp : Pending ren s p)
    (howes : Owes s' id) : (Owes s id ∧ p.removes ≠ some id) ∨ ∃ q, n = .await q ∧ q.removes = some id := by
  cases ho with
  | restored | regenerated => exact hp.elim
  | noHours | reused | unknown => exact .inl ⟨howes, fun hid => by cases hid⟩
  | read | found | missing | exhausted | codeTaken | lost | winnerFound => exact attended_of_same howes rfl
  | minting => exact .inl ⟨⟨howes.object, howes.row⟩, fun hid => by cases hid⟩
  | stored id' asOf code codes model =>
    by_cases heq : id = id'
    · exact .inr ⟨_, rfl, congrArg some heq.symm⟩
    · refine .inl ⟨⟨?_, howes.row⟩, fun hid => heq (Option.some.inj hid).symm⟩
      rw [← object_put_of_ne heq]
      exact howes.object
  | inserted id' asOf code codes model hcode hfp =>
    have hrow := howes.row
    rw [live_insert rfl] at hrow
    refine .inl ⟨⟨howes.object, fun r hr => hrow r (List.mem_append_left _ hr)⟩, fun hid => ?_⟩
    exact hrow _ (List.mem_append_right _ (List.mem_singleton_self _)) (Option.some.inj hid)
  | dropped id' winner =>
    have hne : id ≠ id' := fun heq => howes.object (heq ▸ object_deleteObject_self s id)
    refine .inl ⟨⟨?_, howes.row⟩, fun hid => hne (Option.some.inj hid).symm⟩
    rw [← object_deleteObject_of_ne hne]
    exact howes.object
  | revoked row hrow =>
    by_cases heq : id = row.id
    · exact .inr ⟨_, rfl, congrArg some heq.symm⟩
    · refine .inl ⟨⟨howes.object, fun r hr hid => ?_⟩, fun hid => by cases hid⟩
      have hcode : r.code ≠ row.code := fun hcode =>
        heq (hid ▸ congrArg Certificate.id (List.inj_on_of_nodup_map h.oneCode (mem_live.mp hr).1 hrow hcode))
      refine howes.row r ?_ hid
      rw [live_revoke]
      exact List.mem_filter.mpr ⟨hr, decide_eq_true hcode⟩
  | removed id' code =>
    have hne : id ≠ id' := fun heq => howes.object (heq ▸ object_deleteObject_self s id)
    refine .inl ⟨⟨?_, howes.row⟩, fun hid => hne (Option.some.inj hid).symm⟩
    rw [← object_deleteObject_of_ne hne]
    exact howes.object

/-! ## Runs -/

structure Sound (ren : Rendering) (w : World) : Prop where
  holds : Machine.Holds (Consistent ren) (fun s _ c => Pending ren s c.await) w
  exclusive : Machine.Exclusive (fun c : Call Request Await => c.await.mints) w
  attended : Machine.Attended Owes (fun (c : Call Request Await) id => c.await.removes = some id) w

theorem mints_of_outcome (ho : Outcome ren s p s' (.await q)) : q.mints = p.mints ∨ q.mints = some s.next := by
  generalize hn : (InterleavedCalls.Next.await q : Next) = n at ho
  cases ho with
  | minting =>
    cases hn
    exact .inr rfl
  | _ => cases hn <;> exact .inl rfl

theorem Sound.step {m : Move} {res : Option Result} (h : Sound ren w) (hok : Undisturbed w m)
    (hs : (machine ren).step w m = some (w', res)) : Sound ren w' := by
  have hfound : ∀ i k c, m = .access i k → w.call i = some c → AsFound w.shared c.await := by
    intro i k c hm hc
    subst hm
    exact hok c hc
  refine ⟨Machine.Holds.step_outcome h.holds hs ?_ ?_ ?_, h.exclusive.step_taking hs ?_ ?_,
    h.attended.step hs ?_ ?_ ?_ ?_⟩
  · intro o s p _ he
    cases o <;> cases he <;> exact ⟨h.holds.shared, trivial, h.holds.calls⟩
  · intro i k c s n hm hc hk
    have hout := outcome_of_access hk
    have hp := h.holds.calls i c hc
    refine ⟨consistent_of_outcome hout h.holds.shared hp, fun q hq => ?_, fun j d hj hd => ?_⟩
    · exact pending_of_outcome (hq ▸ hout) hp h.holds.shared.ids (hfound i k c hm hc)
    · exact Pending.keeps (h.holds.calls j d hd) hout hp fun id hid hid' => hj (h.exclusive j i d c id hd hc hid hid')
  · intro e s _ he
    cases e
    cases he
    exact ⟨h.holds.shared.ledger _, fun i c hc => (h.holds.calls i c hc).ledger _⟩
  · intro o s p _ he id hid
    cases o <;> cases he <;> cases hid
  · intro i k c s q _ hc hmem
    obtain ⟨l, hl⟩ := List.mem_iff_getElem?.mp hmem
    rcases mints_of_outcome (outcome_of_access hl) with hsame | hnew
    · exact .inl hsame
    · refine .inr fun id hid j d _ hd hd' => ?_
      have hlt := ((h.holds.calls j d hd).fresh hd').lt
      exact absurd hlt (Option.some.inj (hnew.symm.trans hid) ▸ Nat.lt_irrefl _)
  · rintro i rfl
    exact hok
  · intro o s p _ he id howes
    cases o <;> cases he <;> exact .inl howes
  · intro i k c s n _ hc hk id howes
    exact attended_of_outcome (outcome_of_access hk) h.holds.shared (h.holds.calls i c hc) howes
  · intro e s _ he id howes
    cases e
    cases he
    exact ⟨howes.object, howes.row⟩

/-! ## Issues after a revoke -/

/-- The code that the call hands out without a look at its row. -/
def Await.offers : Await → Option Code
  | .head _ row | .putAgain _ row | .markRegenerated _ row => some row.code
  | .deleteOwn _ winner => winner
  | _ => none

theorem Outcome.offers (ho : Outcome ren s p s' (.await q)) (h : Withdrawn s code) (hp : p.offers ≠ some code) :
    q.offers ≠ some code := by
  generalize hn : (InterleavedCalls.Next.await q : Next) = n at ho
  cases ho with
  | noHours | reused | regenerated | inserted | dropped | unknown | removed => cases hn
  | read | minting | exhausted | stored | codeTaken | lost | revoked =>
    cases hn
    exact fun hoffers => by cases hoffers
  | missing | restored =>
    cases hn
    exact hp
  | found asOf codes model row hrow hlive =>
    cases hn
    exact fun hoffers => h.revoked row (mem_live.mpr ⟨hrow, hlive⟩) (Option.some.inj hoffers)
  | winnerFound id model winner hwinner =>
    cases hn
    intro hoffers
    obtain ⟨r, hr, hcode, hlive⟩ := hwinner code hoffers
    exact h.revoked r (mem_live.mpr ⟨hr, hlive⟩) hcode

/-- The code is revoked, and the calls from the given number on do not offer it. -/
def Closed (i : ℕ) (code : Code) (w : World) : Prop :=
  Machine.Holds (fun s => Withdrawn s code) (fun _ j c => i ≤ j → c.await.offers ≠ some code) w

theorem Closed.step {i : ℕ} {m : Move} {res : Option Result} (h : Closed i code w)
    (hs : (machine ren).step w m = some (w', res)) : Closed i code w' := by
  refine Machine.Holds.step_outcome h hs ?_ ?_ ?_
  · intro o s p _ he
    refine ⟨?_, fun _ hoffers => ?_, h.calls⟩
    · cases o <;> cases he <;> exact h.shared
    · cases o <;> cases he <;> cases hoffers
  · intro j k c s n _ hc hk
    have hout := outcome_of_access hk
    refine ⟨hout.withdrawn h.shared, fun q hq hj => ?_, fun j' d _ hd => h.calls j' d hd⟩
    exact (hq ▸ hout).offers h.shared (h.calls j c hc hj)
  · intro e s _ he
    cases e
    cases he
    exact ⟨⟨h.shared.row, h.shared.revoked⟩, h.calls⟩

/-- A code that the call offers, or that it has inserted. -/
theorem Outcome.issued {code' : Code} (ho : Outcome ren s p s' (.done (.issued code'))) (h : Withdrawn s code)
    (hp : p.offers ≠ some code) : code' ≠ code := by
  generalize hn : (InterleavedCalls.Next.done (.issued code') : Next) = n at ho
  cases ho with
  | noHours | read | found | minting | missing | restored | exhausted | stored | codeTaken | lost | winnerFound
  | unknown | revoked | removed => cases hn
  | reused | regenerated =>
    cases hn
    exact fun heq => hp (congrArg some heq)
  | inserted id asOf code'' codes model hcode =>
    cases hn
    obtain ⟨r, hr, hsame⟩ := h.row
    exact fun heq => hcode r hr (hsame.trans heq.symm)
  | dropped id winner =>
    cases winner with
    | none => cases hn
    | some code'' =>
      cases hn
      exact fun heq => hp (congrArg some heq)

theorem Outcome.returned (ho : Outcome ren s p s' (.done (.revoked code))) : ∃ id, p = .deleteRevoked id code := by
  generalize hn : (InterleavedCalls.Next.done (.revoked code) : Next) = n at ho
  cases ho with
  | removed id _ =>
    cases hn
    exact ⟨id, rfl⟩
  | dropped id winner => cases winner <;> cases hn
  | _ => cases hn

theorem Outcome.of_revoked (ho : Outcome ren s p s' (.done (.revoked code))) (hp : Pending ren s p) :
    Withdrawn s' code := by
  obtain ⟨id, rfl⟩ := ho.returned
  exact ho.withdrawn hp.1

/-- While an issue that hands out a live certificate finds its document, there is one live certificate for a
fingerprint, the live rows have their documents, no other document is left when the calls have ended, and an issue that
starts after a revoke has returned does not hand out the revoked code. -/
theorem documents_match_rows (ren : Rendering) (ledger : Option Model) (w : World)
    (h : Machine.Run (machine ren) Undisturbed (World.initial (holding ledger)) w) :
    (w.shared.live.map Certificate.fingerprint).Nodup ∧
    (∀ r ∈ w.shared.live, ∃ b, w.shared.object r.id = some b ∧ ren.sha256 b = r.documentSha256) ∧
    ((∀ i, w.call i = none) → ∀ id, w.shared.object id ≠ none → ∃ r ∈ w.shared.live, r.id = id) ∧
    ∀ j k code w₁, (machine ren).step w (.access j k) = some (w₁, some (.revoked code)) →
      ∀ w₂, Machine.Run (machine ren) Settling w₁ w₂ → ∀ i k' w₃ code', w₁.calls.length ≤ i →
        (machine ren).step w₂ (.access i k') = some (w₃, some (.issued code')) → code' ≠ code := by
  have hstart : Sound ren (World.initial (holding ledger)) := by
    refine ⟨⟨⟨fun r hr => (by cases hr), List.nodup_nil, List.nodup_nil, List.nodup_nil, fun r hr => (by cases hr)⟩,
      fun i c hc => (by simp at hc)⟩, fun i j c d id hc => (by simp at hc), fun id howes => ?_⟩
    exact absurd rfl howes.object
  have hsound : Sound ren w := h.invariant hstart (fun hw hok hs => hw.step hok hs)
  refine ⟨hsound.holds.shared.single, hsound.holds.shared.documents, fun hended id hid => ?_, ?_⟩
  · by_contra hnone
    obtain ⟨i, c, hc, -⟩ := hsound.attended id ⟨hid, fun r hr heq => hnone ⟨r, hr, heq⟩⟩
    cases (hended i).symm.trans hc
  · intro j k code w₁ hrevoke w₂ hrun i k' w₃ code' hi hissue
    obtain ⟨c, hc, hk⟩ := Machine.outcome_of_return hrevoke
    have hclosed : Closed w₁.calls.length code w₁ := by
      refine ⟨(outcome_of_access hk).of_revoked (hsound.holds.calls j c hc), fun i d hd hi => ?_⟩
      exact absurd (World.lt_of_call hd) (Nat.not_lt.mpr hi)
    have hlate : Closed w₁.calls.length code w₂ := hrun.invariant hclosed (fun hw _ hs => hw.step hs)
    obtain ⟨d, hd, hk'⟩ := Machine.outcome_of_return hissue
    exact (outcome_of_access hk').issued hlate.shared (hlate.calls i d hd hi)

/-! ## A document rendered after its row is revoked -/

/-- Different models, codes and dates have different documents. -/
def printing : Rendering := ⟨fun model => model, fun model code asOf => Nat.pair model (Nat.pair code asOf), fun b => b⟩

/-- The second issue reads the live row, the certificate is revoked and its document removed, and the issue renders
the document again. -/
def revokedWhileReused : List Move :=
  [.start (.issue 5 [7]), .access 0 0, .access 0 0, .access 0 0, .access 0 0, .start (.issue 6 [8]), .access 1 0,
    .access 1 0, .start (.revoke 7), .access 2 0, .access 2 0, .access 1 0, .access 1 0, .access 1 0]

theorem document_of_revoked_certificate :
    ¬ ∀ ren : Rendering, (∀ model code asOf model' code' asOf', ren.pdf model code asOf = ren.pdf model' code' asOf' →
        model = model' ∧ code = code' ∧ asOf = asOf') →
      ∀ ledger w, Machine.Run (machine ren) Settling (World.initial (holding ledger)) w →
        (∀ i, w.call i = none) → ∀ id, w.shared.object id ≠ none → ∃ r ∈ w.shared.live, r.id = id := by
  intro hall
  have hruns : ((machine printing).perform (World.initial (holding (some 3))) revokedWhileReused).any
      (fun w => decide ((∀ x ∈ w.calls, x = none) ∧ w.shared.object 0 ≠ none ∧ w.shared.live = [])) = true := by
    decide +kernel
  obtain ⟨w, hw, hP⟩ := (Option.any_eq_true _ _).mp hruns
  obtain ⟨hended, hobject, hlive⟩ := of_decide_eq_true hP
  have hinjective : ∀ model code asOf model' code' asOf',
      printing.pdf model code asOf = printing.pdf model' code' asOf' → model = model' ∧ code = code' ∧
        asOf = asOf' := by
    intro model code asOf model' code' asOf' heq
    obtain ⟨hmodel, hrest⟩ := Nat.pair_eq_pair.mp heq
    obtain ⟨hcode, hasOf⟩ := Nat.pair_eq_pair.mp hrest
    exact ⟨hmodel, hcode, hasOf⟩
  obtain ⟨r, hr, -⟩ := hall printing hinjective (some 3) w (Machine.run_of_perform (by decide +kernel) hw)
    (World.call_eq_none hended) 0 hobject
  rw [hlive] at hr
  cases hr

/-- Two issues race, the loser's document is removed, and the winner's certificate is handed out to both and to a
third issue. -/
def racingIssues : List Move :=
  [.start (.issue 5 [7]), .start (.issue 6 [8]), .access 0 0, .access 1 0, .access 0 0, .access 1 0, .access 0 0,
    .access 1 0, .access 0 0, .access 1 0, .access 1 0, .access 1 0, .start (.issue 9 [10]), .access 2 0, .access 2 0,
    .access 2 0]

theorem racing_documents_match : ∃ w : World, w.shared.live.map Certificate.code = [7] ∧ w.shared.object 1 = none ∧
    (∀ id, w.shared.object id ≠ none → ∃ r ∈ w.shared.live, r.id = id) := by
  have hruns : ((machine printing).perform (World.initial (holding (some 3))) racingIssues).any
      (fun w => decide ((∀ x ∈ w.calls, x = none) ∧ w.shared.object 1 = none ∧
        w.shared.live.map Certificate.code = [7])) = true := by
    decide +kernel
  obtain ⟨w, hw, hP⟩ := (Option.any_eq_true _ _).mp hruns
  obtain ⟨hended, hobject, hlive⟩ := of_decide_eq_true hP
  have hmatch := documents_match_rows printing (some 3) w (Machine.run_of_perform (by decide +kernel) hw)
  exact ⟨w, hlive, hobject, hmatch.2.2.1 (World.call_eq_none hended)⟩

/-! ## Runs with lost calls and missing documents -/

/-- A code is not given twice, and no fingerprint has two live certificates. -/
structure Distinct (s : Shared) : Prop where
  codes : (s.rows.map Certificate.code).Nodup
  single : (s.live.map Certificate.fingerprint).Nodup

/-- A revoke that is going to return has revoked the row. -/
def Revoking (s : Shared) : Await → Prop
  | .deleteRevoked _ code => Withdrawn s code
  | _ => True

theorem distinct_of_outcome (ho : Outcome ren s p s' n) (h : Distinct s) : Distinct s' := by
  cases ho with
  | inserted id asOf code codes model hcode hfp =>
    refine ⟨nodup_map_concat h.codes hcode, ?_⟩
    rw [live_insert rfl]
    exact nodup_map_concat h.single fun r hr => hfp r (mem_live.mp hr).1 (mem_live.mp hr).2
  | revoked row hrow =>
    refine ⟨?_, ?_⟩
    · rw [map_revoke fun _ => rfl]
      exact h.codes
    · rw [live_revoke]
      exact h.single.sublist (List.filter_sublist.map _)
  | regenerated model row sha =>
    have hcodes : (s.markRegenerated row.id sha).rows.map Certificate.code = s.rows.map Certificate.code := by
      simp only [Shared.markRegenerated, List.map_map]
      refine List.map_congr_left fun r _ => ?_
      simp only [Function.comp_apply]
      split <;> rfl
    have hlive : (s.markRegenerated row.id sha).live.map Certificate.fingerprint =
        s.live.map Certificate.fingerprint := by
      simp only [Shared.live, Shared.markRegenerated, List.filter_map, List.map_map]
      have hsame : ∀ r : Certificate,
          (!(if r.id = row.id then { r with documentSha256 := sha } else r).revoked) = !r.revoked := by
        intro r
        split <;> rfl
      simp only [Function.comp_def, hsame]
      refine List.map_congr_left fun r _ => ?_
      split <;> rfl
    exact ⟨hcodes ▸ h.codes, hlive ▸ h.single⟩
  | _ => exact ⟨h.codes, h.single⟩

theorem Revoking.keeps (h : Revoking s q) (ho : Outcome ren s p s' n) : Revoking s' q := by
  cases q with
  | deleteRevoked _ code => exact ho.withdrawn h
  | _ => trivial

theorem revoking_of_outcome (ho : Outcome ren s p s' (.await q)) : Revoking s' q := by
  generalize hn : (InterleavedCalls.Next.await q : Next) = n at ho
  cases ho with
  | revoked row hrow =>
    cases hn
    exact withdrawn_revoke hrow
  | _ => cases hn <;> trivial

def Settled (w : World) : Prop := Machine.Holds Distinct (fun s _ c => Revoking s c.await) w

theorem Settled.step {m : Move} {res : Option Result} (h : Settled w)
    (hs : (machine ren).step w m = some (w', res)) : Settled w' := by
  refine Machine.Holds.step_outcome h hs ?_ ?_ ?_
  · intro o s p _ he
    cases o <;> cases he <;> exact ⟨h.shared, trivial, h.calls⟩
  · intro i k c s n _ hc hk
    have hout := outcome_of_access hk
    exact ⟨distinct_of_outcome hout h.shared, fun q hq => revoking_of_outcome (hq ▸ hout),
      fun j d _ hd => (h.calls j d hd).keeps hout⟩
  · intro e s _ he
    cases e
    cases he
    refine ⟨⟨h.shared.codes, h.shared.single⟩, fun i c hc => ?_⟩
    have hp := h.calls i c hc
    generalize c.await = p at hp
    cases p with
    | deleteRevoked _ code => exact ⟨hp.row, hp.revoked⟩
    | _ => trivial

end Civfix.Certificates
